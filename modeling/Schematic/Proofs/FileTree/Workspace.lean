import Mathlib.Tactic.SplitIfs
import Schematic.Proofs.Fault
import Schematic.Proofs.FileTree.Tree
import Schematic.Proofs.Text.Split

/-!
# Files of a workspace

Making the directories above a path changes no file. Writing a file changes the one that its path
leads to afterwards, and no other.
-/

namespace Schematic

/-! ### Paths -/

namespace FilePath

variable {path : Text} {absolute : Bool} {names : List Text}

/-- The names between the slashes of a path that lead to another place. -/
def AreNames (names : List Text) : Prop :=
  ∀ name ∈ names, isProper name = true ∧ CodePoint.char '/' ∉ name

lemma areNames_properParts (path : Text) : AreNames (properParts path) := by
  intro name hname
  obtain ⟨hmem, hproper⟩ := List.mem_filter.mp hname
  exact ⟨hproper, Text.not_mem_of_mem_splitAll hmem⟩

lemma AreNames.dropLast (h : AreNames names) : AreNames names.dropLast :=
  fun name hname => h name (List.dropLast_subset names hname)

lemma AreNames.parts_join (h : AreNames names) (hne : names ≠ []) :
    parts (Text.join "/" names) = names :=
  Text.splitAll_join hne fun name hname => (h name hname).2

/-- Names are joined to a text that starts with no slash. -/
lemma AreNames.exists_join (h : AreNames names) (hne : names ≠ []) :
    ∃ c rest, Text.join "/" names = c :: rest ∧ c ≠ .char '/' := by
  obtain ⟨hproper, hslash⟩ := h _ (List.head_mem hne)
  match names with
  | (c :: name) :: [] =>
    exact ⟨c, name, Text.join_singleton _ _, fun hc => hslash (by simp [hc])⟩
  | (c :: name) :: second :: names =>
    exact ⟨c, _, Text.join_cons_cons _ _ _ _, fun hc => hslash (by simp [hc])⟩
  | [] :: _ => simp [isProper] at hproper

/-- A path that is put together has the parts that it was put together from. -/
lemma AreNames.parts_ofParts (h : AreNames names) (hne : names ≠ []) :
    parts (ofParts absolute names) = if absolute then [] :: names else names := by
  obtain ⟨c, rest, hjoin, -⟩ := h.exists_join hne
  cases absolute with
  | true =>
    show parts (CodePoint.char '/' :: Text.join "/" names) = [] :: names
    rw [parts, Text.splitAll, if_pos rfl]
    exact congrArg _ (h.parts_join hne)
  | false =>
    show parts (if (Text.join "/" names).isEmpty then "." else Text.join "/" names) = names
    rw [hjoin, List.isEmpty_cons, if_neg Bool.false_ne_true, ← hjoin, h.parts_join hne]

/-- A path that is put together is absolute if it was meant to be. -/
lemma AreNames.isAbsolute_ofParts (h : AreNames names) (hne : names ≠ []) :
    isAbsolute (ofParts absolute names) = absolute := by
  obtain ⟨c, rest, hjoin, hc⟩ := h.exists_join hne
  cases absolute with
  | true => rfl
  | false =>
    show isAbsolute (if (Text.join "/" names).isEmpty then "." else Text.join "/" names) = false
    rw [hjoin, List.isEmpty_cons, if_neg Bool.false_ne_true]
    simp [isAbsolute, Text.startsWith, Text.ofString, List.isPrefixOf, Ne.symm hc]

/-- No path that is put together is empty. -/
lemma ofParts_ne_nil : ofParts absolute names ≠ [] := by
  cases absolute with
  | true => exact List.cons_ne_nil _ _
  | false =>
    show (if (Text.join "/" names).isEmpty then Text.ofString "." else Text.join "/" names) ≠ []
    split
    · exact List.cons_ne_nil _ _
    · next hjoin => simpa using hjoin

/-- The proper parts of a path are the names that it was put together from. -/
lemma AreNames.properParts_ofParts (h : AreNames names) :
    properParts (ofParts absolute names) = names := by
  by_cases hne : names = []
  · subst hne
    cases absolute <;> rfl
  · have hfilter : names.filter isProper = names :=
      List.filter_eq_self.mpr fun name hname => (h name hname).1
    rw [properParts, h.parts_ofParts hne]
    cases absolute <;> exact hfilter

lemma isAbsolute_normal (path : Text) : isAbsolute (normal path) = isAbsolute path := by
  by_cases hne : properParts path = []
  · rw [normal, hne]
    cases isAbsolute path <;> rfl
  · exact (areNames_properParts path).isAbsolute_ofParts hne

lemma properParts_normal (path : Text) : properParts (normal path) = properParts path :=
  (areNames_properParts path).properParts_ofParts

end FilePath

namespace Workspace

open FilePath

variable {w w' : Workspace} {place place' : List Text} {names more : List Text} {name path : Text}
  {absolute : Bool} {bytes : List UInt8}

/-! ### Ways through a tree -/

/-- Where a name leads from a place that is a directory with some entries. -/
def next (entries : List (Text × FileTree)) (place : List Text) (name : Text) :
    Except FileFault (List Text) :=
  if !isProper name then .ok place
  else if name = Text.ofString ".." then .ok place.dropLast
  else if maxName < byteCount name then .error .nameTooLong
  else if entries.any (·.1 == name) then .ok (place ++ [name])
  else .error .absent

/-- A walk goes on in the directory that its first name leads to. -/
lemma walk_cons (name : Text) (names : List Text) :
    w.walk place (name :: names) =
      match w.root.at? place with
      | none => .error .absent
      | some (.file _) => .error .notDirectory
      | some (.directory entries) =>
        next entries place name >>= fun place => w.walk place names := by
  rw [walk]
  cases w.root.at? place with
  | none => rfl
  | some t =>
    cases t with
    | file bytes => rfl
    | directory entries =>
      simp only [next]
      split_ifs <;> rfl

/-- A walk to a last name goes to the others first. -/
lemma walk_concat (names : List Text) (name : Text) :
    w.walk place (names ++ [name]) = w.walk place names >>= fun place => w.walk place [name] := by
  induction names generalizing place with
  | nil => rfl
  | cons first names ih =>
    rw [List.cons_append, walk_cons, walk_cons]
    cases w.root.at? place with
    | none => rfl
    | some t =>
      cases t with
      | file bytes => rfl
      | directory entries =>
        simp only []
        cases next entries place first with
        | error fault => rfl
        | ok place => exact ih

/-- A step stays possible in a directory with more names. -/
lemma next_of_subset {entries entries' : List (Text × FileTree)}
    (h : ∀ name, entries.any (·.1 == name) = true → entries'.any (·.1 == name) = true)
    (hnext : next entries place name = .ok place') : next entries' place name = .ok place' := by
  have hentry := h name
  unfold next at hnext ⊢
  split_ifs at hnext ⊢ <;> simp_all only [not_true, forall_const]

/-- What a name must be that leads nowhere because there is no entry of it. -/
lemma next_eq_absent {entries : List (Text × FileTree)}
    (h : next entries place name = .error .absent) :
    isProper name = true ∧ name ≠ Text.ofString ".." ∧ ¬ maxName < byteCount name ∧
      entries.any (·.1 == name) = false := by
  unfold next at h
  split_ifs at h <;> simp_all only [Bool.not_eq_true', Bool.not_eq_false, ne_eq, not_false_eq_true,
    Bool.not_eq_true, and_self, Except.error.injEq, reduceCtorEq]

/-- A step to a name that is there leads to its place. -/
lemma next_of_entry {entries : List (Text × FileTree)} (hproper : isProper name = true)
    (hup : name ≠ Text.ofString "..") (hlong : ¬ maxName < byteCount name)
    (hentry : entries.any (·.1 == name) = true) :
    next entries place name = .ok (place ++ [name]) := by
  simp only [next, hproper, Bool.not_true, Bool.false_eq_true, if_false, if_neg hup, if_neg hlong,
    hentry, if_true]

/-- A way through a tree is one through every tree that keeps its directories. -/
lemma walk_of_keeps (h : w.root.Keeps w'.root) (hwalk : w.walk place names = .ok place') :
    w'.walk place names = .ok place' := by
  induction names generalizing place with
  | nil => exact hwalk
  | cons name names ih =>
    rw [walk_cons] at hwalk ⊢
    match hat : w.root.at? place, hwalk with
    | some (.directory entries), hwalk =>
      obtain ⟨entries', hat', hnames⟩ := h _ _ hat
      obtain ⟨middle, hnext, hwalk⟩ := exists_of_bind_eq_ok hwalk
      simp only [hat', next_of_subset hnames hnext, ok_bind]
      exact ih hwalk

/-- The place that the names of a path are followed from. -/
def base (w : Workspace) (absolute : Bool) : List Text := if absolute then [] else w.here

lemma start_normal (path : Text) : w.start (normal path) = w.base (isAbsolute path) := by
  rw [start, isAbsolute_normal, base]

/-- The path of some names leads where the names lead, unless it is too long. -/
lemma locate_ofParts (h : AreNames names) (hne : names ≠ []) :
    w.locate (ofParts absolute names) =
      if maxPath < byteCount (ofParts absolute names) then .error .nameTooLong
      else w.walk (w.base absolute) (if absolute then [] :: names else names) := by
  rw [locate, if_neg (by simp [ofParts_ne_nil]), start, h.isAbsolute_ofParts hne,
    h.parts_ofParts hne]
  rfl

/-- A leading slash asks that the root is a directory. -/
lemma walk_root (names : List Text) :
    w.walk [] ([] :: names) =
      if w.root.isDirectory = true then w.walk [] names else .error .notDirectory := by
  rw [walk_cons, FileTree.at?_nil]
  cases w.root <;> rfl

/-- The path of names can be followed: it is not too long, and a slash starts from a directory. -/
def IsPath (w : Workspace) (absolute : Bool) (names : List Text) : Prop :=
  ¬ maxPath < byteCount (ofParts absolute names) ∧ (absolute = true → w.root.isDirectory = true)

/-- A path is located by a walk from its base, and its parts are not too long. -/
lemma locate_of_isPath (h : AreNames names) (hne : names ≠ []) (hpath : w.IsPath absolute names) :
    w.locate (ofParts absolute names) = w.walk (w.base absolute) names := by
  rw [locate_ofParts h hne, if_neg hpath.1]
  cases absolute with
  | false => rfl
  | true => exact (walk_root names).trans (if_pos (hpath.2 rfl))

/-- A path that leads to nothing can be followed. -/
lemma isPath_of_locate_absent (h : AreNames names) (hne : names ≠ [])
    (hlocate : w.locate (ofParts absolute names) = .error .absent) : w.IsPath absolute names := by
  rw [locate_ofParts h hne] at hlocate
  split at hlocate
  · cases hlocate
  · next hlong =>
    refine ⟨hlong, ?_⟩
    rintro rfl
    by_contra hfile
    have hwalk := (walk_root names).symm.trans hlocate
    rw [if_neg hfile] at hwalk
    cases hwalk

lemma walk_singleton {entries : List (Text × FileTree)}
    (hat : w.root.at? place = some (.directory entries)) :
    w.walk place [name] = next entries place name := by
  rw [walk_cons, hat]
  cases h : next entries place name <;> simp [h, walk]

/-- Nothing is at an entry that is not found. -/
lemma at?_of_walk_absent (h : w.walk place [name] = .error .absent) :
    w.root.at? (place ++ [name]) = none := by
  rw [FileTree.at?_concat]
  match hat : w.root.at? place with
  | none => rfl
  | some (.file bytes) => rfl
  | some (.directory entries) =>
    rw [walk_singleton hat] at h
    have hentry := (next_eq_absent h).2.2.2
    rw [Option.bind_some, FileTree.child?, Option.map_eq_none_iff, List.find?_eq_none]
    simpa using hentry

/-- A path is too long, or a part of it is. -/
def IsTooLong (path : Text) : Prop :=
  maxPath < byteCount path ∨ ∃ part ∈ parts path, maxName < byteCount part

/-- What a way through a tree stops at. -/
lemma walk_eq_error {fault : FileFault} (h : w.walk place names = .error fault) :
    fault = .absent ∨ fault = .notDirectory ∨
      fault = .nameTooLong ∧ ∃ name ∈ names, maxName < byteCount name := by
  induction names generalizing place with
  | nil => cases h
  | cons name names ih =>
    rw [walk_cons] at h
    split at h
    · cases h
      exact .inl rfl
    · cases h
      exact .inr (.inl rfl)
    · next entries hat =>
      rw [bind_eq_error] at h
      rcases h with h | ⟨place', -, h⟩
      · unfold next at h
        split_ifs at h with _ _ hlong <;> cases h
        · exact .inr (.inr ⟨rfl, name, List.mem_cons_self, hlong⟩)
        · exact .inl rfl
      · rcases ih h with rfl | rfl | ⟨rfl, long, hlong, hbytes⟩
        · exact .inl rfl
        · exact .inr (.inl rfl)
        · exact .inr (.inr ⟨rfl, long, List.mem_cons_of_mem name hlong, hbytes⟩)

/-- Asking for a path fails only where the path is too long. -/
lemma isThere_eq_error {e : FileError} (h : w.isThere path = .error e) :
    IsTooLong (normal path) := by
  rw [isThere] at h
  split at h
  · cases h
  · cases h
  · cases h
  · next fault habsent hdirectory hlocate =>
    rw [locate] at hlocate
    split at hlocate
    · cases hlocate
      exact absurd rfl habsent
    · split at hlocate
      · exact .inl ‹_›
      · rcases walk_eq_error hlocate with rfl | rfl | ⟨-, hlong⟩
        · exact absurd rfl habsent
        · exact absurd rfl hdirectory
        · exact .inr hlong

/-! ### Directories are made -/

/-- The workspaces have the same files. -/
def HasFilesOf (w' w : Workspace) : Prop :=
  w'.here = w.here ∧ ∀ place, w'.root.fileAt? place = w.root.fileAt? place

lemma HasFilesOf.refl (w : Workspace) : w.HasFilesOf w := ⟨rfl, fun _ => rfl⟩

lemma HasFilesOf.trans {w'' : Workspace} (h : w''.HasFilesOf w') (h' : w'.HasFilesOf w) :
    w''.HasFilesOf w :=
  ⟨h.1.trans h'.1, fun place => (h.2 place).trans (h'.2 place)⟩

/-- A directory that is made leaves the files as they were. -/
lemma hasFilesOf_makeDirectory (h : AreNames names)
    (hmake : w.makeDirectory absolute names = .ok w') : w'.HasFilesOf w := by
  rw [makeDirectory] at hmake
  split at hmake
  · cases hmake
  · next fault hlocate =>
    split at hmake
    · next name place hlast hwalk =>
      split at hmake
      · next habsent =>
        subst habsent
        cases hmake
        have hne : names ≠ [] := fun hnil => by simp [hnil] at hlast
        have hnames : names.dropLast ++ [name] = names := List.dropLast_append_getLast? _ hlast
        have hfull :=
          (locate_of_isPath h hne (isPath_of_locate_absent h hne hlocate)).symm.trans hlocate
        rw [← hnames, walk_concat,
          show w.walk (w.base absolute) names.dropLast = .ok place from hwalk, ok_bind] at hfull
        exact ⟨rfl, fun q => FileTree.fileAt?_put_empty (at?_of_walk_absent hfull)⟩
      · cases hmake
    · cases hmake

/-- A directory that is there already leaves the files as they were. -/
lemma hasFilesOf_acceptDirectory {fault : FileFault} (h : w.acceptDirectory path fault = .ok w') :
    w'.HasFilesOf w := by
  rw [acceptDirectory] at h
  split at h
  · split at h
    · cases h
      exact .refl w
    · cases h
  · cases h

/-- Directories that are made one after another leave the files as they were. -/
lemma hasFilesOf_makeDirectories {depth : Nat} (h : AreNames names)
    (hmake : makeDirectories absolute depth names w = .ok w') : w'.HasFilesOf w := by
  induction depth generalizing names w w' with
  | zero =>
    -- Without any parents the directory itself is all that can be made.
    rw [makeDirectories] at hmake
    split at hmake
    · next hone =>
      cases hmake
      exact hasFilesOf_makeDirectory h hone
    · cases hmake
    · exact hasFilesOf_acceptDirectory hmake
  | succ depth ih =>
    rw [makeDirectories] at hmake
    split at hmake
    · next hone =>
      cases hmake
      exact hasFilesOf_makeDirectory h hone
    · -- A missing parent is made first, and then the directory.
      obtain ⟨w₁, habove, hmake⟩ := exists_of_bind_eq_ok hmake
      have hfirst := ih h.dropLast habove
      split at hmake
      · next hone =>
        cases hmake
        exact (hasFilesOf_makeDirectory h hone).trans hfirst
      · cases hmake
      · exact (hasFilesOf_acceptDirectory hmake).trans hfirst
    · exact hasFilesOf_acceptDirectory hmake

/-- Making the directories above a path changes no file. -/
lemma hasFilesOf_makeParents (h : makeParents path w = .ok w') : w'.HasFilesOf w :=
  hasFilesOf_makeDirectories (areNames_properParts path).dropLast h

/-! ### Files are written -/

/-- A path leads to a file with some bytes, and every other file is as it was. -/
def HasWritten (w' w : Workspace) (path : Text) (bytes : List UInt8) : Prop :=
  ∃ place, w'.locate (normal path) = .ok place ∧ w'.root.fileAt? place = some bytes ∧
    ∀ q ≠ place, w'.root.fileAt? q = w.root.fileAt? q

lemma HasWritten.read (h : w'.HasWritten w path bytes) : w'.read (normal path) = .ok bytes := by
  obtain ⟨place, hlocate, hfile, -⟩ := h
  rw [Workspace.read, hlocate]
  simp only [FileTree.fileAt?_eq_some.mp hfile]

lemma HasWritten.trans {w'' : Workspace} (h : w''.HasWritten w' path bytes) (h' : w'.HasFilesOf w) :
    w''.HasWritten w path bytes := by
  obtain ⟨place, hlocate, hfile, hothers⟩ := h
  exact ⟨place, hlocate, hfile, fun q hq => (hothers q hq).trans (h'.2 q)⟩

/-- What is located stays where it is when directories get more names. -/
lemma locate_of_keeps (hhere : w'.here = w.here) (h : w.root.Keeps w'.root)
    (hlocate : w.locate path = .ok place) : w'.locate path = .ok place := by
  rw [locate] at hlocate ⊢
  split at hlocate
  · cases hlocate
  · next hempty =>
    rw [if_neg hempty]
    split at hlocate
    · cases hlocate
    · next hlong =>
      rw [if_neg hlong, start, hhere]
      exact walk_of_keeps h hlocate

/-- A workspace with a file put at a place. -/
def withFile (w : Workspace) (place : List Text) (bytes : List UInt8) : Workspace :=
  { w with root := w.root.put place (.file bytes) }

/-- A file that was there is written. -/
lemma hasWritten_of_file {old : List UInt8} (hlocate : w.locate (normal path) = .ok place)
    (hat : w.root.at? place = some (.file old)) :
    (w.withFile place bytes).HasWritten w path bytes := by
  have hfree := FileTree.isFree_of_file hat
  have hkeeps : w.root.Keeps (w.withFile place bytes).root := hfree.keeps_put
  refine ⟨place, locate_of_keeps (w := w) rfl hkeeps hlocate, ?_,
    fun q => FileTree.fileAt?_put_file hfree⟩
  exact FileTree.fileAt?_eq_some.mpr (FileTree.isOpen_of_at? hat).at?_put

/-- A name that led nowhere leads to the file that is put under it. -/
lemma walk_withFile {entries : List (Text × FileTree)}
    (hat : w.root.at? place = some (.directory entries))
    (hstep : w.walk place [name] = .error .absent) :
    (w.withFile (place ++ [name]) bytes).walk place [name] = .ok (place ++ [name]) := by
  have hfree := FileTree.isFree_of_absent (at?_of_walk_absent hstep)
  rw [walk_singleton hat] at hstep
  obtain ⟨hproper, hup, hlong, -⟩ := next_eq_absent hstep
  have hkeeps : w.root.Keeps (w.withFile (place ++ [name]) bytes).root := hfree.keeps_put
  obtain ⟨entries', hat', -⟩ := hkeeps _ _ hat
  have hput : (w.withFile (place ++ [name]) bytes).root.at? (place ++ [name])
      = some (.file bytes) :=
    (FileTree.isOpen_concat hat).at?_put
  rw [FileTree.at?_concat, hat', Option.bind_some] at hput
  rw [walk_singleton (w := w.withFile (place ++ [name]) bytes) hat']
  exact next_of_entry hproper hup hlong (FileTree.any_of_child? hput)

lemma IsPath.of_keeps (h : w.IsPath absolute names) (hkeeps : w.root.Keeps w'.root) :
    w'.IsPath absolute names :=
  ⟨h.1, fun habsolute => hkeeps.isDirectory (h.2 habsolute)⟩

/-- A file is made in a directory that has no entry of its name. -/
lemma hasWritten_of_absent {entries : List (Text × FileTree)}
    (hlocate : w.locate (normal path) = .error .absent)
    (hlast : (properParts path).getLast? = some name)
    (hwalk : w.walk (w.base (isAbsolute path)) (properParts path).dropLast = .ok place)
    (hat : w.root.at? place = some (.directory entries)) :
    (w.withFile (place ++ [name]) bytes).HasWritten w path bytes := by
  have h := areNames_properParts path
  have hne : properParts path ≠ [] := fun hnil => by simp [hnil] at hlast
  have hnames : (properParts path).dropLast ++ [name] = properParts path :=
    List.dropLast_append_getLast? _ hlast
  have hpath := isPath_of_locate_absent h hne hlocate
  have hstep : w.walk place [name] = .error .absent := by
    -- Only the last name is missing, as the walk to the others succeeds.
    have hfull := (locate_of_isPath h hne hpath).symm.trans hlocate
    rwa [← hnames, walk_concat, hwalk, ok_bind] at hfull
  have hfree := FileTree.isFree_of_absent (at?_of_walk_absent hstep)
  have hkeeps : w.root.Keeps (w.withFile (place ++ [name]) bytes).root := hfree.keeps_put
  refine ⟨place ++ [name], ?_, FileTree.fileAt?_eq_some.mpr (FileTree.isOpen_concat hat).at?_put,
    fun q => FileTree.fileAt?_put_file hfree⟩
  have hbase : (w.withFile (place ++ [name]) bytes).walk (w.base (isAbsolute path))
      (properParts path).dropLast = .ok place := walk_of_keeps hkeeps hwalk
  -- The directories are found as before, and then the new file in the last of them.
  calc (w.withFile (place ++ [name]) bytes).locate (normal path)
      = (w.withFile (place ++ [name]) bytes).walk (w.base (isAbsolute path)) (properParts path) :=
        locate_of_isPath h hne (hpath.of_keeps hkeeps)
    _ = .ok (place ++ [name]) := by
        rw [← hnames, walk_concat, hbase, ok_bind, walk_withFile hat hstep]

/-- Writing a file changes that file and no other. -/
lemma hasWritten_write (h : write path bytes w = .ok w') : w'.HasWritten w path bytes := by
  rw [write] at h
  simp only [properParts_normal, start_normal] at h
  split at h
  · next place hlocate =>
    split at h
    · next old hat =>
      cases h
      exact hasWritten_of_file hlocate hat
    · cases h
  · next hlocate =>
    split at h
    · next name place hlast hwalk =>
      split at h
      · next hdirectory =>
        cases h
        match hat : w.root.at? place, hdirectory with
        | some (.directory entries), _ => exact hasWritten_of_absent hlocate hlast hwalk hat
      · cases h
    · cases h
    · cases h
  · cases h

end Workspace

end Schematic
