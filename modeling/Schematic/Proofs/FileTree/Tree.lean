import Mathlib.Data.List.Basic
import Mathlib.Tactic.Lemma
import Schematic.FileTree

/-!
# Trees with a node put into them

A node that is put at a place of a tree is found there, and all places that do not lie below it hold
what they held. So an empty directory that is put where nothing was changes no file, and a file that
is put where no directory was changes only itself; both keep all directories with their entries.
-/

namespace Schematic.FileTree

variable {t u node : FileTree} {name n k : Text} {place rest q : List Text} {bytes : List UInt8}
  {entries : List (Text × FileTree)}

def fileAt? (t : FileTree) (place : List Text) : Option (List UInt8) :=
  match t.at? place with
  | some (.file bytes) => some bytes
  | _ => none

/-- The entry of a directory with a name, or a directory without entries where there is none. -/
def entry (t : FileTree) (name : Text) : FileTree := (t.child? name).getD (directory [])

/-! ### Nodes -/

@[simp]
lemma at?_nil : t.at? [] = some t := by
  cases t <;> rfl

lemma at?_cons : t.at? (name :: place) = (t.child? name).bind (·.at? place) := by
  cases t <;> rfl

/-- A longer way is gone step by step. -/
lemma at?_append : t.at? (place ++ rest) = (t.at? place).bind (·.at? rest) := by
  induction place generalizing t with
  | nil => simp
  | cons n place ih =>
    rw [List.cons_append, at?_cons, at?_cons, Option.bind_assoc]
    exact congrArg _ (funext fun c => ih)

lemma at?_concat : t.at? (place ++ [name]) = (t.at? place).bind (·.child? name) := by
  rw [at?_append]
  refine congrArg _ (funext fun c => ?_)
  rw [at?_cons]
  cases c.child? name <;> simp

@[simp]
lemma at?_file_cons : (file bytes).at? (name :: place) = none := rfl

lemma entry_of_child? (h : t.child? name = some u) : t.entry name = u := by
  rw [entry, h]
  rfl

/-- What is found under a name is listed under it. -/
lemma any_of_child? (h : (directory entries).child? name = some u) :
    entries.any (·.1 == name) = true := by
  rw [child?, Option.map_eq_some_iff] at h
  obtain ⟨e, he, -⟩ := h
  have hname := List.find?_some he
  exact List.any_eq_true.mpr ⟨e, List.mem_of_find?_eq_some he, hname⟩

lemma fileAt?_eq_some : t.fileAt? place = some bytes ↔ t.at? place = some (.file bytes) := by
  rw [fileAt?]
  split <;> simp_all

lemma fileAt?_of_at? (h : t.at? place = u.at? q) : t.fileAt? place = u.fileAt? q := by
  rw [fileAt?, fileAt?, h]

lemma fileAt?_of_absent (h : t.at? place = none) : t.fileAt? place = none := by
  rw [fileAt?, h]

lemma fileAt?_empty : (directory []).fileAt? place = none := by
  cases place <;> rfl

/-- A file is looked for in the entry that the way starts with. -/
lemma fileAt?_cons : t.fileAt? (name :: place) = (t.entry name).fileAt? place := by
  cases h : t.child? name with
  | none =>
    rw [fileAt?_of_absent (by rw [at?_cons, h]; rfl), entry, h]
    exact fileAt?_empty.symm
  | some u =>
    rw [entry_of_child? h]
    exact fileAt?_of_at? (by rw [at?_cons, h]; rfl)

/-! ### Entries -/

/-- An entry that is set is found, and the others are as they were. -/
lemma child?_setEntry (entries : List (Text × FileTree)) :
    (directory (setEntry name node entries)).child? k =
      if k = name then some node else (directory entries).child? k := by
  simp only [child?]
  induction entries with
  | nil => by_cases h : k = name <;> simp [setEntry, h, Ne.symm]
  | cons e entries ih =>
    obtain ⟨n, c⟩ := e
    rw [setEntry]
    by_cases hn : n = name
    · subst hn
      by_cases h : k = n <;> simp [h, Ne.symm]
    · rw [if_neg hn]
      by_cases h : n = k
      · subst h
        simp [hn]
      · simpa [List.find?_cons_of_neg, h] using ih

/-- An entry that is set leaves the names that are there. -/
lemma any_setEntry (entries : List (Text × FileTree)) (h : entries.any (·.1 == k) = true) :
    (setEntry name node entries).any (·.1 == k) = true := by
  induction entries with
  | nil => cases h
  | cons e entries ih =>
    obtain ⟨n, c⟩ := e
    rw [setEntry]
    rw [List.any_cons, Bool.or_eq_true] at h
    split
    · next hn => simpa using h
    · rcases h with h | h
      · simp [h]
      · simp [ih h]

@[simp]
lemma put_file_cons : (file bytes).put (name :: place) node = file bytes := rfl

lemma put_nil : t.put [] node = node := by
  cases t <;> rfl

lemma child?_put_cons (entries : List (Text × FileTree)) :
    ((directory entries).put (name :: place) node).child? k =
      if k = name then some (((directory entries).entry name).put place node)
      else (directory entries).child? k :=
  child?_setEntry entries

lemma entry_put_cons (entries : List (Text × FileTree)) :
    ((directory entries).put (name :: place) node).entry name =
      ((directory entries).entry name).put place node :=
  entry_of_child? (by rw [child?_put_cons, if_pos rfl])

/-! ### Files -/

/-- A node that is put into a tree changes no file outside of it. -/
lemma fileAt?_put_of_not_prefix (h : ¬ place <+: q) :
    (t.put place node).fileAt? q = t.fileAt? q := by
  induction place generalizing t q with
  | nil => exact absurd List.nil_prefix h
  | cons n place ih =>
    match t, q with
    | .file bytes, _ => rw [put_file_cons]
    | .directory entries, [] => rfl
    | .directory entries, k :: q =>
      by_cases hk : k = n
      · subst hk
        rw [fileAt?_cons, fileAt?_cons, entry_put_cons]
        exact ih fun hq => h (List.cons_prefix_cons.mpr ⟨rfl, hq⟩)
      · refine fileAt?_of_at? ?_
        rw [at?_cons, at?_cons, child?_put_cons, if_neg hk]

/-- Below the place that a node is put at lie the files of the node, or what lay there when a file
is in the way. -/
lemma fileAt?_put_append (t node : FileTree) (place rest : List Text) :
    (t.put place node).fileAt? (place ++ rest) = node.fileAt? rest ∨
      (t.put place node).fileAt? (place ++ rest) = t.fileAt? (place ++ rest) := by
  induction place generalizing t with
  | nil => exact .inl (by rw [put_nil, List.nil_append])
  | cons n place ih =>
    cases t with
    | file bytes => exact .inr (by rw [put_file_cons])
    | directory entries =>
      rw [List.cons_append, fileAt?_cons, fileAt?_cons, entry_put_cons]
      exact ih _

/-- Nothing is at a place, or a file. -/
def IsFree (t : FileTree) (place : List Text) : Prop :=
  ∀ entries, t.at? place ≠ some (directory entries)

lemma isFree_of_absent (h : t.at? place = none) : t.IsFree place := by
  intro entries
  rw [h]
  simp

lemma isFree_of_file (h : t.at? place = some (.file bytes)) : t.IsFree place := by
  intro entries
  rw [h]
  simp

/-- No file lies below a place that is no directory. -/
lemma IsFree.fileAt?_append (h : t.IsFree place) (hrest : rest ≠ []) :
    t.fileAt? (place ++ rest) = none := by
  obtain ⟨n, rest, rfl⟩ := List.exists_cons_of_ne_nil hrest
  refine fileAt?_of_absent ?_
  rw [at?_append]
  match hat : t.at? place with
  | none => rfl
  | some (.file bytes) => rfl
  | some (.directory entries) => exact absurd hat (h entries)

/-- A file, or a directory without entries, that is put where no directory was changes no other
file. -/
lemma IsFree.fileAt?_put (h : t.IsFree place) (hnode : ∀ rest ≠ [], node.fileAt? rest = none)
    (hq : q ≠ place) : (t.put place node).fileAt? q = t.fileAt? q := by
  by_cases hprefix : place <+: q
  · obtain ⟨rest, rfl⟩ := hprefix
    have hrest : rest ≠ [] := fun hnil => hq (by rw [hnil, List.append_nil])
    rcases fileAt?_put_append t node place rest with hput | hput
    · rw [hput, hnode rest hrest, h.fileAt?_append hrest]
    · exact hput
  · exact fileAt?_put_of_not_prefix hprefix

lemma fileAt?_put_file (h : t.IsFree place) (hq : q ≠ place) :
    (t.put place (file bytes)).fileAt? q = t.fileAt? q := by
  refine h.fileAt?_put (fun rest hrest => ?_) hq
  obtain ⟨n, rest, rfl⟩ := List.exists_cons_of_ne_nil hrest
  exact fileAt?_of_absent at?_file_cons

/-- An empty directory in a place where nothing was changes no file. -/
lemma fileAt?_put_empty (h : t.at? place = none) :
    (t.put place (directory [])).fileAt? q = t.fileAt? q := by
  by_cases hq : q = place
  · subst hq
    rcases fileAt?_put_append t (directory []) q [] with hput | hput
    · rw [List.append_nil, fileAt?_empty] at hput
      rw [hput, fileAt?_of_absent h]
    · rwa [List.append_nil] at hput
  · exact (isFree_of_absent h).fileAt?_put (fun _ _ => fileAt?_empty) hq

/-! ### Nodes that are put -/

/-- No file is in the way of a list of names. -/
def IsOpen (t : FileTree) : List Text → Prop
  | [] => True
  | name :: place => t.isDirectory = true ∧ (t.entry name).IsOpen place

/-- The place of a node is open. -/
lemma isOpen_of_at? (h : t.at? place = some u) : t.IsOpen place := by
  induction place generalizing t with
  | nil => trivial
  | cons n place ih =>
    cases t with
    | file bytes => cases h
    | directory entries =>
      rw [at?_cons, Option.bind_eq_some_iff] at h
      obtain ⟨c, hc, h⟩ := h
      refine ⟨rfl, ?_⟩
      rw [entry_of_child? hc]
      exact ih h

/-- A place in a directory is open. -/
lemma isOpen_concat (h : t.at? place = some (directory entries)) : t.IsOpen (place ++ [name]) := by
  induction place generalizing t with
  | nil =>
    rw [at?_nil, Option.some.injEq] at h
    subst h
    exact ⟨rfl, trivial⟩
  | cons n place ih =>
    cases t with
    | file bytes => cases h
    | directory entries =>
      rw [at?_cons, Option.bind_eq_some_iff] at h
      obtain ⟨c, hc, h⟩ := h
      refine ⟨rfl, ?_⟩
      rw [entry_of_child? hc]
      exact ih h

/-- A node is found where it was put, if the place is open. -/
lemma IsOpen.at?_put (h : t.IsOpen place) : (t.put place node).at? place = some node := by
  induction place generalizing t with
  | nil => rw [put_nil, at?_nil]
  | cons n place ih =>
    cases t with
    | file bytes => cases h.1
    | directory entries =>
      rw [at?_cons, child?_put_cons, if_pos rfl]
      exact ih h.2

/-! ### Directories -/

/-- The directories of a tree are directories of another one, with their entries. -/
def Keeps (t u : FileTree) : Prop :=
  ∀ place entries, t.at? place = some (directory entries) →
    ∃ entries', u.at? place = some (directory entries') ∧
      ∀ name, entries.any (·.1 == name) = true → entries'.any (·.1 == name) = true

/-- What was a directory stays one. -/
lemma Keeps.isDirectory (h : t.Keeps u) (ht : t.isDirectory = true) : u.isDirectory = true := by
  cases t with
  | file bytes => cases ht
  | directory entries =>
    obtain ⟨entries', hu, -⟩ := h [] entries at?_nil
    rw [at?_nil, Option.some.injEq] at hu
    rw [hu]
    rfl

/-- A node that is put into a free place leaves all directories with their names. -/
lemma IsFree.keeps_put (h : t.IsFree place) : t.Keeps (t.put place node) := by
  induction place generalizing t with
  | nil =>
    cases t with
    | file bytes =>
      intro q entries hq
      cases q <;> cases hq
    -- A directory in the place itself is ruled out.
    | directory entries => exact absurd at?_nil (h entries)
  | cons n place ih =>
    match t with
    | .file bytes =>
      intro q entries hq
      exact ⟨entries, hq, fun _ hname => hname⟩
    | .directory entries =>
      intro q inner hq
      cases q with
      | nil =>
        cases hq
        exact ⟨_, at?_nil, fun _ hname => any_setEntry entries hname⟩
      | cons k q =>
        rw [at?_cons] at hq ⊢
        rw [child?_put_cons]
        -- On the way to the place the induction goes on, and other ways are as they were.
        by_cases hk : k = n
        · subst hk
          rw [if_pos rfl, Option.bind_some]
          obtain ⟨c, hc, hq⟩ := Option.bind_eq_some_iff.mp hq
          rw [entry_of_child? hc]
          refine ih (fun es hes => h es ?_) q inner hq
          rw [at?_cons, hc, Option.bind_some, hes]
        · rw [if_neg hk]
          exact ⟨inner, hq, fun _ hname => hname⟩

end Schematic.FileTree
