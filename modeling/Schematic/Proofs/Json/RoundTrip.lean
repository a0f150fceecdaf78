import Schematic.Json.Writer
import Schematic.Proofs.Json.Every
import Schematic.Proofs.Json.Strict
import Schematic.Proofs.Text.Split

/-!
# JSON text is read back

What a style writes is a text of the grammar. So it is read back by the lenient reader, and by the
strict one if the data is not too deep. In ASCII this takes texts that have bytes: the escapes of
two halves of a surrogate pair are read as one code point.
-/

namespace Schematic.Json

namespace Style

/-- Texts are written with as few escapes as possible, items are separated by a comma, and no number
of sixteen digits or fewer needs an exponent. -/
structure IsPlain (s : Style) : Prop where
  ascii : s.ascii = false
  comma : s.comma = [.char ',']
  colon : ∃ blanks : Text, s.colon = .char ':' :: blanks ∧ ∀ b ∈ blanks, isSpace b = true
  leastPoint : s.numbers.leastPoint ≤ 1
  greatestPoint : 1 ≤ s.numbers.greatestPoint ∧ s.numbers.greatestPoint ≤ 16

/-- Items are separated by a comma and a name from its value by a colon, perhaps with blanks after
them, and no number of sixteen digits or fewer needs an exponent. -/
structure IsStandard (s : Style) : Prop where
  comma : ∃ blanks : Text, s.comma = .char ',' :: blanks ∧ ∀ b ∈ blanks, isSpace b = true
  colon : ∃ blanks : Text, s.colon = .char ':' :: blanks ∧ ∀ b ∈ blanks, isSpace b = true
  leastPoint : s.numbers.leastPoint ≤ 1
  greatestPoint : 1 ≤ s.numbers.greatestPoint ∧ s.numbers.greatestPoint ≤ 16

/-- A style can write a part so that it is read back: in ASCII a text has bytes. -/
structure Spells (s : Style) (j : Json) : Prop extends IsRegular j where
  isUnicode : s.ascii = true → j.IsUnicode

lemma IsPlain.isStandard {s : Style} (h : s.IsPlain) : s.IsStandard :=
  ⟨⟨[], h.comma, by simp⟩, h.colon, h.leastPoint, h.greatestPoint⟩

lemma IsPlain.every_spells {s : Style} (h : s.IsPlain) {j : Json} (hj : j.Every IsRegular) :
    j.Every s.Spells := by
  refine Every.imp (fun k hk => ⟨hk, fun hascii => ?_⟩) j hj
  rw [h.ascii] at hascii
  cases hascii

/-- The style that escapes all but ASCII is a standard one. -/
theorem isStandard_ascii : IsStandard Json.ascii :=
  ⟨⟨[.char ' '], rfl, by decide⟩, ⟨[.char ' '], rfl, by decide⟩, by decide, by decide⟩

/-- The compact style spells texts as they are. -/
theorem isPlain_compact : compact.IsPlain :=
  ⟨rfl, rfl, ⟨[], rfl, by simp⟩, by decide, by decide⟩

/-- The indented style spells texts as they are. -/
theorem isPlain_indented : indented.IsPlain :=
  ⟨rfl, rfl, ⟨[.char ' '], rfl, by decide⟩, by decide, by decide⟩

variable {s : Style}

/-- The start of a line is blank. -/
lemma isSpace_lineStart (s : Style) (depth : Nat) : ∀ b ∈ s.lineStart depth, isSpace b = true := by
  intro b hb
  unfold lineStart at hb
  split at hb
  · simp at hb
  · rcases List.mem_cons.mp hb with rfl | hb
    · decide
    · rw [List.eq_of_mem_replicate hb]
      decide

/-- The line break and the indentation before an item. -/
def lineStartBlanks (s : Style) (depth : Nat) : Blanks :=
  ⟨s.lineStart depth, s.isSpace_lineStart depth⟩

/-- What separates the items of a collection. -/
def separator (s : Style) (depth : Nat) : Text := s.comma ++ s.lineStart depth

/-- A comma and blanks separate items in a standard style. -/
lemma IsStandard.exists_separator (h : s.IsStandard) (depth : Nat) :
    ∃ blanks : Blanks, s.separator depth = .char ',' :: blanks.val := by
  obtain ⟨blanks, hcomma, hblanks⟩ := h.comma
  refine ⟨⟨blanks ++ s.lineStart depth,
    List.forall_mem_append.mpr ⟨hblanks, s.isSpace_lineStart depth⟩⟩, ?_⟩
  rw [separator, hcomma, List.cons_append]

end Style

/-! ### Written data -/

section

variable {s : Style}

/-- Finite numbers are written as numerals. -/
lemma exists_spelled_of_float (hs : s.IsStandard) (depth : Nat) {x : Double}
    (hx : x.isFinite = true) :
    ∃ (width : Nat) (n : Numeral), n.IsProper ∧ s.write depth (.float x) = n.spelled width ∧
      n.value = .float x ∧ n.whole.length ≤ 16 := by
  match x, hx with
  | .finite negative m, _ =>
    obtain ⟨n, hn, htext, hvalue, -, hlength, -⟩ :=
      s.numbers.exists_numeral hs.leastPoint hs.greatestPoint.1 negative m
    have := hs.greatestPoint.2
    exact ⟨_, n, hn, htext, hvalue, by omega⟩

def Style.entryText (s : Style) (depth : Nat) (e : Text × Json) : Text :=
  textText s.ascii e.1 ++ s.colon ++ s.write depth e.2

/-- The texts of the items of an array with what separates them. -/
def Style.itemsText (s : Style) (depth : Nat) : List Json → Text
  | [] => []
  | [j] => s.write depth j
  | j :: k :: js => s.write depth j ++ (s.separator depth ++ itemsText s depth (k :: js))

/-- The texts of the entries of an object with what separates them. -/
def Style.entriesText (s : Style) (depth : Nat) : List (Text × Json) → Text
  | [] => []
  | [e] => s.entryText depth e
  | e :: f :: es => s.entryText depth e ++ (s.separator depth ++ entriesText s depth (f :: es))

/-- Items are joined by the separator of their style. -/
lemma join_writeItems (s : Style) (depth : Nat) (js : List Json) :
    Text.join (s.separator depth) (s.writeItems depth js) = s.itemsText depth js := by
  match js with
  | [] => rfl
  | [j] => simp [Text.join, Style.writeItems, Style.itemsText]
  | j :: k :: js =>
    have ih := join_writeItems s depth (k :: js)
    rw [Style.writeItems] at ih ⊢
    rw [Style.writeItems, Text.join_cons_cons, ih, Style.itemsText]

/-- Entries are joined by the separator of their style. -/
lemma join_writeEntries (s : Style) (depth : Nat) (es : List (Text × Json)) :
    Text.join (s.separator depth) (s.writeEntries depth es) = s.entriesText depth es := by
  match es with
  | [] => rfl
  | [e] => simp [Text.join, Style.writeEntries, Style.entriesText, Style.entryText]
  | e :: f :: es =>
    have ih := join_writeEntries s depth (f :: es)
    rw [Style.writeEntries] at ih ⊢
    rw [Style.writeEntries, Text.join_cons_cons, ih, Style.entriesText, Style.entryText]

/-- A collection with something in it. -/
lemma write_array_cons (s : Style) (depth : Nat) (j : Json) (js : List Json) :
    s.write depth (.array (j :: js)) = .char '[' :: (s.lineStart (depth + 1)
      ++ (s.itemsText (depth + 1) (j :: js) ++ (s.lineStart depth ++ [.char ']']))) := by
  rw [← join_writeItems, Style.write, Style.writeItems, Style.bracketed]
  · simp [Style.separator, Text.ofString]
  · simp

/-- An object with entries is written between braces, on lines of its own if the style says so. -/
lemma write_object_cons (s : Style) (depth : Nat) (e : Text × Json) (es : List (Text × Json)) :
    s.write depth (.object (e :: es)) = .char '\x7b' :: (s.lineStart (depth + 1)
      ++ (s.entriesText (depth + 1) (e :: es) ++ (s.lineStart depth ++ [.char '\x7d']))) := by
  rw [← join_writeEntries, Style.write, Style.writeEntries, Style.bracketed]
  · simp [Style.separator, Text.ofString]
  · simp

end

/-! ### Names -/

/-- A new name comes last. -/
lemma bind_of_not_mem {name : Text} (j : Json) {es : List (Text × Json)}
    (h : name ∉ es.map Prod.fst) : bind name j es = es ++ [(name, j)] := by
  induction es with
  | nil => rfl
  | cons e es ih =>
    rw [List.map_cons, List.mem_cons, not_or] at h
    simp [bind, Ne.symm h.1, ih h.2]

/-- Entries with distinct names stay as they are. -/
lemma bindAll_eq_self {es : List (Text × Json)} (h : (es.map Prod.fst).Nodup) :
    bindAll es = es := by
  have hfold (es fs : List (Text × Json)) (h : ((fs ++ es).map Prod.fst).Nodup) :
      es.foldl (fun es e => bind e.1 e.2 es) fs = fs ++ es := by
    induction es generalizing fs with
    | nil => simp
    | cons e es ih =>
      have hfresh : e.1 ∉ fs.map Prod.fst := by
        rw [List.map_append, List.nodup_append] at h
        intro hmem
        exact h.2.2 _ hmem _ (by simp) rfl
      rw [List.foldl_cons, bind_of_not_mem _ hfresh, ih _ (by simpa using h)]
      simp
  exact hfold es [] h

/-! ### Spellings of written data -/

section

variable {s : Style}

/-- Finite numbers and short integers are spelled as they are written. -/
lemma exists_spelling_eq_numeral {j : Json} {t : Text} {width : Nat} {n : Numeral} (hn : n.IsProper)
    (htext : t = n.spelled width) (hvalue : n.value = j) (hlength : n.whole.length ≤ maxDigits) :
    ∃ p : Spelling, p.toText = t ∧ p.toJson = j ∧ p.depth = 0 ∧
      p.EveryNumber Literal.HasShortWhole := by
  refine ⟨.number (.ofNumeral width n hn), ?_, ?_, rfl, hlength⟩
  · rw [Spelling.toText, Literal.text_ofNumeral, htext]
  · rw [Spelling.toJson, Literal.numeral_ofNumeral, hvalue]

/-- The name of an entry is spelled as it is written. -/
lemma exists_name_eq (hs : s.IsStandard) {name : Text} (hname : s.ascii = true → name.IsUnicode) :
    ∃ n : Name, n.text = textText s.ascii name ++ s.colon ∧ content n.pieces = name := by
  obtain ⟨blanks, hcolon, hblanks⟩ := hs.colon
  obtain ⟨ps, hps, hcontent⟩ := exists_pieces_eq hname
  refine ⟨⟨ps, ⟨[], by simp⟩, ⟨blanks, hblanks⟩⟩, ?_, hcontent⟩
  rw [Name.text, hcolon, hps]
  rfl

mutual

/-- What a style writes is the text of a spelling. -/
theorem exists_spelling_eq (hs : s.IsStandard) (j : Json) (hj : j.Every s.Spells) (depth : Nat) :
    ∃ p : Spelling, p.toText = s.write depth j ∧ p.toJson = j ∧ p.depth = j.depth ∧
      p.EveryNumber Literal.HasShortWhole := by
  match j with
  | .null => exact ⟨.null, rfl, rfl, rfl, trivial⟩
  | .bool true => exact ⟨.bool true, rfl, rfl, rfl, trivial⟩
  | .bool false => exact ⟨.bool false, rfl, rfl, rfl, trivial⟩
  | .int k =>
    exact exists_spelling_eq_numeral (Numeral.isProper_ofInt k) (Numeral.spelled_ofInt 0 k).symm
      (Numeral.value_ofInt k) ((Numeral.length_ofInt_le k).mpr hj.self.isShort)
  | .float x =>
    -- A float is short in every style, whatever its size is.
    obtain ⟨width, n, hn, hwrite, hvalue, hlength⟩ :=
      exists_spelled_of_float hs depth hj.self.isFinite
    exact exists_spelling_eq_numeral hn hwrite hvalue (Nat.le_trans hlength (by decide))
  | .text t =>
    obtain ⟨ps, hps, hcontent⟩ := exists_pieces_eq hj.self.isUnicode
    refine ⟨.text ps, ?_, by rw [Spelling.toJson, hcontent], rfl, trivial⟩
    rw [Spelling.toText, Style.write, hps]
  | .array [] => exact ⟨.emptyArray ⟨[], by simp⟩, rfl, rfl, rfl, trivial⟩
  | .array (j :: js) =>
    -- The items stand one level deeper, and the blanks are those of the style.
    obtain ⟨is, htext, hjsons, hdepth, hshort⟩ :=
      exists_items_eq hs (j :: js) (by simp) hj.2 (depth + 1) (s.lineStartBlanks depth)
    refine ⟨.array (s.lineStartBlanks (depth + 1)) is, ?_, by rw [Spelling.toJson, hjsons],
      by rw [Spelling.depth, hdepth, Json.depth], hshort⟩
    rw [Spelling.toText, htext, write_array_cons]
    rfl
  | .object [] => exact ⟨.emptyObject ⟨[], by simp⟩, rfl, rfl, rfl, trivial⟩
  | .object (e :: es) =>
    obtain ⟨ms, htext, hentries, hdepth, hshort⟩ :=
      exists_members_eq hs (e :: es) (by simp) hj.self.isUnicode hj.2 (depth + 1)
        (s.lineStartBlanks depth)
    -- The names are distinct, so binding them leaves the entries as they are.
    refine ⟨.object (s.lineStartBlanks (depth + 1)) ms, ?_,
      by rw [Spelling.toJson, hentries, bindAll_eq_self hj.self.hasDistinctNames],
      by rw [Spelling.depth, hdepth, Json.depth], hshort⟩
    rw [Spelling.toText, htext, write_object_cons]
    rfl

/-- Items are written as a spelling of them. -/
theorem exists_items_eq (hs : s.IsStandard) (js : List Json) (hne : js ≠ [])
    (hjs : EveryItem s.Spells js) (depth : Nat) (after : Blanks) :
    ∃ is : Items, is.toText = s.itemsText depth js ++ (after.val ++ [.char ']']) ∧ is.toJsons = js ∧
      is.depth = depthItems js ∧ is.EveryNumber Literal.HasShortWhole := by
  match js with
  | [] => exact absurd rfl hne
  | [j] =>
    obtain ⟨p, htext, hjson, hdepth, hshort⟩ := exists_spelling_eq hs j hjs.1 depth
    refine ⟨.last p after, ?_, by rw [Items.toJsons, hjson],
      by simp [Items.depth, depthItems, hdepth], hshort⟩
    rw [Items.toText, htext]
    rfl
  | j :: k :: js =>
    obtain ⟨p, htext, hjson, hdepth, hshort⟩ := exists_spelling_eq hs j hjs.1 depth
    obtain ⟨is, htexts, hjsons, hdepths, hshorts⟩ :=
      exists_items_eq hs (k :: js) (by simp) hjs.2 depth after
    obtain ⟨blanks, hseparator⟩ := hs.exists_separator depth
    refine ⟨.more p ⟨[], by simp⟩ blanks is, ?_, by rw [Items.toJsons, hjson, hjsons],
      by rw [Items.depth, hdepth, hdepths, depthItems.eq_def (j :: k :: js)], hshort, hshorts⟩
    rw [Items.toText, htext, htexts]
    simp [Style.itemsText, hseparator]

/-- Entries are written as a spelling of them. -/
theorem exists_members_eq (hs : s.IsStandard) (es : List (Text × Json)) (hne : es ≠ [])
    (hnames : s.ascii = true → ∀ e ∈ es, e.1.IsUnicode) (hes : EveryEntry s.Spells es) (depth : Nat)
    (after : Blanks) :
    ∃ ms : Members, ms.toText = s.entriesText depth es ++ (after.val ++ [.char '}']) ∧
      ms.toEntries = es ∧ ms.depth = depthEntries es ∧ ms.EveryNumber Literal.HasShortWhole := by
  match es with
  | [] => exact absurd rfl hne
  | [(name, j)] =>
    obtain ⟨n, hname, hcontent⟩ := exists_name_eq hs fun h => hnames h _ List.mem_cons_self
    obtain ⟨p, htext, hjson, hdepth, hshort⟩ := exists_spelling_eq hs j hes.1 depth
    refine ⟨.last n p after, ?_, by rw [Members.toEntries, hcontent, hjson],
      by simp [Members.depth, depthEntries, hdepth], hshort⟩
    simp [Members.toText, htext, hname, Style.entriesText, Style.entryText]
  | (name, j) :: f :: es =>
    -- A comma of the style stands between this member and the others.
    obtain ⟨n, hname, hcontent⟩ := exists_name_eq hs fun h => hnames h _ List.mem_cons_self
    obtain ⟨p, htext, hjson, hdepth, hshort⟩ := exists_spelling_eq hs j hes.1 depth
    obtain ⟨ms, htexts, hentries, hdepths, hshorts⟩ :=
      exists_members_eq hs (f :: es) (by simp)
        (fun h e he => hnames h e (List.mem_cons_of_mem _ he)) hes.2 depth after
    obtain ⟨blanks, hseparator⟩ := hs.exists_separator depth
    refine ⟨.more n p ⟨[], by simp⟩ blanks ms, ?_,
      by rw [Members.toEntries, hcontent, hjson, hentries],
      by rw [Members.depth, hdepth, hdepths, depthEntries.eq_def ((name, j) :: f :: es)],
      hshort, hshorts⟩
    rw [Members.toText, htext, htexts, hname]
    simp [Style.entriesText, Style.entryText, hseparator]

end

/-- What a style writes is the text of a document. -/
theorem exists_document_of_spells (hs : s.IsStandard) {j : Json} (hj : j.Every s.Spells) :
    ∃ d : Document, d.toText = render s j ∧ d.toJson = j ∧ d.depth = j.depth ∧
      d.EveryNumber Literal.HasShortWhole := by
  obtain ⟨p, htext, hjson, hdepth, hshort⟩ := exists_spelling_eq hs j hj 0
  refine ⟨⟨⟨[], by simp⟩, p, ⟨[], by simp⟩⟩, ?_, hjson, hdepth, hshort⟩
  rw [Document.toText, List.append_nil, List.nil_append, htext, render]

end

/-! ### Whole texts -/

variable {s : Style}

/-- The lenient reader reads back what a style writes. -/
theorem read_render_of_spells (hs : s.IsStandard) {j : Json} (hj : j.Every s.Spells) :
    read (render s j) = .ok j := by
  obtain ⟨d, htext, hjson, -, hshort⟩ := exists_document_of_spells hs hj
  have hshort' := Spelling.EveryNumber.imp (fun _ => Literal.HasShortWhole.isShort) _ hshort
  rw [← htext, (read_toText d).1 hshort', hjson]

/-- Regular data that is written in a plain style is read back. -/
theorem read_render (hs : s.IsPlain) {j : Json} (hj : j.Every IsRegular) :
    read (render s j) = .ok j :=
  read_render_of_spells hs.isStandard (hs.every_spells hj)

/-- The strict reader reads back what a plain style writes, if it is not too deep. -/
theorem Strict.read_render (hs : s.IsPlain) {j : Json} (hj : j.Every IsRegular)
    (hdepth : j.depth ≤ maxDepth) : read (render s j) = .ok j := by
  obtain ⟨d, htext, hjson, hlevels, hshort⟩ :=
    exists_document_of_spells hs.isStandard (hs.every_spells hj)
  rw [← htext, (read_toText d (hlevels ▸ hdepth)).1 hshort, hjson]

end Schematic.Json
