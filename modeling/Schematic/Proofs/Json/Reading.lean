import Schematic.Proofs.Json.Number
import Schematic.Proofs.Json.Text

/-!
# Documents are read

The lenient reader reads the text of every document of the grammar as the data of the document,
unless an integer has too many digits.

Each lemma states what the reader does with the text of a part and with whatever follows. The reader
takes fuel; the length of the text is enough of it.
-/

namespace Schematic.Json

/-! ### Blanks -/

lemma isSpace_iff {c : CodePoint} :
    isSpace c = true ↔ c = .char ' ' ∨ c = .char '\t' ∨ c = .char '\n' ∨ c = .char '\r' := by
  cases c <;> simp [isSpace, CodePoint.isOneOf]

/-- What is left of blanks is what follows them. -/
lemma skipSpace_append {blanks rest : Text} {c : CodePoint}
    (hblanks : ∀ b ∈ blanks, isSpace b = true) (hc : isSpace c = false) :
    skipSpace (blanks ++ c :: rest) = c :: rest := by
  rw [skipSpace, List.dropWhile_append_of_pos hblanks]
  simp [hc]

lemma skipSpace_blanks (blanks : Blanks) : skipSpace blanks.val = [] := by
  rw [← List.append_nil blanks.val, skipSpace, List.dropWhile_append_of_pos blanks.property]
  rfl

lemma endsNumeral_nil : EndsNumeral [] := by
  constructor <;> simp

/-- A comma or a closing bracket ends a number. -/
lemma endsNumeral_cons {c : CodePoint} (rest : Text)
    (hc : c = .char ',' ∨ c = .char ']' ∨ c = .char '\x7d') : EndsNumeral (c :: rest) := by
  rcases hc with rfl | rfl | rfl <;> constructor <;> simp <;> decide

/-- Blanks end a number as what comes after them would. -/
lemma EndsNumeral.append {rest : Text} (h : EndsNumeral rest) (blanks : Blanks) :
    EndsNumeral (blanks.val ++ rest) := by
  obtain ⟨blanks, hblanks⟩ := blanks
  cases blanks with
  | nil => exact h
  | cons b blanks =>
    rcases isSpace_iff.mp (hblanks b List.mem_cons_self) with rfl | rfl | rfl | rfl <;>
      constructor <;> simp <;> decide

/-- A text starts with what can neither be passed over nor close a collection. -/
def StartsItem (t : Text) : Prop :=
  ∃ c rest, t = c :: rest ∧ isSpace c = false ∧ c ≠ .char ']' ∧ c ≠ .char '}' ∧
    c ≠ .char '\uFEFF'

lemma StartsItem.append {t : Text} (h : StartsItem t) (more : Text) : StartsItem (t ++ more) := by
  obtain ⟨c, rest, rfl, hc⟩ := h
  exact ⟨c, rest ++ more, rfl, hc⟩

lemma StartsItem.skipSpace_append {t : Text} (h : StartsItem t) (blanks : Blanks) :
    skipSpace (blanks.val ++ t) = t := by
  obtain ⟨c, rest, rfl, hc, -⟩ := h
  exact Json.skipSpace_append blanks.property hc

/-- A number starts an item. -/
lemma startsItem_text (l : Literal) : StartsItem l.text := by
  obtain ⟨c, cs, hc, hbody⟩ := l.exists_body_eq
  rw [Literal.text, hbody]
  cases l.negative with
  | true => exact ⟨.char '-', _, rfl, by decide, by decide, by decide, by decide⟩
  | false =>
    refine ⟨c, _, rfl, ?_, isDigit_ne hc rfl, isDigit_ne hc rfl, isDigit_ne hc rfl⟩
    obtain ⟨d, hd, rfl⟩ := CodePoint.isDigit_iff.mp hc
    interval_cases d <;> rfl

lemma startsItem_quoted (ps : List Piece) : StartsItem (quoted ps) :=
  ⟨.char '"', _, rfl, by decide, by decide, by decide, by decide⟩

lemma Name.startsItem_text (n : Name) : StartsItem n.text := (startsItem_quoted n.pieces).append _

/-- A spelling starts an item. -/
lemma Spelling.startsItem_toText (s : Spelling) : StartsItem s.toText := by
  cases s with
  | null => exact ⟨.char 'n', _, rfl, by decide, by decide, by decide, by decide⟩
  | bool b => cases b <;> exact ⟨_, _, rfl, by decide, by decide, by decide, by decide⟩
  | number l => exact startsItem_text l
  | text ps => exact startsItem_quoted ps
  | emptyArray _ | array _ _ =>
    exact ⟨.char '[', _, rfl, by decide, by decide, by decide, by decide⟩
  | emptyObject _ | object _ _ =>
    exact ⟨.char '\x7b', _, rfl, by decide, by decide, by decide, by decide⟩

lemma Items.startsItem_toText (is : Items) : StartsItem is.toText := by
  cases is with
  | last item _ | more item _ _ _ => exact item.startsItem_toText.append _

lemma Members.startsItem_toText (ms : Members) : StartsItem ms.toText := by
  cases ms with
  | last name _ _ | more name _ _ _ _ => exact name.startsItem_text.append _

/-! ### Steps of the reader -/

/-- A text is read under a condition, and otherwise it holds a number that is too long. -/
abbrev Reads {α : Type} (p : Prop) (r : Except Stop α) (a : α) : Prop :=
  GivesIf Stop.IsTooLong p r a

section

variable {p q : Prop} {fuel : Nat} {t inner next after more rest : Text} {j : Json} {js : List Json}
  {name : Text} {es : List (Text × Json)}

/-- A number is read, unless it is an integer with too many digits. -/
lemma value_text (l : Literal) (fuel : Nat) (hrest : EndsNumeral rest) :
    Reads l.IsShort (value (fuel + 1) (l.text ++ rest)) (l.numeral.value, rest) := by
  have hvalue : value (fuel + 1) (l.text ++ rest) = wordOrNumber (l.text ++ rest) := by
    obtain ⟨c, cs, htext, hne⟩ := l.exists_text_eq
    rw [htext, List.cons_append, value]
    · exact fun _ h => hne '"' rfl (by decide) (List.cons.inj h).1
    · exact fun _ h => hne '[' rfl (by decide) (List.cons.inj h).1
    · exact fun _ h => hne '{' rfl (by decide) (List.cons.inj h).1
  rw [hvalue]
  exact wordOrNumber_text l hrest

lemma textBody_of_quoted (start : Text) (ps : List Piece) (rest : Text) :
    ∃ inner, quoted ps ++ rest = .char '"' :: inner ∧
      textBody start 0 inner = .ok (content ps, rest) := by
  refine ⟨ps.flatMap Piece.text ++ .char '"' :: rest, ?_, textBody_quoted start ps rest⟩
  simp [quoted]

/-- A text between quotes is read as its content. -/
lemma value_quoted (ps : List Piece) (fuel : Nat) (rest : Text) :
    value (fuel + 1) (quoted ps ++ rest) = .ok (.text (content ps), rest) := by
  obtain ⟨inner, htext, hread⟩ := textBody_of_quoted (quoted ps ++ rest) ps rest
  rw [htext] at hread ⊢
  rw [value, hread]
  rfl

/-- An array without items is read. -/
lemma value_emptyArray (blanks : Blanks) (fuel : Nat) (rest : Text) :
    value (fuel + 1) ((Spelling.emptyArray blanks).toText ++ rest) = .ok (.array [], rest) := by
  have hskip : skipSpace (blanks.val ++ .char ']' :: rest) = .char ']' :: rest :=
    skipSpace_append blanks.property (by decide)
  simp only [Spelling.toText, List.cons_append, List.append_assoc, List.nil_append]
  rw [value, hskip]
  rfl

/-- An object without members is read. -/
lemma value_emptyObject (blanks : Blanks) (fuel : Nat) (rest : Text) :
    value (fuel + 1) ((Spelling.emptyObject blanks).toText ++ rest) = .ok (.object [], rest) := by
  have hskip : skipSpace (blanks.val ++ .char '}' :: rest) = .char '}' :: rest :=
    skipSpace_append blanks.property (by decide)
  simp only [Spelling.toText, List.cons_append, List.append_assoc, List.nil_append]
  rw [value, hskip]
  rfl

/-- An array is read from its items. -/
lemma value_array (hinner : skipSpace inner = next) (hnext : StartsItem next)
    (hitems : Reads p (items fuel next) (js, rest)) :
    Reads p (value (fuel + 1) (.char '[' :: inner)) (.array js, rest) := by
  obtain ⟨c, cs, rfl, -, hc, -⟩ := hnext
  rw [value, hinner]
  split
  · simp_all
  · exact hitems.map rfl

/-- An object is read from its members, where the later of two equal names counts. -/
lemma value_object (hinner : skipSpace inner = next) (hnext : StartsItem next)
    (hmembers : Reads p (members fuel next) (es, rest)) :
    Reads p (value (fuel + 1) (.char '{' :: inner)) (.object (bindAll es), rest) := by
  obtain ⟨c, cs, rfl, -, -, hc, -⟩ := hnext
  rw [value, hinner]
  split
  · simp_all
  · exact hmembers.map rfl

/-- The last item ends at the closing bracket. -/
lemma items_last (hvalue : Reads p (value fuel t) (j, after))
    (hafter : skipSpace after = .char ']' :: rest) :
    Reads p (items (fuel + 1) t) ([j], rest) := by
  rw [items]
  refine hvalue.map ?_
  simp only [hafter]
  rfl

/-- An item ends at a comma, and others follow. -/
lemma items_more (hvalue : Reads p (value fuel t) (j, after))
    (hafter : skipSpace after = .char ',' :: more)
    (hitems : Reads q (items fuel (skipSpace more)) (js, rest)) :
    Reads (p ∧ q) (items (fuel + 1) t) (j :: js, rest) := by
  rw [items]
  refine hvalue.bind ?_
  simp only [hafter]
  exact hitems.map rfl

/-- The name of an entry, a colon and the value. -/
lemma members_eq (n : Name) (hstart : StartsItem next) :
    members (fuel + 1) (n.text ++ next) = (do
      let (j, after) ← value fuel next
      match skipSpace after with
      | .char '}' :: rest => return ([(content n.pieces, j)], rest)
      | .char ',' :: rest => do
        let (more, rest) ← members fuel (skipSpace rest)
        return ((content n.pieces, j) :: more, rest)
      | rest => .error (.malformed rest)) := by
  have hcolon : skipSpace (n.after.val ++ .char ':' :: (n.before.val ++ next))
      = .char ':' :: (n.before.val ++ next) := skipSpace_append n.after.property (by decide)
  have hskip := hstart.skipSpace_append n.before
  have htext : n.text ++ next
      = quoted n.pieces ++ (n.after.val ++ .char ':' :: (n.before.val ++ next)) := by
    simp [Name.text]
  obtain ⟨inner, hinner, hread⟩ := textBody_of_quoted (n.text ++ next) n.pieces
    (n.after.val ++ .char ':' :: (n.before.val ++ next))
  rw [htext] at hread ⊢
  rw [hinner] at hread ⊢
  rw [members, hread, ok_bind]
  simp only [hcolon, hskip]
  rfl

/-- The last member ends at the closing brace. -/
lemma members_last (n : Name) (hstart : StartsItem next)
    (hvalue : Reads p (value fuel next) (j, after))
    (hafter : skipSpace after = .char '}' :: rest) :
    Reads p (members (fuel + 1) (n.text ++ next)) ([(content n.pieces, j)], rest) := by
  rw [members_eq n hstart]
  refine hvalue.map ?_
  simp only [hafter]
  rfl

/-- A member ends at a comma, and others follow. -/
lemma members_more (n : Name) (hstart : StartsItem next)
    (hvalue : Reads p (value fuel next) (j, after))
    (hafter : skipSpace after = .char ',' :: more)
    (hmembers : Reads q (members fuel (skipSpace more)) (es, rest)) :
    Reads (p ∧ q) (members (fuel + 1) (n.text ++ next))
      ((content n.pieces, j) :: es, rest) := by
  rw [members_eq n hstart]
  refine hvalue.bind ?_
  simp only [hafter]
  exact hmembers.map rfl

end

/-! ### The lenient reader -/

mutual

/-- A spelling is read as its data, unless an integer in it has too many digits. -/
theorem value_toText (s : Spelling) (fuel : Nat) (rest : Text) (hfuel : s.toText.length ≤ fuel)
    (hrest : EndsNumeral rest) :
    Reads (s.EveryNumber Literal.IsShort) (value fuel (s.toText ++ rest))
      (s.toJson, rest) := by
  obtain ⟨fuel, rfl⟩ : ∃ f, fuel = f + 1 := by
    -- A spelling is not empty, so there is fuel for its first code point.
    obtain ⟨c, cs, htext, -⟩ := s.startsItem_toText
    rw [htext, List.length_cons] at hfuel
    exact ⟨fuel - 1, by omega⟩
  match s with
  | .null => exact .of_eq_ok rfl
  | .bool true => exact .of_eq_ok rfl
  | .bool false => exact .of_eq_ok rfl
  | .number l => exact value_text l fuel hrest
  | .text ps => exact .of_eq_ok (value_quoted ps fuel rest)
  | .emptyArray blanks => exact .of_eq_ok (value_emptyArray blanks fuel rest)
  | .emptyObject blanks => exact .of_eq_ok (value_emptyObject blanks fuel rest)
  | .array before is =>
    -- The blanks after the bracket are passed over, and the items have the fuel that is left.
    have hlength : is.toText.length ≤ fuel := by
      simp only [Spelling.toText, List.length_cons, List.length_append] at hfuel
      omega
    have hstart := is.startsItem_toText.append rest
    have hitems := items_toText is fuel rest hlength
    simp only [Spelling.toText, List.cons_append, List.append_assoc]
    exact value_array (hstart.skipSpace_append before) hstart hitems
  | .object before ms =>
    have hlength : ms.toText.length ≤ fuel := by
      simp only [Spelling.toText, List.length_cons, List.length_append] at hfuel
      omega
    have hstart := ms.startsItem_toText.append rest
    have hmembers := members_toText ms fuel rest hlength
    simp only [Spelling.toText, List.cons_append, List.append_assoc]
    exact value_object (hstart.skipSpace_append before) hstart hmembers

/-- Items are read as their data. -/
theorem items_toText (is : Items) (fuel : Nat) (rest : Text) (hfuel : is.toText.length ≤ fuel) :
    Reads (is.EveryNumber Literal.IsShort) (items fuel (is.toText ++ rest))
      (is.toJsons, rest) := by
  match is with
  | .last item after =>
    simp only [Items.toText, List.length_append, List.length_singleton] at hfuel
    obtain ⟨fuel, rfl⟩ : ∃ f, fuel = f + 1 := ⟨fuel - 1, by omega⟩
    simp only [Items.toText, List.append_assoc, List.singleton_append]
    have hvalue := value_toText item fuel (after.val ++ .char ']' :: rest) (by omega)
      ((endsNumeral_cons rest (.inr (.inl rfl))).append after)
    exact items_last hvalue (skipSpace_append after.property (by decide))
  | .more item after before is =>
    simp only [Items.toText, List.length_append, List.length_cons] at hfuel
    obtain ⟨fuel, rfl⟩ : ∃ f, fuel = f + 1 := ⟨fuel - 1, by omega⟩
    simp only [Items.toText, List.append_assoc, List.cons_append]
    have hvalue := value_toText item fuel
      (after.val ++ .char ',' :: (before.val ++ (is.toText ++ rest))) (by omega)
      ((endsNumeral_cons _ (.inl rfl)).append after)
    refine items_more hvalue (skipSpace_append after.property (by decide)) ?_
    rw [(is.startsItem_toText.append rest).skipSpace_append before]
    exact items_toText is fuel rest (by omega)

/-- Members are read as their entries. -/
theorem members_toText (ms : Members) (fuel : Nat) (rest : Text) (hfuel : ms.toText.length ≤ fuel) :
    Reads (ms.EveryNumber Literal.IsShort) (members fuel (ms.toText ++ rest))
      (ms.toEntries, rest) := by
  match ms with
  | .last name s after =>
    simp only [Members.toText, List.length_append, List.length_singleton] at hfuel
    obtain ⟨fuel, rfl⟩ : ∃ f, fuel = f + 1 := ⟨fuel - 1, by omega⟩
    simp only [Members.toText, List.append_assoc, List.singleton_append]
    have hvalue := value_toText s fuel (after.val ++ .char '}' :: rest) (by omega)
      ((endsNumeral_cons rest (.inr (.inr rfl))).append after)
    exact members_last name (s.startsItem_toText.append _) hvalue
      (skipSpace_append after.property (by decide))
  | .more name s after before ms =>
    simp only [Members.toText, List.length_append, List.length_cons] at hfuel
    obtain ⟨fuel, rfl⟩ : ∃ f, fuel = f + 1 := ⟨fuel - 1, by omega⟩
    simp only [Members.toText, List.append_assoc, List.cons_append]
    have hvalue := value_toText s fuel
      (after.val ++ .char ',' :: (before.val ++ (ms.toText ++ rest))) (by omega)
      ((endsNumeral_cons _ (.inl rfl)).append after)
    refine members_more name (s.startsItem_toText.append _) hvalue
      (skipSpace_append after.property (by decide)) ?_
    rw [(ms.startsItem_toText.append rest).skipSpace_append before]
    exact members_toText ms fuel rest (by omega)

end

/-- A document does not start with a byte order mark. -/
lemma Document.head?_toText_ne (d : Document) : d.toText.head? ≠ some (.char '\uFEFF') := by
  obtain ⟨c, cs, htext, -, -, -, hc⟩ := d.spelling.startsItem_toText.append d.after.val
  rw [Document.toText, htext]
  obtain ⟨blanks, hblanks⟩ := d.before
  cases blanks with
  | nil => simpa using hc
  | cons b blanks =>
    rcases isSpace_iff.mp (hblanks b List.mem_cons_self) with rfl | rfl | rfl | rfl <;> simp

/-- A document does not start with a mark of byte order. -/
lemma Document.head?_append_ne (d : Document) {more : Text}
    (hmore : more.head? ≠ some (.char '\uFEFF')) :
    (d.toText ++ more).head? ≠ some (.char '\uFEFF') := by
  rw [List.head?_append]
  cases hhead : d.toText.head? with
  | none => exact hmore
  | some c => simpa [hhead] using d.head?_toText_ne

/-- The lenient reader reads a document, unless an integer has too many digits. -/
theorem read_toText (d : Document) :
    (d.EveryNumber Literal.IsShort → read d.toText = .ok d.toJson) ∧
      (¬ d.EveryNumber Literal.IsShort →
        ∃ count, read d.toText = .error (.tooManyDigits count)) := by
  have hstart := d.spelling.startsItem_toText.append d.after.val
  have hends := endsNumeral_nil.append d.after
  rw [List.append_nil] at hends
  have hvalue := value_toText d.spelling (d.toText.length + 1) d.after.val
    (by simp only [Document.toText, List.length_append]; omega) hends
  have hskip : skipSpace d.toText = d.spelling.toText ++ d.after.val :=
    hstart.skipSpace_append d.before
  have hdocument : Reads (d.EveryNumber Literal.IsShort) (document d.toText) d.toJson := by
    rw [document, if_neg d.head?_toText_ne, hskip]
    refine hvalue.map ?_
    simp only [skipSpace_blanks]
    rfl
  constructor
  · intro hshort
    rw [read, hdocument.1 hshort]
    rfl
  · -- No other fault comes from an integer with too many digits.
    intro hlong
    obtain ⟨fault, hfault, hkind⟩ := hdocument.2 hlong
    cases fault with
    | malformed rest => exact hkind.elim
    | tooManyDigits count => exact ⟨count, by rw [read, hfault]; rfl⟩

end Schematic.Json
