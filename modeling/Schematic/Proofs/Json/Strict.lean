import Schematic.Proofs.Json.Reading

/-!
# Documents are read strictly

The strict reader takes the same texts as the lenient one, apart from two limits: collections may
not be nested too deep, and the whole part of a number may not have too many digits, whether it is
an integer or not. When the first limit is kept, the second one decides whether a document is read
or refused.
-/

namespace Schematic.Json.Strict

/-! ### Steps of the reader -/

/-- A text is read under a condition, and otherwise it is refused. -/
abbrev Reads {α : Type} (p : Prop) (r : Except Fault α) (a : α) : Prop :=
  GivesIf (fun _ => True) p r a

section

variable {p q : Prop} {fuel depth : Nat} {t inner next after more rest first : Text} {j : Json}
  {js : List Json} {es : List (Text × Json)}

/-- A number is read, unless its whole part is too long. -/
lemma value_text (l : Literal) (fuel depth : Nat) (hrest : EndsNumeral rest) :
    Reads l.HasShortWhole (value (fuel + 1) depth (l.text ++ rest)) (l.numeral.value, rest) := by
  have hvalue : value (fuel + 1) depth (l.text ++ rest) = wordOrNumber (l.text ++ rest) := by
    obtain ⟨c, cs, htext, hne⟩ := l.exists_text_eq
    rw [htext, List.cons_append, value]
    · exact fun _ h => hne '"' rfl (by decide) (List.cons.inj h).1
    · exact fun _ h => hne '[' rfl (by decide) (List.cons.inj h).1
    · exact fun _ h => hne '{' rfl (by decide) (List.cons.inj h).1
  rw [hvalue]
  exact wordOrNumber_text l hrest

lemma textBody_of_quoted (ps : List Piece) (rest : Text) :
    ∃ inner, quoted ps ++ rest = .char '"' :: inner ∧
      textBody 0 inner = .ok (content ps, rest) := by
  refine ⟨ps.flatMap Piece.text ++ .char '"' :: rest, ?_, textBody_quoted ps rest⟩
  simp [quoted]

lemma value_quoted (ps : List Piece) (fuel depth : Nat) (rest : Text) :
    value (fuel + 1) depth (quoted ps ++ rest) = .ok (.text (content ps), rest) := by
  obtain ⟨inner, htext, hread⟩ := textBody_of_quoted ps rest
  rw [htext, value, hread]
  rfl

lemma checkDepth_eq (h : depth < maxDepth) : checkDepth depth t = .ok () := by
  rw [checkDepth, if_neg (by omega)]

/-- An array without items is read. -/
lemma value_emptyArray (blanks : Blanks) (fuel depth : Nat) (rest : Text) :
    value (fuel + 1) depth ((Spelling.emptyArray blanks).toText ++ rest)
      = .ok (.array [], rest) := by
  have hskip : skipSpace (blanks.val ++ .char ']' :: rest) = .char ']' :: rest :=
    skipSpace_append blanks.property (by decide)
  simp only [Spelling.toText, List.cons_append, List.append_assoc, List.nil_append]
  rw [value, hskip]
  rfl

/-- An object without members is read. -/
lemma value_emptyObject (blanks : Blanks) (fuel depth : Nat) (rest : Text) :
    value (fuel + 1) depth ((Spelling.emptyObject blanks).toText ++ rest)
      = .ok (.object [], rest) := by
  have hskip : skipSpace (blanks.val ++ .char '}' :: rest) = .char '}' :: rest :=
    skipSpace_append blanks.property (by decide)
  simp only [Spelling.toText, List.cons_append, List.append_assoc, List.nil_append]
  rw [value, hskip]
  rfl

/-- An array is read from its items, one level deeper. -/
lemma value_array (hinner : skipSpace inner = next) (hnext : StartsItem next)
    (hdepth : depth < maxDepth) (hitems : Reads p (items fuel (depth + 1) next) (js, rest)) :
    Reads p (value (fuel + 1) depth (.char '[' :: inner)) (.array js, rest) := by
  obtain ⟨c, cs, rfl, -, hc, -⟩ := hnext
  rw [value, hinner]
  split
  · simp_all
  · simp_all
  · rw [checkDepth_eq hdepth, ok_bind]
    exact hitems.map rfl

/-- An object is read from its members, one level deeper. -/
lemma value_object (hinner : skipSpace inner = next) (hnext : StartsItem next)
    (hname : name next = .ok (first, more)) (hdepth : depth < maxDepth)
    (hmembers : Reads p (members fuel (depth + 1) first more) (es, rest)) :
    Reads p (value (fuel + 1) depth (.char '{' :: inner)) (.object (bindAll es), rest) := by
  obtain ⟨c, cs, rfl, -, -, hc, -⟩ := hnext
  rw [value, hinner]
  split
  · simp_all
  · simp_all
  · rw [hname, ok_bind]
    simp only [checkDepth_eq hdepth, ok_bind]
    exact hmembers.map rfl

/-- The last item ends at the closing bracket. -/
lemma items_last (hvalue : Reads p (value fuel depth t) (j, after))
    (hafter : skipSpace after = .char ']' :: rest) :
    Reads p (items (fuel + 1) depth t) ([j], rest) := by
  rw [items]
  refine hvalue.map ?_
  simp only [hafter]
  rfl

/-- An item ends at a comma, and others follow. -/
lemma items_more (hvalue : Reads p (value fuel depth t) (j, after))
    (hafter : skipSpace after = .char ',' :: more) (hmore : skipSpace more = next)
    (hnext : StartsItem next) (hitems : Reads q (items fuel depth next) (js, rest)) :
    Reads (p ∧ q) (items (fuel + 1) depth t) (j :: js, rest) := by
  obtain ⟨c, cs, rfl, -, hc, -⟩ := hnext
  rw [items]
  refine hvalue.bind ?_
  simp only [hafter, hmore]
  split
  · simp_all
  · simp_all
  · exact hitems.map rfl

/-- The name of an entry with its colon, and what follows them. -/
lemma name_text (n : Name) (hnext : StartsItem next) :
    name (n.text ++ next) = .ok (content n.pieces, next) := by
  have hcolon : skipSpace (n.after.val ++ .char ':' :: (n.before.val ++ next))
      = .char ':' :: (n.before.val ++ next) := skipSpace_append n.after.property (by decide)
  have hskip := hnext.skipSpace_append n.before
  have htext : n.text ++ next
      = quoted n.pieces ++ (n.after.val ++ .char ':' :: (n.before.val ++ next)) := by
    simp [Name.text]
  obtain ⟨inner, hinner, hread⟩ := textBody_of_quoted n.pieces
    (n.after.val ++ .char ':' :: (n.before.val ++ next))
  obtain ⟨c, cs, rfl, -⟩ := hnext
  rw [htext, hinner, name, hread, ok_bind]
  simp only [hcolon, hskip]
  rfl

/-- The last member ends at the closing brace. -/
lemma members_last (hvalue : Reads p (value fuel depth t) (j, after))
    (hafter : skipSpace after = .char '}' :: rest) :
    Reads p (members (fuel + 1) depth first t) ([(first, j)], rest) := by
  rw [members]
  refine hvalue.map ?_
  simp only [hafter]
  rfl

/-- A member ends at a comma, and others follow. -/
lemma members_more {second value' : Text} (hvalue : Reads p (value fuel depth t) (j, after))
    (hafter : skipSpace after = .char ',' :: more) (hmore : skipSpace more = next)
    (hnext : StartsItem next) (hname : name next = .ok (second, value'))
    (hmembers : Reads q (members fuel depth second value') (es, rest)) :
    Reads (p ∧ q) (members (fuel + 1) depth first t) ((first, j) :: es, rest) := by
  obtain ⟨c, cs, rfl, -, -, hc, -⟩ := hnext
  rw [members]
  refine hvalue.bind ?_
  simp only [hafter, hmore]
  split
  · simp_all
  · simp_all
  · rw [hname, ok_bind]
    exact hmembers.map rfl

end

/-! ### The strict reader -/

mutual

/-- A spelling that is not too deep is read as its data, unless a whole part in it is too long. -/
theorem value_toText (s : Spelling) (fuel depth : Nat)
    (rest : Text) (hfuel : s.toText.length ≤ fuel) (hdepth : depth + s.depth ≤ maxDepth)
    (hrest : EndsNumeral rest) :
    Reads (s.EveryNumber Literal.HasShortWhole) (value fuel depth (s.toText ++ rest))
      (s.toJson, rest) := by
  obtain ⟨fuel, rfl⟩ : ∃ f, fuel = f + 1 := by
    obtain ⟨c, cs, htext, -⟩ := s.startsItem_toText
    rw [htext, List.length_cons] at hfuel
    exact ⟨fuel - 1, by omega⟩
  match s with
  | .null => exact .of_eq_ok rfl
  | .bool true => exact .of_eq_ok rfl
  | .bool false => exact .of_eq_ok rfl
  | .number l => exact value_text l fuel depth hrest
  | .text ps => exact .of_eq_ok (value_quoted ps fuel depth rest)
  | .emptyArray blanks => exact .of_eq_ok (value_emptyArray blanks fuel depth rest)
  | .emptyObject blanks => exact .of_eq_ok (value_emptyObject blanks fuel depth rest)
  | .array before is =>
    -- The items are one level deeper, and still within the limit.
    rw [Spelling.depth] at hdepth
    have hlength : is.toText.length ≤ fuel := by
      simp only [Spelling.toText, List.length_cons, List.length_append] at hfuel
      omega
    have hstart := is.startsItem_toText.append rest
    have hitems := items_toText is fuel (depth + 1) rest hlength (by omega)
    simp only [Spelling.toText, List.cons_append, List.append_assoc]
    exact value_array (hstart.skipSpace_append before) hstart (by omega) hitems
  | .object before ms =>
    rw [Spelling.depth] at hdepth
    have hlength : ms.toText.length ≤ fuel := by
      simp only [Spelling.toText, List.length_cons, List.length_append] at hfuel
      omega
    have hstart := ms.startsItem_toText.append rest
    obtain ⟨first, more, hname, hmembers⟩ := members_toText ms fuel (depth + 1) rest hlength
      (by omega)
    simp only [Spelling.toText, List.cons_append, List.append_assoc]
    exact value_object (hstart.skipSpace_append before) hstart hname (by omega) hmembers

/-- Items are read as their data. -/
theorem items_toText (is : Items) (fuel depth : Nat)
    (rest : Text) (hfuel : is.toText.length ≤ fuel) (hdepth : depth + is.depth ≤ maxDepth) :
    Reads (is.EveryNumber Literal.HasShortWhole) (items fuel depth (is.toText ++ rest))
      (is.toJsons, rest) := by
  match is with
  | .last item after =>
    -- After the last item only the closing bracket is left.
    simp only [Items.toText, List.length_append, List.length_singleton] at hfuel
    rw [Items.depth] at hdepth
    obtain ⟨fuel, rfl⟩ : ∃ f, fuel = f + 1 := ⟨fuel - 1, by omega⟩
    simp only [Items.toText, List.append_assoc, List.singleton_append]
    have hvalue := value_toText item fuel depth (after.val ++ .char ']' :: rest) (by omega)
      (by omega) ((endsNumeral_cons rest (.inr (.inl rfl))).append after)
    exact items_last hvalue (skipSpace_append after.property (by decide))
  | .more item after before is =>
    -- A comma ends the item like a number would end, and the other items follow.
    simp only [Items.toText, List.length_append, List.length_cons] at hfuel
    rw [Items.depth] at hdepth
    obtain ⟨fuel, rfl⟩ : ∃ f, fuel = f + 1 := ⟨fuel - 1, by omega⟩
    simp only [Items.toText, List.append_assoc, List.cons_append]
    have hvalue := value_toText item fuel depth
      (after.val ++ .char ',' :: (before.val ++ (is.toText ++ rest))) (by omega) (by omega)
      ((endsNumeral_cons _ (.inl rfl)).append after)
    have hstart := is.startsItem_toText.append rest
    have hitems := items_toText is fuel depth rest (by omega) (by omega)
    exact items_more hvalue (skipSpace_append after.property (by decide))
      (hstart.skipSpace_append before) hstart hitems

/-- The entries of an object: the name of the first one, and what follows it. -/
theorem members_toText (ms : Members)
    (fuel depth : Nat) (rest : Text) (hfuel : ms.toText.length ≤ fuel)
    (hdepth : depth + ms.depth ≤ maxDepth) :
    ∃ first more, name (ms.toText ++ rest) = .ok (first, more) ∧
      Reads (ms.EveryNumber Literal.HasShortWhole) (members fuel depth first more)
        (ms.toEntries, rest) := by
  match ms with
  | .last n s after =>
    -- The first name is read before the members, since no comma may come before the closing brace.
    simp only [Members.toText, List.length_append, List.length_singleton] at hfuel
    rw [Members.depth] at hdepth
    obtain ⟨fuel, rfl⟩ : ∃ f, fuel = f + 1 := ⟨fuel - 1, by omega⟩
    simp only [Members.toText, List.append_assoc, List.singleton_append]
    have hvalue := value_toText s fuel depth (after.val ++ .char '}' :: rest) (by omega)
      (by omega) ((endsNumeral_cons rest (.inr (.inr rfl))).append after)
    exact ⟨_, _, name_text n (s.startsItem_toText.append _),
      members_last hvalue (skipSpace_append after.property (by decide))⟩
  | .more n s after before ms =>
    simp only [Members.toText, List.length_append, List.length_cons] at hfuel
    rw [Members.depth] at hdepth
    obtain ⟨fuel, rfl⟩ : ∃ f, fuel = f + 1 := ⟨fuel - 1, by omega⟩
    simp only [Members.toText, List.append_assoc, List.cons_append]
    have hvalue := value_toText s fuel depth
      (after.val ++ .char ',' :: (before.val ++ (ms.toText ++ rest))) (by omega) (by omega)
      ((endsNumeral_cons _ (.inl rfl)).append after)
    have hstart := ms.startsItem_toText.append rest
    obtain ⟨second, more, hname, hmembers⟩ := members_toText ms fuel depth rest (by omega)
      (by omega)
    exact ⟨_, _, name_text n (s.startsItem_toText.append _),
      members_more hvalue (skipSpace_append after.property (by decide))
        (hstart.skipSpace_append before) hstart hname hmembers⟩

end

/-- The strict reader reads a document that is not too deep, if no whole part has too many digits,
and refuses it otherwise. -/
theorem read_toText (d : Document) (hdepth : d.depth ≤ maxDepth) :
    (d.EveryNumber Literal.HasShortWhole → read d.toText = .ok d.toJson) ∧
      (¬ d.EveryNumber Literal.HasShortWhole → ∃ e, read d.toText = .error e) := by
  have hstart := d.spelling.startsItem_toText.append d.after.val
  have hends := endsNumeral_nil.append d.after
  rw [List.append_nil] at hends
  have hvalue :=
    value_toText d.spelling (d.toText.length + 1) 0 d.after.val
      (by simp only [Document.toText, List.length_append]; omega)
      (by rw [Nat.zero_add]; exact hdepth) hends
  have hskip : skipSpace d.toText = d.spelling.toText ++ d.after.val :=
    hstart.skipSpace_append d.before
  have hdocument : Reads (d.EveryNumber Literal.HasShortWhole) (document d.toText) d.toJson := by
    -- After the value only blanks are left.
    obtain ⟨c, rest, htext, -⟩ := hstart
    rw [document, hskip]
    rw [htext] at hvalue ⊢
    refine hvalue.map ?_
    simp only [skipSpace_blanks]
    rfl
  constructor
  · intro hshort
    rw [read, hdocument.1 hshort]
    rfl
  · intro hshort
    obtain ⟨fault, herror, -⟩ := hdocument.2 hshort
    exact ⟨_, by rw [read, herror]; rfl⟩

end Schematic.Json.Strict
