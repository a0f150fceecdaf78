import Schematic.Component.Writer
import Schematic.Proofs.Fault
import Schematic.Proofs.Json.RoundTrip

/-!
# Plain data and values

A value that is plain data has itself as its plain form, unless a key holds half of a surrogate
pair, which has no bytes. Data in which no object repeats a name is settled already.
-/

namespace Schematic

/-! ### Parts and their texts -/

namespace Json

/-- The names of an object have bytes. -/
def HasUnicodeNames : Json → Prop
  | .object entries => ∀ e ∈ entries, e.1.IsUnicode
  | .null | .bool _ | .int _ | .float _ | .text _ | .array _ => True

lemma IsUnicode.hasUnicodeNames {j : Json} (h : j.IsUnicode) : j.HasUnicodeNames := by
  cases j with
  | object es => exact h
  | _ => trivial

end Json

namespace Value

mutual

def texts : Value → List Text
  | .text t => [t]
  | .list vs | .tuple vs | .set vs => textsList vs
  | .map es => textsEntries es
  | .null | .bool _ | .int _ | .float _ | .bytes _ | .date _ | .dateTime _ => []

def textsList : List Value → List Text
  | [] => []
  | v :: vs => v.texts ++ textsList vs

def textsEntries : List (Value × Value) → List Text
  | [] => []
  | (k, v) :: es => k.texts ++ v.texts ++ textsEntries es

end

mutual

/-- How deep the collections of a value are nested. -/
def depth : Value → Nat
  | .list vs | .tuple vs | .set vs => depthList vs + 1
  | .map es => depthEntries es + 1
  | .null | .bool _ | .int _ | .float _ | .text _ | .bytes _ | .date _ | .dateTime _ => 0

/-- How deep the collections among some values are nested. -/
def depthList : List Value → Nat
  | [] => 0
  | v :: vs => max v.depth (depthList vs)

/-- How deep the collections in some entries are nested. -/
def depthEntries : List (Value × Value) → Nat
  | [] => 0
  | (_, v) :: es => max v.depth (depthEntries es)

end

/-! ### What plain forms come from -/

lemma exists_of_plain_map {es : List (Value × Value)} {j : Json} (h : (map es).plain = .ok j) :
    ∃ ps, plainEntries es = .ok ps ∧ j = .object ps := by
  rw [plain] at h
  obtain ⟨ps, hps, h⟩ := exists_of_bind_eq_ok h
  exact ⟨ps, hps, (Except.ok.inj h).symm⟩

lemma exists_of_plain_list {vs : List Value} {j : Json} (h : (list vs).plain = .ok j) :
    ∃ js, plainList vs = .ok js ∧ j = .array js := by
  rw [plain] at h
  obtain ⟨js, hjs, h⟩ := exists_of_bind_eq_ok h
  exact ⟨js, hjs, (Except.ok.inj h).symm⟩

/-- A list has a plain form if its first item has one and the others have. -/
lemma exists_of_plainList_cons {v : Value} {vs : List Value} {js : List Json}
    (h : plainList (v :: vs) = .ok js) :
    ∃ k ks, v.plain = .ok k ∧ plainList vs = .ok ks ∧ js = k :: ks := by
  rw [plainList] at h
  obtain ⟨k, hk, h⟩ := exists_of_bind_eq_ok h
  obtain ⟨ks, hks, h⟩ := exists_of_bind_eq_ok h
  exact ⟨k, ks, hk, hks, (Except.ok.inj h).symm⟩

/-- A map has a plain form if its first key and value have one and the others have. -/
lemma exists_of_plainEntries_cons {k v : Value} {es : List (Value × Value)}
    {ps : List (Text × Json)} (h : plainEntries ((k, v) :: es) = .ok ps) :
    ∃ name j qs, k.plainKey = .ok name ∧ v.plain = .ok j ∧ plainEntries es = .ok qs ∧
      ps = (name, j) :: qs := by
  rw [plainEntries] at h
  obtain ⟨name, hname, h⟩ := exists_of_bind_eq_ok h
  obtain ⟨j, hj, h⟩ := exists_of_bind_eq_ok h
  obtain ⟨qs, hqs, h⟩ := exists_of_bind_eq_ok h
  exact ⟨name, j, qs, hname, hj, hqs, (Except.ok.inj h).symm⟩

/-- A text spells itself if it has bytes. -/
lemma plainKey_text_eq_ok_iff {t name : Text} :
    (text t).plainKey = .ok name ↔ t.IsUnicode ∧ name = t := by
  rw [plainKey, ← Utf8.unwritable?_eq_none_iff]
  cases Utf8.unwritable? t with
  | none => simp [eq_comm]
  | some u => simp

end Value

namespace Json

mutual

lemma depth_toValue (j : Json) : j.toValue.depth = j.depth := by
  match j with
  | .null | .bool _ | .int _ | .float _ | .text _ => simp [toValue, Value.depth, depth]
  | .array js => simp [toValue, Value.depth, depth, depthList_toValues js]
  | .object es => simp [toValue, Value.depth, depth, depthEntries_toEntries es]

lemma depthList_toValues (js : List Json) : Value.depthList (toValues js) = depthItems js := by
  match js with
  | [] => rfl
  | j :: js => simp [toValues, Value.depthList, depthItems, depth_toValue j, depthList_toValues js]

/-- Entries are as deep as their values. -/
lemma depthEntries_toEntries (es : List (Text × Json)) :
    Value.depthEntries (toEntries es) = depthEntries es := by
  match es with
  | [] => rfl
  | (_, j) :: es =>
    simp [toEntries, Value.depthEntries, depthEntries, depth_toValue j, depthEntries_toEntries es]

end

mutual

/-- Data has bytes if all of its texts have. -/
lemma every_isUnicode (j : Json) (h : ∀ t ∈ j.toValue.texts, t.IsUnicode) :
    j.Every IsUnicode := by
  match j with
  | .null | .bool _ | .int _ | .float _ => trivial
  | .text t => exact h t (by simp [toValue, Value.texts])
  | .array js => exact ⟨trivial, everyItem_isUnicode js (by simpa [toValue, Value.texts] using h)⟩
  | .object es => exact everyEntry_isUnicode es (by simpa [toValue, Value.texts] using h)

/-- Items have bytes if all of their texts have. -/
lemma everyItem_isUnicode (js : List Json)
    (h : ∀ t ∈ Value.textsList (toValues js), t.IsUnicode) : EveryItem IsUnicode js := by
  match js with
  | [] => trivial
  | j :: js =>
    rw [toValues, Value.textsList, List.forall_mem_append] at h
    exact ⟨every_isUnicode j h.1, everyItem_isUnicode js h.2⟩

/-- Entries have bytes if all of their texts have. -/
lemma everyEntry_isUnicode (es : List (Text × Json))
    (h : ∀ t ∈ Value.textsEntries (toEntries es), t.IsUnicode) :
    (∀ e ∈ es, e.1.IsUnicode) ∧ EveryEntry IsUnicode es := by
  match es with
  | [] => exact ⟨by simp, trivial⟩
  | (k, j) :: es =>
    rw [toEntries, Value.textsEntries, List.forall_mem_append, List.forall_mem_append] at h
    obtain ⟨hnames, hes⟩ := everyEntry_isUnicode es h.2
    refine ⟨List.forall_mem_cons.mpr ⟨h.1.1 k ?_, hnames⟩, every_isUnicode j h.1.2, hes⟩
    simp [Value.texts]

end

/-! ### Plain forms -/

mutual

/-- Plain data with null in the place of every number that is not finite. -/
def finite : Json → Json
  | .null => .null
  | .bool b => .bool b
  | .int n => .int n
  | .float x => if x.isFinite then .float x else .null
  | .text t => .text t
  | .array items => .array (finiteItems items)
  | .object entries => .object (finiteEntries entries)

/-- Items with null in the place of every number that is not finite. -/
def finiteItems : List Json → List Json
  | [] => []
  | j :: js => j.finite :: finiteItems js

/-- Entries with null in the place of every number that is not finite. -/
def finiteEntries : List (Text × Json) → List (Text × Json)
  | [] => []
  | (name, j) :: es => (name, j.finite) :: finiteEntries es

end

lemma names_finiteEntries (es : List (Text × Json)) :
    (finiteEntries es).map Prod.fst = es.map Prod.fst := by
  induction es with
  | nil => rfl
  | cons e es ih => rw [finiteEntries, List.map_cons, List.map_cons, ih]

mutual

/-- Data without other numbers is what is left of its finite numbers. -/
lemma finite_eq_self (j : Json) (h : j.Every IsFinite) : j.finite = j := by
  match j with
  | .null | .bool _ | .int _ | .text _ => rfl
  | .float x => exact if_pos h
  | .array js => rw [finite, finiteItems_eq_self js h.2]
  | .object es => rw [finite, finiteEntries_eq_self es h.2]

lemma finiteItems_eq_self (js : List Json) (h : EveryItem IsFinite js) : finiteItems js = js := by
  match js with
  | [] => rfl
  | j :: js => rw [finiteItems, finite_eq_self j h.1, finiteItems_eq_self js h.2]

lemma finiteEntries_eq_self (es : List (Text × Json)) (h : EveryEntry IsFinite es) :
    finiteEntries es = es := by
  match es with
  | [] => rfl
  | (_, j) :: es => rw [finiteEntries, finite_eq_self j h.1, finiteEntries_eq_self es h.2]

end

/-- A property of objects is one of their names, and it holds of null, of numbers and of arrays. -/
structure IsOfNames (p : Json → Prop) : Prop where
  null : p .null
  float : ∀ x, p (.float x)
  array : ∀ js, p (.array js)
  object : ∀ {es fs : List (Text × Json)}, es.map Prod.fst = fs.map Prod.fst → p (.object es) →
    p (.object fs)

/-- That texts have bytes is told by texts and names alone. -/
lemma isOfNames_isUnicode : IsOfNames IsUnicode where
  null := trivial
  float _ := trivial
  array _ := trivial
  object {es fs} h hes := by
    have hnames : ∀ name ∈ es.map Prod.fst, name.IsUnicode := List.forall_mem_map.mpr hes
    rw [h] at hnames
    exact List.forall_mem_map.mp hnames

/-- That names are distinct is told by names alone. -/
lemma isOfNames_hasDistinctNames : IsOfNames HasDistinctNames where
  null := trivial
  float _ := trivial
  array _ := trivial
  object h hes := by
    rw [HasDistinctNames] at hes ⊢
    exact h ▸ hes

mutual

/-- Leaving out numbers changes no property of texts and names. -/
lemma every_finite_iff {p : Json → Prop} (hp : IsOfNames p) (j : Json) :
    j.finite.Every p ↔ j.Every p := by
  match j with
  | .null | .bool _ | .int _ | .text _ => rfl
  | .float x =>
    rw [finite]
    split
    · rfl
    · exact iff_of_true hp.null (hp.float x)
  | .array js =>
    exact and_congr (iff_of_true (hp.array _) (hp.array _)) (everyItem_finiteItems_iff hp js)
  | .object es =>
    have hnames := names_finiteEntries es
    exact and_congr ⟨hp.object hnames, hp.object hnames.symm⟩ (everyEntry_finiteEntries_iff hp es)

lemma everyItem_finiteItems_iff {p : Json → Prop} (hp : IsOfNames p) (js : List Json) :
    EveryItem p (finiteItems js) ↔ EveryItem p js := by
  match js with
  | [] => rfl
  | j :: js => exact and_congr (every_finite_iff hp j) (everyItem_finiteItems_iff hp js)

lemma everyEntry_finiteEntries_iff {p : Json → Prop} (hp : IsOfNames p) (es : List (Text × Json)) :
    EveryEntry p (finiteEntries es) ↔ EveryEntry p es := by
  match es with
  | [] => rfl
  | (_, j) :: es => exact and_congr (every_finite_iff hp j) (everyEntry_finiteEntries_iff hp es)

end

mutual

/-- What is left has finite numbers only. -/
lemma every_isFinite_finite (j : Json) : j.finite.Every IsFinite := by
  match j with
  | .null | .bool _ | .int _ | .text _ => trivial
  | .float x =>
    rw [finite]
    split
    · next hx => exact hx
    · trivial
  | .array js => exact ⟨trivial, everyItem_isFinite_finiteItems js⟩
  | .object es => exact ⟨trivial, everyEntry_isFinite_finiteEntries es⟩

lemma everyItem_isFinite_finiteItems (js : List Json) : EveryItem IsFinite (finiteItems js) := by
  match js with
  | [] => trivial
  | j :: js => exact ⟨every_isFinite_finite j, everyItem_isFinite_finiteItems js⟩

lemma everyEntry_isFinite_finiteEntries (es : List (Text × Json)) :
    EveryEntry IsFinite (finiteEntries es) := by
  match es with
  | [] => trivial
  | (_, j) :: es => exact ⟨every_isFinite_finite j, everyEntry_isFinite_finiteEntries es⟩

end

mutual

/-- Plain data has itself as its plain form, up to numbers that are not finite, if its names have
bytes. -/
lemma plain_toValue (j : Json) (hnames : j.Every HasUnicodeNames) :
    j.toValue.plain = .ok j.finite := by
  match j with
  | .null | .bool _ | .int _ | .float _ | .text _ => rfl
  | .array js =>
    rw [toValue, Value.plain, plainList_toValues js hnames.2]
    rfl
  | .object es =>
    rw [toValue, Value.plain, plainEntries_toEntries es hnames.1 hnames.2]
    rfl

/-- Plain items have plain forms, with null for what is not finite. -/
lemma plainList_toValues (js : List Json) (hnames : EveryItem HasUnicodeNames js) :
    Value.plainList (toValues js) = .ok (finiteItems js) := by
  match js with
  | [] => rfl
  | j :: js =>
    rw [toValues, Value.plainList, plain_toValue j hnames.1, plainList_toValues js hnames.2]
    rfl

/-- Plain entries have plain forms, with null for what is not finite. -/
lemma plainEntries_toEntries (es : List (Text × Json)) (hnames : ∀ e ∈ es, e.1.IsUnicode)
    (hes : EveryEntry HasUnicodeNames es) :
    Value.plainEntries (toEntries es) = .ok (finiteEntries es) := by
  match es with
  | [] => rfl
  | (k, j) :: es =>
    have hk : Utf8.unwritable? k = none :=
      Utf8.unwritable?_eq_none_iff.mpr (hnames (k, j) List.mem_cons_self)
    rw [toEntries, Value.plainEntries, Value.plainKey, hk]
    simp only [ok_bind, plain_toValue j hes.1,
      plainEntries_toEntries es (fun e he => hnames e (List.mem_cons_of_mem _ he)) hes.2]
    rfl

end

mutual

/-- Plain data has a plain form only if the names in it have bytes. -/
lemma hasUnicodeNames_of_plain (j : Json) {k : Json} (h : j.toValue.plain = .ok k) :
    j.Every HasUnicodeNames := by
  match j with
  | .null | .bool _ | .int _ | .float _ | .text _ => trivial
  | .array js =>
    obtain ⟨ks, hks, -⟩ := Value.exists_of_plain_list h
    exact ⟨trivial, hasUnicodeNames_of_plainList js hks⟩
  | .object es =>
    obtain ⟨fs, hfs, -⟩ := Value.exists_of_plain_map h
    exact hasUnicodeNames_of_plainEntries es hfs

/-- Items that have plain forms have names that have bytes. -/
lemma hasUnicodeNames_of_plainList (js : List Json) {ks : List Json}
    (h : Value.plainList (toValues js) = .ok ks) : EveryItem HasUnicodeNames js := by
  match js with
  | [] => trivial
  | j :: js =>
    obtain ⟨k, ks, hk, hks, -⟩ := Value.exists_of_plainList_cons h
    exact ⟨hasUnicodeNames_of_plain j hk, hasUnicodeNames_of_plainList js hks⟩

/-- Entries that have plain forms have names that have bytes. -/
lemma hasUnicodeNames_of_plainEntries (es : List (Text × Json)) {fs : List (Text × Json)}
    (h : Value.plainEntries (toEntries es) = .ok fs) :
    (∀ e ∈ es, e.1.IsUnicode) ∧ EveryEntry HasUnicodeNames es := by
  match es with
  | [] => exact ⟨by simp, trivial⟩
  | (name, j) :: es =>
    obtain ⟨name', k, fs, hname, hk, hfs, -⟩ := Value.exists_of_plainEntries_cons h
    obtain ⟨hunicode, -⟩ := Value.plainKey_text_eq_ok_iff.mp hname
    obtain ⟨hnames, hes⟩ := hasUnicodeNames_of_plainEntries es hfs
    exact ⟨List.forall_mem_cons.mpr ⟨hunicode, hnames⟩, hasUnicodeNames_of_plain j hk, hes⟩

end

mutual

lemma settled_eq_self (j : Json) (h : j.Every HasDistinctNames) : j.settled = j := by
  match j with
  | .null | .bool _ | .int _ | .float _ | .text _ => rfl
  | .array js => rw [settled, settledItems_eq_self js h.2]
  | .object es => rw [settled, settledEntries_eq_self es h.2, bindAll_eq_self h.1]

lemma settledItems_eq_self (js : List Json) (h : EveryItem HasDistinctNames js) :
    settledItems js = js := by
  match js with
  | [] => rfl
  | j :: js => rw [settledItems, settled_eq_self j h.1, settledItems_eq_self js h.2]

lemma settledEntries_eq_self (es : List (Text × Json)) (h : EveryEntry HasDistinctNames es) :
    settledEntries es = es := by
  match es with
  | [] => rfl
  | (_, j) :: es => rw [settledEntries, settled_eq_self j h.1, settledEntries_eq_self es h.2]

end

mutual

/-- Data that has bytes holds nothing unwritable. -/
lemma unwritable?_eq_none (j : Json) (h : j.Every IsUnicode) : j.unwritable? = none := by
  match j with
  | .null | .bool _ | .int _ | .float _ => rfl
  | .text t => exact Utf8.unwritable?_eq_none_iff.mpr h
  | .array js => exact unwritableItems?_eq_none js h.2
  | .object es => exact unwritableEntries?_eq_none es h.1 h.2

lemma unwritableItems?_eq_none (js : List Json) (h : EveryItem IsUnicode js) :
    unwritableItems? js = none := by
  match js with
  | [] => rfl
  | j :: js => simp [unwritableItems?, unwritable?_eq_none j h.1, unwritableItems?_eq_none js h.2]

/-- Entries that have bytes hold nothing unwritable. -/
lemma unwritableEntries?_eq_none (es : List (Text × Json)) (hnames : ∀ e ∈ es, e.1.IsUnicode)
    (h : EveryEntry IsUnicode es) : unwritableEntries? es = none := by
  match es with
  | [] => rfl
  | (k, j) :: es =>
    have hk : Utf8.unwritable? k = none :=
      Utf8.unwritable?_eq_none_iff.mpr (hnames (k, j) List.mem_cons_self)
    simp [unwritableEntries?, hk, unwritable?_eq_none j h.1, unwritableEntries?_eq_none es
      (fun e he => hnames e (List.mem_cons_of_mem _ he)) h.2]

end

mutual

/-- Short data holds no integer that is too long. -/
lemma isTooLong_eq_false (j : Json) (h : j.Every IsShort) : j.isTooLong = false := by
  match j with
  | .null | .bool _ | .float _ | .text _ => rfl
  | .int n =>
    rw [isTooLong, Value.isTooLong, decide_eq_false_iff_not, Nat.not_le]
    exact h
  | .array js => exact anyTooLong_eq_false js h.2
  | .object es => exact anyEntryTooLong_eq_false es h.2

lemma anyTooLong_eq_false (js : List Json) (h : EveryItem IsShort js) :
    anyTooLong js = false := by
  match js with
  | [] => rfl
  | j :: js => rw [anyTooLong, isTooLong_eq_false j h.1, anyTooLong_eq_false js h.2]; rfl

/-- Short entries hold no integer that is too long. -/
lemma anyEntryTooLong_eq_false (es : List (Text × Json)) (h : EveryEntry IsShort es) :
    anyEntryTooLong es = false := by
  match es with
  | [] => rfl
  | (_, j) :: es =>
    rw [anyEntryTooLong, isTooLong_eq_false j h.1, anyEntryTooLong_eq_false es h.2]; rfl

end

/-! ### Written texts have bytes -/

/-- What a style puts between the parts of data, and what it writes for a number that is not finite,
has bytes. -/
structure Style.IsUnicode (s : Style) : Prop where
  comma : s.comma.IsUnicode
  colon : s.colon.IsUnicode
  infinity : s.numbers.infinity.IsUnicode
  negativeInfinity : s.numbers.negativeInfinity.IsUnicode
  nan : s.numbers.nan.IsUnicode

lemma Style.isUnicode_compact : compact.IsUnicode := by
  constructor <;> exact Text.isUnicode_ofString _

lemma Style.isUnicode_ascii : Json.ascii.IsUnicode := by
  constructor <;> exact Text.isUnicode_ofString _

variable {s : Style}

/-- A number in positional notation has bytes. -/
lemma isUnicode_positional (d : Decimal) : (Double.Layout.positional d).IsUnicode := by
  simp only [Double.Layout.positional]
  split
  · exact (Text.isUnicode_ofString _).append (Text.isUnicode_ofChars _)
  · split
    · exact (Text.isUnicode_ofChars _).append (Text.isUnicode_ofString _)
    · exact ((Text.isUnicode_ofChars _).append (Text.isUnicode_ofString _)).append
        (Text.isUnicode_ofChars _)

lemma isUnicode_exponent (l : Double.Layout) (e : Int) : (l.exponent e).IsUnicode := by
  refine Text.IsUnicode.append (.append (Text.isUnicode_ofString _) ?_) (Text.isUnicode_ofChars _)
  split <;> exact Text.isUnicode_ofString _

/-- A number in scientific notation has bytes. -/
lemma isUnicode_scientific (l : Double.Layout) (d : Decimal) : (l.scientific d).IsUnicode := by
  refine Text.IsUnicode.append (.append (Text.isUnicode_ofChars _) ?_) (isUnicode_exponent l _)
  split
  · split
    · exact Text.isUnicode_ofString _
    · exact Text.isUnicode_nil
  · exact (Text.isUnicode_ofString _).append (Text.isUnicode_ofChars _)

/-- A number is written in bytes by a style with words that have bytes. -/
lemma isUnicode_number (hs : s.IsUnicode) (x : Double) : (s.numbers.text x).IsUnicode := by
  match x with
  | .nan _ => exact hs.nan
  | .infinite true => exact hs.negativeInfinity
  | .infinite false => exact hs.infinity
  | .finite negative m =>
    have hsign : Text.IsUnicode (if negative then "-" else []) := by
      split
      · exact Text.isUnicode_ofString _
      · exact Text.isUnicode_nil
    rw [Double.Layout.text]
    split
    · exact hsign.append (isUnicode_positional _)
    · exact hsign.append (isUnicode_scientific _ _)

/-- An escape by number has bytes. -/
lemma isUnicode_numericEscapeText (n : Nat) : (numericEscapeText n).IsUnicode := by
  have hunit (n : Nat) : (unitEscape n).IsUnicode :=
    (Text.isUnicode_ofString _).append (Text.isUnicode_ofChars _)
  unfold numericEscapeText
  split
  · exact hunit _
  · exact (hunit _).append (hunit _)

/-- In ASCII halves of surrogate pairs are escaped. -/
lemma isUnicode_pointText {ascii : Bool} {c : CodePoint} (h : ascii = true ∨ ∃ d, c = .char d) :
    (pointText ascii c).IsUnicode := by
  unfold pointText
  split
  case h_8 =>
    split
    · exact isUnicode_numericEscapeText _
    · next hplain =>
      match c with
      | .char d => exact Text.isUnicode_ofChars [d]
      | .lone half =>
        rcases h with rfl | ⟨d, hd⟩
        · exact absurd (.inr ⟨rfl, by simp only [CodePoint.value]; omega⟩) hplain
        · cases hd
  all_goals exact Text.isUnicode_ofString _

lemma isUnicode_textText {ascii : Bool} {t : Text} (h : ascii = true ∨ t.IsUnicode) :
    (textText ascii t).IsUnicode := by
  refine Text.IsUnicode.append (Text.IsUnicode.cons fun c hc => ?_) (Text.isUnicode_ofChars ['"'])
  obtain ⟨d, hd, hc⟩ := List.mem_flatMap.mp hc
  exact isUnicode_pointText (h.imp_right fun ht => ht d hd) c hc

lemma isUnicode_lineStart (s : Style) (depth : Nat) : (s.lineStart depth).IsUnicode := by
  unfold Style.lineStart
  split
  · exact Text.isUnicode_nil
  · refine Text.IsUnicode.cons fun c hc => ⟨' ', List.eq_of_mem_replicate hc⟩

/-- What is written between brackets has bytes if its items have. -/
lemma isUnicode_bracketed (hs : s.IsUnicode) (depth : Nat) {opening closing : Text}
    (hopening : opening.IsUnicode) (hclosing : closing.IsUnicode) {items : List Text}
    (hitems : ∀ t ∈ items, t.IsUnicode) :
    (s.bracketed depth opening closing items).IsUnicode := by
  unfold Style.bracketed
  split
  · exact hopening.append hclosing
  · have hseparator : (s.comma ++ s.lineStart (depth + 1)).IsUnicode :=
      hs.comma.append (isUnicode_lineStart s _)
    exact (((hopening.append (isUnicode_lineStart s _)).append
      (Text.isUnicode_join hseparator hitems)).append (isUnicode_lineStart s _)).append hclosing

mutual

/-- The text of data has bytes if it is ASCII or the data has. -/
lemma isUnicode_write (hs : s.IsUnicode) (j : Json) (h : s.ascii = true ∨ j.Every IsUnicode)
    (depth : Nat) :
    (s.write depth j).IsUnicode := by
  match j with
  | .null => exact Text.isUnicode_ofString _
  | .bool b => cases b <;> exact Text.isUnicode_ofString _
  | .int n => exact Text.isUnicode_ofInt n
  | .float x => exact isUnicode_number hs x
  | .text t => exact isUnicode_textText h
  | .array js =>
    exact isUnicode_bracketed hs depth (Text.isUnicode_ofString _) (Text.isUnicode_ofString _)
      (isUnicode_writeItems hs js (h.imp_right And.right) (depth + 1))
  | .object es =>
    exact isUnicode_bracketed hs depth (Text.isUnicode_ofString _) (Text.isUnicode_ofString _)
      (isUnicode_writeEntries hs es (h.imp_right fun hes => ⟨hes.1, hes.2⟩) (depth + 1))

/-- Items are written in bytes if the style escapes or they have bytes. -/
lemma isUnicode_writeItems (hs : s.IsUnicode) (js : List Json)
    (h : s.ascii = true ∨ EveryItem IsUnicode js) (depth : Nat) :
    ∀ t ∈ s.writeItems depth js, t.IsUnicode := by
  match js with
  | [] => simp [Style.writeItems]
  | j :: js =>
    exact List.forall_mem_cons.mpr ⟨isUnicode_write hs j (h.imp_right And.left) depth,
      isUnicode_writeItems hs js (h.imp_right And.right) depth⟩

/-- Entries are written in bytes if the style escapes or they have bytes. -/
lemma isUnicode_writeEntries (hs : s.IsUnicode) (es : List (Text × Json))
    (h : s.ascii = true ∨ (∀ e ∈ es, e.1.IsUnicode) ∧ EveryEntry IsUnicode es) (depth : Nat) :
    ∀ t ∈ s.writeEntries depth es, t.IsUnicode := by
  match es with
  | [] => simp [Style.writeEntries]
  | (k, j) :: es =>
    have hname : (textText s.ascii k).IsUnicode :=
      isUnicode_textText (h.imp_right fun h => h.1 (k, j) List.mem_cons_self)
    have hvalue := isUnicode_write hs j (h.imp_right fun h => h.2.1) depth
    have hrest := isUnicode_writeEntries hs es (h.imp_right fun h =>
      ⟨fun e he => h.1 e (List.mem_cons_of_mem _ he), h.2.2⟩) depth
    exact List.forall_mem_cons.mpr ⟨(hname.append hs.colon).append hvalue, hrest⟩

end

end Json

end Schematic
