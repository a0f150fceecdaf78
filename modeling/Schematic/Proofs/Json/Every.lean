import Mathlib.Data.List.Basic
import Mathlib.Tactic.Lemma
import Schematic.Proofs.Text.Unicode
import Schematic.Value.Literal

/-!
# Properties of all parts of plain data

`Json.Every p j` says that `p` holds of `j` and of everything inside of it. The properties that the
theorems about documents need are stated of a single part: an object binds each name once, an
integer is not too long, a number is finite, a text is free of lone halves of surrogate pairs.
-/

namespace Schematic

namespace Json

mutual

/-- A property holds of plain data and of everything in it. -/
def Every (p : Json → Prop) : Json → Prop
  | .null => p .null
  | .bool b => p (.bool b)
  | .int n => p (.int n)
  | .float x => p (.float x)
  | .text t => p (.text t)
  | .array items => p (.array items) ∧ EveryItem p items
  | .object entries => p (.object entries) ∧ EveryEntry p entries

/-- A property holds of every part of some items. -/
def EveryItem (p : Json → Prop) : List Json → Prop
  | [] => True
  | j :: js => j.Every p ∧ EveryItem p js

/-- A property holds of every part of the values of some entries. -/
def EveryEntry (p : Json → Prop) : List (Text × Json) → Prop
  | [] => True
  | (_, j) :: es => j.Every p ∧ EveryEntry p es

end

variable {p q : Json → Prop}

lemma everyItem_iff {js : List Json} : EveryItem p js ↔ ∀ j ∈ js, j.Every p := by
  induction js with
  | nil => simp [EveryItem]
  | cons j js ih => simp [EveryItem, ih]

lemma everyEntry_iff {es : List (Text × Json)} :
    EveryEntry p es ↔ ∀ e ∈ es, e.2.Every p := by
  induction es with
  | nil => simp [EveryEntry]
  | cons e es ih => simp [EveryEntry, ih]

lemma Every.self {j : Json} (h : j.Every p) : p j := by
  cases j <;> simp only [Every] at h <;> first | exact h | exact h.1

mutual

lemma Every.imp (h : ∀ j, p j → q j) (j : Json) (hj : j.Every p) : j.Every q := by
  match j with
  | .null | .bool _ | .int _ | .float _ | .text _ => exact h _ hj
  | .array js => exact ⟨h _ hj.1, EveryItem.imp h js hj.2⟩
  | .object es => exact ⟨h _ hj.1, EveryEntry.imp h es hj.2⟩

lemma EveryItem.imp (h : ∀ j, p j → q j) (js : List Json) (hjs : EveryItem p js) :
    EveryItem q js := by
  match js with
  | [] => trivial
  | j :: js => exact ⟨Every.imp h j hjs.1, EveryItem.imp h js hjs.2⟩

lemma EveryEntry.imp (h : ∀ j, p j → q j) (es : List (Text × Json)) (hes : EveryEntry p es) :
    EveryEntry q es := by
  match es with
  | [] => trivial
  | (_, j) :: es => exact ⟨Every.imp h j hes.1, EveryEntry.imp h es hes.2⟩

end

mutual

lemma Every.and (j : Json) (hp : j.Every p) (hq : j.Every q) : j.Every fun j => p j ∧ q j := by
  match j with
  | .null | .bool _ | .int _ | .float _ | .text _ => exact ⟨hp, hq⟩
  | .array js => exact ⟨⟨hp.1, hq.1⟩, EveryItem.and js hp.2 hq.2⟩
  | .object es => exact ⟨⟨hp.1, hq.1⟩, EveryEntry.and es hp.2 hq.2⟩

lemma EveryItem.and (js : List Json) (hp : EveryItem p js) (hq : EveryItem q js) :
    EveryItem (fun j => p j ∧ q j) js := by
  match js with
  | [] => trivial
  | j :: js => exact ⟨Every.and j hp.1 hq.1, EveryItem.and js hp.2 hq.2⟩

lemma EveryEntry.and (es : List (Text × Json)) (hp : EveryEntry p es) (hq : EveryEntry q es) :
    EveryEntry (fun j => p j ∧ q j) es := by
  match es with
  | [] => trivial
  | (_, j) :: es => exact ⟨Every.and j hp.1 hq.1, EveryEntry.and es hp.2 hq.2⟩

end

/-! ### Depth -/

mutual

/-- How deep collections are nested. -/
def depth : Json → Nat
  | .null | .bool _ | .int _ | .float _ | .text _ => 0
  | .array items => depthItems items + 1
  | .object entries => depthEntries entries + 1

/-- How deep the collections among some items are nested. -/
def depthItems : List Json → Nat
  | [] => 0
  | j :: js => max j.depth (depthItems js)

/-- How deep the collections in some entries are nested. -/
def depthEntries : List (Text × Json) → Nat
  | [] => 0
  | (_, j) :: es => max j.depth (depthEntries es)

end

/-! ### Properties of a single part -/

/-- An integer has at most 4300 digits. -/
def IsShort : Json → Prop
  | .int n => n.natAbs < Value.writingLimit
  | .null | .bool _ | .float _ | .text _ | .array _ | .object _ => True

end Json

def Json.IsFinite : Json → Prop
  | .float x => x.isFinite = true
  | .null | .bool _ | .int _ | .text _ | .array _ | .object _ => True

/-- An object binds each name once. -/
def Json.HasDistinctNames : Json → Prop
  | .object entries => (entries.map Prod.fst).Nodup
  | .null | .bool _ | .int _ | .float _ | .text _ | .array _ => True

/-- A text and the names of an object have bytes. -/
def Json.IsUnicode : Json → Prop
  | .text t => t.IsUnicode
  | .object entries => ∀ e ∈ entries, e.1.IsUnicode
  | .null | .bool _ | .int _ | .float _ | .array _ => True

/-- A part can be written and read back: numbers are finite, integers have at most 4300 digits, and
objects bind each name once. -/
structure Json.IsRegular (j : Json) : Prop where
  isShort : j.IsShort
  isFinite : j.IsFinite
  hasDistinctNames : j.HasDistinctNames

namespace Json

/-- A part is within the limits of documents: integers have at most 4300 digits, numbers are finite,
and texts have bytes. -/
structure IsWithinLimits (j : Json) : Prop where
  isShort : j.IsShort
  isFinite : j.IsFinite
  isUnicode : j.IsUnicode

/-- A part is within the limits of documents, and an object binds each name once. -/
structure IsPortable (j : Json) : Prop extends IsWithinLimits j where
  hasDistinctNames : j.HasDistinctNames

lemma IsPortable.isRegular {j : Json} (h : j.IsPortable) : j.IsRegular :=
  ⟨h.isShort, h.isFinite, h.hasDistinctNames⟩

/-- Data within the limits is portable if its objects bind each name once. -/
lemma every_isPortable {j : Json} (hlimits : j.Every IsWithinLimits)
    (hnames : j.Every HasDistinctNames) :
    j.Every IsPortable :=
  Every.imp (fun _ h => ⟨h.1, h.2⟩) j (Every.and j hlimits hnames)

end Json

/-- The value is plain data, of whose every part a property holds. -/
def Value.IsPlain (p : Json → Prop) (v : Value) : Prop := ∃ j : Json, v = j.toValue ∧ j.Every p

namespace Json

mutual

/-- Different data makes different values. -/
lemma toValue_injective (j k : Json) (h : j.toValue = k.toValue) : j = k := by
  match j with
  | .null | .bool _ | .int _ | .float _ | .text _ => cases k <;> simp_all [toValue]
  | .array js =>
    cases k with
    | array ks =>
      simp only [toValue, Value.list.injEq] at h
      rw [toValues_injective js ks h]
    | _ => simp [toValue] at h
  | .object es =>
    cases k with
    | object fs =>
      simp only [toValue, Value.map.injEq] at h
      rw [toEntries_injective es fs h]
    | _ => simp [toValue] at h

/-- Different items make different lists. -/
lemma toValues_injective (js ks : List Json) (h : toValues js = toValues ks) : js = ks := by
  match js, ks with
  | [], [] => rfl
  | j :: js, k :: ks =>
    simp only [toValues, List.cons.injEq] at h
    rw [toValue_injective j k h.1, toValues_injective js ks h.2]
  | [], _ :: _ | _ :: _, [] => simp [toValues] at h

/-- Different entries make different maps. -/
lemma toEntries_injective (es fs : List (Text × Json)) (h : toEntries es = toEntries fs) :
    es = fs := by
  match es, fs with
  | [], [] => rfl
  | (k, j) :: es, (l, i) :: fs =>
    simp only [toEntries, List.cons.injEq, Prod.mk.injEq, Value.text.injEq] at h
    rw [h.1.1, toValue_injective j i h.1.2, toEntries_injective es fs h.2]
  | [], _ :: _ | _ :: _, [] => simp [toEntries] at h

end

end Json

/-- The value of plain data is plain data, of whose every part a property holds or not. -/
lemma Value.isPlain_toValue_iff {p : Json → Prop} {j : Json} :
    j.toValue.IsPlain p ↔ j.Every p := by
  constructor
  · rintro ⟨k, hk, hp⟩
    rwa [Json.toValue_injective j k hk]
  · exact fun hp => ⟨j, rfl, hp⟩

end Schematic
