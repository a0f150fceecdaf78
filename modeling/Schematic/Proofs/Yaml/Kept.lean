import Mathlib.Algebra.Order.BigOperators.Group.List
import Mathlib.Data.List.Nodup
import Schematic.Proofs.Value.Entries
import Schematic.Proofs.Yaml.Seen

/-!
# What comes back as it was

A text that is written between double quotes and starts past the width of a line comes back as it
was unless a blank stands right after an escape in it; what is put in makes it longer. So it is
known for plain data whether it comes back the same, even where two keys of an object are read as
one.
-/

namespace Schematic.Yaml

/-! ### Texts -/

/-- A text without an escape before a blank is not parted. -/
lemma parted_eq_self {t : Text} (h : escapesBlank t = false) : parted t = t := by
  fun_induction escapesBlank t with
  | case1 c d e rest ih =>
    rw [Bool.or_eq_false_iff] at h
    rw [parted, if_neg (by simp [h.1]), ih h.2]
  | case2 t hshort => rw [parted]; exact hshort

/-- A parted text is not shorter. -/
lemma length_le_parted (t : Text) : t.length ≤ (parted t).length := by
  fun_induction parted t with
  | case1 c d e rest _ ih | case2 c d e rest _ ih =>
    simp only [List.length_cons] at ih ⊢
    omega
  | case3 t hshort => exact Nat.le_refl _

/-- A text with an escape before a blank becomes longer when it is parted. -/
lemma lt_length_parted {t : Text} (h : escapesBlank t = true) : t.length < (parted t).length := by
  fun_induction parted t with
  | case1 c d e rest =>
    have hle := length_le_parted (d :: e :: rest)
    simp only [List.length_cons] at hle ⊢
    omega
  | case2 c d e rest hne ih =>
    rw [escapesBlank, Bool.or_eq_true] at h
    exact Nat.succ_lt_succ (ih (h.resolve_left hne))
  | case3 t hshort => rw [escapesBlank] at h <;> simp_all

/-- A text that comes back as it is where it is written at an indentation. -/
def IsKeptText (indent : Nat) (t : Text) : Prop :=
  lineWidth ≤ indent → ScalarStyle.of t = .doubleQuoted → escapesBlank t.tail = false

instance (indent : Nat) (t : Text) : Decidable (IsKeptText indent t) :=
  inferInstanceAs (Decidable (_ → _))

variable {indent : Nat} {t : Text}

/-- A text that is kept is seen as it is. -/
lemma seenText_eq_self (h : IsKeptText indent t) : seenText true indent t = t := by
  unfold seenText
  split
  case h_1 => rfl
  case h_2 => rfl
  case h_3 hstyle =>
    cases t with
    | nil => rfl
    | cons c t =>
      rw [reread, readTail, isFarRight, Bool.true_and]
      split
      case isTrue hfar =>
        exact congrArg (c :: ·) (parted_eq_self (h (of_decide_eq_true hfar) hstyle))
      case isFalse => rfl

/-- A text that is not kept is seen as a longer one. -/
lemma lt_length_seenText (h : ¬ IsKeptText indent t) :
    t.length < (seenText true indent t).length := by
  simp only [IsKeptText, Classical.not_imp, Bool.not_eq_false] at h
  obtain ⟨hfar, hstyle, hblank⟩ := h
  cases t with
  | nil => exact absurd hblank (by decide)
  | cons c t =>
    rw [seenText, hstyle]
    simp only [reread, readTail, isFarRight, Bool.true_and, decide_eq_true hfar, if_true]
    exact Nat.succ_lt_succ (lt_length_parted hblank)

/-! ### Names -/

/-- The name of an entry of a mapping at an indentation, as it is read. -/
def seenName (indent : Nat) (name : Text) : Text := seenText (!isSimpleKey name) (indent + 2) name

/-- A name that comes back as it is in a mapping at an indentation. -/
def IsKeptName (indent : Nat) (name : Text) : Prop :=
  isSimpleKey name = false → IsKeptText (indent + 2) name

/-- A name that is kept is seen as it is. -/
lemma seenName_eq_self {name : Text} (h : IsKeptName indent name) :
    seenName indent name = name := by
  unfold seenName
  cases hsimple : isSimpleKey name with
  | true => exact seenText_false _ _
  | false => exact seenText_eq_self (h hsimple)

lemma lt_length_seenName {name : Text} (h : ¬ IsKeptName indent name) :
    name.length < (seenName indent name).length := by
  rw [IsKeptName, Classical.not_imp] at h
  rw [seenName, h.1]
  exact lt_length_seenText h.2

end Schematic.Yaml

/-! ### Plain data -/

namespace Schematic.Json

open Yaml Value

mutual

/-- Plain data that comes back as it is where it is written at an indentation; the contents of the
items of an array stand at `items`. -/
def IsKept (items indent : Nat) : Json → Prop
  | .text t => IsKeptText indent t
  | .array js => AreKeptItems items js
  | .object es => AreKeptEntries indent es
  | .null | .bool _ | .int _ | .float _ => True

/-- Items that come back as they are. -/
def AreKeptItems (items : Nat) : List Json → Prop
  | [] => True
  | j :: js => IsKept (items + 2) items j ∧ AreKeptItems items js

/-- Entries of an object at an indentation that come back as they are. -/
def AreKeptEntries (indent : Nat) : List (Text × Json) → Prop
  | [] => True
  | (name, j) :: es =>
    (IsKeptName indent name ∧
        IsKept (indent + (if isSimpleKey name then 2 else 4)) (indent + 2) j) ∧
      AreKeptEntries indent es

end

variable {items indent : Nat} {es : List (Text × Json)}

lemma toEntries_eq_map (es : List (Text × Json)) :
    toEntries es = es.map fun e => (.text e.1, e.2.toValue) := by
  induction es with
  | nil => rfl
  | cons e es ih => rw [List.map_cons, ← ih]; rfl

/-- An entry of an object at an indentation, as it is read. -/
def seenEntry (indent : Nat) (e : Text × Json) : Value × Value :=
  (.text (seenName indent e.1),
    seen (indent + (if isSimpleKey e.1 then 2 else 4)) (indent + 2) e.2.toValue)

lemma seenEntries_toEntries (es : List (Text × Json)) :
    seenEntries indent (toEntries es) = es.map (seenEntry indent) := by
  induction es with
  | nil => rfl
  | cons e es ih => rw [List.map_cons, ← ih]; rfl

/-- Keys that are texts are distinct if the texts are. -/
lemma haveDistinctKeys_map {α : Type} {es : List α} {f : α → Text} {g : α → Value} :
    HaveDistinctKeys (es.map fun e => (.text (f e), g e)) ↔ (es.map f).Nodup := by
  have hne {t u : Text} : (Value.text t).same (.text u) = false ↔ t ≠ u := by
    rw [← Bool.not_eq_true, same_text_iff]
  rw [HaveDistinctKeys, List.Nodup, List.pairwise_map, List.pairwise_map]
  simp only [hne]

mutual

/-- Plain data that is kept comes back as it is. -/
theorem seen_eq_self (j : Json) (hj : j.Every HasDistinctNames) {items indent : Nat}
    (h : j.IsKept items indent) : seen items indent j.toValue = j.toValue := by
  match j with
  | .null | .bool _ | .int _ | .float _ => rfl
  | .text t => exact congrArg Value.text (seenText_eq_self h)
  | .array js => exact congrArg Value.list (seenItems_eq_self js hj.2 h)
  | .object es =>
    have hdistinct : HaveDistinctKeys (toEntries es) := by
      rw [toEntries_eq_map]
      exact haveDistinctKeys_map.mpr hj.1
    change ofEntries (seenEntries indent (toEntries es)) = .map (toEntries es)
    rw [seenEntries_eq_self es hj.2 h, ofEntries_eq_map hdistinct]

/-- Items that are kept are seen as they are. -/
theorem seenItems_eq_self (js : List Json) (hj : EveryItem HasDistinctNames js) {items : Nat}
    (h : AreKeptItems items js) : seenItems items (toValues js) = toValues js := by
  match js with
  | [] => rfl
  | j :: js =>
    rw [toValues, seenItems, seen_eq_self j hj.1 h.1, seenItems_eq_self js hj.2 h.2]

/-- Entries that are kept are seen as they are. -/
theorem seenEntries_eq_self (es : List (Text × Json)) (hj : EveryEntry HasDistinctNames es)
    {indent : Nat} (h : AreKeptEntries indent es) :
    seenEntries indent (toEntries es) = toEntries es := by
  match es with
  | [] => rfl
  | (name, j) :: es =>
    have hvalue := seen_eq_self j hj.1 h.1.2
    have hname : seenKey indent (.text name) = .text name :=
      congrArg Value.text (seenName_eq_self h.1.1)
    rw [toEntries, seenEntries, seenEntries_eq_self es hj.2 h.2, hname]
    exact congrArg (fun v => (Value.text name, v) :: toEntries es) hvalue

end

/-- Names that are read as names of the same object are read as they are: they would be longer
altogether. -/
lemma isKeptName_of_subset (hdistinct : (es.map fun e => seenName indent e.1).Nodup)
    (hsubset : es.map (fun e => seenName indent e.1) ⊆ es.map Prod.fst) :
    ∀ e ∈ es, IsKeptName indent e.1 := by
  have hperm : (es.map fun e => seenName indent e.1).Perm (es.map Prod.fst) :=
    (List.subperm_of_subset hdistinct hsubset).perm_of_length_le (by simp)
  have hsum : (es.map fun e => (seenName indent e.1).length).sum
      = (es.map fun e => e.1.length).sum := by
    have hlengths := (hperm.map List.length).sum_eq
    rwa [List.map_map, List.map_map] at hlengths
  by_contra hkept
  simp only [not_forall] at hkept
  obtain ⟨e, he, hlost⟩ := hkept
  have hle : ∀ e ∈ es, e.1.length ≤ (seenName indent e.1).length := fun e _ => by
    by_cases h : IsKeptName indent e.1
    · rw [seenName_eq_self h]
    · exact Nat.le_of_lt (lt_length_seenName h)
  have hlt := List.sum_lt_sum _ _ hle ⟨e, he, lt_length_seenName hlost⟩
  omega

/-- The entries of an object that comes back the same. -/
lemma entries_of_same (hnames : (es.map Prod.fst).Nodup)
    (h : (ofEntries (seenEntries indent (toEntries es))).same (.map (toEntries es)) = true) :
    ∀ e ∈ es, IsKeptName indent e.1 ∧ (seenEntry indent e).2.same e.2.toValue = true := by
  obtain ⟨fs, hfs, hkeep⟩ := exists_ofEntries_eq (seenEntries indent (toEntries es))
  rw [hfs, same, Bool.and_eq_true, beq_iff_eq] at h
  rw [toEntries_eq_map] at h
  rw [seenEntries_toEntries] at hkeep
  obtain ⟨rfl, hdistinct⟩ := hkeep (by rw [h.1, List.length_map, List.length_map])
  have hentries := allEntries_iff.mp h.2
  -- Each entry that is seen has its counterpart among the entries.
  have hfound (e : Text × Json) (he : e ∈ es) :
      ∃ f ∈ es, seenName indent e.1 = f.1 ∧ (seenEntry indent e).2.same f.2.toValue = true := by
    obtain ⟨_, hentry, hkey, hvalue⟩ := hentries _ (List.mem_map_of_mem he)
    obtain ⟨f, hf, rfl⟩ := List.mem_map.mp hentry
    exact ⟨f, hf, same_text_iff.mp hkey, hvalue⟩
  have hsubset : es.map (fun e => seenName indent e.1) ⊆ es.map Prod.fst := by
    intro name hname
    obtain ⟨e, he, rfl⟩ := List.mem_map.mp hname
    obtain ⟨f, hf, hkey, -⟩ := hfound e he
    exact List.mem_map.mpr ⟨f, hf, hkey.symm⟩
  -- No name gets shorter when it is seen, so names that stay among themselves are all kept.
  have hkept := isKeptName_of_subset (haveDistinctKeys_map.mp hdistinct) hsubset
  intro e he
  obtain ⟨f, hf, hkey, hvalue⟩ := hfound e he
  rw [seenName_eq_self (hkept e he)] at hkey
  obtain rfl : e = f := List.inj_on_of_nodup_map hnames he hf hkey
  exact ⟨hkept e he, hvalue⟩

mutual

/-- Plain data is kept if it does not reach the width of a line: each level is indented by four at
most. -/
theorem isKept_of_depth (j : Json) {items indent : Nat}
    (hitems : items + 4 * j.depth + 2 < lineWidth)
    (hindent : indent + 4 * j.depth + 2 < lineWidth) : j.IsKept items indent := by
  match j with
  | .null | .bool _ | .int _ | .float _ => trivial
  | .text t =>
    intro hfar
    omega
  | .array js =>
    rw [depth] at hitems
    exact areKeptItems_of_depth js (by omega)
  | .object es =>
    rw [depth] at hindent
    exact areKeptEntries_of_depth es (by omega)

/-- Items that are not too deep are kept. -/
theorem areKeptItems_of_depth (js : List Json) {items : Nat}
    (h : items + 4 * depthItems js + 6 < lineWidth) : AreKeptItems items js := by
  match js with
  | [] => trivial
  | j :: js =>
    rw [depthItems] at h
    exact ⟨isKept_of_depth j (by omega) (by omega), areKeptItems_of_depth js (by omega)⟩

/-- Entries that are not too deep are kept. -/
theorem areKeptEntries_of_depth (es : List (Text × Json)) {indent : Nat}
    (h : indent + 4 * depthEntries es + 6 < lineWidth) : AreKeptEntries indent es := by
  match es with
  | [] => trivial
  | (name, j) :: es =>
    rw [depthEntries] at h
    have hname : IsKeptName indent name := fun _ hfar => by omega
    refine ⟨⟨hname, isKept_of_depth j ?_ (by omega)⟩, areKeptEntries_of_depth es (by omega)⟩
    split <;> omega

end

mutual

/-- Plain data that comes back the same is kept. -/
theorem isKept_of_same (j : Json) (hj : j.Every HasDistinctNames) {items indent : Nat}
    (h : (seen items indent j.toValue).same j.toValue = true) : j.IsKept items indent := by
  match j with
  | .null | .bool _ | .int _ | .float _ => trivial
  | .text t =>
    have heq : seenText true indent t = t := same_text_iff.mp h
    by_contra hlost
    have hlength := lt_length_seenText hlost
    rw [heq] at hlength
    exact Nat.lt_irrefl _ hlength
  | .array js => exact areKeptItems_of_same js hj.2 (by simpa only [toValue, seen, same] using h)
  | .object es => exact areKeptEntries_of_same es hj.2 (entries_of_same hj.1 h)

/-- Items that are seen as the same are kept. -/
theorem areKeptItems_of_same (js : List Json) (hj : EveryItem HasDistinctNames js) {items : Nat}
    (h : sameList (seenItems items (toValues js)) (toValues js) = true) :
    AreKeptItems items js := by
  match js with
  | [] => trivial
  | j :: js =>
    rw [toValues, seenItems, sameList, Bool.and_eq_true] at h
    exact ⟨isKept_of_same j hj.1 h.1, areKeptItems_of_same js hj.2 h.2⟩

/-- Entries that are seen as the same are kept. -/
theorem areKeptEntries_of_same (es : List (Text × Json)) (hj : EveryEntry HasDistinctNames es)
    {indent : Nat} (h : ∀ e ∈ es, IsKeptName indent e.1 ∧
      (seenEntry indent e).2.same e.2.toValue = true) : AreKeptEntries indent es := by
  match es with
  | [] => trivial
  | (name, j) :: es =>
    obtain ⟨⟨hname, hvalue⟩, hes⟩ := List.forall_mem_cons.mp h
    exact ⟨⟨hname, isKept_of_same j hj.1 hvalue⟩, areKeptEntries_of_same es hj.2 hes⟩

end

end Schematic.Json
