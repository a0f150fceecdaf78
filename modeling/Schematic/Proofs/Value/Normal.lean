import Schematic.Proofs.Json.Data
import Schematic.Proofs.Value.Literal
import Schematic.Proofs.Value.Plain
import Schematic.Proofs.Value.Same
import Schematic.Proofs.Yaml.Kept

/-!
# Normal forms

The plain form of a value is a value again, and of plain data without repeated names: it is its own
plain form. What it loses is always seen. A value is the same as its normal form only if it was
plain data from the start, with finite numbers: if keys are spelled as texts, or two of them alike,
then the entries of a map are not found again.
-/

namespace Schematic

/-! ### Names have bytes -/

lemma Text.isUnicode_padded (width n : Nat) : (padded width n).IsUnicode := isUnicode_ofChars _

lemma Date.isUnicode_text (d : Date) : d.text.IsUnicode :=
  ((((Text.isUnicode_padded _ _).append (Text.isUnicode_ofString _)).append
    (Text.isUnicode_padded _ _)).append (Text.isUnicode_ofString _)).append
    (Text.isUnicode_padded _ _)

namespace DateTime

/-- A time of day is written in ASCII. -/
lemma isUnicode_localText (t : DateTime) : t.localText.IsUnicode := by
  have hfraction : Text.IsUnicode
      (if t.microsecond = 0 then [] else "." ++ Text.padded 6 t.microsecond) := by
    split
    · exact Text.isUnicode_nil
    · exact (Text.isUnicode_ofString _).append (Text.isUnicode_padded _ _)
  have hdigits (n : Nat) := Text.isUnicode_padded 2 n
  have hword (s : String) := Text.isUnicode_ofString s
  exact ((((((t.date.isUnicode_text.append (hword "T")).append (hdigits _)).append
    (hword ":")).append (hdigits _)).append (hword ":")).append (hdigits _)).append hfraction

/-- The plain form of a time has bytes. -/
lemma isUnicode_plainText (t : DateTime) : t.plainText.IsUnicode := by
  rw [plainText]
  split
  · exact t.isUnicode_localText
  · exact t.isUnicode_localText.append (Text.isUnicode_ofString _)
  · refine t.isUnicode_localText.append (.append (.append (.append ?_ ?_) ?_) ?_)
    · split
      · exact Text.isUnicode_ofString _
      · exact Text.isUnicode_ofString _
    · exact Text.isUnicode_padded _ _
    · exact Text.isUnicode_ofString _
    · exact Text.isUnicode_padded _ _

end DateTime

namespace Value

lemma isUnicode_spelledNumbers (x : Double) : (spelledNumbers.text x).IsUnicode := by
  have hs : ({ Json.compact with numbers := spelledNumbers } : Json.Style).IsUnicode := by
    constructor <;> exact Text.isUnicode_ofString _
  exact Json.isUnicode_number hs x

/-- The text of bytes has bytes. -/
lemma isUnicode_of_bytesText {bs : List UInt8} {t : Text} (h : bytesText bs = .ok t) :
    t.IsUnicode := by
  rw [bytesText] at h
  cases hdecode : Utf8.decode bs with
  | ok u =>
    rw [hdecode] at h
    cases h
    exact Utf8.isUnicode_of_decodeFrom hdecode
  | error e =>
    rw [hdecode] at h
    cases h

mutual

/-- A key is spelled by a text that has bytes. -/
lemma isUnicode_of_plainKey (v : Value) {t : Text} (h : v.plainKey = .ok t) : t.IsUnicode := by
  cases v with
  | null =>
    cases h
    exact Text.isUnicode_ofString _
  | map _ =>
    cases h
    exact Text.isUnicode_nil
  | bool b =>
    cases h
    split
    · exact Text.isUnicode_ofString _
    · exact Text.isUnicode_ofString _
  | int n =>
    -- Only a key with too many digits has no text, and it fails.
    rw [plainKey] at h
    cases hlong : isTooLong n with
    | true =>
      rw [hlong] at h
      cases h
    | false =>
      rw [hlong] at h
      cases h
      exact Text.isUnicode_ofInt n
  | float x =>
    cases h
    exact isUnicode_spelledNumbers x
  | text u =>
    obtain ⟨hu, rfl⟩ := plainKey_text_eq_ok_iff.mp h
    exact hu
  | bytes bs => exact isUnicode_of_bytesText h
  | date d =>
    cases h
    exact d.isUnicode_text
  | dateTime t =>
    cases h
    exact t.isUnicode_plainText
  | list vs | tuple vs | set vs =>
    -- A composite key is spelled by its parts.
    rw [plainKey] at h
    obtain ⟨parts, hparts, h⟩ := exists_of_bind_eq_ok h
    cases h
    exact Text.isUnicode_join (Text.isUnicode_ofString _) (isUnicode_of_plainKeys vs hparts)

/-- The parts of a composite key have bytes. -/
lemma isUnicode_of_plainKeys (vs : List Value) {ts : List Text} (h : plainKeys vs = .ok ts) :
    ∀ t ∈ ts, t.IsUnicode := by
  match vs with
  | [] =>
    cases h
    exact List.forall_mem_nil _
  | v :: vs =>
    rw [plainKeys] at h
    obtain ⟨t, ht, h⟩ := exists_of_bind_eq_ok h
    obtain ⟨ts, hts, h⟩ := exists_of_bind_eq_ok h
    cases h
    exact List.forall_mem_cons.mpr ⟨isUnicode_of_plainKey v ht, isUnicode_of_plainKeys vs hts⟩

end

end Value

/-! ### Normal data -/

namespace Json

/-- Plain data as the writer of plain forms makes it: no object repeats a name, names have bytes,
and numbers are finite. -/
structure IsNormal (j : Json) : Prop where
  hasDistinctNames : j.HasDistinctNames
  hasUnicodeNames : j.HasUnicodeNames
  isFinite : j.IsFinite

/-- Names that are bound are among those that were to be bound. -/
lemma forall_name_bindAll {p : Text → Prop} {es : List (Text × Json)} (h : ∀ e ∈ es, p e.1) :
    ∀ e ∈ bindAll es, p e.1 := by
  have hfold {fs : List (Text × Json)} (hfs : ∀ f ∈ fs, p f.1) :
      ∀ e ∈ es.foldl (fun es e => bind e.1 e.2 es) fs, p e.1 := by
    induction es generalizing fs with
    | nil => exact hfs
    | cons e es ih =>
      obtain ⟨he, hes⟩ := List.forall_mem_cons.mp h
      apply ih hes
      intro f hf
      rcases mem_names_bind (List.mem_map_of_mem hf) with heq | hmem
      · exact heq ▸ he
      · obtain ⟨g, hg, heq⟩ := List.mem_map.mp hmem
        exact heq ▸ hfs g hg
  exact hfold (List.forall_mem_nil _)

/-- What is bound as names is bound as keys. -/
lemma toEntries_bind (name : Text) (j : Json) (es : List (Text × Json)) :
    toEntries (bind name j es) = Value.bind (.text name) j.toValue (toEntries es) := by
  induction es with
  | nil => rfl
  | cons e es ih =>
    obtain ⟨k, i⟩ := e
    rw [bind, toEntries, Value.bind, Value.same_text]
    by_cases hk : k = name
    · simp [hk, toEntries]
    · simp [hk, toEntries, ih]

/-- Binding names is binding their keys. -/
lemma toValue_bindAll (es : List (Text × Json)) :
    (object (bindAll es)).toValue = Value.ofEntries (toEntries es) := by
  have hfold (fs : List (Text × Json)) : toEntries (es.foldl (fun es e => bind e.1 e.2 es) fs)
      = (toEntries es).foldl (fun es e => Value.bind e.1 e.2 es) (toEntries fs) := by
    induction es generalizing fs with
    | nil => rfl
    | cons e es ih => rw [List.foldl_cons, ih, toEntries_bind, toEntries, List.foldl_cons]
  rw [toValue, Value.ofEntries, bindAll, hfold]
  rfl

end Json

namespace Value

open Json (IsNormal IsFinite EveryItem EveryEntry settledItems settledEntries toValues toEntries)

mutual

/-- The plain form of a value is settled as normal data. -/
theorem every_isNormal (v : Value) {j : Json} (h : v.plain = .ok j) : j.settled.Every IsNormal := by
  match v with
  | .null | .bool _ | .int _ | .text _ | .date _ | .dateTime _ =>
    cases h
    exact ⟨trivial, trivial, trivial⟩
  | .float x =>
    -- A number that is not finite becomes null.
    cases h
    split
    · exact ⟨trivial, trivial, ‹_›⟩
    · exact ⟨trivial, trivial, trivial⟩
  | .bytes bs =>
    rw [plain] at h
    cases hbytes : bytesText bs with
    | ok t =>
      rw [hbytes] at h
      cases h
      exact ⟨trivial, trivial, trivial⟩
    | error e =>
      rw [hbytes] at h
      cases h
  | .list vs | .tuple vs | .set vs =>
    rw [plain] at h
    obtain ⟨js, hjs, h⟩ := exists_of_bind_eq_ok h
    cases h
    exact ⟨⟨trivial, trivial, trivial⟩, everyItem_isNormal vs hjs⟩
  | .map es =>
    -- Of names that come twice the later entry is settled, so each has an entry of its own.
    obtain ⟨ps, hps, rfl⟩ := exists_of_plain_map h
    obtain ⟨hnames, hentries⟩ := everyEntry_isNormal es hps
    exact ⟨⟨Json.hasDistinctNames_bindAll _, Json.forall_name_bindAll hnames, trivial⟩,
      Json.everyEntry_bindAll hentries⟩

/-- The plain forms of items are in normal form once they are settled. -/
theorem everyItem_isNormal (vs : List Value) {js : List Json} (h : plainList vs = .ok js) :
    EveryItem IsNormal (settledItems js) := by
  match vs with
  | [] =>
    cases h
    trivial
  | v :: vs =>
    obtain ⟨j, js, hj, hjs, rfl⟩ := exists_of_plainList_cons h
    exact ⟨every_isNormal v hj, everyItem_isNormal vs hjs⟩

/-- The plain forms of entries are in normal form once they are settled, under names that have
bytes. -/
theorem everyEntry_isNormal (es : List (Value × Value)) {ps : List (Text × Json)}
    (h : plainEntries es = .ok ps) :
    (∀ e ∈ settledEntries ps, e.1.IsUnicode) ∧ EveryEntry IsNormal (settledEntries ps) := by
  match es with
  | [] =>
    cases h
    exact ⟨List.forall_mem_nil _, trivial⟩
  | (k, v) :: es =>
    obtain ⟨name, j, rest, hname, hj, hrest, rfl⟩ := exists_of_plainEntries_cons h
    obtain ⟨hnames, hentries⟩ := everyEntry_isNormal es hrest
    exact ⟨List.forall_mem_cons.mpr ⟨isUnicode_of_plainKey k hname, hnames⟩, every_isNormal v hj,
      hentries⟩

end

/-! ### What is lost is seen -/

/-- Only a text is the same as a text. -/
lemma text_same_iff_eq {t : Text} {v : Value} : (text t).same v = true ↔ v = .text t := by
  cases v with
  | text u => rw [same_text_iff, Value.text.injEq, eq_comm]
  | _ => simp [same, sameScalar, integer?]

/-- The entries of a map and those of its plain form, entry by entry. -/
def AreAligned (es : List (Value × Value)) (ps : List (Text × Json)) : Prop :=
  List.Forall₂ (fun e p => ∀ t, e.1 = .text t → p.1 = t) es ps

/-- The plain forms of entries stand where the entries stood. -/
lemma areAligned_of_plainEntries {es : List (Value × Value)} {ps : List (Text × Json)}
    (h : plainEntries es = .ok ps) : AreAligned es (settledEntries ps) := by
  induction es generalizing ps with
  | nil =>
    cases h
    exact .nil
  | cons e es ih =>
    obtain ⟨k, v⟩ := e
    obtain ⟨name, j, rest, hname, hj, hrest, rfl⟩ := exists_of_plainEntries_cons h
    refine .cons ?_ (ih hrest)
    rintro t rfl
    exact (plainKey_text_eq_ok_iff.mp hname).2

/-- If the entries of a map are found again in the map that their plain forms make, then all keys
are texts, and each entry is found where it was. -/
lemma same_of_areAligned {es : List (Value × Value)} {qs : List (Text × Json)}
    (h : AreAligned es qs) (hsame : (Json.object (Json.bindAll qs)).toValue.same (.map es) = true) :
    List.Forall₂ (fun e q => e.1 = .text q.1 ∧ q.2.toValue.same e.2 = true) es qs := by
  obtain ⟨fs, hfs, hkeep⟩ := exists_ofEntries_eq (toEntries qs)
  rw [Json.toValue_bindAll, hfs, same, Bool.and_eq_true, beq_iff_eq] at hsame
  rw [Json.toEntries_eq_map] at hkeep
  obtain ⟨rfl, hdistinct⟩ := hkeep (by rw [hsame.1, List.length_map, h.length_eq])
  rw [Json.haveDistinctKeys_map] at hdistinct
  have hfound (q : Text × Json) (hq : q ∈ qs) : ∃ e ∈ es, e.1 = .text q.1 ∧
      q.2.toValue.same e.2 = true := by
    obtain ⟨e, he, hkey, hvalue⟩ := allEntries_iff.mp hsame.2 _ (List.mem_map_of_mem hq)
    exact ⟨e, he, text_same_iff_eq.mp hkey, hvalue⟩
  have htexts : (qs.map fun q => Value.text q.1).Nodup := by
    have hinj : Function.Injective Value.text := fun _ _ h => Value.text.inj h
    have hkeys := hdistinct.map hinj
    rwa [List.map_map] at hkeys
  have hsubset : (qs.map fun q => Value.text q.1) ⊆ es.map Prod.fst := by
    intro k hk
    obtain ⟨q, hq, rfl⟩ := List.mem_map.mp hk
    obtain ⟨e, he, hkey, -⟩ := hfound q hq
    exact List.mem_map.mpr ⟨e, he, hkey⟩
  -- as many keys are texts as there are entries, so that they all are, and none stands twice
  have hperm : (qs.map fun q => Value.text q.1).Perm (es.map Prod.fst) :=
    (List.subperm_of_subset htexts hsubset).perm_of_length_le (by simp [h.length_eq])
  have hnodup : (es.map Prod.fst).Nodup := hperm.nodup_iff.mp htexts
  obtain ⟨hlength, hzip⟩ := List.forall₂_iff_zip.mp h
  refine List.forall₂_iff_zip.mpr ⟨hlength, fun {e q} hmem => ?_⟩
  obtain ⟨he, hq⟩ := List.of_mem_zip hmem
  obtain ⟨q', hq', hkey⟩ := List.mem_map.mp (hperm.mem_iff.mpr (List.mem_map_of_mem he))
  have hname : e.1 = .text q.1 := by
    rw [hzip hmem q'.1 hkey.symm]
    exact hkey.symm
  obtain ⟨f, hf, hfkey, hvalue⟩ := hfound q hq
  obtain rfl := List.inj_on_of_nodup_map hnodup he hf (hname.trans hfkey.symm)
  exact ⟨hname, hvalue⟩

mutual

/-- A value that is the same as its plain form is plain data with finite numbers. -/
theorem isPlain_of_same (v : Value) {j : Json} (h : v.plain = .ok j)
    (hsame : j.settled.toValue.same v = true) :
    v.IsPlain IsFinite := by
  match v with
  | .null => exact ⟨.null, rfl, trivial⟩
  | .bool b => exact ⟨.bool b, rfl, trivial⟩
  | .int n => exact ⟨.int n, rfl, trivial⟩
  | .text t => exact ⟨.text t, rfl, trivial⟩
  | .float x =>
    -- A float that is not finite comes back as null, which is another value.
    cases h
    by_cases hx : x.isFinite = true
    · exact ⟨.float x, rfl, hx⟩
    · rw [if_neg hx] at hsame
      simp [Json.settled, Json.toValue, same, sameScalar, integer?] at hsame
  | .bytes bs =>
    -- Bytes and dates come back as texts.
    rw [plain] at h
    cases hbytes : bytesText bs with
    | ok t =>
      rw [hbytes] at h
      cases h
      cases text_same_iff_eq.mp hsame
    | error e =>
      rw [hbytes] at h
      cases h
  | .date _ | .dateTime _ =>
    cases h
    cases text_same_iff_eq.mp hsame
  | .list vs =>
    obtain ⟨js, hjs, rfl⟩ := exists_of_plain_list h
    simp only [Json.settled, Json.toValue, same] at hsame
    obtain ⟨ks, rfl, hks⟩ := arePlain_of_same vs hjs hsame
    exact ⟨.array ks, rfl, trivial, hks⟩
  | .tuple vs | .set vs =>
    -- A tuple and a set come back as lists.
    rw [plain] at h
    obtain ⟨js, hjs, h⟩ := exists_of_bind_eq_ok h
    cases h
    simp [Json.settled, Json.toValue, same] at hsame
  | .map es =>
    -- The keys are aligned with the names, so that each entry can be compared with its own.
    obtain ⟨ps, hps, rfl⟩ := exists_of_plain_map h
    obtain ⟨fs, rfl, hfs⟩ :=
      areEntriesPlain_of_same es hps (same_of_areAligned (areAligned_of_plainEntries hps) hsame)
    exact ⟨.object fs, rfl, trivial, hfs⟩

/-- Items that are the same as their plain forms are plain data. -/
theorem arePlain_of_same (vs : List Value) {js : List Json} (h : plainList vs = .ok js)
    (hsame : sameList (toValues (settledItems js)) vs = true) :
    ∃ ks, vs = toValues ks ∧ EveryItem IsFinite ks := by
  match vs with
  | [] => exact ⟨[], rfl, trivial⟩
  | v :: vs =>
    obtain ⟨j, js, hj, hjs, rfl⟩ := exists_of_plainList_cons h
    simp only [settledItems, toValues, sameList, Bool.and_eq_true] at hsame
    obtain ⟨k, rfl, hk⟩ := isPlain_of_same v hj hsame.1
    obtain ⟨ks, rfl, hks⟩ := arePlain_of_same vs hjs hsame.2
    exact ⟨k :: ks, rfl, hk, hks⟩

/-- Entries that are the same as their plain forms are plain data. -/
theorem areEntriesPlain_of_same (es : List (Value × Value)) {ps : List (Text × Json)}
    (h : plainEntries es = .ok ps)
    (hsame : List.Forall₂ (fun e q => e.1 = .text q.1 ∧ q.2.toValue.same e.2 = true) es
      (settledEntries ps)) :
    ∃ fs, es = toEntries fs ∧ EveryEntry IsFinite fs := by
  match es with
  | [] => exact ⟨[], rfl, trivial⟩
  | (k, v) :: es =>
    obtain ⟨name, j, rest, hname, hj, hrest, rfl⟩ := exists_of_plainEntries_cons h
    obtain ⟨⟨hkey, hvalue⟩, htail⟩ := List.forall₂_cons.mp hsame
    obtain ⟨i, rfl, hi⟩ := isPlain_of_same v hj hvalue
    obtain ⟨fs, rfl, hfs⟩ := areEntriesPlain_of_same es hrest htail
    exact ⟨(name, i) :: fs, by rw [toEntries, ← hkey], hi, hfs⟩

end

/-! ### Normal forms -/

/-- The normal form of a value: its plain form, or the value itself if it has none. -/
def normal (v : Value) : Value :=
  match v.plain with
  | .ok j => j.settled.toValue
  | .error _ => v

lemma normal_eq {v : Value} {j : Json} (h : v.plain = .ok j) : v.normal = j.settled.toValue := by
  rw [normal, h]

/-- The keys of an object are hashable, and distinct if its names are. -/
lemma bindsOnce_object_iff (es : List (Text × Json)) :
    (Json.object es).toValue.BindsOnce ↔
      (Json.object es).HasDistinctNames ∧ BindOnceEntries (toEntries es) := by
  have hkeys : ∀ e ∈ toEntries es, e.1.IsHashable := by
    rw [Json.toEntries_eq_map]
    intro e he
    obtain ⟨p, -, rfl⟩ := List.mem_map.mp he
    trivial
  have hdistinct : HaveDistinctKeys (toEntries es) ↔ (es.map Prod.fst).Nodup := by
    rw [Json.toEntries_eq_map]
    exact Json.haveDistinctKeys_map
  constructor
  · rintro ⟨hes, -, hvalues⟩
    exact ⟨hdistinct.mp hes, hvalues⟩
  · rintro ⟨hes, hvalues⟩
    exact ⟨hdistinct.mpr hes, hkeys, hvalues⟩

mutual

/-- Plain data binds each key once exactly if no object repeats a name. -/
theorem bindsOnce_toValue_iff (j : Json) : j.toValue.BindsOnce ↔ j.Every Json.HasDistinctNames := by
  match j with
  | .null | .bool _ | .int _ | .float _ | .text _ => exact iff_of_true trivial trivial
  | .array js => exact (bindOnceItems_toValues_iff js).trans (iff_and_self.mpr fun _ => trivial)
  | .object es =>
    exact (bindsOnce_object_iff es).trans
      (and_congr_right fun _ => bindOnceEntries_toEntries_iff es)

/-- Items bind their keys once if their names are distinct. -/
theorem bindOnceItems_toValues_iff (js : List Json) :
    BindOnceItems (toValues js) ↔ EveryItem Json.HasDistinctNames js := by
  match js with
  | [] => exact Iff.rfl
  | j :: js => exact and_congr (bindsOnce_toValue_iff j) (bindOnceItems_toValues_iff js)

/-- Entries bind their keys once if their names are distinct. -/
theorem bindOnceEntries_toEntries_iff (es : List (Text × Json)) :
    BindOnceEntries (toEntries es) ↔ EveryEntry Json.HasDistinctNames es := by
  match es with
  | [] => exact Iff.rfl
  | (_, j) :: es => exact and_congr (bindsOnce_toValue_iff j) (bindOnceEntries_toEntries_iff es)

end

/-- A value that has a plain form is the same as its normal form exactly if it is plain data with
finite numbers. -/
theorem normal_same_iff {v : Value} {j : Json} (h : v.plain = .ok j) (hv : v.BindsOnce) :
    v.normal.same v = true ↔ v.IsPlain IsFinite := by
  rw [normal_eq h]
  constructor
  · exact isPlain_of_same v h
  · rintro ⟨k, rfl, hk⟩
    have hfinite := Json.plain_toValue k (Json.hasUnicodeNames_of_plain k h)
    obtain rfl : j = k := by
      rw [hfinite, Json.finite_eq_self k hk] at h
      exact (Except.ok.inj h).symm
    rw [Json.settled_eq_self j ((bindsOnce_toValue_iff j).mp hv)]
    exact same_refl _

end Value

end Schematic
