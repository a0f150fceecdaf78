import Schematic.Proofs.Fault
import Schematic.Yaml.Reader

/-!
# Scalars that do not convert

A scalar may have a tag, by its spelling or by a mark, whose values its content does not spell. Then
building the values of a document fails, and the failure is no refusal of the document. Nothing else
in a document's values fails that way; and a document of lists, mappings and scalars fails that way
exactly if it holds such a scalar.
-/

namespace Schematic.Yaml

variable {α β : Type}

/-! ### Failures of parts -/

namespace Built

/-- All failures of a part have a property. -/
def FailsBy (P : Failure → Prop) (b : Built α) : Prop := ∀ e, b = .error e → P e.failure

variable {P : Failure → Prop} {a : Built α} {b : Built β}

lemma failsBy_ok (x : α) : FailsBy P (.ok x : Built α) := by rintro _ ⟨⟩

lemma failsBy_error {e : Fault} (h : P e.failure) : FailsBy P (.error e : Built α) := by
  rintro _ ⟨⟩
  exact h

lemma FailsBy.later (h : a.FailsBy P) : a.later.FailsBy P := by
  cases a with
  | ok x => exact failsBy_ok x
  | error e => exact failsBy_error (h e rfl)

lemma FailsBy.map (h : a.FailsBy P) (f : α → β) : FailsBy P (Except.map f a) := by
  cases a with
  | ok x => exact failsBy_ok (f x)
  | error e => exact failsBy_error (h e rfl)

/-- Two that are built together fail as one of them. -/
lemma FailsBy.both (ha : a.FailsBy P) (hb : b.FailsBy P) : (both a b).FailsBy P := by
  cases a with
  | ok x =>
    cases b with
    | ok y => exact failsBy_ok (x, y)
    | error f => exact failsBy_error (hb f rfl)
  | error e =>
    cases b with
    | ok y => exact failsBy_error (ha e rfl)
    | error f =>
      rw [Built.both]
      split
      · exact failsBy_error (hb f rfl)
      · exact failsBy_error (ha e rfl)

/-- All that are built together fail as one of them. -/
lemma failsBy_all {bs : List (Built α)} (h : ∀ b ∈ bs, b.FailsBy P) : (all bs).FailsBy P := by
  induction bs with
  | nil => exact failsBy_ok []
  | cons b bs ih =>
    obtain ⟨hb, hbs⟩ := List.forall_mem_cons.mp h
    exact (hb.both (ih hbs)).map _

/-- A part of which some part fails. -/
def Fails (b : Built α) : Prop := ∃ e, b = .error e

lemma Fails.later (h : a.Fails) : a.later.Fails := by
  obtain ⟨e, rfl⟩ := h
  exact ⟨_, rfl⟩

lemma Fails.map (h : a.Fails) (f : α → β) : Fails (Except.map f a) := by
  obtain ⟨e, rfl⟩ := h
  exact ⟨_, rfl⟩

lemma Fails.both_left (h : a.Fails) (b : Built β) : (both a b).Fails := by
  obtain ⟨e, rfl⟩ := h
  cases b <;> exact ⟨_, rfl⟩

lemma Fails.both_right (h : b.Fails) (a : Built α) : (both a b).Fails := by
  obtain ⟨e, rfl⟩ := h
  cases a <;> exact ⟨_, rfl⟩

/-- All that are built together fail if one of them does. -/
lemma fails_all {bs : List (Built α)} (h : a.Fails) (ha : a ∈ bs) : (all bs).Fails := by
  induction bs with
  | nil => cases ha
  | cons b bs ih =>
    refine Fails.map ?_ _
    rcases List.mem_cons.mp ha with rfl | ha
    · exact h.both_left _
    · exact (ih ha).both_right _

end Built

open Built

/-! ### Scalars -/

/-- A content does not spell a value of a tag. -/
inductive Scalar.Unconverted : Tag → Text → ConversionError → Prop
  | bool {t : Text} (h : truthWords.lookup t.lower = none) : Unconverted .bool t (.noTruth t.lower)
  | int {t : Text} {e : ConversionError} (h : integer t = .error e) : Unconverted .int t e
  | float {t : Text} {e : ConversionError} (h : double t = .error e) : Unconverted .float t e
  | timestamp {t : Text} {e : ConversionError} (h : timestamp t = .error e) :
      Unconverted .timestamp t e

/-- A node holds a content that does not spell a value of its tag. A mapping may have the tag of a
scalar, and then what it binds to the key for contents is its content; such a mapping is no
timestamp. -/
inductive Node.Unconverted : Node → ConversionError → Prop
  | scalar {tag : Tag} {content : Text} {start : Mark} {e : ConversionError}
      (h : Scalar.Unconverted tag content e) : Unconverted (.scalar tag content start) e
  | content {tag : Tag} {entries : List (Node × Node)} {start : Mark} {t : Text}
      {e : ConversionError} (htag : tag ≠ .timestamp) (hcontent : contentOf? entries = some (.ok t))
      (h : Scalar.Unconverted tag t e) : Unconverted (.mapping tag entries start) e
  | timestamp {entries : List (Node × Node)} {start : Mark} {t : Text}
      (hcontent : contentOf? entries = some (.ok t)) :
      Unconverted (.mapping .timestamp entries start) .timestampOfMapping
  | item {tag : Tag} {items : List Node} {start : Mark} {n : Node} {e : ConversionError}
      (hn : n ∈ items) (h : n.Unconverted e) : Unconverted (.sequence tag items start) e
  | key {tag : Tag} {entries : List (Node × Node)} {start : Mark} {p : Node × Node}
      {e : ConversionError} (hp : p ∈ entries) (h : p.1.Unconverted e) :
      Unconverted (.mapping tag entries start) e
  | value {tag : Tag} {entries : List (Node × Node)} {start : Mark} {p : Node × Node}
      {e : ConversionError} (hp : p ∈ entries) (h : p.2.Unconverted e) :
      Unconverted (.mapping tag entries start) e

/-! ### Conversions -/

/-- A conversion gives a value at once, or fails at once. -/
lemma now_converted (x : Except ConversionError α) (f : α → Value) :
    (∃ v, now (Scalar.converted (x.map f)) = .ok v) ∨
      ∃ e, x = .error e ∧ now (Scalar.converted (x.map f)) = .error ⟨0, .unconverted e⟩ := by
  cases x with
  | ok a => exact .inl ⟨f a, rfl⟩
  | error e => exact .inr ⟨e, rfl, rfl⟩

/-- A scalar under a tag for scalars has a value, or its content does not convert. -/
lemma scalarValue_cases {tag : Tag} (htag : tag.isScalar) (hbinary : tag ≠ .binary) (t : Text)
    (start : Mark) :
    (∃ v, scalarValue tag t start = .ok v) ∨
      ∃ e, Scalar.Unconverted tag t e ∧ scalarValue tag t start = .error ⟨0, .unconverted e⟩ := by
  cases tag with
  | null => exact .inl ⟨_, rfl⟩
  | text => exact .inl ⟨_, rfl⟩
  | bool =>
    -- Only a word for true or false is one.
    refine (now_converted (Scalar.truth t) Value.bool).imp_right
      fun ⟨e, he, hvalue⟩ => ⟨e, ?_, hvalue⟩
    unfold Scalar.truth at he
    split at he
    · cases he
    · cases he
      exact .bool ‹_›
  | int =>
    refine (now_converted (Scalar.integer t) Value.int).imp_right fun ⟨e, he, hvalue⟩ => ?_
    exact ⟨e, .int he, hvalue⟩
  | float =>
    refine (now_converted (Scalar.double t) Value.float).imp_right fun ⟨e, he, hvalue⟩ => ?_
    exact ⟨e, .float he, hvalue⟩
  | timestamp =>
    cases h : Scalar.timestamp t with
    | ok v =>
      exact .inl ⟨v,
        by simp [scalarValue, Scalar.value?, h, Scalar.converted, Except.mapError, now]⟩
    | error e =>
      exact .inr ⟨e, .timestamp h, by
        simp [scalarValue, Scalar.value?, h, Scalar.converted, Except.mapError, now]⟩
  -- The other tags are those that are left out.
  | binary => exact absurd rfl hbinary
  | orderedMap | pairs | set | sequence | mapping | merge | value | other name => cases htag

/-- A content that does not convert fails at once. -/
lemma scalarValue_eq_error {tag : Tag} {t : Text} {e : ConversionError}
    (h : Scalar.Unconverted tag t e) (start : Mark) :
    scalarValue tag t start = .error ⟨0, .unconverted e⟩ := by
  cases h with
  | bool h =>
    simp [scalarValue, Scalar.value?, Scalar.truth, h, Scalar.converted, Except.mapError, now,
      Except.map]
  | int h =>
    simp [scalarValue, Scalar.value?, h, Scalar.converted, Except.mapError, now, Except.map]
  | float h =>
    simp [scalarValue, Scalar.value?, h, Scalar.converted, Except.mapError, now, Except.map]
  | timestamp h => simp [scalarValue, Scalar.value?, h, Scalar.converted, Except.mapError, now]

/-- A failure is a refusal, or a conversion error of a kind. -/
def Failure.IsRefusedOr (P : ConversionError → Prop) : Failure → Prop
  | .refused _ => True
  | .unconverted e => P e

/-- A part fails by refusals, or by conversion errors of a kind. -/
abbrev Built.ConvertsUpTo (P : ConversionError → Prop) (b : Built α) : Prop :=
  b.FailsBy (Failure.IsRefusedOr P)

section

variable {P : ConversionError → Prop}

lemma converts_refuseValue (context : Option Context) (since : Option Mark) (problem : Problem)
    (mark : Mark) : (now (refuseValue context since problem mark) : Built α).ConvertsUpTo P :=
  failsBy_error trivial

/-- A node with a tag of another form is refused, not unconverted. -/
lemma converts_misplaced (tag : Tag) (found : Form) (start : Mark) :
    (misplaced tag found start).ConvertsUpTo P := by
  unfold misplaced
  split
  · exact (converts_refuseValue _ _ _ _).later
  · exact (converts_refuseValue _ _ _ _).later
  · exact (converts_refuseValue _ _ _ _).later
  · exact (converts_refuseValue _ _ _ _).later
  · exact (converts_refuseValue _ _ _ _).later
  · exact converts_refuseValue _ _ _ _
  · exact converts_refuseValue _ _ _ _
  · exact converts_refuseValue _ _ _ _
  · exact converts_refuseValue _ _ _ _

/-- A scalar fails to convert as its content does. -/
lemma converts_scalarValue {tag : Tag} {t : Text} (h : ∀ e, Scalar.Unconverted tag t e → P e)
    (start : Mark) : (scalarValue tag t start).ConvertsUpTo P := by
  by_cases htag : tag.isScalar
  · by_cases hbinary : tag = .binary
    · subst hbinary
      cases hdecode : Binary.decode t <;> intro e he <;>
        simp [scalarValue, Scalar.value?, hdecode, now, Except.map, Except.mapError] at he
      subst he
      exact trivial
    · rcases scalarValue_cases htag hbinary t start with ⟨v, hv⟩ | ⟨e, he, hv⟩
      · exact hv ▸ failsBy_ok v
      · exact hv ▸ failsBy_error (h e he)
  · unfold scalarValue
    cases tag <;> first | exact absurd rfl htag | exact converts_misplaced _ _ _

lemma converts_textKey (content : Content) : (textKey content).ConvertsUpTo P := by
  cases content with
  | ok t => exact failsBy_ok _
  | error found => exact converts_misplaced .text found.1 found.2

/-- A key fails to convert as it is built. -/
lemma converts_checkedKey {key : Built Value} (h : key.ConvertsUpTo P) (tag : Tag)
    (mapping start : Mark) :
    (checkedKey tag mapping start key).ConvertsUpTo P := by
  unfold checkedKey
  split
  · exact h
  · split
    · exact converts_refuseValue _ _ _ _
    · exact h

/-- A mapping with the tag of a scalar. -/
lemma converts_contentValue {tag : Tag} {content : Content}
    (h : ∀ t, content = .ok t → tag ≠ .timestamp → ∀ e, Scalar.Unconverted tag t e → P e)
    (htimestamp : ∀ t, content = .ok t → tag = .timestamp → P .timestampOfMapping) (start : Mark) :
    (contentValue tag content start).ConvertsUpTo P := by
  unfold contentValue
  split
  · cases content with
    | error found => exact converts_misplaced tag found.1 found.2
    | ok t =>
      dsimp only
      split
      · exact failsBy_error (htimestamp t rfl ‹_›)
      · exact converts_scalarValue (h t rfl ‹_›) start
  · exact converts_misplaced _ _ _

end

/-! ### Entries -/

/-- The parts of an entry fail by refusals, or by conversion errors of a kind. -/
structure BuiltEntry.ConvertsUpTo (P : ConversionError → Prop) (e : BuiltEntry) : Prop where
  key : e.key.ConvertsUpTo P
  value : e.value.ConvertsUpTo P

/-- The parts of entries fail by refusals, or by conversion errors of a kind; if there are no
entries, the document is refused. -/
def EntriesConvertUpTo (P : ConversionError → Prop) (x : Except Failure (List BuiltEntry)) : Prop :=
  (∀ es, x = .ok es → ∀ e ∈ es, e.ConvertsUpTo P) ∧ ∀ f, x = .error f → ∃ e, f = .refused e

section

variable {P : ConversionError → Prop}

lemma entriesConvert_ok {es : List BuiltEntry} (h : ∀ e ∈ es, e.ConvertsUpTo P) :
    EntriesConvertUpTo P (.ok es) := by
  refine ⟨?_, by rintro _ ⟨⟩⟩
  rintro _ ⟨⟩
  exact h

lemma entriesConvert_refused (e : Error) : EntriesConvertUpTo P (.error (.refused e)) := by
  refine ⟨by rintro _ ⟨⟩, ?_⟩
  rintro _ ⟨⟩
  exact ⟨e, rfl⟩

lemma entriesConvert_refuseValue (context : Option Context) (since : Option Mark)
    (problem : Problem) (mark : Mark) :
    EntriesConvertUpTo P (refuseValue context since problem mark) :=
  entriesConvert_refused _

/-- Entries that are built after others convert up to what both do. -/
lemma EntriesConvertUpTo.bind {x : Except Failure (List BuiltEntry)}
    {f : List BuiltEntry → Except Failure (List BuiltEntry)} (hx : EntriesConvertUpTo P x)
    (hf : ∀ es, (∀ e ∈ es, e.ConvertsUpTo P) → EntriesConvertUpTo P (f es)) :
    EntriesConvertUpTo P (x >>= f) := by
  cases x with
  | error e =>
    refine ⟨by rintro _ ⟨⟩, ?_⟩
    rintro _ ⟨⟩
    exact hx.2 e rfl
  | ok es => exact hf es (hx.1 es rfl)

/-- Entries that are built from others convert up to what both do. -/
lemma EntriesConvertUpTo.bind_entries {x : Except Failure Entries}
    {f : Entries → Except Failure (List BuiltEntry)}
    (hx : EntriesConvertUpTo P (x.map Entries.toList))
    (hf : ∀ es, (∀ e ∈ es.toList, e.ConvertsUpTo P) → EntriesConvertUpTo P (f es)) :
    EntriesConvertUpTo P (x >>= f) := by
  cases x with
  | error e =>
    refine ⟨by rintro _ ⟨⟩, ?_⟩
    rintro _ ⟨⟩
    exact hx.2 e rfl
  | ok es => exact hf es (hx.1 es.toList rfl)

lemma converts_pairs {es : List BuiltEntry} (h : ∀ e ∈ es, e.ConvertsUpTo P) :
    (all (es.map fun e => both e.key e.value)).ConvertsUpTo P := by
  refine failsBy_all fun b hb => ?_
  obtain ⟨e, he, rfl⟩ := List.mem_map.mp hb
  exact (h e he).key.both (h e he).value

/-- A map converts up to what its entries do. -/
lemma converts_mapOf {x : Except Failure Entries}
    (h : EntriesConvertUpTo P (x.map Entries.toList)) : (mapOf x).ConvertsUpTo P := by
  cases x with
  | error f =>
    obtain ⟨e, rfl⟩ := h.2 f rfl
    exact failsBy_error trivial
  | ok es => exact (converts_pairs (h.1 _ rfl)).map _

/-- A set converts up to what its entries do. -/
lemma converts_setOf {x : Except Failure Entries}
    (h : EntriesConvertUpTo P (x.map Entries.toList)) : (setOf x).ConvertsUpTo P := by
  cases x with
  | error f =>
    obtain ⟨e, rfl⟩ := h.2 f rfl
    exact failsBy_error trivial
  | ok es => exact (converts_pairs (h.1 _ rfl)).map _

/-- A mapping of one entry converts up to what the entry does. -/
lemma converts_singleEntry {entries : List BuiltEntry} (h : ∀ e ∈ entries, e.ConvertsUpTo P)
    (context : Context) (collection : Mark) (found : Form) (start : Mark) :
    (singleEntry context collection found start entries).ConvertsUpTo P := by
  unfold singleEntry
  split
  · rename_i e
    obtain ⟨hkey, hvalue⟩ := h e List.mem_cons_self
    exact (hkey.both hvalue).map _
  · exact converts_refuseValue _ _ _ _
  · exact converts_refuseValue _ _ _ _

end

/-! ### Nodes -/

/-- A content that is there is the one that is taken. -/
lemma contentOf?_eq_some {entries : List (Node × Node)} {start : Mark} {t : Text}
    (h : (contentOf? entries).getD (.error (.mapping, start)) = .ok t) :
    contentOf? entries = some (.ok t) := by
  cases hcontent : contentOf? entries with
  | none =>
    rw [hcontent] at h
    cases h
  | some content =>
    rw [hcontent] at h
    exact congrArg some h

/-- All conversions that fail in a node are of a kind. -/
def Node.ConvertsUpTo (P : ConversionError → Prop) (n : Node) : Prop := ∀ e, n.Unconverted e → P e

section

variable {P : ConversionError → Prop}

mutual

/-- Where a node cannot be built, the document is refused or the node holds what does not
convert. -/
theorem converts_build (n : Node) (h : n.ConvertsUpTo P) : n.build.ConvertsUpTo P := by
  match n with
  | .scalar tag content start =>
    exact converts_scalarValue (fun e he => h e (.scalar he)) start
  | .sequence tag items start =>
    have hitems : ∀ n ∈ items, n.ConvertsUpTo P := fun n hn e he => h e (.item hn he)
    unfold Node.build
    split
    · exact ((failsBy_all (converts_buildItems items hitems)).map _).later
    · exact ((failsBy_all (converts_buildPairs .orderedMap start items hitems)).map _).later
    · exact ((failsBy_all (converts_buildPairs .pairs start items hitems)).map _).later
    · exact converts_misplaced _ _ _
  | .mapping tag entries start =>
    have hentries : ∀ p ∈ entries, p.1.ConvertsUpTo P ∧ p.2.ConvertsUpTo P := fun p hp =>
      ⟨fun e he => h e (.key hp he), fun e he => h e (.value hp he)⟩
    unfold Node.build
    split
    · exact (converts_mapOf (converts_buildEntries start start entries hentries)).later
    · exact (converts_setOf (converts_buildEntries start start entries hentries)).later
    · refine converts_contentValue ?_ ?_ start
      · intro t ht htag e he
        exact h e (.content htag (contentOf?_eq_some ht) he)
      · rintro t ht rfl
        exact h _ (.timestamp (contentOf?_eq_some ht))

/-- Items convert up to what their nodes do. -/
theorem converts_buildItems (ns : List Node) (h : ∀ n ∈ ns, n.ConvertsUpTo P) :
    ∀ b ∈ buildItems ns, b.ConvertsUpTo P := by
  match ns with
  | [] => exact List.forall_mem_nil _
  | n :: ns =>
    obtain ⟨hn, hns⟩ := List.forall_mem_cons.mp h
    exact List.forall_mem_cons.mpr ⟨converts_build n hn, converts_buildItems ns hns⟩

/-- Pairs convert up to what their nodes do. -/
theorem converts_buildPairs (context : Context) (collection : Mark) (ns : List Node)
    (h : ∀ n ∈ ns, n.ConvertsUpTo P) :
    ∀ b ∈ buildPairs context collection ns, b.ConvertsUpTo P := by
  match ns with
  | [] => exact List.forall_mem_nil _
  | n :: ns =>
    have hn := h n List.mem_cons_self
    have hns :=
      converts_buildPairs context collection ns fun m hm => h m (List.mem_cons_of_mem n hm)
    unfold buildPairs
    refine List.forall_mem_cons.mpr ⟨converts_singleEntry ?_ _ _ _ _, hns⟩
    match n with
    | .mapping tag entries start =>
      exact converts_buildPlain entries fun p hp =>
        ⟨fun e he => hn e (.key hp he), fun e he => hn e (.value hp he)⟩
    | .scalar tag content start => exact List.forall_mem_nil _
    | .sequence tag items start => exact List.forall_mem_nil _

/-- Entries without merging convert up to what their nodes do. -/
theorem converts_buildPlain (es : List (Node × Node))
    (h : ∀ p ∈ es, p.1.ConvertsUpTo P ∧ p.2.ConvertsUpTo P) :
    ∀ e ∈ buildPlain es, e.ConvertsUpTo P := by
  match es with
  | [] => exact List.forall_mem_nil _
  | (key, value) :: es =>
    obtain ⟨⟨hkey, hvalue⟩, hes⟩ := List.forall_mem_cons.mp h
    exact List.forall_mem_cons.mpr
      ⟨⟨converts_build key hkey, converts_build value hvalue⟩, converts_buildPlain es hes⟩

/-- Entries convert up to what their keys and values do. -/
theorem converts_buildEntries (outer start : Mark) (es : List (Node × Node))
    (h : ∀ p ∈ es, p.1.ConvertsUpTo P ∧ p.2.ConvertsUpTo P) :
    EntriesConvertUpTo P ((buildEntries outer start es).map Entries.toList) := by
  match es with
  | [] => exact entriesConvert_ok (List.forall_mem_nil _)
  | (key, value) :: es =>
    obtain ⟨⟨hkey, hvalue⟩, hes⟩ := List.forall_mem_cons.mp h
    have hrest := converts_buildEntries outer start es hes
    rw [buildEntries]
    split
    · -- A merge key takes its entries from the value.
      rw [except_map_bind]
      refine (converts_mergedEntries outer start value hvalue).bind fun first hfirst => ?_
      rw [except_map_bind]
      refine hrest.bind_entries fun entries hentries => entriesConvert_ok fun e he => ?_
      rw [Entries.toList, List.append_assoc] at he
      rcases List.mem_append.mp he with he | he
      · exact hfirst e he
      · exact hentries e he
    · -- Any other key is built, and its entry stands before those that follow.
      rw [except_map_bind]
      refine hrest.bind_entries fun entries hentries => entriesConvert_ok fun e he => ?_
      have hbuilt : (if key.tag = .value then textKey key.content
          else checkedKey key.tag outer key.start key.build).ConvertsUpTo P := by
        split
        · exact converts_textKey _
        · exact converts_checkedKey (converts_build key hkey) _ _ _
      rcases List.mem_append.mp he with he | he
      · exact hentries e (List.mem_append_left _ he)
      · rcases List.mem_cons.mp he with rfl | he
        · exact ⟨hbuilt, converts_build value hvalue⟩
        · exact hentries e (List.mem_append_right _ he)

/-- The entries of a merged node convert up to what the node does. -/
theorem converts_mergedEntries (outer start : Mark) (n : Node) (h : n.ConvertsUpTo P) :
    EntriesConvertUpTo P (mergedEntries outer start n) := by
  match n with
  | .mapping tag entries inner =>
    exact converts_buildEntries outer inner entries fun p hp =>
      ⟨fun e he => h e (.key hp he), fun e he => h e (.value hp he)⟩
  | .sequence tag items place =>
    exact converts_mergedItems outer start items fun n hn e he => h e (.item hn he)
  | .scalar tag content place => exact entriesConvert_refuseValue _ _ _ _

/-- The entries of merged nodes convert up to what the nodes do. -/
theorem converts_mergedItems (outer start : Mark) (ns : List Node)
    (h : ∀ n ∈ ns, n.ConvertsUpTo P) :
    EntriesConvertUpTo P (mergedItems outer start ns) := by
  match ns with
  | [] => exact entriesConvert_ok (List.forall_mem_nil _)
  | n :: ns =>
    obtain ⟨hn, hns⟩ := List.forall_mem_cons.mp h
    have hothers := converts_mergedItems outer start ns hns
    match n with
    | .mapping tag entries inner =>
      have hfirst := converts_buildEntries outer inner entries fun p hp =>
        ⟨fun e he => hn e (.key hp he), fun e he => hn e (.value hp he)⟩
      rw [mergedItems]
      refine hfirst.bind_entries fun first hfirst => ?_
      refine hothers.bind fun others hothers => entriesConvert_ok fun e he => ?_
      rcases List.mem_append.mp he with he | he
      · exact hothers e he
      · exact hfirst e he
    | .scalar tag content start => exact entriesConvert_refuseValue _ _ _ _
    | .sequence tag items start => exact entriesConvert_refuseValue _ _ _ _

end

end

/-- A document whose values fail by a conversion error holds what does not convert. -/
theorem unconverted_of_value {n : Node} {e : ConversionError}
    (h : n.value = .error (.unconverted e)) :
    n.Unconverted e := by
  obtain ⟨fault, hbuild, hfault⟩ := mapError_eq_error.mp h
  have hconverts := converts_build n (P := n.Unconverted) (fun _ => id) fault hbuild
  rw [hfault] at hconverts
  exact hconverts

/-! ### Documents of lists, mappings and scalars -/

/-- A node is a scalar with a tag for scalars, a list, or a mapping whose keys are scalars and which
takes over no entries of others; it holds no binary data. -/
inductive Node.IsUsual : Node → Prop
  | scalar {tag : Tag} {content : Text} {start : Mark} (htag : tag.isScalar)
      (hbinary : tag ≠ .binary) : IsUsual (.scalar tag content start)
  | sequence {items : List Node} {start : Mark} (hitems : ∀ n ∈ items, n.IsUsual) :
      IsUsual (.sequence .sequence items start)
  | mapping {entries : List (Node × Node)} {start : Mark} (hkeys : ∀ p ∈ entries, p.1.IsUsual)
      (hscalar : ∀ p ∈ entries, p.1.form = .scalar) (hvalues : ∀ p ∈ entries, p.2.IsUsual) :
      IsUsual (.mapping .mapping entries start)

lemma buildItems_eq (ns : List Node) : buildItems ns = ns.map Node.build := by
  induction ns with
  | nil => rfl
  | cons n ns ih => rw [buildItems, ih, List.map_cons]

/-- The tag of a usual scalar. -/
lemma Node.IsUsual.isScalar_tag {n : Node} (h : n.IsUsual) (hscalar : n.form = .scalar) :
    n.tag.isScalar := by
  cases h with
  | scalar htag => exact htag
  | sequence | mapping => cases hscalar

lemma not_isCollection_of_isScalar {tag : Tag} (h : tag.isScalar) : tag.isCollection = false := by
  cases tag <;> first | rfl | cases h

/-- The entries of a usual mapping stand as they are. -/
lemma buildEntries_eq (outer start : Mark) {es : List (Node × Node)}
    (h : ∀ p ∈ es, p.1.tag.isScalar) :
    buildEntries outer start es = .ok ⟨[], es.map fun p => ⟨p.1.build, p.2.build⟩⟩ := by
  induction es with
  | nil => rfl
  | cons p es ih =>
    obtain ⟨key, value⟩ := p
    obtain ⟨hkey, hes⟩ := List.forall_mem_cons.mp h
    have hmerge : key.tag ≠ .merge := by
      intro htag
      rw [htag] at hkey
      cases hkey
    have hvalue : key.tag ≠ .value := by
      intro htag
      rw [htag] at hkey
      cases hkey
    have hchecked : checkedKey key.tag outer key.start key.build = key.build := by
      unfold checkedKey
      split
      · exact Eq.symm ‹_›
      · rw [not_isCollection_of_isScalar hkey]
        rfl
    rw [buildEntries, if_neg hmerge, ih hes, if_neg hvalue, hchecked]
    rfl

lemma build_sequence (items : List Node) (start : Mark) :
    (Node.sequence .sequence items start).build
      = later ((all (items.map Node.build)).map Value.list) := by
  rw [Node.build, buildItems_eq]

/-- A usual mapping with keys that are scalars is built from its entries. -/
lemma build_mapping {entries : List (Node × Node)} (hkeys : ∀ p ∈ entries, p.1.IsUsual)
    (hscalar : ∀ p ∈ entries, p.1.form = .scalar) (start : Mark) :
    (Node.mapping .mapping entries start).build
      = later ((all (entries.map fun p => both p.1.build p.2.build)).map Value.ofEntries) := by
  rw [Node.build, buildEntries_eq start start fun p hp => (hkeys p hp).isScalar_tag (hscalar p hp),
    mapOf, Entries.toList, List.nil_append, List.map_map]
  rfl

/-- A usual node is not refused. -/
lemma Node.IsUsual.failsBy {n : Node} (h : n.IsUsual) :
    n.build.FailsBy fun f => ∃ e, f = .unconverted e := by
  induction h with
  | @scalar tag content start htag hbinary =>
    rw [Node.build]
    rcases scalarValue_cases htag hbinary content start with ⟨v, hv⟩ | ⟨e, -, hv⟩
    · exact hv ▸ failsBy_ok v
    · exact hv ▸ failsBy_error ⟨e, rfl⟩
  | sequence hitems ih =>
    rw [build_sequence]
    refine ((failsBy_all fun b hb => ?_).map _).later
    obtain ⟨n, hn, rfl⟩ := List.mem_map.mp hb
    exact ih n hn
  | mapping hkeys hscalar hvalues ihkeys ihvalues =>
    rw [build_mapping hkeys hscalar]
    refine ((failsBy_all fun b hb => ?_).map _).later
    obtain ⟨p, hp, rfl⟩ := List.mem_map.mp hb
    exact (ihkeys p hp).both (ihvalues p hp)

/-- A usual node that holds what does not convert has no value. -/
lemma Node.Unconverted.fails {n : Node} {e : ConversionError} (h : n.Unconverted e)
    (hn : n.IsUsual) :
    n.build.Fails := by
  induction h with
  | scalar h => exact ⟨_, scalarValue_eq_error h _⟩
  | content htag hcontent h =>
    -- A mapping that is usual has the tag of no scalar.
    cases hn
    cases h
  | timestamp => cases hn
  | item hm _ ih =>
    cases hn with
    | sequence hitems =>
      rw [build_sequence]
      exact ((fails_all (ih (hitems _ hm)) (List.mem_map_of_mem hm)).map _).later
  | @key _ entries _ p _ hp _ ih =>
    -- The key fails, and with it its entry and all entries together.
    cases hn with
    | mapping hkeys hscalar hvalues =>
      rw [build_mapping hkeys hscalar]
      have hmem : both p.1.build p.2.build ∈ entries.map fun p => both p.1.build p.2.build :=
        List.mem_map_of_mem hp
      exact ((fails_all ((ih (hkeys p hp)).both_left _) hmem).map _).later
  | @value _ entries _ p _ hp _ ih =>
    cases hn with
    | mapping hkeys hscalar hvalues =>
      rw [build_mapping hkeys hscalar]
      have hmem : both p.1.build p.2.build ∈ entries.map fun p => both p.1.build p.2.build :=
        List.mem_map_of_mem hp
      exact ((fails_all ((ih (hvalues p hp)).both_right _) hmem).map _).later

/-- A usual document has a value if it holds nothing that does not convert, and otherwise its values
fail by a conversion error. -/
theorem Node.IsUsual.value_cases {n : Node} (h : n.IsUsual) :
    (∃ v, n.value = .ok v) ∧ (∀ e, ¬ n.Unconverted e) ∨
      (∃ e, n.value = .error (.unconverted e)) ∧ ∃ e, n.Unconverted e := by
  cases hbuild : n.build with
  | ok v =>
    refine .inl ⟨⟨v, by rw [Node.value, hbuild]; rfl⟩, fun e he => ?_⟩
    obtain ⟨fault, hfault⟩ := he.fails h
    cases hbuild.symm.trans hfault
  | error fault =>
    obtain ⟨e, he⟩ := h.failsBy fault hbuild
    have hvalue : n.value = .error (.unconverted e) := by
      rw [Node.value, hbuild, ← he]
      rfl
    exact .inr ⟨⟨e, hvalue⟩, e, unconverted_of_value hvalue⟩

end Schematic.Yaml
