import Schematic.Proofs.Fault
import Schematic.Proofs.Value.Literal
import Schematic.Yaml.Reader

/-!
# What the values of documents bind

A mapping of a document is made by binding its keys one after another, and collections are refused
as keys. So every map in the value of a document binds hashable keys, each of them once.
-/

namespace Schematic

/-! ### Binding once -/

namespace Value

variable {es : List (Value × Value)} {key value : Value}

def IsScalar : Value → Prop
  | .list _ | .tuple _ | .set _ | .map _ => False
  | .null | .bool _ | .int _ | .float _ | .text _ | .bytes _ | .date _ | .dateTime _ => True

lemma IsScalar.isHashable {v : Value} (h : v.IsScalar) : v.IsHashable := by
  cases v <;> first | exact h.elim | trivial

lemma IsScalar.bindsOnce {v : Value} (h : v.IsScalar) : v.BindsOnce := by
  cases v <;> first | exact h.elim | trivial

/-- A key keeps its place when it is bound again, and comes last when it is new. -/
lemma keys_bind (key value : Value) (es : List (Value × Value)) :
    (bind key value es).map Prod.fst = es.map Prod.fst ∨
      (∀ e ∈ es, e.1.same key = false) ∧ bind key value es = es ++ [(key, value)] := by
  induction es with
  | nil => exact .inr ⟨List.forall_mem_nil _, rfl⟩
  | cons e es ih =>
    rw [bind]
    split
    · exact .inl rfl
    · next hne =>
      rcases ih with hkeys | ⟨hnew, hbind⟩
      · exact .inl (by rw [List.map_cons, hkeys, List.map_cons])
      · exact .inr ⟨List.forall_mem_cons.mpr ⟨Bool.eq_false_iff.mpr hne, hnew⟩,
          by rw [hbind, List.cons_append]⟩

/-- A key that is bound leaves the keys distinct. -/
lemma haveDistinctKeys_bind (h : HaveDistinctKeys es) : HaveDistinctKeys (bind key value es) := by
  rcases keys_bind key value es with hkeys | ⟨hnew, hbind⟩
  · have hdistinct (fs : List (Value × Value)) :
        HaveDistinctKeys fs ↔ (fs.map Prod.fst).Pairwise fun k l => k.same l = false := by
      rw [HaveDistinctKeys, List.pairwise_map]
    rw [hdistinct, hkeys, ← hdistinct]
    exact h
  · rw [hbind]
    refine List.pairwise_append.mpr ⟨h, List.pairwise_singleton _ _, fun e he f hf => ?_⟩
    rw [List.mem_singleton.mp hf]
    exact hnew e he

/-- What holds of all keys and of all values holds of them after a key is bound. -/
lemma forall_mem_bind {P Q : Value → Prop} (hkey : P key) (hvalue : Q value)
    (h : ∀ e ∈ es, P e.1 ∧ Q e.2) :
    ∀ e ∈ bind key value es, P e.1 ∧ Q e.2 := by
  induction es with
  | nil => exact List.forall_mem_singleton.mpr ⟨hkey, hvalue⟩
  | cons e es ih =>
    obtain ⟨he, hes⟩ := List.forall_mem_cons.mp h
    rw [bind]
    split
    · exact List.forall_mem_cons.mpr ⟨⟨he.1, hvalue⟩, hes⟩
    · exact List.forall_mem_cons.mpr ⟨he, ih hes⟩

lemma bindOnceItems_iff {vs : List Value} : BindOnceItems vs ↔ ∀ v ∈ vs, v.BindsOnce := by
  induction vs with
  | nil => exact iff_of_true trivial (List.forall_mem_nil _)
  | cons v vs ih => rw [BindOnceItems, List.forall_mem_cons, ih]

lemma bindOnceEntries_iff : BindOnceEntries es ↔ ∀ e ∈ es, e.2.BindsOnce := by
  induction es with
  | nil => exact iff_of_true trivial (List.forall_mem_nil _)
  | cons e es ih => rw [BindOnceEntries, List.forall_mem_cons, ih]

/-- What holds of keys that are put into a set one after another holds of its members. -/
lemma forall_mem_insertAll {P : Value → Prop} (h : ∀ e ∈ es, P e.1) :
    ∀ v ∈ es.foldl (fun members e => insert e.1 members) [], P v := by
  have hfold {members : List Value} (hmembers : ∀ v ∈ members, P v) :
      ∀ v ∈ es.foldl (fun members e => insert e.1 members) members, P v := by
    induction es generalizing members with
    | nil => exact hmembers
    | cons e es ih =>
      obtain ⟨he, hes⟩ := List.forall_mem_cons.mp h
      have hinsert : ∀ v ∈ Value.insert e.1 members, P v := by
        unfold Value.insert
        split
        · exact hmembers
        · exact List.forall_mem_append.mpr ⟨hmembers, List.forall_mem_singleton.mpr he⟩
      exact ih hes hinsert
  exact hfold (List.forall_mem_nil _)

/-- A map that is made by binding keys binds each of them once. -/
theorem bindsOnce_ofEntries (h : ∀ e ∈ es, e.1.IsHashable ∧ e.2.BindsOnce) :
    (ofEntries es).BindsOnce := by
  have hfold {fs : List (Value × Value)} (hdistinct : HaveDistinctKeys fs)
      (hfs : ∀ f ∈ fs, f.1.IsHashable ∧ f.2.BindsOnce) :
      (map (es.foldl (fun es e => bind e.1 e.2 es) fs)).BindsOnce := by
    induction es generalizing fs with
    | nil =>
      exact ⟨hdistinct, fun f hf => (hfs f hf).1, bindOnceEntries_iff.mpr fun f hf => (hfs f hf).2⟩
    | cons e es ih =>
      obtain ⟨he, hes⟩ := List.forall_mem_cons.mp h
      exact ih hes (haveDistinctKeys_bind hdistinct) (forall_mem_bind he.1 he.2 hfs)
  exact hfold List.Pairwise.nil (List.forall_mem_nil _)

end Value

namespace Yaml

open Value (IsScalar BindsOnce)

variable {α β : Type}

/-! ### What parts give -/

namespace Built

/-- What a part gives has a property. -/
def Gives (P : α → Prop) (b : Built α) : Prop := ∀ a, b = .ok a → P a

variable {P : α → Prop} {Q : β → Prop} {a : Built α} {b : Built β}

lemma gives_ok {x : α} (h : P x) : Gives P (.ok x : Built α) := by
  rintro _ ⟨⟩
  exact h

lemma gives_error (e : Fault) : Gives P (.error e : Built α) := by rintro _ ⟨⟩

lemma Gives.later (h : a.Gives P) : a.later.Gives P := by
  cases a with
  | ok x => exact gives_ok (h x rfl)
  | error e => exact gives_error _

lemma Gives.map (h : a.Gives P) {f : α → β} (hf : ∀ x, P x → Q (f x)) :
    Gives Q (Except.map f a) := by
  cases a with
  | ok x => exact gives_ok (hf x (h x rfl))
  | error e => exact gives_error e

/-- Two that are built together give what each gives. -/
lemma Gives.both (ha : a.Gives P) (hb : b.Gives Q) : (both a b).Gives fun p => P p.1 ∧ Q p.2 := by
  cases a with
  | ok x =>
    cases b with
    | ok y => exact gives_ok ⟨ha x rfl, hb y rfl⟩
    | error f => exact gives_error f
  | error e => cases b <;> exact gives_error _

/-- All that are built together give what each gives. -/
lemma gives_all {bs : List (Built α)} (h : ∀ b ∈ bs, b.Gives P) :
    (all bs).Gives fun as => ∀ a ∈ as, P a := by
  induction bs with
  | nil => exact gives_ok (List.forall_mem_nil _)
  | cons b bs ih =>
    obtain ⟨hb, hbs⟩ := List.forall_mem_cons.mp h
    exact (hb.both (ih hbs)).map fun _ hx => List.forall_mem_cons.mpr hx

end Built

open Built

/-! ### Scalars -/

variable {P : Value → Prop}

lemma gives_refuseValue (context : Option Context) (since : Option Mark) (problem : Problem)
    (mark : Mark) :
    (now (refuseValue context since problem mark) : Built Value).Gives P := gives_error _

/-- A node with a tag of another form gives nothing. -/
lemma gives_misplaced (tag : Tag) (found : Form) (start : Mark) :
    (misplaced tag found start).Gives P := by
  unfold misplaced
  split
  · exact (gives_refuseValue _ _ _ _).later
  · exact (gives_refuseValue _ _ _ _).later
  · exact (gives_refuseValue _ _ _ _).later
  · exact (gives_refuseValue _ _ _ _).later
  · exact (gives_refuseValue _ _ _ _).later
  · exact gives_refuseValue _ _ _ _
  · exact gives_refuseValue _ _ _ _
  · exact gives_refuseValue _ _ _ _
  · exact gives_refuseValue _ _ _ _

lemma gives_converted {x : Except ConversionError α} {f : α → Value} (hf : ∀ a, P (f a)) :
    (now (Scalar.converted (x.map f))).Gives P := by
  cases x with
  | ok a => exact gives_ok (hf a)
  | error e => exact gives_error _

/-- A scalar gives a scalar. -/
lemma gives_scalarValue (tag : Tag) (content : Text) (start : Mark) :
    (scalarValue tag content start).Gives IsScalar := by
  cases tag with
  | null => exact gives_ok trivial
  | text => exact gives_ok trivial
  | bool => exact gives_converted (x := Scalar.truth content) fun _ => trivial
  | int => exact gives_converted (x := Scalar.integer content) fun _ => trivial
  | float => exact gives_converted (x := Scalar.double content) fun _ => trivial
  | binary =>
    rw [scalarValue, Scalar.value?]
    cases Binary.decode content with
    | ok bs => exact gives_ok trivial
    | error e => exact gives_error _
  | timestamp =>
    rw [scalarValue, Scalar.value?, Scalar.timestamp]
    cases Timestamp.read? content with
    | none => exact gives_error _
    | some s =>
      dsimp only
      split
      · exact gives_ok trivial
      · exact gives_ok trivial
      · exact gives_error _
  | orderedMap | pairs | set | sequence | mapping | merge | value | other name =>
    -- These tags are of no scalar, and a scalar with one of them is refused.
    rw [scalarValue, Scalar.value?]
    · exact gives_misplaced _ _ _
    all_goals rintro ⟨⟩

/-- A content gives a scalar under every tag that fits. -/
lemma gives_contentValue (tag : Tag) (content : Content) (start : Mark) :
    (contentValue tag content start).Gives IsScalar := by
  unfold contentValue
  split
  · cases content with
    | error found => exact gives_misplaced tag found.1 found.2
    | ok t =>
      dsimp only
      split
      · exact gives_error _
      · exact gives_scalarValue tag t start
  · exact gives_misplaced _ _ _

lemma gives_textKey (content : Content) : (textKey content).Gives IsScalar := by
  cases content with
  | ok t => exact gives_ok trivial
  | error found => exact gives_misplaced .text found.1 found.2

/-! ### Entries -/

/-- An entry binds a scalar to a value that binds each key once. -/
structure BuiltEntry.BindsOnce (e : BuiltEntry) : Prop where
  key : e.key.Gives IsScalar
  value : e.value.Gives Value.BindsOnce

/-- Collections are no keys. -/
lemma gives_checkedKey (n : Node) (outer : Mark) :
    (checkedKey n.tag outer n.start n.build).Gives IsScalar := by
  unfold checkedKey
  split
  · exact gives_error _
  · split
    · exact gives_refuseValue _ _ _ _
    · next hcollection =>
      match n with
      | .scalar tag content start => exact gives_scalarValue tag content start
      | .sequence tag items start =>
        unfold Node.build
        split
        · exact absurd rfl hcollection
        · exact absurd rfl hcollection
        · exact absurd rfl hcollection
        · exact gives_misplaced _ _ _
      | .mapping tag entries start =>
        unfold Node.build
        split
        · exact absurd rfl hcollection
        · exact absurd rfl hcollection
        · exact gives_contentValue _ _ _

/-- Entries give pairs with keys that are scalars. -/
lemma gives_pairs {es : List BuiltEntry} (h : ∀ e ∈ es, e.BindsOnce) :
    (all (es.map fun e => both e.key e.value)).Gives
      fun ps => ∀ p ∈ ps, p.1.IsScalar ∧ p.2.BindsOnce := by
  apply gives_all
  intro b hb
  obtain ⟨e, he, rfl⟩ := List.mem_map.mp hb
  exact (h e he).key.both (h e he).value

/-- A map binds its keys once. -/
lemma gives_mapOf {x : Except Failure Entries}
    (h : ∀ es, x = .ok es → ∀ e ∈ es.toList, e.BindsOnce) :
    (mapOf x).Gives Value.BindsOnce := by
  cases x with
  | error f => exact gives_error _
  | ok es =>
    refine (gives_pairs (h es rfl)).map fun ps hps => ?_
    exact Value.bindsOnce_ofEntries fun p hp => ⟨(hps p hp).1.isHashable, (hps p hp).2⟩

/-- A set binds its keys once. -/
lemma gives_setOf {x : Except Failure Entries}
    (h : ∀ es, x = .ok es → ∀ e ∈ es.toList, e.BindsOnce) :
    (setOf x).Gives Value.BindsOnce := by
  cases x with
  | error f => exact gives_error _
  | ok es =>
    refine (gives_pairs (h es rfl)).map fun ps hps => Value.bindOnceItems_iff.mpr ?_
    have hkeys : ∀ p ∈ ps, p.1.BindsOnce := fun p hp => (hps p hp).1.bindsOnce
    exact Value.forall_mem_insertAll hkeys

/-- A mapping of one entry gives that entry. -/
lemma gives_singleEntry {es : List BuiltEntry}
    (h : ∀ e ∈ es, e.key.Gives Value.BindsOnce ∧ e.value.Gives Value.BindsOnce) (context : Context)
    (collection : Mark) (found : Form) (start : Mark) :
    (singleEntry context collection found start es).Gives Value.BindsOnce := by
  unfold singleEntry
  split
  · rename_i e
    obtain ⟨hkey, hvalue⟩ := h e List.mem_cons_self
    exact (hkey.both hvalue).map fun p hp => ⟨hp.1, hp.2, trivial⟩
  · exact gives_refuseValue _ _ _ _
  · exact gives_refuseValue _ _ _ _

lemma gives_list {bs : List (Built Value)} (h : ∀ b ∈ bs, b.Gives Value.BindsOnce) :
    Gives Value.BindsOnce (Except.map Value.list (all bs)) :=
  (gives_all h).map fun _ hvs => Value.bindOnceItems_iff.mpr hvs

/-! ### Nodes -/

mutual

/-- The value of a node binds each key once. -/
theorem gives_build (n : Node) : n.build.Gives Value.BindsOnce := by
  match n with
  | .scalar tag content start =>
    exact fun v hv => (gives_scalarValue tag content start v hv).bindsOnce
  | .sequence tag items start =>
    unfold Node.build
    split
    · exact (gives_list (gives_buildItems items)).later
    · exact (gives_list (gives_buildPairs .orderedMap start items)).later
    · exact (gives_list (gives_buildPairs .pairs start items)).later
    · exact gives_misplaced _ _ _
  | .mapping tag entries start =>
    unfold Node.build
    split
    · exact (gives_mapOf (gives_buildEntries start start entries)).later
    · exact (gives_setOf (gives_buildEntries start start entries)).later
    · exact fun v hv => (gives_contentValue _ _ _ v hv).bindsOnce

/-- Items bind their keys once. -/
theorem gives_buildItems (ns : List Node) : ∀ b ∈ buildItems ns, b.Gives Value.BindsOnce := by
  match ns with
  | [] => exact List.forall_mem_nil _
  | n :: ns => exact List.forall_mem_cons.mpr ⟨gives_build n, gives_buildItems ns⟩

/-- Pairs bind their keys once. -/
theorem gives_buildPairs (context : Context) (collection : Mark) (ns : List Node) :
    ∀ b ∈ buildPairs context collection ns, b.Gives Value.BindsOnce := by
  match ns with
  | [] => exact List.forall_mem_nil _
  | n :: ns =>
    unfold buildPairs
    refine List.forall_mem_cons.mpr
      ⟨gives_singleEntry ?_ _ _ _ _, gives_buildPairs context collection ns⟩
    match n with
    | .mapping tag entries start => exact gives_buildPlain entries
    | .scalar tag content start => exact List.forall_mem_nil _
    | .sequence tag items start => exact List.forall_mem_nil _

/-- Entries without merging bind their keys once. -/
theorem gives_buildPlain (es : List (Node × Node)) :
    ∀ e ∈ buildPlain es, e.key.Gives Value.BindsOnce ∧ e.value.Gives Value.BindsOnce := by
  match es with
  | [] => exact List.forall_mem_nil _
  | (key, value) :: es =>
    exact List.forall_mem_cons.mpr ⟨⟨gives_build key, gives_build value⟩, gives_buildPlain es⟩

/-- Entries bind their keys once, merged ones in front of others. -/
theorem gives_buildEntries (outer start : Mark) (es : List (Node × Node)) :
    ∀ entries, buildEntries outer start es = .ok entries → ∀ e ∈ entries.toList, e.BindsOnce := by
  intro entries h
  match es with
  | [] =>
    cases h
    exact List.forall_mem_nil _
  | (key, value) :: es =>
    rw [buildEntries] at h
    split at h
    · -- A merge key puts the entries of other mappings in front.
      obtain ⟨first, hfirst, h⟩ := exists_of_bind_eq_ok h
      obtain ⟨rest, hrest, h⟩ := exists_of_bind_eq_ok h
      cases h
      have hmerged := gives_mergedEntries outer start value first hfirst
      have hown := gives_buildEntries outer start es rest hrest
      rw [Entries.toList, List.append_assoc]
      exact List.forall_mem_append.mpr ⟨hmerged, hown⟩
    · -- Any other key is checked to be a scalar.
      obtain ⟨rest, hrest, h⟩ := exists_of_bind_eq_ok h
      cases h
      have hrest' := List.forall_mem_append.mp (gives_buildEntries outer start es rest hrest)
      have hkey : (if key.tag = .value then textKey key.content
          else checkedKey key.tag outer key.start key.build).Gives IsScalar := by
        split
        · exact gives_textKey _
        · exact gives_checkedKey key outer
      exact List.forall_mem_append.mpr
        ⟨hrest'.1, List.forall_mem_cons.mpr ⟨⟨hkey, gives_build value⟩, hrest'.2⟩⟩

/-- Merged entries bind their keys once. -/
theorem gives_mergedEntries (outer start : Mark) (n : Node) :
    ∀ es, mergedEntries outer start n = .ok es → ∀ e ∈ es, e.BindsOnce := by
  intro es h
  match n with
  | .mapping tag entries inner =>
    rw [mergedEntries] at h
    cases hentries : buildEntries outer inner entries with
    | error f =>
      rw [hentries] at h
      cases h
    | ok rest =>
      rw [hentries] at h
      cases h
      exact gives_buildEntries outer inner entries rest hentries
  | .sequence tag items place => exact gives_mergedItems outer start items es h
  | .scalar tag content place => cases h

/-- The entries of merged mappings bind their keys once. -/
theorem gives_mergedItems (outer start : Mark) (ns : List Node) :
    ∀ es, mergedItems outer start ns = .ok es → ∀ e ∈ es, e.BindsOnce := by
  intro es h
  match ns with
  | [] =>
    cases h
    exact List.forall_mem_nil _
  | n :: ns =>
    match n with
    | .mapping tag entries inner =>
      rw [mergedItems] at h
      obtain ⟨first, hfirst, h⟩ := exists_of_bind_eq_ok h
      obtain ⟨others, hothers, h⟩ := exists_of_bind_eq_ok h
      cases h
      exact List.forall_mem_append.mpr ⟨gives_mergedItems outer start ns others hothers,
        gives_buildEntries outer inner entries first hfirst⟩
    | .scalar tag content place => cases h
    | .sequence tag items place => cases h

end

/-- The value of a document binds each key once. -/
theorem bindsOnce_of_read {t : Text} {v : Value} (h : read t = .ok v) : v.BindsOnce := by
  rw [read] at h
  obtain ⟨n?, -, h⟩ := exists_of_bind_eq_ok h
  cases n? with
  | none =>
    cases h
    trivial
  | some n =>
    change n.build.mapError Fault.failure = .ok v at h
    cases hbuild : n.build with
    | ok w =>
      rw [hbuild] at h
      cases h
      exact gives_build n v hbuild
    | error e =>
      rw [hbuild] at h
      cases h

end Yaml

end Schematic
