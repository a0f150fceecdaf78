import Schematic.Proofs.Json.Data
import Schematic.Proofs.Json.RoundTrip
import Schematic.Proofs.Json.Text
import Schematic.Proofs.Value.Normal
import Schematic.Proofs.Yaml.Flow.Source
import Schematic.Proofs.Yaml.Number

/-!
# What YAML sees in a JSON document

A JSON document is read as YAML by a reader that does not know of JSON. A number is a number there
only if it is whole or has a point, and a sign in its exponent; any other is a text. The halves of a
surrogate pair stay apart. A name is a key only if its colon comes soon and on the same line.
-/

namespace Schematic.Json

/-! ### Numbers and texts -/

def Literal.seen (l : Literal) : Json := if l.IsYaml then l.numeral.value else .text l.text

/-- What is seen in a code point between quotes. -/
def Piece.seen : Piece → Text
  | .pair high low _ => [point high.number, point low.number]
  | p => [p.codePoint]

/-- The code point is not spelled by a surrogate pair. -/
def Piece.IsSingle : Piece → Prop
  | .pair _ _ _ => False
  | _ => True

def seenContent (ps : List Piece) : Text := ps.flatMap Piece.seen

/-- No code point of a text is spelled by a surrogate pair. -/
def AreSingle (ps : List Piece) : Prop := ∀ p ∈ ps, p.IsSingle

/-! ### Names -/

/-- The colon after a name comes within 1024 code points, and on the same line. -/
structure Name.IsNarrow (n : Name) : Prop where
  length_le : (quoted n.pieces).length + n.after.val.length ≤ 1024
  same_line : Yaml.StaysOnLine n.after.val

/-! ### Values -/

mutual

def Spelling.seen : Spelling → Json
  | .null => .null
  | .bool b => .bool b
  | .number l => l.seen
  | .text ps => .text (seenContent ps)
  | .emptyArray _ => .array []
  | .array _ items => .array items.seen
  | .emptyObject _ => .object []
  | .object _ members => .object (bindAll members.seen)

def Items.seen : Items → List Json
  | .last item _ => [item.seen]
  | .more item _ _ rest => item.seen :: rest.seen

def Members.seen : Members → List (Text × Json)
  | .last name value _ => [(seenContent name.pieces, value.seen)]
  | .more name value _ _ rest => (seenContent name.pieces, value.seen) :: rest.seen

end

/-! ### Names of a whole value -/

def Members.HaveNarrowNames (ms : Members) : Prop := ∀ n ∈ ms.names, n.IsNarrow

def Spelling.HasNarrowNames (s : Spelling) : Prop :=
  s.Each (fun _ => True) (fun _ => True) Members.HaveNarrowNames

def Items.HasNarrowNames (is : Items) : Prop :=
  is.Each (fun _ => True) (fun _ => True) Members.HaveNarrowNames

/-- All names of some entries, and all in their values, are narrow. -/
def Members.HasNarrowNames (ms : Members) : Prop :=
  ms.HaveNarrowNames ∧ ms.Each (fun _ => True) (fun _ => True) Members.HaveNarrowNames

lemma Members.hasNarrowNames_last {name : Name} {value : Spelling} {after : Blanks} :
    (Members.last name value after).HasNarrowNames ↔ name.IsNarrow ∧ value.HasNarrowNames := by
  simp only [HasNarrowNames, Spelling.HasNarrowNames, HaveNarrowNames, names, Each,
    List.forall_mem_singleton]

/-- The names of members are narrow if the first one is and the others are. -/
lemma Members.hasNarrowNames_more {name : Name} {value : Spelling} {after before : Blanks}
    {rest : Members} :
    (Members.more name value after before rest).HasNarrowNames
      ↔ name.IsNarrow ∧ value.HasNarrowNames ∧ rest.HasNarrowNames := by
  simp only [HasNarrowNames, Spelling.HasNarrowNames, HaveNarrowNames, names, Each,
    List.forall_mem_cons]
  tauto

/-- The names of some entries are spelled without surrogate pairs. -/
def Members.HaveSingleNames (ms : Members) : Prop := ∀ n ∈ ms.names, AreSingle n.pieces

/-- A value is spelled by the rules that YAML shares: the numbers are numbers there, and no code
point is spelled by a surrogate pair. -/
def Spelling.IsYaml (s : Spelling) : Prop :=
  s.Each Literal.IsYaml AreSingle Members.HaveSingleNames

def Spelling.IsObject : Spelling → Prop
  | .emptyObject _ | .object _ _ => True
  | _ => False

/-! ### What is seen is what is spelled -/

/-- A number is seen as its value if it is spelled as YAML spells it. -/
lemma Literal.seen_eq_iff (l : Literal) : l.seen = l.numeral.value ↔ l.IsYaml := by
  rw [seen]
  split
  case isTrue h => simp [h]
  case isFalse h =>
    refine iff_of_false (fun heq => ?_) h
    unfold Numeral.value at heq
    split at heq <;> cases heq

/-- A text is seen as it is spelled if its code points are spelled one by one. -/
lemma seenContent_eq_iff (ps : List Piece) : seenContent ps = content ps ↔ AreSingle ps := by
  have hlength (p : Piece) : 1 ≤ p.seen.length := by cases p <;> simp [Piece.seen]
  have hle (ps : List Piece) : (content ps).length ≤ (seenContent ps).length := by
    -- What is seen is never shorter, as each piece is seen as at least one code point.
    induction ps with
    | nil => exact Nat.le_refl 0
    | cons p ps ih =>
      have := hlength p
      simp only [content, seenContent, List.map_cons, List.flatMap_cons, List.length_cons,
        List.length_append] at ih ⊢
      omega
  induction ps with
  | nil => exact iff_of_true rfl (List.forall_mem_nil _)
  | cons p ps ih =>
    have hcons : AreSingle (p :: ps) ↔ p.IsSingle ∧ AreSingle ps := List.forall_mem_cons
    rw [hcons, ← propext ih]
    cases p with
    | pair high low h =>
      -- A pair is seen as two code points, and nothing after it makes up for that.
      refine iff_of_false (fun heq => ?_) (fun h => h.1)
      have hlt := congrArg List.length heq
      have := hle ps
      simp only [content, seenContent, List.map_cons, List.flatMap_cons, List.length_cons,
        List.length_append, Piece.seen, List.length_nil] at this hlt
      omega
    | plain _ _ | letter _ _ _ | unit _ _ =>
      simp [content, seenContent, Piece.seen, Piece.IsSingle]

/-- Entries of which none is lost by binding their names are bound as they are. -/
lemma bindAll_eq_self_of_length {es : List (Text × Json)} (h : es.length ≤ (bindAll es).length) :
    bindAll es = es := by
  have hsubset : (bindAll es).map Prod.fst ⊆ es.map Prod.fst := by
    intro name hname
    obtain ⟨e, he, rfl⟩ := List.mem_map.mp hname
    exact forall_name_bindAll (p := (· ∈ es.map Prod.fst)) (fun e he => List.mem_map_of_mem he) e he
  have hperm :=
    (List.subperm_of_subset (hasDistinctNames_bindAll es) hsubset).perm_of_length_le
      (by simpa using h)
  exact bindAll_eq_self (hperm.nodup_iff.mp (hasDistinctNames_bindAll es))

lemma Members.length_seen (ms : Members) : ms.seen.length = ms.toEntries.length := by
  match ms with
  | .last _ _ _ => rfl
  | .more _ _ _ _ rest => exact congrArg (· + 1) rest.length_seen

lemma Members.map_fst_toEntries (ms : Members) :
    ms.toEntries.map Prod.fst = ms.names.map fun n => content n.pieces := by
  match ms with
  | .last _ _ _ => rfl
  | .more _ _ _ _ rest => exact congrArg _ rest.map_fst_toEntries

/-- An object is seen as it is spelled if its entries are. -/
lemma Members.bindAll_seen_eq_iff {ms : Members} (h : ms.HaveDistinctNames) :
    bindAll ms.seen = bindAll ms.toEntries ↔ ms.seen = ms.toEntries := by
  have hself : bindAll ms.toEntries = ms.toEntries :=
    bindAll_eq_self (by rwa [ms.map_fst_toEntries])
  refine ⟨fun heq => ?_, fun heq => by rw [heq]⟩
  rw [hself] at heq
  rw [← heq]
  exact (bindAll_eq_self_of_length (by rw [heq, ms.length_seen])).symm

mutual

/-- A value is seen as it is spelled exactly if it is spelled by the rules that YAML shares. -/
theorem Spelling.seen_eq_iff (s : Spelling) (h : s.HasDistinctNames) :
    s.seen = s.toJson ↔ s.IsYaml := by
  match s with
  | .null | .bool _ | .emptyArray _ | .emptyObject _ => exact iff_of_true rfl trivial
  | .number l => exact l.seen_eq_iff
  | .text ps => exact (Json.text.injEq _ _).to_iff.trans (seenContent_eq_iff ps)
  | .array _ is => exact (Json.array.injEq _ _).to_iff.trans (is.seen_eq_iff h)
  | .object _ ms =>
    exact (Json.object.injEq _ _).to_iff.trans
      ((Members.bindAll_seen_eq_iff h.1).trans (ms.seen_eq_iff h.2))

/-- Items are seen as they are if they are spelled as in YAML. -/
theorem Items.seen_eq_iff (is : Items)
    (h : is.Each (fun _ => True) (fun _ => True) Members.HaveDistinctNames) :
    is.seen = is.toJsons ↔ is.Each Literal.IsYaml AreSingle Members.HaveSingleNames := by
  match is with
  | .last item _ =>
    simp only [Items.seen, Items.toJsons, List.cons.injEq, item.seen_eq_iff h, and_true]
    rfl
  | .more item _ _ rest =>
    simp only [Items.seen, Items.toJsons, List.cons.injEq, item.seen_eq_iff h.1,
      rest.seen_eq_iff h.2]
    rfl

/-- Members are seen as they are if they are spelled as in YAML, under single names. -/
theorem Members.seen_eq_iff (ms : Members)
    (h : ms.Each (fun _ => True) (fun _ => True) Members.HaveDistinctNames) :
    ms.seen = ms.toEntries ↔
      ms.HaveSingleNames ∧ ms.Each Literal.IsYaml AreSingle Members.HaveSingleNames := by
  match ms with
  | .last name value _ =>
    simp only [Members.seen, Members.toEntries, List.cons.injEq, Prod.mk.injEq, seenContent_eq_iff,
      value.seen_eq_iff h, Members.HaveSingleNames, Members.names, List.forall_mem_singleton,
      and_true]
    rfl
  | .more name value _ _ rest =>
    simp only [Members.seen, Members.toEntries, List.cons.injEq, Prod.mk.injEq, seenContent_eq_iff,
      value.seen_eq_iff h.1, rest.seen_eq_iff h.2, Members.HaveSingleNames, Members.names,
      List.forall_mem_cons, Members.Each, Spelling.IsYaml]
    tauto

end

end Schematic.Json
