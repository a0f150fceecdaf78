import Schematic.Proofs.Value.Normal
import Schematic.Proofs.Yaml.Document
import Schematic.Proofs.Yaml.Flow.Node

/-!
# Reading JSON documents as YAML

An object of JSON is a flow mapping. It is read to what is seen in it if no tabulator stands between
its words and all names in it are narrow; otherwise it is refused.
-/

namespace Schematic.Yaml

open Source
open Json (Blanks Piece Name Spelling Items Members isSpace quoted)

/-! ### Texts of trees -/

/-- A text of characters, none of which ends a line only in YAML. -/
def IsFlowText (t : Text) : Prop :=
  ∀ c ∈ t, ∃ d, c = .char d ∧ d ≠ '\x85' ∧ d ≠ '\u2028' ∧ d ≠ '\u2029'

variable {t u : Text}

lemma isFlowText_cons {c : CodePoint} :
    IsFlowText (c :: t) ↔
      (∃ d, c = .char d ∧ d ≠ '\x85' ∧ d ≠ '\u2028' ∧ d ≠ '\u2029') ∧ IsFlowText t :=
  List.forall_mem_cons

lemma isFlowText_append : IsFlowText (t ++ u) ↔ IsFlowText t ∧ IsFlowText u :=
  List.forall_mem_append

/-- Between quotes there are neither tabulators nor line ends. -/
lemma notMem_text (p : Piece) {d : Char} (hd : d = '\t' ∨ d = '\n' ∨ d = '\r') :
    .char d ∉ p.text := by
  -- None of the three is a digit, a letter of an escape, or a code point that stands for itself.
  have hhex : (CodePoint.char d).hexDigit? = none ∧ Json.simpleEscape? (.char d) = none ∧
      ¬ 0x20 ≤ d.toNat ∧ d ≠ '\\' ∧ d ≠ 'u' := by
    rcases hd with rfl | rfl | rfl <;> decide
  obtain ⟨hhex, hescape, hvalue, hbackslash, hu⟩ := hhex
  have hdigits (u : Json.SpelledUnit) : .char d ∉ u.digits := by
    intro hmem
    obtain ⟨a, b, c, e, i, j, k, l, hdigits, ha, hb, hc, he, -⟩ := u.exists_hexDigits_eq
    simp only [hdigits, List.mem_cons, List.not_mem_nil, or_false] at hmem
    rcases hmem with rfl | rfl | rfl | rfl <;> simp_all
  cases p with
  | plain c h =>
    intro hmem
    rw [Piece.text, List.mem_singleton] at hmem
    subst hmem
    exact hvalue h.1
  | letter c e h =>
    intro hmem
    simp only [Piece.text, List.mem_cons, CodePoint.char.injEq, hbackslash, List.not_mem_nil,
      or_false, false_or] at hmem
    rw [← hmem, hescape] at h
    cases h
  | unit u h => simp [Piece.text, hbackslash, hu, hdigits]
  | pair high low h => simp [Piece.text, hbackslash, hu, hdigits]

lemma tab_notMem_quoted (ps : List Piece) : .char '\t' ∉ quoted ps := by
  have hps (p : Piece) : .char '\t' ∉ p.text := notMem_text p (.inl rfl)
  simp [quoted, hps]

lemma tab_notMem_flowWord (h : IsFlowWord t) : .char '\t' ∉ t := by
  intro hmem
  obtain ⟨d, hd, hword⟩ := h.chars _ hmem
  obtain rfl := CodePoint.char.inj hd
  cases hword

lemma isInline_pieces {ps : List Piece} (h : IsFlowText (quoted ps)) :
    IsInline (ps.flatMap Piece.text) := by
  have hbody := (isFlowText_append.mp (isFlowText_cons.mp h).2).1
  intro c hc
  obtain ⟨d, rfl, hnext, hline, hparagraph⟩ := hbody c hc
  obtain ⟨p, -, hp⟩ := List.mem_flatMap.mp hc
  have hfeed : d ≠ '\n' := by
    rintro rfl
    exact notMem_text p (.inr (.inl rfl)) hp
  have hreturn : d ≠ '\r' := by
    rintro rfl
    exact notMem_text p (.inr (.inr rfl)) hp
  exact ⟨d, rfl, by simp [isBreak, hfeed, hreturn, hnext, hline, hparagraph]⟩

namespace TokenReader

/-- A spelling starts a word of a flow collection. -/
lemma startsFlowWord_spelling (s : Spelling) (u : Text) : StartsFlowWord (s.toText ++ u) := by
  cases s with
  | null => exact startsFlowWord_flowWord isFlowWord_null u
  | bool b => cases b <;> exact ⟨_, _, rfl, by decide, by decide⟩
  | number l => exact startsFlowWord_flowWord (isFlowWord_text l) u
  | text _ => exact ⟨'"', _, rfl, by decide, by decide⟩
  | emptyArray _ | array _ _ => exact ⟨'[', _, rfl, by decide, by decide⟩
  | emptyObject _ | object _ _ => exact ⟨'\x7b', _, rfl, by decide, by decide⟩

lemma startsFlowWord_items (is : Items) (u : Text) : StartsFlowWord (is.toText ++ u) := by
  cases is <;> rw [Items.toText, List.append_assoc] <;> exact startsFlowWord_spelling _ _

lemma startsFlowWord_members (ms : Members) (u : Text) : StartsFlowWord (ms.toText ++ u) := by
  cases ms <;> exact ⟨'"', _, rfl, by decide, by decide⟩

/-! ### Values -/

open NodeReader (SaysIf SaysItemsIf SaysEntriesIf saysIf_scalar saysItemsIf_nil saysEntriesIf_nil)

variable {r : TokenReader} {m : Mark} {after rest : Text} {words : List Token} {depth : Nat}
  {cs : List (Nat × Candidate)} {keyAllowed : Bool} {c : Char} {p q : Prop}
  {P Q : List Token → Prop}

/-- A reader after tokens with a property, within a number of flow collections. -/
def IsPast (P : List Token → Prop) (t : Text) (words : List Token) (depth : Nat) (r : TokenReader) :
    Prop :=
  ∃ ts m cs keyAllowed, P ts ∧ Within (depth + 1) cs ∧
    r = nested (placed m t) (ts.reverse ++ words) depth cs keyAllowed

/-- What tokens are taken for may be weakened. -/
lemma LeadsIf.mapTokens {t : Text} (h : LeadsIf p (IsPast P t words depth) r)
    (hPQ : ∀ ts, P ts → Q ts) :
    LeadsIf p (IsPast Q t words depth) r := by
  refine h.imp ?_
  rintro _ ⟨ts, m, cs, keyAllowed, hts, hcs, rfl⟩
  exact ⟨ts, m, cs, keyAllowed, hPQ ts hts, hcs, rfl⟩

/-- Blanks after a value. -/
lemma LeadsIf.blanks (h : LeadsIf p (IsPast P (after ++ .char c :: rest) words depth) r)
    (hafter : ∀ d ∈ after, isSpace d = true) (hc : isAfterValue c = true) (hdepth : 0 < depth) :
    LeadsIf (p ∧ .char '\t' ∉ after) (IsPast P (.char c :: rest) words depth) r := by
  have hstart : StartsFlowWord (.char c :: rest) := by
    refine ⟨c, rest, rfl, ?_⟩
    rcases isAfterValue_iff.mp hc with rfl | rfl | rfl | rfl <;> decide
  refine h.bind ?_
  rintro _ ⟨ts, m, cs, keyAllowed, hts, hcs, rfl⟩
  refine (leadsIf_blanks hafter hstart hcs (.inr hdepth) m _).imp ?_
  rintro _ ⟨m', -, rfl⟩
  exact ⟨ts, m', cs, keyAllowed, hts, hcs, rfl⟩

/-- A collection, from its opening bracket on. -/
lemma leadsIf_collection {w : Word} {before t : Text} (hw : IsOpening c w)
    (hbefore : ∀ d ∈ before, isSpace d = true) (ht : StartsFlowWord t) (hcs : Within depth cs)
    (m : Mark) (words : List Token) (keyAllowed : Bool)
    (h : ∀ m words cs, Within (depth + 1) cs →
      LeadsIf p (IsPast P rest words depth) (nested (placed m t) words (depth + 1) cs true)) :
    LeadsIf (.char '\t' ∉ before ∧ p)
      (IsPast (fun ts => ∃ start stop us, ts = ⟨w, start, stop⟩ :: us ∧ P us) rest words depth)
      (nested (placed m (.char c :: (before ++ t))) words depth cs keyAllowed) := by
  obtain ⟨stop, cs', hcs', hopens⟩ := Runs.opens hw hcs (before ++ t) m words keyAllowed
  refine LeadsIf.of_runs hopens ((leadsIf_blanks hbefore ht hcs' (.inl rfl) _ _).bind ?_)
  rintro _ ⟨m', -, rfl⟩
  refine (h m' _ cs' hcs').imp ?_
  rintro _ ⟨us, m'', cs'', keyAllowed', hus, hcs'', rfl⟩
  exact ⟨_, m'', cs'', keyAllowed', ⟨m, stop, us, rfl, hus⟩, hcs'', by simp⟩

/-- The end of a collection. -/
lemma LeadsIf.closes {w : Word} (hw : IsClosing c w)
    (h : LeadsIf p (IsPast P (.char c :: rest) words (depth + 1)) r) :
    LeadsIf p
      (IsPast (fun ts => ∃ start stop us, ts = us ++ [⟨w, start, stop⟩] ∧ P us) rest words depth)
      r := by
  refine (h.bind (q := True) ?_).congr (by rw [and_true])
  rintro _ ⟨us, m, cs, keyAllowed, hus, hcs, rfl⟩
  obtain ⟨stop, cs', hcs', hcloses⟩ := Runs.closes hw hcs rest m (us.reverse ++ words) keyAllowed
  exact leadsIf_of_runs hcloses ⟨_, m.next c, cs', false, ⟨m, stop, us, rfl, hus⟩, hcs', by simp⟩

/-- A comma and the blanks after it. -/
lemma LeadsIf.comma {before t : Text} (hbefore : ∀ d ∈ before, isSpace d = true)
    (ht : StartsFlowWord t) (h : LeadsIf p (IsPast P (.char ',' :: (before ++ t)) words depth) r)
    (h' : ∀ m words cs, Within depth cs →
      LeadsIf q (IsPast Q rest words depth') (nested (placed m t) words depth cs true)) :
    LeadsIf (p ∧ .char '\t' ∉ before ∧ q) (IsPast (fun ts => ∃ start stop us vs,
      ts = us ++ ⟨.flowEntry, start, stop⟩ :: vs ∧ P us ∧ Q vs) rest words depth') r := by
  refine h.bind ?_
  rintro _ ⟨us, m, cs, keyAllowed, hus, hcs, rfl⟩
  obtain ⟨stop, cs', hcs', hcomma⟩ :=
    Runs.comma hcs (before ++ t) m (us.reverse ++ words) keyAllowed
  refine LeadsIf.of_runs hcomma ((leadsIf_blanks hbefore ht hcs' (.inl rfl) _ _).bind ?_)
  rintro _ ⟨m', -, rfl⟩
  refine (h' m' _ cs' hcs').imp ?_
  rintro _ ⟨vs, m'', cs'', keyAllowed', hvs, hcs'', rfl⟩
  exact ⟨_, m'', cs'', keyAllowed', ⟨m, stop, us, vs, rfl, hus, hvs⟩, hcs'', by simp⟩

/-- A collection of nothing. -/
lemma leadsIf_empty {w w' : Word} {blanks : Text} {d : Char} (hw : IsOpening c w)
    (hw' : IsClosing d w') (hblanks : ∀ d ∈ blanks, isSpace d = true) (hcs : Within depth cs)
    (rest : Text) (m : Mark) (words : List Token) (keyAllowed : Bool) :
    LeadsIf (.char '\t' ∉ blanks)
      (IsPast (fun ts => ∃ start stop start' stop', ts = [⟨w, start, stop⟩, ⟨w', start', stop'⟩])
        rest words depth)
      (nested (placed m (.char c :: (blanks ++ .char d :: rest))) words depth cs keyAllowed) := by
  have hstart : StartsFlowWord (.char d :: rest) :=
    ⟨d, rest, rfl, by cases hw' <;> decide, by cases hw' <;> decide⟩
  have hclose (m : Mark) (words : List Token) (cs : List (Nat × Candidate))
      (hcs : Within (depth + 1) cs) :
      LeadsIf True
        (IsPast (fun ts => ∃ start stop, ts = [⟨w', start, stop⟩]) rest words depth)
        (nested (placed m (.char d :: rest)) words (depth + 1) cs true) := by
    obtain ⟨stop, cs', hcs', hcloses⟩ := Runs.closes hw' hcs.succ rest m words true
    exact leadsIf_of_runs hcloses ⟨_, m.next d, cs', false, ⟨m, stop, rfl⟩, hcs', rfl⟩
  have hcollection := leadsIf_collection hw hblanks hstart hcs m words keyAllowed hclose
  refine (hcollection.congr (by rw [and_true])).mapTokens ?_
  rintro _ ⟨start, stop, _, rfl, start', stop', rfl⟩
  exact ⟨start, stop, start', stop', rfl⟩

/-- An entry, from its name on. -/
lemma leadsIf_entry {t : Text} (n : Name) (hn : IsFlowText n.text) (ht : StartsFlowWord t)
    (hdepth : 0 < depth) (hcs : Within depth cs) (m : Mark) (words : List Token)
    (h : ∀ m words cs, Within depth cs →
      LeadsIf p (IsPast P (.char c :: rest) words depth)
        (nested (placed m t) words depth cs false)) :
    LeadsIf (.char '\t' ∉ n.text ∧ p)
      (IsPast (fun ts => ∃ us vs, ts = us ++ vs ∧
        IsNameTokens n.IsNarrow (Json.seenContent n.pieces) us ∧ P vs)
        (.char c :: rest) words depth)
      (nested (placed m (n.text ++ t)) words depth cs true) := by
  have hps := isInline_pieces (isFlowText_append.mp hn).1
  have hname := leadsIf_name n hps ht hdepth hcs m words
  refine (hname.congr (by simp [Name.text, tab_notMem_quoted])).bind ?_
  rintro _ ⟨us, m', cs', hus, hcs', rfl⟩
  refine (h m' _ cs' hcs').imp ?_
  rintro _ ⟨vs, m'', cs'', keyAllowed, hvs, hcs'', rfl⟩
  exact ⟨us ++ vs, m'', cs'', keyAllowed, ⟨us, vs, rfl, hus, hvs⟩, hcs'', by simp⟩

/-- A word or a number, with the blanks after it. -/
lemma leadsIf_plain {v : Value} (ht : IsFlowWord t)
    (hv : ∀ start, scalarValue (.ofPlain t) t start = .ok v)
    (hafter : ∀ d ∈ after, isSpace d = true) (hc : isAfterValue c = true) (hdepth : 0 < depth)
    (hcs : Within depth cs) :
    LeadsIf (.char '\t' ∉ t ∧ .char '\t' ∉ after)
      (IsPast (SaysIf True · v) (.char c :: rest) words depth)
      (nested (placed m (t ++ (after ++ .char c :: rest))) words depth cs keyAllowed) := by
  have hword := leadsIf_flowWord ht hafter hc hdepth hcs rest m words keyAllowed
  refine (hword.imp ?_).congr (by simp [tab_notMem_flowWord ht])
  rintro _ ⟨m', stop, cs', keyAllowed', hcs', rfl⟩
  exact ⟨[⟨.scalar t true, m, stop⟩], m', cs', keyAllowed', saysIf_scalar (hv m), hcs', rfl⟩

/-- A text between double quotes. -/
lemma leadsIf_text (ps : List Piece) (hps : IsFlowText (quoted ps)) (hcs : Within depth cs) :
    LeadsIf (.char '\t' ∉ quoted ps)
      (IsPast (SaysIf True · (.text (Json.seenContent ps))) rest words depth)
      (nested (placed m (quoted ps ++ rest)) words depth cs keyAllowed) := by
  have hwithin :=
    ((hcs.freshAt m).added m words keyAllowed).freshAt (placed (m.after (quoted ps)) rest).mark
  obtain ⟨stop, hruns⟩ := runs_text ps (isInline_pieces hps) hcs rest m words keyAllowed
  exact (leadsIf_of_runs hruns
    ⟨[⟨.scalar _ false, m, stop⟩], _, _, false, saysIf_scalar rfl, hwithin, rfl⟩).congr
    (by simp [tab_notMem_quoted])

open Json (Literal toValues toEntries)

/-- The tokens of a mapping in braces with a value, under a condition. -/
structure SaysMappingIf (p : Prop) (ts : List Token) (v : Value) : Prop where
  starts : ∃ start stop us, ts = ⟨.flowMappingStart, start, stop⟩ :: us
  saysIf : SaysIf p ts v

lemma leadsIf_emptyObject (blanks : Blanks) (hcs : Within depth cs) :
    LeadsIf (.char '\t' ∉ (Spelling.emptyObject blanks).toText)
      (IsPast (SaysMappingIf (Spelling.emptyObject blanks).HasNarrowNames ·
        (Spelling.emptyObject blanks).seen.toValue) rest words depth)
      (nested (placed m ((Spelling.emptyObject blanks).toText ++ rest)) words depth cs
        keyAllowed) := by
  have hempty := leadsIf_empty .mapping .mapping blanks.property hcs rest m words keyAllowed
  simp only [Spelling.toText, List.cons_append, List.append_assoc, List.nil_append]
  refine (hempty.mapTokens ?_).congr (by simp)
  rintro _ ⟨start, stop, start', stop', rfl⟩
  exact ⟨⟨start, stop, _, rfl⟩, saysEntriesIf_nil.saysIf⟩

lemma leadsIf_object (before : Blanks) (ms : Members) (hcs : Within depth cs) (m : Mark)
    (words : List Token) (keyAllowed : Bool)
    (h : ∀ m words cs, Within (depth + 1) cs →
      LeadsIf (.char '\t' ∉ ms.toText)
        (IsPast (SaysEntriesIf ms.HasNarrowNames · (toEntries ms.seen)) rest words depth)
        (nested (placed m (ms.toText ++ rest)) words (depth + 1) cs true)) :
    LeadsIf (.char '\t' ∉ (Spelling.object before ms).toText)
      (IsPast (SaysMappingIf (Spelling.object before ms).HasNarrowNames ·
        (Spelling.object before ms).seen.toValue) rest words depth)
      (nested (placed m ((Spelling.object before ms).toText ++ rest)) words depth cs
        keyAllowed) := by
  have hcollection :=
    leadsIf_collection .mapping before.property (startsFlowWord_members ms _) hcs m words
      keyAllowed h
  simp only [Spelling.toText, List.cons_append, List.append_assoc]
  refine (hcollection.mapTokens ?_).congr (by simp)
  rintro _ ⟨start, stop, us, rfl, hus⟩
  rw [Spelling.seen, Json.toValue_bindAll]
  exact ⟨⟨start, stop, us, rfl⟩, hus.saysIf⟩

mutual

/-- A value with the blanks after it. -/
theorem leadsIf_spelling (s : Spelling) (hshort : s.EveryNumber Literal.IsShort)
    (htext : IsFlowText s.toText) {after : Text} (hafter : ∀ d ∈ after, isSpace d = true) {c : Char}
    (hc : isAfterValue c = true) {depth : Nat} (hdepth : 0 < depth) {cs : List (Nat × Candidate)}
    (hcs : Within depth cs) (rest : Text) (m : Mark) (words : List Token) (keyAllowed : Bool) :
    LeadsIf (.char '\t' ∉ s.toText ∧ .char '\t' ∉ after)
      (IsPast (SaysIf s.HasNarrowNames · s.seen.toValue) (.char c :: rest) words depth)
      (nested (placed m (s.toText ++ (after ++ .char c :: rest))) words depth cs keyAllowed) := by
  match s with
  | .null => exact leadsIf_plain isFlowWord_null isSpelling_null.scalarValue_eq hafter hc hdepth hcs
  | .bool true =>
    exact leadsIf_plain isFlowWord_true isSpelling_true.scalarValue_eq hafter hc hdepth hcs
  | .bool false =>
    exact leadsIf_plain isFlowWord_false isSpelling_false.scalarValue_eq hafter hc hdepth hcs
  | .number l =>
    exact leadsIf_plain (isFlowWord_text l) (scalarValue_number l hshort) hafter hc hdepth hcs
  -- A text is in one line, so its blanks go to what comes after it.
  | .text ps => exact (leadsIf_text ps htext hcs).blanks hafter hc hdepth
  | .emptyArray blanks =>
    have hempty :=
      leadsIf_empty .sequence .sequence blanks.property hcs (after ++ .char c :: rest) m words
        keyAllowed
    simp only [Spelling.toText, List.cons_append, List.append_assoc, List.nil_append]
    refine ((hempty.mapTokens ?_).blanks hafter hc hdepth).congr (by simp)
    rintro _ ⟨start, stop, start', stop', rfl⟩
    exact saysItemsIf_nil.saysIf
  | .emptyObject blanks =>
    refine LeadsIf.blanks ?_ hafter hc hdepth
    exact (leadsIf_emptyObject blanks hcs).mapTokens fun _ => SaysMappingIf.saysIf
  | .array before is =>
    -- The items end at the closing bracket, and the blanks after it are passed over.
    have htext := (isFlowText_append.mp (isFlowText_cons.mp htext).2).2
    have hcollection :=
      leadsIf_collection .sequence before.property (startsFlowWord_items is _) hcs m words
        keyAllowed fun m words _ hcs =>
        leadsIf_items is hshort htext hcs (after ++ .char c :: rest) m words true
    simp only [Spelling.toText, List.cons_append, List.append_assoc]
    refine ((hcollection.mapTokens ?_).blanks hafter hc hdepth).congr (by simp)
    rintro _ ⟨start, stop, us, rfl, hus⟩
    exact hus.saysIf
  | .object before ms =>
    -- The members end at the closing brace in the same way.
    have htext := (isFlowText_append.mp (isFlowText_cons.mp htext).2).2
    have hobject := leadsIf_object before ms hcs m words keyAllowed fun m words _ hcs =>
      leadsIf_members ms hshort htext hcs (after ++ .char c :: rest) m words
    exact (hobject.mapTokens fun _ => SaysMappingIf.saysIf).blanks hafter hc hdepth

/-- Some items up to the end of their sequence. -/
theorem leadsIf_items (is : Items) (hshort : is.EveryNumber Literal.IsShort)
    (htext : IsFlowText is.toText) {depth : Nat} {cs : List (Nat × Candidate)}
    (hcs : Within (depth + 1) cs) (rest : Text) (m : Mark) (words : List Token)
    (keyAllowed : Bool) :
    LeadsIf (.char '\t' ∉ is.toText)
      (IsPast (SaysItemsIf is.HasNarrowNames · (toValues is.seen)) rest words depth)
      (nested (placed m (is.toText ++ rest)) words (depth + 1) cs keyAllowed) := by
  match is with
  | .last item after =>
    -- The closing bracket ends the last item and the sequence.
    have hitem :=
      leadsIf_spelling item hshort (isFlowText_append.mp htext).1 after.property (c := ']')
        (by decide) (Nat.succ_pos depth) hcs rest m words keyAllowed
    simp only [Items.toText, List.append_assoc, List.singleton_append]
    refine ((hitem.closes .sequence).mapTokens ?_).congr (by simp)
    rintro _ ⟨start, stop, us, rfl, hus⟩
    exact hus.saysItemsIf
  | .more item after before is =>
    -- A comma ends the item, and the other items follow after its blanks.
    obtain ⟨hitemText, htext⟩ := isFlowText_append.mp htext
    have htext := (isFlowText_append.mp (isFlowText_cons.mp (isFlowText_append.mp htext).2).2).2
    have hitem := leadsIf_spelling item hshort.1 hitemText after.property (c := ',') (by decide)
      (Nat.succ_pos depth) hcs (before.val ++ (is.toText ++ rest)) m words keyAllowed
    have hmore := hitem.comma before.property (startsFlowWord_items is rest) fun m words _ hcs =>
      leadsIf_items is hshort.2 htext hcs rest m words true
    simp only [Items.toText, List.append_assoc, List.cons_append]
    refine (hmore.mapTokens ?_).congr (by simp [and_assoc])
    rintro _ ⟨start, stop, us, vs, rfl, hus, hvs⟩
    exact SaysItemsIf.cons hus hvs

/-- Some entries up to the end of their mapping. -/
theorem leadsIf_members (ms : Members) (hshort : ms.EveryNumber Literal.IsShort)
    (htext : IsFlowText ms.toText) {depth : Nat} {cs : List (Nat × Candidate)}
    (hcs : Within (depth + 1) cs) (rest : Text) (m : Mark) (words : List Token) :
    LeadsIf (.char '\t' ∉ ms.toText)
      (IsPast (SaysEntriesIf ms.HasNarrowNames · (toEntries ms.seen)) rest words depth)
      (nested (placed m (ms.toText ++ rest)) words (depth + 1) cs true) := by
  match ms with
  | .last name value after =>
    -- The closing brace ends the last value and the mapping.
    obtain ⟨hnameText, htext⟩ := isFlowText_append.mp htext
    have hentry :=
      leadsIf_entry name hnameText (startsFlowWord_spelling value _) (Nat.succ_pos depth) hcs m
        words fun m words _ hcs =>
        leadsIf_spelling value hshort (isFlowText_append.mp htext).1 after.property (c := '\x7d')
          (by decide) (Nat.succ_pos depth) hcs rest m words false
    simp only [Members.toText, List.append_assoc, List.singleton_append]
    refine ((hentry.closes .mapping).mapTokens ?_).congr (by simp)
    rintro _ ⟨start, stop, _, rfl, us, vs, rfl, hus, hvs⟩
    rw [List.append_assoc, Members.hasNarrowNames_last]
    exact hvs.saysEntriesIf hus
  | .more name value after before ms =>
    -- A comma ends the entry, and the next name is a key again.
    obtain ⟨hnameText, htext⟩ := isFlowText_append.mp htext
    obtain ⟨hvalueText, htext⟩ := isFlowText_append.mp htext
    have htext := (isFlowText_append.mp (isFlowText_cons.mp (isFlowText_append.mp htext).2).2).2
    have hentry :=
      leadsIf_entry name hnameText (startsFlowWord_spelling value _) (Nat.succ_pos depth) hcs m
        words fun m words _ hcs =>
        leadsIf_spelling value hshort.1 hvalueText after.property (c := ',') (by decide)
          (Nat.succ_pos depth) hcs (before.val ++ (ms.toText ++ rest)) m words false
    have hmore := hentry.comma before.property (startsFlowWord_members ms rest) fun m words _ hcs =>
      leadsIf_members ms hshort.2 htext hcs rest m words
    simp only [Members.toText, List.append_assoc, List.cons_append]
    refine (hmore.mapTokens ?_).congr (by simp [and_assoc])
    rintro _ ⟨start, stop, _, ws, rfl, ⟨us, vs, rfl, hus, hvs⟩, hws⟩
    rw [List.append_assoc, Members.hasNarrowNames_more]
    exact SaysEntriesIf.cons hus hvs hws

end

/-! ### Documents -/

open Json (Document)

/-- An object that is all of a document. -/
lemma leadsIf_root {s : Spelling} (hs : s.IsObject) (hshort : s.EveryNumber Literal.IsShort)
    (htext : IsFlowText s.toText) (rest : Text) (m : Mark) :
    LeadsIf (.char '\t' ∉ s.toText)
      (IsPast (SaysMappingIf s.HasNarrowNames · s.seen.toValue) rest [] 0)
      (nested (placed m (s.toText ++ rest)) [] 0 [] true) := by
  match s with
  | .emptyObject blanks => exact leadsIf_emptyObject blanks within_nil
  | .object before ms =>
    have htext := (isFlowText_append.mp (isFlowText_cons.mp htext).2).2
    exact leadsIf_object before ms within_nil m [] true fun m words _ hcs =>
      leadsIf_members ms hshort htext hcs rest m words

/-- The words of a document in front of a comment. -/
theorem leadsIf_document (d : Document) (hobject : d.spelling.IsObject)
    (hshort : d.EveryNumber Literal.IsShort) (htext : IsFlowText d.toText) :
    LeadsIf (.char '\t' ∉ d.toText)
      (fun r => ∃ ts m, SaysMappingIf d.spelling.HasNarrowNames ts d.spelling.seen.toValue ∧
        ∀ fuel, r.run (fuel + 1) = ⟨ts, .ok m⟩)
      (.start (placed .origin (d.toText ++ "\n# x"))) := by
  have htext := (isFlowText_append.mp (isFlowText_append.mp htext).2).1
  have hwhole : d.toText ++ ("\n# x" : Text)
      = d.before.val ++ (d.spelling.toText ++ (d.after.val ++ "\n# x")) := by
    simp [Document.toText]
  have hstart := startsFlowWord_spelling d.spelling (d.after.val ++ "\n# x")
  have hroot : LeadsIf (.char '\t' ∉ d.before.val ∧ .char '\t' ∉ d.spelling.toText)
      (IsPast (SaysMappingIf d.spelling.HasNarrowNames · d.spelling.seen.toValue)
        (d.after.val ++ "\n# x") [] 0) (.start (placed .origin (d.toText ++ "\n# x"))) := by
    rw [hwhole]
    refine LeadsIf.bind
      (leadsIf_blanks d.before.property hstart (within_nil : Within 0 []) (.inl rfl) .origin []) ?_
    rintro _ ⟨m, -, rfl⟩
    exact leadsIf_root hobject hshort htext _ m
  -- After the value only blanks and the comment are left, and the stream ends.
  refine LeadsIf.congr (hroot.bind (q := .char '\t' ∉ d.after.val) ?_)
    (by simp [Document.toText, and_assoc])
  rintro _ ⟨ts, m, cs, keyAllowed, hts, hcs, rfl⟩
  refine (leadsIf_comment d.after.property hcs m _ keyAllowed).imp ?_
  rintro r ⟨m', hend⟩
  simp only [List.append_nil, List.reverse_reverse] at hend
  exact ⟨ts, m', hts, hend⟩

end TokenReader

/-! ### Values of documents -/

open Json (Document Literal)
open NodeReader (YieldsIf ofTokens?_flowMapping)
open TokenReader (leadsIf_document ofSource_of_runs ofSource_of_fails)

/-- None of the characters that end a line only in YAML is in a text. -/
def HasNoSeparators (t : Text) : Prop :=
  ∀ c ∈ t, c ≠ .char '\x85' ∧ c ≠ .char '\u2028' ∧ c ≠ .char '\u2029'

instance (t : Text) : Decidable (HasNoSeparators t) := inferInstanceAs (Decidable (∀ c ∈ t, _))

lemma HasNoSeparators.isFlowText {t : Text} (h : HasNoSeparators t) (ht : IsAcceptableText t) :
    IsFlowText t := by
  intro c hc
  cases c with
  | lone half => cases ht _ hc
  | char d => exact ⟨d, rfl, by simpa using h _ hc⟩

/-- The reader takes all words of a document, and all names for keys. -/
structure IsReadable (d : Document) : Prop where
  isAcceptable : IsAcceptableText d.toText
  tab_notMem : .char '\t' ∉ d.toText
  hasNarrowNames : d.spelling.HasNarrowNames

/-- A document is spelled by the rules that JSON and YAML share. -/
structure IsShared (d : Document) : Prop extends IsReadable d where
  isYaml : d.spelling.IsYaml

/-- An object in front of a comment is read to what is seen in it, if all of it can be read. -/
theorem read_document (d : Document) (hobject : d.spelling.IsObject)
    (hshort : d.EveryNumber Literal.IsShort) (hseparators : HasNoSeparators d.toText) :
    YieldsIf (IsReadable d) (read (d.toText ++ "\n# x")) d.spelling.seen.toValue := by
  -- A character that no document may hold is refused before anything is read.
  by_cases hacceptable : IsAcceptableText d.toText
  case neg =>
    have hwhole : ¬ IsAcceptableText (d.toText ++ "\n# x") := fun h =>
      hacceptable fun c hc => h c (List.mem_append_left _ hc)
    obtain ⟨e, he⟩ := read_eq_error_of_not_isAcceptableText hwhole
    exact ⟨fun h => absurd h.isAcceptable hacceptable, fun _ => ⟨e, he, trivial⟩⟩
  have hwhole : IsAcceptableText (d.toText ++ "\n# x") :=
    List.forall_mem_append.mpr ⟨hacceptable, by decide⟩
  have hcompose := compose_eq_of_isAcceptableText hwhole (d.head?_append_ne (by decide))
  obtain ⟨hreads, hfails⟩ := leadsIf_document d hobject hshort (hseparators.isFlowText hacceptable)
  by_cases htab : .char '\t' ∉ d.toText
  · -- Without a tab the tokens are those of the mapping, and they are built to its value.
    obtain ⟨r, ⟨ts, m, ⟨⟨start, stop, us, rfl⟩, n, hn, hv⟩, hend⟩, hruns⟩ := hreads htab
    have hnode := ofTokens?_flowMapping (m := m) hn
    rw [← ofSource_of_runs hruns hend, ← hcompose] at hnode
    have hvalue : n.value = .ok d.spelling.seen.toValue :=
      congrArg (Except.mapError Fault.failure) hv
    exact (hnode.map hvalue).congr ⟨fun h => ⟨hacceptable, htab, h⟩, IsReadable.hasNarrowNames⟩
  · -- At a tab between the tokens the reader stops.
    obtain ⟨ts, e, htokens, hready⟩ := ofSource_of_fails (hfails htab)
    obtain ⟨e', he'⟩ : ∃ e', Node.ofTokens? ⟨ts, .error e⟩ = .error e' := ofTokens?_eq_error hready
    refine ⟨fun h => absurd h.tab_notMem htab, fun _ => ⟨e', ?_, trivial⟩⟩
    rw [read, hcompose, htokens, he']
    rfl

end Schematic.Yaml
