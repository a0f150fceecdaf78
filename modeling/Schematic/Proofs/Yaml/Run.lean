import Schematic.Proofs.Fault
import Schematic.Proofs.Yaml.Moves
import Schematic.Proofs.Yaml.Plain

/-!
# Runs of the reader of tokens

`Runs r r'` says that the reader comes from `r` to `r'`: a whole document that is read from the one
on gives the same words as from the other. Apart from steps, a reader may skip blanks, give up
candidates that are on an earlier line, and close a block that ends here; a document that cannot be
read fails from all states on the way. `LeadsIf p Q r` is both at once: the reader comes from `r` to
one with `Q` if `p`, and the document cannot be read otherwise.
-/

namespace Schematic.Yaml

open Source

/-- The words of a document and the place of its end, or nothing where reading fails. -/
def Tokens.whole? (ts : Tokens) : Option (List Token × Mark) :=
  match ts.stop with
  | .ok m => some (ts.ready, m)
  | .error _ => none

namespace TokenReader

variable {r s u : TokenReader}

/-- From one reader to another, at most one step for each character in between. -/
def Runs (r s : TokenReader) : Prop :=
  ∃ k, s.source.length + k ≤ r.source.length ∧
    ∀ fuel, (r.run (fuel + 1 + k)).whole? = (s.run (fuel + 1)).whole?

/-- The document cannot be read from here on. -/
def Fails (r : TokenReader) : Prop :=
  ∀ fuel, r.source.length < fuel → (r.run fuel).whole? = none

@[refl] lemma Runs.refl (r : TokenReader) : Runs r r := ⟨0, Nat.le_refl _, fun _ => rfl⟩

/-- Two runs make one. -/
lemma Runs.trans (h : Runs r s) (h' : Runs s u) : Runs r u := by
  obtain ⟨k, hk, hrun⟩ := h
  obtain ⟨l, hl, hrun'⟩ := h'
  refine ⟨l + k, by omega, fun fuel => ?_⟩
  rw [← hrun' fuel, show fuel + 1 + (l + k) = fuel + l + 1 + k by omega, hrun,
    show fuel + l + 1 = fuel + 1 + l by omega]

/-- A run to a reader that fails is one of a reader that fails. -/
lemma Runs.fails (h : Runs r s) (hs : Fails s) : Fails r := by
  obtain ⟨k, hk, hrun⟩ := h
  intro fuel hfuel
  obtain ⟨f, rfl⟩ : ∃ f, fuel = f + 1 + k := ⟨fuel - 1 - k, by omega⟩
  rw [hrun]
  exact hs _ (by omega)

/-- A step is a run. -/
lemma Runs.of_step (h : r.step = .ok (some s)) (hlength : s.source.length < r.source.length) :
    Runs r s := by
  refine ⟨1, hlength, fun fuel => ?_⟩
  rw [run, h]

lemma Fails.of_step {e : Failure} (h : r.step = .error e) : Fails r := by
  intro fuel hfuel
  obtain ⟨f, rfl⟩ : ∃ f, fuel = f + 1 := ⟨fuel - 1, by omega⟩
  rw [run, h]
  rfl

/-- Readers that look at the next word alike, and finish alike, run alike. -/
lemma Runs.of_ready (hlength : s.source.length ≤ r.source.length) (h : r.ready = s.ready)
    (hfinish : r.finish = s.finish) : Runs r s := by
  refine ⟨0, hlength, fun fuel => ?_⟩
  have heq : r.step = s.step := by rw [step_eq r, step_eq s, h]
  rw [Nat.add_zero, run, run, heq, hfinish]
  cases s.step with
  | error e => rfl
  | ok o =>
    cases o with
    | some s => rfl
    | none => cases s.finish <;> rfl

/-- Blanks, and candidates that are given up after them, make no difference. -/
lemma Runs.of_dropStale (hlength : s.source.length ≤ r.source.length)
    (h : r.skipBlanks.dropStale = s.skipBlanks.dropStale) : Runs r s := by
  refine Runs.of_ready hlength ?_ ?_
  · rw [ready, ready, h]
  · rw [finish, finish, h]

/-! ### Runs under a condition -/

/-- Under a condition a reader comes to one with a property; otherwise the document cannot be
read. -/
def LeadsIf (p : Prop) (Q : TokenReader → Prop) (r : TokenReader) : Prop :=
  (p → ∃ s, Q s ∧ Runs r s) ∧ (¬ p → Fails r)

section

variable {p q : Prop} {P Q : TokenReader → Prop}

lemma LeadsIf.of_runs (h : Runs r s) (h' : LeadsIf p Q s) : LeadsIf p Q r := by
  refine ⟨fun hp => ?_, fun hp => h.fails (h'.2 hp)⟩
  obtain ⟨u, hu, hruns⟩ := h'.1 hp
  exact ⟨u, hu, h.trans hruns⟩

lemma leadsIf_of_runs (h : Runs r s) (hQ : Q s) : LeadsIf True Q r :=
  ⟨fun _ => ⟨s, hQ, h⟩, fun hp => absurd trivial hp⟩

lemma LeadsIf.congr (h : LeadsIf p Q r) (hpq : p ↔ q) : LeadsIf q Q r := by
  rwa [← propext hpq]

lemma LeadsIf.imp (h : LeadsIf p P r) (hPQ : ∀ s, P s → Q s) : LeadsIf p Q r := by
  refine ⟨fun hp => ?_, h.2⟩
  obtain ⟨s, hs, hruns⟩ := h.1 hp
  exact ⟨s, hPQ s hs, hruns⟩

/-- One run after another. -/
lemma LeadsIf.bind (h : LeadsIf p P r) (h' : ∀ s, P s → LeadsIf q Q s) : LeadsIf (p ∧ q) Q r := by
  by_cases hp : p
  · obtain ⟨s, hs, hruns⟩ := h.1 hp
    exact ((h' s hs).of_runs hruns).congr (by simp [hp])
  · exact ⟨fun hpq => absurd hpq.1 hp, fun _ => h.2 hp⟩

end

/-! ### Readers in blocks -/

/-- A reader outside of flow collections in front of a text, with no word that may turn out to be a
key. -/
def inBlock (m : Mark) (t : Text) (words : List Token) (indent : Int) (outers : List Int)
    (keyAllowed : Bool) : TokenReader where
  source := ofText m t
  produced := words
  count := words.length
  indent := indent
  outerIndents := outers
  flowLevel := 0
  keyAllowed := keyAllowed
  candidates := []

variable {m : Mark} {t : Text} {words : List Token} {indent outer : Int} {outers : List Int}
  {keyAllowed : Bool}

lemma closeBlocks_congr (column : Int) (outers : List Int) (indent i j : Int) (is js : List Int) :
    closeBlocks column outers indent (inBlock m t words i is keyAllowed)
      = closeBlocks column outers indent (inBlock m t words j js keyAllowed) := by
  induction outers generalizing indent words with
  | nil => rfl
  | cons outer outers ih =>
    rw [closeBlocks, closeBlocks]
    split
    · exact ih outer
    · rfl

/-- A block ends when the next word is further to the left. -/
lemma unwind_inBlock {column : Int} (hcolumn : column < indent) :
    (inBlock m t words indent (outer :: outers) keyAllowed).unwind column
      = (inBlock m t (⟨.blockEnd, (ofText m t).mark, (ofText m t).mark⟩ :: words) outer outers
          keyAllowed).unwind column := by
  change closeBlocks column (outer :: outers) indent (inBlock m t words indent (outer :: outers)
    keyAllowed) = closeBlocks column outers outer _
  rw [closeBlocks, if_pos hcolumn]
  exact closeBlocks_congr column outers outer indent outer (outer :: outers) outers

lemma unwind_inBlock_self {column : Int} (hcolumn : indent ≤ column) :
    (inBlock m t words indent outers keyAllowed).unwind column
      = inBlock m t words indent outers keyAllowed := by
  change closeBlocks column outers indent _ = _
  cases outers with
  | nil => rfl
  | cons outer outers =>
    rw [closeBlocks, if_neg (Int.not_lt.mpr hcolumn)]
    rfl

lemma dropStale_inBlock : (inBlock m t words indent outers keyAllowed).dropStale
    = .ok (inBlock m t words indent outers keyAllowed) := rfl

/-- At the start of a line there is nothing to skip. -/
lemma nextWord_line (h : StartsLine t ∨ t = []) (broken : Bool) (m : Mark) :
    nextWord false broken (ofText m t) = (broken, ofText m t) := by
  rcases h with h | rfl
  · obtain ⟨c, u, rfl, hlow, hhigh⟩ := h.startsWord
    have hcomment : c ≠ '#' := by
      rintro rfl
      exact h.noComment rfl
    rw [ofText_char, nextWord]
    simp [not_isBreak_of_printable (Char.not_lt.mp (Char.lt_asymm hlow)) hhigh,
      ne_space_of_lt hlow, hcomment]
  · rfl

lemma skipBlanks_inBlock (h : StartsLine t ∨ t = []) :
    (inBlock m t words indent outers keyAllowed).skipBlanks
      = inBlock m t words indent outers keyAllowed := by
  have hsource : (inBlock m t words indent outers keyAllowed).source = ofText m t := rfl
  rw [skipBlanks, hsource, nextWord_line h]
  simp [inBlock]

lemma Runs.blockEnd (h : StartsLine t ∨ t = []) (hm : ((ofText m t).mark.column : Int) < indent)
    (hindent : (-1 : Int) < indent) :
    ∃ place, Runs (inBlock m t words indent (outer :: outers) keyAllowed)
      (inBlock m t (⟨.blockEnd, place, place⟩ :: words) outer outers keyAllowed) := by
  refine ⟨(ofText m t).mark, Runs.of_ready (Nat.le_refl _) ?_ ?_⟩
  · rw [ready, ready, skipBlanks_inBlock h, skipBlanks_inBlock h, dropStale_inBlock,
      dropStale_inBlock]
    exact congrArg Except.ok (unwind_inBlock hm)
  · rw [finish, finish, skipBlanks_inBlock h, skipBlanks_inBlock h, dropStale_inBlock,
      dropStale_inBlock, ok_bind, ok_bind, unwind_inBlock hindent]

/-- The next word of a line that belongs to the present block. -/
lemma step_inBlock {c : Char} (h : StartsLine (.char c :: t)) (hm : indent ≤ m.column) :
    (inBlock m (.char c :: t) words indent outers keyAllowed).step
      = (inBlock m (.char c :: t) words indent outers keyAllowed).word c (ofText (m.next c) t) >>=
          fun r => r.dropStale >>= fun r => .ok (some r) := by
  have hmark : (inBlock m (.char c :: t) words indent outers keyAllowed).mark = m := rfl
  rw [step, skipBlanks_inBlock (.inl h), dropStale_inBlock, ok_bind, hmark,
    unwind_inBlock_self hm]
  rfl

end TokenReader

end Schematic.Yaml
