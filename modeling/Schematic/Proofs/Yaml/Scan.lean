import Mathlib.Data.List.Infix
import Mathlib.Tactic.Lemma
import Mathlib.Tactic.SplitIfs
import Schematic.Proofs.Fault
import Schematic.Proofs.Text.Digit
import Schematic.Yaml.Reader

/-!
# What the readers of words leave

Every reader of a word goes over a source from its start and leaves an end of it. So what it fails
at is a part of the document. Two failures are no refusals: a version with too many digits, and an
escape by a number that is no code point. Of both the document holds the characters.
-/

namespace Schematic.Yaml

variable {α β : Type}

/-! ### Sources -/

namespace Source

/-- The characters of a source; those of a line break of two characters are a single one. -/
def chars : Source → List Char
  | .more c _ rest => c :: rest.chars
  | .done _ => []

/-- A source is what is left of another one. -/
def IsLeft (u s : Source) : Prop := u.chars <:+ s.chars

variable {s t u : Source} {c : Char} {m : Mark}

lemma IsLeft.refl (s : Source) : IsLeft s s := List.suffix_refl _

lemma IsLeft.trans (h : IsLeft u t) (h' : IsLeft t s) : IsLeft u s := List.IsSuffix.trans h h'

lemma isLeft_more : IsLeft s (.more c m s) := List.suffix_cons _ _

lemma IsLeft.more (h : IsLeft u s) : IsLeft u (.more c m s) := h.trans isLeft_more

lemma isLeft_tail (s : Source) : IsLeft s.tail s := by
  cases s with
  | more c m s => exact isLeft_more
  | done m => exact .refl _

lemma isLeft_drop (n : Nat) (s : Source) : IsLeft (s.drop n) s := by
  induction n generalizing s with
  | zero => exact .refl _
  | succ n ih => exact (ih s.tail).trans (isLeft_tail s)

lemma span_append_chars (p : Char → Bool) (s : Source) :
    (s.span p).1 ++ (s.span p).2.chars = s.chars := by
  induction s with
  | done m => rfl
  | more c m s ih =>
    rw [span]
    split
    · exact congrArg (c :: ·) ih
    · rfl

lemma of_mem_span {p : Char → Bool} {s : Source} (h : c ∈ (s.span p).1) : p c = true := by
  induction s with
  | done m => simp [span] at h
  | more d m s ih =>
    rw [span] at h
    split at h
    case isTrue hd =>
      rcases List.mem_cons.mp h with rfl | h
      · exact hd
      · exact ih h
    case isFalse => simp at h

lemma isLeft_span (p : Char → Bool) (s : Source) : IsLeft (s.span p).2 s :=
  ⟨_, span_append_chars p s⟩

lemma isLeft_skip (p : Char → Bool) (s : Source) : IsLeft (s.skip p) s := isLeft_span p s

lemma isLeft_skipSpaces (s : Source) : IsLeft s.skipSpaces s := isLeft_skip _ s

lemma isLeft_skipComment (s : Source) : IsLeft s.skipComment s := by
  unfold skipComment
  split
  · exact isLeft_skip _ s
  · exact .refl s

lemma isLeft_skipBreak (s : Source) : IsLeft s.skipBreak s := by
  unfold skipBreak
  split
  · exact isLeft_tail s
  · exact .refl s

end Source

/-! ### Failures -/

def hexValue (digits : List Char) : Nat :=
  digits.foldl (fun n c => n * 16 + (CodePoint.char c).hexDigit?.getD 0) 0

/-- The characters are blanks, digits and points. -/
def IsVersionPart (cs : List Char) : Prop := ∀ c ∈ cs, c = ' ' ∨ c = '.' ∨ ('0' ≤ c ∧ c ≤ '9')

/-- Some characters hold what a reader of words fails at, if it does not refuse them. -/
inductive Failure.IsFoundIn (cs : List Char) : Failure → Prop
  /-- The reader refuses the characters. -/
  | refused (e : Error) : IsFoundIn cs (.refused e)
  /-- A version has too many digits. -/
  | version (before digits : List Char) (hbefore : IsVersionPart before)
      (hdigits : ∀ c ∈ digits, '0' ≤ c ∧ c ≤ '9') (hlength : 4300 < digits.length)
      (h : '%' :: 'Y' :: 'A' :: 'M' :: 'L' :: (before ++ digits) <:+: cs) :
      IsFoundIn cs (.unconverted (.tooManyDigits digits.length))
  /-- An escape by a number is past the last code point. -/
  | point (digits : List Char) (hdigits : ∀ c ∈ digits, (CodePoint.char c).hexDigit?.isSome)
      (hlength : digits.length = 8) (hvalue : 0x110000 ≤ hexValue digits)
      (h : '\\' :: 'U' :: digits <:+: cs) :
      IsFoundIn cs
        (.unconverted (if hexValue digits < 2 ^ 31 then .noCodePoint else .codePointTooLarge))

lemma Failure.IsFoundIn.mono {cs ds : List Char} {f : Failure} (h : f.IsFoundIn cs)
    (hcs : cs <:+: ds) :
    f.IsFoundIn ds := by
  cases h with
  | refused e => exact .refused e
  | version before digits hbefore hdigits hlength h =>
    exact .version before digits hbefore hdigits hlength (h.trans hcs)
  | point digits hdigits hlength hvalue h =>
    exact .point digits hdigits hlength hvalue (h.trans hcs)

open Source

/-- A reader leaves an end of a source, or fails at a part of it. -/
structure Leaves (rest : α → Source) (s : Source) (r : Except Failure α) : Prop where
  rest : ∀ a, r = .ok a → IsLeft (rest a) s
  failure : ∀ f, r = .error f → f.IsFoundIn s.chars

section

variable {rest : α → Source} {rest' : β → Source} {s t : Source} {r : Except Failure α}

lemma leaves_ok {a : α} (h : IsLeft (rest a) s) : Leaves rest s (.ok a) where
  rest := by
    rintro _ ⟨⟩
    exact h
  failure := by rintro _ ⟨⟩

lemma leaves_error {f : Failure} (h : f.IsFoundIn s.chars) : Leaves rest s (.error f) where
  rest := by rintro _ ⟨⟩
  failure := by
    rintro _ ⟨⟩
    exact h

lemma leaves_refuse (context : Option Context) (since : Option Mark) (problem : Problem)
    (mark : Mark) :
    Leaves rest s (refuse context since problem mark) := leaves_error (.refused _)

lemma Leaves.of_isLeft (h : Leaves rest t r) (hts : IsLeft t s) : Leaves rest s r where
  rest a ha := (h.rest a ha).trans hts
  failure f hf := (h.failure f hf).mono hts.isInfix

lemma Leaves.bind_of_eq {f : α → Except Failure β} (h : Leaves rest s r)
    (hf : ∀ a, r = .ok a → Leaves rest' s (f a)) : Leaves rest' s (r >>= f) := by
  cases r with
  | error e => exact leaves_error (h.failure e rfl)
  | ok a => exact hf a rfl

lemma Leaves.bind {f : α → Except Failure β} (h : Leaves rest s r)
    (hf : ∀ a, Leaves rest' (rest a) (f a)) : Leaves rest' s (r >>= f) :=
  h.bind_of_eq fun a ha => (hf a).of_isLeft (h.rest a ha)

/-- What is made of a result does not matter. -/
lemma Leaves.map {f : α → Except Failure β} (h : Leaves rest s r)
    (hf : ∀ a, ∃ b, f a = .ok b ∧ rest' b = rest a) : Leaves rest' s (r >>= f) := by
  refine h.bind fun a => ?_
  obtain ⟨b, hb, hrest⟩ := hf a
  rw [hb]
  exact leaves_ok (hrest ▸ .refl _)

/-- A computation that leaves no source only fails by refusing the document. -/
lemma Leaves.after {x : Except Failure β} {f : β → Except Failure α}
    (hx : ∀ e, x = .error e → e.IsFoundIn []) (hf : ∀ b, Leaves rest s (f b)) :
    Leaves rest s (x >>= f) := by
  cases x with
  | error e => exact leaves_error ((hx e rfl).mono (List.nil_infix))
  | ok b => exact hf b

end

/-! ### Quoted scalars -/

section

variable (start : Mark)

/-- The ends of lines in a quoted text leave an end of the source. -/
lemma leaves_quotedBreaks (atStart : Bool) (s : Source) :
    Leaves Prod.snd s (quotedBreaks start atStart s) := by
  induction s generalizing atStart with
  | done m =>
    unfold quotedBreaks
    split
    · exact leaves_refuse _ _ _ _
    · exact leaves_ok (.refl _)
  | more c m s ih =>
    unfold quotedBreaks
    split
    · exact leaves_refuse _ _ _ _
    · dsimp only
      split
      · exact (ih false).of_isLeft isLeft_more
      · split
        · exact Leaves.of_isLeft (Leaves.map (ih true) fun _ => ⟨_, rfl, rfl⟩) isLeft_more
        · exact leaves_ok (.refl _)

/-- Hexadecimal digits are read from the start of a source. -/
lemma hexNumber_inversion {count n k : Nat} {s after : Source}
    (h : hexNumber count n s = .ok (k, after)) :
    ∃ ds, ds ++ after.chars = s.chars ∧ ds.length = count ∧
      (∀ c ∈ ds, (CodePoint.char c).hexDigit?.isSome) ∧
      k = ds.foldl (fun n c => n * 16 + (CodePoint.char c).hexDigit?.getD 0) n := by
  induction count generalizing n s with
  | zero =>
    cases h
    exact ⟨[], rfl, rfl, by simp, rfl⟩
  | succ count ih =>
    -- Each digit is taken once, from the front.
    cases s with
    | done m => cases h
    | more c m s =>
      rw [hexNumber] at h
      cases hc : (CodePoint.char c).hexDigit? with
      | none =>
        rw [hc] at h
        cases h
      | some d =>
        rw [hc] at h
        obtain ⟨ds, happend, hlength, hdigits, hk⟩ := ih h
        refine ⟨c :: ds, by rw [List.cons_append, happend]; rfl, by simp [hlength], ?_, ?_⟩
        · exact List.forall_mem_cons.mpr ⟨by rw [hc]; rfl, hdigits⟩
        · rw [List.foldl_cons, hc, hk]
          rfl

/-- A number with few digits is small. -/
lemma hexValue_lt (ds : List Char) : hexValue ds < 16 ^ ds.length := by
  have hfold (n : Nat) : ds.foldl (fun n c => n * 16 + (CodePoint.char c).hexDigit?.getD 0) n
      < (n + 1) * 16 ^ ds.length := by
    induction ds generalizing n with
    | nil => simp
    | cons c ds ih =>
      have hdigit : (CodePoint.char c).hexDigit?.getD 0 < 16 := by
        cases hc : (CodePoint.char c).hexDigit? with
        | none => decide
        | some d => exact CodePoint.lt_of_hexDigit? hc
      refine Nat.lt_of_lt_of_le (ih _) ?_
      rw [List.length_cons, Nat.pow_succ, Nat.mul_comm (16 ^ ds.length) 16, ← Nat.mul_assoc]
      refine Nat.mul_le_mul_right _ ?_
      dsimp only
      omega
  simpa [hexValue] using hfold 0

/-- A number that is no code point is past the last one. -/
lemma le_of_ofNat?_eq_none {n : Nat} (h : CodePoint.ofNat? n = none) : 0x110000 ≤ n := by
  unfold CodePoint.ofNat? at h
  by_cases hvalid : n.isValidChar
  · rw [dif_pos hvalid] at h
    cases h
  · rw [dif_neg hvalid] at h
    by_cases hhalf : 0xD800 ≤ n ∧ n < 0xE000
    · rw [dif_pos hhalf] at h
      cases h
    · simp only [Nat.isValidChar] at hvalid
      omega

/-- An escape after its backslash. -/
lemma leaves_quotedEscape (m : Mark) (s : Source) :
    Leaves Prod.snd (.more '\\' m s) (quotedEscape start s) := by
  unfold quotedEscape
  split
  · exact leaves_refuse _ _ _ _
  · rename_i c m' s
    split
    · exact leaves_ok isLeft_more.more
    · rename_i count _ hcount
      split
      · rename_i n after hnumber
        obtain ⟨ds, happend, hlength, hdigits, rfl⟩ := hexNumber_inversion hnumber
        have hafter : IsLeft after s := ⟨ds, happend⟩
        unfold escapedPoint
        split
        · exact leaves_ok hafter.more.more
        · rename_i hpoint
          have hpast : 0x110000 ≤ hexValue ds := le_of_ofNat?_eq_none hpoint
          have hbound := hexValue_lt ds
          rw [hlength] at hbound
          obtain ⟨rfl, rfl⟩ : c = 'U' ∧ count = 8 := by
            -- Only eight digits can go past the last code point.
            unfold hexEscapeLength? at hcount
            split_ifs at hcount with hx hu hU
            · cases hcount
              omega
            · cases hcount
              omega
            · exact ⟨hU, (Option.some.inj hcount).symm⟩
          exact leaves_error
            (.point ds hdigits hlength hpast ⟨[], after.chars, by simp [chars, happend]⟩)
      · exact leaves_refuse _ _ _ _
    · split
      · exact Leaves.of_isLeft
          (Leaves.map (leaves_quotedBreaks start true s) fun _ => ⟨_, rfl, rfl⟩) isLeft_more.more
      · exact leaves_refuse _ _ _ _

lemma leaves_quotedBlanks (s : Source) : Leaves Prod.snd s (quotedBlanks start s) := by
  have hspan := isLeft_span isSpaceOrTab s
  unfold quotedBlanks
  dsimp only
  split
  · exact leaves_refuse _ _ _ _
  · rename_i c m rest hafter
    split
    · have hrest : IsLeft rest s := (hafter ▸ isLeft_more).trans hspan
      refine Leaves.of_isLeft (Leaves.map (leaves_quotedBreaks start true rest) ?_) hrest
      exact fun _ => ⟨_, rfl, rfl⟩
    · exact leaves_ok (hafter ▸ hspan)

/-- The body of a quoted text leaves an end of the source. -/
lemma leaves_quotedBody (double : Bool) (fuel : Nat) (s : Source) :
    Leaves Prod.snd s (quotedBody double start fuel s) := by
  induction fuel generalizing s with
  | zero => exact leaves_refuse _ _ _ _
  | succ fuel ih =>
    -- Every piece is put before the content that is read after it.
    have hmore (s : Source) (piece : Text) :
        Leaves Prod.snd s (quotedBody double start fuel s >>= fun p => .ok (piece ++ p.1, p.2)) :=
      Leaves.map (ih s) fun _ => ⟨_, rfl, rfl⟩
    cases s with
    | done m => exact leaves_refuse _ _ _ _
    | more c m s =>
      rw [quotedBody]
      split
      · split
        · exact (hmore s.tail [.char '\'']).of_isLeft (isLeft_tail s).more
        · exact leaves_ok isLeft_more
      · split
        · exact leaves_ok isLeft_more
        · split
          case isTrue h =>
            rw [h.1]
            exact (leaves_quotedEscape start m s).bind fun p => hmore p.2 p.1
          case isFalse =>
            split
            · exact (leaves_quotedBlanks start _).bind fun p => hmore p.2 p.1
            · exact (hmore s [.char c]).of_isLeft isLeft_more

lemma leaves_quotedScalar (double : Bool) (s : Source) :
    Leaves Prod.snd s (quotedScalar double s) :=
  (leaves_quotedBody s.mark double _ _).of_isLeft (isLeft_tail s)

end

/-! ### Plain scalars -/

lemma isLeft_plainPiece (inFlow : Bool) (s : Source) : IsLeft (plainPiece inFlow s).2 s := by
  induction s with
  | done m => exact .refl _
  | more c m s ih =>
    rw [plainPiece]
    split
    · exact .refl _
    · exact ih.more

lemma isLeft_plainBreaks (atStart : Bool) (s : Source) : IsLeft (plainBreaks atStart s).2 s := by
  induction s generalizing atStart with
  | done m =>
    unfold plainBreaks
    split <;> exact .refl _
  | more c m s ih =>
    unfold plainBreaks
    split
    · exact .refl _
    · dsimp only
      split
      · exact (ih false).more
      · split
        · exact (ih true).more
        · exact .refl _

lemma isLeft_plainBlanks (s : Source) : IsLeft (plainBlanks s).2.2 s := by
  have hspan := isLeft_span (· = ' ') s
  unfold plainBlanks
  dsimp only
  split
  · rename_i hafter
    exact hafter ▸ hspan
  · rename_i c m rest hafter
    split
    · have hrest : IsLeft rest s := (hafter ▸ isLeft_more).trans hspan
      exact (isLeft_plainBreaks true rest).trans hrest
    · exact hafter ▸ hspan

/-- A plain scalar leaves an end of the source. -/
lemma isLeft_plainFrom (inFlow : Bool) (indent : Int) (fuel : Nat) (gap : List Char)
    (found : Plain) :
    IsLeft (plainFrom inFlow indent fuel gap found).rest found.rest := by
  induction fuel generalizing gap found with
  | zero => exact .refl _
  | succ fuel ih =>
    have hblanks : IsLeft (plainBlanks (plainPiece inFlow found.rest).2).2.2 found.rest :=
      (isLeft_plainBlanks _).trans (isLeft_plainPiece inFlow found.rest)
    rw [plainFrom]
    split
    · exact .refl _
    · dsimp only
      split
      · exact .refl _
      · split
        · exact hblanks
        · exact (ih _ _).trans hblanks

lemma isLeft_plainScalar (inFlow : Bool) (indent : Int) (s : Source) :
    IsLeft (plainScalar inFlow indent s).rest s := isLeft_plainFrom _ _ _ _ _

/-! ### Block scalars -/

section

variable (start : Mark)

/-- An indicator of indentation is refused only. -/
lemma isFoundIn_of_increment? {s : Source} {f : Failure} (h : increment? start s = .error f) :
    f.IsFoundIn [] := by
  unfold increment? at h
  split at h
  · split at h
    · split at h
      · cases h
        exact .refused _
      · cases h
    · cases h
  · cases h

/-- The marks of a block scalar leave an end of the source. -/
lemma leaves_blockIndicators (s : Source) :
    Leaves (fun p : Chomping × Option Nat × Source => p.2.2) s (blockIndicators start s) := by
  have hend (p : Chomping × Option Nat × Source) (hp : IsLeft p.2.2 s) :
      Leaves (fun p : Chomping × Option Nat × Source => p.2.2) s
        (if p.2.2.atGap = true then .ok (p.1, p.2.1, p.2.2) else
          refuse (some .blockScalar) (some start) (.expectedIndicators p.2.2.peek) p.2.2.mark) := by
    split
    · exact leaves_ok hp
    · exact leaves_refuse _ _ _ _
  have htail := isLeft_tail s
  unfold blockIndicators
  split
  · -- The mark of chomping is first, and the increment may follow.
    rename_i chomping _
    refine Leaves.after (fun _ => isFoundIn_of_increment? start) fun increment => ?_
    refine hend (chomping, increment, if increment.isSome then s.tail.tail else s.tail) ?_
    dsimp only
    split
    · exact (isLeft_tail s.tail).trans htail
    · exact htail
  · -- The increment is first, and the mark of chomping may follow.
    refine Leaves.after (fun _ => isFoundIn_of_increment? start) fun increment => ?_
    split
    · dsimp only
      split
      · rename_i chomping _
        exact hend (chomping, increment, s.tail.tail) ((isLeft_tail s.tail).trans htail)
      · exact hend (.clip, increment, s.tail) htail
    · exact hend (.clip, none, s) (.refl s)

lemma leaves_lineEnd (context : Context) (s : Source) : Leaves id s (lineEnd context start s) := by
  have hline : IsLeft s.skipSpaces.skipComment s :=
    (isLeft_skipComment _).trans (isLeft_skipSpaces s)
  unfold lineEnd
  dsimp only
  split
  · exact leaves_ok ((isLeft_skipBreak _).trans hline)
  · exact leaves_refuse _ _ _ _

lemma isLeft_blockIndentation (s : Source) : IsLeft (blockIndentation s).2.2 s := by
  induction s with
  | done m => exact .refl _
  | more c m s ih =>
    rw [blockIndentation]
    split
    · exact ih.more
    · split
      · exact ih.more
      · exact .refl _

lemma isLeft_blockBreaks (indent : Nat) (s : Source) : IsLeft (blockBreaks indent s).2 s := by
  induction s with
  | done m => exact .refl _
  | more c m s ih =>
    rw [blockBreaks]
    split
    · exact ih.more
    · split
      · exact ih.more
      · exact .refl _

lemma isLeft_blockLines (isFolded : Bool) (indent fuel : Nat) (breaks : List Char) (s : Source) :
    IsLeft (blockLines isFolded indent fuel breaks s).2.2.2 s := by
  induction fuel generalizing breaks s with
  | zero => exact .refl s
  | succ fuel ih =>
    have hbreaks : IsLeft (blockBreaks indent (s.span fun c => !isBreak c).2.skipBreak).2 s :=
      (isLeft_blockBreaks indent _).trans ((isLeft_skipBreak _).trans (isLeft_span _ s))
    rw [blockLines]
    split
    · exact .refl s
    · dsimp only
      split
      · exact (ih _ _).trans hbreaks
      · exact hbreaks

/-- A block scalar leaves an end of the source. -/
lemma leaves_blockScalar (isFolded : Bool) (indent : Int) (s : Source) :
    Leaves Prod.snd s (blockScalar isFolded indent s) := by
  unfold blockScalar
  refine Leaves.of_isLeft (Leaves.bind (leaves_blockIndicators s.mark s.tail) fun p => ?_)
    (isLeft_tail s)
  refine (leaves_lineEnd s.mark .blockScalar p.2.2).bind fun body => ?_
  dsimp only [id]
  cases p.2.1 with
  | none => exact leaves_ok ((isLeft_blockLines _ _ _ _ _).trans (isLeft_blockIndentation body))
  | some increment =>
    exact leaves_ok ((isLeft_blockLines _ _ _ _ _).trans (isLeft_blockBreaks _ body))

end

/-! ### Tags, anchors and directives -/

section

variable (context : Context) (start : Mark)

lemma leaves_tagHandle (s : Source) : Leaves Prod.snd s (tagHandle context start s) := by
  unfold tagHandle
  split
  · rename_i m rest
    split
    · exact leaves_ok isLeft_more
    · dsimp only
      split
      · exact leaves_ok ((isLeft_tail _).trans (isLeft_span _ rest)).more
      · exact leaves_refuse _ _ _ _
  · exact leaves_refuse _ _ _ _

lemma leaves_uriBytes (fuel : Nat) (s : Source) :
    Leaves Prod.snd s (uriBytes context start fuel s) := by
  induction fuel generalizing s with
  | zero => exact leaves_ok (.refl s)
  | succ fuel ih =>
    unfold uriBytes
    split
    · rename_i m rest
      split
      · exact leaves_refuse _ _ _ _
      · rename_i n after hnumber
        obtain ⟨ds, happend, -⟩ := hexNumber_inversion hnumber
        have hafter : IsLeft after rest := ⟨ds, happend⟩
        exact Leaves.of_isLeft (Leaves.map (ih after) fun _ => ⟨_, rfl, rfl⟩) hafter.more
    · exact leaves_ok (.refl s)

lemma leaves_uriPieces (fuel : Nat) (s : Source) :
    Leaves Prod.snd s (uriPieces context start fuel s) := by
  induction fuel generalizing s with
  | zero => exact leaves_ok (.refl s)
  | succ fuel ih =>
    unfold uriPieces
    split
    · refine (leaves_uriBytes context start _ _).bind fun p => ?_
      dsimp only
      split
      · exact leaves_refuse _ _ _ _
      · exact Leaves.map (ih p.2) fun _ => ⟨_, rfl, rfl⟩
    · rename_i c m rest _
      split
      · exact Leaves.of_isLeft (Leaves.map (ih rest) fun _ => ⟨_, rfl, rfl⟩) isLeft_more
      · exact leaves_ok (.refl _)
    · exact leaves_ok (.refl _)

/-- A name of a tag leaves an end of the source. -/
lemma leaves_uri (inDirective : Bool) (s : Source) :
    Leaves Prod.snd s (uri inDirective start s) := by
  unfold uri
  refine (leaves_uriPieces _ start _ s).bind fun p => ?_
  dsimp only
  split
  · exact leaves_refuse _ _ _ _
  · exact leaves_ok (.refl _)

lemma leaves_anchorName (s : Source) : Leaves Prod.snd s (anchorName context s) := by
  unfold anchorName
  dsimp only
  split
  · exact leaves_refuse _ _ _ _
  · exact leaves_ok ((isLeft_span _ _).trans (isLeft_tail s))

/-- The digits of a number of a version are at the start of a source. -/
lemma versionNumber_inversion {s after : Source} {n : Nat}
    (h : versionNumber start s = .ok (n, after)) :
    ∃ ds, ds ++ after.chars = s.chars ∧ ∀ c ∈ ds, '0' ≤ c ∧ c ≤ '9' := by
  unfold versionNumber at h
  dsimp only at h
  split_ifs at h
  · cases h
  · cases h
    exact ⟨_, span_append_chars _ s, fun c hc => by simpa using of_mem_span hc⟩

/-- A number of a version, of which the part before it has been read. -/
lemma leaves_versionNumber {s t : Source} {before : List Char} (hbefore : IsVersionPart before)
    (h : t.chars = '%' :: 'Y' :: 'A' :: 'M' :: 'L' :: (before ++ s.chars)) :
    Leaves Prod.snd t (versionNumber start s) := by
  have hs : IsLeft s t := ⟨'%' :: 'Y' :: 'A' :: 'M' :: 'L' :: before, h.symm⟩
  unfold versionNumber
  dsimp only
  split
  · exact leaves_refuse _ _ _ _
  · split
    · rename_i hlength
      refine leaves_error (.version before _ hbefore ?_ hlength ?_)
      · exact fun c hc => by simpa using of_mem_span hc
      · rw [h, ← span_append_chars (fun c => '0' ≤ c && c ≤ '9') s, ← List.append_assoc]
        exact List.IsPrefix.isInfix ⟨(s.span fun c => '0' ≤ c && c ≤ '9').2.chars, rfl⟩
    · exact leaves_ok ((isLeft_span _ s).trans hs)

/-- The value of a version after the name of its directive. -/
lemma leaves_versionValue {s t : Source}
    (h : t.chars = '%' :: 'Y' :: 'A' :: 'M' :: 'L' :: s.chars) :
    Leaves Prod.snd t (versionValue start s) := by
  have hspaces : IsVersionPart (s.span (· = ' ')).1 :=
    fun c hc => .inl (by simpa using of_mem_span hc)
  have hmajor : t.chars
      = '%' :: 'Y' :: 'A' :: 'M' :: 'L' :: ((s.span (· = ' ')).1 ++ s.skipSpaces.chars) := by
    rw [h]
    exact congrArg (['%', 'Y', 'A', 'M', 'L'] ++ ·) (span_append_chars (· = ' ') s).symm
  unfold versionValue
  refine (leaves_versionNumber start hspaces hmajor).bind_of_eq fun p hp => ?_
  obtain ⟨digits, happend, hdigits⟩ := versionNumber_inversion start hp
  dsimp only
  split
  · exact leaves_refuse _ _ _ _
  · rename_i hpoint
    obtain ⟨m, s', hs'⟩ : ∃ m s', p.2 = .more '.' m s' := by
      cases hp2 : p.2 with
      | done m => simp [hp2, peek] at hpoint
      | more c m s' =>
        rw [hp2, not_not] at hpoint
        exact ⟨m, s', by rw [Option.some.inj hpoint]⟩
    have hbefore : IsVersionPart ((s.span (· = ' ')).1 ++ digits ++ ['.']) := by
      -- The numbers of the version hold digits, the point and the blanks before them.
      intro c hc
      rcases List.mem_append.mp hc with hc | hc
      · rcases List.mem_append.mp hc with hc | hc
        · exact hspaces c hc
        · exact .inr (.inr (hdigits c hc))
      · exact .inr (.inl (List.mem_singleton.mp hc))
    have hminor : t.chars = '%' :: 'Y' :: 'A' :: 'M' :: 'L'
        :: ((s.span (· = ' ')).1 ++ digits ++ ['.'] ++ p.2.tail.chars) := by
      rw [hmajor, ← happend, hs']
      simp [chars, tail]
    refine (leaves_versionNumber start hbefore hminor).bind_of_eq fun q hq => ?_
    have hrest := (leaves_versionNumber start hbefore hminor).rest q hq
    split
    · exact leaves_ok hrest
    · exact leaves_refuse _ _ _ _

/-- A directive for tags leaves an end of the source. -/
lemma leaves_tagValue (s : Source) : Leaves Prod.snd s (tagValue start s) := by
  unfold tagValue
  refine Leaves.of_isLeft (Leaves.bind (leaves_tagHandle _ start s.skipSpaces) fun p => ?_)
    (isLeft_skipSpaces s)
  dsimp only
  split
  · exact leaves_refuse _ _ _ _
  · refine Leaves.of_isLeft (Leaves.bind (leaves_uri start true _) fun q => ?_)
      (isLeft_skipSpaces p.2)
    split
    · exact leaves_ok (.refl _)
    · exact leaves_refuse _ _ _ _

/-- A directive from its percent sign on. -/
lemma leaves_directiveWord (m : Mark) (s : Source) :
    Leaves (fun p : Directive × Mark × Source => p.2.2) (.more '%' m s)
      (directiveWord (.more '%' m s)) := by
  have hname := span_append_chars isNameCharacter s
  have hafter : IsLeft (s.span isNameCharacter).2 (.more '%' m s) := (isLeft_span _ s).more
  -- What follows the value of a directive is the rest of its line.
  have hend (p : Directive × Mark × Source) :
      Leaves (fun p : Directive × Mark × Source => p.2.2) p.2.2
        (lineEnd .directive m p.2.2 >>= fun rest => .ok (p.1, p.2.1, rest)) :=
    Leaves.map (leaves_lineEnd m .directive p.2.2) fun _ => ⟨_, rfl, rfl⟩
  unfold directiveWord
  dsimp only [tail]
  split
  · exact leaves_refuse _ _ _ _
  · split
    · rename_i hyaml
      have hvalue := leaves_versionValue m (s := (s.span isNameCharacter).2) (t := .more '%' m s)
        (by rw [chars, ← hname, hyaml]; rfl)
      exact hvalue.bind fun p => hend (p.1, p.2.mark, p.2)
    · split
      · exact ((leaves_tagValue m _).of_isLeft hafter).bind fun p => hend (p.1, p.2.mark, p.2)
      · exact (hend (.reserved _, _, _)).of_isLeft ((isLeft_skip _ _).trans hafter)

end

end Schematic.Yaml
