import Schematic.Json.Reader
import Schematic.Proofs.Fault
import Schematic.Proofs.Text.Digit

/-!
# Texts with too many digits

The lenient reader goes over a text from its start to its end. So what it stops at is a part of the
text: where it finds too many digits, the text holds a run of so many.
-/

namespace Schematic

/-- The text holds a run of more than 4300 digits, `count` of them. -/
def Text.HasRun (t : Text) (count : Nat) : Prop :=
  Json.maxDigits < count ∧ ∃ ds : Text, ds <:+: t ∧ ds.IsDigits ∧ ds.length = count

lemma Text.HasRun.mono {t u : Text} {count : Nat} (h : t.HasRun count) (htu : t <:+: u) :
    u.HasRun count := by
  obtain ⟨hcount, ds, hds, hdigits⟩ := h
  exact ⟨hcount, ds, hds.trans htu, hdigits⟩

namespace Json

variable {α β : Type} {t u rest : Text}

/-- A reader passes over the start of a text, and where it finds too many digits, the text holds
them. -/
structure Passes (t : Text) (r : Except Stop (α × Text)) : Prop where
  rest : ∀ a rest, r = .ok (a, rest) → rest <:+ t
  digits : ∀ count, r = .error (.tooManyDigits count) → t.HasRun count

lemma passes_ok (a : α) (h : rest <:+ t) : Passes t (.ok (a, rest)) where
  rest := by
    rintro _ _ ⟨⟩
    exact h
  digits := by rintro _ ⟨⟩

lemma passes_malformed (t rest : Text) :
    Passes t (.error (.malformed rest) : Except Stop (α × Text)) where
  rest := by rintro _ _ ⟨⟩
  digits := by rintro _ ⟨⟩

lemma Passes.of_suffix {r : Except Stop (α × Text)} (h : Passes t r) (htu : t <:+ u) :
    Passes u r where
  rest a rest hr := (h.rest a rest hr).trans htu
  digits count hr := (h.digits count hr).mono htu.isInfix

/-- A reader that goes on where another one stopped passes over what both do. -/
lemma Passes.bind {r : Except Stop (α × Text)} {f : α × Text → Except Stop (β × Text)}
    (h : Passes t r) (hf : ∀ a rest, Passes rest (f (a, rest))) : Passes t (r >>= f) := by
  cases r with
  | error e =>
    refine ⟨by rintro _ _ ⟨⟩, fun count hr => ?_⟩
    cases hr
    exact h.digits count rfl
  | ok p => exact (hf p.1 p.2).of_suffix (h.rest p.1 p.2 rfl)

/-- What is made of a result does not matter. -/
lemma Passes.map {r : Except Stop (α × Text)} {f : α × Text → Except Stop (β × Text)}
    (h : Passes t r) (hf : ∀ a rest, ∃ b, f (a, rest) = .ok (b, rest)) : Passes t (r >>= f) := by
  refine h.bind fun a rest => ?_
  obtain ⟨b, hb⟩ := hf a rest
  exact hb ▸ passes_ok b (List.suffix_refl rest)

lemma suffix_skipSpace (t : Text) : skipSpace t <:+ t := List.dropWhile_suffix _

lemma suffix_of_skipSpace {c : CodePoint} (h : skipSpace t = c :: rest) : rest <:+ t :=
  (List.suffix_cons c rest).trans (h ▸ suffix_skipSpace t)

/-! ### Texts and numbers -/

/-- An escape is not refused for its digits. -/
lemma escape_ne_tooManyDigits (start here t : Text) (count : Nat) :
    escape start here t ≠ .error (.tooManyDigits count) := by
  unfold escape numericEscape
  grind

/-- The reader of a text passes over its code points and never counts digits. -/
lemma passes_textBody (start : Text) (skip : Nat) (t : Text) :
    Passes t (textBody start skip t) := by
  induction t generalizing skip with
  | nil =>
    cases skip <;> exact passes_malformed _ _
  | cons c t ih =>
    have hmore (skip : Nat) (d : CodePoint) : Passes t (textBody start skip t >>= fun p =>
        (.ok (d :: p.1, p.2))) := (ih skip).map fun _ _ => ⟨_, rfl⟩
    have hsuffix := List.suffix_cons c t
    unfold textBody
    split
    · contradiction
    · -- A code point of an escape that was read is passed over.
      rename_i h
      cases h
      exact (ih _).of_suffix hsuffix
    · -- The closing quote ends the text.
      rename_i h
      cases h
      exact passes_ok _ hsuffix
    · -- An escape tells how many code points are to be passed over.
      rename_i h
      cases h
      cases hescape : escape start (.char '\\' :: t) t with
      | ok p => exact (hmore p.2 p.1).of_suffix hsuffix
      | error e =>
        cases e with
        | malformed _ => exact passes_malformed _ _
        | tooManyDigits count => exact absurd hescape (escape_ne_tooManyDigits _ _ _ _)
    · -- Any other code point is one of the text, unless it is a control.
      rename_i h
      cases h
      split
      · exact passes_malformed _ _
      · exact (hmore 0 c).of_suffix hsuffix

/-- The fraction is at the start of a text. -/
lemma suffix_fraction (t : Text) : (fraction t).2 <:+ t := by
  unfold fraction
  split
  · split
    · exact List.suffix_refl _
    · exact (List.dropWhile_suffix _).trans (List.suffix_cons _ _)
  · exact List.suffix_refl _

/-- The sign of an exponent is at the start of a text. -/
lemma suffix_exponentSign (t : Text) : (exponentSign t).2 <:+ t := by
  unfold exponentSign
  split
  · exact List.suffix_cons _ _
  · exact List.suffix_cons _ _
  · exact List.suffix_refl _

/-- The exponent is at the start of a text. -/
lemma suffix_exponent (t : Text) : (exponent t).2 <:+ t := by
  cases t with
  | nil => exact List.suffix_refl _
  | cons c t =>
    simp only [exponent]
    split
    · have hdigits :=
        ((List.dropWhile_suffix CodePoint.isDigit).trans (suffix_exponentSign t)).trans
          (List.suffix_cons c t)
      split
      · exact List.suffix_refl _
      · exact hdigits
    · exact List.suffix_refl _

/-- The whole part of a number is the digits at its start. -/
lemma append_of_whole? {ds : Text} (h : whole? t = some (ds, rest)) :
    ds ++ rest = t ∧ ds.IsDigits := by
  unfold whole? at h
  split at h
  · cases h
    exact ⟨rfl, by unfold Text.IsDigits; decide⟩
  · split at h
    case isTrue hc =>
      cases h
      refine ⟨by simp, List.forall_mem_cons.mpr ⟨hc, fun d hd => ?_⟩⟩
      exact List.all_eq_true.mp List.all_takeWhile d hd
    case isFalse => cases h
  · cases h

/-- The sign of a number is at the start of a text. -/
lemma suffix_sign (t : Text) :
    (match t with
      | .char '-' :: rest => (true, rest)
      | _ => (false, t) : Bool × Text).2 <:+ t := by
  split
  · exact List.suffix_cons _ _
  · exact List.suffix_refl _

/-- The digits of a number are a part of the text, and what follows is its end. -/
lemma infix_of_numeral? {n : Numeral} (h : numeral? t = some (n, rest)) :
    n.whole <:+: t ∧ n.whole.IsDigits ∧ rest <:+ t := by
  have hbody := suffix_sign t
  unfold numeral? at h
  obtain ⟨⟨ds, after⟩, hwhole, hn⟩ := Option.map_eq_some_iff.mp h
  obtain ⟨happend, hdigits⟩ := append_of_whole? hwhole
  have hafter : after <:+ t := (happend ▸ List.suffix_append ds after).trans hbody
  have hstart : ds <:+: t := (happend ▸ List.prefix_append ds after).isInfix.trans hbody.isInfix
  have hrest := ((suffix_exponent _).trans (suffix_fraction after)).trans hafter
  cases hn
  exact ⟨hstart, hdigits, hrest⟩

/-- The reader of a number passes over it, or finds its digits in the text. -/
lemma passes_number (t : Text) : Passes t (number t) := by
  unfold number
  split
  · exact passes_malformed _ _
  · rename_i n rest h
    obtain ⟨hwhole, hdigits, hrest⟩ := infix_of_numeral? h
    split
    case isTrue hlong =>
      rw [Bool.and_eq_true, decide_eq_true_eq] at hlong
      refine ⟨by rintro _ _ ⟨⟩, ?_⟩
      rintro _ ⟨⟩
      exact ⟨hlong.2, _, hwhole, hdigits, rfl⟩
    case isFalse => exact passes_ok _ hrest

lemma passes_wordOrNumber (t : Text) : Passes t (wordOrNumber t) := by
  unfold wordOrNumber
  split
  · exact passes_ok _ (List.drop_suffix _ _)
  · exact passes_number t

/-! ### Values -/

/-- The readers of values with some fuel pass over the start of a text. -/
structure AllPass (fuel : Nat) : Prop where
  value : ∀ t, Passes t (value fuel t)
  items : ∀ t, Passes t (items fuel t)
  members : ∀ t, Passes t (members fuel t)

variable {fuel : Nat}

/-- A value is passed over with one more level of fuel. -/
lemma AllPass.succ_value (h : AllPass fuel) (t : Text) : Passes t (Json.value (fuel + 1) t) := by
  unfold Json.value
  split
  · refine Passes.of_suffix (Passes.map (passes_textBody _ _ _) ?_) (List.suffix_cons _ _)
    exact fun _ _ => ⟨_, rfl⟩
  · split
    · rename_i hskip
      exact passes_ok _ ((suffix_of_skipSpace hskip).trans (List.suffix_cons _ _))
    · refine Passes.of_suffix (Passes.map (h.items _) ?_)
        ((suffix_skipSpace _).trans (List.suffix_cons _ _))
      exact fun _ _ => ⟨_, rfl⟩
  · split
    · rename_i hskip
      exact passes_ok _ ((suffix_of_skipSpace hskip).trans (List.suffix_cons _ _))
    · refine Passes.of_suffix (Passes.map (h.members _) ?_)
        ((suffix_skipSpace _).trans (List.suffix_cons _ _))
      exact fun _ _ => ⟨_, rfl⟩
  · exact passes_wordOrNumber _

/-- Items are passed over with one more level of fuel. -/
lemma AllPass.succ_items (h : AllPass fuel) (t : Text) : Passes t (Json.items (fuel + 1) t) := by
  rw [Json.items]
  refine (h.value t).bind fun item after => ?_
  dsimp only
  split
  · rename_i hskip
    exact passes_ok _ (suffix_of_skipSpace hskip)
  · rename_i hskip
    refine Passes.of_suffix (Passes.map (h.items _) ?_)
      ((suffix_skipSpace _).trans (suffix_of_skipSpace hskip))
    exact fun _ _ => ⟨_, rfl⟩
  · exact passes_malformed _ _

/-- Members are passed over with one more level of fuel. -/
lemma AllPass.succ_members (h : AllPass fuel) (t : Text) :
    Passes t (Json.members (fuel + 1) t) := by
  unfold Json.members
  split
  · refine Passes.of_suffix ((passes_textBody _ _ _).bind fun name after => ?_)
      (List.suffix_cons _ _)
    dsimp only
    split
    · rename_i hcolon
      refine Passes.of_suffix ((h.value _).bind fun item after => ?_)
        ((suffix_skipSpace _).trans (suffix_of_skipSpace hcolon))
      dsimp only
      split
      · rename_i hskip
        exact passes_ok _ (suffix_of_skipSpace hskip)
      · rename_i hskip
        refine Passes.of_suffix (Passes.map (h.members _) ?_)
          ((suffix_skipSpace _).trans (suffix_of_skipSpace hskip))
        exact fun _ _ => ⟨_, rfl⟩
      · exact passes_malformed _ _
    · exact passes_malformed _ _
  · exact passes_malformed _ _

/-- All readers pass over the start of a text with any fuel. -/
theorem allPass (fuel : Nat) : AllPass fuel := by
  induction fuel with
  | zero =>
    constructor <;> intro t
    · exact passes_malformed _ _
    · exact passes_malformed _ _
    · exact passes_malformed _ _
  | succ fuel ih => exact ⟨ih.succ_value, ih.succ_items, ih.succ_members⟩

/-- Where the lenient reader finds too many digits, the text holds a run of so many. -/
theorem hasRun_of_read {count : Nat} (h : read t = .error (.tooManyDigits count)) :
    t.HasRun count := by
  have hdocument : document t = .error (.tooManyDigits count) := by
    rw [read] at h
    cases hd : document t with
    | ok j =>
      rw [hd] at h
      cases h
    | error e =>
      rw [hd] at h
      cases e with
      | malformed rest => cases h
      | tooManyDigits n =>
        cases h
        rfl
  unfold document at hdocument
  have hvalue := (allPass (t.length + 1)).value (skipSpace t)
  cases hv : value (t.length + 1) (skipSpace t) with
  | ok p =>
    -- A value that is read never leads to too many digits.
    rw [hv] at hdocument
    split at hdocument
    · cases hdocument
    · simp only [ok_bind] at hdocument
      split at hdocument
      · cases hdocument
      · cases hdocument
  | error e =>
    -- Digits in the value are digits in the text.
    rw [hv] at hdocument
    split at hdocument
    · cases hdocument
    · cases hdocument
      exact (hvalue.digits count hv).mono (suffix_skipSpace t).isInfix

end Json

end Schematic
