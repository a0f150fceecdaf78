import Mathlib.Data.List.Basic
import Mathlib.Tactic.Lemma
import Mathlib.Tactic.SplitIfs
import Schematic.Yaml.Reader
import Schematic.Yaml.Writer

/-!
# Texts as sources

A written document is a page: lines of printable ASCII characters. `Source.ofText m t` is such a
text from a place on, so that reading a prefix of it leaves the source of the rest at the place
after the prefix.
-/

namespace Schematic.Yaml

/-- A text of printable ASCII characters and line feeds. -/
def IsPage (t : Text) : Prop := ∀ c ∈ t, isOrdinary c = true

/-- A text of printable ASCII characters. -/
def IsLine (t : Text) : Prop := ∀ c ∈ t, c.within ' ' '~' = true

instance (t : Text) : Decidable (IsLine t) := inferInstanceAs (Decidable (∀ c ∈ t, _))

/-- A property of the characters of a list is decided by going over the list, and not over all
characters. -/
lemma forall_mem_of_all {p : Char → Prop} [DecidablePred p] {cs : List Char}
    (h : cs.all (fun c => decide (p c))) :
    ∀ c ∈ cs, p c := fun c hc => of_decide_eq_true (List.all_eq_true.mp h c hc)

variable {m : Mark} {t u : Text} {c : Char}

lemma IsLine.isPage (h : IsLine t) : IsPage t := fun c hc => by
  rw [isOrdinary, h c hc, Bool.true_or]

lemma IsPage.append (ht : IsPage t) (hu : IsPage u) : IsPage (t ++ u) :=
  List.forall_mem_append.mpr ⟨ht, hu⟩

lemma IsLine.append (ht : IsLine t) (hu : IsLine u) : IsLine (t ++ u) :=
  List.forall_mem_append.mpr ⟨ht, hu⟩

lemma isPage_cons {c : CodePoint} :
    IsPage (c :: t) ↔ isOrdinary c = true ∧ IsPage t := List.forall_mem_cons

lemma isLine_cons {c : CodePoint} :
    IsLine (c :: t) ↔ c.within ' ' '~' = true ∧ IsLine t := List.forall_mem_cons

@[simp] lemma isLine_nil : IsLine [] := List.forall_mem_nil _

@[simp] lemma spaces_zero : Text.spaces 0 = [] := rfl

lemma spaces_succ (n : Nat) : Text.spaces (n + 1) = .char ' ' :: Text.spaces n := rfl

@[simp] lemma isLine_spaces (n : Nat) : IsLine (Text.spaces n) := by
  intro c hc
  rw [List.eq_of_mem_replicate hc]
  rfl

@[simp] lemma isPage_newLine (n : Nat) : IsPage (newLine n) :=
  isPage_cons.mpr ⟨rfl, (isLine_spaces n).isPage⟩

/-- Between a space and a tilde there are only characters of their own column. -/
lemma exists_char_of_within {c : CodePoint} (h : c.within ' ' '~' = true) :
    ∃ d, c = .char d ∧ ' ' ≤ d ∧ d ≤ '~' := by
  cases c with
  | char d => exact ⟨d, rfl, by simpa [CodePoint.within] using h⟩
  | lone half => exact absurd h (by simp [CodePoint.within])

lemma not_isBreak_of_printable (hlow : ' ' ≤ c) (hhigh : c ≤ '~') : isBreak c = false := by
  have hne (d : Char) (hd : d < ' ' ∨ '~' < d) : (c == d) = false := by
    rw [beq_eq_false_iff_ne]
    rintro rfl
    rcases hd with hd | hd
    · exact absurd hlow (Char.not_le.mpr hd)
    · exact absurd hhigh (Char.not_le.mpr hd)
  rw [isBreak, hne '\n' (by decide), hne '\r' (by decide), hne '\x85' (by decide),
    hne '\u2028' (by decide), hne '\u2029' (by decide)]
  rfl

/-! ### Places -/

namespace Mark

def after (m : Mark) : Text → Mark
  | [] => m
  | .char c :: t => (m.next c).after t
  | .lone _ :: t => m.after t

@[simp] lemma after_nil : m.after [] = m := rfl

@[simp] lemma after_char : m.after (.char c :: t) = (m.next c).after t := rfl

lemma after_append (t u : Text) (m : Mark) : m.after (t ++ u) = (m.after t).after u := by
  induction t generalizing m with
  | nil => rfl
  | cons c t ih => cases c <;> exact ih _

lemma next_of_printable (hlow : ' ' ≤ c) (hhigh : c ≤ '~') :
    m.next c = ⟨m.index + 1, m.line, m.column + 1⟩ := by
  have hmark : c ≠ '\uFEFF' := by
    rintro rfl
    exact absurd hhigh (by decide)
  rw [next, not_isBreak_of_printable hlow hhigh]
  simp [hmark]

/-- Within a line the column moves with the index. -/
lemma after_of_isLine (h : IsLine t) :
    m.after t = ⟨m.index + t.length, m.line, m.column + t.length⟩ := by
  induction t generalizing m with
  | nil => rfl
  | cons c t ih =>
    obtain ⟨hc, ht⟩ := isLine_cons.mp h
    obtain ⟨d, rfl, hlow, hhigh⟩ := exists_char_of_within hc
    rw [after_char, next_of_printable hlow hhigh, ih ht, List.length_cons]
    simp only [mk.injEq, true_and]
    omega

lemma column_after_of_isLine (h : IsLine t) (m : Mark) : (m.after t).column = m.column + t.length :=
  congrArg column (after_of_isLine h)

lemma after_newLine (n : Nat) : m.after (newLine n) = ⟨m.index + 1 + n, m.line + 1, n⟩ := by
  have hline : m.next '\n' = ⟨m.index + 1, m.line + 1, 0⟩ := rfl
  rw [newLine, after_char, hline, after_of_isLine (isLine_spaces n), Text.spaces,
    List.length_replicate, Nat.zero_add]

@[simp] lemma column_after_newLine (n : Nat) : (m.after (newLine n)).column = n := by
  rw [after_newLine]

/-- What is passed over is never on an earlier line. -/
lemma line_after_le (h : IsPage t) : m.line ≤ (m.after t).line := by
  induction t generalizing m with
  | nil => exact Nat.le_refl _
  | cons c t ih =>
    obtain ⟨hc, ht⟩ := isPage_cons.mp h
    rw [isOrdinary, Bool.or_eq_true, beq_iff_eq] at hc
    rcases hc with hc | rfl
    · obtain ⟨d, rfl, hlow, hhigh⟩ := exists_char_of_within hc
      rw [after_char, next_of_printable hlow hhigh]
      exact ih (m := ⟨m.index + 1, m.line, m.column + 1⟩) ht
    · exact Nat.le_of_succ_le (ih (m := m.next '\n') ht)

end Mark

/-! ### Sources -/

namespace Source

def ofText (m : Mark) : Text → Source
  | [] => .done m
  | .char c :: t => .more c m (ofText (m.next c) t)
  | .lone _ :: t => ofText m t

@[simp] lemma ofText_nil : ofText m [] = .done m := rfl

@[simp] lemma ofText_char : ofText m (.char c :: t) = .more c m (ofText (m.next c) t) := rfl

lemma ofCharsAt_eq (cs : List Char) (h : '\r' ∉ cs) (m : Mark) :
    ofCharsAt m cs = ofText m (Text.ofChars cs) := by
  induction cs generalizing m with
  | nil => rfl
  | cons c cs ih =>
    rw [List.mem_cons, not_or] at h
    rw [ofCharsAt]
    · exact congrArg _ (ih h.2 _)
    · rintro ds rfl
      exact absurd rfl h.1

/-- A page takes as much of a source as it is long. -/
lemma length_ofText_append (h : IsPage t) :
    (ofText m (t ++ u)).length = t.length + (ofText (m.after t) u).length := by
  induction t generalizing m with
  | nil => exact (Nat.zero_add _).symm
  | cons c t ih =>
    obtain ⟨hc, ht⟩ := isPage_cons.mp h
    cases c with
    | char c =>
      rw [List.cons_append, ofText_char, length, ih ht, List.length_cons, Mark.after_char]
      omega
    | lone half => exact absurd hc (by simp [isOrdinary, CodePoint.within])

end Source

/-- A text starts with a printable character that is no space. -/
def StartsWord (t : Text) : Prop := ∃ c u, t = .char c :: u ∧ ' ' < c ∧ c ≤ '~'

lemma not_isSpaceOrTab_of_printable (hlow : ' ' < c) : isSpaceOrTab c = false := by
  have hne (d : Char) (hd : d ≤ ' ') : (c == d) = false := by
    rw [beq_eq_false_iff_ne]
    rintro rfl
    exact absurd hlow (Char.not_lt.mpr hd)
  rw [isSpaceOrTab, hne ' ' (by decide), hne '\t' (by decide)]
  rfl

lemma ne_space_of_lt (hlow : ' ' < c) : c ≠ ' ' := by
  rintro rfl
  exact absurd hlow (by decide)

namespace Source

lemma span_spaces {p : Char → Bool} (hspace : p ' ' = true)
    (hword : ∀ c, ' ' < c → p c = false) (n : Nat) (h : StartsWord t) :
    (ofText m (Text.spaces n ++ t)).span p
      = (List.replicate n ' ', ofText (m.after (Text.spaces n)) t) := by
  induction n generalizing m with
  | zero =>
    obtain ⟨c, u, rfl, hc, -⟩ := h
    simp [Text.spaces, span, hword c hc]
  | succ n ih =>
    have ih := ih (m := m.next ' ')
    rw [Text.spaces] at ih ⊢
    rw [List.replicate_succ, List.cons_append, ofText_char, span, if_pos hspace, ih]
    rfl

lemma atDocumentMarker_newLine : (ofText m (.char '\n' :: t)).atDocumentMarker = false := rfl

end Source

/-! ### Characters of a document -/

lemma isAcceptable_of_printable (hlow : ' ' ≤ c) (hhigh : c ≤ '~') : isAcceptable c = true := by
  simp [isAcceptable, hlow, hhigh]

/-- A page is a text of characters that a document may hold. -/
lemma IsPage.exists_chars (h : IsPage t) :
    ∃ cs, t = Text.ofChars cs ∧ t.chars? = some cs ∧ (∀ c ∈ cs, isAcceptable c) ∧ '\r' ∉ cs ∧
      '\uFEFF' ∉ cs := by
  induction t with
  | nil => exact ⟨[], rfl, rfl, by simp⟩
  | cons c t ih =>
    obtain ⟨hc, ht⟩ := isPage_cons.mp h
    obtain ⟨cs, rfl, hcs, hacceptable, hr, hmark⟩ := ih ht
    have hchar : ∃ d, c = .char d ∧ isAcceptable d = true ∧ '\r' ≠ d ∧ '\uFEFF' ≠ d := by
      rw [isOrdinary, Bool.or_eq_true, beq_iff_eq] at hc
      rcases hc with hc | rfl
      · obtain ⟨d, rfl, hlow, hhigh⟩ := exists_char_of_within hc
        refine ⟨d, rfl, isAcceptable_of_printable hlow hhigh, ?_, ?_⟩ <;> rintro rfl
        · exact absurd hlow (by decide)
        · exact absurd hhigh (by decide)
      · exact ⟨'\n', rfl, by decide⟩
    obtain ⟨d, rfl, hd, hdr, hdm⟩ := hchar
    refine ⟨d :: cs, rfl, ?_, List.forall_mem_cons.mpr ⟨hd, hacceptable⟩, ?_, ?_⟩
    · rw [Text.chars?] at hcs ⊢
      rw [List.mapM_cons, hcs]
      rfl
    · simp [hdr, hr]
    · simp [hdm, hmark]

/-- A page is read as it stands. -/
lemma IsPage.compose_eq (h : IsPage t) :
    compose t = Node.ofTokens? (.ofSource (.ofText .origin t)) := by
  obtain ⟨cs, rfl, hcs, hacceptable, hr, hmark⟩ := h.exists_chars
  have hfind : (Text.ofChars cs).find? (fun c => !isAcceptablePoint c) = none := by
    rw [List.find?_eq_none]
    intro c hc
    obtain ⟨d, hd, rfl⟩ := List.mem_map.mp hc
    simp [isAcceptablePoint, hacceptable d hd]
  have hsource : Source.ofChars cs = .ofText .origin (Text.ofChars cs) := by
    rw [Source.ofChars]
    · exact Source.ofCharsAt_eq cs hr .origin
    · rintro ds rfl
      exact hmark List.mem_cons_self
  rw [compose, acceptableChars, hfind, hcs, ← hsource]
  rfl

end Schematic.Yaml
