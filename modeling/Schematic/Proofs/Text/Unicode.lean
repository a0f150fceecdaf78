import Mathlib.Data.List.TakeWhile
import Schematic.Proofs.Text.Split
import Schematic.Text.Utf8

/-!
# Texts that have bytes

A text has bytes exactly if no half of a surrogate pair stands alone in it. What is put together
from such texts is such a text.
-/

namespace Schematic

/-- No half of a surrogate pair stands alone in a text. -/
def Text.IsUnicode (t : Text) : Prop := ∀ c ∈ t, ∃ d, c = .char d

/-- Texts that have bytes have bytes together. -/
lemma Text.IsUnicode.append {t u : Text} (ht : t.IsUnicode) (hu : u.IsUnicode) :
    (t ++ u).IsUnicode := by
  intro c hc
  rcases List.mem_append.mp hc with hc | hc
  · exact ht c hc
  · exact hu c hc

lemma Text.isUnicode_ofChars (cs : List Char) : (ofChars cs).IsUnicode := by
  intro c hc
  obtain ⟨d, -, rfl⟩ := List.mem_map.mp hc
  exact ⟨d, rfl⟩

/-- A character in front of a text that has bytes has bytes with it. -/
lemma Text.IsUnicode.cons {c : Char} {t : Text} (ht : t.IsUnicode) :
    IsUnicode (.char c :: t) := by
  intro d hd
  rcases List.mem_cons.mp hd with rfl | hd
  · exact ⟨c, rfl⟩
  · exact ht d hd

namespace Text

lemma isUnicode_nil : IsUnicode [] := isUnicode_ofChars []

lemma isUnicode_ofString (s : String) : (ofString s).IsUnicode := isUnicode_ofChars _

lemma isUnicode_ofNat (n : Nat) : (ofNat n).IsUnicode := isUnicode_ofChars _

lemma isUnicode_ofInt (n : Int) : (ofInt n).IsUnicode := by
  cases n with
  | ofNat n => exact isUnicode_ofNat n
  | negSucc n => exact (isUnicode_ofNat _).cons

/-- Texts that have bytes are joined to one that has bytes. -/
lemma isUnicode_join {separator : Text} (hseparator : separator.IsUnicode) {parts : List Text}
    (hparts : ∀ t ∈ parts, t.IsUnicode) : (join separator parts).IsUnicode := by
  match parts with
  | [] => exact isUnicode_nil
  | [t] => simpa using hparts t List.mem_cons_self
  | t :: u :: ts =>
    rw [join_cons_cons]
    exact (hparts t List.mem_cons_self).append (hseparator.append
      (isUnicode_join hseparator fun v hv => hparts v (List.mem_cons_of_mem _ hv)))

/-- A text is one of characters if it has bytes. -/
lemma isSome_chars?_iff (t : Text) : t.chars?.isSome = true ↔ t.IsUnicode := by
  have hcons (c : Char) (t : Text) : chars? (.char c :: t) = (chars? t).map (c :: ·) := by
    have hstep : chars? (.char c :: t) = (chars? t).bind fun cs => some (c :: cs) := List.mapM_cons
    rw [hstep, Option.map_eq_bind]
    rfl
  induction t with
  | nil => exact iff_of_true rfl isUnicode_nil
  | cons c t ih =>
    cases c with
    | lone half =>
      refine iff_of_false Bool.false_ne_true fun h => ?_
      obtain ⟨d, hd⟩ := h (.lone half) List.mem_cons_self
      cases hd
    | char d =>
      rw [hcons, Option.isSome_map]
      refine ih.trans ?_
      exact ⟨.cons, fun h c hc => h c (List.mem_cons_of_mem _ hc)⟩

end Text

/-- A text has bytes if nothing in it is unwritable. -/
lemma Utf8.unwritable?_eq_none_iff {t : Text} : unwritable? t = none ↔ t.IsUnicode := by
  simp only [unwritable?]
  split
  · rename_i hdrop
    rw [List.dropWhile_eq_nil_iff] at hdrop
    refine ⟨fun _ c hc => ?_, fun _ => rfl⟩
    have := hdrop c hc
    cases c with
    | char d => exact ⟨d, rfl⟩
    | lone half => simp at this
  · rename_i c rest hdrop
    refine ⟨fun h => by simp at h, fun h => ?_⟩
    rw [List.dropWhile_eq_nil_iff.mpr] at hdrop
    · simp at hdrop
    · intro c hc
      obtain ⟨d, rfl⟩ := h c hc
      rfl

/-! ### Bytes -/

namespace Utf8

/-- A character in front of what was decoded leaves it a text that has bytes. -/
lemma isUnicode_of_map_cons {x : Except Error Text} {c : Char} {t : Text}
    (h : ∀ u, x = .ok u → u.IsUnicode) (ht : x.map (.char c :: ·) = .ok t) : t.IsUnicode := by
  cases x with
  | error e => cases ht
  | ok u =>
    cases ht
    exact (h u rfl).cons

/-- What is decoded from bytes has bytes. -/
lemma isUnicode_of_decodeFrom {position : Nat} {bytes : List UInt8} {t : Text}
    (h : decodeFrom position bytes = .ok t) : t.IsUnicode := by
  fun_induction decodeFrom position bytes generalizing t with
  | case1 =>
    cases h
    exact Text.isUnicode_nil
  -- what is left is a character with the text after it, or a fault
  | _ => first | exact isUnicode_of_map_cons ‹_› h | cases h

/-- Bytes are read as characters, and what cannot be read as replacement characters. -/
lemma isUnicode_decodeLossy (fuel : Nat) (bytes : List UInt8) :
    (decodeLossy fuel bytes).IsUnicode := by
  induction fuel generalizing bytes with
  | zero => exact Text.isUnicode_nil
  | succ fuel ih =>
    rw [decodeLossy]
    split
    · next t ht => exact isUnicode_of_decodeFrom ht
    · next e he =>
      refine Text.IsUnicode.append ?_ (ih _).cons
      cases hstart : decode (bytes.take e.start) with
      | error e' => exact Text.isUnicode_nil
      | ok t => exact isUnicode_of_decodeFrom hstart

end Utf8

end Schematic
