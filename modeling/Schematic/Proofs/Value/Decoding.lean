import Schematic.Proofs.Component.Resolution
import Schematic.Proofs.Json.RoundTrip

/-!
# Literals are decoded

Apart from null and texts, the value of an environment variable is JSON text in ASCII. If integers
are short, numbers are finite and texts have bytes, then this text is read back as the very data
that it was written for. So data of two kinds or of two structures is never written alike, not even
the integer 1, the number 1.0 and the truth value of 1.
-/

namespace Schematic

/-! ### Texts in ASCII -/

namespace Text

/-- Every code point of a text is in ASCII. -/
def IsAscii (t : Text) : Prop := ∀ c ∈ t, c.value < 0x80

instance (t : Text) : Decidable t.IsAscii := inferInstanceAs (Decidable (∀ c ∈ t, c.value < 0x80))

variable {t u : Text}

lemma IsAscii.append (ht : t.IsAscii) (hu : u.IsAscii) : (t ++ u).IsAscii :=
  List.forall_mem_append.mpr ⟨ht, hu⟩

lemma isAscii_cons {c : CodePoint} : IsAscii (c :: t) ↔ c.value < 0x80 ∧ t.IsAscii :=
  List.forall_mem_cons

lemma IsDigits.isAscii (h : t.IsDigits) : t.IsAscii := by
  intro c hc
  obtain ⟨d, hd, rfl⟩ := CodePoint.isDigit_iff.mp (h c hc)
  interval_cases d <;> decide

lemma isAscii_ofInt (n : Int) : (ofInt n).IsAscii := by
  cases n with
  | ofNat n => exact (isDigits_ofNat n).isAscii
  | negSucc n => exact isAscii_cons.mpr ⟨by decide, (isDigits_ofNat (n + 1)).isAscii⟩

/-- Texts in ASCII are joined to one in ASCII. -/
lemma isAscii_join {separator : Text} (hseparator : separator.IsAscii) {parts : List Text}
    (hparts : ∀ t ∈ parts, t.IsAscii) : (join separator parts).IsAscii := by
  match parts with
  | [] => exact List.forall_mem_nil _
  | [t] => simpa using hparts t List.mem_cons_self
  | t :: u :: ts =>
    rw [join_cons_cons]
    exact (hparts t List.mem_cons_self).append (hseparator.append
      (isAscii_join hseparator fun v hv => hparts v (List.mem_cons_of_mem t hv)))

/-- Hexadecimal digits are ASCII. -/
lemma isAscii_hex_four {n : Nat} (h : n < 0x10000) : (hex 4 n).IsAscii := by
  have hdigit {d : Nat} (hd : d < 16) : (CodePoint.char d.digitChar).value < 0x80 := by
    interval_cases d <;> decide
  have hfirst : n / 16 / 16 / 16 < 16 := by omega
  have hlast (k : Nat) : k % 16 < 16 := Nat.mod_lt k (by decide)
  rw [hex_four h]
  simp only [isAscii_cons]
  exact ⟨hdigit hfirst, hdigit (hlast _), hdigit (hlast _), hdigit (hlast _), List.forall_mem_nil _⟩

end Text

/-! ### Data written in ASCII -/

namespace Json

open Text (IsAscii isAscii_cons)

lemma isAscii_unitEscape {n : Nat} (h : n < 0x10000) : (unitEscape n).IsAscii :=
  isAscii_cons.mpr ⟨by decide, isAscii_cons.mpr ⟨by decide, Text.isAscii_hex_four h⟩⟩

lemma isAscii_numericEscapeText {n : Nat} (h : n < 0x110000) : (numericEscapeText n).IsAscii := by
  unfold numericEscapeText
  split
  case isTrue hunit => exact isAscii_unitEscape hunit
  case isFalse hpair => exact (isAscii_unitEscape (by omega)).append (isAscii_unitEscape (by omega))

/-- Whatever is not in ASCII is escaped. -/
lemma isAscii_pointText (c : CodePoint) : (pointText true c).IsAscii := by
  unfold pointText
  split
  case h_8 =>
    split
    case isTrue => exact isAscii_numericEscapeText c.value_lt
    case isFalse h =>
      rw [not_or, not_and] at h
      exact isAscii_cons.mpr ⟨by have := h.2 rfl; omega, List.forall_mem_nil _⟩
  all_goals decide

/-- A text that is written with escapes is ASCII. -/
lemma isAscii_textText (t : Text) : (textText true t).IsAscii := by
  have hpoints : IsAscii (t.flatMap (pointText true)) := by
    intro c hc
    obtain ⟨d, -, hd⟩ := List.mem_flatMap.mp hc
    exact isAscii_pointText d c hd
  exact isAscii_cons.mpr ⟨by decide, hpoints.append (by decide)⟩

/-- A numeral is ASCII. -/
lemma Numeral.isAscii_spelled (width : Nat) {n : Numeral} (hn : n.IsProper) :
    (n.spelled width).IsAscii := by
  have hsign : (signText n.negative).IsAscii := by cases n.negative <;> decide
  have hfraction : (fractionText n.fraction).IsAscii := by
    cases hf : n.fraction with
    | none => exact List.forall_mem_nil _
    | some f => exact isAscii_cons.mpr ⟨by decide, (hn.fraction_isDigits f hf).isAscii⟩
  have hexponent : (exponentText width n.exponent).IsAscii := by
    cases n.exponent with
    | none => exact List.forall_mem_nil _
    | some e =>
      refine isAscii_cons.mpr
        ⟨by decide, isAscii_cons.mpr ⟨?_, (isDigits_padded width e.natAbs).isAscii⟩⟩
      split <;> decide
  exact ((hsign.append hn.whole_isDigits.isAscii).append hfraction).append hexponent

/-- A float is written in ASCII. -/
lemma isAscii_float (x : Double) : (wideNumbers.text x).IsAscii := by
  cases hx : x.isFinite with
  | true =>
    obtain ⟨width, n, hn, htext, -⟩ := exists_spelled_of_float Style.isStandard_ascii 0 hx
    rw [Style.write] at htext
    exact htext ▸ n.isAscii_spelled width hn
  | false =>
    cases x with
    | finite negative m => cases hx
    | infinite negative => cases negative <;> decide
    | nan payload => exact (by decide : IsAscii wideNumbers.nan)

/-- What is written between brackets is ASCII if its items are. -/
lemma isAscii_bracketed (depth : Nat) {opening closing : Text} {items : List Text}
    (hopening : opening.IsAscii) (hclosing : closing.IsAscii) (hitems : ∀ t ∈ items, t.IsAscii) :
    (ascii.bracketed depth opening closing items).IsAscii := by
  unfold Style.bracketed
  split
  · exact hopening.append hclosing
  · have hblank (depth : Nat) : (ascii.lineStart depth).IsAscii := List.forall_mem_nil _
    have hseparator : (ascii.comma ++ ascii.lineStart (depth + 1)).IsAscii :=
      IsAscii.append (by decide) (hblank (depth + 1))
    exact (((hopening.append (hblank _)).append (Text.isAscii_join hseparator hitems)).append
      (hblank _)).append hclosing

mutual

/-- What is written in ASCII is in ASCII. -/
theorem isAscii_write (j : Json) (depth : Nat) : (ascii.write depth j).IsAscii := by
  match j with
  | .null | .bool true | .bool false =>
    rw [Style.write]
    decide
  | .int n => exact Text.isAscii_ofInt n
  | .float x => exact isAscii_float x
  | .text t => exact isAscii_textText t
  | .array js =>
    rw [Style.write]
    exact isAscii_bracketed depth (by decide) (by decide) (isAscii_writeItems js (depth + 1))
  | .object es =>
    rw [Style.write]
    exact isAscii_bracketed depth (by decide) (by decide) (isAscii_writeEntries es (depth + 1))

/-- Items are written in ASCII. -/
theorem isAscii_writeItems (js : List Json) (depth : Nat) :
    ∀ t ∈ ascii.writeItems depth js, t.IsAscii := by
  match js with
  | [] => exact List.forall_mem_nil _
  | j :: js =>
    rw [Style.writeItems]
    exact List.forall_mem_cons.mpr ⟨isAscii_write j depth, isAscii_writeItems js depth⟩

/-- Entries are written in ASCII. -/
theorem isAscii_writeEntries (es : List (Text × Json)) (depth : Nat) :
    ∀ t ∈ ascii.writeEntries depth es, t.IsAscii := by
  match es with
  | [] => exact List.forall_mem_nil _
  | (name, j) :: es =>
    rw [Style.writeEntries]
    have hcolon : ascii.colon.IsAscii := by decide
    exact List.forall_mem_cons.mpr
      ⟨((isAscii_textText name).append hcolon).append (isAscii_write j depth),
        isAscii_writeEntries es depth⟩

end

/-- Data within the limits of documents is read back from what is written in ASCII. -/
lemma read_ascii {j : Json} (hj : j.Every IsPortable) : read (render ascii j) = .ok j :=
  read_render_of_spells Style.isStandard_ascii
    (Every.imp (fun _ h => ⟨h.isRegular, fun _ => h.isUnicode⟩) j hj)

end Json

/-! ### Environment variables -/

namespace Value

variable {v w : Value}

/-- A value that is written as JSON text: it is neither null nor a text, and it is made of data
within the limits of documents. -/
structure IsEncoded (v : Value) : Prop where
  isPlain : v.IsPlain Json.IsPortable
  ne_null : v ≠ .null
  ne_text : ∀ t, v ≠ .text t

/-- The text of an encoded value is the JSON text of its data. -/
lemma IsEncoded.exists_envText_eq (hv : v.IsEncoded) :
    ∃ j : Json, j.toValue = v ∧ j.Every Json.IsPortable ∧
      v.envText = .ok (some (Json.render Json.ascii j)) := by
  obtain ⟨j, rfl, hj⟩ := hv.isPlain
  refine ⟨j, rfl, hj, ?_⟩
  have hliteral := Json.literal_toValue j (Json.Every.imp (fun _ h => h.isShort) j hj)
  rw [envText, hliteral]
  · rfl
  · exact hv.ne_null
  · exact hv.ne_text

/-- The text of an encoded value is in ASCII and is read back as this value, so no other encoded
value has it. -/
theorem envText_decodes (v : Value) (hv : v.IsEncoded) :
    (∃ t j, v.envText = .ok (some t) ∧ t.IsAscii ∧ Json.read t = .ok j ∧ j.toValue = v) ∧
      ∀ w : Value, w.IsEncoded → w.envText = v.envText → w = v := by
  obtain ⟨j, rfl, hj, htext⟩ := hv.exists_envText_eq
  refine ⟨⟨_, j, htext, Json.isAscii_write j 0, Json.read_ascii hj, rfl⟩, ?_⟩
  intro w hw hsame
  obtain ⟨k, rfl, hk, htext'⟩ := hw.exists_envText_eq
  rw [htext, htext', Except.ok.injEq, Option.some.injEq] at hsame
  -- one text is read as one thing
  have hread := Json.read_ascii hk
  rw [hsame, Json.read_ascii hj, Except.ok.injEq] at hread
  rw [hread]

/-- A character past 16 bits, and three kinds of one. -/
def ones : Json := .object [("𝄞", .array [.int 1, .float (Double.ofDecimal false 1 0), .bool true])]

example : Json.render Json.ascii ones = "\x7b\"\\ud834\\udd1e\": [1, 1.0, true]\x7d" := by
  decide +kernel

/-- The data of the example is portable. -/
lemma every_isPortable_ones : ones.Every Json.IsPortable := by
  have hone : 1 < writingLimit := Nat.one_lt_pow (by decide) (by decide)
  have hfloat : (Double.ofDecimal false 1 0).isFinite = true := by decide +kernel
  refine ⟨⟨⟨trivial, trivial, ?_⟩, List.pairwise_singleton _ _⟩,
    ⟨⟨⟨trivial, trivial, trivial⟩, trivial⟩, ?_⟩, trivial⟩
  · exact List.forall_mem_singleton.mpr (Text.isUnicode_ofString "𝄞")
  · exact ⟨⟨⟨hone, trivial, trivial⟩, trivial⟩, ⟨⟨trivial, hfloat, trivial⟩, trivial⟩,
      ⟨⟨trivial, trivial, trivial⟩, trivial⟩, trivial⟩

/-- The three kinds of one are told apart. -/
theorem envText_decodes_ones :
    ones.toValue.IsEncoded ∧
      ∃ t j, ones.toValue.envText = .ok (some t) ∧ t.IsAscii ∧ Json.read t = .ok j ∧
        j.toValue = ones.toValue := by
  have hencoded : ones.toValue.IsEncoded :=
    ⟨isPlain_toValue_iff.mpr every_isPortable_ones, by simp [ones, Json.toValue],
      by simp [ones, Json.toValue]⟩
  exact ⟨hencoded, (envText_decodes ones.toValue hencoded).1⟩

end Value

end Schematic
