import Schematic.Component.Document
import Schematic.Proofs.Component.Plain

/-!
# JSON documents of a component are read back

A component whose defaults are plain data is written as JSON text in two layouts. Both texts are
read back as the component, and the compact one by the strict grammar too.
-/

namespace Schematic.Component

/-- A value that is a component is read as one. -/
lemma ofValue_toValue (c : Component) : ofValue c.toValue = .ok c := by
  have hread := Component.read_toValue .values c
  rw [toValue, Value.record] at hread ⊢
  rw [ofValue, hread]
  rfl

/-- Data that is that of a component is read as the component. -/
lemma ofText_of_read {c : Component} {t : Text} {j : Json} (hread : Json.read t = .ok j)
    (hc : c.toValue = j.toValue) : ofText t = .ok c := by
  have hvalue := ofValue_toValue c
  rw [ofText, valueOfText, hread]
  simp only [ok_bind, ← hc]
  rw [toValue, Value.record] at hvalue ⊢
  exact hvalue

/-- The compact text of a component. -/
lemma toJson_eq {c : Component} {j : Json} (hc : c.toValue = j.toValue)
    (hregular : j.Every Json.IsRegular) (hunicode : j.Every Json.IsUnicode) :
    c.toJson = .ok (Json.render Json.compact j) := by
  have hnames : j.Every Json.HasUnicodeNames :=
    Json.Every.imp (fun _ h => h.hasUnicodeNames) j hunicode
  rw [toJson, hc, Json.plain_toValue j hnames,
    Json.finite_eq_self j (Json.Every.imp (fun _ h => h.isFinite) j hregular), ok_bind,
    Json.unwritable?_eq_none j hunicode]
  rfl

/-- A component as a document. -/
lemma dump_eq {c : Component} {es : List (Text × Json)} {name : Text} {format : Format}
    (hformat : Format.ofName? name = some format) (hc : c.toValue = (Json.object es).toValue)
    (hregular : (Json.object es).Every Json.IsRegular)
    (hnames : (Json.object es).Every Json.HasUnicodeNames) :
    c.dump name = .ok (format.text es) := by
  have hshort := Json.anyEntryTooLong_eq_false es
    (Json.Every.imp (fun _ h => h.isShort) _ hregular).2
  rw [dump, hformat, plain_eq hc hregular hnames]
  simp only [Except.mapError, ok_bind, hshort]
  rfl

/-- The strict grammar reads the compact text back, as the text has bytes and the data is not too
deep. -/
lemma ofJson_compact {c : Component} {j : Json} (hc : c.toValue = j.toValue)
    (hregular : j.Every Json.IsRegular) (hunicode : j.Every Json.IsUnicode)
    (hdepth : c.EveryDefault (·.depth < 100)) : ofJson (Json.render Json.compact j) = .ok c := by
  have hlevels : j.depth ≤ Json.Strict.maxDepth := by
    have hdepth' : c.EveryDefault (·.depth ≤ 99) :=
      ⟨fun p hp => Nat.le_of_lt_succ (hdepth.parameters p hp),
        fun s hs => Nat.le_of_lt_succ (hdepth.workloadSettings s hs)⟩
    rw [← Json.depth_toValue, ← hc]
    exact Nat.le_trans (depth_toValue_le (by decide) hdepth') (by decide)
  have hstrict := Json.Strict.read_render Json.Style.isPlain_compact hregular hlevels
  have hbytes : Utf8.unwritable? (Json.render Json.compact j) = none :=
    Utf8.unwritable?_eq_none_iff.mpr
      (Json.isUnicode_write Json.Style.isUnicode_compact j (.inr hunicode) 0)
  rw [ofJson, readJson, hbytes]
  simp only [Option.isSome_none, Bool.false_eq_true, if_false, hstrict, ← hc, read_toValue]
  rfl

/-- A component whose defaults are plain data, with integers of at most 4300 digits and finite
numbers, and all of whose texts have bytes, is read back from both of its JSON texts, and from the
compact one by the strict grammar as well. -/
theorem json_roundTrip (c : Component) (hplain : c.EveryDefault (·.IsPlain Json.IsRegular))
    (hdepth : c.EveryDefault (·.depth < 100)) (htexts : ∀ t ∈ c.toValue.texts, t.IsUnicode) :
    ∃ compact indented, c.toJson = .ok compact ∧ c.dump "json" = .ok indented ∧
      ofText compact = .ok c ∧ ofJson compact = .ok c ∧ ofText indented = .ok c := by
  obtain ⟨es, hc, hregular⟩ := exists_object hplain
  have hunicode := Json.every_isUnicode (.object es) (hc ▸ htexts)
  have hnames : (Json.object es).Every Json.HasUnicodeNames :=
    Json.Every.imp (fun _ h => h.hasUnicodeNames) _ hunicode
  have hformat : Format.ofName? "json" = some .json := rfl
  have hcompact := Json.read_render Json.Style.isPlain_compact hregular
  have hindented := Json.read_render Json.Style.isPlain_indented hregular
  exact ⟨Json.render Json.compact (.object es), Json.render Json.indented (.object es),
    toJson_eq hc hregular hunicode, dump_eq hformat hc hregular hnames,
    ofText_of_read hcompact hc, ofJson_compact hc hregular hunicode hdepth,
    ofText_of_read hindented hc⟩

/-- A component with a single parameter, of which only the default is of interest. -/
def ofDefault (v : Value) : Component where
  parameters := [{ name := "size", type := .number, default := v }]

/-- The one default of the component is its value. -/
lemma everyDefault_ofDefault {P : Value → Prop} {v : Value} :
    (ofDefault v).EveryDefault P ↔ P v := by
  constructor
  · exact fun h => h.parameters _ List.mem_cons_self
  · refine fun h => ⟨fun p hp => ?_, by simp [ofDefault]⟩
    rw [ofDefault, List.mem_singleton] at hp
    exact hp ▸ h

/-- The texts of the component have bytes if those of its default have. -/
lemma isUnicode_texts_ofDefault {v : Value} (h : ∀ t ∈ v.texts, t.IsUnicode) :
    ∀ t ∈ (ofDefault v).toValue.texts, t.IsUnicode := by
  have hliteral (s : String) : (s : Text).IsUnicode := Text.isUnicode_ofChars _
  simp [ofDefault, toValue, fields, Value.record, Value.ofList, Value.ofOption, Parameter.toValue,
    Value.texts, Value.textsList, Value.textsEntries, ParameterType.token, or_imp, forall_and,
    hliteral]
  exact h

/-- A list with a negative number and a text is read back in all three ways. -/
theorem json_roundTrip_list :
    let c := ofDefault (.list [.int (-1), .text "a\nb"])
    c.EveryDefault (·.IsPlain Json.IsRegular) ∧ c.EveryDefault (·.depth < 100) ∧
      (∀ t ∈ c.toValue.texts, t.IsUnicode) ∧
      ∃ compact indented, c.toJson = .ok compact ∧ c.dump "json" = .ok indented ∧
        ofText compact = .ok c ∧ ofJson compact = .ok c ∧ ofText indented = .ok c := by
  intro c
  let j := Json.array [.int (-1), .text "a\nb"]
  have hv : Value.list [.int (-1), .text "a\nb"] = j.toValue := rfl
  have hone : (Json.int (-1)).IsShort := Json.isShort_int32 (-1)
  have hplain : c.EveryDefault (·.IsPlain Json.IsRegular) := by
    refine everyDefault_ofDefault.mpr ⟨j, hv, ⟨trivial, trivial, trivial⟩, ?_, ?_, trivial⟩
    · exact ⟨hone, trivial, trivial⟩
    · exact ⟨trivial, trivial, trivial⟩
  have hdepth : c.EveryDefault (·.depth < 100) :=
    everyDefault_ofDefault.mpr (by decide)
  have htexts : ∀ t ∈ c.toValue.texts, t.IsUnicode :=
    isUnicode_texts_ofDefault (by
      simp only [Value.texts, Value.textsList, List.nil_append, List.append_nil,
        List.forall_mem_singleton]
      exact Text.isUnicode_ofChars _)
  exact ⟨hplain, hdepth, htexts, json_roundTrip c hplain hdepth htexts⟩

end Schematic.Component
