import Schematic.Proofs.Component.JsonRoundTrip
import Schematic.Proofs.Component.Seen
import Schematic.Proofs.Value.Same
import Schematic.Proofs.Yaml.Document

/-!
# YAML documents of a component

A component whose defaults are plain data is written as a YAML document, and the document is read
back as the component, with three exceptions: a name without bytes is not written at all, a simple
key that takes more than 1024 characters is refused by the reader, and past the width of a line a
blank after an escape is read back with a backslash in front of it.
-/

namespace Schematic

/-- Plain data that comes back from the YAML document of a component of which it is a default. -/
structure Value.ComesBack (v : Value) : Prop where
  hasUnicodeNames : v.IsPlain Json.HasUnicodeNames
  hasNarrowNames : v.IsPlain Json.HasNarrowNames
  isKept : ∃ j : Json, v = j.toValue ∧ j.IsKept 4 4

/-- A value that comes back is seen as it is. -/
lemma Value.seen_eq_self {v : Value} (h : v.IsPlain Json.IsRegular) (hback : v.ComesBack) :
    Yaml.seen 4 4 v = v := by
  obtain ⟨j, rfl, hregular⟩ := h
  obtain ⟨k, hk, hkept⟩ := hback.isKept
  rw [← Json.toValue_injective j k hk] at hkept
  exact Json.seen_eq_self j (Json.Every.imp (fun _ h => h.hasDistinctNames) j hregular) hkept

lemma Value.exists_isKept {v : Value} (h : v.IsPlain Json.IsRegular)
    (hsame : (Yaml.seen 4 4 v).same v = true) : ∃ j : Json, v = j.toValue ∧ j.IsKept 4 4 := by
  obtain ⟨j, rfl, hregular⟩ := h
  have hdistinct := Json.Every.imp (fun _ h => h.hasDistinctNames) j hregular
  exact ⟨j, rfl, Json.isKept_of_same j hdistinct hsame⟩

namespace Component

variable {c : Component} {es : List (Text × Json)}

/-- A component is written only if the names in its defaults have bytes. -/
lemma hasUnicodeNames_of_dump {name t : Text} (hc : c.toValue = (Json.object es).toValue)
    (h : c.dump name = .ok t) : (Json.object es).Every Json.HasUnicodeNames := by
  have hplain : ∃ fs, c.plain = .ok fs := by
    cases hplain : c.plain with
    | ok fs => exact ⟨fs, rfl⟩
    | error e =>
      rw [dump, hplain] at h
      cases hformat : Format.ofName? name <;> rw [hformat] at h <;> cases h
  obtain ⟨fs, hfs⟩ := hplain
  exact hasUnicodeNames_of_plain hc hfs

/-- The first entry of a component. -/
lemma exists_cons (hc : c.toValue = (Json.object es).toValue) :
    ∃ j fs, es = (Text.ofString "workloadType", j) :: fs := by
  rw [toValue, Value.record, Json.toValue, Value.map.injEq] at hc
  cases es with
  | nil => simp [fields, Json.toEntries] at hc
  | cons e fs =>
    obtain ⟨name, j⟩ := e
    rw [fields, List.map_cons, Json.toEntries, List.cons.injEq, Prod.mk.injEq,
      Value.text.injEq] at hc
    exact ⟨j, fs, by rw [hc.1.1]⟩

/-- The document of a component is no JSON. -/
lemma valueOfText_render (j : Json) (es : List (Text × Json)) :
    valueOfText (Yaml.render (("workloadType", j) :: es))
      = valueOfYaml (Yaml.render (("workloadType", j) :: es)) := by
  have hkey : Yaml.simpleKey 0 "workloadType" = "workloadType" := by decide
  obtain ⟨u, hu⟩ : ∃ u, Yaml.render (("workloadType", j) :: es) = .char 'w' :: u := by
    obtain ⟨u, hu⟩ := Yaml.TokenReader.exists_lines_eq 0
      (Yaml.TokenReader.entryText 0 "workloadType" j) (Yaml.entryLines 0 es)
    rw [Yaml.render, Yaml.block, Yaml.TokenReader.entryLines_cons, hu, Yaml.TokenReader.entryText,
      if_pos (by decide), hkey]
    exact ⟨_, rfl⟩
  rw [hu]
  rfl

/-- A component with narrow names is read back with its defaults as they are seen. -/
theorem ofText_yaml_eq (hc : c.toValue = (Json.object es).toValue)
    (hregular : (Json.object es).Every Json.IsRegular)
    (hnarrow : (Json.object es).Every Json.HasNarrowNames) :
    ofText (Yaml.render es) = .ok (c.mapDefaults (Yaml.seen 4 4)) := by
  obtain ⟨j, fs, rfl⟩ := exists_cons hc
  have hread := Yaml.read_render "workloadType" j fs hregular hnarrow
  have hseen : Value.ofEntries (Yaml.seenEntries 0 (Json.toEntries (("workloadType", j) :: fs)))
      = (c.mapDefaults (Yaml.seen 4 4)).toValue := by
    rw [← seen_toValue 0, hc]
    rfl
  have hvalue := ofValue_toValue (c.mapDefaults (Yaml.seen 4 4))
  rw [ofText, valueOfText_render, valueOfYaml, hread, hseen]
  rw [toValue, Value.record] at hvalue ⊢
  exact hvalue

/-- A component with a name that is too wide is written, but its document is refused. -/
theorem ofText_yaml_eq_error (hc : c.toValue = (Json.object es).toValue)
    (hregular : (Json.object es).Every Json.IsRegular)
    (hwide : ¬ (Json.object es).Every Json.HasNarrowNames) :
    ∃ e, ofText (Yaml.render es) = .error e := by
  obtain ⟨j, fs, rfl⟩ := exists_cons hc
  obtain ⟨e, he⟩ := Yaml.read_render_eq_error "workloadType" j fs hregular hwide
  rw [ofText, valueOfText_render, valueOfYaml, he]
  exact ⟨_, rfl⟩

/-- A component whose defaults are plain data comes back from its YAML document exactly if each of
its defaults does. It does not even come back as a component that is the same otherwise. -/
theorem yaml_roundTrip (c : Component) (hplain : c.EveryDefault (·.IsPlain Json.IsRegular)) :
    ((∃ t, c.dump "yaml" = .ok t ∧ ofText t = .ok c) ↔ c.EveryDefault Value.ComesBack) ∧
      ((∃ t c', c.dump "yaml" = .ok t ∧ ofText t = .ok c' ∧ c'.same c = true) ↔
        c.EveryDefault Value.ComesBack) := by
  obtain ⟨es, hc, hregular⟩ := exists_object hplain
  have hformat : Format.ofName? "yaml" = some .yaml := rfl
  have hunicode : c.EveryDefault (·.IsPlain Json.HasUnicodeNames) ↔
      (Json.object es).Every Json.HasUnicodeNames := by
    rw [← isPlain_toValue_iff Json.isCommon_hasUnicodeNames, hc, Value.isPlain_toValue_iff]
  have hnarrow : c.EveryDefault (·.IsPlain Json.HasNarrowNames) ↔
      (Json.object es).Every Json.HasNarrowNames := by
    rw [← isPlain_toValue_iff Json.isCommon_hasNarrowNames, hc, Value.isPlain_toValue_iff]
  -- Under the condition every default is read back as it was.
  have hback (h : c.EveryDefault Value.ComesBack) :
      ∃ t, c.dump "yaml" = .ok t ∧ ofText t = .ok c := by
    have hnames := hunicode.mp (h.imp fun _ hv => hv.hasUnicodeNames)
    have hnarrow := hnarrow.mp (h.imp fun _ hv => hv.hasNarrowNames)
    have hseen : c.EveryDefault fun v => Yaml.seen 4 4 v = v :=
      (hplain.and h).imp fun _ hv => Value.seen_eq_self hv.1 hv.2
    have hread := ofText_yaml_eq hc hregular hnarrow
    rw [mapDefaults_eq_self hseen] at hread
    exact ⟨_, dump_eq hformat hc hregular hnames, hread⟩
  -- Without it the component is not written, or its document is refused, or a default is another.
  have hsame (h : ∃ t c', c.dump "yaml" = .ok t ∧ ofText t = .ok c' ∧ c'.same c = true) :
      c.EveryDefault Value.ComesBack := by
    obtain ⟨t, c', hdump, hread, hsame⟩ := h
    have hnames := hasUnicodeNames_of_dump hc hdump
    have ht : .ok t = Except.ok (Yaml.render es) :=
      hdump.symm.trans (dump_eq hformat hc hregular hnames)
    rw [Except.ok.inj ht] at hread
    by_cases hwide : (Json.object es).Every Json.HasNarrowNames
    · rw [ofText_yaml_eq hc hregular hwide, Except.ok.injEq] at hread
      rw [← hread, same_mapDefaults_iff] at hsame
      have hkept := (hplain.and hsame).imp fun _ hv => Value.exists_isKept hv.1 hv.2
      exact (((hunicode.mpr hnames).and (hnarrow.mpr hwide)).and hkept).imp
        fun _ hv => ⟨hv.1.1, hv.1.2, hv.2⟩
    · -- A name that is too wide for its key makes the document unreadable.
      obtain ⟨e, he⟩ := ofText_yaml_eq_error hc hregular hwide
      rw [he] at hread
      cases hread
  refine ⟨⟨?_, hback⟩, hsame, ?_⟩
  · rintro ⟨t, hdump, hread⟩
    exact hsame ⟨t, c, hdump, hread, c.same_refl⟩
  · intro h
    obtain ⟨t, hdump, hread⟩ := hback h
    exact ⟨t, c, hdump, hread, c.same_refl⟩

/-- Words that look like others come back as texts. -/
theorem yaml_roundTrip_words :
    let c := ofDefault (.map [(.text "no", .list [.text "1", .text "", .text " a: b\n", .null])])
    c.EveryDefault (·.IsPlain Json.IsRegular) ∧ c.EveryDefault Value.ComesBack ∧
      ∃ t, c.dump "yaml" = .ok t ∧ ofText t = .ok c := by
  intro c
  let j := Json.object [("no", .array [.text "1", .text "", .text " a: b\n", .null])]
  have hv : Value.map [(.text "no", .list [.text "1", .text "", .text " a: b\n", .null])]
    = j.toValue := rfl
  have hplain : c.EveryDefault (·.IsPlain Json.IsRegular) := by
    have hnames : [Text.ofString "no"].Nodup := List.nodup_singleton _
    have htexts : Json.EveryItem Json.IsRegular [.text "1", .text "", .text " a: b\n", .null] :=
      ⟨⟨trivial, trivial, trivial⟩, ⟨trivial, trivial, trivial⟩, ⟨trivial, trivial, trivial⟩,
        ⟨trivial, trivial, trivial⟩, trivial⟩
    exact everyDefault_ofDefault.mpr
      ⟨j, hv, ⟨trivial, trivial, hnames⟩, ⟨⟨trivial, trivial, trivial⟩, htexts⟩, trivial⟩
  have hitems (p : Json → Prop) (hp : Json.IsCommon p) : (j.toValue).IsPlain p := by
    refine ⟨j, rfl, hp.object _ (by decide), ⟨hp.array _, ?_⟩, trivial⟩
    exact ⟨hp.text _, hp.text _, hp.text _, hp.null, trivial⟩
  have hback : c.EveryDefault Value.ComesBack :=
    everyDefault_ofDefault.mpr ⟨hitems _ Json.isCommon_hasUnicodeNames,
      hitems _ Json.isCommon_hasNarrowNames, j, hv, Json.isKept_of_depth j (by decide) (by decide)⟩
  exact ⟨hplain, hback, (yaml_roundTrip c hplain).1.mpr hback⟩

/-- A simple key of 103 code points that are escaped takes 1032 characters, and is refused by the
reader. -/
theorem ofText_yaml_wide_name :
    let c := ofDefault (.map [(.text (List.replicate 103 (.char '😀')), .int 1)])
    c.EveryDefault (·.IsPlain Json.IsRegular) ∧ c.EveryDefault (·.depth < 100) ∧
      ∃ t, c.dump "yaml" = .ok t ∧ ∃ e, ofText t = .error e := by
  intro c
  let name : Text := List.replicate 103 (.char '😀')
  let j := Json.object [(name, .int 1)]
  have hplain : c.EveryDefault (·.IsPlain Json.IsRegular) :=
    everyDefault_ofDefault.mpr ⟨j, rfl, ⟨trivial, trivial, List.nodup_singleton _⟩,
      ⟨Json.isShort_int32 1, trivial, trivial⟩, trivial⟩
  have hdepth : c.EveryDefault (·.depth < 100) := everyDefault_ofDefault.mpr (by decide)
  obtain ⟨es, hc, hregular⟩ := exists_object hplain
  -- The name is written as a simple key, but its escapes are too wide for one.
  have hsimple : Yaml.isSimpleKey name = true := by decide
  have hwidth : ¬ Yaml.keyWidth name ≤ 1024 := by decide +kernel
  have hunicode : (Json.object es).Every Json.HasUnicodeNames := by
    rw [← Value.isPlain_toValue_iff, ← hc, isPlain_toValue_iff Json.isCommon_hasUnicodeNames,
      everyDefault_ofDefault]
    refine ⟨j, rfl, fun e he d hd => ?_, trivial, trivial⟩
    rw [List.mem_singleton] at he
    rw [he] at hd
    exact ⟨'😀', List.eq_of_mem_replicate hd⟩
  have hwide : ¬ (Json.object es).Every Json.HasNarrowNames := by
    rw [← Value.isPlain_toValue_iff, ← hc, isPlain_toValue_iff Json.isCommon_hasNarrowNames,
      everyDefault_ofDefault]
    rintro ⟨k, hk, hnarrow⟩
    rw [← Json.toValue_injective j k hk] at hnarrow
    exact hwidth (hnarrow.1 (name, .int 1) List.mem_cons_self hsimple)
  have hformat : Format.ofName? "yaml" = some .yaml := rfl
  exact ⟨hplain, hdepth, _, dump_eq hformat hc hregular hunicode,
    ofText_yaml_eq_error hc hregular hwide⟩

end Component

end Schematic
