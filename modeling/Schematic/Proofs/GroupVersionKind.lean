import Schematic.GroupVersionKind
import Schematic.Proofs.Fault
import Schematic.Proofs.Text.Unicode

/-!
# Full names taken apart

A text has no slash, or no point after its first slash, or it is the text of one name whose group
holds no slash and whose version holds no point. In the first two cases a reader says what is
missing, and in the third it gives that name. So such names are read back as what they were, and all
other names as one that differs from them.
-/

namespace Schematic.GroupVersionKind

variable {t : Text} {g : GroupVersionKind}

/-- The separators of a name stand where a reader looks for them: the first slash ends the group,
and the first point after it ends the version. -/
def IsProper (g : GroupVersionKind) : Prop := .char '/' ∉ g.group ∧ .char '.' ∉ g.version

/-- What stands before and after the first slash of a text. -/
def FirstSlash (t before after : Text) : Prop :=
  before ++ .char '/' :: after = t ∧ .char '/' ∉ before

lemma text_eq (g : GroupVersionKind) :
    g.text = g.group ++ .char '/' :: (g.version ++ .char '.' :: g.kind) := by
  have hslash : (Text.ofString "/" : Text) = [.char '/'] := rfl
  have hpoint : (Text.ofString "." : Text) = [.char '.'] := rfl
  simp [text, apiVersion, hslash, hpoint]

/-! ### The three kinds of texts -/

lemma exists_of_firstSlash {before after : Text} (h : FirstSlash t before after)
    (hpoint : .char '.' ∈ after) :
    ∃ g : GroupVersionKind, g.text = t ∧ g.IsProper := by
  obtain ⟨version, kind, rfl, hversion⟩ := List.eq_append_cons_of_mem hpoint
  exact ⟨⟨before, version, kind⟩, (text_eq _).trans h.1, h.2, hversion⟩

/-- A text lacks a slash, or a point after its first slash, or is that of a name. -/
lemma text_cases (t : Text) :
    .char '/' ∉ t ∨ (∃ before after, FirstSlash t before after ∧ .char '.' ∉ after) ∨
      ∃ g : GroupVersionKind, g.text = t ∧ g.IsProper := by
  by_cases hslash : .char '/' ∈ t
  · obtain ⟨before, after, rfl, hbefore⟩ := List.eq_append_cons_of_mem hslash
    by_cases hpoint : .char '.' ∈ after
    · exact .inr (.inr (exists_of_firstSlash ⟨rfl, hbefore⟩ hpoint))
    · exact .inr (.inl ⟨before, after, ⟨rfl, hbefore⟩, hpoint⟩)
  · exact .inl hslash

lemma parse_of_not_mem (h : .char '/' ∉ t) : parse t = .error .versionAndKind := by
  rw [parse, Text.splitFirst?_eq_none h]

lemma parse_of_firstSlash {before after : Text} (h : FirstSlash t before after)
    (hpoint : .char '.' ∉ after) :
    parse t = .error .kind := by
  rw [parse, Text.splitFirst?_eq_some_iff.mpr h]
  simp only [Text.splitFirst?_eq_none hpoint]

lemma parse_text (h : g.IsProper) : parse g.text = .ok g := by
  rw [parse, text_eq, Text.splitFirst?_append h.1]
  simp only [Text.splitFirst?_append h.2]

/-! ### What is read -/

/-- A text is refused for its version and kind if it has no slash. -/
lemma parse_eq_versionAndKind_iff : parse t = .error .versionAndKind ↔ .char '/' ∉ t := by
  refine ⟨fun h => ?_, parse_of_not_mem⟩
  rcases text_cases t with hslash | ⟨before, after, hslash, hpoint⟩ | ⟨g, rfl, hg⟩
  · exact hslash
  · rw [parse_of_firstSlash hslash hpoint] at h
    cases h
  · rw [parse_text hg] at h
    cases h

/-- A text is refused for its kind if it has no point after its first slash. -/
lemma parse_eq_kind_iff :
    parse t = .error .kind ↔ ∃ before after, FirstSlash t before after ∧ .char '.' ∉ after := by
  constructor
  · intro h
    rcases text_cases t with hslash | hpoint | ⟨g, rfl, hg⟩
    · rw [parse_of_not_mem hslash] at h
      cases h
    · exact hpoint
    · rw [parse_text hg] at h
      cases h
  · rintro ⟨before, after, hslash, hpoint⟩
    exact parse_of_firstSlash hslash hpoint

/-- The name that is read from a text is the one proper name with this text. -/
lemma parse_eq_ok_iff : parse t = .ok g ↔ g.text = t ∧ g.IsProper := by
  constructor
  · intro h
    rcases text_cases t with hslash | ⟨before, after, hslash, hpoint⟩ | ⟨g', rfl, hg'⟩
    · rw [parse_of_not_mem hslash] at h
      cases h
    · rw [parse_of_firstSlash hslash hpoint] at h
      cases h
    · rw [parse_text hg'] at h
      cases h
      exact ⟨rfl, hg'⟩
  · rintro ⟨rfl, hg⟩
    exact parse_text hg

/-- A text is read if it has a point after its first slash. -/
lemma exists_parse_iff :
    (∃ g, parse t = .ok g) ↔ ∃ before after, FirstSlash t before after ∧ .char '.' ∈ after := by
  constructor
  · rintro ⟨g, h⟩
    obtain ⟨rfl, hgroup, -⟩ := parse_eq_ok_iff.mp h
    refine ⟨g.group, g.version ++ .char '.' :: g.kind, ⟨g.text_eq.symm, hgroup⟩, ?_⟩
    exact List.mem_append_right g.version List.mem_cons_self
  · rintro ⟨before, after, hslash, hpoint⟩
    obtain ⟨g, rfl, hg⟩ := exists_of_firstSlash hslash hpoint
    exact ⟨g, parse_text hg⟩

/-- From the text of any name a name is read. The first slash stands in the group or right after it,
and so there is a point behind it, the one before the kind. -/
lemma exists_parse_text (g : GroupVersionKind) : ∃ g', parse g.text = .ok g' := by
  obtain ⟨before, after, hsplit, hsub⟩ :=
    Text.exists_splitFirst?_append (.char '/') g.group (g.version ++ .char '.' :: g.kind)
  rw [← g.text_eq] at hsplit
  refine exists_parse_iff.mpr ⟨before, after, Text.splitFirst?_eq_some_iff.mp hsplit, hsub ?_⟩
  exact List.mem_append_right g.version List.mem_cons_self

/-- The messages tell the two faults apart. -/
lemma FormatError.message_injective : Function.Injective FormatError.message := by
  intro e f h
  cases e with
  | versionAndKind =>
    cases f with
    | versionAndKind => rfl
    | kind => exact absurd h (by decide)
  | kind =>
    cases f with
    | versionAndKind => exact absurd h (by decide)
    | kind => rfl

/-- The message tells which fault it was. -/
lemma mapError_message_iff (e : FormatError) :
    (parse t).mapError FormatError.message = .error e.message ↔ parse t = .error e := by
  rw [mapError_eq_error]
  constructor
  · rintro ⟨f, h, hmessage⟩
    rwa [← FormatError.message_injective hmessage]
  · exact fun h => ⟨e, h, rfl⟩

/-- Reading and writing are inverse to each other between the texts with a point after their first
slash and the names without a slash in the group and a point in the version. All other texts are
refused for what is missing in them, and all other names are read as a name that differs from
them. -/
theorem parse_inverts_text :
    (∀ t : Text,
      ((parse t).mapError FormatError.message = .error "missing version and kind" ↔ .char '/' ∉ t) ∧
      ((parse t).mapError FormatError.message = .error "missing kind" ↔
        ∃ before after, FirstSlash t before after ∧ .char '.' ∉ after) ∧
      ((∃ g, parse t = .ok g) ↔ ∃ before after, FirstSlash t before after ∧ .char '.' ∈ after) ∧
      ∀ g, parse t = .ok g ↔ g.text = t ∧ .char '/' ∉ g.group ∧ .char '.' ∉ g.version) ∧
    ∀ group version kind : Text, ∃ g, parse (GroupVersionKind.mk group version kind).text = .ok g ∧
      (g = ⟨group, version, kind⟩ ↔ .char '/' ∉ group ∧ .char '.' ∉ version) := by
  refine ⟨fun t => ⟨?_, ?_, exists_parse_iff, fun g => parse_eq_ok_iff⟩,
    fun group version kind => ?_⟩
  · exact (mapError_message_iff .versionAndKind).trans parse_eq_versionAndKind_iff
  · exact (mapError_message_iff .kind).trans parse_eq_kind_iff
  · obtain ⟨g, hg⟩ := exists_parse_text ⟨group, version, kind⟩
    refine ⟨g, hg, ?_⟩
    constructor
    · rintro rfl
      exact (parse_eq_ok_iff.mp hg).2
    · intro hproper
      have hself : parse (GroupVersionKind.mk group version kind).text
          = .ok ⟨group, version, kind⟩ := parse_text hproper
      exact Except.ok.inj (hg.symm.trans hself)

/-- A slash in the group ends it, and the version takes what is left. -/
example :
    parse (GroupVersionKind.mk "core/io" "v1" "Pod.Set").text = .ok ⟨"core", "io/v1", "Pod.Set"⟩ :=
  rfl

/-- The parts of a full name have bytes if the name has. -/
lemma isUnicode_of_parse (h : parse t = .ok g) (ht : t.IsUnicode) :
    g.group.IsUnicode ∧ g.version.IsUnicode ∧ g.kind.IsUnicode := by
  obtain ⟨rfl, -⟩ := parse_eq_ok_iff.mp h
  rw [text_eq] at ht
  refine ⟨fun c hc => ht c ?_, fun c hc => ht c ?_, fun c hc => ht c ?_⟩
  all_goals simp [hc]

end Schematic.GroupVersionKind
