import Schematic.Proofs.Component.Plain
import Schematic.Proofs.Yaml.Kept

/-!
# What a reader sees of a component

In the document of a component only defaults reach far to the right. So the component is seen as it
is apart from its defaults, which are seen as they stand at an indentation of four.
-/

namespace Schematic

open Value (ofOption ofList ofInt32 record)
open Yaml (seen seenItems seenEntries)

/-! ### Values of parts -/

namespace Yaml

variable {items indent : Nat} {α : Type} {write : α → Value}

lemma seen_text (t : Text) (h : indent < lineWidth) : seen items indent (.text t) = .text t :=
  congrArg Value.text (seenText_eq_self fun hfar => absurd h (Nat.not_lt.mpr hfar))

lemma seen_ofOption_text (o : Option Text) (h : indent < lineWidth) :
    seen items indent (ofOption .text o) = ofOption .text o := by
  cases o with
  | none => rfl
  | some t => exact seen_text t h

/-- A list is seen item by item. -/
lemma seen_ofList (as : List α) :
    seen items indent (ofList write as)
      = ofList (fun a => seen (items + 2) items (write a)) as := by
  have hitems : seenItems items (as.map write)
      = as.map fun a => seen (items + 2) items (write a) := by
    induction as with
    | nil => rfl
    | cons a as ih => rw [List.map_cons, List.map_cons, seenItems, ih]
  rw [ofList, ofList, seen, hitems]

/-- The fields of a record are written beside their names. -/
lemma seen_record {fields : List (Text × Value)}
    (hnames : Text.AreFieldNames (fields.map Prod.fst)) :
    seen items indent (record fields)
      = record (fields.map fun f => (f.1, seen (indent + 2) (indent + 2) f.2)) := by
  have hentries : seenEntries indent (fields.map fun f => (.text f.1, f.2))
      = fields.map fun f => (.text f.1, seen (indent + 2) (indent + 2) f.2) := by
    have hsimple : ∀ f ∈ fields, isSimpleKey f.1 = true :=
      fun f hf => (hnames.2 f.1 (List.mem_map_of_mem hf)).2.1
    clear hnames
    induction fields with
    | nil => rfl
    | cons f fields ih =>
      rw [List.forall_mem_cons] at hsimple
      rw [List.map_cons, List.map_cons, seenEntries, ih hsimple.2, seenKey, isBeside, hsimple.1,
        Bool.not_true, seenText_false]
      rfl
  have hdistinct := Json.haveDistinctKeys_map
    (g := fun f : Text × Value => seen (indent + 2) (indent + 2) f.2).mpr hnames.1
  rw [record, seen, hentries, Value.ofEntries_eq_map hdistinct, record, List.map_map]
  rfl

end Yaml

/-! ### Parts of components -/

/-- A container is seen as it was written. -/
lemma Container.seen_toValue (c : Container) : seen 4 2 c.toValue = c.toValue := by
  obtain ⟨j, hj, hregular⟩ := c.isPlain_toValue Json.isCommon_isRegular
  have hdepth : j.depth ≤ 5 := by
    rw [← Json.depth_toValue, ← hj]
    exact c.depth_toValue_le
  have hdistinct := Json.Every.imp (fun _ h => h.hasDistinctNames) j hregular
  rw [hj]
  exact Json.seen_eq_self j hdistinct
    (Json.isKept_of_depth j (by rw [Yaml.lineWidth]; omega) (by rw [Yaml.lineWidth]; omega))

/-- A parameter is seen as it was written, but for its default. -/
lemma Parameter.seen_toValue (p : Parameter) :
    seen 4 2 p.toValue = { p with default := seen 4 4 p.default }.toValue := by
  have hwidth : 4 < Yaml.lineWidth := by decide
  rw [toValue, Yaml.seen_record (by simp only [List.map]; decide)]
  simp only [List.map_cons, List.map_nil, Yaml.seen_text _ hwidth, Yaml.seen_ofOption_text _ hwidth]
  rfl

/-- A setting is seen as it was written, but for its default. -/
lemma WorkloadSetting.seen_toValue (s : WorkloadSetting) :
    seen 4 2 s.toValue = { s with default := seen 4 4 s.default }.toValue := by
  have hwidth : 4 < Yaml.lineWidth := by decide
  rw [toValue, Yaml.seen_record (by simp only [List.map]; decide)]
  simp only [List.map_cons, List.map_nil, Yaml.seen_text _ hwidth, Yaml.seen_ofOption_text _ hwidth]
  rfl

namespace Component

def mapDefaults (f : Value → Value) (c : Component) : Component :=
  { c with
    parameters := c.parameters.map fun p => { p with default := f p.default }
    workloadSettings := c.workloadSettings.map fun s => { s with default := f s.default } }

/-- The value of a component is seen as that of the component with the defaults that are seen. -/
theorem seen_toValue (items : Nat) (c : Component) :
    seen items 0 c.toValue = (c.mapDefaults (seen 4 4)).toValue := by
  have hwidth : 2 < Yaml.lineWidth := by decide
  rw [toValue, Yaml.seen_record (by simp only [fields, List.map]; decide)]
  simp only [fields, List.map_cons, List.map_nil, Nat.reduceAdd, Yaml.seen_text _ hwidth,
    Yaml.seen_ofList, Parameter.seen_toValue, WorkloadSetting.seen_toValue, Container.seen_toValue]
  simp only [toValue, fields, mapDefaults, ofList, List.map_map, Function.comp_def]

variable {f : Value → Value} {c : Component}

/-- A component whose defaults stay as they are is the same component. -/
lemma mapDefaults_eq_self (h : c.EveryDefault fun v => f v = v) : c.mapDefaults f = c := by
  have hparameters : c.parameters.map (fun p => { p with default := f p.default })
      = c.parameters := by
    conv_rhs => rw [← List.map_id c.parameters]
    refine List.map_congr_left fun p hp => ?_
    have hdefault : f p.default = p.default := h.parameters p hp
    rw [hdefault, id]
  have hsettings : c.workloadSettings.map (fun s => { s with default := f s.default })
      = c.workloadSettings := by
    conv_rhs => rw [← List.map_id c.workloadSettings]
    refine List.map_congr_left fun s hs => ?_
    have hdefault : f s.default = s.default := h.workloadSettings s hs
    rw [hdefault, id]
  rw [mapDefaults, hparameters, hsettings]

/-- A component with other defaults is the same exactly if they are. -/
lemma same_mapDefaults_iff :
    (c.mapDefaults f).same c = true ↔ c.EveryDefault fun v => (f v).same v = true := by
  have hpairwise {α : Type} {same : α → α → Bool} {g : α → α} (as : List α) :
      pairwiseSame same (as.map g) as = true ↔ ∀ a ∈ as, same (g a) a = true := by
    induction as with
    | nil => simp [pairwiseSame]
    | cons a as ih => simp [pairwiseSame, ih]
  simp only [Component.same, mapDefaults, beq_self_eq_true, Bool.true_and, Bool.and_eq_true,
    hpairwise, Parameter.same, WorkloadSetting.same, and_true]
  exact ⟨fun h => ⟨h.1, h.2⟩, fun h => ⟨h.1, h.2⟩⟩

end Component

end Schematic
