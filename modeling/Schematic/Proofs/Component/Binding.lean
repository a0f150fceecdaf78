import Schematic.Proofs.Component.Agreement
import Schematic.Proofs.Component.Schema
import Schematic.Proofs.Json.StrictData
import Schematic.Proofs.Value.Normal
import Schematic.Proofs.Yaml.Binding

/-!
# What the defaults of components bind

A default is read as it stands in its document. So the maps in it bind hashable keys, each of them
once, as all maps of documents do.
-/

namespace Schematic

open Schema (Field)

namespace Schema

variable {d : Dialect} {v w : Value} {name : Text} {fields : List Field} {fs : List (Value × Value)}

lemma bindsOnce_of_get? {es : List (Value × Value)} (h : (Value.map es).BindsOnce) {t : Text}
    (hget : Value.get? t es = some w) : w.BindsOnce := by
  obtain ⟨e, he, rfl⟩ := Option.map_eq_some_iff.mp hget
  exact Value.bindOnceEntries_iff.mp h.2.2 e (List.mem_of_find?_eq_some he)

/-- A value that is read as it is binds each key once if it did so before. -/
lemma bindsOnce_of_any (hnames : (fields.map Field.name).Nodup)
    (h : (record name fields).read d v = .valid (.map fs)) {t : Text}
    (hf : Field.defaulted t .null .any ∈ fields) (hv : v.BindsOnce)
    (hget : Value.get? t fs = some w) :
    w.BindsOnce := by
  obtain ⟨es, rfl, hread⟩ := field_of_read hnames h hf hget
  rw [Field.read_eq] at hread
  cases hes : Value.get? t es with
  | none =>
    simp only [Field.defaulted, hes] at hread
    cases hread
    trivial
  | some u =>
    simp only [Field.defaulted, hes, Checked.under_eq_valid_iff] at hread
    cases hread
    exact bindsOnce_of_get? hv hes

/-- The items of a list bind their keys once, as the list does. -/
lemma bindsOnce_of_items? {vs : List Value} (h : v.BindsOnce)
    (hitems : FieldReader.items? v = some vs) :
    ∀ u ∈ vs, u.BindsOnce := by
  cases v with
  | list us | tuple us | set us =>
    cases hitems
    exact Value.bindOnceItems_iff.mp h
  | _ => cases hitems

/-- The items of a list are read from values that bind each key once if the whole did so before. -/
lemma bindsOnce_of_listed (hnames : (fields.map Field.name).Nodup)
    (h : (record name fields).read d v = .valid (.map fs)) {t : Text} {s : Schema}
    (hf : Field.listed t s ∈ fields) (hv : v.BindsOnce) {ws : List Value}
    (hget : Value.get? t fs = some (.list ws)) :
    ∀ w ∈ ws, ∃ u, u.BindsOnce ∧ s.read d u = .valid w := by
  obtain ⟨es, rfl, hread⟩ := field_of_read hnames h hf hget
  rw [Field.read_eq] at hread
  cases hes : Value.get? t es with
  | none =>
    simp only [Field.listed, Field.defaulted, hes] at hread
    cases hread
    exact List.forall_mem_nil _
  | some u =>
    simp only [Field.listed, Field.defaulted, hes, Checked.under_eq_valid_iff] at hread
    intro w hw
    obtain ⟨us, u', hitems, hmem, hitem⟩ := item_of_read hread hw
    exact ⟨u', bindsOnce_of_items? (bindsOnce_of_get? hv hes) hitems u' hmem, hitem⟩

end Schema

namespace Component

variable {c : Component} {es : List (Text × Json)}

/-- The defaults of a component bind each key once if its document does. -/
lemma bindsOnce_of_read {d : Dialect} {v : Value} (hv : v.BindsOnce)
    (h : Component.read d v = .valid c) :
    c.EveryDefault Value.BindsOnce := by
  have hread : schema.read d v = .valid c.toValue := follows.read_valid h
  constructor
  · intro p hp
    obtain ⟨u, hu, hparameter⟩ :=
      Schema.bindsOnce_of_listed (by decide) hread (t := "parameters") (s := Parameter.schema)
        (by simp) hv (Value.get?_record _ _) p.toValue (List.mem_map_of_mem hp)
    exact Schema.bindsOnce_of_any (by decide) hparameter (t := "default") (by simp) hu
      (Value.get?_record _ _)
  · intro s hs
    obtain ⟨u, hu, hsetting⟩ :=
      Schema.bindsOnce_of_listed (by decide) hread (t := "workloadSettings")
        (s := WorkloadSetting.schema) (by simp) hv (Value.get?_record _ _) s.toValue
        (List.mem_map_of_mem hs)
    exact Schema.bindsOnce_of_any (by decide) hsetting (t := "default") (by simp) hu
      (Value.get?_record _ _)

/-- The component was read from a document: from a value, whose maps bind hashable keys once, from a
text, or from JSON text by the strict grammar. -/
inductive IsRead (c : Component) : Prop
  | value {v : Value} : v.BindsOnce → ofValue v = .ok c → IsRead c
  | text {t : Text} : ofText t = .ok c → IsRead c
  | json {t : Text} : ofJson t = .ok c → IsRead c

/-- The value of a text binds each key once. -/
lemma bindsOnce_of_valueOfText {t : Text} {v : Value} (h : valueOfText t = .ok v) :
    v.BindsOnce := by
  rw [valueOfText] at h
  split at h
  · next j hj =>
    cases h
    exact (Value.bindsOnce_toValue_iff j).mpr
      (Json.every_of_read Json.holdsOfSpelled_hasDistinctNames hj)
  · cases h
  · rw [valueOfYaml] at h
    cases hread : Yaml.read t with
    | ok w =>
      rw [hread] at h
      cases h
      exact Yaml.bindsOnce_of_read hread
    | error e =>
      rw [hread] at h
      cases h

/-- The defaults of a component that was read bind their keys once. -/
lemma IsRead.bindsOnce (h : c.IsRead) : c.EveryDefault Value.BindsOnce := by
  cases h with
  | value hv hread => exact bindsOnce_of_read hv (ofValue_eq_ok_iff.mp hread)
  | text hread =>
    rw [ofText] at hread
    obtain ⟨v, hv, hread⟩ := exists_of_bind_eq_ok hread
    split at hread
    · cases hread
    · exact bindsOnce_of_read (bindsOnce_of_valueOfText hv) (ofValue_eq_ok_iff.mp hread)
  | json hread =>
    obtain ⟨j, hj, hread⟩ := exists_of_ofJson hread
    have hv : j.toValue.BindsOnce :=
      (Value.bindsOnce_toValue_iff j).mpr (Json.Strict.hasDistinctNames_of_read hj)
    exact bindsOnce_of_read hv hread

end Component

end Schematic
