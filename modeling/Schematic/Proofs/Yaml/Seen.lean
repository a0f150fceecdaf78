import Schematic.Proofs.Json.Every
import Schematic.Proofs.Yaml.Quoted

/-!
# What a reader sees of a written document

The reader of a written document sees each scalar where it was written. What is far to the right is
not always seen as it was; `seen` gives the value that is read for a written one.
-/

namespace Schematic.Yaml

/-- A key is written in front of its value on one line. -/
def isBeside : Value → Bool
  | .text name => isSimpleKey name
  | _ => true

/-- A key of a mapping at an indentation, as it is read. -/
def seenKey (indent : Nat) : Value → Value
  | .text name => .text (seenText (!isSimpleKey name) (indent + 2) name)
  | k => k

mutual

/-- A value that is written at an indentation, as it is read; the contents of the items of a list
stand at `items`. -/
def seen (items indent : Nat) : Value → Value
  | .text t => .text (seenText true indent t)
  | .list vs => .list (seenItems items vs)
  | .map es => .ofEntries (seenEntries indent es)
  | v => v

def seenItems (items : Nat) : List Value → List Value
  | [] => []
  | v :: vs => seen (items + 2) items v :: seenItems items vs

/-- Entries of a mapping at an indentation, as they are read. -/
def seenEntries (indent : Nat) : List (Value × Value) → List (Value × Value)
  | [] => []
  | (k, v) :: es =>
    (seenKey indent k, seen (indent + (if isBeside k then 2 else 4)) (indent + 2) v)
      :: seenEntries indent es

end

end Schematic.Yaml

namespace Schematic.Json

/-- No simple key of an object is too wide for the reader. -/
def HasNarrowNames : Json → Prop
  | .object entries => ∀ e ∈ entries, Yaml.isSimpleKey e.1 = true → Yaml.keyWidth e.1 ≤ 1024
  | .null | .bool _ | .int _ | .float _ | .text _ | .array _ => True

variable {name : Text} {j : Json} {js : List Json} {es : List (Text × Json)}

lemma every_hasNarrowNames_array_cons : (Json.array (j :: js)).Every HasNarrowNames
    ↔ j.Every HasNarrowNames ∧ (Json.array js).Every HasNarrowNames := by
  simp only [Every, EveryItem, HasNarrowNames, true_and]

lemma every_hasNarrowNames_object_cons : (Json.object ((name, j) :: es)).Every HasNarrowNames
    ↔ ((Yaml.isSimpleKey name = true → Yaml.keyWidth name ≤ 1024) ∧ j.Every HasNarrowNames) ∧
      (Json.object es).Every HasNarrowNames := by
  simp only [Every, EveryEntry, HasNarrowNames, List.forall_mem_cons]
  exact and_and_and_comm

end Schematic.Json
