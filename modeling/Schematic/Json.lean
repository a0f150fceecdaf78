import Schematic.Value

/-!
# Plain data

The data that JSON text can hold: null, truth values, numbers, texts, arrays, and objects whose keys
are texts. Integers and floating-point numbers are kept apart, and an object keeps the order of its
entries.
-/

namespace Schematic

/-- Plain data. -/
inductive Json where
  | null
  | bool (b : Bool)
  | int (n : Int)
  | float (x : Double)
  | text (t : Text)
  | array (items : List Json)
  | object (entries : List (Text × Json))

instance : Inhabited Json := ⟨.null⟩

namespace Json

/-- The entries after a name is bound: a name that is there keeps its place. -/
def bind (name : Text) (value : Json) : List (Text × Json) → List (Text × Json)
  | [] => [(name, value)]
  | (k, v) :: rest => if k = name then (k, value) :: rest else (k, v) :: bind name value rest

/-- The entries that come from binding names one after another. -/
def bindAll (entries : List (Text × Json)) : List (Text × Json) :=
  entries.foldl (fun es e => bind e.1 e.2 es) []

def get? (name : Text) : Json → Option Json
  | .object entries => (entries.find? fun e => e.1 == name).map (·.2)
  | _ => none

mutual

def toValue : Json → Value
  | .null => .null
  | .bool b => .bool b
  | .int n => .int n
  | .float x => .float x
  | .text t => .text t
  | .array items => .list (toValues items)
  | .object entries => .map (toEntries entries)

def toValues : List Json → List Value
  | [] => []
  | j :: js => j.toValue :: toValues js

def toEntries : List (Text × Json) → List (Value × Value)
  | [] => []
  | (k, j) :: es => (.text k, j.toValue) :: toEntries es

end

end Json

end Schematic
