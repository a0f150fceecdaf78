import Schematic.Component
import Schematic.Value.Literal

/-!
# Resolution of parameters

Every parameter of a component has one effective value: the one that the caller supplies, or else
its default. Resolution puts these values in the place of all references in environment variables
and settings. When a name is declared more than once, the first declaration counts.
-/

namespace Schematic

/-- The part of a component that refers to a parameter. -/
inductive Owner where
  | env (name container : Text)
  | setting (name : Text)
  deriving DecidableEq

/-- Why supplied values do not go with a component. -/
inductive ParameterError where
  | unknown (names : List Text)
  | mistyped (name : Text) (type : ParameterType) (v : Value)
  | missing (name : Text)
  | undeclared (owner : Owner) (name : Text)

/-- Why a component is not resolved. -/
inductive ResolutionError where
  | parameter (e : ParameterError)
  | literal (e : LiteralError)

/-- The part that refers to a parameter, in words. -/
def Owner.text : Owner → Text
  | .env name container => "Env '" ++ name ++ "' in container '" ++ container ++ "'"
  | .setting name => "Workload setting '" ++ name ++ "'"

def ParameterError.message : ParameterError → Text
  | .unknown names => "Unknown parameter(s): " ++ Text.join ", " names
  | .mistyped name type v =>
    "Parameter '" ++ name ++ "' expects a " ++ type.token ++ " value, got " ++ v.kindName
  | .missing name => "Missing value for required parameter '" ++ name ++ "'"
  | .undeclared owner name => owner.text ++ " references undeclared parameter '" ++ name ++ "'"

def ResolutionError.message : ResolutionError → Text
  | .parameter e => e.message
  | .literal e => e.message

/-- Values by the names of parameters. -/
abbrev Bindings := List (Text × Value)

/-- The value that is bound to a name. -/
def Bindings.value? (name : Text) (bs : Bindings) : Option Value :=
  (bs.find? fun b => b.1 == name).map (·.2)

/-- The first declaration of each name, in order. -/
def Parameter.firsts : List Parameter → List Parameter
  | [] => []
  | p :: ps => p :: (firsts ps).filter (·.name != p.name)

/-- The effective value of a parameter. -/
def Parameter.effective (supplied : Bindings) (p : Parameter) : Except ParameterError Value :=
  match supplied.value? p.name with
  | some v => if p.type.admits v then .ok v else .error (.mistyped p.name p.type v)
  | none =>
    if !p.default.isNull then .ok p.default
    else if p.required then .error (.missing p.name)
    else .ok .null

namespace Component

/-- The names among the supplied ones that no parameter declares, in order. -/
def unknownNames (c : Component) (supplied : Bindings) : List Text :=
  let names := (supplied.map (·.1)).filter fun n => !c.parameters.any (·.name == n)
  names.mergeSort Text.le

/-- The effective values of all parameters, in the order of their first declarations. -/
def effectiveValues (c : Component) (supplied : Bindings) : Except ParameterError Bindings :=
  match c.unknownNames supplied with
  | [] =>
    (Parameter.firsts c.parameters).mapM fun p => do
      let v ← p.effective supplied
      return (p.name, v)
  | names => .error (.unknown names)

end Component

/-- The name of the parameter that a part refers to. An empty name is no reference. -/
def reference? : Option Text → Option Text
  | some (c :: name) => some (c :: name)
  | _ => none

/-- The value that a part refers to. -/
def Owner.lookup (owner : Owner) (values : Bindings) (name : Text) :
    Except ResolutionError Value :=
  match values.value? name with
  | some v => .ok v
  | none => .error (.parameter (.undeclared owner name))

/-- An environment variable with a literal in the place of its reference. -/
def Env.resolve (values : Bindings) (container : Text) (e : Env) : Except ResolutionError Env :=
  match reference? e.fromParam with
  | none => .ok e
  | some name => do
    let v ← (Owner.env e.name container).lookup values name
    let value ← v.envText.mapError .literal
    return { e with value, fromParam := none }

/-- A container whose environment variables are resolved. -/
def Container.resolve (values : Bindings) (c : Container) : Except ResolutionError Container := do
  let env ← c.env.mapM (Env.resolve values c.name)
  return { c with env }

/-- A setting whose default takes the place of its reference. -/
def WorkloadSetting.resolve (values : Bindings) (s : WorkloadSetting) :
    Except ResolutionError WorkloadSetting :=
  match reference? s.fromParam with
  | none => .ok s
  | some name => do
    let default ← (Owner.setting s.name).lookup values name
    return { s with default, fromParam := none }

namespace Component

/-- A component in which effective values take the place of all references. -/
def substitute (values : Bindings) (c : Component) : Except ResolutionError Component := do
  let containers ← c.containers.mapM (Container.resolve values)
  let workloadSettings ← c.workloadSettings.mapM (WorkloadSetting.resolve values)
  return { c with containers, workloadSettings }

/-- A component with all its references resolved against supplied values. -/
def resolve (c : Component) (supplied : Bindings) : Except ResolutionError Component := do
  let values ← (c.effectiveValues supplied).mapError .parameter
  c.substitute values

end Component

end Schematic
