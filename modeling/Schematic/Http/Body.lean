import Schematic.Component.Field
import Schematic.Http.Message
import Schematic.Json.Reader

/-!
# Bodies of requests

Reading the body of a request as data. A body counts as JSON if its type says so; any other body is
a text, which is no map. The faults of a body are told by place and cause.
-/

namespace Schematic.Http

/-- The type says that a body is JSON. -/
def isJsonType (contentType : Text) : Bool :=
  let type := (Text.trim (contentType.takeWhile (· != .char ';'))).asciiLower
  match Text.splitAll (.char '/') type with
  | [main, sub] =>
    main == Text.ofString "application" &&
      (sub == Text.ofString "json" || (Text.ofString "+json").isSuffixOf sub)
  | _ => false

/-- The text without a mark of its encoding at its start. -/
def withoutMark : Text → Text
  | .char '\uFEFF' :: rest => rest
  | t => t

/-- The body of a request is at fault at a place in its text. -/
def unreadable (position : Nat) : Complaint :=
  ⟨⟨[.name "body", .index position], .unreadableBody⟩, .object []⟩

/-- The data in the body of a request, if it has one. -/
def Request.data (r : Request) : Except Response (Option Json) :=
  if r.body.isEmpty then .ok none
  else if ((r.header? "content-type").map isJsonType).getD true then
    match Json.read (withoutMark r.body) with
    | .ok j => .ok (some j)
    | .error (.malformed position) => .error (.unprocessable [unreadable position])
    | .error (.tooManyDigits _) => .error (.detail 400 "There was an error parsing the body")
  else .ok (some (.text r.body))

def mapField : FieldReader (List (Value × Value)) := fun _ v =>
  match v with
  | .map entries => .valid entries
  | _ => .fail .notMap

/-- The part of data at a path. What is missing is told of the data that it is missing from. -/
def inputAt : List PathStep → Json → Json
  | .name t :: path, j =>
    match j.get? t with
    | some part => inputAt path part
    | none => j
  | _, j => j

/-- What is wrong with a body, as complaints. -/
def complaints (body : Json) (ps : List Problem) : List Complaint :=
  ps.map fun p => ⟨p.under (.name "body"), inputAt p.path body⟩

/-- Read the body of a request as a record of some kind. Only an empty body is missing; a body that
is null is data, of the wrong kind. -/
def Request.readBody {α : Type} (r : Request) (read : FieldReader α) : Except Response α := do
  match ← r.data with
  | none => throw (.unprocessable (complaints .null [⟨[], .missing⟩]))
  | some j =>
    match read .values j.toValue with
    | .valid a => return a
    | .invalid ps => throw (.unprocessable (complaints j ps))

/-- What a request to render gives: a component and the values of parameters, by name. -/
structure RenderBody where
  component : Value
  supplied : List (Value × Value)

/-- Read the body of a request to render. The values have two names, of which the first one
counts. -/
def RenderBody.read : FieldReader RenderBody := fun dialect v =>
  match v with
  | .map entries =>
    let fs : Fields := ⟨dialect, entries⟩
    let name : Text :=
      if (Value.get? "parameterValues" entries).isSome then "parameterValues"
      else "parameter_values"
    RenderBody.mk <$> (fs.need "component" mapField).map .map <*> fs.take name [] mapField
  | _ => .fail .notBody

end Schematic.Http
