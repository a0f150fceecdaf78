import Schematic.Component.Document
import Schematic.GroupVersionKind
import Schematic.Http.Body
import Schematic.Http.Cors
import Schematic.Http.Url
import Schematic.Pod.Manifest

/-!
# The service

The routes of the service: its health, checking a component, rendering a component as data or as
YAML, and taking a full name apart. A fault of the request is answered with a status of its own; a
fault of the service itself is answered without details.
-/

namespace Schematic.Http

/-- The routes of the service. -/
inductive Route where
  | health
  | validate
  | render
  | renderYaml
  | parseName
  deriving DecidableEq

namespace Route

/-- The routes in the order in which they are tried. -/
def all : List Route := [.health, .validate, .render, .renderYaml, .parseName]

def path : Route → Text
  | .health => "/health"
  | .validate => "/components/validate"
  | .render => "/components/render"
  | .renderYaml => "/components/render/yaml"
  | .parseName => "/gvk/parse"

def method : Route → Text
  | .health | .parseName => "GET"
  | .validate | .render | .renderYaml => "POST"

def ofPath? (path : Text) : Option Route := all.find? fun route => route.path == path

end Route

/-- What comes of handling a request: a response, or a refusal. Without either the service fails. -/
abbrev Handled := Except Response (Option Response)

/-- A response to a request that is at fault. -/
def refuse {α : Type} (message : Text) : Except Response α := .error (.detail 400 message)

/-- The parts of a full name as data. -/
def nameJson (g : GroupVersionKind) : Json := .object [
  ("group", .text g.group), ("version", .text g.version), ("kind", .text g.kind)]

def fullName (t : Text) : Except Response GroupVersionKind :=
  match GroupVersionKind.parse t with
  | .ok g => .ok g
  | .error e => refuse e.message

def componentOf (v : Value) : Except Response Component :=
  match Component.ofValue v with
  | .ok c => .ok c
  | .error e => refuse e.message

/-- The values of parameters by name. -/
def bindingsOf (entries : List (Value × Value)) : Bindings :=
  entries.filterMap fun (k, v) =>
    match k with
    | .text name => some (name, v)
    | _ => none

/-- The manifest of a component; a value without literal is a fault of the service. -/
def manifestOf (c : Component) (supplied : Bindings) :
    Except Response (Option (List (Text × Json))) :=
  match c.podManifest supplied with
  | .ok manifest => .ok (some manifest)
  | .error (.parameter e) => refuse e.message
  | .error (.literal _) => .ok none

/-- Check a component and give it back with its defaults. -/
def validate (r : Request) : Handled := do
  let entries ← r.readBody mapField
  let c ← componentOf (.map entries)
  match c.plain with
  | .ok fields => return some (.ofJson 200 (.object fields))
  | .error _ => return none

/-- Render a component as data. -/
def render (r : Request) : Handled := do
  let body ← r.readBody RenderBody.read
  let c ← componentOf body.component
  let g ← fullName c.workloadType
  match ← manifestOf c (bindingsOf body.supplied) with
  | none => return none
  | some manifest =>
    return some (.ofJson 200 (.object [
      ("workloadType", .text c.workloadType), ("groupVersionKind", nameJson g),
      ("podSpec", .object manifest)]))

/-- Render a component as YAML. -/
def renderYaml (r : Request) : Handled := do
  let body ← r.readBody RenderBody.read
  let c ← componentOf body.component
  match c.podManifest (bindingsOf body.supplied) with
  | .error (.parameter e) => refuse e.message
  | .error (.literal e) =>
    throw (.detail 500 ("Failed to render component: " ++ e.message))
  | .ok manifest =>
    return some (.ofJson 200 (.object [
      ("filename", .text c.manifestFilename), ("yaml", .text (Format.yaml.text manifest))]))

/-- Take a full name apart. -/
def parseName (r : Request) : Handled :=
  match r.parameter? "value" with
  | none => throw (.unprocessable [⟨⟨[.name "query", .name "value"], .missing⟩, .null⟩])
  | some t => do
    let g ← fullName t
    return some (.ofJson 200 (nameJson g))

/-- Handle a request to a route. -/
def Route.handle : Route → Request → Handled
  | .health, _ => .ok (some (.ofJson 200 (.object [("status", .text "ok")])))
  | .validate, r => Http.validate r
  | .render, r => Http.render r
  | .renderYaml, r => Http.renderYaml r
  | .parseName, r => Http.parseName r

def withoutFinalSlashes (path : Text) : Text :=
  (path.reverse.dropWhile (· = .char '/')).reverse

/-- The response to a path that no route has: a slash too much leads to the route without it. -/
def noRoute (path : Text) : Response :=
  let shorter := withoutFinalSlashes path
  if path.getLast? = some (.char '/') ∧ (Route.ofPath? shorter).isSome then .redirect shorter
  else .detail 404 "Not Found"

/-- The response to a request, if the service does not fail on it. -/
def respond (r : Request) : Option Response :=
  match Route.ofPath? r.path with
  | none => some (noRoute r.path)
  | some route =>
    if r.method != route.method then some (.methodNotAllowed route.method)
    else
      match route.handle r with
      | .ok response => response.bind Response.sendable?
      | .error refusal => refusal.sendable?

/-- The response of the service to a request, when calls from some origins are allowed. -/
def serve (origins : List Text) (r : Request) : Response :=
  (Cors.around origins respond r).getD .serverError

/-- What a client gets for a request: it follows a redirection, and a response to a request for
headers alone has no content. -/
def fetch (origins : List Text) (r : Request) : Response :=
  let first := serve origins r
  let final :=
    match first.status, first.header? "location" with
    | 307, some path => serve origins { r with path }
    | _, _ => first
  if r.method = Text.ofString "HEAD" then { final with content := .text [] } else final

end Schematic.Http
