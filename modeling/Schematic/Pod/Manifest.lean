import Schematic.Component.Writer
import Schematic.Component.Resolution
import Schematic.Pod.Projection

/-!
# Manifests

A pod as plain data: the names of its fields in the alphabet's order, without the fields that are
not set. A list is set even when it is empty.
-/

namespace Schematic

namespace Json

def ofFields (fields : List (Text × Option Json)) : Json :=
  .object (fields.filterMap fun (name, j) => j.map ((name, ·)))

/-- An integer of 32 bits as plain data. -/
def ofInt32 (n : Int32) : Json := .int n.toInt

def ofList {α : Type} (write : α → Json) (as : List α) : Json := .array (as.map write)

end Json

open Json (ofFields ofInt32 ofList)

/-- A variable as plain data. -/
def PodEnv.manifest (e : PodEnv) : Json := ofFields [
  ("name", some (.text e.name)), ("value", e.value.map .text)]

def PodPort.manifest (p : PodPort) : Json := ofFields [
  ("containerPort", some (ofInt32 p.containerPort)), ("name", some (.text p.name)),
  ("protocol", some (.text p.protocol))]

def PodHeader.manifest (h : PodHeader) : Json := ofFields [
  ("name", some (.text h.name)), ("value", some (.text h.value))]

def PodRequest.manifest (r : PodRequest) : Json := ofFields [
  ("httpHeaders", some (ofList PodHeader.manifest r.headers)), ("path", some (.text r.path)),
  ("port", some (ofInt32 r.port))]

def commandManifest (command : List Text) : Json := ofFields [
  ("command", some (ofList .text command))]

/-- A connection to a port as plain data. -/
def socketManifest (port : Int32) : Json := ofFields [("port", some (ofInt32 port))]

/-- A check as plain data. -/
def PodProbe.manifest (p : PodProbe) : Json := ofFields [
  ("exec", p.command.map commandManifest),
  ("failureThreshold", some (ofInt32 p.failureThreshold)),
  ("httpGet", p.request.map PodRequest.manifest),
  ("initialDelaySeconds", some (ofInt32 p.initialDelaySeconds)),
  ("periodSeconds", some (ofInt32 p.periodSeconds)),
  ("successThreshold", some (ofInt32 p.successThreshold)),
  ("tcpSocket", p.socket.map socketManifest),
  ("timeoutSeconds", some (ofInt32 p.timeoutSeconds))]

/-- Requested amounts of resources as plain data. -/
def requestsManifest (cpu memory : Text) : Json := ofFields [
  ("requests", some (ofFields [("cpu", some (.text cpu)), ("memory", some (.text memory))]))]

def PodContainer.manifest (c : PodContainer) : Json := ofFields [
  ("env", some (ofList PodEnv.manifest c.env)), ("image", some (.text c.image)),
  ("livenessProbe", c.livenessProbe.map PodProbe.manifest), ("name", some (.text c.name)),
  ("ports", some (ofList PodPort.manifest c.ports)),
  ("readinessProbe", c.readinessProbe.map PodProbe.manifest),
  ("resources", some (requestsManifest c.cpu c.memory))]

/-- The entries of a pod as plain data. -/
def PodSpec.manifest (p : PodSpec) : List (Text × Json) :=
  [("containers", ofList PodContainer.manifest p.containers)]

/-- Why a component is not rendered. -/
inductive RenderError where
  | resolution (e : ResolutionError)
  | unsupported (formatName : Text)

def RenderError.message : RenderError → Text
  | .resolution e => e.message
  | .unsupported name => (WriteError.unsupported name).message

namespace Component

/-- The manifest of a component, with its references resolved against supplied values. -/
def podManifest (c : Component) (supplied : Bindings) :
    Except ResolutionError (List (Text × Json)) := do
  let resolved ← c.resolve supplied
  return resolved.toPodSpec.manifest

/-- The manifest of a component as a document in the format of a name. -/
def renderPod (c : Component) (supplied : Bindings) (formatName : Text) :
    Except RenderError Text := do
  let manifest ← (c.podManifest supplied).mapError .resolution
  match Format.ofName? formatName with
  | some format => return format.text manifest
  | none => throw (.unsupported formatName)

/-- The name of a file for the manifest of a component. -/
def manifestFilename (c : Component) : Text :=
  let base : Text :=
    match c.containers with
    | [] => "component"
    | first :: _ => first.name
  "podspec-" ++ base ++ ".yaml"

end Component

end Schematic
