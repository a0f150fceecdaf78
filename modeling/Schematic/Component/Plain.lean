import Schematic.Component.Record
import Schematic.Value.Plain

/-!
# Components as values

A component and each of its parts written back as a value, with every field under its wire name and
all defaults filled in; and the same as plain data.
-/

namespace Schematic

namespace Value

/-- A part that may be absent. -/
def ofOption {α : Type} (write : α → Value) : Option α → Value
  | none => .null
  | some a => write a

def ofList {α : Type} (write : α → Value) (as : List α) : Value := .list (as.map write)

/-- A number of 32 bits. -/
def ofInt32 (n : Int32) : Value := .int n.toInt

def record (fields : List (Text × Value)) : Value := .map (fields.map fun (k, v) => (.text k, v))

end Value

open Value (ofOption ofList ofInt32 record)

def Parameter.toValue (p : Parameter) : Value := record [
  ("name", .text p.name), ("description", ofOption .text p.description),
  ("type", .text p.type.token), ("required", .bool p.required), ("default", p.default)]

def WorkloadSetting.toValue (s : WorkloadSetting) : Value := record [
  ("name", .text s.name), ("description", ofOption .text s.description),
  ("type", .text s.type.token), ("required", .bool s.required), ("default", s.default),
  ("fromParam", ofOption .text s.fromParam)]

/-- An environment variable as a value. -/
def Env.toValue (e : Env) : Value := record [
  ("name", .text e.name), ("value", ofOption .text e.value),
  ("fromParam", ofOption .text e.fromParam)]

def Port.toValue (p : Port) : Value := record [
  ("name", .text p.name), ("containerPort", ofInt32 p.containerPort),
  ("protocol", .text p.protocol.token)]

def Exec.toValue (e : Exec) : Value := record [("command", ofList .text e.command)]

def HttpHeader.toValue (h : HttpHeader) : Value := record [
  ("name", .text h.name), ("value", .text h.value)]

def HttpGet.toValue (g : HttpGet) : Value := record [
  ("path", .text g.path), ("port", ofInt32 g.port),
  ("httpHeaders", ofList HttpHeader.toValue g.httpHeaders)]

def TcpSocket.toValue (s : TcpSocket) : Value := record [("port", ofInt32 s.port)]

def HealthProbe.toValue (p : HealthProbe) : Value := record [
  ("exec", ofOption Exec.toValue p.exec), ("httpGet", ofOption HttpGet.toValue p.httpGet),
  ("tcpSocket", ofOption TcpSocket.toValue p.tcpSocket),
  ("initialDelaySeconds", ofInt32 p.initialDelaySeconds),
  ("periodSeconds", ofInt32 p.periodSeconds), ("timeoutSeconds", ofInt32 p.timeoutSeconds),
  ("successThreshold", ofInt32 p.successThreshold),
  ("failureThreshold", ofInt32 p.failureThreshold)]

/-- The amount of a resource as a value. -/
def Requirement.toValue (r : Requirement) : Value := record [("required", .text r.required)]

def Path.toValue (p : Path) : Value := record [
  ("name", .text p.name), ("path", .text p.path), ("accessMode", .text p.accessMode.token),
  ("sharingPolicy", .text p.sharingPolicy.token)]

def Resources.toValue (r : Resources) : Value := record [
  ("cpu", r.cpu.toValue), ("memory", r.memory.toValue), ("gpu", r.gpu.toValue),
  ("paths", ofList Path.toValue r.paths)]

def Container.toValue (c : Container) : Value := record [
  ("name", .text c.name), ("image", .text c.image), ("resources", c.resources.toValue),
  ("env", ofList Env.toValue c.env), ("ports", ofList Port.toValue c.ports),
  ("livenessProbe", ofOption HealthProbe.toValue c.livenessProbe),
  ("readinessProbe", ofOption HealthProbe.toValue c.readinessProbe)]

def Status.toValue (s : Status) : Value := record [("phase", ofOption .text s.phase)]

namespace Component

/-- The fields of a component as values, under their wire names. -/
def fields (c : Component) : List (Text × Value) := [
  ("workloadType", .text c.workloadType), ("osType", .text c.osType), ("arch", .text c.arch),
  ("parameters", ofList Parameter.toValue c.parameters),
  ("containers", ofList Container.toValue c.containers),
  ("workloadSettings", ofList WorkloadSetting.toValue c.workloadSettings)]

def toValue (c : Component) : Value := record c.fields

end Component

/-- Named values as the entries of an object in which no name is repeated. -/
def plainFields : List (Text × Value) → Except PlainError (List (Text × Json))
  | [] => .ok []
  | (name, v) :: fields => do
    let j ← v.plain
    let rest ← plainFields fields
    return (name, j.settled) :: rest

/-- A component as the entries of an object. -/
def Component.plain (c : Component) : Except PlainError (List (Text × Json)) :=
  plainFields c.fields

end Schematic
