import Schematic.Value

/-!
# Components

A component is the declarative description of a containerised unit: its containers, the parameters
that a caller may set, and the settings of the workload that runs it. Every optional part has a
default, which the fields below state.

`Component.same` is equality in which the arbitrary values, the defaults of parameters and settings,
are compared as values are.
-/

namespace Schematic

/-- The type that a parameter declares. -/
inductive ParameterType where
  | boolean
  | string
  | number
  | null
  deriving DecidableEq

/-- How a container may use a path. -/
inductive AccessMode where
  | readWrite
  | readOnly
  deriving DecidableEq

/-- Whether other containers may attach a path too. -/
inductive SharingPolicy where
  | shared
  | exclusive
  deriving DecidableEq

/-- The transport protocol of a port. -/
inductive PortProtocol where
  | tcp
  | udp
  | sctp
  deriving DecidableEq

/-- A value that the caller of a component may set. -/
structure Parameter where
  name : Text
  description : Option Text := none
  type : ParameterType
  required : Bool := false
  default : Value := .null

/-- A setting handed to the workload that runs a component. -/
structure WorkloadSetting where
  name : Text
  description : Option Text := none
  type : ParameterType
  required : Bool := false
  default : Value := .null
  fromParam : Option Text := none

/-- An environment variable: a literal value, or a reference to a parameter. -/
structure Env where
  name : Text
  value : Option Text := none
  fromParam : Option Text := none
  deriving DecidableEq

/-- A port that a container listens on. -/
structure Port where
  name : Text
  containerPort : Int32
  protocol : PortProtocol := .tcp
  deriving DecidableEq

/-- A command that is run inside of a container, word by word. -/
structure Exec where
  command : List Text
  deriving DecidableEq

structure HttpHeader where
  name : Text
  value : Text
  deriving DecidableEq

/-- A request to a container. A header may come more than once. -/
structure HttpGet where
  path : Text
  port : Int32
  httpHeaders : List HttpHeader := []
  deriving DecidableEq

/-- A connection to a port of a container. -/
structure TcpSocket where
  port : Int32
  deriving DecidableEq

/-- A check on the health of a container. -/
structure HealthProbe where
  exec : Option Exec := none
  httpGet : Option HttpGet := none
  tcpSocket : Option TcpSocket := none
  initialDelaySeconds : Int32 := 0
  periodSeconds : Int32 := 10
  timeoutSeconds : Int32 := 1
  successThreshold : Int32 := 1
  failureThreshold : Int32 := 3
  deriving DecidableEq

/-- How much of a resource a container needs. -/
structure Requirement where
  required : Text
  deriving DecidableEq

/-- A path that is attached to a container. -/
structure Path where
  name : Text
  path : Text
  accessMode : AccessMode := .readWrite
  sharingPolicy : SharingPolicy := .exclusive
  deriving DecidableEq

/-- The resources that a container needs. -/
structure Resources where
  cpu : Requirement := ⟨"1"⟩
  memory : Requirement := ⟨"1G"⟩
  gpu : Requirement := ⟨"0"⟩
  paths : List Path := []
  deriving DecidableEq

/-- A container of a component. -/
structure Container where
  name : Text
  image : Text
  resources : Resources := {}
  env : List Env := []
  ports : List Port := []
  livenessProbe : Option HealthProbe := none
  readinessProbe : Option HealthProbe := none
  deriving DecidableEq

/-- A component. -/
structure Component where
  workloadType : Text := "core.hydra.io/v1alpha1.Singleton"
  osType : Text := "linux"
  arch : Text := "amd64"
  parameters : List Parameter := []
  containers : List Container := []
  workloadSettings : List WorkloadSetting := []

/-- The status of an object as it is reported. -/
structure Status where
  phase : Option Text := none
  deriving DecidableEq

/-! ### Tokens -/

namespace ParameterType

/-- The types in their usual order. -/
def all : List ParameterType := [.boolean, .string, .number, .null]

/-- The token of a type in documents and messages. -/
def token : ParameterType → Text
  | .boolean => "Boolean"
  | .string => "String"
  | .number => "Number"
  | .null => "Null"

/-- A value is of a type. Truth values are not numbers. -/
def admits : ParameterType → Value → Bool
  | .boolean, .bool _ => true
  | .string, .text _ => true
  | .number, .int _ => true
  | .number, .float _ => true
  | .null, .null => true
  | _, _ => false

end ParameterType

namespace AccessMode

/-- The modes in their usual order. -/
def all : List AccessMode := [.readWrite, .readOnly]

def token : AccessMode → Text
  | .readWrite => "RW"
  | .readOnly => "RO"

end AccessMode

namespace SharingPolicy

/-- The policies in their usual order. -/
def all : List SharingPolicy := [.shared, .exclusive]

def token : SharingPolicy → Text
  | .shared => "Shared"
  | .exclusive => "Exclusive"

end SharingPolicy

namespace PortProtocol

/-- The protocols in their usual order. -/
def all : List PortProtocol := [.tcp, .udp, .sctp]

def token : PortProtocol → Text
  | .tcp => "TCP"
  | .udp => "UDP"
  | .sctp => "SCTP"

end PortProtocol

/-! ### Equality -/

/-- Two lists have the same length and are related place by place. -/
def pairwiseSame {α : Type} (same : α → α → Bool) : List α → List α → Bool
  | [], [] => true
  | a :: as, b :: bs => same a b && pairwiseSame same as bs
  | _, _ => false

def Parameter.same (p q : Parameter) : Bool :=
  p.name == q.name && p.description == q.description && p.type == q.type
    && p.required == q.required && p.default.same q.default

/-- Two settings are the same. -/
def WorkloadSetting.same (s t : WorkloadSetting) : Bool :=
  s.name == t.name && s.description == t.description && s.type == t.type
    && s.required == t.required && s.default.same t.default && s.fromParam == t.fromParam

/-- Two components are the same. -/
def Component.same (c d : Component) : Bool :=
  c.workloadType == d.workloadType && c.osType == d.osType && c.arch == d.arch
    && pairwiseSame Parameter.same c.parameters d.parameters
    && c.containers == d.containers
    && pairwiseSame WorkloadSetting.same c.workloadSettings d.workloadSettings

end Schematic
