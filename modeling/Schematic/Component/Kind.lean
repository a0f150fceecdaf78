import Schematic.Component.Plain

/-!
# Kinds of records

The records of the schema by name. Besides the parts of a component there are the status of an
object and two open records, the application and the trait, of which nothing is fixed yet and every
field is kept.
-/

namespace Schematic

/-- The records of the schema. -/
inductive RecordKind where
  | parameter
  | workloadSetting
  | env
  | port
  | exec
  | httpHeader
  | httpGet
  | tcpSocket
  | healthProbe
  | cpu
  | memory
  | gpu
  | path
  | resources
  | container
  | component
  | application
  | trait
  | status
  deriving DecidableEq

def PathStep.ofKey : Value → PathStep
  | .bool b => .index (if b then 1 else 0)
  | .int n => .index n
  | .text t => .name t
  | .null => .name "None"
  | .float x => .name (spelledNumbers.text x)
  | .date d =>
    .name ("datetime.date(" ++ Text.join ", " ([d.year, d.month, d.day].map Text.ofNat) ++ ")")
  | v => .name v.kindName

/-- The fields of an open record; the keys have to be texts. -/
def FieldReader.openFields : List (Value × Value) → Checked (List (Text × Value))
  | [] => .valid []
  | (k, v) :: es =>
    let field : Checked (Text × Value) :=
      match k with
      | .text name => .valid (name, v)
      | k => (Checked.fail .keyNotText).under (.ofKey k)
    (field.map List.cons).apply (openFields es)

def FieldReader.openRecord (name : Text) : FieldReader Value :=
  record name fun fs => (openFields fs.entries).map Value.record

namespace RecordKind

def names : List (String × RecordKind) :=
  [("Parameter", .parameter), ("WorkloadSetting", .workloadSetting), ("Env", .env),
    ("Port", .port), ("Exec", .exec), ("HttpHeader", .httpHeader), ("HttpGet", .httpGet),
    ("TcpSocket", .tcpSocket), ("HealthProbe", .healthProbe), ("CPU", .cpu),
    ("Memory", .memory), ("GPU", .gpu), ("Path", .path), ("Resources", .resources),
    ("Container", .container), ("Component", .component), ("Application", .application),
    ("Trait", .trait), ("HydraStatus", .status)]

def ofName? (name : Text) : Option RecordKind :=
  (names.find? fun e => name == Text.ofString e.1).map (·.2)

/-- Read a record of some kind and write it back, with its defaults filled in. -/
def read (kind : RecordKind) : FieldReader Value := fun dialect v =>
  match kind with
  | .parameter => (Parameter.read dialect v).map (·.toValue)
  | .workloadSetting => (WorkloadSetting.read dialect v).map (·.toValue)
  | .env => (Env.read dialect v).map (·.toValue)
  | .port => (Port.read dialect v).map (·.toValue)
  | .exec => (Exec.read dialect v).map (·.toValue)
  | .httpHeader => (HttpHeader.read dialect v).map (·.toValue)
  | .httpGet => (HttpGet.read dialect v).map (·.toValue)
  | .tcpSocket => (TcpSocket.read dialect v).map (·.toValue)
  | .healthProbe => (HealthProbe.read dialect v).map (·.toValue)
  | .cpu => (Requirement.read "CPU" dialect v).map (·.toValue)
  | .memory => (Requirement.read "Memory" dialect v).map (·.toValue)
  | .gpu => (Requirement.read "GPU" dialect v).map (·.toValue)
  | .path => (Path.read dialect v).map (·.toValue)
  | .resources => (Resources.read dialect v).map (·.toValue)
  | .container => (Container.read dialect v).map (·.toValue)
  | .component => (Component.read dialect v).map (·.toValue)
  | .application => FieldReader.openRecord "Application" dialect v
  | .trait => FieldReader.openRecord "Trait" dialect v
  | .status => (Status.read dialect v).map (·.toValue)

end RecordKind

end Schematic
