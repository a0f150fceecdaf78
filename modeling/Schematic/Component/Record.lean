import Schematic.Component.Field

/-!
# Records of a component

How a component and each of its parts is read from a value: the wire name, the kind and the default
of every field, in the order in which problems are reported.
-/

namespace Schematic

open FieldReader

def ParameterType.read : FieldReader ParameterType := choice all token

def AccessMode.read : FieldReader AccessMode := choice all token

def SharingPolicy.read : FieldReader SharingPolicy := choice all token

def PortProtocol.read : FieldReader PortProtocol := choice all token

def Parameter.read : FieldReader Parameter := record "Parameter" fun fs =>
  Parameter.mk <$> fs.need "name" text <*> fs.take "description" none (optional text)
    <*> fs.need "type" ParameterType.read <*> fs.take "required" false bool
    <*> fs.take "default" .null any

def WorkloadSetting.read : FieldReader WorkloadSetting := record "WorkloadSetting" fun fs =>
  WorkloadSetting.mk <$> fs.need "name" text <*> fs.take "description" none (optional text)
    <*> fs.need "type" ParameterType.read <*> fs.take "required" false bool
    <*> fs.take "default" .null any <*> fs.take "fromParam" none (optional text)

def Env.read : FieldReader Env := record "Env" fun fs =>
  Env.mk <$> fs.need "name" text <*> fs.take "value" none (optional text)
    <*> fs.take "fromParam" none (optional text)

def Port.read : FieldReader Port := record "Port" fun fs =>
  Port.mk <$> fs.need "name" text <*> fs.need "containerPort" int32
    <*> fs.take "protocol" .tcp PortProtocol.read

def Exec.read : FieldReader Exec := record "Exec" fun fs =>
  Exec.mk <$> fs.need "command" (list text)

def HttpHeader.read : FieldReader HttpHeader := record "HttpHeader" fun fs =>
  HttpHeader.mk <$> fs.need "name" text <*> fs.need "value" text

def HttpGet.read : FieldReader HttpGet := record "HttpGet" fun fs =>
  HttpGet.mk <$> fs.need "path" text <*> fs.need "port" int32
    <*> fs.take "httpHeaders" [] (list HttpHeader.read)

def TcpSocket.read : FieldReader TcpSocket := record "TcpSocket" fun fs =>
  TcpSocket.mk <$> fs.need "port" int32

/-- A check on the health of a container. -/
def HealthProbe.read : FieldReader HealthProbe := record "HealthProbe" fun fs =>
  HealthProbe.mk <$> fs.take "exec" none (optional Exec.read)
    <*> fs.take "httpGet" none (optional HttpGet.read)
    <*> fs.take "tcpSocket" none (optional TcpSocket.read)
    <*> fs.take "initialDelaySeconds" 0 int32 <*> fs.take "periodSeconds" 10 int32
    <*> fs.take "timeoutSeconds" 1 int32 <*> fs.take "successThreshold" 1 int32
    <*> fs.take "failureThreshold" 3 int32

/-- The amount of a resource, under the name of the resource. -/
def Requirement.read (name : Text) : FieldReader Requirement := record name fun fs =>
  Requirement.mk <$> fs.need "required" text

def Path.read : FieldReader Path := record "Path" fun fs =>
  Path.mk <$> fs.need "name" text <*> fs.need "path" text
    <*> fs.take "accessMode" .readWrite AccessMode.read
    <*> fs.take "sharingPolicy" .exclusive SharingPolicy.read

def Resources.read : FieldReader Resources := record "Resources" fun fs =>
  let usual : Resources := {}
  Resources.mk <$> fs.take "cpu" usual.cpu (Requirement.read "CPU")
    <*> fs.take "memory" usual.memory (Requirement.read "Memory")
    <*> fs.take "gpu" usual.gpu (Requirement.read "GPU")
    <*> fs.take "paths" [] (list Path.read)

def Container.read : FieldReader Container := record "Container" fun fs =>
  Container.mk <$> fs.need "name" text <*> fs.need "image" text
    <*> fs.take "resources" {} Resources.read <*> fs.take "env" [] (list Env.read)
    <*> fs.take "ports" [] (list Port.read)
    <*> fs.take "livenessProbe" none (optional HealthProbe.read)
    <*> fs.take "readinessProbe" none (optional HealthProbe.read)

def Component.read : FieldReader Component := record "Component" fun fs =>
  let usual : Component := {}
  Component.mk <$> fs.take "workloadType" usual.workloadType text
    <*> fs.take "osType" usual.osType text <*> fs.take "arch" usual.arch text
    <*> fs.take "parameters" [] (list Parameter.read)
    <*> fs.take "containers" [] (list Container.read)
    <*> fs.take "workloadSettings" [] (list WorkloadSetting.read)

def Status.read : FieldReader Status := record "HydraStatus" fun fs =>
  Status.mk <$> fs.take "phase" none (optional text)

end Schematic
