import Schematic.Text

/-!
# Pods

The part of a pod specification that a component decides: its containers with their environment,
ports, requested resources and health checks.
-/

namespace Schematic

structure PodEnv where
  name : Text
  value : Option Text
  deriving DecidableEq

structure PodPort where
  containerPort : Int32
  name : Text
  protocol : Text
  deriving DecidableEq

structure PodHeader where
  name : Text
  value : Text
  deriving DecidableEq

/-- A request that checks a container. -/
structure PodRequest where
  headers : List PodHeader
  path : Text
  port : Int32
  deriving DecidableEq

/-- A check on a container of a pod. -/
structure PodProbe where
  command : Option (List Text)
  failureThreshold : Int32
  request : Option PodRequest
  initialDelaySeconds : Int32
  periodSeconds : Int32
  successThreshold : Int32
  socket : Option Int32
  timeoutSeconds : Int32
  deriving DecidableEq

/-- A container of a pod. -/
structure PodContainer where
  env : List PodEnv
  image : Text
  livenessProbe : Option PodProbe
  name : Text
  ports : List PodPort
  readinessProbe : Option PodProbe
  cpu : Text
  memory : Text
  deriving DecidableEq

/-- A pod. -/
structure PodSpec where
  containers : List PodContainer
  deriving DecidableEq

end Schematic
