import Schematic.Component
import Schematic.Pod

/-!
# From components to pods

The pod of a component. Graphics processors and paths have no place in a pod, and neither have
parameters, settings and the workload type: those act before, or elsewhere.
-/

namespace Schematic

/-- The variable of a pod; a reference that is not resolved leaves it without a value. -/
def Env.toPod (e : Env) : PodEnv := ⟨e.name, e.value⟩

def Port.toPod (p : Port) : PodPort := ⟨p.containerPort, p.name, p.protocol.token⟩

def HttpHeader.toPod (h : HttpHeader) : PodHeader := ⟨h.name, h.value⟩

def HttpGet.toPod (g : HttpGet) : PodRequest := ⟨g.httpHeaders.map (·.toPod), g.path, g.port⟩

def HealthProbe.toPod (p : HealthProbe) : PodProbe where
  command := p.exec.map (·.command)
  failureThreshold := p.failureThreshold
  request := p.httpGet.map (·.toPod)
  initialDelaySeconds := p.initialDelaySeconds
  periodSeconds := p.periodSeconds
  successThreshold := p.successThreshold
  socket := p.tcpSocket.map (·.port)
  timeoutSeconds := p.timeoutSeconds

def Container.toPod (c : Container) : PodContainer where
  env := c.env.map (·.toPod)
  image := c.image
  livenessProbe := c.livenessProbe.map (·.toPod)
  name := c.name
  ports := c.ports.map (·.toPod)
  readinessProbe := c.readinessProbe.map (·.toPod)
  cpu := c.resources.cpu.required
  memory := c.resources.memory.required

/-- The pod of a component. -/
def Component.toPodSpec (c : Component) : PodSpec := ⟨c.containers.map (·.toPod)⟩

end Schematic
