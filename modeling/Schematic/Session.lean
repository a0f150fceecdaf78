import Schematic.Component.Document
import Schematic.Pod.Manifest

/-!
# Sessions

A set of components under names of the caller's choice. Binding a name that is there replaces its
component.
-/

namespace Schematic

/-- Components by name. -/
structure Session where
  components : List (Text × Component) := []

namespace Session

/-- The component with a name. -/
def get? (s : Session) (name : Text) : Option Component :=
  (s.components.find? fun e => e.1 == name).map (·.2)

/-- The session after a name is bound to a component. -/
def bind (s : Session) (name : Text) (c : Component) : Session :=
  ⟨(name, c) :: s.components.filter (·.1 != name)⟩

end Session

/-- Why a component is not written and read back. -/
inductive ReloadError where
  | write (e : WriteError)
  | read (e : Component.ReadError)

def ReloadError.message : ReloadError → Text
  | .write e => e.message
  | .read e => e.message

/-- A component written in the format of a name and read back. -/
def Component.reload (formatName : Text) (c : Component) : Except ReloadError Component := do
  let document ← (c.dump formatName).mapError .write
  (Component.ofText document).mapError .read

/-- What comes of setting a field of a component: a component never changes. -/
def Component.setField (field : Text) : Problem := ⟨[.name field], .frozen⟩

end Schematic
