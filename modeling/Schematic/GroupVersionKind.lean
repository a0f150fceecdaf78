import Schematic.Text

/-!
# Group, version and kind

The full name of a type of resource, written `group/version.kind`. The group ends at the first slash
and the version at the first point after it, so a group and a kind may hold points and a version may
not.
-/

namespace Schematic

/-- The full name of a type of resource. -/
structure GroupVersionKind where
  group : Text
  version : Text
  kind : Text
  deriving DecidableEq

namespace GroupVersionKind

/-- What is missing in a text that is no full name. -/
inductive FormatError where
  | versionAndKind
  | kind
  deriving DecidableEq

def FormatError.message : FormatError → Text
  | .versionAndKind => "missing version and kind"
  | .kind => "missing kind"

/-- Read a full name. -/
def parse (t : Text) : Except FormatError GroupVersionKind :=
  match Text.splitFirst? (.char '/') t with
  | none => .error .versionAndKind
  | some (group, rest) =>
    match Text.splitFirst? (.char '.') rest with
    | none => .error .kind
    | some (version, kind) => .ok ⟨group, version, kind⟩

/-- The group and the version, with a slash between them. -/
def apiVersion (g : GroupVersionKind) : Text := g.group ++ "/" ++ g.version

/-- The full name as text. -/
def text (g : GroupVersionKind) : Text := g.apiVersion ++ "." ++ g.kind

end GroupVersionKind

end Schematic
