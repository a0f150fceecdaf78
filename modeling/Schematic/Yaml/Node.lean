import Schematic.Yaml.Tag
import Schematic.Yaml.Error

/-!
# Nodes

What a YAML document says, before its scalars are given values: a tree of scalars, sequences and
mappings, each with its tag and the place where it starts. An alias is replaced by the node that it
stands for. Nodes are finite trees, so a node that holds an alias of itself is none of them.
-/

namespace Schematic.Yaml

/-- A node of a document. -/
inductive Node where
  | scalar (tag : Tag) (content : Text) (start : Mark)
  | sequence (tag : Tag) (items : List Node) (start : Mark)
  | mapping (tag : Tag) (entries : List (Node × Node)) (start : Mark)

namespace Node

def tag : Node → Tag
  | .scalar tag _ _ | .sequence tag _ _ | .mapping tag _ _ => tag

def start : Node → Mark
  | .scalar _ _ m | .sequence _ _ m | .mapping _ _ m => m

def form : Node → Form
  | .scalar _ _ _ => .scalar
  | .sequence _ _ _ => .sequence
  | .mapping _ _ _ => .mapping

end Node

end Schematic.Yaml
