import Coordination.Yaml.Token

/-!
# Nodes

The tree that a YAML text describes. An anchor gives a node a number, by which
an alias elsewhere stands for the node. Where a name is given to a second node,
the numbers of later names start again from there, so that a number may be
given twice; the node that starts last has it then.
-/

namespace Coordination.Yaml

/-- A value in a text. -/
inductive Node where
  | scalar (tag : Option Tag) (style : Style) (text : String)
  | sequence (tag : Option Tag) (items : List Node)
  | mapping (tag : Option Tag) (members : List (Node × Node))
  | alias (number : Nat)
  deriving Repr

namespace Node

/-- A value that is left out. -/
def absent : Node := scalar none .plain ""

end Node

/-- A node with an anchor. -/
structure Anchored where
  number : Nat
  /-- The number of nodes with an anchor that start before this one. -/
  order : Nat
  node : Node
  deriving Repr

/-- The one document of a text. -/
structure Document where
  root : Node
  anchored : List Anchored
  deriving Repr

namespace Document

/-- Of two nodes, the one with the number; of both, the one that starts later. -/
def later (number : Nat) (last : Option Anchored) (next : Anchored) : Option Anchored :=
  if next.number = number ∧ last.all fun found => found.order < next.order then some next else last

/-- The node with a number. -/
def target? (document : Document) (number : Nat) : Option Node :=
  (document.anchored.foldl (later number) none).map Anchored.node

/-- A node itself, or the one that it is an alias of. -/
def follow (document : Document) : Node → Node
  | .alias number => (document.target? number).getD (.alias number)
  | node => node

end Document

end Coordination.Yaml
