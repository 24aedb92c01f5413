/-!
# The node view of a tree

Every tree of the library can be looked at as a tree of nodes, each with the name of its type and
a label. The tree view and the messages of tree checks are written from it.
-/

namespace Stencil

/-- A node: the name of its type, a label and its children in source order. -/
inductive Node where
  | mk (type label : String) (children : List Node)
  deriving Inhabited

namespace Node

/-- The name of a node's type. -/
def type : Node → String
  | .mk type _ _ => type

/-- What a node is shown as. -/
def label : Node → String
  | .mk _ label _ => label

/-- The children of a node, in source order. -/
def children : Node → List Node
  | .mk _ _ children => children

/-- A node without children. -/
def leaf (type label : String) : Node :=
  .mk type label []

end Node

end Stencil
