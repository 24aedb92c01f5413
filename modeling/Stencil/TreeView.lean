import Stencil.Node

/-!
# Tree views

A tree view shows one node a line, drawn with lines from each node to its children. Long labels
are cut off.
-/

namespace Stencil.TreeView

/-- The width at which labels are cut off if nothing else is said. -/
def standardWidth : Nat := 30

/-- A text, or its first `width` characters and three dots if it is longer. -/
def truncate (width : Nat) (text : String) : String :=
  let chars := text.toList
  if chars.length > width then String.ofList (chars.take width) ++ "..." else text

mutual

/-- The lines of a node and those below it. `indent` is drawn before all of them; `last` says
whether the node is the last of its siblings. -/
def nodeLines (width : Nat) (indent : String) (last : Bool) : Node → String
  | .mk type label children =>
    indent ++ (if last then "└─" else "├─") ++ " " ++ type ++ ": " ++ truncate width label ++
      "\n" ++ siblingLines width (indent ++ if last then "  " else "│ ") children

/-- The lines of a list of siblings. -/
def siblingLines (width : Nat) (indent : String) : List Node → String
  | [] => ""
  | node :: rest => nodeLines width indent rest.isEmpty node ++ siblingLines width indent rest

end

/-- The tree view of a sequence of nodes. -/
def render (width : Nat) (nodes : List Node) : String :=
  siblingLines width "" nodes

end Stencil.TreeView
