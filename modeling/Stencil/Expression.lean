import Stencil.Json
import Stencil.Node

/-!
# Expressions

The expressions of templates over raw text are references and literals. In a template that is
spliced into a host language an expression is one of the host's, or an interpolation of another
spliced expression.
-/

namespace Stencil

/-- A literal. -/
inductive Literal where
  /-- The characters between the quotes, as they stand there. -/
  | string (value : String)
  /-- The decimal digits, as they stand there. -/
  | integer (digits : String)
  deriving DecidableEq, Repr

namespace Literal

/-- A literal as it is written. A string stands between double quotes unless it contains one. -/
def source : Literal → String
  | .string value =>
    if value.toList.contains '"' then "'" ++ value ++ "'" else "\"" ++ value ++ "\""
  | .integer digits => digits

/-- A literal in JSON output. -/
def toJson : Literal → Json
  | .string value => .single "string" (.string value)
  | .integer digits => .single "integer" (.string digits)

end Literal

/-- An expression of a template over raw text. -/
inductive Expression where
  | reference (name : String)
  | literal (value : Literal)
  deriving DecidableEq, Repr

namespace Expression

/-- An expression as it is written. -/
def source : Expression → String
  | .reference name => name
  | .literal value => value.source

/-- The node view of an expression. -/
def node : Expression → Node
  | .reference name => .leaf "ReferenceExpr" name
  | .literal value => .leaf "LiteralExpr" value.source

/-- An expression in JSON output. -/
def toJson : Expression → Json
  | .reference name => .single "reference" (.string name)
  | .literal value => .single "literal" value.toJson

end Expression

/-- An expression `e` between the brackets of an interpolation, each with a space inside. -/
def interpolationSource (e : String) : String :=
  "\x7b\x7b " ++ e ++ " \x7d\x7d"

/-- An expression of a host language `H` into which interpolations are spliced. -/
inductive Spliced (H : Type) where
  | host (expression : H)
  | interpolation (inner : Spliced H)
  deriving Repr

namespace Spliced

variable {H : Type}

/-- A spliced expression as it is written. -/
def source (host : H → String) : Spliced H → String
  | .host expression => host expression
  | .interpolation inner => interpolationSource (inner.source host)

/-- The node view of a spliced expression: an interpolation is a leaf whose label shows what is
inside. -/
def node (host : H → Node) : Spliced H → Node
  | .host expression => host expression
  | .interpolation inner =>
    .leaf "Interpolation" (interpolationSource (inner.node host).label)

/-- A spliced expression in JSON output. -/
def toJson (host : H → Json) : Spliced H → Json
  | .host expression => .single "host" (host expression)
  | .interpolation inner =>
    .single "interpolation" (.single "expression" (inner.toJson host))

end Spliced

end Stencil
