import Stencil.Host

/-!
# A host with declared rules

A host whose grammar is declared freely, to try out compositions. Its parsers are fixed: an
expression is a name, and a statement is a spliced expression with a semicolon after it.
-/

namespace Stencil.Declared

/-- An expression: a name. -/
abbrev Expr := String

/-- A statement: a spliced expression. -/
abbrev Stmt := Spliced Expr

/-- A spliced statement. -/
abbrev SplicedStmt := Statement (Spliced Expr) Stmt

/-! ## Trees -/

/-- A spliced expression as it is written. -/
def splicedSource (expression : Spliced Expr) : String :=
  expression.source id

/-- The node view of a spliced expression. -/
def splicedNode (expression : Spliced Expr) : Node :=
  expression.node (.leaf "DeclaredName")

/-- A spliced expression in JSON output. -/
def splicedJson (expression : Spliced Expr) : Json :=
  expression.toJson .string

/-- A statement as it is written. -/
def stmtSource (statement : Stmt) : String :=
  splicedSource statement ++ ";"

/-- The node view of a statement: a leaf that shows its expression. -/
def stmtNode (statement : Stmt) : Node :=
  .leaf "DeclaredStmt" (splicedNode statement).label

/-- A spliced statement sequence as it is written. -/
def sources (template : List SplicedStmt) : String :=
  Statement.sources splicedSource stmtSource template

/-- The node views of a spliced statement sequence. -/
def nodes (template : List SplicedStmt) : List Node :=
  Statement.nodes splicedNode stmtNode template

/-- A spliced statement sequence in JSON output. -/
def toJsons (template : List SplicedStmt) : List Json :=
  Statement.toJsons splicedJson (fun s => hostJson (splicedJson s)) templateJson template

/-! ## Parsers -/

/-- Reads a name. -/
def name : Parser Expr :=
  .satisfy ["an identifier"] fun
    | .identifier name => some name
    | _ => none

/-- The host with the given grammar. -/
def host (rules : Grammar) (splice : SplicePoints) (conflicts : List Conflict) :
    Host Expr Stmt where
  name := "declared"
  rules := rules
  splice := splice
  conflicts := conflicts
  expression _ := name
  statement _ expression := expression.seqLeft (.token (.symbol ";"))

end Stencil.Declared
