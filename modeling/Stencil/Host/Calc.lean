import Stencil.Host

/-!
# A calculator as host

A small host language:

    stmt    := 'let' IDENTIFIER '=' expr ';' | '{' stmt* '}' | expr ';'
    expr    := operand ('+' operand)*
    operand := IDENTIFIER | INTEGER | STRING | '(' (expr (',' expr)*)? ')'

Directives are spliced in at `expr` and `stmt`.
-/

namespace Stencil.Calc

/-- An expression of the calculator. -/
inductive Expr where
  | name (name : String)
  | int (digits : String)
  | str (value : String)
  | group (items : List (Spliced Expr))
  | sum (operands : List Expr)

/-- A statement of the calculator. -/
inductive Stmt where
  | let_ (name : String) (value : Spliced Expr)
  | block (body : List (Statement (Spliced Expr) Stmt))
  | expr (expression : Spliced Expr)

/-- A spliced expression of the calculator. -/
abbrev SplicedExpr := Spliced Expr

/-- A spliced statement of the calculator. -/
abbrev SplicedStmt := Statement SplicedExpr Stmt

/-! ## Writing trees -/

mutual

/-- An expression as it is written. -/
def Expr.source : Expr → String
  | .name name => name
  | .int digits => digits
  | .str value => "\"" ++ value ++ "\""
  | .group items => "(" ++ itemSources true items ++ ")"
  | .sum operands => operandSources true operands

/-- A spliced expression as it is written. -/
def splicedSource : SplicedExpr → String
  | .host expression => expression.source
  | .interpolation inner => interpolationSource (splicedSource inner)

/-- The items of a group; each but the first follows a comma. -/
def itemSources (first : Bool) : List SplicedExpr → String
  | [] => ""
  | item :: rest =>
    (if first then "" else ", ") ++ splicedSource item ++ itemSources false rest

/-- The operands of a sum; each but the first follows a plus sign. -/
def operandSources (first : Bool) : List Expr → String
  | [] => ""
  | operand :: rest =>
    (if first then "" else " + ") ++ operand.source ++ operandSources false rest

end

mutual

/-- A statement as it is written. -/
def Stmt.source : Stmt → String
  | .let_ name value => "let " ++ name ++ " = " ++ splicedSource value ++ ";"
  | .block body => "\x7b" ++ blockSource body ++ " \x7d"
  | .expr expression => splicedSource expression ++ ";"

/-- The statements of a block, each after a space. -/
def blockSource : List SplicedStmt → String
  | [] => ""
  | statement :: rest => " " ++ statementSource statement ++ blockSource rest

/-- A spliced statement as it is written. -/
def statementSource : SplicedStmt → String
  | .plain statement => statement.source
  | .interpolation e => interpolationSource (splicedSource e)
  | .forIn binder iterable body =>
    forInSource binder (splicedSource iterable) (statementSources body)
  | .join binder iterable separator body =>
    joinSource binder (splicedSource iterable) (splicedSource separator) (statementSources body)

/-- A sequence of spliced statements as it is written, with nothing between them. -/
def statementSources : List SplicedStmt → String
  | [] => ""
  | statement :: rest => statementSource statement ++ statementSources rest

end

/-! ## The node view -/

/-- The name of an expression's node type. -/
def Expr.type : Expr → String
  | .name _ => "Name"
  | .int _ => "Int"
  | .str _ => "Str"
  | .group _ => "Group"
  | .sum _ => "Sum"

/-- The node view of an expression: a leaf that shows the whole expression. -/
def Expr.node (expression : Expr) : Node :=
  .leaf expression.type expression.source

/-- The node view of a spliced expression. -/
def splicedNode (expression : SplicedExpr) : Node :=
  expression.node Expr.node

mutual

/-- The node view of a statement; only blocks have children. -/
def Stmt.node : Stmt → Node
  | .let_ name value => .leaf "LetStatement" (name ++ " = " ++ (splicedNode value).label)
  | .block body =>
    .mk "BlockStatement" (toString body.length ++ " statements") (statementNodes body)
  | .expr expression => .leaf "ExprStatement" (splicedNode expression).label

/-- The node view of a spliced statement. -/
def statementNode : SplicedStmt → Node
  | .plain statement => statement.node
  | .interpolation e => interpolationNode (splicedNode e)
  | .forIn binder iterable body =>
    forInNode binder (splicedNode iterable) (statementNodes body)
  | .join binder iterable separator body =>
    joinNode binder (splicedNode iterable) (splicedNode separator) (statementNodes body)

/-- The node views of a sequence of spliced statements. -/
def statementNodes : List SplicedStmt → List Node
  | [] => []
  | statement :: rest => statementNode statement :: statementNodes rest

end

/-! ## JSON output -/

mutual

/-- An expression in JSON output. -/
def Expr.toJson : Expr → Json
  | .name name => .single "Name" (.string name)
  | .int digits => .single "Int" (.string digits)
  | .str value => .single "Str" (.string value)
  | .group items => .single "Group" (.array (itemJsons items))
  | .sum operands => .single "Sum" (.array (operandJsons operands))

/-- A spliced expression in JSON output. -/
def splicedJson : SplicedExpr → Json
  | .host expression => hostJson expression.toJson
  | .interpolation inner => .single "interpolation" (.single "expression" (splicedJson inner))

/-- The items of a group in JSON output. -/
def itemJsons : List SplicedExpr → List Json
  | [] => []
  | item :: rest => splicedJson item :: itemJsons rest

/-- The operands of a sum in JSON output. -/
def operandJsons : List Expr → List Json
  | [] => []
  | operand :: rest => operand.toJson :: operandJsons rest

end

mutual

/-- A statement in JSON output. -/
def Stmt.toJson : Stmt → Json
  | .let_ name value =>
    .single "Let" (.object [("name", .string name), ("value", splicedJson value)])
  | .block body => .single "Block" (.array (statementJsons body))
  | .expr expression => .single "Expr" (splicedJson expression)

/-- A spliced statement in JSON output. -/
def statementJson : SplicedStmt → Json
  | .plain statement => hostJson statement.toJson
  | .interpolation e => templateJson (interpolationJson (splicedJson e))
  | .forIn binder iterable body =>
    templateJson (forInJson binder (splicedJson iterable) (statementJsons body))
  | .join binder iterable separator body =>
    templateJson
      (joinJson binder (splicedJson iterable) (splicedJson separator) (statementJsons body))

/-- A sequence of spliced statements in JSON output. -/
def statementJsons : List SplicedStmt → List Json
  | [] => []
  | statement :: rest => statementJson statement :: statementJsons rest

end

/-! ## Grammar -/

open DirectiveRules (t n)

/-- The grammar of the calculator. -/
def rules : Grammar :=
  .ofRules
    [("stmt",
        [.of "let_stmt" [t "let", .tokenClass "identifier", t "=", n "expr", t ";"],
          .of "block_stmt" [t "\x7b", n "stmt_list", t "\x7d"],
          .of "expr_stmt" [n "expr", t ";"]]),
      ("stmt_list",
        [.of "stmt_list_end" [], .of "stmt_list_more" [n "stmt", n "stmt_list"]]),
      ("expr", [.of "sum" [n "operand", n "sum_tail"]]),
      ("sum_tail",
        [.of "sum_end" [], .of "sum_more" [t "+", n "operand", n "sum_tail"]]),
      ("operand",
        [.of "name" [.tokenClass "identifier"], .of "int" [.tokenClass "integer"],
          .of "str" [.tokenClass "string"], .of "group" [t "(", n "expr_list", t ")"]]),
      ("expr_list",
        [.of "expr_list_end" [], .of "expr_list_more" [n "expr", n "expr_list_tail"]]),
      ("expr_list_tail",
        [.of "expr_list_tail_end" [],
          .of "expr_list_tail_more" [t ",", n "expr", n "expr_list_tail"]])]

/-! ## Parsers -/

/-- Reads a name or a literal. -/
def leaf : Parser Expr :=
  .satisfy ["an identifier", "an integer", "a string literal", "'('"] fun
    | .identifier name => some (.name name)
    | .integer digits => some (.int digits)
    | .string value => some (.str value)
    | _ => none

/-- Reads a group: expressions between parentheses, with commas between them. -/
def group (expression : Parser SplicedExpr) : Parser Expr :=
  ((expression.sepBy (.token .comma)).between .openParen .closeParen).map .group

/-- A sum of operands; a single operand stands for itself. -/
def sumOf (first : Expr) (rest : List Expr) : Expr :=
  if rest.isEmpty then first else .sum (first :: rest)

/-- Reads operands with plus signs between them. -/
def expression (expression : Parser SplicedExpr) : Parser Expr :=
  let operand := leaf.orElse (group expression)
  let more := ((Parser.token (.symbol "+")).seqRight operand).many
  .seqWith sumOf operand more

/-- Reads the name that a `let` statement defines. -/
def definedName : Parser String :=
  .satisfy ["an identifier"] fun
    | .identifier name => some name
    | _ => none

/-- Reads a `let` statement. -/
def letStmt (expression : Parser SplicedExpr) : Parser Stmt :=
  let definition :=
    ((Parser.token (.identifier "let")).seqRight definedName).seqLeft (.token (.symbol "="))
  ((definition.seq expression).seqLeft (.token (.symbol ";"))).map
    fun (name, value) => .let_ name value

/-- Reads a block of statements. -/
def blockStmt (statement : Parser SplicedStmt) : Parser Stmt :=
  (statement.many.between (.symbol "\x7b") (.symbol "\x7d")).map .block

/-- Reads an expression as a statement. -/
def exprStmt (expression : Parser SplicedExpr) : Parser Stmt :=
  (expression.seqLeft (.token (.symbol ";"))).map .expr

/-- Reads a statement. -/
def statement (statement : Parser SplicedStmt) (expression : Parser SplicedExpr) :
    Parser Stmt :=
  ((letStmt expression).orElse (blockStmt statement)).orElse (exprStmt expression)

/-- The calculator as a host. -/
def host : Host Expr Stmt where
  name := "calc"
  rules := rules
  splice := ⟨"expr", "stmt"⟩
  conflicts := []
  expression := expression
  statement := statement

end Stencil.Calc
