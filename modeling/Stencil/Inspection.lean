import Stencil.Fault
import Stencil.Statement

/-!
# Inspecting templates

Checks on parsed templates over raw text, for use in tests. A check either holds or fails with a
message that says where and what was expected.

* `Place.find` goes to a statement of a template, along a path through the bodies of blocks.
* `Place.text`, `Place.expression` and `Place.block` say what kind of statement stands there, and
  further checks compare its parts.
-/

namespace Stencil.Inspection

/-! ## Failures -/

/-- How a text is compared. -/
inductive TextRule where
  | exactly (text : String)
  | startsWith (text : String)
  | contains (text : String)
  deriving DecidableEq, Repr

namespace TextRule

/-- Whether `part` occurs in a list of characters. -/
def occurs (part : List Char) : List Char → Bool
  | [] => part.isEmpty
  | c :: rest => part.isPrefixOf (c :: rest) || occurs part rest

/-- Whether a text is as the rule says. -/
def holds : TextRule → String → Bool
  | .exactly text, found => text == found
  | .startsWith text, found => text.toList.isPrefixOf found.toList
  | .contains text, found => occurs text.toList found.toList

/-- What a rule asks for. -/
def describe : TextRule → String
  | .exactly text => "be " ++ Text.quoted text
  | .startsWith text => "start with " ++ Text.quoted text
  | .contains text => "contain " ++ Text.quoted text

end TextRule

/-- Why a check failed. -/
inductive Failure where
  | statementCount (expected : Nat) (found : List String)
  | noStatement (index count : Nat)
  | noBodyStatement (place : String) (index count : Nat)
  | otherStatement (place expected : String) (found : Node)
  | otherText (place : String) (rule : TextRule) (found : String)
  | otherExpression (place : String) (expected found : Expression)
  | otherBinderText (place expected found : String)
  | otherBinder (place : String) (expected found : Pattern)
  | otherIterable (place expected found : String)
  | otherSeparator (place : String) (expected found : Expression)
  | noSeparator (place : String) (expected : Expression)
  | bodyCount (place : String) (expected : Nat) (found : List String)

/-- The text of a failure. -/
def Failure.message : Failure → String
  | .statementCount expected found =>
    "Expected " ++ toString expected ++ " statements, found " ++ toString found.length ++ ": [" ++
      ", ".intercalate found ++ "]"
  | .noStatement index count =>
    "Statement index " ++ toString index ++ " out of bounds (template has " ++ toString count ++
      " statements)"
  | .noBodyStatement place index count =>
    place ++ ": Body index " ++ toString index ++ " out of bounds (block has " ++
      toString count ++ " statements)"
  | .otherStatement place expected found =>
    place ++ ": Expected " ++ expected ++ ", found " ++ found.type ++ " " ++ found.label
  | .otherText place rule found =>
    place ++ ": Expected text to " ++ rule.describe ++ ", but got " ++ Text.quoted found
  | .otherExpression place expected found =>
    place ++ ": Expected expression " ++ expected.source ++ ", but got " ++ found.source
  | .otherBinderText place expected found =>
    place ++ ": Expected binder '" ++ expected ++ "', but got '" ++ found ++ "'"
  | .otherBinder place expected found =>
    place ++ ": Expected binder " ++ expected.source ++ ", but got " ++ found.source
  | .otherIterable place expected found =>
    place ++ ": Expected iterable '" ++ expected ++ "', but got '" ++ found ++ "'"
  | .otherSeparator place expected found =>
    place ++ ": Expected separator " ++ expected.source ++ ", but got " ++ found.source
  | .noSeparator place expected =>
    place ++ ": Expected a join block with separator " ++ expected.source ++
      ", found a for block"
  | .bodyCount place expected found =>
    place ++ ": Expected " ++ toString expected ++ " body statements, found " ++
      toString found.length ++ ": [" ++ ", ".intercalate found ++ "]"

/-- The result of a check. -/
abbrev Checked (α : Type) := Except Failure α

/-- Fails unless a condition holds. -/
def ensure (condition : Bool) (failure : Failure) : Checked Unit :=
  if condition then .ok () else .error failure

/-! ## Whole templates -/

/-- The types of the nodes of a template. -/
def types (template : List TextStatement) : List String :=
  (TextStatement.nodes template).map Node.type

/-- Checks the number of statements. -/
def checkCount (template : List TextStatement) (expected : Nat) : Checked Unit :=
  ensure (template.length == expected) (.statementCount expected (types template))

/-- Checks a text against a rule. -/
def checkText (place : String) (rule : TextRule) (found : String) : Checked Unit :=
  ensure (rule.holds found) (.otherText place rule found)

/-- The text outside of directives at the top of a template. -/
def topText (template : List TextStatement) : String :=
  String.join (template.filterMap fun
    | .plain text => some text
    | _ => none)

/-- Checks the text outside of directives at the top of a template. -/
def checkTopText (template : List TextStatement) (expected : String) : Checked Unit :=
  checkText "statements" (.exactly expected) (topText template)

/-! ## Statements -/

/-- A block with where it was found. -/
structure Block where
  place : String
  binder : Pattern
  iterable : Expression
  separator : Option Expression
  body : List TextStatement

/-- A statement with where it was found. -/
structure Place where
  name : String
  statement : TextStatement

namespace Place

/-- The failure of a statement to be of a kind. -/
def mismatch (place : Place) (expected : String) : Failure :=
  .otherStatement place.name expected (TextStatement.node place.statement)

/-- The text of a statement that has to be one. -/
def text (place : Place) : Checked String :=
  match place.statement with
  | .plain text => .ok text
  | _ => .error (place.mismatch "TextStatement")

/-- The expression of a statement that has to be an interpolation. -/
def expression (place : Place) : Checked Expression :=
  match place.statement with
  | .interpolation expression => .ok expression
  | _ => .error (place.mismatch "ExpressionStatement")

/-- The block that a statement has to be. -/
def block (place : Place) : Construct → Checked Block
  | .forIn =>
    match place.statement with
    | .forIn binder iterable body => .ok ⟨place.name, binder, iterable, none, body⟩
    | _ => .error (place.mismatch "ForInStatement")
  | .join =>
    match place.statement with
    | .join binder iterable separator body =>
      .ok ⟨place.name, binder, iterable, some separator, body⟩
    | _ => .error (place.mismatch "JoinStatement")

/-- Whether a statement is text. -/
def isText (place : Place) : Bool :=
  match place.statement with
  | .plain _ => true
  | _ => false

/-- Checks the text of a statement that has to be one. -/
def checkText (place : Place) (rule : TextRule) : Checked Unit := do
  Inspection.checkText place.name rule (← place.text)

/-- Checks the expression of a statement that has to be an interpolation. -/
def checkExpression (place : Place) (expected : Expression) : Checked Unit := do
  let found ← place.expression
  ensure (found == expected) (.otherExpression place.name expected found)

/-- Whether the expression of a statement that has to be an interpolation is a literal. -/
def isLiteral (place : Place) : Checked Bool := do
  match ← place.expression with
  | .literal _ => return true
  | .reference _ => return false

/-- The statement at an index of a block's body. -/
def ofBody (block : Block) (index : Nat) : Checked Place :=
  match block.body[index]? with
  | some statement => .ok ⟨block.place ++ ":body[" ++ toString index ++ "]", statement⟩
  | none => .error (.noBodyStatement block.place index block.body.length)

/-- The statement at an index of a template. -/
def top (template : List TextStatement) (index : Nat) : Checked Place :=
  match template[index]? with
  | some statement => .ok ⟨"statements[" ++ toString index ++ "]", statement⟩
  | none => .error (.noStatement index template.length)

/-- The statement at the end of a path: an index, and for each block on the way its kind and an
index into its body. -/
def find (template : List TextStatement) (index : Nat) (steps : List (Construct × Nat)) :
    Checked Place := do
  steps.foldlM (fun place step => do ofBody (← place.block step.1) step.2) (← top template index)

end Place

namespace Block

/-- Checks the binder by how it is written. -/
def checkBinderText (block : Block) (expected : String) : Checked Unit :=
  ensure (block.binder.source == expected)
    (.otherBinderText block.place expected block.binder.source)

/-- Checks the binder. -/
def checkBinder (block : Block) (expected : Pattern) : Checked Unit :=
  ensure (block.binder == expected) (.otherBinder block.place expected block.binder)

/-- Checks the iterable by how it is written. -/
def checkIterable (block : Block) (expected : String) : Checked Unit :=
  ensure (block.iterable.source == expected)
    (.otherIterable block.place expected block.iterable.source)

/-- Checks the separator; only joined loops have one. -/
def checkSeparator (block : Block) (expected : Expression) : Checked Unit :=
  match block.separator with
  | some found => ensure (found == expected) (.otherSeparator block.place expected found)
  | none => .error (.noSeparator block.place expected)

/-- Checks the number of statements in the body. -/
def checkBodyCount (block : Block) (expected : Nat) : Checked Unit :=
  ensure (block.body.length == expected) (.bodyCount block.place expected (types block.body))

end Block

end Stencil.Inspection
