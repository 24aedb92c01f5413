import Stencil.Fault
import Stencil.Location

/-!
# Parse errors

A parse error is a fault as it is reported: with lines and columns, and with the name of the
source if it has one. `ParseError.message` is its text.
-/

namespace Stencil

/-- What is reported of a fault. -/
inductive ParseErrorKind where
  | unexpectedToken (expected : List String) (found : Option String)
  | invalidPattern (expected : List String) (found : Option String)
  | unterminatedBlock (construct : Construct) (openedAt : Span)
  | mismatchedEnd (construct : Construct) (found : Keyword) (openedAt : Span)
  deriving DecidableEq, Repr

/-- A fault with its place in the source. -/
structure ParseError where
  kind : ParseErrorKind
  span : Span
  sourceName : Option String
  deriving DecidableEq, Repr

/-- The token classes that a fault reports as expected: if it expects none in particular, what was
being read. -/
def Fault.reportedExpected (fault : Fault) : List String :=
  match fault.expected with
  | [] => fault.label.toList
  | expected => expected

/-- A fault as it is reported. -/
def Fault.toParseError (index : LineIndex) (sourceName : Option String) (fault : Fault) :
    ParseError :=
  let kind := match fault.kind with
    | .unexpectedToken =>
      .unexpectedToken fault.reportedExpected (fault.found.map Token.describe)
    | .invalidPattern =>
      .invalidPattern fault.reportedExpected (fault.found.map Token.describe)
    | .unterminatedBlock construct openedAt =>
      .unterminatedBlock construct (index.span openedAt)
    | .mismatchedEnd construct found openedAt =>
      .mismatchedEnd construct found (index.span openedAt)
  ⟨kind, index.span fault.range, sourceName⟩

namespace ParseError

/-- A list of alternatives: commas between them, and "or" before the last. -/
def alternatives : List String → String
  | [] => ""
  | [only] => only
  | [first, last] => first ++ " or " ++ last
  | first :: rest => first ++ ", " ++ alternatives rest

/-- What was expected and what was found. -/
def expectation (expected : List String) (found : Option String) : String :=
  (match expected with
    | [] => "unexpected "
    | expected => "expected " ++ alternatives expected ++ ", found ") ++
  found.getD "end of input"

/-- The text of an error, without its place. -/
def detail : ParseErrorKind → String
  | .unexpectedToken expected found => expectation expected found
  | .invalidPattern expected found => "invalid pattern: " ++ expectation expected found
  | .unterminatedBlock construct openedAt =>
    "unterminated " ++ construct.describe ++ " block opened at " ++ openedAt.start.describe ++
      ": expected " ++ construct.endDirective ++ " before end of input"
  | .mismatchedEnd construct found openedAt =>
    "'\x7b% " ++ found.spelling ++ " %\x7d' does not close the " ++ construct.describe ++
      " block opened at " ++ openedAt.start.describe ++ ", expected " ++ construct.endDirective

/-- The text of an error: the name of the source if it has one, the place, and what is wrong. -/
def message (error : ParseError) : String :=
  (match error.sourceName with
    | none => ""
    | some name => name ++ ":") ++
  error.span.start.describe ++ ": " ++ detail error.kind

/-- Errors in the order of their places; errors at one place stay in their order. -/
def sortByStart (errors : List ParseError) : List ParseError :=
  errors.mergeSort fun a b => a.span.start.le b.span.start

end ParseError

end Stencil
