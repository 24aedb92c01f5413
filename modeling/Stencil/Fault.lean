import Stencil.Lexeme

/-!
# Faults

A fault is what a parser finds wrong at one place of a source: which token classes would have
been accepted, what stands there instead, and, for blocks, which block it concerns. Faults at the
same place are merged into one that lists the expectations of both.

* `Fault.merge` joins two faults; the diagnosis of a block or a pattern wins over a bare
  unexpected token.
* `Fault.withLabel` names what was being read, for faults that expect nothing in particular.
-/

namespace Stencil

/-- The constructs that have a body. -/
inductive Construct where
  | forIn
  | join
  deriving DecidableEq, Repr

namespace Construct

/-- The keyword that opens a block. -/
def opening : Construct → Keyword
  | .forIn => .for_
  | .join => .join

/-- The keyword that closes a block. -/
def closing : Construct → Keyword
  | .forIn => .endFor
  | .join => .endJoin

/-- A construct, as messages show it. -/
def describe (construct : Construct) : String :=
  "'" ++ construct.opening.spelling ++ "'"

/-- The directive that closes a block, as messages show it. -/
def endDirective (construct : Construct) : String :=
  "'\x7b% " ++ construct.closing.spelling ++ " %\x7d'"

end Construct

/-- What kind of mistake a fault is. -/
inductive FaultKind where
  /-- A token of another class was required. -/
  | unexpectedToken
  /-- The binder of a loop is malformed. -/
  | invalidPattern
  /-- The input ends in the body of the block opened at a place. -/
  | unterminatedBlock (construct : Construct) (openedAt : ByteRange)
  /-- An end directive does not close the innermost open block. -/
  | mismatchedEnd (construct : Construct) (found : Keyword) (openedAt : ByteRange)
  deriving DecidableEq, Repr

/-- A mistake at one place of a source. -/
structure Fault where
  kind : FaultKind
  range : ByteRange
  /-- The token classes that would have been accepted. -/
  expected : List String
  /-- The token that stands there; none at the end of input. -/
  found : Option Token
  /-- What was being read. -/
  label : Option String
  deriving DecidableEq, Repr

namespace Fault

/-- A fault that expects the given token classes. -/
def unexpected (range : ByteRange) (expected : List String) (found : Option Token) : Fault :=
  ⟨.unexpectedToken, range, expected, found, none⟩

/-- The class of a token, or of the end of input. -/
def expectedName : Option Token → String
  | some token => token.className
  | none => "end of input"

/-- The texts of the second list that are not in the first are appended to it, each once. -/
def addMissing (texts : List String) : List String → List String
  | [] => texts
  | text :: rest => addMissing (if texts.contains text then texts else texts ++ [text]) rest

/-- A fault that expects one of the given tokens, where none stands for the end of input. -/
def expecting (range : ByteRange) (expected : List (Option Token)) (found : Option Token) :
    Fault :=
  unexpected range (addMissing [] (expected.map expectedName)) found

/-- The input ended in the body of a block. -/
def unterminated (construct : Construct) (openedAt range : ByteRange) : Fault :=
  ⟨.unterminatedBlock construct openedAt, range, [construct.endDirective], none, none⟩

/-- An end directive did not close the block it stands in. -/
def mismatched (construct : Construct) (found : Keyword) (openedAt range : ByteRange) : Fault :=
  ⟨.mismatchedEnd construct found openedAt, range, [construct.endDirective],
    some (.keyword found), none⟩

/-- Inside a binder, an unexpected token is an invalid pattern. -/
def toInvalidPattern (fault : Fault) : Fault :=
  match fault.kind with
  | .unexpectedToken => { fault with kind := .invalidPattern }
  | _ => fault

/-- Names what was being read, unless that has a name already. -/
def withLabel (label : String) (fault : Fault) : Fault :=
  { fault with label := fault.label.orElse fun _ => some label }

/-- Joins two faults at the same place. -/
def merge (fault other : Fault) : Fault :=
  { kind := match fault.kind with
      | .unexpectedToken => other.kind
      | kind => kind
    range := fault.range
    expected := addMissing fault.expected other.expected
    found := fault.found
    label := fault.label.orElse fun _ => other.label }

end Fault

end Stencil
