import Stencil.Parser.Basic
import Stencil.Statement

/-!
# The grammar of directives

The directives are the same in every dialect. Their grammar is written here once, over a parser
for expressions and a parser for the statements that may stand in the body of a block.

* `pattern` reads the binder of a loop.
* `blockBody` reads the body of a block, without the spaces and tabs at its edges, and `blockEnd`
  what ends it. A block may be ended by the wrong directive, or by the end of input: that is
  reported, and parsing goes on.
* `directive` reads an interpolation, a loop or a joined loop.
-/

namespace Stencil.Parser

variable {E L S : Type}

/-! ## Words and text -/

/-- Reads a keyword. -/
def keyword (word : Keyword) : Parser Unit :=
  token (.keyword word)

/-- Reads a run of raw text. -/
def text : Parser String :=
  satisfy ["some text"] fun
    | .text content => some content
    | _ => none

/-- Whether a text is made of spaces and tabs only. -/
def isPadding (content : String) : Bool :=
  content.toList.all fun c => c == ' ' || c == '\t'

/-- Reads a run of raw text that is made of spaces and tabs only. -/
def padding : Parser Unit :=
  satisfy ["some text"] fun
    | .text content => if isPadding content then some () else none
    | _ => none

/-! ## Patterns -/

/-- Reads a name that is bound on its own. -/
def boundName : Parser Pattern :=
  satisfy ["an identifier", "'('"] fun
    | .identifier name => some (.var name)
    | _ => none

/-- Reads a tuple of patterns. -/
def tuple (pattern : Parser Pattern) : Parser Pattern :=
  ((pattern.sepBy (token .comma)).between .openParen .closeParen).map .tuple

/-- Reads a pattern, nested to any depth. -/
def nestedPattern : Parser Pattern :=
  recursive fun pattern => boundName.orElse (tuple pattern)

/-- Reads the binder of a loop. Whatever goes wrong in it is an invalid pattern. -/
def pattern : Parser Pattern :=
  (nestedPattern.mapFault Fault.toInvalidPattern).labelled "a pattern"

/-! ## Blocks -/

/-- Reads an expression between the brackets of an interpolation. -/
def interpolation (expression : Parser E) : Parser E :=
  expression.between .openExpression .closeExpression

/-- What ended the body of a block. -/
inductive BlockEnd where
  | directive (word : Keyword) (range : ByteRange)
  | endOfInput (range : ByteRange)
  deriving DecidableEq, Repr

/-- Reads a keyword that closes a block, of either kind. -/
def endKeyword : Parser Keyword :=
  satisfy ["'endfor'", "'endjoin'"] fun
    | .keyword word => if word.isEnd then some word else none
    | _ => none

/-- Reads an end directive, of either kind, or the end of input. -/
def blockEnd : Parser BlockEnd :=
  let directive := (endKeyword.between .openStatement .closeStatement).withRange
  (directive.map fun (word, range) => .directive word range).orElse
    (endOfInput.withRange.map fun (_, range) => .endOfInput range)

/-- Reads the body of a block. Spaces and tabs directly after the opening directive or directly
before the end do not belong to it; line breaks do. -/
def blockBody (statement : Parser S) : Parser (List S) :=
  let trailing : Parser (Option S) := (padding.seqLeft blockEnd.lookAhead).map fun _ => none
  let item := trailing.orElse (statement.map some)
  (padding.optional.seqRight item.many).map fun items => items.filterMap id

/-- What is wrong with the end of a block that was opened at a place. -/
def BlockEnd.faults (construct : Construct) (openedAt : ByteRange) : BlockEnd → List Fault
  | .directive word range =>
    if word = construct.closing then []
    else [.mismatched construct word openedAt range]
  | .endOfInput range => [.unterminated construct openedAt range]

/-- Reads a block: its header, which has been given a parser, its body and its end. -/
def block {H : Type} (construct : Construct) (header : Parser H) (statement : Parser S) :
    Parser (H × List S) :=
  let opening := (header.between .openStatement .closeStatement).withRange
  let whole := ((opening.seq (blockBody statement)).seq blockEnd).check
    fun (((_, openedAt), _), ending) => ending.faults construct openedAt
  whole.map fun (((header, _), body), _) => (header, body)

/-- Reads the header of a loop, without its brackets. -/
def forHeader (expression : Parser E) : Parser (Pattern × E) :=
  (((keyword .for_).seqRight pattern).seqLeft (keyword .in_)).seq expression

/-- Reads the header of a joined loop, without its brackets. -/
def joinHeader (expression : Parser E) : Parser ((Pattern × E) × E) :=
  (((((keyword .join).seqRight pattern).seqLeft (keyword .in_)).seq expression).seqLeft
    (keyword .with_)).seq expression

/-- Reads a directive. -/
def directive (expression : Parser E) (statement : Parser (Statement E L)) :
    Parser (Statement E L) :=
  firstOf
    [(interpolation expression).map .interpolation,
      (block .forIn (forHeader expression) statement).map fun ((binder, iterable), body) =>
        .forIn binder iterable body,
      (block .join (joinHeader expression) statement).map
        fun (((binder, iterable), separator), body) => .join binder iterable separator body]

end Stencil.Parser
