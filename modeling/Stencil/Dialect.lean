import Stencil.ParseError
import Stencil.Parser.Directive

/-!
# Dialects

A dialect says what the expressions and the plain statements of a template are, and in which mode
its sources begin. `Dialect.parse` parses a source of a dialect.

The dialect `Dialect.text` is that of templates over raw text. `parse`, `parseStatement`,
`parseExpression` and `parsePattern` read such templates and their parts.
-/

namespace Stencil

/-- Reads a source as `p` says, in a mode; what is wrong is reported with the name of the source,
in the order of the places. -/
def parseAs {α : Type} (p : Parser α) (mode : Mode) (sourceName : Option String)
    (source : String) : Except (List ParseError) α :=
  match p.run (.ofSource mode source) with
  | .ok value => .ok value
  | .error faults =>
    let index := LineIndex.ofSource source
    .error (ParseError.sortByStart (faults.map (·.toParseError index sourceName)))

/-- A kind of template, with expressions `E` and plain statements `L`. -/
structure Dialect (E L : Type) where
  /-- The mode in which sources begin. -/
  mode : Mode
  /-- Reads an expression. -/
  expression : Parser E
  /-- Reads a plain statement; the argument reads any statement of the template. -/
  plain : Parser (Statement E L) → Parser L

namespace Dialect

variable {E L : Type}

/-- Reads a statement: a plain one, or else a directive. -/
def statement (dialect : Dialect E L) : Parser (Statement E L) :=
  Parser.recursive fun statement =>
    ((dialect.plain statement).map .plain).orElse (Parser.directive dialect.expression statement)

/-- Reads a whole template. -/
def template (dialect : Dialect E L) : Parser (List (Statement E L)) :=
  dialect.statement.many.seqLeft Parser.endOfInput

/-- Parses a source. -/
def parse (dialect : Dialect E L) (sourceName : Option String) (source : String) :
    Except (List ParseError) (List (Statement E L)) :=
  parseAs dialect.template dialect.mode sourceName source

/-- Reads an expression of templates over raw text. -/
def textExpression : Parser Expression :=
  (Parser.satisfy ["an identifier", "a string literal", "an integer"] fun
    | .identifier name => some (.reference name)
    | .string value => some (.literal (.string value))
    | .integer digits => some (.literal (.integer digits))
    | _ => none).labelled "an expression"

/-- Templates over raw text: plain statements are runs of text. -/
def text : Dialect Expression String where
  mode := .text
  expression := textExpression
  plain _ := Parser.text

end Dialect

/-- Parses a template over raw text. -/
def parse (source : String) : Except (List ParseError) (List TextStatement) :=
  Dialect.text.parse none source

/-- Parses exactly one statement of a template over raw text. -/
def parseStatement (source : String) : Except (List ParseError) TextStatement :=
  parseAs (Dialect.text.statement.seqLeft Parser.endOfInput) .text none source

/-- Parses an expression on its own. -/
def parseExpression (source : String) : Except (List ParseError) Expression :=
  parseAs (Dialect.textExpression.seqLeft Parser.endOfInput) .code none source

/-- Parses a pattern on its own. -/
def parsePattern (source : String) : Except (List ParseError) Pattern :=
  parseAs (Parser.pattern.seqLeft Parser.endOfInput) .code none source

end Stencil
