import Stencil.Composition
import Stencil.Dialect

/-!
# Templates in host code

A host language brings its own expressions and statements. Directives are spliced into both: where
the host accepts an expression it also accepts an interpolation, and where it accepts a statement
it also accepts a directive. What the host can read by itself is always tried first.

* `Host.dialect` is the dialect of a host with directives spliced in.
* `Host.embed` composes the host's grammar with that of directives first, so that a host whose
  grammar cannot take the splice is refused.
-/

namespace Stencil

/-- A host language with expressions `E` and statements `S`. Its parsers read at least one lexeme
before they use the parsers they are given. -/
structure Host (E S : Type) where
  name : String
  /-- The grammar of the host, for composition. -/
  rules : Grammar
  splice : SplicePoints
  /-- Alternatives of the host's grammar that begin alike on purpose. -/
  conflicts : List Conflict
  /-- Reads an expression of the host; the argument reads a spliced expression. -/
  expression : Parser (Spliced E) → Parser E
  /-- Reads a statement of the host; the arguments read a spliced statement and a spliced
  expression. -/
  statement : Parser (Statement (Spliced E) S) → Parser (Spliced E) → Parser S

namespace Host

variable {E S : Type}

/-- Reads an expression of the host, or else an interpolation. -/
def splicedExpression (host : Host E S) : Parser (Spliced E) :=
  Parser.recursive fun spliced =>
    ((host.expression spliced).map .host).orElse
      ((Parser.interpolation spliced).map .interpolation)

/-- The dialect of host code with directives spliced in. -/
def dialect (host : Host E S) : Dialect (Spliced E) S where
  mode := .code
  expression := host.splicedExpression
  plain statement := host.statement statement host.splicedExpression

/-- The grammar of the host with that of directives spliced in. -/
def grammar (host : Host E S) : Except (List CompositionError) ComposedGrammar :=
  compose host.rules host.conflicts host.splice (directiveRules .code)

/-- A host whose grammar can take the splice: its dialect, with the composed grammar. -/
def embed (host : Host E S) :
    Except (List CompositionError) (Dialect (Spliced E) S × ComposedGrammar) :=
  host.grammar.map fun composed => (host.dialect, composed)

/-- Parses one spliced expression that takes up all of a source. -/
def parseExpression (host : Host E S) (source : String) :
    Except (List ParseError) (Spliced E) :=
  parseAs (host.splicedExpression.seqLeft Parser.endOfInput) .code none source

end Host

/-! ## JSON output -/

/-- A statement of a host in JSON output. -/
def hostJson (statement : Json) : Json :=
  .single "host" statement

/-- A directive in host code in JSON output. -/
def templateJson (directive : Json) : Json :=
  .single "template" directive

end Stencil
