import Stencil.Json
import Stencil.Lexeme

/-!
# Lines and columns

Tokens carry byte offsets, messages show lines and columns. A `LineIndex` holds the offsets at
which the lines of a source begin, and turns offsets into positions.
-/

namespace Stencil

/-- A place in a source: line and column count from 0, the column in bytes. -/
structure Position where
  line : Nat
  column : Nat
  deriving DecidableEq, Repr

namespace Position

/-- Whether one position is at or before another. -/
def le (p q : Position) : Bool :=
  p.line < q.line || (p.line == q.line && p.column ≤ q.column)

/-- A position as readers count it: lines and columns from 1. -/
def describe (p : Position) : String :=
  toString (p.line + 1) ++ ":" ++ toString (p.column + 1)

/-- A position in JSON output. -/
def toJson (p : Position) : Json :=
  .object [("line", .ofNat p.line), ("column", .ofNat p.column)]

end Position

/-- A stretch of a source between two positions. -/
structure Span where
  start : Position
  stop : Position
  deriving DecidableEq, Repr

namespace Span

/-- Whether a position lies in a span, both ends included. -/
def contains (span : Span) (p : Position) : Bool :=
  span.start.le p && p.le span.stop

/-- A span as readers count it. -/
def describe (span : Span) : String :=
  span.start.describe ++ ".." ++ span.stop.describe

/-- A span in JSON output. -/
def toJson (span : Span) : Json :=
  .object [("start", span.start.toJson), ("end", span.stop.toJson)]

end Span

/-- The byte offsets at which the lines of a source begin, in increasing order. The first line
begins at 0. -/
structure LineIndex where
  starts : List Nat
  deriving DecidableEq, Repr

namespace LineIndex

/-- The offsets just after the line feeds of the input that stands at byte `offset`. -/
def startsFrom (offset : Nat) : List Char → List Nat
  | [] => []
  | c :: rest =>
    let next := offset + c.utf8Size
    if c = '\n' then next :: startsFrom next rest else startsFrom next rest

/-- The line index of a source. -/
def ofSource (source : String) : LineIndex :=
  ⟨0 :: startsFrom 0 source.toList⟩

/-- The number of lines. -/
def lineCount (index : LineIndex) : Nat :=
  index.starts.length

/-- The last of the line starts at or before an offset, as a position. `line` is the number of
the line that begins at `start`; `later` are the starts of the lines after it. -/
def locate (offset line start : Nat) (later : List Nat) : Position :=
  match later with
  | [] => ⟨line, offset - start⟩
  | next :: later =>
    if next ≤ offset then locate offset (line + 1) next later else ⟨line, offset - start⟩

/-- The position of a byte offset. Offsets after the end of the source count on in the last
line. -/
def position (index : LineIndex) (offset : Nat) : Position :=
  match index.starts with
  | [] => ⟨0, offset⟩
  | start :: later => locate offset 0 start later

/-- The span of a byte range. -/
def span (index : LineIndex) (range : ByteRange) : Span :=
  ⟨index.position range.start, index.position range.stop⟩

end LineIndex

end Stencil
