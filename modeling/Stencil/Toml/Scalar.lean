import Stencil.Decimal
import Stencil.Toml.Document

/-!
# Bare values in TOML

A value that is not a string, an array or a table is written without quotes and without blanks,
except that a date and a time may have a space between them.
-/

namespace Stencil.Toml

/-! ## Integers -/

/-- A sign at the front of a number: whether it is a minus, and what follows. -/
def sign : List Char → Bool × List Char
  | '-' :: rest => (true, rest)
  | '+' :: rest => (false, rest)
  | rest => (false, rest)

/-- The digits of a decimal integer without its sign: no zero stands before other digits. -/
def decimalDigits? (text : List Char) : Option (List Char) :=
  match digits? Char.isDigit text with
  | some ['0'] => some ['0']
  | some ('0' :: _) => none
  | found => found

/-- An integer within the range of 64 bits. -/
def inRange? (n : Int) : Option Value :=
  if -0x8000000000000000 ≤ n && n < 0x8000000000000000 then some (.int n) else none

/-- Whether a character is a hexadecimal digit. -/
def isHexDigit (c : Char) : Bool :=
  c.isDigit || ('a' ≤ c && c ≤ 'f') || ('A' ≤ c && c ≤ 'F')

/-- An integer: decimal with an optional sign, or hexadecimal, octal or binary without. -/
def integer? : List Char → Option Value
  | '0' :: 'x' :: rest => do inRange? (number 16 (← digits? isHexDigit rest))
  | '0' :: 'o' :: rest => do inRange? (number 8 (← digits? (fun c => '0' ≤ c && c ≤ '7') rest))
  | '0' :: 'b' :: rest => do inRange? (number 2 (← digits? (fun c => c == '0' || c == '1') rest))
  | text => do
    let (negative, rest) := sign text
    let size : Int := number 10 (← decimalDigits? rest)
    inRange? (if negative then -size else size)

/-! ## Floating-point numbers -/

/-- The exponent after its mark: an integer, zeros in front allowed. -/
def exponent? (text : List Char) : Option Int := do
  let (negative, rest) := sign text
  let size : Int := number 10 (← digits? Char.isDigit rest)
  return if negative then -size else size

/-- Whether a character marks an exponent. -/
def marksExponent (c : Char) : Bool :=
  c == 'e' || c == 'E'

/-- A number with a fraction or an exponent. One that is too large is an error, and one that is
too small is zero. -/
def decimal? (text : List Char) : Option Value := do
  let (negative, rest) := sign text
  let mantissa := rest.takeWhile fun c => !marksExponent c
  let power ← match rest.dropWhile fun c => !marksExponent c with
    | [] => some 0
    | _ :: tail => exponent? tail
  let whole ← decimalDigits? (mantissa.takeWhile (· != '.'))
  let fraction ← match mantissa.dropWhile (· != '.') with
    | [] => some []
    | _ :: tail => digits? Char.isDigit tail
  if mantissa.contains '.' || rest.any marksExponent then
    let size := Decimal.toFloat (number 10 (whole ++ fraction)) (power - fraction.length)
    if size.isInf && !negative then none
    else some (.float (if negative then -size else size))
  else none

/-- Infinity or not-a-number, with an optional sign. -/
def special? (text : List Char) : Option Value :=
  let (negative, rest) := sign text
  if rest = ['i', 'n', 'f'] then some (.float (if negative then -1 / 0 else 1 / 0))
  else if rest = ['n', 'a', 'n'] then some (.float (0 / 0))
  else none

/-! ## Bare values -/

/-- Whether a bare value ends before a character. -/
def endsBare (c : Char) : Bool :=
  isBlank c || c == '\n' || c == '\r' || c == ',' || c == ']' || c == '\x7d' || c == '#'

/-- The text of a bare value, and what follows it. After a date, a space and a time belong to
it. -/
def splitBare (input : List Char) : List Char × List Char :=
  let text := input.takeWhile fun c => !endsBare c
  let rest := input.dropWhile fun c => !endsBare c
  match (date? text), rest with
  | some (_, []), ' ' :: later =>
    let time := later.takeWhile fun c => !endsBare c
    match time? time with
    | some _ => (text ++ ' ' :: time, later.dropWhile fun c => !endsBare c)
    | none => (text, rest)
  | _, _ => (text, rest)

/-- The truth value or number that a bare text stands for. -/
def scalar? (text : List Char) : Option Value :=
  if text = ['t', 'r', 'u', 'e'] then some (.bool true)
  else if text = ['f', 'a', 'l', 's', 'e'] then some (.bool false)
  else (special? text).orElse fun _ => (decimal? text).orElse fun _ => integer? text

/-- What a bare text stands for. -/
def bare? (text : List Char) : Option Item :=
  match moment? text with
  | some moment => some (.moment moment)
  | none => (scalar? text).map .scalar

/-- Reads a bare value. -/
def bare : Reader Item := fun input =>
  let (text, rest) := splitBare input
  (bare? text).map (·, rest)

end Stencil.Toml
