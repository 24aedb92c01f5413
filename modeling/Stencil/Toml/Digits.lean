import Stencil.Toml.Blank

/-!
# Digits in TOML

Numbers may have single underscores between their digits; the parts of dates and times have a
fixed number of digits.
-/

namespace Stencil.Toml

/-- The digits of a number, with single underscores between them left out. -/
def digits? (isDigit : Char → Bool) : List Char → Option (List Char)
  | [] => none
  | [c] => if isDigit c then some [c] else none
  | c :: '_' :: rest => if isDigit c then (digits? isDigit rest).map (c :: ·) else none
  | c :: rest => if isDigit c then (digits? isDigit rest).map (c :: ·) else none

/-- The value of a digit in any base up to sixteen. -/
def digitValue (c : Char) : Nat :=
  if c.isDigit then c.toNat - '0'.toNat
  else if 'a' ≤ c then c.toNat - 'a'.toNat + 10
  else c.toNat - 'A'.toNat + 10

/-- The number with the given digits. -/
def number (base : Nat) (digits : List Char) : Nat :=
  digits.foldl (fun n c => base * n + digitValue c) 0

/-- A number of exactly `count` digits between two bounds, and what follows it. -/
def field? (count least greatest : Nat) : Reader Nat := fun input =>
  let digits := input.take count
  let n := number 10 digits
  if digits.length = count && digits.all Char.isDigit && least ≤ n && n ≤ greatest then
    some (n, input.drop count)
  else none

/-- The input after a given character. -/
def expect? (c : Char) : Reader Unit
  | d :: rest => if c = d then some ((), rest) else none
  | [] => none

/-- A number with zeros in front up to the given width. -/
def padded (width n : Nat) : String :=
  let text := Nat.toDigits 10 n
  String.ofList (List.replicate (width - text.length) '0' ++ text)

end Stencil.Toml
