import Stencil.Settings.Value

/-!
# Written paths

A path is written as a name, followed by any number of names after points and of indices between
brackets, as in `output.truncate_labels` or `rows[-1].name`.
-/

namespace Stencil.Path

open Value (Step)

/-- Whether a character may stand in a name. -/
def isNameChar (c : Char) : Bool :=
  c.isAlphanum || c == ' ' || c == '_' || c == '-'

/-- Whether a character is a space or a tab. -/
def isBlank (c : Char) : Bool :=
  c == ' ' || c == '\t'

/-- Whether an index can be held in 64 bits. -/
def isIndex (index : Int) : Bool :=
  -0x8000000000000000 ≤ index && index < 0x8000000000000000

/-- Reads the inside of brackets: an integer, with blanks around it. -/
def index? (inside : List Char) : Option Int :=
  let trimmed := ((inside.dropWhile isBlank).reverse.dropWhile isBlank).reverse
  let (negative, digits) := match trimmed with
    | '-' :: digits => (true, digits)
    | digits => (false, digits)
  if digits.isEmpty || !digits.all Char.isDigit then none
  else
    let size : Int := digits.foldl (fun n c => 10 * n + (c.toNat - '0'.toNat)) 0
    let value := if negative then -size else size
    if isIndex value then some value else none

/-- The steps in what follows the first name; `room` bounds their number. -/
def steps? (room : Nat) (chars : List Char) : Option (List Step) :=
  match room, chars with
  | _, [] => some []
  | room + 1, '.' :: rest =>
    let name := rest.takeWhile isNameChar
    if name.isEmpty then none
    else (steps? room (rest.dropWhile isNameChar)).map (.key (String.ofList name) :: ·)
  | room + 1, '[' :: rest =>
    match index? (rest.takeWhile (· != ']')), rest.dropWhile (· != ']') with
    | some index, _ :: rest => (steps? room rest).map (.index index :: ·)
    | _, _ => none
  | _, _ => none

/-- The path that a text spells. -/
def parse? (text : String) : Option (List Step) :=
  let chars := text.toList
  let name := chars.takeWhile isNameChar
  if name.isEmpty then none
  else
    (steps? chars.length (chars.dropWhile isNameChar)).map (.key (String.ofList name) :: ·)

end Stencil.Path
