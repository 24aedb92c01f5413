import Stencil.Toml.Quoted
import Stencil.Toml.Scalar

/-!
# Reading TOML documents

`Toml.parse?` reads a document into a table of values; a text that is not a TOML document has
none. Arrays and inline tables nest to a depth of less than `nestingLimit`, and keys have fewer
parts than that.
-/

namespace Stencil.Toml

/-- The depth that arrays and inline tables do not reach, and the number of parts that keys do
not reach. -/
def nestingLimit : Nat := 80

/-! ## Keys -/

/-- Whether a character may stand in a key without quotes. -/
def isBareKeyChar (c : Char) : Bool :=
  c.isAlphanum || c == '_' || c == '-'

/-- A single key, with the blanks around it. -/
def simpleKey : Reader String := fun input =>
  let input := skipBlanks input
  match input with
  | '"' :: rest => (lineString '"' rest).map fun (key, rest) => (key, skipBlanks rest)
  | '\'' :: rest => (lineString '\'' rest).map fun (key, rest) => (key, skipBlanks rest)
  | _ =>
    let key := input.takeWhile isBareKeyChar
    if key.isEmpty then none
    else some (String.ofList key, skipBlanks (input.dropWhile isBareKeyChar))

/-- The parts of a key, with points between them; `room` bounds their number. -/
def keyParts : Nat → Reader (List String)
  | 0 => fun _ => none
  | room + 1 => fun input => do
    let (part, rest) ← simpleKey input
    match rest with
    | '.' :: rest => do
      let (parts, rest) ← keyParts room rest
      return (part :: parts, rest)
    | rest => return ([part], rest)

/-- A key: the parts before the last one, and the last one. -/
def key : Reader (List String × String) := fun input => do
  let (parts, rest) ← keyParts (nestingLimit - 1) input
  let last ← parts.getLast?
  return ((parts.dropLast, last), rest)

/-! ## Values -/

/-- The rest of an array after its bracket or a comma; `room` bounds the number of elements. A
comma may follow the last element. -/
def arrayRest (item : Reader Item) : Nat → Reader (List Item)
  | 0 => fun _ => none
  | room + 1 => fun input => do
    match ← skipLines false input with
    | ']' :: rest => return ([], rest)
    | input => do
      let (value, rest) ← item input
      match ← skipLines false rest with
      | ',' :: rest => do
        let (values, rest) ← arrayRest item room rest
        return (value :: values, rest)
      | ']' :: rest => return ([value], rest)
      | _ => none

/-- A key with its value, and the blanks around them. -/
def keyValue (item : Reader Item) : Reader ((List String × String) × Item) := fun input => do
  let (key, rest) ← key input
  match rest with
  | '=' :: rest => do
    let (value, rest) ← item (skipBlanks rest)
    return ((key, value), skipBlanks rest)
  | _ => none

/-- The rest of an inline table after its brace or a comma, when a key has to follow; `room`
bounds the number of keys. -/
def inlineRest (item : Reader Item) : Nat → Entries → Reader Entries
  | 0, _ => fun _ => none
  | room + 1, entries => fun input => do
    let (((path, key), value), rest) ← keyValue item input
    let entries ← entries.define path key value .explicit
    match rest with
    | ',' :: rest => inlineRest item room entries rest
    | '\x7d' :: rest => return (entries, rest)
    | _ => none

/-- An inline table whose brace has been read. -/
def inlineTable (item : Reader Item) : Reader Item := fun input =>
  match skipBlanks input with
  | '\x7d' :: rest => some (.inline [], rest)
  | input => do
    let (entries, rest) ← inlineRest item input.length [] input
    return (.inline entries, rest)

/-- A value; arrays and inline tables in it nest to less than the given depth. -/
def value : Nat → Reader Item
  | 0 => fun _ => none
  | depth + 1 => fun input =>
    match input with
    | '"' :: _ => (string '"' input).map fun (text, rest) => (.scalar (.string text), rest)
    | '\'' :: _ => (string '\'' input).map fun (text, rest) => (.scalar (.string text), rest)
    | '[' :: rest =>
      if depth = 0 then none
      else (arrayRest (value depth) (input.length) rest).map
        fun (values, rest) => (.array values, rest)
    | '\x7b' :: rest => if depth = 0 then none else inlineTable (value depth) rest
    | _ => bare input

/-! ## Documents -/

/-- A header: whether it is one of an array of tables, and its key. -/
def header : Reader (Bool × List String × String) := fun input =>
  match input with
  | '[' :: '[' :: rest => do
    let (key, rest) ← key rest
    match rest with
    | ']' :: ']' :: rest => return ((true, key), rest)
    | _ => none
  | '[' :: rest => do
    let (key, rest) ← key rest
    match rest with
    | ']' :: rest => return ((false, key), rest)
    | _ => none
  | _ => none

/-- Reads the lines that are left. `current` is the path of the table that keys are added to;
`room` bounds the number of lines. -/
def lines : Nat → List String → Entries → List Char → Option Entries
  | 0, _, _, _ => none
  | room + 1, current, root, input => do
    match ← skipLines false input with
    | [] => return root
    | '[' :: rest => do
      let ((element, path, key), rest) ← header ('[' :: rest)
      let opening := if element then Entries.openElement key else Entries.openTable key
      let root ← root.within false opening path .explicit
      lines room (path ++ [key]) root (← endLine false rest)
    | input => do
      let (((path, key), value), rest) ← keyValue (value nestingLimit) input
      let root ← root.within false (Entries.define path key value) current .explicit
      lines room current root (← endLine false rest)

/-- The table that a document describes. A byte order mark may stand before it. -/
def parse? (text : String) : Option (List (String × Value)) :=
  let input := skipByteOrderMark text.toList
  match lines (input.length + 1) [] [] input >>= tableValue? with
  | some (.table entries) => some entries
  | _ => none

end Stencil.Toml
