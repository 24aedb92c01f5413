/-!
# JSON values and their text

A JSON value keeps its object members in order. `Json.compact` writes a value on one line without
spaces, `Json.pretty` with one element or member a line and an indent of two spaces.
-/

namespace Stencil

/-- A JSON value; numbers are integers. -/
inductive Json where
  | null
  | bool (value : Bool)
  | number (value : Int)
  | string (value : String)
  | array (elements : List Json)
  | object (members : List (String × Json))
  deriving Inhabited

namespace Json

/-- An object with a single member. -/
def single (key : String) (value : Json) : Json :=
  .object [(key, value)]

/-- An optional value, absent as `null`. -/
def ofOption : Option Json → Json
  | none => .null
  | some value => value

/-- The natural number `n` as a value. -/
def ofNat (n : Nat) : Json :=
  .number n

/-- A list of texts as an array. -/
def strings (texts : List String) : Json :=
  .array (texts.map .string)

/-! ## Text of strings -/

/-- The last digits of `\u00xx` for a character below U+0020. -/
def controlDigits (n : Nat) : List Char :=
  let digits := Nat.toDigits 16 n
  if n < 16 then '0' :: digits else digits

/-- A character as it stands between the quotes of a string. -/
def escapedForm (c : Char) : List Char :=
  if c = '"' then ['\\', '"']
  else if c = '\\' then ['\\', '\\']
  else if c = '\n' then ['\\', 'n']
  else if c = '\r' then ['\\', 'r']
  else if c = '\t' then ['\\', 't']
  else if c.toNat = 0x8 then ['\\', 'b']
  else if c.toNat = 0xc then ['\\', 'f']
  else if c.toNat < 0x20 then ['\\', 'u', '0', '0'] ++ controlDigits c.toNat
  else [c]

/-- A string with its quotes. -/
def quote (text : String) : String :=
  String.ofList ('"' :: text.toList.flatMap escapedForm ++ ['"'])

/-! ## One line -/

mutual

/-- The text of a value on one line. -/
def compact : Json → String
  | .null => "null"
  | .bool value => if value then "true" else "false"
  | .number value => toString value
  | .string value => quote value
  | .array elements => "[" ++ compactElements true elements ++ "]"
  | .object members => "\x7b" ++ compactMembers true members ++ "\x7d"

/-- The elements of an array; each but the first follows a comma. -/
def compactElements (first : Bool) : List Json → String
  | [] => ""
  | value :: rest =>
    (if first then "" else ",") ++ compact value ++ compactElements false rest

/-- The members of an object; each but the first follows a comma. -/
def compactMembers (first : Bool) : List (String × Json) → String
  | [] => ""
  | (key, value) :: rest =>
    (if first then "" else ",") ++ quote key ++ ":" ++ compact value ++ compactMembers false rest

end

/-! ## Several lines -/

/-- The start of a line at a nesting depth. -/
def newline (depth : Nat) : String :=
  String.ofList ('\n' :: List.replicate (2 * depth) ' ')

mutual

/-- The text of a value over several lines; `depth` is the number of values around it. -/
def prettyAt (depth : Nat) : Json → String
  | .array [] => "[]"
  | .array elements => "[" ++ prettyElements depth true elements ++ newline depth ++ "]"
  | .object [] => "\x7b\x7d"
  | .object members => "\x7b" ++ prettyMembers depth true members ++ newline depth ++ "\x7d"
  | .null => "null"
  | .bool value => if value then "true" else "false"
  | .number value => toString value
  | .string value => quote value

/-- The elements of an array, each on a line of its own. -/
def prettyElements (depth : Nat) (first : Bool) : List Json → String
  | [] => ""
  | value :: rest =>
    (if first then "" else ",") ++ newline (depth + 1) ++ prettyAt (depth + 1) value ++
      prettyElements depth false rest

/-- The members of an object, each on a line of its own. -/
def prettyMembers (depth : Nat) (first : Bool) : List (String × Json) → String
  | [] => ""
  | (key, value) :: rest =>
    (if first then "" else ",") ++ newline (depth + 1) ++ quote key ++ ": " ++
      prettyAt (depth + 1) value ++ prettyMembers depth false rest

end

/-- The text of a value over several lines. -/
def pretty (value : Json) : String :=
  prettyAt 0 value

/-- The text of a value, over several lines if `spread`. -/
def render (spread : Bool) (value : Json) : String :=
  if spread then pretty value else compact value

end Json

end Stencil
