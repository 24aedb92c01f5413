/-!
# Blanks, comments and line ends in TOML

White space in TOML is the space and the tab. A line ends with a line feed, before which a
carriage return may stand; a carriage return anywhere else is an error. A comment reaches from `#`
to the end of its line.
-/

namespace Stencil.Toml

/-- Reads something from the front of the input, and gives what follows it. -/
abbrev Reader (α : Type) := List Char → Option (α × List Char)

/-- Whether a character is a space or a tab. -/
def isBlank (c : Char) : Bool :=
  c == ' ' || c == '\t'

/-- Whether a character may stand in a comment or, quotes and escapes apart, in a string on one
line: a tab, or anything but a control character. -/
def isPlain (c : Char) : Bool :=
  c == '\t' || (0x20 ≤ c.toNat && c.toNat ≤ 0x7e) || 0x80 ≤ c.toNat

/-- The input after a byte order mark, if it begins with one. -/
def skipByteOrderMark : List Char → List Char
  | [] => []
  | c :: rest => if c.toNat = 0xfeff then rest else c :: rest

/-- The input after spaces and tabs. -/
def skipBlanks (input : List Char) : List Char :=
  input.dropWhile isBlank

/-- The input after a line end, if it begins with one. -/
def newline? : List Char → Option (List Char)
  | '\n' :: rest => some rest
  | '\r' :: '\n' :: rest => some rest
  | _ => none

/-- The input after blanks, line ends and comments; `inComment` says whether a comment has begun.
There is none if a comment holds a control character. -/
def skipLines (inComment : Bool) : List Char → Option (List Char)
  | [] => some []
  | '\n' :: rest => skipLines false rest
  | '\r' :: '\n' :: rest => skipLines false rest
  | c :: rest =>
    if inComment then if isPlain c then skipLines true rest else none
    else if isBlank c then skipLines false rest
    else if c = '#' then skipLines true rest
    else some (c :: rest)

/-- The input after the rest of a line on which nothing but blanks and a comment is left. -/
def endLine (inComment : Bool) : List Char → Option (List Char)
  | [] => some []
  | '\n' :: rest => some rest
  | '\r' :: '\n' :: rest => some rest
  | c :: rest =>
    if inComment then if isPlain c then endLine true rest else none
    else if isBlank c then endLine false rest
    else if c = '#' then endLine true rest
    else none

end Stencil.Toml
