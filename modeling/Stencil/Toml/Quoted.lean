import Stencil.Toml.Blank

/-!
# Strings in TOML

Strings come in four kinds: between double quotes, with escapes, or between single quotes, taken
as they are; and each of them on one line, or between triple quotes on several. In strings over
several lines a line end counts as one line feed, and one directly after the opening quotes is
dropped.
-/

namespace Stencil.Toml

/-! ## Escapes -/

/-- The value of a hexadecimal digit. -/
def hexDigit? (c : Char) : Option Nat :=
  if c.isDigit then some (c.toNat - '0'.toNat)
  else if 'a' ≤ c && c ≤ 'f' then some (c.toNat - 'a'.toNat + 10)
  else if 'A' ≤ c && c ≤ 'F' then some (c.toNat - 'A'.toNat + 10)
  else none

/-- The character whose code point has the given hexadecimal digits. -/
def codePoint? (digits : List Char) : Option Char := do
  let n ← digits.foldlM (fun n c => (hexDigit? c).map (16 * n + ·)) 0
  if n < 0xd800 || (0xdfff < n && n < 0x110000) then some (Char.ofNat n) else none

/-- The character that an escape of one letter stands for. -/
def letterEscape? : Char → Option Char
  | 'b' => some (Char.ofNat 0x8)
  | 't' => some '\t'
  | 'n' => some '\n'
  | 'f' => some (Char.ofNat 0xc)
  | 'r' => some '\r'
  | '"' => some '"'
  | '\\' => some '\\'
  | _ => none

/-- The text between double quotes with its escapes resolved. `lines` says whether it may hold
line ends, and `skipping` whether blanks and line ends are dropped: after a backslash at the end
of a line they are, up to the next other character. -/
def unescape (lines skipping : Bool) : List Char → Option (List Char)
  | [] => some []
  | '\n' :: rest =>
    if skipping then unescape lines true rest
    else if lines then (unescape lines false rest).map ('\n' :: ·) else none
  | '\r' :: '\n' :: rest =>
    if skipping then unescape lines true rest
    else if lines then (unescape lines false rest).map ('\n' :: ·) else none
  | '\\' :: 'u' :: a :: b :: c :: d :: rest => do
    let c' ← codePoint? [a, b, c, d]
    (unescape lines false rest).map (c' :: ·)
  | '\\' :: 'U' :: a :: b :: c :: d :: e :: f :: g :: h :: rest => do
    let c' ← codePoint? [a, b, c, d, e, f, g, h]
    (unescape lines false rest).map (c' :: ·)
  | '\\' :: c :: rest =>
    match letterEscape? c with
    | some plain => (unescape lines false rest).map (plain :: ·)
    | none =>
      if lines && (newline? (skipBlanks (c :: rest))).isSome then unescape lines true (c :: rest)
      else none
  | c :: rest =>
    if skipping && isBlank c then unescape lines true rest
    else if isPlain c && c != '\\' then (unescape lines false rest).map (c :: ·)
    else none

/-- The text between single quotes. -/
def verbatim (lines : Bool) : List Char → Option (List Char)
  | [] => some []
  | '\n' :: rest => if lines then (verbatim lines rest).map ('\n' :: ·) else none
  | '\r' :: '\n' :: rest => if lines then (verbatim lines rest).map ('\n' :: ·) else none
  | c :: rest => if isPlain c then (verbatim lines rest).map (c :: ·) else none

/-! ## Finding the end -/

/-- What stands before the next `quote`, and what follows it. If `escapes`, a backslash takes the
next character along. -/
def untilQuote (quote : Char) (escapes : Bool) : Reader (List Char)
  | [] => none
  | [c] => if c = quote then some ([], []) else none
  | c :: d :: rest =>
    if c = quote then some ([], d :: rest)
    else if escapes && c = '\\' then
      (untilQuote quote escapes rest).map fun (inside, rest) => (c :: d :: inside, rest)
    else
      (untilQuote quote escapes (d :: rest)).map fun (inside, rest) => (c :: inside, rest)

/-- What stands before the next three `quote`s, and what follows them. One or two further quotes
directly before the closing ones belong to the text. -/
def untilTriple (quote : Char) (escapes : Bool) : Reader (List Char)
  | [] => none
  | [_] => none
  | c :: d :: rest =>
    let closing (n : Nat) := (c :: d :: rest).take n == List.replicate n quote
    if closing 5 then some ([quote, quote], (c :: d :: rest).drop 5)
    else if closing 4 then some ([quote], (c :: d :: rest).drop 4)
    else if closing 3 then some ([], (c :: d :: rest).drop 3)
    else if escapes && c = '\\' then
      (untilTriple quote escapes rest).map fun (inside, rest) => (c :: d :: inside, rest)
    else
      (untilTriple quote escapes (d :: rest)).map fun (inside, rest) => (c :: inside, rest)

/-! ## Strings -/

/-- The text of a string from what stands between its quotes. -/
def content (quote : Char) (lines : Bool) (inside : List Char) : Option (List Char) :=
  if quote = '"' then unescape lines false inside else verbatim lines inside

/-- A string on one line whose opening quote has been read. -/
def lineString (quote : Char) : Reader String := fun input => do
  let (inside, rest) ← untilQuote quote (quote = '"') input
  let text ← content quote false inside
  return (String.ofList text, rest)

/-- A string over several lines whose opening quotes have been read. -/
def linesString (quote : Char) : Reader String := fun input => do
  let (inside, rest) ← untilTriple quote (quote = '"') ((newline? input).getD input)
  let text ← content quote true inside
  return (String.ofList text, rest)

/-- A string of any kind; the input begins with its quote. -/
def string (quote : Char) : Reader String := fun input =>
  match input with
  | _ :: b :: c :: rest =>
    if b = quote && c = quote then linesString quote rest else lineString quote (b :: c :: rest)
  | _ :: rest => lineString quote rest
  | [] => none

end Stencil.Toml
