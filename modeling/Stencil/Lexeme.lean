import Stencil.Text.White
import Stencil.Token

/-!
# Lexemes: tokens with their place in the source

A source is cut into lexemes in one of two modes. In text mode everything up to the next `{{` or
`{%` is one text token; these brackets switch to code mode. In code mode white space separates
tokens and is dropped. A closing bracket leads back to text mode in a source that began in text
mode; a source that began in code mode stays in it.

* `Piece.next?` cuts one token off the front of the input. It loses nothing
  (`Piece.taken_append_rest`) and leaves less input than it was given
  (`Piece.rest_length_lt_of_next?`).
* `lexemes` repeats this to the end of the source.
-/

namespace Stencil

/-- How a stretch of a source is read. -/
inductive Mode where
  /-- As raw text, up to the next directive. -/
  | text
  /-- As code: the inside of a directive, or host code. -/
  | code
  deriving DecidableEq, Repr

/-- The name of a mode in output. -/
def Mode.name : Mode → String
  | .text => "Text"
  | .code => "Code"

/-- A half-open range of byte offsets into a source. -/
structure ByteRange where
  start : Nat
  stop : Nat
  deriving DecidableEq, Repr

/-- A token with the bytes it was read from. -/
structure Lexeme where
  token : Token
  range : ByteRange
  deriving DecidableEq, Repr

/-- The number of bytes of a sequence of characters in UTF-8. -/
def byteSize : List Char → Nat
  | [] => 0
  | c :: rest => c.utf8Size + byteSize rest

@[simp] theorem byteSize_append (chars others : List Char) :
    byteSize (chars ++ others) = byteSize chars + byteSize others := by
  induction chars with
  | nil => simp [byteSize]
  | cons c rest ih => simp [byteSize, ih, Nat.add_assoc]

/-! ## Character classes -/

/-- Whether a character can begin an identifier. -/
def startsIdentifier (c : Char) : Bool :=
  c.isAlpha || c == '_'

/-- Whether a character can continue an identifier. -/
def continuesIdentifier (c : Char) : Bool :=
  c.isAlphanum || c == '_'

/-- The characters that are symbols of host code. -/
def signs : List Char :=
  ['-', '+', '*', '/', '%', '=', '<', '>', '!', '&', '|', '^', '~', '@', '.', ':', ';', '[', ']',
    '\x7b', '\x7d']

/-- Whether input begins with the opening bracket of a directive. -/
def startsDirective : List Char → Bool
  | '\x7b' :: '\x7b' :: _ => true
  | '\x7b' :: '%' :: _ => true
  | _ => false

/-! ## One token -/

/-- A token cut off the front of the input: the characters it took and those that follow. -/
structure Piece where
  token : Token
  taken : List Char
  rest : List Char

namespace Piece

/-- The longest stretch at the front of the input in which no directive opens, and the rest. -/
def splitText : List Char → List Char × List Char
  | [] => ([], [])
  | c :: rest =>
    if startsDirective (c :: rest) then ([], c :: rest)
    else
      let split := splitText rest
      (c :: split.1, split.2)

/-- The next token of text-mode input; there is none at the end. -/
def ofText? : List Char → Option Piece
  | [] => none
  | '\x7b' :: '\x7b' :: rest => some ⟨.openExpression, ['\x7b', '\x7b'], rest⟩
  | '\x7b' :: '%' :: rest => some ⟨.openStatement, ['\x7b', '%'], rest⟩
  | c :: rest =>
    let (more, rest) := splitText rest
    some ⟨.text (String.ofList (c :: more)), c :: more, rest⟩

/-- An identifier, or the keyword that is spelled like it. -/
def word (chars : List Char) : Token :=
  match Keyword.ofSpelling? (String.ofList chars) with
  | some keyword => .keyword keyword
  | none => .identifier (String.ofList chars)

/-- A string literal whose opening quote has been read: up to the next such quote. Without one,
all that is left of the input is invalid. -/
def quoted (quote : Char) (chars : List Char) : Piece :=
  match chars.dropWhile (· != quote) with
  | [] => ⟨.invalid (String.ofList (quote :: chars)), quote :: chars, []⟩
  | _ :: rest =>
    let value := chars.takeWhile (· != quote)
    ⟨.string (String.ofList value), quote :: value ++ [quote], rest⟩

/-- The next token of code-mode input that does not begin with white space; there is none at the
end. -/
def ofCode? : List Char → Option Piece
  | [] => none
  | '\x7b' :: '\x7b' :: rest => some ⟨.openExpression, ['\x7b', '\x7b'], rest⟩
  | '\x7d' :: '\x7d' :: rest => some ⟨.closeExpression, ['\x7d', '\x7d'], rest⟩
  | '\x7b' :: '%' :: rest => some ⟨.openStatement, ['\x7b', '%'], rest⟩
  | '%' :: '\x7d' :: rest => some ⟨.closeStatement, ['%', '\x7d'], rest⟩
  | c :: rest =>
    if startsIdentifier c then
      let taken := c :: rest.takeWhile continuesIdentifier
      some ⟨word taken, taken, rest.dropWhile continuesIdentifier⟩
    else if c.isDigit then
      let taken := c :: rest.takeWhile Char.isDigit
      some ⟨.integer (String.ofList taken), taken, rest.dropWhile Char.isDigit⟩
    else if c = '"' || c = '\'' then some (quoted c rest)
    else if c = '(' then some ⟨.openParen, [c], rest⟩
    else if c = ')' then some ⟨.closeParen, [c], rest⟩
    else if c = ',' then some ⟨.comma, [c], rest⟩
    else if signs.contains c then some ⟨.symbol (String.ofList [c]), [c], rest⟩
    else some ⟨.invalid (String.ofList [c]), [c], rest⟩

/-- The next token in a mode. -/
def next? : Mode → List Char → Option Piece
  | .text, input => ofText? input
  | .code, input => ofCode? input

@[simp] theorem splitText_append (input : List Char) :
    (splitText input).1 ++ (splitText input).2 = input := by
  induction input with
  | nil => rfl
  | cons c rest ih =>
    rw [splitText]
    split
    · rfl
    · exact congrArg (c :: ·) ih

theorem length_splitText_snd_le (input : List Char) :
    (splitText input).2.length ≤ input.length := by
  induction input with
  | nil => simp [splitText]
  | cons c rest ih =>
    rw [splitText]
    split
    · exact Nat.le_refl _
    · exact Nat.le_succ_of_le ih

theorem length_dropWhile_le {α : Type} (p : α → Bool) (l : List α) :
    (l.dropWhile p).length ≤ l.length :=
  (List.dropWhile_suffix p).length_le

theorem rest_length_lt_of_ofText? {input : List Char} {piece : Piece}
    (h : ofText? input = some piece) : piece.rest.length < input.length := by
  unfold ofText? at h
  split at h
  · simp at h
  iterate 2
    · obtain rfl := Option.some.inj h
      exact Nat.lt_succ_of_le (Nat.le_succ _)
  · obtain rfl := Option.some.inj h
    exact Nat.lt_succ_of_le (length_splitText_snd_le _)

theorem quoted_rest_length_le (quote : Char) (chars : List Char) :
    (quoted quote chars).rest.length ≤ chars.length := by
  unfold quoted
  split
  · simp
  · next head =>
    have h := length_dropWhile_le (· != quote) chars
    rw [head] at h
    exact Nat.le_of_succ_le h

theorem rest_length_lt_of_ofCode? {input : List Char} {piece : Piece}
    (h : ofCode? input = some piece) : piece.rest.length < input.length := by
  unfold ofCode? at h
  split at h
  · simp at h
  iterate 4
    · obtain rfl := Option.some.inj h
      exact Nat.lt_succ_of_le (Nat.le_succ _)
  · next c rest _ _ _ _ =>
    simp only at h
    repeat' split at h
    · obtain rfl := Option.some.inj h
      exact Nat.lt_succ_of_le (length_dropWhile_le _ _)
    · obtain rfl := Option.some.inj h
      exact Nat.lt_succ_of_le (length_dropWhile_le _ _)
    · obtain rfl := Option.some.inj h
      exact Nat.lt_succ_of_le (quoted_rest_length_le _ _)
    all_goals
      obtain rfl := Option.some.inj h
      exact Nat.lt_succ_self _

theorem taken_append_rest_of_ofText? {input : List Char} {piece : Piece}
    (h : ofText? input = some piece) : piece.taken ++ piece.rest = input := by
  unfold ofText? at h
  split at h
  · simp at h
  iterate 2
    · obtain rfl := Option.some.inj h
      rfl
  · next c rest _ _ =>
    obtain rfl := Option.some.inj h
    exact congrArg (c :: ·) (splitText_append rest)

theorem quoted_taken_append_rest (quote : Char) (chars : List Char) :
    (quoted quote chars).taken ++ (quoted quote chars).rest = quote :: chars := by
  have cut := List.takeWhile_append_dropWhile (p := (· != quote)) (l := chars)
  unfold quoted
  split
  · simp
  · next closing rest head =>
    have closes : closing = quote := by
      have h := List.head_dropWhile_not (· != quote) (l := chars) (by simp [head])
      simpa [head] using h
    rw [head, closes] at cut
    simpa using congrArg (quote :: ·) cut

theorem taken_append_rest_of_ofCode? {input : List Char} {piece : Piece}
    (h : ofCode? input = some piece) : piece.taken ++ piece.rest = input := by
  unfold ofCode? at h
  split at h
  · simp at h
  iterate 4
    · obtain rfl := Option.some.inj h
      rfl
  · next c rest _ _ _ _ =>
    simp only at h
    repeat' split at h
    · obtain rfl := Option.some.inj h
      exact congrArg (c :: ·) List.takeWhile_append_dropWhile
    · obtain rfl := Option.some.inj h
      exact congrArg (c :: ·) List.takeWhile_append_dropWhile
    · obtain rfl := Option.some.inj h
      exact quoted_taken_append_rest c rest
    all_goals
      obtain rfl := Option.some.inj h
      rfl

/-- Cutting off a token loses nothing of the input. -/
theorem taken_append_rest {mode : Mode} {input : List Char} {piece : Piece}
    (h : next? mode input = some piece) : piece.taken ++ piece.rest = input := by
  cases mode with
  | text => exact taken_append_rest_of_ofText? h
  | code => exact taken_append_rest_of_ofCode? h

theorem rest_length_lt_of_next? {mode : Mode} {input : List Char} {piece : Piece}
    (h : next? mode input = some piece) : piece.rest.length < input.length := by
  cases mode with
  | text => exact rest_length_lt_of_ofText? h
  | code => exact rest_length_lt_of_ofCode? h

end Piece

/-! ## All tokens -/

/-- The white space that is skipped before the next token: none in text mode. -/
def skipped : Mode → List Char → List Char
  | .text, _ => []
  | .code, input => input.takeWhile Text.isWhite

/-- The input after the white space that is skipped. -/
def afterSkipped : Mode → List Char → List Char
  | .text, input => input
  | .code, input => input.dropWhile Text.isWhite

theorem skipped_append_afterSkipped (mode : Mode) (input : List Char) :
    skipped mode input ++ afterSkipped mode input = input := by
  cases mode with
  | text => rfl
  | code => exact List.takeWhile_append_dropWhile

theorem length_afterSkipped_le (mode : Mode) (input : List Char) :
    (afterSkipped mode input).length ≤ input.length := by
  cases mode with
  | text => exact Nat.le_refl _
  | code => exact Piece.length_dropWhile_le _ _

/-- The mode after a token: an opening bracket leads into code, and a closing bracket back into
the mode that the source began in. -/
def Mode.after (current initial : Mode) (token : Token) : Mode :=
  if token.opens then .code
  else if token.closes then initial
  else current

/-- The lexemes of the input that is left at byte `offset`, in a source that began in mode
`initial`. -/
def lexemesFrom (initial current : Mode) (offset : Nat) (input : List Char) : List Lexeme :=
  match h : Piece.next? current (afterSkipped current input) with
  | none => []
  | some piece =>
    let start := offset + byteSize (skipped current input)
    let stop := start + byteSize piece.taken
    have := Piece.rest_length_lt_of_next? h
    have := length_afterSkipped_le current input
    ⟨piece.token, ⟨start, stop⟩⟩ ::
      lexemesFrom initial (current.after initial piece.token) stop piece.rest
termination_by input.length

/-- The lexemes of a source that begins in the given mode. -/
def lexemes (mode : Mode) (source : String) : List Lexeme :=
  lexemesFrom mode mode 0 source.toList

/-- The tokens of a source that begins in the given mode. -/
def tokens (mode : Mode) (source : String) : List Token :=
  (lexemes mode source).map Lexeme.token

/-- A lexeme in JSON output: the token and its range. -/
def Lexeme.toJson (lexeme : Lexeme) : Json :=
  .array [lexeme.token.toJson,
    .object [("start", .ofNat lexeme.range.start), ("end", .ofNat lexeme.range.stop)]]

end Stencil
