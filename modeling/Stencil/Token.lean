import Stencil.Json
import Stencil.Text.Quoted

/-!
# Tokens

A template is read as a sequence of tokens: runs of raw text, the four brackets of directives, and
what may stand inside a directive or in host code. `Token.className` names the class a token
belongs to, as "expected" lists show it, and `Token.describe` describes one token, as "found"
shows it.
-/

namespace Stencil

/-- The words with a fixed meaning inside directives. -/
inductive Keyword where
  | for_
  | in_
  | with_
  | join
  | endFor
  | endJoin
  deriving DecidableEq, Repr

namespace Keyword

/-- All keywords. -/
def all : List Keyword :=
  [.for_, .in_, .with_, .join, .endFor, .endJoin]

/-- How a keyword is written. -/
def spelling : Keyword → String
  | .for_ => "for"
  | .in_ => "in"
  | .with_ => "with"
  | .join => "join"
  | .endFor => "endfor"
  | .endJoin => "endjoin"

/-- The keyword that is written as `word`. -/
def ofSpelling? (word : String) : Option Keyword :=
  all.find? (·.spelling == word)

/-- Whether a keyword closes a block. -/
def isEnd : Keyword → Bool
  | .endFor | .endJoin => true
  | _ => false

/-- The name of a keyword in JSON output. -/
def name : Keyword → String
  | .for_ => "For"
  | .in_ => "In"
  | .with_ => "With"
  | .join => "Join"
  | .endFor => "EndFor"
  | .endJoin => "EndJoin"

/-- The keyword in quotation marks. -/
def className (word : Keyword) : String :=
  "'" ++ word.spelling ++ "'"

end Keyword

/-- A classified piece of a source. -/
inductive Token where
  /-- A run of raw text outside directives. -/
  | text (content : String)
  | openExpression
  | closeExpression
  | openStatement
  | closeStatement
  | keyword (word : Keyword)
  | identifier (name : String)
  /-- A string literal, without its quotes. -/
  | string (value : String)
  | integer (digits : String)
  | openParen
  | closeParen
  | comma
  /-- A character that only host code gives a meaning to. -/
  | symbol (sign : String)
  /-- Input that starts no token. -/
  | invalid (content : String)
  deriving DecidableEq, Repr

namespace Token

/-- Whether a token opens a directive. -/
def opens : Token → Bool
  | .openExpression | .openStatement => true
  | _ => false

/-- Whether a token closes a directive. -/
def closes : Token → Bool
  | .closeExpression | .closeStatement => true
  | _ => false

/-- Whether a token is raw text. -/
def isText : Token → Bool
  | .text _ => true
  | _ => false

/-- Whether a token is a keyword that closes a block. -/
def isEnd : Token → Bool
  | .keyword word => word.isEnd
  | _ => false

/-- The class of a token, as lists of expected classes show it. -/
def className : Token → String
  | .text _ => "some text"
  | .openExpression => "'\x7b\x7b'"
  | .closeExpression => "'\x7d\x7d'"
  | .openStatement => "'\x7b%'"
  | .closeStatement => "'%\x7d'"
  | .keyword word => word.className
  | .identifier _ => "an identifier"
  | .string _ => "a string literal"
  | .integer _ => "an integer"
  | .openParen => "'('"
  | .closeParen => "')'"
  | .comma => "','"
  | .symbol _ => "a symbol"
  | .invalid _ => "invalid input"

/-- One token, as messages show it: its content where the class leaves that open, and the class
otherwise. -/
def describe : Token → String
  | .text content => "text " ++ Text.quoted content
  | .identifier name => "identifier '" ++ name ++ "'"
  | .string value => "string " ++ Text.quoted value
  | .integer digits => "integer " ++ digits
  | .symbol sign => "'" ++ sign ++ "'"
  | .invalid content => "invalid input " ++ Text.quoted content
  | token => token.className

/-- A token in JSON output: its class, with its content if it has one. -/
def toJson : Token → Json
  | .text content => .single "Text" (.string content)
  | .openExpression => .string "OpenExpression"
  | .closeExpression => .string "CloseExpression"
  | .openStatement => .string "OpenStatement"
  | .closeStatement => .string "CloseStatement"
  | .keyword word => .single "Keyword" (.string word.name)
  | .identifier name => .single "Identifier" (.string name)
  | .string value => .single "String" (.string value)
  | .integer digits => .single "Integer" (.string digits)
  | .openParen => .string "OpenParen"
  | .closeParen => .string "CloseParen"
  | .comma => .string "Comma"
  | .symbol sign => .single "Symbol" (.string sign)
  | .invalid content => .single "Invalid" (.string content)

end Token

end Stencil
