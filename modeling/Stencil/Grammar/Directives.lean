import Stencil.Grammar
import Stencil.Lexeme

/-!
# The grammar of directives as data

`directiveRules .code` holds the rules that directives add to a host grammar. They refer to the
nonterminals `expression` and `statement`, which a host provides. `directiveRules .text` is the
whole grammar of templates over raw text.
-/

namespace Stencil

/-- The nonterminal that directives take their expressions from. -/
def expressionName : String := "expression"

/-- The nonterminal that the bodies of blocks are made of. -/
def statementName : String := "statement"

namespace DirectiveRules

/-- A terminal. -/
def t (spelling : String) : Symbol := .terminal spelling

/-- A nonterminal. -/
def n (name : String) : Symbol := .nonterminal name

/-- The symbols of a block, from the word that opens it, its header and the word that ends it. -/
def block (opening : Keyword) (header : List Symbol) (closing : Keyword) : List Symbol :=
  [t "\x7b%", t opening.spelling] ++ header ++
    [t "%\x7d", n "template_body", t "\x7b%", t closing.spelling, t "%\x7d"]

/-- The rules of directives, interpolations and binders. -/
def shared : List (String × List Production) :=
  [("template_statement",
      [.of "template_expression_statement" [n "template_interpolation"],
        .of "template_for_in_statement"
          (block .for_ [n "template_pattern", t "in", n expressionName] .endFor),
        .of "template_join_statement"
          (block .join
            [n "template_pattern", t "in", n expressionName, t "with", n expressionName]
            .endJoin)]),
    ("template_interpolation",
      [.of "template_interpolation" [t "\x7b\x7b", n expressionName, t "\x7d\x7d"]]),
    ("template_body",
      [.of "template_empty_body" [],
        .of "template_body" [n statementName, n "template_body"]]),
    ("template_pattern",
      [.of "template_var_pattern" [.tokenClass "identifier"],
        .of "template_tuple_pattern" [t "(", n "template_pattern_list", t ")"]]),
    ("template_pattern_list",
      [.of "template_empty_pattern_list" [],
        .of "template_pattern_list" [n "template_pattern", n "template_pattern_tail"]]),
    ("template_pattern_tail",
      [.of "template_pattern_end" [],
        .of "template_pattern_next" [t ",", n "template_pattern", n "template_pattern_tail"]])]

/-- The rules of templates over raw text, around those of directives. -/
def textOnly : List (String × List Production) :=
  [("source_file",
      [.of "empty_source_file" [],
        .of "source_file" [n statementName, n "source_file"]]),
    (statementName,
      [.of "text_statement" [.tokenClass "text"],
        .of "directive_statement" [n "template_statement"]]),
    (expressionName,
      [.of "reference_expression" [.tokenClass "identifier"],
        .of "string_literal" [.tokenClass "string"],
        .of "integer_literal" [.tokenClass "integer"]])]

end DirectiveRules

/-- The grammar of directives: what is spliced into host code, or all of a template over raw
text. -/
def directiveRules : Mode → Grammar
  | .code => .ofRules DirectiveRules.shared
  | .text => .ofRules (DirectiveRules.shared ++ DirectiveRules.textOnly)

end Stencil
