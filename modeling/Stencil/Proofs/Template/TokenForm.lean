import Stencil.Fault
import Stencil.Parser.Directive

/-!
# The tokens of a template

A template can be written as a list of tokens, one way for each tree. What a parser reads is
described by these token forms, and what the lexer makes of a written template is one of them.

* `Pattern.tokens`, `Expression.token` and `Statement.tokens` are the token forms.
* `TextStatement.trimmed` is what a parser makes of a template over raw text: the bodies of its
  blocks lose a first and a last run of spaces and tabs.
-/

namespace Stencil

/-! ## Patterns and expressions -/

namespace Pattern

mutual

/-- The tokens of a pattern. -/
def tokens : Pattern → List Token
  | .var name => [.identifier name]
  | .tuple elements => .openParen :: (tokensOf true elements ++ [.closeParen])

/-- The tokens of the elements of a tuple; each but the first follows a comma. -/
def tokensOf (first : Bool) : List Pattern → List Token
  | [] => []
  | element :: rest => (if first then [] else [.comma]) ++ (tokens element ++ tokensOf false rest)

end

theorem tokensOf_true_cons (element : Pattern) (rest : List Pattern) :
    tokensOf true (element :: rest) = element.tokens ++ tokensOf false rest := rfl

theorem tokensOf_false_cons (element : Pattern) (rest : List Pattern) :
    tokensOf false (element :: rest) = .comma :: (element.tokens ++ tokensOf false rest) := rfl

/-- A pattern is never written with no token at all. -/
theorem exists_tokens_eq_cons (pattern : Pattern) : ∃ t ts, pattern.tokens = t :: ts := by
  cases pattern <;> simp [tokens]

end Pattern

/-- The token of an expression of templates over raw text. -/
def Expression.token : Expression → Token
  | .reference name => .identifier name
  | .literal (.string value) => .string value
  | .literal (.integer digits) => .integer digits

/-! ## What stands inside directives -/

/-- Whether a token is a word, a literal, a parenthesis or a comma. Patterns, expressions and the
headers of blocks are made of these. -/
def Token.standsInside : Token → Bool
  | .keyword _ | .identifier _ | .string _ | .integer _ | .openParen | .closeParen | .comma => true
  | _ => false

namespace Pattern

mutual

theorem standsInside_of_mem_tokens {p : Pattern} {t : Token} (h : t ∈ p.tokens) :
    t.standsInside = true := by
  match p with
  | .var name =>
    obtain rfl := List.mem_singleton.1 h
    rfl
  | .tuple ps =>
    rcases List.mem_cons.1 h with rfl | h
    · rfl
    rcases List.mem_append.1 h with h | h
    · exact standsInside_of_mem_tokensOf h
    · obtain rfl := List.mem_singleton.1 h
      rfl

theorem standsInside_of_mem_tokensOf {first : Bool} {ps : List Pattern} {t : Token}
    (h : t ∈ tokensOf first ps) : t.standsInside = true := by
  match ps with
  | [] => cases h
  | p :: ps =>
    rcases List.mem_append.1 h with h | h
    · cases first with
      | true => cases h
      | false =>
        obtain rfl := List.mem_singleton.1 h
        rfl
    rcases List.mem_append.1 h with h | h
    · exact standsInside_of_mem_tokens h
    · exact standsInside_of_mem_tokensOf h

end

end Pattern

theorem Expression.standsInside_token (e : Expression) : e.token.standsInside = true := by
  match e with
  | .reference _ | .literal (.string _) | .literal (.integer _) => rfl

/-! ## Statements -/

/-- The tokens of the header of a loop behind its opening keyword. -/
def forInTokens (binder : Pattern) (iterable : List Token) : List Token :=
  binder.tokens ++ .keyword .in_ :: iterable

/-- The tokens of the header of a joined loop behind its opening keyword. -/
def joinTokens (binder : Pattern) (iterable separator : List Token) : List Token :=
  binder.tokens ++ .keyword .in_ :: (iterable ++ .keyword .with_ :: separator)

/-- The tokens of an end directive. -/
def endTokens (word : Keyword) : List Token :=
  [.openStatement, .keyword word, .closeStatement]

namespace Construct

/-- The tokens of the directive that opens a block. -/
def openingTokens (construct : Construct) (header : List Token) : List Token :=
  .openStatement :: .keyword construct.opening :: (header ++ [.closeStatement])

/-- The tokens of a block, from those of its header and its body. -/
def blockTokens (construct : Construct) (header body : List Token) : List Token :=
  construct.openingTokens header ++ (body ++ endTokens construct.closing)

end Construct

namespace Statement

variable {E L : Type} (expression : E → List Token) (plain : L → List Token)

mutual

/-- The tokens of a statement. -/
def tokens : Statement E L → List Token
  | .plain statement => plain statement
  | .interpolation e => .openExpression :: (expression e ++ [.closeExpression])
  | .forIn binder iterable body =>
    Construct.forIn.blockTokens (forInTokens binder (expression iterable)) (tokensOf body)
  | .join binder iterable separator body =>
    Construct.join.blockTokens
      (joinTokens binder (expression iterable) (expression separator)) (tokensOf body)

/-- The tokens of a sequence of statements. -/
def tokensOf : List (Statement E L) → List Token
  | [] => []
  | statement :: rest => tokens statement ++ tokensOf rest

end

end Statement

/-! ## Templates over raw text -/

namespace TextStatement

/-- The tokens of a statement of a template over raw text. -/
def tokens (statement : TextStatement) : List Token :=
  Statement.tokens (fun e => [e.token]) (fun content => [.text content]) statement

/-- The tokens of a template over raw text. -/
def tokensOf (template : List TextStatement) : List Token :=
  Statement.tokensOf (fun e => [e.token]) (fun content => [.text content]) template

@[simp] theorem tokens_plain (content : String) : tokens (.plain content) = [.text content] := rfl

@[simp] theorem tokens_interpolation (e : Expression) :
    tokens (.interpolation e) = [.openExpression, e.token, .closeExpression] := rfl

@[simp] theorem tokens_forIn (binder : Pattern) (iterable : Expression)
    (body : List TextStatement) :
    tokens (.forIn binder iterable body) =
      Construct.forIn.blockTokens (forInTokens binder [iterable.token]) (tokensOf body) := rfl

@[simp] theorem tokens_join (binder : Pattern) (iterable separator : Expression)
    (body : List TextStatement) :
    tokens (.join binder iterable separator body) =
      Construct.join.blockTokens (joinTokens binder [iterable.token] [separator.token])
        (tokensOf body) := rfl

/-- A statement is never written with no token at all. -/
theorem exists_tokens_eq_cons (statement : TextStatement) : ∃ t ts, statement.tokens = t :: ts := by
  cases statement with
  | plain content => exact ⟨_, _, rfl⟩
  | interpolation e => exact ⟨_, _, rfl⟩
  | forIn binder iterable body => exact ⟨_, _, rfl⟩
  | join binder iterable separator body => exact ⟨_, _, rfl⟩

@[simp] theorem tokensOf_nil : tokensOf [] = [] := rfl

@[simp] theorem tokensOf_cons (statement : TextStatement) (rest : List TextStatement) :
    tokensOf (statement :: rest) = statement.tokens ++ tokensOf rest := rfl

theorem length_tokens_le_of_mem {statement : TextStatement} {template : List TextStatement}
    (h : statement ∈ template) : statement.tokens.length ≤ (tokensOf template).length := by
  induction template with
  | nil => simp at h
  | cons first rest ih =>
    simp only [tokensOf_cons, List.length_append]
    rcases List.mem_cons.1 h with rfl | h
    · omega
    · have := ih h
      omega

/-- A block has more tokens than a statement of its body. -/
theorem length_tokens_lt_of_mem {statement : TextStatement} {body : List TextStatement}
    (h : statement ∈ body) (construct : Construct) (header : List Token) :
    statement.tokens.length < (construct.blockTokens header (tokensOf body)).length := by
  have := length_tokens_le_of_mem h
  simp only [Construct.blockTokens, Construct.openingTokens, List.length_append, List.length_cons]
  omega

/-! ## Trimming the bodies of blocks -/

/-- Whether a statement is a run of spaces and tabs. -/
def isPadding : TextStatement → Bool
  | .plain content => Parser.isPadding content
  | _ => false

theorem isPadding_eq_true_iff {statement : TextStatement} :
    isPadding statement = true ↔
      ∃ content, statement = .plain content ∧ Parser.isPadding content = true := by
  cases statement <;> simp [isPadding]

/-- A body without a first run of spaces and tabs. -/
def trimStart : List TextStatement → List TextStatement
  | [] => []
  | first :: rest => if isPadding first then rest else first :: rest

/-- A body without a last run of spaces and tabs. -/
def trimEnd : List TextStatement → List TextStatement
  | [] => []
  | [last] => if isPadding last then [] else [last]
  | statement :: next :: rest => statement :: trimEnd (next :: rest)

/-- A body without the runs of spaces and tabs at its edges. -/
def trim (body : List TextStatement) : List TextStatement :=
  trimEnd (trimStart body)

mutual

/-- A statement in which the bodies of all blocks are trimmed. -/
def trimmed : TextStatement → TextStatement
  | .plain content => .plain content
  | .interpolation e => .interpolation e
  | .forIn binder iterable body => .forIn binder iterable (trim (trimmedOf body))
  | .join binder iterable separator body =>
    .join binder iterable separator (trim (trimmedOf body))

/-- A sequence of statements in which the bodies of all blocks are trimmed. -/
def trimmedOf : List TextStatement → List TextStatement
  | [] => []
  | statement :: rest => trimmed statement :: trimmedOf rest

end

@[simp] theorem trimEnd_cons_cons (statement next : TextStatement) (rest : List TextStatement) :
    trimEnd (statement :: next :: rest) = statement :: trimEnd (next :: rest) := rfl

@[simp] theorem isPadding_trimmed (statement : TextStatement) :
    isPadding (trimmed statement) = isPadding statement := by
  cases statement <;> rfl

end TextStatement

end Stencil
