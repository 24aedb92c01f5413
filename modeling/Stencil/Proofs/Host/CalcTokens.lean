import Stencil.Host.Calc
import Stencil.Proofs.Lexeme.Scan
import Stencil.Proofs.Parser.Reads

/-!
# The tokens of calculator code

Calculator code with directives in it can be written as a list of tokens, one way for each tree.
Not every tree has been read from its tokens: a sum of a single operand has the tokens of that
operand. The *canonical* trees, in which a sum has two operands or more and none of them is a sum,
are the ones that have.

* `Expr.tokens`, `splicedTokens`, `Stmt.tokens` and `statementTokens` are the token forms.
* `Expr.Canonical`, `SplicedCanonical` and `StatementCanonical` say which trees are canonical.
-/

namespace Stencil.Calc

/-! ## Expressions -/

mutual

/-- The tokens of an expression. -/
def Expr.tokens : Expr → List Token
  | .name name => [.identifier name]
  | .int digits => [.integer digits]
  | .str value => [.string value]
  | .group items => .openParen :: (itemTokens true items ++ [.closeParen])
  | .sum operands => operandTokens true operands

/-- The tokens of a spliced expression. -/
def splicedTokens : SplicedExpr → List Token
  | .host expression => expression.tokens
  | .interpolation inner => .openExpression :: (splicedTokens inner ++ [.closeExpression])

/-- The tokens of the items of a group; each but the first follows a comma. -/
def itemTokens (first : Bool) : List SplicedExpr → List Token
  | [] => []
  | item :: rest =>
    (if first then [] else [.comma]) ++ (splicedTokens item ++ itemTokens false rest)

/-- The tokens of the operands of a sum; each but the first follows a plus sign. -/
def operandTokens (first : Bool) : List Expr → List Token
  | [] => []
  | operand :: rest =>
    (if first then [] else [.symbol "+"]) ++ (operand.tokens ++ operandTokens false rest)

end

/-- Whether an expression is a sum. -/
def Expr.isSum : Expr → Bool
  | .sum _ => true
  | _ => false

mutual

/-- In the expression, each sum has two operands or more, and none of them is a sum. -/
def Expr.Canonical : Expr → Prop
  | .name _ | .int _ | .str _ => True
  | .group items => ItemsCanonical items
  | .sum operands => 2 ≤ operands.length ∧ OperandsCanonical operands

/-- A spliced expression whose sums are canonical. -/
def SplicedCanonical : SplicedExpr → Prop
  | .host expression => expression.Canonical
  | .interpolation inner => SplicedCanonical inner

/-- Items of a group that are canonical. -/
def ItemsCanonical : List SplicedExpr → Prop
  | [] => True
  | item :: rest => SplicedCanonical item ∧ ItemsCanonical rest

/-- Operands of a sum that are canonical and no sums. -/
def OperandsCanonical : List Expr → Prop
  | [] => True
  | operand :: rest => (operand.isSum = false ∧ operand.Canonical) ∧ OperandsCanonical rest

end

/-- An expression that can be an operand of a canonical sum. -/
def Expr.IsOperand (e : Expr) : Prop :=
  e.isSum = false ∧ e.Canonical

theorem itemTokens_eq_separatedTokens (first : Bool) (items : List SplicedExpr) :
    itemTokens first items = Parser.separatedTokens .comma splicedTokens first items := by
  induction items generalizing first with
  | nil => rfl
  | cons item rest ih => rw [itemTokens, Parser.separatedTokens, ih]

theorem operandTokens_false_eq_flatMap (operands : List Expr) :
    operandTokens false operands = operands.flatMap fun e => .symbol "+" :: e.tokens := by
  induction operands with
  | nil => rfl
  | cons operand rest ih => simp [operandTokens, ih]

theorem operandTokens_true_cons (operand : Expr) (rest : List Expr) :
    operandTokens true (operand :: rest) = operand.tokens ++ operandTokens false rest := rfl

theorem operandTokens_false_cons (operand : Expr) (rest : List Expr) :
    operandTokens false (operand :: rest) =
      .symbol "+" :: (operand.tokens ++ operandTokens false rest) := rfl

theorem itemTokens_true_cons (item : SplicedExpr) (rest : List SplicedExpr) :
    itemTokens true (item :: rest) = splicedTokens item ++ itemTokens false rest := rfl

theorem itemTokens_false_cons (item : SplicedExpr) (rest : List SplicedExpr) :
    itemTokens false (item :: rest) =
      .comma :: (splicedTokens item ++ itemTokens false rest) := rfl

theorem itemsCanonical_iff {items : List SplicedExpr} :
    ItemsCanonical items ↔ ∀ item ∈ items, SplicedCanonical item := by
  induction items with
  | nil => simp [ItemsCanonical]
  | cons item rest ih => simp [ItemsCanonical, ih]

theorem operandsCanonical_iff {operands : List Expr} :
    OperandsCanonical operands ↔ ∀ operand ∈ operands, operand.IsOperand := by
  induction operands with
  | nil => simp [OperandsCanonical]
  | cons operand rest ih => simp [OperandsCanonical, Expr.IsOperand, ih]

/-- The tokens with which an operand can begin. -/
def startsOperand : Token → Bool
  | .identifier _ | .integer _ | .string _ | .openParen => true
  | _ => false

theorem Expr.IsOperand.exists_tokens_eq_cons {e : Expr} (h : e.IsOperand) :
    ∃ t ts, e.tokens = t :: ts ∧ startsOperand t = true := by
  cases e with
  | name | int | str | group => exact ⟨_, _, rfl, rfl⟩
  | sum operands => cases h.1

theorem Expr.Canonical.exists_tokens_eq_cons {e : Expr} (h : e.Canonical) :
    ∃ t ts, e.tokens = t :: ts ∧ startsOperand t = true := by
  cases e with
  | name | int | str | group => exact ⟨_, _, rfl, rfl⟩
  | sum operands =>
    match operands, h with
    | operand :: rest, ⟨_, hoperand, _⟩ =>
      obtain ⟨t, ts, ht, hstarts⟩ := Expr.IsOperand.exists_tokens_eq_cons hoperand
      exact ⟨t, ts ++ operandTokens false rest, by simp [Expr.tokens, operandTokens, ht], hstarts⟩

/-- The tokens with which a spliced expression can begin. -/
def startsExpression (t : Token) : Bool :=
  startsOperand t || t == .openExpression

theorem SplicedCanonical.exists_tokens_eq_cons {e : SplicedExpr} (h : SplicedCanonical e) :
    ∃ t ts, splicedTokens e = t :: ts ∧ startsExpression t = true := by
  cases e with
  | host e =>
    obtain ⟨t, ts, ht, hstarts⟩ := Expr.Canonical.exists_tokens_eq_cons h
    exact ⟨t, ts, ht, by simp [startsExpression, hstarts]⟩
  | interpolation inner => exact ⟨_, _, rfl, rfl⟩

/-! ## Statements -/

/-- The word that begins a definition is no keyword of directives. -/
theorem wellFormed_let : (Token.identifier "let").WellFormed :=
  ⟨⟨rfl, List.all_eq_true.1 rfl⟩, rfl⟩

mutual

/-- The tokens of a statement. -/
def Stmt.tokens : Stmt → List Token
  | .let_ name value =>
    .identifier "let" :: .identifier name :: .symbol "=" :: (splicedTokens value ++ [.symbol ";"])
  | .block body => .symbol "\x7b" :: (statementsTokens body ++ [.symbol "\x7d"])
  | .expr expression => splicedTokens expression ++ [.symbol ";"]

/-- The tokens of a spliced statement. -/
def statementTokens : SplicedStmt → List Token
  | .plain statement => statement.tokens
  | .interpolation e => .openExpression :: (splicedTokens e ++ [.closeExpression])
  | .forIn binder iterable body =>
    Construct.forIn.blockTokens (forInTokens binder (splicedTokens iterable))
      (statementsTokens body)
  | .join binder iterable separator body =>
    Construct.join.blockTokens
      (joinTokens binder (splicedTokens iterable) (splicedTokens separator))
      (statementsTokens body)

/-- The tokens of a sequence of spliced statements. -/
def statementsTokens : List SplicedStmt → List Token
  | [] => []
  | statement :: rest => statementTokens statement ++ statementsTokens rest

end

mutual

/-- A statement whose expressions are canonical. -/
def Stmt.Canonical : Stmt → Prop
  | .let_ _ value => SplicedCanonical value
  | .block body => StatementsCanonical body
  | .expr expression => SplicedCanonical expression

/-- A spliced statement whose expressions are canonical. -/
def StatementCanonical : SplicedStmt → Prop
  | .plain statement => statement.Canonical
  | .interpolation e => SplicedCanonical e
  | .forIn _ iterable body => SplicedCanonical iterable ∧ StatementsCanonical body
  | .join _ iterable separator body =>
    (SplicedCanonical iterable ∧ SplicedCanonical separator) ∧ StatementsCanonical body

/-- Spliced statements whose expressions are canonical. -/
def StatementsCanonical : List SplicedStmt → Prop
  | [] => True
  | statement :: rest => StatementCanonical statement ∧ StatementsCanonical rest

end

theorem statementsTokens_eq_flatMap (statements : List SplicedStmt) :
    statementsTokens statements = statements.flatMap statementTokens := by
  induction statements with
  | nil => rfl
  | cons statement rest ih => rw [statementsTokens, List.flatMap_cons, ih]

theorem statementsCanonical_iff {statements : List SplicedStmt} :
    StatementsCanonical statements ↔ ∀ statement ∈ statements, StatementCanonical statement := by
  induction statements with
  | nil => simp [StatementsCanonical]
  | cons statement rest ih => simp [StatementsCanonical, ih]

/-- The tokens with which a statement of the calculator can begin. -/
def startsPlain (t : Token) : Bool :=
  startsExpression t || t == .symbol "\x7b"

/-- The tokens with which a spliced statement can begin. -/
def startsStatement (t : Token) : Bool :=
  startsPlain t || t == .openStatement

theorem Stmt.Canonical.exists_tokens_eq_cons {s : Stmt} (h : s.Canonical) :
    ∃ t ts, s.tokens = t :: ts ∧ startsPlain t = true := by
  cases s with
  | let_ name value => exact ⟨_, _, rfl, rfl⟩
  | block body => exact ⟨_, _, rfl, rfl⟩
  | expr e =>
    obtain ⟨t, ts, ht, hstarts⟩ := SplicedCanonical.exists_tokens_eq_cons h
    exact ⟨t, ts ++ [.symbol ";"], by simp [Stmt.tokens, ht], by simp [startsPlain, hstarts]⟩

theorem StatementCanonical.exists_tokens_eq_cons {s : SplicedStmt} (h : StatementCanonical s) :
    ∃ t ts, statementTokens s = t :: ts ∧ startsStatement t = true := by
  cases s with
  | plain s =>
    obtain ⟨t, ts, ht, hstarts⟩ := Stmt.Canonical.exists_tokens_eq_cons h
    exact ⟨t, ts, ht, by simp [startsStatement, hstarts]⟩
  | interpolation | forIn | join => exact ⟨_, _, rfl, rfl⟩

end Stencil.Calc
