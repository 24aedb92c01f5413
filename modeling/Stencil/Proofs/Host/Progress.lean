import Stencil.Host.Calc
import Stencil.Host.Declared
import Stencil.Proofs.Composition.Precedence
import Stencil.Proofs.Parser.Progress

/-!
# Progress in host code

A host's parsers are called by the parsers of spliced expressions and statements, which they call
in turn. If they read something before they do so, both come to an end on every input; the hosts
of this library keep to that.

* `Host.ReadsFirst`: what a host has to keep to.
* `Host.ReadsFirst.descends_splicedExpression`, `Host.ReadsFirst.dialect`: what follows from it.
* `text_and_calc_terminate`: templates over raw text and in calculator code are read to the end.
-/

namespace Stencil

open Stencil.Parser

namespace Host

variable {E S : Type} {host : Host E S}

/-- The parsers of a host read something, and an expression or a statement of the host begins with
a lexeme of its own: neither calls the parser of its own spliced kind before it has read one. -/
structure ReadsFirst (host : Host E S) : Prop where
  expression : Guards host.expression 1 1
  statement : ∀ {expression : Parser (Spliced E)}, expression.Consumes 1 →
    Guards (fun statement => host.statement statement expression) 1 1

theorem ReadsFirst.guards_expressionStep (h : host.ReadsFirst) :
    Guards host.expressionStep 1 1 :=
  (h.expression.map _).orElse (((guards_id.between _ _).map _).weaken (by omega) (by omega))

theorem ReadsFirst.descends_splicedExpression (h : host.ReadsFirst) :
    host.splicedExpression.Descends host.expressionStep :=
  h.guards_expressionStep.descends

theorem ReadsFirst.dialect (h : host.ReadsFirst) : host.dialect.ReadsFirst where
  expression := h.descends_splicedExpression.consumes
  plain := h.statement h.descends_splicedExpression.consumes

end Host

/-! ## A host with declared rules -/

/-- Whatever rules are declared, the parsers of this host read a name first. -/
theorem Declared.terminates (rules : Grammar) (splice : SplicePoints)
    (conflicts : List Conflict) :
    (Declared.host rules splice conflicts).dialect.Terminates := by
  have hname : Declared.name.Consumes 1 := consumes_satisfy _ _
  have h : (Declared.host rules splice conflicts).ReadsFirst :=
    ⟨guards_const hname, fun he =>
      guards_const ((he.seqWith (consumes_token _) _).mono (by omega))⟩
  exact h.dialect.terminates

/-! ## The calculator -/

namespace Calc

theorem guards_operand : Guards (fun inner => leaf.orElse (group inner)) 1 1 := by
  have hitems : Guards (fun inner : Parser SplicedExpr => inner.sepBy (.token .comma)) 0 0 :=
    guards_id.sepBy ((consumes_token _).mono (Nat.zero_le _))
  have hgroup := (hitems.between .openParen .closeParen).map Expr.group
  have hleaf : leaf.Consumes 1 := consumes_satisfy _ _
  exact (guards_const hleaf).orElse (hgroup.weaken (by omega) (by omega))

/-- Reads a further operand of a sum, behind its plus sign. -/
def furtherOperand (inner : Parser SplicedExpr) : Parser Expr :=
  (Parser.token (.symbol "+")).seqRight (leaf.orElse (group inner))

theorem guards_furtherOperand : Guards furtherOperand 1 2 :=
  (guards_const (consumes_token _)).seqWith guards_operand (by omega) _

theorem guards_expression : Guards expression 1 1 := by
  change Guards (fun inner =>
    Parser.seqWith sumOf (leaf.orElse (group inner)) (furtherOperand inner).many) 1 1
  exact guards_operand.seqWith guards_furtherOperand.many (by omega) _

theorem guards_statement {inner : Parser SplicedExpr} (he : inner.Consumes 1) :
    Guards (fun statement => Calc.statement statement inner) 1 1 := by
  have hlet : (letStmt inner).Consumes 5 :=
    ((((((consumes_token _).seqWith (consumes_satisfy _ _) _).seqWith (consumes_token _) _).seqWith
      he _).seqWith (consumes_token _) _).map _)
  have hblock := (guards_id.many.between (.symbol "\x7b") (.symbol "\x7d")).map Stmt.block
  have hexpr : (exprStmt inner).Consumes 2 := (he.seqWith (consumes_token _) _).map _
  exact ((guards_const (hlet.mono (by omega))).orElse
    (hblock.weaken (by omega) (by omega))).orElse (guards_const (hexpr.mono (by omega)))

theorem readsFirst : Calc.host.ReadsFirst :=
  ⟨guards_expression, guards_statement⟩

end Calc

/-! ## Both dialects -/

/-- The parsers of templates over raw text and in calculator code read something whenever they
accept, and before they call themselves; every round of their loops reads something; and so every
source is read to its end. The loop of a calculator block is, like that of a source, one over
statements. -/
theorem text_and_calc_terminate :
    pattern.Consumes 1 ∧ nestedPattern.Descends patternStep ∧
      ((token .comma).seqRight nestedPattern).Consumes 2 ∧
    Dialect.text.Terminates ∧
    Calc.host.dialect.Terminates ∧
      Calc.host.splicedExpression.Descends Calc.host.expressionStep ∧
      ((token .comma).seqRight Calc.host.splicedExpression).Consumes 2 ∧
      (Calc.furtherOperand Calc.host.splicedExpression).Repeatable := by
  have hexpression := Calc.readsFirst.descends_splicedExpression
  refine ⟨consumes_pattern, descends_nestedPattern,
    (consumes_token _).seqWith descends_nestedPattern.consumes _,
    Dialect.readsFirst_text.terminates, Calc.readsFirst.dialect.terminates, hexpression,
    (consumes_token _).seqWith hexpression.consumes _, ?_⟩
  exact ((Calc.guards_furtherOperand.consumes hexpression.consumes).mono (by omega)).repeatable

end Stencil
