import Stencil.Host.Declared
import Stencil.Proofs.Composition.Ambiguity
import Stencil.Proofs.Composition.Frame
import Stencil.Proofs.Parser.Acceptance

/-!
# Precedence and the order of choice

Parsers of host code try the host's own alternatives before those of directives, whatever the
grammar says. Where a host and a template alternative of a splice point can begin alike and no
conflict is declared, composition asks only that their precedences differ. Which of the two is then
the higher depends on the splice point: the alternatives of the statement are raised above those of
templates, and those of the expression are left as the host declares them.

* `Competes` is such a pair of alternatives.
* `exists_declared_of_mem_merge` and `template_of_mem_merge` say where the alternatives of a splice
  point come from.
* `precedence_ne_of_competes`: what is accepted differs in precedence.
* `precedence_lt_iff_of_competes`: the host's alternative is the higher one, unless the host
  declares an expression below templates; `bracketHost_lower` is a host that does.
* `raisesHost_iff_of_compose`: the host's statements are raised above all of the template, unless
  expressions and statements are spliced in at one nonterminal, as in `nameGrammar_not_raisesHost`.
-/

namespace Stencil

open Grammar

/-! ## Alternatives that compete -/

/-- A host and a template alternative of a splice point of a composed grammar that have overlapping
FIRST sets and that no conflict covers. -/
structure Competes (composed : ComposedGrammar) (nonterminal : String)
    (host template : Production) : Prop where
  spliced : nonterminal ∈ composed.splice.toList
  host_mem : (nonterminal, host) ∈ composed.rules.productions
  host_origin : host.origin = .host
  template_mem : (nonterminal, template) ∈ composed.rules.productions
  template_origin : template.origin = .template
  overlap : (composed.rules.firstSets.ofSequence host.symbols).overlaps
    (composed.rules.firstSets.ofSequence template.symbols) = true
  uncovered : ∀ conflict ∈ composed.conflicts,
    conflict.covers (Composition.conflictNames nonterminal host)
      (Composition.conflictNames nonterminal template) = false

namespace Composition

variable {host template : Grammar} {hostConflicts : List Conflict} {splice : SplicePoints}
  {composed : ComposedGrammar} {name : String} {p q : Production}

/-- A host's alternative of a merged grammar is one that the host declares, raised in the
statement. -/
theorem exists_declared_of_mem_merge (h : (merge host splice template).2 = [])
    (hp : (name, p) ∈ (merge host splice template).1.productions) (ho : p.origin = .host) :
    ∃ declared, (name, declared) ∈ host.productions ∧
      p = hostProduction splice name declared := by
  rcases (mem_productions_merge h).1 hp with
    ⟨declared, hdeclared, rfl⟩ | ⟨source, original, -, -, rfl⟩ | ⟨-, rfl⟩ | ⟨-, rfl⟩
  · exact ⟨declared, hdeclared, raise_host splice name declared⟩
  · rw [origin_raise] at ho
    cases ho
  · rw [origin_raise] at ho
    cases ho
  · cases ho

/-- The template alternatives of a nonterminal of the host are those that were spliced in. -/
theorem template_of_mem_merge (h : (merge host splice template).2 = [])
    (hname : name ∈ host.nonterminals)
    (hq : (name, q) ∈ (merge host splice template).1.productions) (ho : q.origin = .template) :
    q = raise splice name expressionAlternative ∨
      name = splice.statement ∧ q = statementAlternative := by
  rcases (mem_productions_merge h).1 hq with
    ⟨declared, -, rfl⟩ | ⟨source, original, hmem, rfl, rfl⟩ | ⟨-, rfl⟩ | hstatement
  · rw [origin_raise] at ho
    cases ho
  · -- the names of template rules are new
    obtain ⟨rule, hrule, rfl, -⟩ := mem_productions_iff.1 hmem
    exact absurd hname (rename_not_mem_nonterminals h (List.mem_map_of_mem hrule))
  · exact .inl rfl
  · exact .inr hstatement

/-- Alternatives that compete and have the same precedence cannot be told apart. -/
theorem indistinct_of_competes (hc : Competes composed name p q)
    (hprec : p.precedence = q.precedence) :
    Indistinct composed.rules composed.conflicts composed.splice name p q where
  spliced := by simpa [SplicePoints.toList] using hc.spliced
  host_mem := hc.host_mem
  host_origin := hc.host_origin
  template_mem := hc.template_mem
  template_origin := hc.template_origin
  precedence_eq := hprec
  unresolved := fun conflict hconflict hresolves => by
    have huncovered := hc.uncovered conflict hconflict
    rw [covers_iff.2 hresolves] at huncovered
    cases huncovered
  alike := by
    obtain ⟨x, hx⟩ := overlaps_iff.1 hc.overlap
    simp only [holds_ofSequence_firstSets_iff] at hx
    exact ⟨x, hx⟩

theorem precedence_ne_of_competes (h : compose host hostConflicts splice template = .ok composed)
    (hc : Competes composed name p q) : p.precedence ≠ q.precedence := by
  obtain ⟨-, -, -, -, hsplice, -, -, hnone⟩ := compose_eq_ok_iff.1 h
  rw [← hsplice] at hnone
  intro hprec
  exact ambiguities_eq_nil_iff.1 hnone ⟨name, p, q, indistinct_of_competes hc hprec⟩

/-- Where alternatives compete, that of the template has the precedence of templates: if it was
raised, so was that of the host. -/
theorem precedence_template_of_competes
    (h : compose host hostConflicts splice template = .ok composed)
    (hc : Competes composed name p q) : q.precedence = templatePrecedence := by
  obtain ⟨hpoints, hmerge, hrules, -, hsplice, -⟩ := compose_eq_ok_iff.1 h
  obtain ⟨he, hs⟩ := missingSplicePoints_eq_nil_iff.1 hpoints
  have hname : name ∈ host.nonterminals := by
    have hspliced := hc.spliced
    rw [hsplice, SplicePoints.toList, List.mem_cons, List.mem_singleton] at hspliced
    rcases hspliced with rfl | rfl
    · exact he
    · exact hs
  have hne := precedence_ne_of_competes h hc
  have hp := hc.host_mem
  have hq := hc.template_mem
  rw [hrules] at hp hq
  obtain ⟨declared, -, rfl⟩ := exists_declared_of_mem_merge hmerge hp hc.host_origin
  rcases template_of_mem_merge hmerge hname hq hc.template_origin with rfl | ⟨-, rfl⟩
  · by_cases hstatement : name = splice.statement
    · exact absurd (by simp [raise, hostProduction, hstatement, templatePrecedence]) hne
    · simp [raise, hstatement, expressionAlternative]
  · rfl

end Composition

/-! ## The order of choice -/

/-- A parser takes what another one reads without a fault. -/
def Parser.Prefers {α : Type} (p first : Parser α) : Prop :=
  ∀ input v rest, first.Accepts input [] v rest → p.Accepts input [] v rest

theorem Parser.prefers_orElse {α : Type} (p q : Parser α) : (p.orElse q).Prefers p :=
  fun _ _ _ h => accepts_orElse_nil_iff.2 (.inl h)

namespace Host

variable {E S : Type}

/-- A spliced expression, given a parser for those inside it. -/
def expressionStep (host : Host E S) (inner : Parser (Spliced E)) : Parser (Spliced E) :=
  ((host.expression inner).map .host).orElse ((Parser.interpolation inner).map .interpolation)

/-- A spliced statement, given a parser for those inside it. -/
def statementStep (host : Host E S) (inner : Parser (Statement (Spliced E) S)) :
    Parser (Statement (Spliced E) S) :=
  ((host.statement inner host.splicedExpression).map .plain).orElse
    (Parser.directive host.splicedExpression inner)

/-- The parsers of host code try the host's own alternatives first. -/
structure ComesFirst (host : Host E S) : Prop where
  expression_eq : host.splicedExpression = Parser.recursive host.expressionStep
  expression : ∀ inner, (host.expressionStep inner).Prefers ((host.expression inner).map .host)
  statement_eq : host.dialect.statement = Parser.recursive host.statementStep
  statement : ∀ inner, (host.statementStep inner).Prefers
    ((host.statement inner host.splicedExpression).map .plain)

theorem comesFirst (host : Host E S) : host.ComesFirst where
  expression_eq := rfl
  expression _ := Parser.prefers_orElse _ _
  statement_eq := rfl
  statement _ := Parser.prefers_orElse _ _

end Host

/-! ## Precedence against the order of choice -/

/-- Where a host's and a template's alternative of a composed grammar compete, their precedences
differ, and the host's is the higher one, as it is the one that is tried first, exactly if it is one
of the statement or declared no lower than templates. -/
theorem precedence_lt_iff_of_competes {E S : Type} {host : Host E S} {composed : ComposedGrammar}
    (h : compose host.rules host.conflicts host.splice (directiveRules .code) = .ok composed) :
    host.ComesFirst ∧
      ∀ name p q, Competes composed name p q →
        q.precedence = templatePrecedence ∧ p.precedence ≠ q.precedence ∧
          ∃ declared, (name, declared) ∈ host.rules.productions ∧
            p = Composition.hostProduction host.splice name declared ∧
            (q.precedence < p.precedence ↔
              name = host.splice.statement ∨ templatePrecedence ≤ declared.precedence) := by
  refine ⟨host.comesFirst, fun name p q hc => ?_⟩
  obtain ⟨-, hmerge, hrules, -⟩ := Composition.compose_eq_ok_iff.1 h
  have hq := Composition.precedence_template_of_competes h hc
  have hne := Composition.precedence_ne_of_competes h hc
  have hp := hc.host_mem
  rw [hrules] at hp
  obtain ⟨declared, hdeclared, rfl⟩ :=
    Composition.exists_declared_of_mem_merge hmerge hp hc.host_origin
  refine ⟨hq, hne, declared, hdeclared, rfl, ?_⟩
  rw [hq] at hne ⊢
  by_cases hstatement : name = host.splice.statement
  · simp only [Composition.hostProduction, hstatement, if_true, true_or, iff_true]
    exact (by decide : templatePrecedence < 1)
  · -- the declared precedence is kept, and is not that of templates
    simp only [Composition.hostProduction, hstatement, if_false, false_or] at hne ⊢
    omega

/-- A host that writes its own expressions between the brackets of an interpolation, and declares
them with a precedence. -/
def bracketHostAt (precedence : Int) : Host Declared.Expr Declared.Stmt :=
  Declared.host
    (.ofRules
      [("stmt", [.of "expr_stmt" [.nonterminal "expr", .terminal ";"]]),
        ("expr",
          [.of "name" [.tokenClass "identifier"],
            { Production.of "brackets"
                [.terminal "\x7b\x7b", .nonterminal "expr", .terminal "\x7d\x7d"] with
              precedence := precedence }])])
    ⟨"expr", "stmt"⟩ []

/-- The composed grammar of this host, if it is composed. -/
def bracketGrammarAt (precedence : Int) : ComposedGrammar where
  rules := (Composition.merge (bracketHostAt precedence).rules ⟨"expr", "stmt"⟩
    (directiveRules .code)).1
  conflicts := declaredConflicts [] ⟨"expr", "stmt"⟩
  splice := ⟨"expr", "stmt"⟩

/-- The brackets of this host, as they stand in the composed grammar. -/
def bracketsAt (precedence : Int) : Production :=
  ⟨"brackets", [.terminal "\x7b\x7b", .nonterminal "expr", .terminal "\x7d\x7d"], precedence, .host⟩

/-- An instance: brackets that are declared above templates stay above them. -/
theorem bracketHost_higher :
    compose (bracketHostAt 5).rules [] ⟨"expr", "stmt"⟩ (directiveRules .code) =
        .ok (bracketGrammarAt 5) ∧
      Competes (bracketGrammarAt 5) "expr" (bracketsAt 5) Composition.expressionAlternative ∧
      Composition.expressionAlternative.precedence < (bracketsAt 5).precedence := by
  have hcompose : compose (bracketHostAt 5).rules [] ⟨"expr", "stmt"⟩ (directiveRules .code) =
      .ok (bracketGrammarAt 5) := by decide +kernel
  have hcompetes : Competes (bracketGrammarAt 5) "expr" (bracketsAt 5)
      Composition.expressionAlternative := by constructor <;> decide +kernel
  refine ⟨hcompose, hcompetes, ?_⟩
  obtain ⟨-, -, declared, -, hdeclared, hiff⟩ :=
    (@precedence_lt_iff_of_competes _ _ (bracketHostAt 5) _ hcompose).2 _ _ _ hcompetes
  have hkept : declared.precedence = 5 := (congrArg Production.precedence hdeclared).symm
  exact hiff.2 (.inr (hkept ▸ by decide))

/-- Brackets that are declared below templates are accepted and stay below them, though they are
tried first. -/
theorem bracketHost_lower :
    compose (bracketHostAt (-1)).rules [] ⟨"expr", "stmt"⟩ (directiveRules .code) =
        .ok (bracketGrammarAt (-1)) ∧
      Competes (bracketGrammarAt (-1)) "expr" (bracketsAt (-1))
        Composition.expressionAlternative ∧
      ¬ Composition.expressionAlternative.precedence < (bracketsAt (-1)).precedence := by
  refine ⟨by decide +kernel, ?_, by decide⟩
  constructor <;> decide +kernel

/-! ## Raised statements -/

namespace Composition

variable {host : Grammar} {hostConflicts : List Conflict} {splice : SplicePoints}
  {composed : ComposedGrammar} {name : String} {p q : Production}

theorem precedence_of_mem_directiveRules :
    ∀ entry ∈ (directiveRules .code).productions, entry.2.precedence = templatePrecedence := by
  decide

theorem precedence_raise_statement (p : Production) :
    (raise splice splice.statement p).precedence = templatePrecedence + 1 := by
  rw [raise, if_pos rfl]

/-- The host's alternatives of the statement are all raised. -/
theorem precedence_host_of_mem_merge
    (h : (merge host splice (directiveRules .code)).2 = [])
    (hp : (splice.statement, p) ∈ (merge host splice (directiveRules .code)).1.productions)
    (ho : p.origin = .host) : p.precedence = templatePrecedence + 1 := by
  obtain ⟨declared, -, rfl⟩ := exists_declared_of_mem_merge h hp ho
  rw [← raise_host, precedence_raise_statement]

/-- The rules of directives keep their precedence, and so does each alternative that is spliced in,
except that the first of the two is raised with the host's if both come to the same nonterminal. -/
theorem precedence_template_of_mem_merge
    (h : (merge host splice (directiveRules .code)).2 = [])
    (hstatement : splice.statement ∈ host.nonterminals)
    (hq : (name, q) ∈ (merge host splice (directiveRules .code)).1.productions)
    (ho : q.origin = .template) :
    q.precedence = templatePrecedence ∨ splice.expression = splice.statement := by
  rcases (mem_productions_merge h).1 hq with
    ⟨declared, -, rfl⟩ | ⟨source, original, hmem, rfl, rfl⟩ | ⟨rfl, rfl⟩ | ⟨-, rfl⟩
  · rw [origin_raise] at ho
    cases ho
  · -- the names of template rules are new, and the statement is the host's
    obtain ⟨rule, hrule, rfl, -⟩ := mem_productions_iff.1 hmem
    have hnew := rename_not_mem_nonterminals h (List.mem_map_of_mem hrule)
    have hother : splice.rename rule.name ≠ splice.statement := fun heq =>
      hnew (heq ▸ hstatement)
    rw [raise, if_neg hother]
    exact .inl (precedence_of_mem_directiveRules _ hmem)
  · by_cases hsame : splice.expression = splice.statement
    · exact .inr hsame
    · rw [raise, if_neg hsame]
      exact .inl rfl
  · exact .inl rfl

end Composition

/-- In a composed grammar the alternatives that the host has for its statement stand above those of
the template, which have the precedence of templates, there and elsewhere. -/
structure ComposedGrammar.RaisesHost (composed : ComposedGrammar) : Prop where
  above : ∀ p q, (composed.splice.statement, p) ∈ composed.rules.productions → p.origin = .host →
    (composed.splice.statement, q) ∈ composed.rules.productions → q.origin = .template →
      q.precedence < p.precedence
  template : ∀ name q, (name, q) ∈ composed.rules.productions → q.origin = .template →
    q.precedence = templatePrecedence

/-- The host's statements are raised above the template exactly if the host splices expressions and
statements at different nonterminals. Otherwise an interpolation is raised with them. -/
theorem raisesHost_iff_of_compose {host : Grammar} {conflicts : List Conflict}
    {splice : SplicePoints} {composed : ComposedGrammar}
    (h : compose host conflicts splice (directiveRules .code) = .ok composed) :
    composed.RaisesHost ↔ splice.expression ≠ splice.statement := by
  obtain ⟨hpoints, hmerge, hrules, -, hsplice, -⟩ := Composition.compose_eq_ok_iff.1 h
  obtain ⟨-, hstatement⟩ := Composition.missingSplicePoints_eq_nil_iff.1 hpoints
  constructor
  · intro hraises hsame
    -- the alternative of the expression is one of the statement, and was raised with the others
    have hmem : (splice.expression, Composition.raise splice splice.expression
        Composition.expressionAlternative) ∈ composed.rules.productions := by
      rw [hrules]
      exact (Composition.mem_productions_merge hmerge).2 (.inr (.inr (.inl ⟨rfl, rfl⟩)))
    have hprecedence := hraises.template _ _ hmem Composition.origin_raise
    rw [hsame, Composition.precedence_raise_statement] at hprecedence
    omega
  · intro hdifferent
    have htemplate : ∀ name q, (name, q) ∈ composed.rules.productions → q.origin = .template →
        q.precedence = templatePrecedence := by
      intro name q hq ho
      rw [hrules] at hq
      exact (Composition.precedence_template_of_mem_merge hmerge hstatement hq ho).resolve_right
        hdifferent
    refine ⟨fun p q hp ho hq ho' => ?_, htemplate⟩
    rw [htemplate _ _ hq ho']
    rw [hrules, hsplice] at hp
    rw [Composition.precedence_host_of_mem_merge hmerge hp ho]
    omega

/-- A host whose expressions are names, and whose statements are expressions before a semicolon. -/
def nameHost : Grammar :=
  .ofRules
    [("stmt", [.of "expr_stmt" [.nonterminal "expr", .terminal ";"]]),
      ("expr", [.of "name" [.tokenClass "identifier"]])]

/-- This host with directives, spliced in at the given nonterminals. -/
def nameGrammar (splice : SplicePoints) : ComposedGrammar where
  rules := (Composition.merge nameHost splice (directiveRules .code)).1
  conflicts := declaredConflicts [] splice
  splice := splice

/-- An instance with an expression and a statement of its own. -/
theorem nameGrammar_raisesHost :
    compose nameHost [] ⟨"expr", "stmt"⟩ (directiveRules .code) =
        .ok (nameGrammar ⟨"expr", "stmt"⟩) ∧
      (nameGrammar ⟨"expr", "stmt"⟩).RaisesHost := by
  have hcompose : compose nameHost [] ⟨"expr", "stmt"⟩ (directiveRules .code) =
      .ok (nameGrammar ⟨"expr", "stmt"⟩) := by decide +kernel
  exact ⟨hcompose, (raisesHost_iff_of_compose hcompose).2 (by decide)⟩

/-- Where names are statements too, an interpolation is as high as they are. -/
theorem nameGrammar_not_raisesHost :
    compose nameHost [] ⟨"expr", "expr"⟩ (directiveRules .code) =
        .ok (nameGrammar ⟨"expr", "expr"⟩) ∧
      ¬ (nameGrammar ⟨"expr", "expr"⟩).RaisesHost := by
  refine ⟨by decide +kernel, fun hraises => ?_⟩
  have htemplate := hraises.template "expr"
    (Composition.raise ⟨"expr", "expr"⟩ "expr" Composition.expressionAlternative)
    (by decide +kernel) rfl
  exact absurd htemplate (by decide)

end Stencil
