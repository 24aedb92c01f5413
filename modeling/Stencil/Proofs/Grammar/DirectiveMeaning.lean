import Stencil.Grammar.Directives
import Stencil.Proofs.Grammar.Reading
import Stencil.Proofs.Template.TokenForm

/-!
# What the rules of directives mean

The rules of directives are shared by all grammars that directives are in. Under any reading of
tokens, a meaning is a model of them exactly if it is closed under writing directives around its
expressions, statements and bodies (`isModel_shared_iff`). So every model holds the token forms of
patterns (`Meaning.HoldsPatterns.pattern`), and those of loops over whatever expressions and bodies
it holds.
-/

namespace Stencil

open Meaning DirectiveRules

/-- The meaning is closed under writing patterns. -/
structure Meaning.HoldsPatterns (m : Meaning) : Prop where
  pattern_name : ∀ name, m "template_pattern" [.identifier name]
  pattern_tuple : ∀ {ts}, m "template_pattern_list" ts →
    m "template_pattern" (.openParen :: (ts ++ [.closeParen]))
  list_nil : m "template_pattern_list" []
  list_cons : ∀ {ts us}, m "template_pattern" ts → m "template_pattern_tail" us →
    m "template_pattern_list" (ts ++ us)
  tail_nil : m "template_pattern_tail" []
  tail_cons : ∀ {ts us}, m "template_pattern" ts → m "template_pattern_tail" us →
    m "template_pattern_tail" (.comma :: (ts ++ us))

/-- The meaning is closed under writing directives. -/
structure Meaning.HoldsDirectives (m : Meaning) : Prop extends m.HoldsPatterns where
  interpolation : ∀ {es}, m expressionName es →
    m "template_interpolation" (.openExpression :: (es ++ [.closeExpression]))
  statement : ∀ {ts}, m "template_interpolation" ts → m "template_statement" ts
  forIn : ∀ {ps es bs}, m "template_pattern" ps → m expressionName es → m "template_body" bs →
    m "template_statement" (Construct.forIn.blockTokens (ps ++ .keyword .in_ :: es) bs)
  join : ∀ {ps es fs bs}, m "template_pattern" ps → m expressionName es → m expressionName fs →
    m "template_body" bs → m "template_statement" (Construct.join.blockTokens
      (ps ++ .keyword .in_ :: (es ++ .keyword .with_ :: fs)) bs)
  body_nil : m "template_body" []
  body_cons : ∀ {ts us}, m statementName ts → m "template_body" us → m "template_body" (ts ++ us)

/-- A meaning is a model of the rules of directives exactly if it is closed under writing
directives. -/
theorem isModel_shared_iff {reads : Token → Symbol → Prop} (hr : IsReading reads) {m : Meaning} :
    m.IsModel reads (.ofRules shared) ↔ m.HoldsDirectives := by
  have hopenExpression : reads .openExpression (.terminal "\x7b\x7b") := hr.of_readAs rfl
  have hcloseExpression : reads .closeExpression (.terminal "\x7d\x7d") := hr.of_readAs rfl
  have hopenStatement : reads .openStatement (.terminal "\x7b%") := hr.of_readAs rfl
  have hcloseStatement : reads .closeStatement (.terminal "%\x7d") := hr.of_readAs rfl
  have hopenParen : reads .openParen (.terminal "(") := hr.of_readAs rfl
  have hcloseParen : reads .closeParen (.terminal ")") := hr.of_readAs rfl
  have hcomma : reads .comma (.terminal ",") := hr.of_readAs rfl
  have hin : reads (.keyword .in_) (.terminal "in") := hr.of_readAs rfl
  have hwith : reads (.keyword .with_) (.terminal "with") := hr.of_readAs rfl
  have hword : ∀ word : Keyword, reads (.keyword word) (.terminal word.spelling) :=
    fun word => hr.of_readAs rfl
  have hblock : ∀ (c : Construct) (header body : List Token), c.blockTokens header body =
      .openStatement :: .keyword c.opening :: (header ++ .closeStatement ::
        (body ++ [.openStatement, .keyword c.closing, .closeStatement])) :=
    fun c header body => by simp [Construct.blockTokens, Construct.openingTokens, endTokens]
  rw [isModel_ofRules_iff]
  simp only [shared, Production.of, block, t, n, List.mem_cons, List.not_mem_nil, or_false,
    forall_eq_or_imp, forall_eq, List.cons_append, List.nil_append, List.append_nil,
    forall_sequence_nil_iff, forall_sequence_nonterminal_iff, hr.forall_identifier_iff,
    hr.forall_terminal_iff hopenExpression, hr.forall_terminal_iff hcloseExpression,
    hr.forall_terminal_iff hopenStatement, hr.forall_terminal_iff hcloseStatement,
    hr.forall_terminal_iff hopenParen, hr.forall_terminal_iff hcloseParen,
    hr.forall_terminal_iff hcomma, hr.forall_terminal_iff hin, hr.forall_terminal_iff hwith,
    hr.forall_terminal_iff (hword _)]
  constructor
  · rintro ⟨⟨h₁, h₂, h₃⟩, h₄, ⟨h₅, h₆⟩, ⟨h₇, h₈⟩, ⟨h₉, h₁₀⟩, h₁₁, h₁₂⟩
    constructor
    case toHoldsPatterns =>
      exact ⟨h₇, h₈ _, h₉, fun hp ht => h₁₀ _ hp _ ht, h₁₁, fun hp ht => h₁₂ _ hp _ ht⟩
    case interpolation => exact h₄ _
    case statement => exact h₁ _
    case forIn =>
      intro ps es bs hp he hb
      simpa [hblock, Construct.opening, Construct.closing] using h₂ ps hp es he bs hb
    case join =>
      intro ps es fs bs hp he hf hb
      simpa [hblock, Construct.opening, Construct.closing] using h₃ ps hp es he fs hf bs hb
    case body_nil => exact h₅
    case body_cons => exact fun hs hb => h₆ _ hs _ hb
  · intro h
    refine ⟨⟨fun _ => h.statement, ?_, ?_⟩, fun _ => h.interpolation,
      ⟨h.body_nil, fun _ hs _ => h.body_cons hs⟩, ⟨h.pattern_name, fun _ => h.pattern_tuple⟩,
      ⟨h.list_nil, fun _ hp _ => h.list_cons hp⟩, h.tail_nil, fun _ hp _ => h.tail_cons hp⟩
    · intro ps hp es he bs hb
      simpa [hblock, Construct.opening, Construct.closing] using h.forIn hp he hb
    · intro ps hp es he fs hf bs hb
      simpa [hblock, Construct.opening, Construct.closing] using h.join hp he hf hb

/-! ## Patterns -/

namespace Meaning.HoldsPatterns

variable {m : Meaning}

/-- The token forms of patterns are closed under writing patterns. -/
theorem of_iff (hpattern : ∀ ts, m "template_pattern" ts ↔ ∃ p : Pattern, ts = p.tokens)
    (hlist : ∀ ts, m "template_pattern_list" ts ↔ ∃ ps, ts = Pattern.tokensOf true ps)
    (htail : ∀ ts, m "template_pattern_tail" ts ↔ ∃ ps, ts = Pattern.tokensOf false ps) :
    m.HoldsPatterns := by
  constructor <;> simp only [hpattern, hlist, htail]
  case pattern_name => exact fun name => ⟨.var name, rfl⟩
  case pattern_tuple =>
    rintro _ ⟨ps, rfl⟩
    exact ⟨.tuple ps, rfl⟩
  case list_nil => exact ⟨[], rfl⟩
  case list_cons =>
    rintro _ _ ⟨p, rfl⟩ ⟨ps, rfl⟩
    exact ⟨p :: ps, rfl⟩
  case tail_nil => exact ⟨[], rfl⟩
  case tail_cons =>
    rintro _ _ ⟨p, rfl⟩ ⟨ps, rfl⟩
    exact ⟨p :: ps, rfl⟩

variable (hm : m.HoldsPatterns)

include hm

mutual

/-- Every model holds the token forms of patterns. -/
theorem pattern (p : Pattern) : m "template_pattern" p.tokens := by
  match p with
  | .var name => exact hm.pattern_name name
  | .tuple ps => exact hm.pattern_tuple (patternList ps)

theorem patternList (ps : List Pattern) :
    m "template_pattern_list" (Pattern.tokensOf true ps) := by
  match ps with
  | [] => exact hm.list_nil
  | p :: ps =>
    rw [Pattern.tokensOf_true_cons]
    exact hm.list_cons (pattern p) (patternTail ps)

theorem patternTail (ps : List Pattern) :
    m "template_pattern_tail" (Pattern.tokensOf false ps) := by
  match ps with
  | [] => exact hm.tail_nil
  | p :: ps =>
    rw [Pattern.tokensOf_false_cons]
    exact hm.tail_cons (pattern p) (patternTail ps)

end

end Meaning.HoldsPatterns

end Stencil
