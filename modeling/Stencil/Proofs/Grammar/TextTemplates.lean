import Stencil.Proofs.Grammar.DirectiveMeaning
import Stencil.Proofs.Parser.Templates

/-!
# The grammar of text templates and their parser

The grammar of templates over raw text is written down twice: as data, in `directiveRules .text`,
and as the parser behind `parse`. Both accept the same sources. The bridge is the token form of
templates: what the grammar covers from its start is the token form of a template, and so is what
the parser accepts.

* `textMeaning`, the token forms, is a model of the grammar (`isModel_textMeaning`).
* `model_statement`, `model_sourceFile`: every model holds all token forms.
* `exists_parse_eq_ok_iff_derives` is the equivalence.
-/

namespace Stencil

/-! ## The grammar says nothing but token forms -/

/-- What the nonterminals of text templates mean: token forms. -/
def textMeaning : Meaning
  | "source_file", ts | "template_body", ts => ∃ us, ts = TextStatement.tokensOf us
  | "statement", ts | "template_statement", ts => ∃ u : TextStatement, ts = u.tokens
  | "template_interpolation", ts =>
    ∃ e : Expression, ts = [.openExpression, e.token, .closeExpression]
  | "expression", ts => ∃ e : Expression, ts = [e.token]
  | "template_pattern", ts => ∃ p : Pattern, ts = p.tokens
  | "template_pattern_list", ts => ∃ ps, ts = Pattern.tokensOf true ps
  | "template_pattern_tail", ts => ∃ ps, ts = Pattern.tokensOf false ps
  | _, _ => False

section Model

open Meaning DirectiveRules

variable {m : Meaning}

/-- The meaning is closed under the rules of templates over raw text around those of directives. -/
structure Meaning.HoldsText (m : Meaning) : Prop where
  source_nil : m "source_file" []
  source_cons : ∀ {ts us}, m statementName ts → m "source_file" us → m "source_file" (ts ++ us)
  text : ∀ content, m statementName [.text content]
  directive : ∀ {ts}, m "template_statement" ts → m statementName ts
  expression : ∀ e : Expression, m expressionName [e.token]

theorem isModel_textOnly_iff : m.IsModel Token.ReadAs (.ofRules textOnly) ↔ m.HoldsText := by
  have hr := isReading_readAs
  rw [isModel_ofRules_iff]
  simp only [textOnly, Production.of, n, List.mem_cons, List.not_mem_nil, or_false,
    forall_eq_or_imp, forall_eq, List.append_nil, forall_sequence_nil_iff,
    forall_sequence_nonterminal_iff, hr.forall_text_iff, hr.forall_identifier_iff,
    hr.forall_string_iff, hr.forall_integer_iff]
  constructor
  · rintro ⟨⟨h₁, h₂⟩, ⟨h₃, h₄⟩, h₅, h₆, h₇⟩
    constructor
    case source_nil => exact h₁
    case source_cons => exact fun hs hrest => h₂ _ hs _ hrest
    case text => exact h₃
    case directive => exact h₄ _
    case expression =>
      rintro (name | value | digits)
      · exact h₅ name
      · exact h₆ value
      · exact h₇ digits
  · intro h
    exact ⟨⟨h.source_nil, fun _ hs _ => h.source_cons hs⟩, ⟨h.text, fun _ => h.directive⟩,
      fun name => h.expression (.reference name),
      fun value => h.expression (.literal (.string value)),
      fun digits => h.expression (.literal (.integer digits))⟩

theorem isModel_directiveRules_text_iff :
    m.IsModel Token.ReadAs (directiveRules .text) ↔ m.HoldsDirectives ∧ m.HoldsText := by
  rw [directiveRules, isModel_ofRules_append_iff, isModel_shared_iff isReading_readAs,
    isModel_textOnly_iff]

theorem holdsDirectives_textMeaning : textMeaning.HoldsDirectives := by
  constructor
  case toHoldsPatterns =>
    exact .of_iff (fun _ => Iff.rfl) (fun _ => Iff.rfl) (fun _ => Iff.rfl)
  case interpolation =>
    rintro _ ⟨e, rfl⟩
    exact ⟨e, rfl⟩
  case statement =>
    rintro _ ⟨e, rfl⟩
    exact ⟨.interpolation e, rfl⟩
  case forIn =>
    rintro _ _ _ ⟨p, rfl⟩ ⟨e, rfl⟩ ⟨body, rfl⟩
    exact ⟨.forIn p e body, rfl⟩
  case join =>
    rintro _ _ _ _ ⟨p, rfl⟩ ⟨e, rfl⟩ ⟨f, rfl⟩ ⟨body, rfl⟩
    exact ⟨.join p e f body, rfl⟩
  case body_nil => exact ⟨[], rfl⟩
  case body_cons =>
    rintro _ _ ⟨u, rfl⟩ ⟨us, rfl⟩
    exact ⟨u :: us, rfl⟩

theorem holdsText_textMeaning : textMeaning.HoldsText := by
  constructor
  case source_nil => exact ⟨[], rfl⟩
  case source_cons =>
    rintro _ _ ⟨u, rfl⟩ ⟨us, rfl⟩
    exact ⟨u :: us, rfl⟩
  case text => exact fun content => ⟨.plain content, rfl⟩
  case directive => exact id
  case expression => exact fun e => ⟨e, rfl⟩

/-- Each production of the grammar makes token forms of token forms. -/
theorem isModel_textMeaning : textMeaning.IsModel Token.ReadAs (directiveRules .text) :=
  isModel_directiveRules_text_iff.2 ⟨holdsDirectives_textMeaning, holdsText_textMeaning⟩

/-! ## Every model of the grammar holds all token forms -/

mutual

theorem model_statement (hd : m.HoldsDirectives) (ht : m.HoldsText) (u : TextStatement) :
    m statementName u.tokens := by
  match u with
  | .plain content => exact ht.text content
  | .interpolation e => exact ht.directive (hd.statement (hd.interpolation (ht.expression e)))
  | .forIn binder e body =>
    exact ht.directive (hd.forIn (hd.pattern binder) (ht.expression e) (model_body hd ht body))
  | .join binder e f body =>
    exact ht.directive
      (hd.join (hd.pattern binder) (ht.expression e) (ht.expression f)
        (model_body hd ht body))

theorem model_body (hd : m.HoldsDirectives) (ht : m.HoldsText) (us : List TextStatement) :
    m "template_body" (TextStatement.tokensOf us) := by
  match us with
  | [] => exact hd.body_nil
  | u :: us => exact hd.body_cons (model_statement hd ht u) (model_body hd ht us)

end

theorem model_sourceFile (hm : m.IsModel Token.ReadAs (directiveRules .text))
    (us : List TextStatement) : m "source_file" (TextStatement.tokensOf us) := by
  obtain ⟨hd, ht⟩ := isModel_directiveRules_text_iff.1 hm
  induction us with
  | nil => exact ht.source_nil
  | cons u us ih => exact ht.source_cons (model_statement hd ht u) ih

end Model

/-- What the start of the grammar covers are the token forms of templates. -/
theorem covers_sourceFile_iff {ts : List Token} :
    (directiveRules .text).Covers Token.ReadAs [.nonterminal "source_file"] ts ↔
      ∃ us, ts = TextStatement.tokensOf us := by
  constructor
  · intro h
    obtain ⟨us, vs, rfl, hus, rfl⟩ :=
      isModel_textMeaning.sequence_of_covers Token.not_readAs_nonterminal h
    rw [List.append_nil]
    exact hus
  · rintro ⟨us, rfl⟩
    exact model_sourceFile (Grammar.isModel_coverage _ _) us

/-- A source is a template if and only if its tokens, read as symbols, are derived from the start
of the grammar. -/
theorem exists_parse_eq_ok_iff_derives (source : String) :
    (∃ template, parse source = .ok template) ↔
      ∃ word, List.Forall₂ Token.ReadAs (tokens .text source) word ∧
        (directiveRules .text).Derives [.nonterminal "source_file"] word := by
  change _ ↔ (directiveRules .text).Covers Token.ReadAs [.nonterminal "source_file"] _
  rw [covers_sourceFile_iff]
  constructor
  · rintro ⟨template, h⟩
    obtain ⟨us, hus, -⟩ := parse_eq_ok_iff.1 h
    exact ⟨us, hus⟩
  · rintro ⟨us, hus⟩
    exact ⟨_, parse_eq_ok_iff.2 ⟨us, hus, rfl⟩⟩

end Stencil
