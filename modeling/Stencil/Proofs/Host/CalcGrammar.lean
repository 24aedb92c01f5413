import Stencil.Proofs.Composition.ComposedMeaning
import Stencil.Proofs.Host.CalcParser

/-!
# The grammar of calculator code and its parser

The grammar of calculator code with directives in it is composed from data, and the parser is
written apart from it. Both accept the same sources. The bridge is the token form of canonical
statements: what the composed grammar covers from a statement is such a form, and so is what the
parser accepts.

* `isModel_rules_iff`: the models of the calculator's grammar.
* `codeMeaning`, the canonical token forms, is a model of the composed grammar
  (`holdsCode_codeMeaning`, `holdsSpliced_codeMeaning`).
* `HoldsCode.statement`: every model holds all canonical token forms.
* `exists_parse_eq_ok_iff_segments_derive` is the equivalence.
-/

namespace Stencil.Calc

open Meaning DirectiveRules

/-! ## Models of the calculator's grammar -/

/-- The meaning is closed under the rules of the calculator. -/
structure HoldsCode (m : Meaning) : Prop where
  definition : ∀ name {es}, m "expr" es →
    m "stmt" (.identifier "let" :: .identifier name :: .symbol "=" :: (es ++ [.symbol ";"]))
  block : ∀ {bs}, m "stmt_list" bs → m "stmt" (.symbol "\x7b" :: (bs ++ [.symbol "\x7d"]))
  expression : ∀ {es}, m "expr" es → m "stmt" (es ++ [.symbol ";"])
  stmts_nil : m "stmt_list" []
  stmts_cons : ∀ {ts us}, m "stmt" ts → m "stmt_list" us → m "stmt_list" (ts ++ us)
  sum : ∀ {ts us}, m "operand" ts → m "sum_tail" us → m "expr" (ts ++ us)
  operands_nil : m "sum_tail" []
  operands_cons : ∀ {ts us}, m "operand" ts → m "sum_tail" us →
    m "sum_tail" (.symbol "+" :: (ts ++ us))
  name : ∀ name, m "operand" [.identifier name]
  int : ∀ digits, m "operand" [.integer digits]
  str : ∀ value, m "operand" [.string value]
  group : ∀ {ts}, m "expr_list" ts → m "operand" (.openParen :: (ts ++ [.closeParen]))
  items_nil : m "expr_list" []
  items_cons : ∀ {ts us}, m "expr" ts → m "expr_list_tail" us → m "expr_list" (ts ++ us)
  tail_nil : m "expr_list_tail" []
  tail_cons : ∀ {ts us}, m "expr" ts → m "expr_list_tail" us →
    m "expr_list_tail" (.comma :: (ts ++ us))

section Model

variable {m : Meaning}

/-- A sign is read as the terminal that is spelled like it. -/
theorem readScanned_sign {c : Char} (hc : c ∈ signs) :
    (Token.symbol (String.ofList [c])).ReadScanned (.terminal (String.ofList [c])) :=
  .inr ⟨⟨c, hc, rfl⟩, .symbol _⟩

/-- A meaning is a model of the calculator's grammar exactly if it is closed under its rules, in
tokens: the word `let` and the signs are known. -/
theorem isModel_rules_iff : m.IsModel Token.ReadScanned rules ↔ HoldsCode m := by
  have hr := isReading_readScanned
  have hlet : (Token.identifier "let").ReadScanned (.terminal "let") :=
    .inr ⟨wellFormed_let, .identifier _⟩
  have hequals : (Token.symbol "=").ReadScanned (.terminal "=") :=
    @readScanned_sign '=' (by decide)
  have hend : (Token.symbol ";").ReadScanned (.terminal ";") := @readScanned_sign ';' (by decide)
  have hplus : (Token.symbol "+").ReadScanned (.terminal "+") := @readScanned_sign '+' (by decide)
  have hopen : (Token.symbol "\x7b").ReadScanned (.terminal "\x7b") :=
    @readScanned_sign '\x7b' (by decide)
  have hclose : (Token.symbol "\x7d").ReadScanned (.terminal "\x7d") :=
    @readScanned_sign '\x7d' (by decide)
  have hopenParen : Token.openParen.ReadScanned (.terminal "(") := hr.of_readAs rfl
  have hcloseParen : Token.closeParen.ReadScanned (.terminal ")") := hr.of_readAs rfl
  have hcomma : Token.comma.ReadScanned (.terminal ",") := hr.of_readAs rfl
  rw [rules, isModel_ofRules_iff]
  simp only [Production.of, t, n, List.mem_cons, List.not_mem_nil, or_false, forall_eq_or_imp,
    forall_eq, List.append_nil, forall_sequence_nil_iff, forall_sequence_nonterminal_iff,
    hr.forall_identifier_iff, hr.forall_string_iff, hr.forall_integer_iff,
    hr.forall_terminal_iff hlet, hr.forall_terminal_iff hequals, hr.forall_terminal_iff hend,
    hr.forall_terminal_iff hplus, hr.forall_terminal_iff hopen, hr.forall_terminal_iff hclose,
    hr.forall_terminal_iff hopenParen, hr.forall_terminal_iff hcloseParen,
    hr.forall_terminal_iff hcomma]
  constructor
  · rintro ⟨⟨h₁, h₂, h₃⟩, ⟨h₄, h₅⟩, h₆, ⟨h₇, h₈⟩, ⟨h₉, h₁₀, h₁₁, h₁₂⟩, ⟨h₁₃, h₁₄⟩, h₁₅, h₁₆⟩
    constructor
    case definition => exact fun name _ he => h₁ name _ he
    case block => exact h₂ _
    case expression => exact h₃ _
    case stmts_nil => exact h₄
    case stmts_cons => exact fun hs hb => h₅ _ hs _ hb
    case sum => exact fun he hes => h₆ _ he _ hes
    case operands_nil => exact h₇
    case operands_cons => exact fun he hes => h₈ _ he _ hes
    case name => exact h₉
    case int => exact h₁₀
    case str => exact h₁₁
    case group => exact h₁₂ _
    case items_nil => exact h₁₃
    case items_cons => exact fun he hes => h₁₄ _ he _ hes
    case tail_nil => exact h₁₅
    case tail_cons => exact fun he hes => h₁₆ _ he _ hes
  · intro h
    exact ⟨⟨fun name _ => h.definition name, fun _ => h.block, fun _ => h.expression⟩,
      ⟨h.stmts_nil, fun _ hs _ => h.stmts_cons hs⟩, fun _ he _ => h.sum he,
      ⟨h.operands_nil, fun _ he _ => h.operands_cons he⟩, ⟨h.name, h.int, h.str, fun _ => h.group⟩,
      ⟨h.items_nil, fun _ he _ => h.items_cons he⟩, h.tail_nil, fun _ he _ => h.tail_cons he⟩

/-! ## Every model holds the canonical token forms -/

/-- An operand is an expression: a sum that does not go on. -/
theorem HoldsCode.single (hm : HoldsCode m) {ts : List Token} (h : m "operand" ts) :
    m "expr" ts := by
  have hsum := hm.sum h hm.operands_nil
  rwa [List.append_nil] at hsum

mutual

theorem HoldsCode.operand (hm : HoldsCode m) (hd : m.HoldsSpliced host.splice) (e : Expr)
    (he : e.IsOperand) : m "operand" e.tokens := by
  match e, he with
  | .name name, _ => exact hm.name name
  | .int digits, _ => exact hm.int digits
  | .str value, _ => exact hm.str value
  | .group items, ⟨_, he⟩ => exact hm.group (HoldsCode.items hm hd items he)

theorem HoldsCode.spliced (hm : HoldsCode m) (hd : m.HoldsSpliced host.splice) (e : SplicedExpr)
    (he : SplicedCanonical e) : m "expr" (splicedTokens e) := by
  match e, he with
  | .host (.name name), _ => exact hm.single (hm.name name)
  | .host (.int digits), _ => exact hm.single (hm.int digits)
  | .host (.str value), _ => exact hm.single (hm.str value)
  | .host (.group items), he => exact hm.single (hm.group (HoldsCode.items hm hd items he))
  | .host (.sum (first :: rest)), ⟨_, hfirst, hrest⟩ =>
    rw [splicedTokens, Expr.tokens, operandTokens_true_cons]
    exact hm.sum (HoldsCode.operand hm hd first hfirst) (HoldsCode.operands hm hd rest hrest)
  | .interpolation inner, he =>
    have hinner := HoldsCode.spliced hm hd inner he
    exact hd.interpolation (hd.directives.interpolation hinner)

theorem HoldsCode.operands (hm : HoldsCode m) (hd : m.HoldsSpliced host.splice)
    (operands : List Expr) (h : OperandsCanonical operands) :
    m "sum_tail" (operandTokens false operands) := by
  match operands, h with
  | [], _ => exact hm.operands_nil
  | first :: rest, ⟨hfirst, hrest⟩ =>
    rw [operandTokens_false_cons]
    exact hm.operands_cons (HoldsCode.operand hm hd first hfirst)
      (HoldsCode.operands hm hd rest hrest)

theorem HoldsCode.items (hm : HoldsCode m) (hd : m.HoldsSpliced host.splice)
    (items : List SplicedExpr) (h : ItemsCanonical items) :
    m "expr_list" (itemTokens true items) := by
  match items, h with
  | [], _ => exact hm.items_nil
  | first :: rest, ⟨hfirst, hrest⟩ =>
    rw [itemTokens_true_cons]
    exact hm.items_cons (HoldsCode.spliced hm hd first hfirst)
      (HoldsCode.itemsTail hm hd rest hrest)

theorem HoldsCode.itemsTail (hm : HoldsCode m) (hd : m.HoldsSpliced host.splice)
    (items : List SplicedExpr) (h : ItemsCanonical items) :
    m "expr_list_tail" (itemTokens false items) := by
  match items, h with
  | [], _ => exact hm.tail_nil
  | first :: rest, ⟨hfirst, hrest⟩ =>
    rw [itemTokens_false_cons]
    exact hm.tail_cons (HoldsCode.spliced hm hd first hfirst)
      (HoldsCode.itemsTail hm hd rest hrest)

end

mutual

theorem HoldsCode.statement (hm : HoldsCode m) (hd : m.HoldsSpliced host.splice)
    (s : SplicedStmt) (hs : StatementCanonical s) : m "stmt" (statementTokens s) := by
  match s, hs with
  | .plain (.let_ name value), hv => exact hm.definition name (hm.spliced hd value hv)
  | .plain (.block body), hb => exact hm.block (HoldsCode.statements hm hd body hb)
  | .plain (.expr e), he => exact hm.expression (hm.spliced hd e he)
  | .interpolation e, he =>
    have hinterpolation := hd.directives.interpolation (hm.spliced hd e he)
    exact hd.statement (hd.directives.statement hinterpolation)
  | .forIn binder e body, ⟨he, hb⟩ =>
    exact hd.statement (hd.directives.forIn (hd.directives.pattern binder) (hm.spliced hd e he)
      (HoldsCode.body hm hd body hb))
  | .join binder e f body, ⟨⟨he, hf⟩, hb⟩ =>
    exact hd.statement (hd.directives.join (hd.directives.pattern binder) (hm.spliced hd e he)
      (hm.spliced hd f hf) (HoldsCode.body hm hd body hb))

theorem HoldsCode.statements (hm : HoldsCode m) (hd : m.HoldsSpliced host.splice)
    (body : List SplicedStmt) (h : StatementsCanonical body) :
    m "stmt_list" (statementsTokens body) := by
  match body, h with
  | [], _ => exact hm.stmts_nil
  | first :: rest, ⟨hfirst, hrest⟩ =>
    exact hm.stmts_cons (HoldsCode.statement hm hd first hfirst)
      (HoldsCode.statements hm hd rest hrest)

theorem HoldsCode.body (hm : HoldsCode m) (hd : m.HoldsSpliced host.splice)
    (body : List SplicedStmt) (h : StatementsCanonical body) :
    m "template_body" (statementsTokens body) := by
  match body, h with
  | [], _ => exact hd.directives.body_nil
  | first :: rest, ⟨hfirst, hrest⟩ =>
    exact hd.directives.body_cons (HoldsCode.statement hm hd first hfirst)
      (HoldsCode.body hm hd rest hrest)

end

end Model

/-! ## The composed grammar says nothing but canonical token forms -/

/-- What the nonterminals of calculator code mean: token forms of canonical trees. -/
def codeMeaning : Meaning
  | "stmt", ts | "template_statement", ts =>
    ∃ s, StatementCanonical s ∧ ts = statementTokens s
  | "stmt_list", ts | "template_body", ts =>
    ∃ body, StatementsCanonical body ∧ ts = statementsTokens body
  | "expr", ts => ∃ e, SplicedCanonical e ∧ ts = splicedTokens e
  | "sum_tail", ts => ∃ operands, OperandsCanonical operands ∧ ts = operandTokens false operands
  | "operand", ts => ∃ e : Expr, e.IsOperand ∧ ts = e.tokens
  | "expr_list", ts => ∃ items, ItemsCanonical items ∧ ts = itemTokens true items
  | "expr_list_tail", ts => ∃ items, ItemsCanonical items ∧ ts = itemTokens false items
  | "template_interpolation", ts =>
    ∃ e, SplicedCanonical e ∧ ts = .openExpression :: (splicedTokens e ++ [.closeExpression])
  | "template_pattern", ts => ∃ p : Pattern, ts = p.tokens
  | "template_pattern_list", ts => ∃ ps, ts = Pattern.tokensOf true ps
  | "template_pattern_tail", ts => ∃ ps, ts = Pattern.tokensOf false ps
  | _, _ => False

theorem holdsCode_codeMeaning : HoldsCode codeMeaning := by
  constructor
  case definition =>
    rintro name _ ⟨e, he, rfl⟩
    exact ⟨.plain (.let_ name e), he, rfl⟩
  case block =>
    rintro _ ⟨body, hb, rfl⟩
    exact ⟨.plain (.block body), hb, rfl⟩
  case expression =>
    rintro _ ⟨e, he, rfl⟩
    exact ⟨.plain (.expr e), he, rfl⟩
  case stmts_nil => exact ⟨[], trivial, rfl⟩
  case stmts_cons =>
    rintro _ _ ⟨s, hs, rfl⟩ ⟨body, hb, rfl⟩
    exact ⟨s :: body, ⟨hs, hb⟩, rfl⟩
  case sum =>
    rintro _ _ ⟨first, hfirst, rfl⟩ ⟨rest, hrest, rfl⟩
    have hcanonical : (sumOf first rest).Canonical :=
      Expr.canonical_iff_sumOf.2 ⟨first, rest, hfirst, operandsCanonical_iff.1 hrest, rfl⟩
    rw [operandTokens_false_eq_flatMap]
    exact ⟨.host (sumOf first rest), hcanonical, (Expr.tokens_sumOf first rest).symm⟩
  case operands_nil => exact ⟨[], trivial, rfl⟩
  case operands_cons =>
    rintro _ _ ⟨first, hfirst, rfl⟩ ⟨rest, hrest, rfl⟩
    exact ⟨first :: rest, ⟨hfirst, hrest⟩, rfl⟩
  case name => exact fun name => ⟨.name name, ⟨rfl, trivial⟩, rfl⟩
  case int => exact fun digits => ⟨.int digits, ⟨rfl, trivial⟩, rfl⟩
  case str => exact fun value => ⟨.str value, ⟨rfl, trivial⟩, rfl⟩
  case group =>
    rintro _ ⟨items, hi, rfl⟩
    exact ⟨.group items, ⟨rfl, hi⟩, rfl⟩
  case items_nil => exact ⟨[], trivial, rfl⟩
  case items_cons =>
    rintro _ _ ⟨first, hfirst, rfl⟩ ⟨rest, hrest, rfl⟩
    exact ⟨first :: rest, ⟨hfirst, hrest⟩, rfl⟩
  case tail_nil => exact ⟨[], trivial, rfl⟩
  case tail_cons =>
    rintro _ _ ⟨first, hfirst, rfl⟩ ⟨rest, hrest, rfl⟩
    exact ⟨first :: rest, ⟨hfirst, hrest⟩, rfl⟩

theorem holdsDirectives_codeMeaning : (codeMeaning.renamed host.splice).HoldsDirectives := by
  constructor
  case toHoldsPatterns =>
    exact .of_iff (fun _ => Iff.rfl) (fun _ => Iff.rfl) (fun _ => Iff.rfl)
  case interpolation =>
    rintro _ ⟨e, he, rfl⟩
    exact ⟨e, he, rfl⟩
  case statement =>
    rintro _ ⟨e, he, rfl⟩
    exact ⟨.interpolation e, he, rfl⟩
  case forIn =>
    rintro _ _ _ ⟨p, rfl⟩ ⟨e, he, rfl⟩ ⟨body, hb, rfl⟩
    exact ⟨.forIn p e body, ⟨he, hb⟩, rfl⟩
  case join =>
    rintro _ _ _ _ ⟨p, rfl⟩ ⟨e, he, rfl⟩ ⟨f, hf, rfl⟩ ⟨body, hb, rfl⟩
    exact ⟨.join p e f body, ⟨⟨he, hf⟩, hb⟩, rfl⟩
  case body_nil => exact ⟨[], trivial, rfl⟩
  case body_cons =>
    rintro _ _ ⟨s, hs, rfl⟩ ⟨body, hb, rfl⟩
    exact ⟨s :: body, ⟨hs, hb⟩, rfl⟩

theorem holdsSpliced_codeMeaning : codeMeaning.HoldsSpliced host.splice where
  directives := holdsDirectives_codeMeaning
  interpolation := by
    rintro _ ⟨e, he, rfl⟩
    exact ⟨.interpolation e, he, rfl⟩
  statement := id

/-! ## The equivalence -/

/-- The calculator can take the splice. -/
theorem exists_grammar_eq_ok : ∃ composed, host.grammar = .ok composed := by
  have hok : host.grammar.isOk = true := by decide +kernel
  cases hgrammar : host.grammar with
  | error errors => simp [hgrammar, Except.isOk, Except.toBool] at hok
  | ok composed => exact ⟨composed, rfl⟩

/-- What the composed grammar covers from a statement are the token forms of canonical
statements. -/
theorem covers_stmt_iff {composed : ComposedGrammar} (h : host.grammar = .ok composed)
    {ts : List Token} :
    composed.rules.Covers Token.ReadScanned [.nonterminal "stmt"] ts ↔
      ∃ s, StatementCanonical s ∧ ts = statementTokens s := by
  have hmodels := fun m => @isModel_composed_iff _ m _ _ isReading_readScanned _ _ h
  constructor
  · intro hcovers
    have hm := (hmodels codeMeaning).2
      ⟨isModel_rules_iff.2 holdsCode_codeMeaning, holdsSpliced_codeMeaning⟩
    have hstmt := hm.sequence_of_covers isReading_readScanned.not_nonterminal hcovers
    exact sequence_single_iff.1 hstmt
  · rintro ⟨s, hs, rfl⟩
    obtain ⟨hm, hd⟩ := (hmodels _).1 (Grammar.isModel_coverage composed.rules Token.ReadScanned)
    exact (isModel_rules_iff.1 hm).statement hd s hs

/-- Segments that are each covered from a statement are the token forms of canonical statements. -/
theorem covers_segments_iff {composed : ComposedGrammar} (h : host.grammar = .ok composed)
    {segments : List (List Token)} :
    (∀ segment ∈ segments,
        composed.rules.Covers Token.ReadScanned [.nonterminal "stmt"] segment) ↔
      ∃ statements, StatementsCanonical statements ∧ segments = statements.map statementTokens := by
  simp only [covers_stmt_iff h]
  induction segments with
  | nil => exact ⟨fun _ => ⟨[], trivial, rfl⟩, fun _ segment hmem => by cases hmem⟩
  | cons segment segments ih =>
    rw [List.forall_mem_cons, ih]
    constructor
    · rintro ⟨⟨s, hs, rfl⟩, statements, hstatements, rfl⟩
      exact ⟨s :: statements, ⟨hs, hstatements⟩, rfl⟩
    · rintro ⟨statements, hcanonical, hsegments⟩
      obtain ⟨s, rest, rfl, rfl, rfl⟩ := List.map_eq_cons_iff.1 hsegments.symm
      exact ⟨⟨s, hcanonical.1, rfl⟩, rest, hcanonical.2, rfl⟩

/-- The calculator can take the splice, and its code parses if and only if the tokens are made of
segments that, read as symbols, are each derived from a statement in the composed grammar. -/
theorem exists_parse_eq_ok_iff_segments_derive :
    ∃ composed, host.embed = .ok (host.dialect, composed) ∧
      ∀ (name : Option String) (source : String),
        (∃ statements, host.dialect.parse name source = .ok statements) ↔
          ∃ segments : List (List Token), segments.flatten = tokens .code source ∧
            ∀ segment ∈ segments, ∃ word, List.Forall₂ Token.ReadInCode segment word ∧
              composed.rules.Derives [.nonterminal "stmt"] word := by
  obtain ⟨composed, h⟩ := exists_grammar_eq_ok
  refine ⟨composed, by rw [Host.embed, h]; rfl, fun name source => ?_⟩
  -- the tokens of a segment were scanned, so both readings agree on it
  have hread : ∀ {segments : List (List Token)}, segments.flatten = tokens .code source →
      ∀ segment ∈ segments,
        (composed.rules.Covers Token.ReadInCode [.nonterminal "stmt"] segment ↔
          composed.rules.Covers Token.ReadScanned [.nonterminal "stmt"] segment) := by
    intro segments hflatten segment hsegment
    refine (Grammar.covers_readScanned_iff fun t ht => ?_).symm
    have hmem : t ∈ tokens .code source := hflatten ▸ List.mem_flatten_of_mem hsegment ht
    rw [tokens_eq_scan] at hmem
    exact wellFormed_of_mem_scan hmem
  constructor
  · rintro ⟨statements, hparse⟩
    obtain ⟨hcanonical, htokens⟩ := parse_eq_ok_iff.1 hparse
    have hflatten : (statements.map statementTokens).flatten = tokens .code source := by
      rw [htokens, statementsTokens_eq_flatMap, List.flatMap_def]
    refine ⟨statements.map statementTokens, hflatten, fun segment hsegment => ?_⟩
    refine (hread hflatten segment hsegment).2 ?_
    exact (covers_segments_iff h).2 ⟨statements, hcanonical, rfl⟩ segment hsegment
  · rintro ⟨segments, hflatten, hsegments⟩
    have hcovers := fun segment hsegment =>
      (hread hflatten segment hsegment).1 (hsegments segment hsegment)
    obtain ⟨statements, hcanonical, rfl⟩ := (covers_segments_iff h).1 hcovers
    refine ⟨statements, parse_eq_ok_iff.2 ⟨hcanonical, ?_⟩⟩
    rw [← hflatten, statementsTokens_eq_flatMap, List.flatMap_def]

end Stencil.Calc
