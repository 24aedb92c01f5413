import Stencil.Proofs.Host.CalcTokens
import Stencil.Proofs.Parser.Templates

/-!
# What the parser of calculator code accepts

Calculator code with directives in it parses exactly if its tokens are the token form of canonical
statements, and these are the result. Two places keep the parsers from being exact: a sum goes on
as long as a plus sign follows, and an interpolation before a semicolon is an expression statement
and no directive. So expressions are read where no plus sign follows, and statements where no
semicolon does.

* `reads_splicedExpression`, `reads_statement`: what the two recursive parsers read.
* `parse_eq_ok_iff` is the statement about sources.
-/

namespace Stencil.Calc

open Stencil.Parser

/-! ## Expressions -/

/-- Whether an expression is a name or a literal. -/
def Expr.isLeaf : Expr → Bool
  | .name _ | .int _ | .str _ => true
  | _ => false

theorem reads_leaf (bound : Nat) : leaf.Reads bound (fun e => e.isLeaf = true) Expr.tokens [] where
  sound := by
    intro input e rest _ h
    obtain ⟨-, t, ht, hr⟩ := accepts_satisfy_iff.1 h
    split at ht <;> cases ht <;> exact ⟨rfl, hr⟩
  complete := by
    intro input e rest _ hleaf hr _
    refine accepts_satisfy_iff.2 ⟨rfl, ?_⟩
    cases e with
    | name | int | str => exact ⟨_, rfl, hr⟩
    | group | sum => cases hleaf

/-- The expressions that `sumOf` makes of operands are the canonical ones. -/
theorem Expr.canonical_iff_sumOf {e : Expr} :
    e.Canonical ↔
      ∃ first rest, first.IsOperand ∧ (∀ o ∈ rest, o.IsOperand) ∧ sumOf first rest = e := by
  constructor
  · intro h
    match e, h with
    | .name _, h | .int _, h | .str _, h | .group _, h =>
      exact ⟨_, [], ⟨rfl, h⟩, by simp, rfl⟩
    | .sum (first :: second :: rest), h =>
      obtain ⟨hfirst, hrest⟩ := List.forall_mem_cons.1 (operandsCanonical_iff.1 h.2)
      exact ⟨first, second :: rest, hfirst, hrest, rfl⟩
  · rintro ⟨first, rest, hfirst, hrest, rfl⟩
    cases rest with
    | nil => exact hfirst.2
    | cons second rest =>
      exact ⟨by simp, operandsCanonical_iff.2 (List.forall_mem_cons.2 ⟨hfirst, hrest⟩)⟩

theorem Expr.tokens_sumOf (first : Expr) (rest : List Expr) :
    (sumOf first rest).tokens =
      first.tokens ++ rest.flatMap fun e => .symbol "+" :: e.tokens := by
  cases rest with
  | nil => simp [sumOf]
  | cons second rest =>
    rw [← operandTokens_false_eq_flatMap]
    rfl

section Expressions

variable {inner : Parser SplicedExpr} {bound : Nat}

theorem silent_operand (hsilent : inner.Silent) : (leaf.orElse (group inner)).Silent :=
  silent_orElse (silent_satisfy _ _)
    (silent_map (silent_between (silent_sepBy hsilent (silent_token _))))

theorem silent_expression (hsilent : inner.Silent) : (expression inner).Silent :=
  silent_seqWith (silent_operand hsilent)
    (silent_many (silent_seqWith (silent_token _) (silent_operand hsilent)))

/-- One level of a spliced expression. -/
def splicedStep (inner : Parser SplicedExpr) : Parser SplicedExpr :=
  ((expression inner).map .host).orElse ((interpolation inner).map .interpolation)

theorem silent_splicedStep (hsilent : inner.Silent) : (splicedStep inner).Silent :=
  silent_orElse (silent_map (silent_expression hsilent)) (silent_map (silent_between hsilent))

variable (hi : inner.Reads bound SplicedCanonical splicedTokens [.symbol "+"])

include hi

theorem rejects_of_startsExpression_eq_false (hsilent : inner.Silent) {input rest : Input}
    {t : Token} (hinput : input.ShortCode bound) (hr : input.Reaches [t] rest)
    (ht : startsExpression t = false) : inner.Rejects input := by
  refine hi.rejects hsilent hinput fun e rest' he h => ?_
  obtain ⟨u, us, hu, hstarts⟩ := he.exists_tokens_eq_cons
  rw [hu] at h
  obtain rfl := hr.head_unique h
  simp [hstarts] at ht

theorem reads_group (hsilent : inner.Silent) :
    (group inner).Reads (bound + 1)
      (fun e => ∃ items, (∀ item ∈ items, SplicedCanonical item) ∧ .group items = e)
      Expr.tokens [] := by
  have hitems := hi.sepBy_between hsilent .openParen .comma .closeParen (by decide) (by decide)
    (by decide) fun hinput hr => rejects_of_startsExpression_eq_false hi hsilent hinput hr rfl
  refine hitems.map .group Expr.tokens fun items => ?_
  rw [← itemTokens_eq_separatedTokens]
  rfl

theorem reads_operand (hsilent : inner.Silent) :
    (leaf.orElse (group inner)).Reads (bound + 1) Expr.IsOperand Expr.tokens [] := by
  refine ((reads_leaf (bound + 1)).orElse (reads_group hi hsilent) ?_).congr ?_ fun _ _ => rfl
  · rintro input e _ rest rest' hinput he ⟨items, -, rfl⟩ hr -
    obtain ⟨hleaf, hr'⟩ := (reads_leaf (bound + 1)).sound hinput he
    cases e with
    | name | int | str => cases hr.head_unique hr'
    | group | sum => cases hleaf
  · intro e
    cases e with
    | name | int | str => simp [Expr.isLeaf, Expr.IsOperand, Expr.isSum, Expr.Canonical]
    | group items =>
      simp [Expr.isLeaf, Expr.IsOperand, Expr.isSum, Expr.Canonical, itemsCanonical_iff]
    | sum operands => simp [Expr.isLeaf, Expr.IsOperand, Expr.isSum]

/-- An expression is read where no plus sign follows. -/
theorem reads_expression (hsilent : inner.Silent) :
    (expression inner).Reads (bound + 1) Expr.Canonical Expr.tokens [.symbol "+"] := by
  have hoperand := reads_operand hi hsilent
  have hmore := (hoperand.seqRight (.symbol "+")).mono (Nat.le_succ _)
  have hstart : ∀ e : Expr, e.IsOperand → ∃ t ts, .symbol "+" :: e.tokens = t :: ts ∧
      t ∉ ([] : List Token) := fun e _ => ⟨_, _, rfl, List.not_mem_nil⟩
  constructor
  · intro input e rest hinput h
    obtain ⟨es₁, first, middle, es₂, others, h₁, h₂, hes, rfl⟩ := accepts_seqWith_iff.1 h
    obtain ⟨rfl, rfl⟩ := List.append_eq_nil_iff.1 hes
    obtain ⟨hfirst, hr⟩ := hoperand.sound hinput h₁
    obtain ⟨hothers, hrs, -⟩ := (hmore.repeats_iff hstart (hinput.of_reaches hr)
      (Input.avoids_nil _)).1 (accepts_many_iff.1 h₂)
    refine ⟨Expr.canonical_iff_sumOf.2 ⟨first, others, hfirst, hothers, rfl⟩, ?_⟩
    rw [Expr.tokens_sumOf]
    exact hr.append hrs
  · intro input e rest hinput he h hrest
    obtain ⟨first, others, hfirst, hothers, rfl⟩ := Expr.canonical_iff_sumOf.1 he
    rw [Expr.tokens_sumOf] at h
    obtain ⟨middle, hr, hrs⟩ := Input.reaches_append_iff.1 h
    have hreject : ((token (.symbol "+")).seqRight (leaf.orElse (group inner))).Rejects rest := by
      intro es e rest' ha
      obtain ⟨_, _, _, _, _, hplus, -⟩ := accepts_seqWith_iff.1 ha
      exact hrest _ (by simp) _ (accepts_token_iff.1 hplus).2
    have hrun := (hmore.repeats_iff hstart (hinput.of_reaches hr) (Input.avoids_nil _)).2
      ⟨hothers, hrs, hreject⟩
    exact accepts_seqWith_iff.2 ⟨[], first, middle, [], others,
      hoperand.complete hinput hfirst hr (Input.avoids_nil _), accepts_many_iff.2 hrun, rfl, rfl⟩

theorem reads_splicedStep (hsilent : inner.Silent) :
    (splicedStep inner).Reads (bound + 1) SplicedCanonical splicedTokens [.symbol "+"] := by
  have hhost := (reads_expression hi hsilent).map .host splicedTokens fun _ => rfl
  have hinterpolation := ((hi.between .openExpression .closeExpression (by decide)).map
    .interpolation splicedTokens fun _ => rfl).bar (List.nil_subset [.symbol "+"])
  refine (hhost.orElse hinterpolation ?_).congr ?_ fun _ _ => rfl
  · rintro input _ _ rest rest' hinput ha ⟨e, -, rfl⟩ hr -
    obtain ⟨⟨e', he', rfl⟩, hr'⟩ := hhost.sound hinput ha
    obtain ⟨t, ts, ht, hstarts⟩ := Expr.Canonical.exists_tokens_eq_cons he'
    rw [splicedTokens, ht] at hr'
    obtain rfl := hr'.head_unique hr
    cases hstarts
  · intro e
    cases e <;> simp [SplicedCanonical]

end Expressions

/-- A spliced expression is read where no plus sign follows. -/
theorem reads_splicedExpression (bound : Nat) :
    host.splicedExpression.Reads bound SplicedCanonical splicedTokens [.symbol "+"] :=
  reads_recursive (fun _ ih => reads_splicedStep ih (silent_unfolded silent_splicedStep _)) bound

theorem silent_splicedExpression : host.splicedExpression.Silent :=
  fun input => silent_unfolded silent_splicedStep (input.remaining.length + 1) input

/-! ## Where a statement can begin -/

/-- The input begins like a statement of the calculator, or with the directive that opens a
block. -/
def BeginsStatement (input : Input) : Prop :=
  (∃ t rest, input.Reaches [t] rest ∧ startsPlain t = true) ∨
    ∃ construct rest, input.Reaches [.openStatement, .keyword (Construct.opening construct)] rest

theorem not_beginsStatement_of_reaches_end {input rest : Input} {word : Keyword}
    (hword : word.isEnd = true) (h : input.Reaches (endTokens word) rest) :
    ¬ BeginsStatement input := by
  rintro (⟨t, rest', hr, ht⟩ | ⟨construct, rest', hr⟩)
  · obtain rfl := hr.head_unique h
    cases ht
  · obtain ⟨middle, hwords, -⟩ :=
      (@Input.reaches_append_iff _ _ [.openStatement, .keyword word] _).1 h
    cases hwords.eq_of_length_eq hr rfl
    cases construct <;> cases hword

theorem not_beginsStatement_of_reaches_brace {input rest : Input}
    (h : input.Reaches [.symbol "\x7d"] rest) : ¬ BeginsStatement input := by
  rintro (⟨t, rest', hr, ht⟩ | ⟨construct, rest', hr⟩)
  · obtain rfl := hr.head_unique h
    cases ht
  · cases hr.head_unique h

theorem not_beginsStatement_of_remaining_eq_nil {input : Input} (h : input.remaining = []) :
    ¬ BeginsStatement input := by
  rintro (⟨t, rest', hr, -⟩ | ⟨construct, rest', hr⟩)
  · have := hr.length_lt
    simp [h] at this
  · have := hr.length_lt
    simp [h] at this

/-! ## Statements -/

theorem exact_definedName : definedName.Exact fun name => [.identifier name] := by
  intro input es name rest
  rw [definedName, accepts_satisfy_iff]
  constructor
  · rintro ⟨rfl, t, ht, h⟩
    split at ht <;> cases ht
    exact ⟨rfl, h⟩
  · rintro ⟨rfl, h⟩
    exact ⟨rfl, _, rfl, h⟩

theorem reads_letStmt (bound : Nat) :
    (letStmt host.splicedExpression).Reads bound
      (fun s => ∃ v : String × SplicedExpr, SplicedCanonical v.2 ∧ .let_ v.1 v.2 = s)
      Stmt.tokens [] := by
  have hname := ((exact_definedName.seqRight (.identifier "let")).seqLeft (.symbol "=")).reads bound
  have hwhole := (hname.seq (reads_splicedExpression bound)).seqLeft (.symbol ";") (by decide)
  refine (hwhole.map _ Stmt.tokens fun v => ?_).congr ?_ fun _ _ => rfl
  · simp [Stmt.tokens]
  · simp

theorem reads_exprStmt (bound : Nat) :
    (exprStmt host.splicedExpression).Reads bound
      (fun s => ∃ e, SplicedCanonical e ∧ .expr e = s) Stmt.tokens [] :=
  ((reads_splicedExpression bound).seqLeft (.symbol ";") (by decide)).map Stmt.expr Stmt.tokens
    fun _ => rfl

/-- The second token tells an expression that begins with a name from a definition. -/
theorem splicedTokens_append_ne {e : SplicedExpr} (he : SplicedCanonical e) (more : List Token)
    (name other : String) (ts : List Token) :
    splicedTokens e ++ .symbol ";" :: more ≠ .identifier name :: .identifier other :: ts := by
  have hoperand {e : Expr} (he : e.IsOperand) (sign : String) (more : List Token) :
      e.tokens ++ .symbol sign :: more ≠ .identifier name :: .identifier other :: ts := by
    cases e with
    | name | int | str | group => simp [Expr.tokens]
    | sum => cases he.1
  cases e with
  | interpolation inner => simp [splicedTokens]
  | host e =>
    obtain ⟨first, rest, hfirst, -, rfl⟩ := Expr.canonical_iff_sumOf.1 he
    rw [splicedTokens, Expr.tokens_sumOf]
    cases rest with
    | nil => simpa using hoperand hfirst ";" more
    | cons second rest => simpa using hoperand hfirst "+" _

/-- Behind an interpolation with which a statement of the calculator begins stands a semicolon:
both are read by the same parser. -/
theorem reaches_semicolon_of_interpolation {bound : Nat} {input rest rest' : Input} {s : Stmt}
    {e : SplicedExpr} (hinput : input.ShortCode bound) (hs : s.Canonical)
    (he : SplicedCanonical e) (h : input.Reaches s.tokens rest)
    (h' : input.Reaches (.openExpression :: (splicedTokens e ++ [.closeExpression])) rest') :
    ∃ after, rest'.Reaches [.symbol ";"] after := by
  have hreads := ((reads_splicedExpression bound).between .openExpression .closeExpression
    (by decide)).mono (Nat.le_succ bound)
  cases s with
  | let_ name value => cases h.head_unique h'
  | block body => cases h.head_unique h'
  | expr e' =>
    cases e' with
    | host e' =>
      obtain ⟨t, ts, ht, hstarts⟩ := Expr.Canonical.exists_tokens_eq_cons hs
      rw [Stmt.tokens, splicedTokens, ht] at h
      obtain rfl := h.head_unique h'
      cases hstarts
    | interpolation inner =>
      obtain ⟨middle, h₁, h₂⟩ := Input.reaches_append_iff.1 h
      have ha := @Reads.complete _ _ _ _ _ _ hreads input inner middle hinput hs h₁
        (Input.avoids_nil _)
      have ha' := hreads.complete hinput he h' (Input.avoids_nil _)
      obtain ⟨-, -, rfl⟩ := ha.unique ha'
      exact ⟨rest, h₂⟩

section Statements

variable {inner : Parser SplicedStmt} {bound : Nat}

/-- One level of a spliced statement. -/
def statementStep (inner : Parser SplicedStmt) : Parser SplicedStmt :=
  ((statement inner host.splicedExpression).map .plain).orElse
    (directive host.splicedExpression inner)

/-- Whatever is reported, a statement is accepted only where one can begin. -/
theorem beginsStatement_of_accepts_step {input rest : Input} {es : List Located}
    {v : SplicedStmt} (hinput : input.ShortCode bound)
    (h : (statementStep inner).Accepts input es v rest) : BeginsStatement input := by
  rcases accepts_or_of_accepts_orElse h with hplain | hdirective
  · obtain ⟨s, hs, -⟩ := accepts_map_iff.1 hplain
    rcases accepts_or_of_accepts_orElse hs with hs | hexpr
    · rcases accepts_or_of_accepts_orElse hs with hlet | hblock
      · simp only [letStmt, seq, seqLeft, seqRight, accepts_map_iff, accepts_seqWith_iff,
          accepts_token_iff] at hlet
        obtain ⟨_, ⟨_, _, _, _, _, ⟨_, _, _, _, _, ⟨_, _, _, _, _, ⟨_, _, middle, _, _, ⟨-, hr⟩,
          -⟩, -⟩, -⟩, -⟩, -⟩ := hlet
        exact .inl ⟨_, middle, hr, rfl⟩
      · obtain ⟨body, hbody, -⟩ := accepts_map_iff.1 hblock
        obtain ⟨first, _, hr, -⟩ := accepts_between_iff.1 hbody
        exact .inl ⟨_, first, hr, rfl⟩
    · obtain ⟨_, hterminated, -⟩ := accepts_map_iff.1 hexpr
      obtain ⟨_, e, middle, _, _, ha, -⟩ := accepts_seqWith_iff.1 hterminated
      obtain rfl := silent_splicedExpression.reported_eq_nil ha
      obtain ⟨he, hr⟩ := (reads_splicedExpression bound).sound hinput ha
      obtain ⟨t, ts, ht, hstarts⟩ := he.exists_tokens_eq_cons
      rw [ht] at hr
      obtain ⟨first, hr, -⟩ := Input.reaches_cons_iff.1 hr
      exact .inl ⟨t, first, hr, by simp [startsPlain, hstarts]⟩
  · rcases reaches_of_accepts_directive hdirective with ⟨middle, hr⟩ | ⟨construct, middle, hr⟩
    · exact .inl ⟨_, middle, hr, rfl⟩
    · exact .inr ⟨construct, middle, hr⟩

theorem rejects_unfolded_statementStep (depth : Nat) {input : Input}
    (hinput : input.ShortCode bound) (h : ¬ BeginsStatement input) :
    (unfolded statementStep depth).Rejects input := by
  intro es v rest ha
  cases depth with
  | zero => simp [Accepts, unfolded, Outcome.reject] at ha
  | succ depth => exact h (beginsStatement_of_accepts_step hinput ha)

/-- No statement begins with a semicolon. -/
theorem exists_tokens_eq_cons_not_mem (s : SplicedStmt) (hs : StatementCanonical s) :
    ∃ t ts, statementTokens s = t :: ts ∧ t ∉ [Token.symbol ";"] := by
  obtain ⟨t, ts, ht, hstarts⟩ := hs.exists_tokens_eq_cons
  refine ⟨t, ts, ht, fun hmem => ?_⟩
  obtain rfl := List.mem_singleton.1 hmem
  cases hstarts

variable (hi : inner.Reads bound StatementCanonical statementTokens [.symbol ";"])
  (hreject : ∀ {input : Input}, input.ShortCode bound → ¬ BeginsStatement input →
    inner.Rejects input)

include hi hreject

theorem reads_blockStmt :
    (blockStmt inner).Reads (bound + 1)
      (fun s => ∃ body, (∀ s ∈ body, StatementCanonical s) ∧ .block body = s) Stmt.tokens [] := by
  have hbody := hi.many_between exists_tokens_eq_cons_not_mem (.symbol "\x7b") (.symbol "\x7d")
    (by decide) fun hinput hr => hreject hinput (not_beginsStatement_of_reaches_brace hr)
  refine hbody.map .block Stmt.tokens fun body => ?_
  rw [← statementsTokens_eq_flatMap]
  rfl

/-- A statement of the calculator ends where its tokens end. -/
theorem reads_plain :
    (statement inner host.splicedExpression).Reads (bound + 1) Stmt.Canonical Stmt.tokens [] := by
  have hlet := reads_letStmt (bound + 1)
  have hblock := reads_blockStmt hi hreject
  have hexpr := reads_exprStmt (bound + 1)
  have hfirst := hlet.orElse hblock (by
    rintro input _ _ rest rest' hinput ha ⟨body, -, rfl⟩ hr -
    obtain ⟨⟨v, -, rfl⟩, hr'⟩ := hlet.sound hinput ha
    cases hr.head_unique hr')
  refine (hfirst.orElse hexpr ?_).congr ?_ fun _ _ => rfl
  · rintro input _ _ rest rest' hinput ha ⟨e, he, rfl⟩ hr -
    obtain ⟨⟨v, -, rfl⟩ | ⟨body, -, rfl⟩, hr'⟩ := hfirst.sound hinput ha
    · have htokens := hr.tokens_eq.symm.trans hr'.tokens_eq
      simp only [Stmt.tokens, List.append_assoc, List.cons_append, List.nil_append] at htokens
      exact splicedTokens_append_ne he _ _ _ _ htokens
    · obtain ⟨t, ts, ht, hstarts⟩ := he.exists_tokens_eq_cons
      rw [Stmt.tokens, ht] at hr
      obtain rfl := hr.head_unique hr'
      cases hstarts
  · intro s
    cases s <;> simp [Stmt.Canonical, statementsCanonical_iff]

theorem reads_directive :
    (directive host.splicedExpression inner).Reads (bound + 1)
      (IsDirective SplicedCanonical StatementCanonical)
      (directiveTokens splicedTokens statementTokens) [] :=
  Reads.directive reads_splicedExpression (by simp [Token.closes]) (by decide) hi
    exists_tokens_eq_cons_not_mem (by decide)
    fun hword hinput hr => hreject hinput (not_beginsStatement_of_reaches_end hword hr)

/-- A spliced statement is read where no semicolon follows. -/
theorem reads_statementStep :
    (statementStep inner).Reads (bound + 1) StatementCanonical statementTokens
      [.symbol ";"] := by
  have hplain := ((reads_plain hi hreject).map .plain statementTokens fun _ => rfl).bar
    (List.nil_subset [.symbol ";"])
  have hdirective := (reads_directive hi hreject).bar (List.nil_subset [.symbol ";"])
  refine (hplain.orElse (hdirective.congr (fun _ => Iff.rfl) ?_) ?_).congr ?_ fun _ _ => rfl
  · intro s hs
    cases s with
    | plain => cases hs
    | interpolation => rfl
    | forIn | join => rw [statementTokens, statementsTokens_eq_flatMap]; rfl
  · rintro input _ w rest rest' hinput ha hw hr hrest
    obtain ⟨⟨s, hs, rfl⟩, hr'⟩ := hplain.sound hinput ha
    obtain ⟨t, ts, ht, hstarts⟩ := hs.exists_tokens_eq_cons
    cases w with
    | plain => cases hw
    | forIn | join =>
      rw [statementTokens, ht] at hr'
      obtain rfl := hr'.head_unique hr
      cases hstarts
    | interpolation e =>
      obtain ⟨after, hsemicolon⟩ := reaches_semicolon_of_interpolation hinput hs hw hr' hr
      exact hrest _ (by simp) after hsemicolon
  · intro s
    cases s <;> simp [StatementCanonical, IsDirective, statementsCanonical_iff]

end Statements

theorem reads_statement (bound : Nat) :
    host.dialect.statement.Reads bound StatementCanonical statementTokens [.symbol ";"] :=
  reads_recursive (fun _ ih => reads_statementStep ih (rejects_unfolded_statementStep _)) bound

/-! ## Whole sources -/

theorem shortCode_ofSource (source : String) :
    (Input.ofSource .code source).ShortCode ((Input.ofSource .code source).remaining.length + 1) :=
  ⟨fun _ ht => isText_eq_false_of_mem_scan ht, Nat.lt_succ_self _⟩

/-- A source parses to statements exactly if these are canonical and its tokens are theirs. -/
theorem parse_eq_ok_iff {name : Option String} {source : String}
    {statements : List SplicedStmt} :
    host.dialect.parse name source = .ok statements ↔
      StatementsCanonical statements ∧ tokens .code source = statementsTokens statements := by
  have hinput := shortCode_ofSource source
  rw [Dialect.parse, parseAs_eq_ok_iff, statementsCanonical_iff, statementsTokens_eq_flatMap]
  simp only [accepts_template_iff]
  constructor
  · rintro ⟨rest, hrun, hrest⟩
    obtain ⟨hcanonical, hr, -⟩ := ((reads_statement _).repeats_iff exists_tokens_eq_cons_not_mem
      hinput (Input.avoids_of_remaining_eq_nil hrest)).1 hrun
    refine ⟨hcanonical, ?_⟩
    have htokens := hr.tokens_eq
    rw [tokens_ofSource] at htokens
    simpa [Input.tokens, hrest] using htokens
  · rintro ⟨hcanonical, htokens⟩
    rw [← tokens_ofSource, ← List.append_nil (statements.flatMap _)] at htokens
    obtain ⟨rest, hr, hnil⟩ := Input.exists_reaches htokens
    have hrest : rest.remaining = [] := by simpa [Input.tokens] using hnil
    have hreject : host.dialect.statement.Rejects rest := fun es v rest' ha =>
      rejects_unfolded_statementStep _ (hinput.of_reaches hr)
        (not_beginsStatement_of_remaining_eq_nil hrest) es v rest' (accepts_recursive_iff.1 ha)
    refine ⟨rest, ?_, hrest⟩
    exact ((reads_statement _).repeats_iff exists_tokens_eq_cons_not_mem hinput
      (Input.avoids_of_remaining_eq_nil hrest)).2 ⟨hcanonical, hr, hreject⟩

end Stencil.Calc
