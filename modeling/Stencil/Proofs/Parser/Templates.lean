import Stencil.Proofs.Parser.Blocks

/-!
# What the parser of text templates accepts

A template over raw text parses exactly if its tokens are the token form of some template, and
the result is that template with the bodies of its blocks trimmed:

* `reaches_of_accepts_statement`: what is accepted without a report is a token form;
* `accepts_statement_of_reaches`: a token form is accepted, with the trimmed statement;
* `parse_eq_ok_iff` puts both together for a whole source.
-/

namespace Stencil

namespace Parser

open TextStatement

/-! ## Where a statement can begin -/

/-- The input begins like a statement: with text, with the bracket of an interpolation, or with
that of a block and the keyword that opens it. -/
inductive BeginsStatement (input : Input) : Prop
  | text {content : String} {rest : Input} (h : input.Reaches [.text content] rest)
  | interpolation {rest : Input} (h : input.Reaches [.openExpression] rest)
  | block {construct : Construct} {rest : Input}
      (h : input.Reaches [.openStatement, .keyword construct.opening] rest)

theorem beginsStatement_of_reaches {statement : TextStatement} {input rest : Input}
    (h : input.Reaches statement.tokens rest) : BeginsStatement input := by
  have reaches_block {construct : Construct} {header body : List Token}
      (h : input.Reaches (construct.blockTokens header body) rest) : BeginsStatement input := by
    obtain ⟨middle, h, -⟩ :=
      (@Input.reaches_append_iff _ _ [.openStatement, .keyword construct.opening] _).1 h
    exact .block h
  cases statement with
  | plain content => exact .text h
  | interpolation e =>
    obtain ⟨middle, h, -⟩ := Input.reaches_cons_iff.1 h
    exact .interpolation h
  | forIn binder iterable body => exact reaches_block h
  | join binder iterable separator body => exact reaches_block h

/-- No statement begins where a block ends. -/
theorem not_beginsStatement_of_accepts_blockEnd {input rest : Input} {es : List Located}
    {ending : BlockEnd} (h : blockEnd.Accepts input es ending rest) :
    ¬ BeginsStatement input := by
  intro hs
  obtain ⟨-, ⟨word, hw, h, -⟩ | ⟨hr, -⟩⟩ := accepts_blockEnd_iff.1 h
  · cases hs with
    | text ht => cases h.head_unique ht
    | interpolation ht => cases h.head_unique ht
    | @block construct _ ht =>
      obtain ⟨middle, h, -⟩ :=
        (@Input.reaches_append_iff _ _ [.openStatement, .keyword word] _).1 h
      cases h.eq_of_length_eq ht rfl
      cases construct <;> cases hw
  · cases hs with
    | text ht | interpolation ht | block ht =>
      have := ht.length_lt
      simp [hr] at this

theorem rejects_blockEnd_of_beginsStatement {input : Input} (h : BeginsStatement input) :
    blockEnd.Rejects input :=
  fun _ _ _ ha => not_beginsStatement_of_accepts_blockEnd ha h

/-! ## One level of a statement -/

/-- One level of a statement of a template over raw text; `inner` reads the statements of its
body. -/
def textStep (inner : Parser TextStatement) : Parser TextStatement :=
  (text.map .plain).orElse (directive Dialect.textExpression inner)

theorem exact_text : text.Exact fun content => [.text content] := by
  intro input es content rest
  rw [text, accepts_satisfy_iff]
  constructor
  · rintro ⟨rfl, t, ht, h⟩
    split at ht <;> cases ht
    exact ⟨rfl, h⟩
  · rintro ⟨rfl, h⟩
    exact ⟨rfl, _, rfl, h⟩

theorem silent_text : text.Silent :=
  silent_satisfy _ _

theorem accepts_textStep_iff {inner : Parser TextStatement} {input rest : Input}
    {es : List Located} {v : TextStatement} :
    (textStep inner).Accepts input es v rest ↔
      (∃ content, es = [] ∧ input.Reaches [.text content] rest ∧ .plain content = v) ∨
        (directive Dialect.textExpression inner).Accepts input es v rest := by
  rw [textStep, accepts_orElse_iff (silent_map silent_text), accepts_map_iff]
  simp only [exact_text _ _ _ _]
  constructor
  · rintro (⟨content, ⟨rfl, h⟩, rfl⟩ | ⟨-, h⟩)
    · exact Or.inl ⟨content, rfl, h, rfl⟩
    · exact Or.inr h
  · rintro (⟨content, rfl, h, rfl⟩ | h)
    · exact Or.inl ⟨content, ⟨rfl, h⟩, rfl⟩
    · refine Or.inr ⟨Rejects.map (exact_text.rejects fun content rest' ht => ?_), h⟩
      rcases reaches_of_accepts_directive h with ⟨_, hd⟩ | ⟨_, _, hd⟩
      · cases ht.head_unique hd
      · cases ht.head_unique hd

theorem beginsStatement_of_accepts_textStep {inner : Parser TextStatement} {input rest : Input}
    {es : List Located} {v : TextStatement} (h : (textStep inner).Accepts input es v rest) :
    BeginsStatement input := by
  rcases accepts_textStep_iff.1 h with ⟨content, -, ht, -⟩ | hd
  · exact .text ht
  · rcases reaches_of_accepts_directive hd with ⟨_, hd⟩ | ⟨_, _, hd⟩
    · exact .interpolation hd
    · exact .block hd

theorem beginsStatement_of_accepts_unfolded (depth : Nat) {input rest : Input}
    {es : List Located} {v : TextStatement}
    (h : (unfolded textStep depth).Accepts input es v rest) : BeginsStatement input := by
  cases depth with
  | zero => simp [Accepts, unfolded, Outcome.reject] at h
  | succ depth => exact beginsStatement_of_accepts_textStep h

/-! ## What is accepted without a report is a token form -/

theorem reaches_of_accepts_blockBody {inner : Parser TextStatement}
    (hi : ∀ {input v rest}, inner.Accepts input [] v rest →
      ∃ u : TextStatement, input.Reaches u.tokens rest)
    {input rest : Input} {body : List TextStatement}
    (h : (blockBody inner).Accepts input [] body rest) :
    ∃ us, input.Reaches (tokensOf us) rest := by
  have item {input v rest} (h : (bodyItem inner).Accepts input [] v rest) :
      ∃ u : TextStatement, input.Reaches u.tokens rest := by
    rcases accepts_bodyItem_iff.1 h with h | ⟨-, s, h, -⟩
    · obtain ⟨-, -, content, -, h, -⟩ := accepts_trailing_iff.1 h
      exact ⟨.plain content, h⟩
    · exact hi h
  have items {input es items rest} (h : Repeats (bodyItem inner) input es items rest) :
      es = [] → ∃ us, input.Reaches (tokensOf us) rest := by
    induction h with
    | stop => exact fun _ => ⟨[], .nil _⟩
    | stuck h =>
      rintro rfl
      obtain ⟨u, hu⟩ := item h
      exact ⟨[u], by simpa using hu⟩
    | step h _ _ ih =>
      intro hes
      obtain ⟨rfl, rfl⟩ := List.append_eq_nil_iff.1 hes
      obtain ⟨u, hu⟩ := item h
      obtain ⟨us, hus⟩ := ih rfl
      exact ⟨u :: us, hu.append hus⟩
  obtain ⟨start, vs, hs, hr, -⟩ := accepts_blockBody_iff.1 h
  obtain ⟨us, hus⟩ := items hr rfl
  rcases hs with ⟨content, -, hc⟩ | ⟨-, rfl⟩
  · exact ⟨.plain content :: us, hc.append hus⟩
  · exact ⟨us, hus⟩

/-- A block that is accepted without a report is closed by its own end directive. -/
theorem reaches_of_accepts_block {H : Type} {construct : Construct} {header : Parser H}
    {form : H → List Token} (hh : header.Exact fun h => .keyword construct.opening :: form h)
    {inner : Parser TextStatement}
    (hi : ∀ {input v rest}, inner.Accepts input [] v rest →
      ∃ u : TextStatement, input.Reaches u.tokens rest)
    {input rest : Input} {h : H} {body : List TextStatement}
    (ha : (block construct header inner).Accepts input [] (h, body) rest) :
    ∃ us, input.Reaches (construct.blockTokens (form h) (tokensOf us)) rest := by
  obtain ⟨first, last, h₁, h₂, hend⟩ := accepts_block_nil_iff.1 ha
  obtain ⟨us, hus⟩ := reaches_of_accepts_blockBody hi h₂
  obtain ⟨-, hopening⟩ := (hh.between _ _ _ _ _ _).1 h₁
  exact ⟨us, hopening.append (hus.append hend)⟩

theorem reaches_of_accepts_textStep {inner : Parser TextStatement}
    (hi : ∀ {input v rest}, inner.Accepts input [] v rest →
      ∃ u : TextStatement, input.Reaches u.tokens rest)
    {input rest : Input} {v : TextStatement} (h : (textStep inner).Accepts input [] v rest) :
    ∃ u : TextStatement, input.Reaches u.tokens rest := by
  rcases accepts_textStep_iff.1 h with ⟨content, -, ht, -⟩ | hd
  · exact ⟨.plain content, ht⟩
  rcases (accepts_directive_iff exact_textExpression).1 hd with
    ⟨e, -, he, -⟩ | ⟨header, body, hb, -⟩ | ⟨header, body, hb, -⟩
  · exact ⟨.interpolation e, he⟩
  · obtain ⟨us, hus⟩ := reaches_of_accepts_block (exact_forHeader exact_textExpression) hi hb
    exact ⟨.forIn header.1 header.2 us, hus⟩
  · obtain ⟨us, hus⟩ := reaches_of_accepts_block (exact_joinHeader exact_textExpression) hi hb
    exact ⟨.join header.1.1 header.1.2 header.2 us, hus⟩

theorem reaches_of_accepts_unfolded_textStep (depth : Nat) {input rest : Input}
    {v : TextStatement} (h : (unfolded textStep depth).Accepts input [] v rest) :
    ∃ u : TextStatement, input.Reaches u.tokens rest := by
  induction depth generalizing input v rest with
  | zero => simp [Accepts, unfolded, Outcome.reject] at h
  | succ depth ih => exact reaches_of_accepts_textStep (fun h => ih h) h

theorem text_statement_eq : Dialect.text.statement = recursive textStep :=
  rfl

theorem accepts_statement_iff {input rest : Input} {es : List Located} {v : TextStatement} :
    Dialect.text.statement.Accepts input es v rest ↔
      (unfolded textStep (input.remaining.length + 1)).Accepts input es v rest := by
  rw [text_statement_eq, accepts_recursive_iff]

/-- What the parser of statements accepts without a report is a token form. -/
theorem reaches_of_accepts_statement {input rest : Input} {v : TextStatement}
    (h : Dialect.text.statement.Accepts input [] v rest) :
    ∃ u : TextStatement, input.Reaches u.tokens rest :=
  reaches_of_accepts_unfolded_textStep _ (accepts_statement_iff.1 h)

/-! ## A token form is accepted -/

/-- A statement that begins with text is that text. -/
theorem eq_plain_of_reaches_text {u : TextStatement} {input rest rest' : Input}
    {content : String} (h : input.Reaches u.tokens rest)
    (h' : input.Reaches [.text content] rest') : u = .plain content ∧ rest = rest' := by
  cases u with
  | plain content' =>
    cases h.eq_of_length_eq h' rfl
    exact ⟨rfl, h.unique h'⟩
  | interpolation e => cases h.head_unique h'
  | forIn binder iterable body => cases h.head_unique h'
  | join binder iterable separator body => cases h.head_unique h'

section Complete

variable {inner : Parser TextStatement}

/-- The parser reads the statements of a body. -/
def ReadsAll (inner : Parser TextStatement) (us : List TextStatement) : Prop :=
  ∀ u : TextStatement, u ∈ us → ∀ {input rest}, input.Reaches u.tokens rest →
    inner.Accepts input [] u.trimmed rest

/-- The items of a body, up to the end of the block: the last one is left out if it is a run of
spaces and tabs. -/
theorem repeats_bodyItem_of_reaches {us : List TextStatement} (hi : ReadsAll inner us)
    {input last : Input} (h : input.Reaches (tokensOf us) last) (hr : inner.Rejects last)
    (hb : ¬ blockEnd.Rejects last) :
    ∃ items, Repeats (bodyItem inner) input [] items last ∧
      items.filterMap id = trimEnd (trimmedOf us) := by
  induction us generalizing input with
  | nil =>
    obtain rfl := Input.reaches_nil_iff.1 h
    refine ⟨[], .stop fun es v rest ha => ?_, rfl⟩
    rcases accepts_bodyItem_iff.1 ha with ht | ⟨-, s, ha, -⟩
    · obtain ⟨-, -, content, -, ht, -⟩ := accepts_trailing_iff.1 ht
      exact hb (rejects_blockEnd_of_beginsStatement (.text ht))
    · exact hr _ _ _ ha
  | cons u us ih =>
    rw [tokensOf_cons] at h
    obtain ⟨middle, hu, hus⟩ := Input.reaches_append_iff.1 h
    obtain ⟨items, hitems, hvs⟩ := ih (fun w hw => hi w (by simp [hw])) hus
    have hlt : middle.remaining.length < input.remaining.length := by
      obtain ⟨t, ts, ht⟩ := TextStatement.exists_tokens_eq_cons u
      rw [ht] at hu
      exact hu.length_lt
    rcases accepts_or_rejects (trailing : Parser (Option TextStatement)) input with
      ⟨es, v, rest, ht⟩ | ht
    · -- spaces and tabs before the end: the body ends here, since no statement does
      obtain ⟨rfl, rfl, content, hc, hreach, hend⟩ := accepts_trailing_iff.1 ht
      obtain ⟨rfl, rfl⟩ := eq_plain_of_reaches_text hu hreach
      have hnil : us = [] := by
        cases us with
        | nil => rfl
        | cons w ws =>
          rw [tokensOf_cons] at hus
          obtain ⟨_, hw, -⟩ := Input.reaches_append_iff.1 hus
          exact absurd (rejects_blockEnd_of_beginsStatement (beginsStatement_of_reaches hw)) hend
      subst hnil
      refine ⟨none :: items, .step (accepts_bodyItem_iff.2 (Or.inl ht)) hlt hitems, ?_⟩
      simpa [trimmedOf, trimmed, trimEnd, TextStatement.isPadding, hc] using hvs
    · have hread := hi u (by simp) hu
      refine ⟨some u.trimmed :: items,
        .step (accepts_bodyItem_iff.2 (Or.inr ⟨ht, _, hread, rfl⟩)) hlt hitems, ?_⟩
      cases us with
      | nil =>
        obtain rfl := Input.reaches_nil_iff.1 hus
        have hp : ¬ TextStatement.isPadding u = true := by
          intro hp
          obtain ⟨content, rfl, hc⟩ := isPadding_eq_true_iff.1 hp
          exact ht _ _ _ (accepts_trailing_iff.2 ⟨rfl, rfl, content, hc, hu, hb⟩)
        simpa [trimmedOf, trimEnd, hp] using hvs
      | cons w ws => simpa [trimmedOf] using hvs

theorem accepts_blockBody_of_reaches {us : List TextStatement} (hi : ReadsAll inner us)
    {input last : Input} (h : input.Reaches (tokensOf us) last) (hr : inner.Rejects last)
    (hb : ¬ blockEnd.Rejects last) :
    (blockBody inner).Accepts input [] (trim (trimmedOf us)) last := by
  refine accepts_blockBody_iff.2 ?_
  cases us with
  | nil =>
    obtain ⟨items, hitems, hvs⟩ := repeats_bodyItem_of_reaches hi h hr hb
    obtain rfl := Input.reaches_nil_iff.1 h
    refine ⟨last, items, Or.inr ⟨fun es v rest hp => ?_, rfl⟩, hitems, hvs⟩
    obtain ⟨-, content, -, ht⟩ := accepts_padding_iff.1 hp
    exact hb (rejects_blockEnd_of_beginsStatement (.text ht))
  | cons u us =>
    by_cases hp : TextStatement.isPadding u = true
    · obtain ⟨content, rfl, hc⟩ := isPadding_eq_true_iff.1 hp
      rw [tokensOf_cons] at h
      obtain ⟨start, hu, hus⟩ := Input.reaches_append_iff.1 h
      obtain ⟨items, hitems, hvs⟩ :=
        repeats_bodyItem_of_reaches (fun w hw => hi w (by simp [hw])) hus hr hb
      refine ⟨start, items, Or.inl ⟨content, hc, hu⟩, hitems, ?_⟩
      simpa [trim, trimmedOf, trimStart, hp] using hvs
    · obtain ⟨items, hitems, hvs⟩ := repeats_bodyItem_of_reaches hi h hr hb
      refine ⟨input, items, Or.inr ⟨fun es v rest ha => ?_, rfl⟩, hitems, ?_⟩
      · obtain ⟨-, content, hc, ht⟩ := accepts_padding_iff.1 ha
        rw [tokensOf_cons] at h
        obtain ⟨start, hu, -⟩ := Input.reaches_append_iff.1 h
        obtain ⟨rfl, -⟩ := eq_plain_of_reaches_text hu ht
        exact hp (isPadding_eq_true_iff.2 ⟨content, rfl, hc⟩)
      · simpa [trim, trimmedOf, trimStart, hp] using hvs

theorem accepts_block_of_reaches {H : Type} (construct : Construct) {header : Parser H}
    {form : H → List Token} (hh : header.Exact fun h => .keyword construct.opening :: form h)
    {us : List TextStatement} (hi : ReadsAll inner us)
    (hr : ∀ {input}, ¬ BeginsStatement input → inner.Rejects input)
    {input rest : Input} {h : H}
    (ha : input.Reaches (construct.blockTokens (form h) (tokensOf us)) rest) :
    (block construct header inner).Accepts input [] (h, trim (trimmedOf us)) rest := by
  obtain ⟨first, h₁, ha⟩ := Input.reaches_append_iff.1 ha
  obtain ⟨last, h₂, h₃⟩ := Input.reaches_append_iff.1 ha
  have hend : blockEnd.Accepts last [] (.directive construct.closing (last.rangeTo rest)) rest :=
    accepts_blockEnd_iff.2 ⟨rfl, Or.inl ⟨_, isEnd_closing construct, h₃, rfl⟩⟩
  have hbody := accepts_blockBody_of_reaches hi h₂
    (hr (not_beginsStatement_of_accepts_blockEnd hend)) (fun hb => hb _ _ _ hend)
  exact accepts_block_nil_iff.2 ⟨first, last, (hh.between _ _ _ _ _ _).2 ⟨rfl, h₁⟩, hbody, h₃⟩

theorem accepts_textStep_of_reaches (hr : ∀ {input}, ¬ BeginsStatement input → inner.Rejects input)
    {u : TextStatement}
    (hi : ∀ us, (∀ w : TextStatement, w ∈ us → w.tokens.length < u.tokens.length) →
      ReadsAll inner us)
    {input rest : Input} (h : input.Reaches u.tokens rest) :
    (textStep inner).Accepts input [] u.trimmed rest := by
  refine accepts_textStep_iff.2 ?_
  cases u with
  | plain content => exact Or.inl ⟨content, rfl, h, rfl⟩
  | interpolation e =>
    exact Or.inr ((accepts_directive_iff exact_textExpression).2 (Or.inl ⟨e, rfl, h, rfl⟩))
  | forIn binder iterable body =>
    have hh := exact_forHeader exact_textExpression
    have hbody := hi body fun w hw => length_tokens_lt_of_mem hw .forIn _
    exact Or.inr ((accepts_directive_iff exact_textExpression).2 (Or.inr (Or.inl
      ⟨(binder, iterable), _, accepts_block_of_reaches .forIn hh hbody hr h, rfl⟩)))
  | join binder iterable separator body =>
    have hh := exact_joinHeader exact_textExpression
    have hbody := hi body fun w hw => length_tokens_lt_of_mem hw .join _
    exact Or.inr ((accepts_directive_iff exact_textExpression).2 (Or.inr (Or.inr
      ⟨((binder, iterable), separator), _, accepts_block_of_reaches .join hh hbody hr h, rfl⟩)))

theorem rejects_unfolded_textStep (depth : Nat) {input : Input} (h : ¬ BeginsStatement input) :
    (unfolded textStep depth).Rejects input :=
  fun _ _ _ ha => h (beginsStatement_of_accepts_unfolded depth ha)

theorem accepts_unfolded_textStep_of_reaches (depth : Nat) {u : TextStatement}
    (hd : u.tokens.length ≤ depth) {input rest : Input} (h : input.Reaches u.tokens rest) :
    (unfolded textStep depth).Accepts input [] u.trimmed rest := by
  induction depth generalizing u input rest with
  | zero =>
    obtain ⟨t, ts, ht⟩ := TextStatement.exists_tokens_eq_cons u
    simp [ht] at hd
  | succ depth ih =>
    refine accepts_textStep_of_reaches (rejects_unfolded_textStep depth) ?_ h
    intro us hus w hw input rest hr
    have := hus w hw
    exact ih (by omega) hr

/-- A token form is accepted, and gives the trimmed statement. -/
theorem accepts_statement_of_reaches {u : TextStatement} {input rest : Input}
    (h : input.Reaches u.tokens rest) :
    Dialect.text.statement.Accepts input [] u.trimmed rest := by
  refine accepts_statement_iff.2 (accepts_unfolded_textStep_of_reaches _ ?_ h)
  have := h.length_eq
  omega

end Complete

/-! ## Whole templates -/

theorem repeats_statement_of_reaches {us : List TextStatement} {input last : Input}
    (h : input.Reaches (tokensOf us) last) (hr : last.remaining = []) :
    Repeats Dialect.text.statement input [] (trimmedOf us) last := by
  induction us generalizing input with
  | nil =>
    obtain rfl := Input.reaches_nil_iff.1 h
    refine .stop fun es v rest ha => ?_
    have hend : blockEnd.Accepts last [] (.endOfInput last.endRange) last :=
      accepts_blockEnd_iff.2 ⟨rfl, Or.inr ⟨hr, rfl, rfl⟩⟩
    exact not_beginsStatement_of_accepts_blockEnd hend
      (beginsStatement_of_accepts_unfolded _ (accepts_statement_iff.1 ha))
  | cons u us ih =>
    rw [tokensOf_cons] at h
    obtain ⟨middle, hu, hus⟩ := Input.reaches_append_iff.1 h
    have hlt : middle.remaining.length < input.remaining.length := by
      obtain ⟨t, ts, ht⟩ := TextStatement.exists_tokens_eq_cons u
      rw [ht] at hu
      exact hu.length_lt
    exact .step (accepts_statement_of_reaches hu) hlt (ih hus)

theorem reaches_of_repeats_statement {input rest : Input} {es : List Located}
    {vs : List TextStatement} (h : Repeats Dialect.text.statement input es vs rest)
    (hes : es = []) :
    ∃ us, input.Reaches (tokensOf us) rest := by
  induction h with
  | stop => exact ⟨[], .nil _⟩
  | stuck h =>
    subst hes
    obtain ⟨u, hu⟩ := reaches_of_accepts_statement h
    exact ⟨[u], by simpa using hu⟩
  | step h _ _ ih =>
    obtain ⟨rfl, rfl⟩ := List.append_eq_nil_iff.1 hes
    obtain ⟨u, hu⟩ := reaches_of_accepts_statement h
    obtain ⟨us, hus⟩ := ih rfl
    exact ⟨u :: us, hu.append hus⟩

theorem accepts_template_iff {E L : Type} {dialect : Dialect E L} {input rest : Input}
    {es : List Located} {vs : List (Statement E L)} :
    dialect.template.Accepts input es vs rest ↔
      Repeats dialect.statement input es vs rest ∧ rest.remaining = [] := by
  simp only [Dialect.template, seqLeft, accepts_seqWith_iff, accepts_many_iff,
    accepts_endOfInput_iff]
  constructor
  · rintro ⟨es₁, _, middle, _, _, h, ⟨rfl, hr, rfl⟩, rfl, rfl⟩
    exact ⟨by simpa using h, hr⟩
  · rintro ⟨h, hr⟩
    exact ⟨es, vs, rest, [], (), h, ⟨rfl, hr, rfl⟩, by simp, rfl⟩

theorem accepts_template_nil_iff {input rest : Input} {vs : List TextStatement} :
    Dialect.text.template.Accepts input [] vs rest ↔
      rest.remaining = [] ∧ ∃ us, input.Reaches (tokensOf us) rest ∧ trimmedOf us = vs := by
  rw [accepts_template_iff]
  constructor
  · rintro ⟨h, hr⟩
    obtain ⟨us, hus⟩ := reaches_of_repeats_statement h rfl
    -- the same tokens are read as the trimmed template, and a parser has one result
    have hread := accepts_many_iff.2 (repeats_statement_of_reaches hus hr)
    exact ⟨hr, us, hus, (hread.unique (accepts_many_iff.2 h)).2.1⟩
  · rintro ⟨hr, us, hus, rfl⟩
    exact ⟨repeats_statement_of_reaches hus hr, hr⟩

end Parser

theorem tokens_ofSource (mode : Mode) (source : String) :
    (Input.ofSource mode source).tokens = tokens mode source :=
  rfl

theorem parseAs_eq_ok_iff {α : Type} {p : Parser α} {mode : Mode} {name : Option String}
    {source : String} {v : α} :
    parseAs p mode name source = .ok v ↔ ∃ rest, p.Accepts (.ofSource mode source) [] v rest := by
  rw [← Parser.run_eq_ok_iff, parseAs]
  split <;> simp_all

open TextStatement in
/-- A source parses to a template exactly if its tokens are the token form of a template that is
this one before its bodies are trimmed. -/
theorem parse_eq_ok_iff {source : String} {template : List TextStatement} :
    parse source = .ok template ↔
      ∃ us, tokens .text source = tokensOf us ∧ trimmedOf us = template := by
  rw [parse, Dialect.parse, parseAs_eq_ok_iff]
  simp only [Parser.accepts_template_nil_iff]
  constructor
  · rintro ⟨rest, hr, us, hus, rfl⟩
    refine ⟨us, ?_, rfl⟩
    have h := hus.tokens_eq
    rw [show Dialect.text.mode = .text from rfl, tokens_ofSource] at h
    simpa [Input.tokens, hr] using h
  · rintro ⟨us, hts, rfl⟩
    rw [← tokens_ofSource, ← List.append_nil (tokensOf us)] at hts
    obtain ⟨rest, hus, hr⟩ := Input.exists_reaches hts
    exact ⟨rest, by simpa [Input.tokens] using hr, us, hus, rfl⟩

end Stencil
