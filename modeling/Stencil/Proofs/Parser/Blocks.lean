import Stencil.Proofs.Parser.Exact

/-!
# What directives accept

The parsers of blocks and directives, over any parsers of expressions and statements. A block is
its opening directive, its body and what ends it; the body is a run of the loop over `bodyItem`,
behind at most one run of spaces and tabs.

* `accepts_blockEnd_iff`, `accepts_blockBody_iff`, `accepts_block_iff`: the parts of a block;
  `accepts_block_nil_iff` is the case in which nothing is reported.
* `accepts_directive_iff_cases`: a directive is an interpolation, a loop or a joined loop; the
  first two tokens tell which. `accepts_directive_iff` is the case of exact expressions.
-/

namespace Stencil.Parser

variable {E L S H : Type}

/-! ## Headers -/

theorem exact_forHeader {expression : Parser E} {form : E → List Token}
    (he : expression.Exact form) :
    (forHeader expression).Exact fun h => .keyword .for_ :: forInTokens h.1 (form h.2) :=
  (((exact_pattern.seqRight _).seqLeft _).seq he).congr fun h => by simp [forInTokens]

theorem exact_joinHeader {expression : Parser E} {form : E → List Token}
    (he : expression.Exact form) :
    (joinHeader expression).Exact fun h =>
      .keyword .join :: joinTokens h.1.1 (form h.1.2) (form h.2) :=
  (((((exact_pattern.seqRight _).seqLeft _).seq he).seqLeft _).seq he).congr fun h => by
    simp [joinTokens]

/-- The header of a loop begins with its opening keyword. -/
theorem reaches_of_accepts_forHeader {expression : Parser E} {input rest : Input}
    {es : List Located} {h : Pattern × E} (ha : (forHeader expression).Accepts input es h rest) :
    ∃ middle, input.Reaches [.keyword .for_] middle := by
  simp only [forHeader, seq, seqLeft, seqRight, keyword, accepts_seqWith_iff,
    accepts_token_iff] at ha
  obtain ⟨_, _, _, _, _, ⟨_, _, _, _, _, ⟨_, _, middle, _, _, ⟨-, h⟩, -⟩, -⟩, -⟩ := ha
  exact ⟨middle, h⟩

/-- The header of a joined loop begins with its opening keyword. -/
theorem reaches_of_accepts_joinHeader {expression : Parser E} {input rest : Input}
    {es : List Located} {h : (Pattern × E) × E}
    (ha : (joinHeader expression).Accepts input es h rest) :
    ∃ middle, input.Reaches [.keyword .join] middle := by
  simp only [joinHeader, seq, seqLeft, seqRight, keyword, accepts_seqWith_iff,
    accepts_token_iff] at ha
  obtain ⟨_, _, _, _, _, ⟨_, _, _, _, _, ⟨_, _, _, _, _, ⟨_, _, _, _, _, ⟨_, _, middle, _, _,
    ⟨-, h⟩, -⟩, -⟩, -⟩, -⟩, -⟩ := ha
  exact ⟨middle, h⟩

/-! ## The end of a block -/

theorem isEnd_closing (construct : Construct) : construct.closing.isEnd = true := by
  cases construct <;> rfl

theorem accepts_endKeyword_iff {input rest : Input} {es : List Located} {word : Keyword} :
    endKeyword.Accepts input es word rest ↔
      es = [] ∧ word.isEnd = true ∧ input.Reaches [.keyword word] rest := by
  rw [endKeyword, accepts_satisfy_iff]
  constructor
  · rintro ⟨rfl, t, ht, h⟩
    split at ht
    · next w =>
      split at ht
      · next hw =>
        cases ht
        exact ⟨rfl, hw, h⟩
      · cases ht
    · cases ht
  · rintro ⟨rfl, hw, h⟩
    exact ⟨rfl, _, by simp [hw], h⟩

theorem silent_endDirective :
    ((endKeyword.between .openStatement .closeStatement).withRange.map
      fun (word, range) => BlockEnd.directive word range).Silent :=
  silent_map (silent_withRange (silent_between (silent_satisfy _ _)))

theorem silent_blockEnd : blockEnd.Silent :=
  silent_orElse silent_endDirective (silent_map (silent_withRange silent_endOfInput))

theorem accepts_endDirective_iff {input rest : Input} {es : List Located} {ending : BlockEnd} :
    ((endKeyword.between .openStatement .closeStatement).withRange.map
      fun (word, range) => BlockEnd.directive word range).Accepts input es ending rest ↔
      es = [] ∧ ∃ word, word.isEnd = true ∧ input.Reaches (endTokens word) rest ∧
        .directive word (input.rangeTo rest) = ending := by
  simp only [accepts_map_iff, accepts_withRange_iff, accepts_between_iff, accepts_endKeyword_iff]
  constructor
  · rintro ⟨_, ⟨word, ⟨inner, after, h₁, ⟨rfl, hw, h₂⟩, h₃⟩, rfl⟩, rfl⟩
    exact ⟨rfl, word, hw, h₁.append (h₂.append h₃), rfl⟩
  · rintro ⟨rfl, word, hw, h, rfl⟩
    obtain ⟨inner, h₁, h⟩ := Input.reaches_cons_iff.1 h
    obtain ⟨after, h₂, h₃⟩ := Input.reaches_cons_iff.1 h
    exact ⟨_, ⟨word, ⟨inner, after, h₁, ⟨rfl, hw, h₂⟩, h₃⟩, rfl⟩, rfl⟩

theorem accepts_blockEnd_iff {input rest : Input} {es : List Located} {ending : BlockEnd} :
    blockEnd.Accepts input es ending rest ↔
      es = [] ∧ ((∃ word, word.isEnd = true ∧ input.Reaches (endTokens word) rest ∧
          .directive word (input.rangeTo rest) = ending) ∨
        (input.remaining = [] ∧ rest = input ∧ .endOfInput input.endRange = ending)) := by
  rw [blockEnd, accepts_orElse_iff silent_endDirective, accepts_endDirective_iff]
  simp only [accepts_map_iff, accepts_withRange_iff, accepts_endOfInput_iff]
  constructor
  · rintro (⟨rfl, h⟩ | ⟨-, _, ⟨_, ⟨rfl, hr, rfl⟩, rfl⟩, rfl⟩)
    · exact ⟨rfl, Or.inl h⟩
    · exact ⟨rfl, Or.inr ⟨hr, rfl, by simp [Input.rangeTo, hr]⟩⟩
  · rintro ⟨rfl, h | ⟨hr, rfl, rfl⟩⟩
    · exact Or.inl ⟨rfl, h⟩
    · refine Or.inr ⟨?_, _, ⟨(), ⟨rfl, hr, rfl⟩, rfl⟩, by simp [Input.rangeTo, hr]⟩
      -- no directive stands at the end of input
      intro es' ending' rest' hd
      obtain ⟨-, word, -, h, -⟩ := accepts_endDirective_iff.1 hd
      have := h.length_lt
      simp [hr] at this

/-! ## The body of a block -/

theorem accepts_padding_iff {input rest : Input} {es : List Located} {v : Unit} :
    padding.Accepts input es v rest ↔
      es = [] ∧ ∃ content, isPadding content = true ∧ input.Reaches [.text content] rest := by
  rw [padding, accepts_satisfy_iff]
  constructor
  · rintro ⟨rfl, t, ht, h⟩
    split at ht
    · next content =>
      split at ht
      · next hc => exact ⟨rfl, content, hc, h⟩
      · cases ht
    · cases ht
  · rintro ⟨rfl, content, hc, h⟩
    exact ⟨rfl, _, by simp [hc], h⟩

/-- Reads spaces and tabs that the end of the block follows. -/
def trailing : Parser (Option S) :=
  (padding.seqLeft blockEnd.lookAhead).map fun _ => none

/-- Reads an item of a body: a statement, or else the spaces and tabs before the end. -/
def bodyItem (statement : Parser S) : Parser (Option S) :=
  trailing.orElse (statement.map some)

theorem silent_trailing : (trailing : Parser (Option S)).Silent :=
  silent_map (silent_seqWith (silent_satisfy _ _) (silent_lookAhead silent_blockEnd))

theorem accepts_trailing_iff {input rest : Input} {es : List Located} {v : Option S} :
    trailing.Accepts input es v rest ↔
      es = [] ∧ v = none ∧ ∃ content, isPadding content = true ∧
        input.Reaches [.text content] rest ∧ ¬ blockEnd.Rejects rest := by
  simp only [trailing, seqLeft, accepts_map_iff, accepts_seqWith_iff, accepts_padding_iff,
    accepts_lookAhead_iff]
  constructor
  · rintro ⟨_, ⟨_, _, middle, _, ending, ⟨rfl, content, hc, h⟩, ⟨⟨later, hb⟩, rfl⟩, rfl, -⟩, rfl⟩
    obtain rfl := silent_blockEnd.reported_eq_nil hb
    exact ⟨rfl, rfl, content, hc, h, fun hr => hr _ _ _ hb⟩
  · rintro ⟨rfl, rfl, content, hc, h, hb⟩
    rcases accepts_or_rejects blockEnd rest with ⟨es, ending, later, ha⟩ | hr
    · obtain rfl := silent_blockEnd.reported_eq_nil ha
      refine ⟨(), ?_, rfl⟩
      exact ⟨[], (), rest, [], ending, ⟨rfl, content, hc, h⟩, ⟨⟨later, ha⟩, rfl⟩, rfl, trivial⟩
    · exact absurd hr hb

theorem accepts_bodyItem_iff {statement : Parser S} {input rest : Input} {es : List Located}
    {v : Option S} :
    (bodyItem statement).Accepts input es v rest ↔
      trailing.Accepts input es v rest ∨
        ((trailing : Parser (Option S)).Rejects input ∧
          ∃ s, statement.Accepts input es s rest ∧ some s = v) := by
  rw [bodyItem, accepts_orElse_iff silent_trailing, accepts_map_iff]

/-- The input behind a run of spaces and tabs, if it begins with one. -/
def SkipsPadding (input rest : Input) : Prop :=
  (∃ content, isPadding content = true ∧ input.Reaches [.text content] rest) ∨
    (padding.Rejects input ∧ rest = input)

theorem accepts_blockBody_iff {statement : Parser S} {input rest : Input} {es : List Located}
    {body : List S} :
    (blockBody statement).Accepts input es body rest ↔
      ∃ start items, SkipsPadding input start ∧ Repeats (bodyItem statement) start es items rest ∧
        items.filterMap id = body := by
  change ((padding.optional.seqRight (bodyItem statement).many).map _).Accepts _ _ _ _ ↔ _
  simp only [seqRight, accepts_map_iff, accepts_seqWith_iff, accepts_optional_iff,
    accepts_many_iff, accepts_padding_iff]
  constructor
  · rintro ⟨_, ⟨es₁, _, start, es₂, items, h₁, h₂, rfl, rfl⟩, rfl⟩
    rcases h₁ with ⟨_, ⟨rfl, content, hc, h⟩, -⟩ | ⟨hr, rfl, -, rfl⟩
    · exact ⟨start, items, Or.inl ⟨content, hc, h⟩, h₂, rfl⟩
    · exact ⟨start, items, Or.inr ⟨hr, rfl⟩, h₂, rfl⟩
  · rintro ⟨start, items, ⟨content, hc, h⟩ | ⟨hr, rfl⟩, h₂, rfl⟩
    · refine ⟨items, ?_, rfl⟩
      exact ⟨[], _, start, es, items, Or.inl ⟨(), ⟨rfl, content, hc, h⟩, rfl⟩, h₂, rfl, rfl⟩
    · exact ⟨items, ⟨[], _, start, es, items, Or.inr ⟨hr, rfl, rfl, rfl⟩, h₂, rfl, rfl⟩, rfl⟩

/-! ## Blocks and directives -/

/-- A block is its opening directive, its body and its end, whatever parser reads the header. -/
theorem accepts_block_iff {construct : Construct} {header : Parser H}
    {statement : Parser S} {input rest : Input} {es : List Located} {h : H} {body : List S} :
    (block construct header statement).Accepts input es (h, body) rest ↔
      ∃ first last es₁ es₂ ending,
        (header.between .openStatement .closeStatement).Accepts input es₁ h first ∧
        (blockBody statement).Accepts first es₂ body last ∧ blockEnd.Accepts last [] ending rest ∧
        es₁ ++ es₂ ++
          (ending.faults construct (input.rangeTo first)).map (⟨rest.read, ·⟩) = es := by
  simp only [block, seq, accepts_map_iff, accepts_check_iff, accepts_seqWith_iff,
    accepts_withRange_iff]
  constructor
  · rintro ⟨_, ⟨_, ⟨es₁, _, last, es₂, ending, ⟨es₃, _, first, es₄, _, ⟨_, h₁, rfl⟩, h₂, rfl,
      rfl⟩, h₃, rfl, rfl⟩, rfl⟩, hv⟩
    cases hv
    obtain rfl := silent_blockEnd.reported_eq_nil h₃
    exact ⟨first, last, es₃, es₄, ending, h₁, h₂, h₃, by simp⟩
  · rintro ⟨first, last, es₁, es₂, ending, h₁, h₂, h₃, rfl⟩
    exact ⟨(((h, input.rangeTo first), body), ending), ⟨_, ⟨es₁ ++ es₂, _, last, [], ending,
      ⟨es₁, _, first, es₂, body, ⟨h, h₁, rfl⟩, h₂, rfl, rfl⟩, h₃, rfl, rfl⟩, by simp⟩, rfl⟩

/-- A block is read without a report if its own end directive closes it. -/
theorem accepts_block_nil_iff {construct : Construct} {header : Parser H} {statement : Parser S}
    {input rest : Input} {h : H} {body : List S} :
    (block construct header statement).Accepts input [] (h, body) rest ↔
      ∃ first last, (header.between .openStatement .closeStatement).Accepts input [] h first ∧
        (blockBody statement).Accepts first [] body last ∧
        last.Reaches (endTokens construct.closing) rest := by
  rw [accepts_block_iff]
  constructor
  · rintro ⟨first, last, es₁, es₂, ending, h₁, h₂, h₃, hes⟩
    simp only [List.append_eq_nil_iff, List.map_eq_nil_iff] at hes
    obtain ⟨⟨rfl, rfl⟩, hfaults⟩ := hes
    obtain ⟨-, ⟨word, -, hend, rfl⟩ | ⟨-, -, rfl⟩⟩ := accepts_blockEnd_iff.1 h₃
    · obtain rfl : word = construct.closing :=
        Decidable.byContradiction fun hne => by simp [BlockEnd.faults, hne] at hfaults
      exact ⟨first, last, h₁, h₂, hend⟩
    · simp [BlockEnd.faults] at hfaults
  · rintro ⟨first, last, h₁, h₂, hend⟩
    have h₃ : blockEnd.Accepts last [] (.directive construct.closing (last.rangeTo rest)) rest :=
      accepts_blockEnd_iff.2 ⟨rfl, Or.inl ⟨_, isEnd_closing construct, hend, rfl⟩⟩
    exact ⟨first, last, [], [], _, h₁, h₂, h₃, by simp [BlockEnd.faults]⟩

theorem reaches_opening_of_accepts_block {construct : Construct} {header : Parser H}
    (hh : ∀ {input es h rest}, header.Accepts input es h rest →
      ∃ middle, input.Reaches [.keyword construct.opening] middle)
    {statement : Parser S} {input rest : Input} {es : List Located} {v : H × List S}
    (h : (block construct header statement).Accepts input es v rest) :
    ∃ middle, input.Reaches [.openStatement, .keyword construct.opening] middle := by
  obtain ⟨first, last, es₁, es₂, ending, h₁, -⟩ := accepts_block_iff.1 h
  obtain ⟨inner, after, hopen, hheader, -⟩ := accepts_between_iff.1 h₁
  obtain ⟨middle, hword⟩ := hh hheader
  exact ⟨middle, hopen.append hword⟩

section Directives

variable {expression : Parser E} {statement : Parser (Statement E L)}

/-- A directive is an interpolation, a loop or a joined loop, whatever parser reads
expressions. -/
theorem accepts_directive_iff_cases {input rest : Input} {es : List Located}
    {v : Statement E L} :
    (directive expression statement).Accepts input es v rest ↔
      (∃ e, (interpolation expression).Accepts input es e rest ∧ .interpolation e = v) ∨
      (∃ h body, (block .forIn (forHeader expression) statement).Accepts input es (h, body) rest ∧
        .forIn h.1 h.2 body = v) ∨
      (∃ h body, (block .join (joinHeader expression) statement).Accepts input es (h, body) rest ∧
        .join h.1.1 h.1.2 h.2 body = v) := by
  simp only [directive, accepts_firstOf_cons_iff, not_accepts_firstOf_nil]
  constructor
  · rintro (h | ⟨-, h | ⟨-, h | ⟨-, ⟨⟩⟩⟩⟩)
    · exact Or.inl (accepts_map_iff.1 h)
    · obtain ⟨⟨header, body⟩, hb, rfl⟩ := accepts_map_iff.1 h
      exact Or.inr (Or.inl ⟨header, body, hb, rfl⟩)
    · obtain ⟨⟨header, body⟩, hb, rfl⟩ := accepts_map_iff.1 h
      exact Or.inr (Or.inr ⟨header, body, hb, rfl⟩)
  · -- the alternatives are told apart by the first token, and loops by the second
    have rejects_interpolation : ∀ {t middle}, input.Reaches (.openStatement :: t) middle →
        (interpolation expression).Rejects input := by
      intro t middle h es' e rest' hi
      obtain ⟨_, _, hopen, -⟩ := accepts_between_iff.1 hi
      cases h.head_unique hopen
    rintro (⟨e, he, rfl⟩ | ⟨h, body, hb, rfl⟩ | ⟨h, body, hb, rfl⟩)
    · exact Or.inl (accepts_map_iff.2 ⟨e, he, rfl⟩)
    · obtain ⟨middle, hm⟩ := reaches_opening_of_accepts_block reaches_of_accepts_forHeader hb
      exact Or.inr ⟨(rejects_interpolation hm).map,
        Or.inl (accepts_map_iff.2 ⟨(h, body), hb, rfl⟩)⟩
    · obtain ⟨middle, hm⟩ := reaches_opening_of_accepts_block reaches_of_accepts_joinHeader hb
      refine Or.inr ⟨(rejects_interpolation hm).map, Or.inr ⟨Rejects.map ?_,
        Or.inl (accepts_map_iff.2 ⟨(h, body), hb, rfl⟩)⟩⟩
      intro es' v' rest' hb'
      obtain ⟨middle', hm'⟩ := reaches_opening_of_accepts_block reaches_of_accepts_forHeader hb'
      cases hm.eq_of_length_eq hm' rfl

/-- With an exact parser of expressions, an interpolation is its tokens. -/
theorem accepts_directive_iff {form : E → List Token} (he : expression.Exact form)
    {input rest : Input} {es : List Located} {v : Statement E L} :
    (directive expression statement).Accepts input es v rest ↔
      (∃ e, es = [] ∧ input.Reaches (.openExpression :: (form e ++ [.closeExpression])) rest ∧
        .interpolation e = v) ∨
      (∃ h body, (block .forIn (forHeader expression) statement).Accepts input es (h, body) rest ∧
        .forIn h.1 h.2 body = v) ∨
      (∃ h body, (block .join (joinHeader expression) statement).Accepts input es (h, body) rest ∧
        .join h.1.1 h.1.2 h.2 body = v) := by
  have hi := he.between .openExpression .closeExpression
  simp only [accepts_directive_iff_cases, interpolation, hi _ _ _ _, and_assoc]

/-- A directive begins with the bracket of an interpolation, or with that of a block and the
keyword that opens it. -/
theorem reaches_of_accepts_directive {input rest : Input} {es : List Located} {v : Statement E L}
    (h : (directive expression statement).Accepts input es v rest) :
    (∃ middle, input.Reaches [.openExpression] middle) ∨
      ∃ construct middle,
        input.Reaches [.openStatement, .keyword (Construct.opening construct)] middle := by
  rcases accepts_directive_iff_cases.1 h with ⟨e, hi, -⟩ | ⟨h, body, hb, -⟩ | ⟨h, body, hb, -⟩
  · obtain ⟨middle, _, hopen, -⟩ := accepts_between_iff.1 hi
    exact Or.inl ⟨middle, hopen⟩
  · exact Or.inr ⟨.forIn, reaches_opening_of_accepts_block reaches_of_accepts_forHeader hb⟩
  · exact Or.inr ⟨.join, reaches_opening_of_accepts_block reaches_of_accepts_joinHeader hb⟩

end Directives

end Stencil.Parser
