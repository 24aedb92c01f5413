import Stencil.Dialect
import Stencil.Proofs.Parser.Acceptance
import Stencil.Proofs.Template.TokenForm

/-!
# Parsers that read exactly a token form

A parser is exact for a token form if it accepts a value exactly where the tokens of the value
stand at the front of the input, and then reads these tokens and reports nothing. Exactness
passes through sequences, and it holds of the parsers of patterns, expressions and headers.

* `Exact.seq`, `Exact.seqLeft`, `Exact.seqRight`, `Exact.between`: exact parts, one after the
  other, are exact.
* `exact_pattern`: the parser of patterns is exact, at any depth of nesting.
-/

namespace Stencil.Parser

variable {α β : Type}

/-- The parser accepts a value exactly where its tokens stand, and reports nothing. -/
def Exact (p : Parser α) (form : α → List Token) : Prop :=
  ∀ input es v rest, p.Accepts input es v rest ↔ es = [] ∧ input.Reaches (form v) rest

/-- An exact parser rejects an input that begins with a token none of its values begins with. -/
theorem Exact.rejects {p : Parser α} {form : α → List Token} (hp : p.Exact form) {input : Input}
    (h : ∀ v rest, ¬ input.Reaches (form v) rest) : p.Rejects input := by
  intro es v rest ha
  exact h v rest ((hp input es v rest).1 ha).2

theorem Exact.congr {p : Parser α} {f g : α → List Token} (hp : p.Exact f) (h : ∀ v, f v = g v) :
    p.Exact g :=
  fun input es v rest => h v ▸ hp input es v rest

theorem Exact.seq {p : Parser α} {q : Parser β} {f : α → List Token} {g : β → List Token}
    (hp : p.Exact f) (hq : q.Exact g) : (p.seq q).Exact fun v => f v.1 ++ g v.2 := by
  rintro input es ⟨a, b⟩ rest
  simp only [Parser.seq, accepts_seqWith_iff, hp _ _ _ _, hq _ _ _ _, Input.reaches_append_iff]
  constructor
  · rintro ⟨_, _, middle, _, _, ⟨rfl, h₁⟩, ⟨rfl, h₂⟩, rfl, hv⟩
    cases hv
    exact ⟨rfl, middle, h₁, h₂⟩
  · rintro ⟨rfl, middle, h₁, h₂⟩
    exact ⟨[], a, middle, [], b, ⟨rfl, h₁⟩, ⟨rfl, h₂⟩, rfl, rfl⟩

theorem Exact.seqLeft {p : Parser α} {f : α → List Token} (hp : p.Exact f) (t : Token) :
    (p.seqLeft (token t)).Exact fun v => f v ++ [t] := by
  intro input es v rest
  simp only [Parser.seqLeft, accepts_seqWith_iff, hp _ _ _ _, accepts_token_iff,
    Input.reaches_append_iff]
  constructor
  · rintro ⟨_, _, middle, _, _, ⟨rfl, h₁⟩, ⟨rfl, h₂⟩, rfl, rfl⟩
    exact ⟨rfl, middle, h₁, h₂⟩
  · rintro ⟨rfl, middle, h₁, h₂⟩
    exact ⟨[], v, middle, [], (), ⟨rfl, h₁⟩, ⟨rfl, h₂⟩, rfl, rfl⟩

theorem Exact.seqRight {p : Parser α} {f : α → List Token} (hp : p.Exact f) (t : Token) :
    ((token t).seqRight p).Exact fun v => t :: f v := by
  intro input es v rest
  rw [Input.reaches_cons_iff]
  simp only [Parser.seqRight, accepts_seqWith_iff, hp _ _ _ _, accepts_token_iff]
  constructor
  · rintro ⟨_, _, middle, _, _, ⟨rfl, h₁⟩, ⟨rfl, h₂⟩, rfl, rfl⟩
    exact ⟨rfl, middle, h₁, h₂⟩
  · rintro ⟨rfl, middle, h₁, h₂⟩
    exact ⟨[], (), middle, [], v, ⟨rfl, h₁⟩, ⟨rfl, h₂⟩, rfl, rfl⟩

theorem Exact.between {p : Parser α} {f : α → List Token} (hp : p.Exact f) (first last : Token) :
    (p.between first last).Exact fun v => first :: (f v ++ [last]) := by
  intro input es v rest
  rw [Input.reaches_cons_iff]
  simp only [accepts_between_iff, hp _ _ _ _, Input.reaches_append_iff]
  constructor
  · rintro ⟨inner, after, h₁, ⟨rfl, h₂⟩, h₃⟩
    exact ⟨rfl, inner, h₁, after, h₂, h₃⟩
  · rintro ⟨rfl, inner, h₁, after, h₂, h₃⟩
    exact ⟨inner, after, h₁, ⟨rfl, h₂⟩, h₃⟩

theorem Exact.mapFault {p : Parser α} {f : α → List Token} (hp : p.Exact f)
    (change : Fault → Fault) : (p.mapFault change).Exact f :=
  fun input es v rest => accepts_mapFault_iff.trans (hp input es v rest)

theorem Exact.labelled {p : Parser α} {f : α → List Token} (hp : p.Exact f) (label : String) :
    (p.labelled label).Exact f := by
  intro input es v rest
  simp only [accepts_labelled_iff, hp _ _ _ _]
  constructor
  · rintro ⟨_, ⟨rfl, h⟩, rfl⟩
    exact ⟨rfl, h⟩
  · rintro ⟨rfl, h⟩
    exact ⟨[], ⟨rfl, h⟩, rfl⟩

/-! ## Expressions -/

theorem exact_textExpression : Dialect.textExpression.Exact fun e => [e.token] := by
  apply Exact.labelled
  intro input es e rest
  rw [accepts_satisfy_iff]
  constructor
  · rintro ⟨rfl, t, ht, h⟩
    refine ⟨rfl, ?_⟩
    split at ht <;> simp at ht <;> subst ht <;> exact h
  · rintro ⟨rfl, h⟩
    exact ⟨rfl, e.token, by cases e with | reference => rfl | literal l => cases l <;> rfl, h⟩

/-! ## Patterns -/

/-- One level of a pattern: a name, or a tuple of what `inner` reads. -/
def patternStep (inner : Parser Pattern) : Parser Pattern :=
  boundName.orElse (tuple inner)

theorem silent_boundName : boundName.Silent :=
  silent_satisfy _ _

theorem accepts_boundName_iff {input rest : Input} {es : List Located} {v : Pattern} :
    boundName.Accepts input es v rest ↔
      es = [] ∧ ∃ name, v = .var name ∧ input.Reaches [.identifier name] rest := by
  rw [boundName, accepts_satisfy_iff]
  constructor
  · rintro ⟨rfl, t, ht, h⟩
    split at ht <;> simp at ht
    subst ht
    exact ⟨rfl, _, rfl, h⟩
  · rintro ⟨rfl, name, rfl, h⟩
    exact ⟨rfl, _, rfl, h⟩

theorem silent_patternStep {inner : Parser Pattern} (hi : inner.Silent) :
    (patternStep inner).Silent :=
  silent_orElse silent_boundName
    (silent_map (silent_between (silent_sepBy hi (silent_token _))))

theorem silent_unfolded_patternStep (depth : Nat) : (unfolded patternStep depth).Silent :=
  silent_unfolded silent_patternStep depth

theorem accepts_patternStep_iff {inner : Parser Pattern} {input rest : Input} {es : List Located}
    {v : Pattern} :
    (patternStep inner).Accepts input es v rest ↔
      boundName.Accepts input es v rest ∨
        ∃ elements first last, input.Reaches [.openParen] first ∧
          (inner.sepBy (token .comma)).Accepts first es elements last ∧
          last.Reaches [.closeParen] rest ∧ .tuple elements = v := by
  rw [patternStep, accepts_orElse_iff silent_boundName, tuple, accepts_map_iff]
  simp only [accepts_between_iff]
  constructor
  · rintro (h | ⟨-, elements, ⟨first, last, h₁, h₂, h₃⟩, rfl⟩)
    · exact Or.inl h
    · exact Or.inr ⟨elements, first, last, h₁, h₂, h₃, rfl⟩
  · rintro (h | ⟨elements, first, last, h₁, h₂, h₃, rfl⟩)
    · exact Or.inl h
    · refine Or.inr ⟨?_, elements, ⟨first, last, h₁, h₂, h₃⟩, rfl⟩
      intro es' v' rest' hb
      obtain ⟨-, name, -, hn⟩ := accepts_boundName_iff.1 hb
      cases h₁.head_unique hn

theorem reaches_of_follows {inner : Parser Pattern}
    (hi : ∀ {input v rest}, inner.Accepts input [] v rest → input.Reaches v.tokens rest)
    {input rest : Input} {vs : List Pattern} (h : Follows inner (token .comma) input vs rest) :
    input.Reaches (Pattern.tokensOf false vs) rest := by
  induction h with
  | noSeparator => exact .nil _
  | noItem => exact .nil _
  | stuck h hp =>
    have := (accepts_token_iff.1 h).2.append (hi hp)
    simpa [Pattern.tokensOf] using this
  | step h hp _ _ ih => exact (accepts_token_iff.1 h).2.append ((hi hp).append ih)

/-- A tuple's elements, up to its closing parenthesis, are read as a separated list. -/
theorem follows_of_reaches {inner : Parser Pattern} {vs : List Pattern}
    (hi : ∀ v ∈ vs, ∀ input rest, input.Reaches v.tokens rest → inner.Accepts input [] v rest)
    {input last rest : Input} (h : input.Reaches (Pattern.tokensOf false vs) last)
    (hc : last.Reaches [.closeParen] rest) : Follows inner (token .comma) input vs last := by
  induction vs generalizing input with
  | nil =>
    obtain rfl := Input.reaches_nil_iff.1 h
    refine .noSeparator fun es v rest' hs => ?_
    cases hc.head_unique (accepts_token_iff.1 hs).2
  | cons v vs ih =>
    rw [Pattern.tokensOf_false_cons] at h
    obtain ⟨middle, h₁, h₂⟩ := Input.reaches_cons_iff.1 h
    obtain ⟨next, h₂, h₃⟩ := Input.reaches_append_iff.1 h₂
    have hlt := (h₁.append h₂).length_lt
    exact .step (accepts_token_iff.2 ⟨rfl, h₁⟩) (hi v (by simp) _ _ h₂) hlt
      (ih (fun w hw => hi w (by simp [hw])) h₃)

theorem reaches_of_accepts_unfolded (depth : Nat) {input rest : Input} {es : List Located}
    {v : Pattern} (h : (unfolded patternStep depth).Accepts input es v rest) :
    input.Reaches v.tokens rest := by
  induction depth generalizing input es v rest with
  | zero => simp [Accepts, unfolded, Outcome.reject] at h
  | succ depth ih =>
    have hs := silent_unfolded_patternStep depth
    rcases accepts_patternStep_iff.1 h with h | ⟨elements, first, last, h₁, h₂, h₃, rfl⟩
    · obtain ⟨-, name, rfl, hr⟩ := accepts_boundName_iff.1 h
      exact hr
    · refine h₁.append (.append ?_ h₃)
      rcases ((accepts_sepBy_iff hs (silent_token _)).1 h₂).2 with
        ⟨-, rfl, rfl⟩ | ⟨v, middle, ws, hv, hws, rfl⟩
      · exact .nil _
      · exact (ih hv).append (reaches_of_follows (fun h => ih h) hws)

theorem length_tokens_le_of_mem {v : Pattern} {vs : List Pattern} (h : v ∈ vs) (first : Bool) :
    v.tokens.length ≤ (Pattern.tokensOf first vs).length := by
  induction vs generalizing first with
  | nil => simp at h
  | cons w vs ih =>
    simp only [Pattern.tokensOf, List.length_append]
    rcases List.mem_cons.1 h with rfl | h
    · omega
    · have := ih h false
      omega

theorem accepts_unfolded_of_reaches (depth : Nat) {input rest : Input} {v : Pattern}
    (hd : v.tokens.length ≤ depth) (h : input.Reaches v.tokens rest) :
    (unfolded patternStep depth).Accepts input [] v rest := by
  induction depth generalizing input v rest with
  | zero =>
    obtain ⟨t, ts, ht⟩ := v.exists_tokens_eq_cons
    simp [ht] at hd
  | succ depth ih =>
    refine accepts_patternStep_iff.2 ?_
    cases v with
    | var name => exact Or.inl (accepts_boundName_iff.2 ⟨rfl, name, rfl, h⟩)
    | tuple elements =>
      right
      obtain ⟨first, h₁, h₂⟩ := Input.reaches_cons_iff.1 h
      obtain ⟨last, h₂, h₃⟩ := Input.reaches_append_iff.1 h₂
      have hi : ∀ w ∈ elements, ∀ input rest, input.Reaches w.tokens rest →
          (unfolded patternStep depth).Accepts input [] w rest := by
        intro w hw input rest hr
        have := length_tokens_le_of_mem hw true
        simp only [Pattern.tokens, List.length_cons, List.length_append] at hd
        exact ih (by omega) hr
      refine ⟨elements, first, last, h₁, ?_, h₃, rfl⟩
      refine (accepts_sepBy_iff (silent_unfolded_patternStep depth) (silent_token _)).2 ⟨rfl, ?_⟩
      cases elements with
      | nil =>
        obtain rfl := Input.reaches_nil_iff.1 h₂
        refine Or.inl ⟨fun es v rest' hv => ?_, rfl, rfl⟩
        have hr := reaches_of_accepts_unfolded depth hv
        cases v with
        | var name => cases h₃.head_unique hr
        | tuple vs => cases h₃.head_unique hr
      | cons w ws =>
        rw [Pattern.tokensOf_true_cons] at h₂
        obtain ⟨middle, hw, hws⟩ := Input.reaches_append_iff.1 h₂
        exact Or.inr ⟨w, middle, ws, hi w (by simp) _ _ hw,
          follows_of_reaches (fun u hu => hi u (by simp [hu])) hws h₃, rfl⟩

theorem exact_nestedPattern : nestedPattern.Exact Pattern.tokens := by
  intro input es v rest
  change (recursive patternStep).Accepts input es v rest ↔ _
  rw [accepts_recursive_iff]
  constructor
  · intro h
    exact ⟨(silent_unfolded_patternStep _).reported_eq_nil h, reaches_of_accepts_unfolded _ h⟩
  · rintro ⟨rfl, h⟩
    refine accepts_unfolded_of_reaches _ ?_ h
    have := h.length_eq
    omega

/-- The parser of patterns reads exactly the token form of a pattern. -/
theorem exact_pattern : pattern.Exact Pattern.tokens :=
  (exact_nestedPattern.mapFault _).labelled _

end Stencil.Parser
