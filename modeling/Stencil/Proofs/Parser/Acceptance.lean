import Mathlib.Logic.Basic
import Stencil.Parser.Basic

/-!
# What parsers accept

The outcome of a parser holds more than what it accepts: alternatives and causes of rejections
are kept to be shown if parsing stops later. This module forgets them. `p.Accepts input es v rest`
says that `p` accepts `input` with the value `v`, leaves `rest` and has reported `es` on the way;
`p.Rejects input` says that it does not accept.

* Each combinator has one lemma that says what it accepts in terms of its parts, so that later
  proofs take parsers apart without looking at outcomes.
* `Input.Reaches` ties this to the tokens that were read.
* `Repeats` and `Separated` are the runs of the two loops.
-/

namespace Stencil

/-! ## Reading tokens off the input -/

namespace Input

/-- The tokens that are left. -/
def tokens (input : Input) : List Token :=
  input.remaining.map Lexeme.token

/-- `input.Reaches ts rest`: the tokens `ts` stand at the front of `input`, and `rest` is what
follows them. -/
inductive Reaches : Input → List Token → Input → Prop
  | nil (input : Input) : Reaches input [] input
  | cons {lexeme : Lexeme} {later : List Lexeme} {read size : Nat} {ts : List Token}
      {rest : Input} (h : Reaches ⟨later, read + 1, size⟩ ts rest) :
      Reaches ⟨lexeme :: later, read, size⟩ (lexeme.token :: ts) rest

theorem reaches_nil_iff {input rest : Input} : input.Reaches [] rest ↔ rest = input := by
  constructor
  · rintro ⟨⟩
    rfl
  · rintro rfl
    exact .nil _

theorem Reaches.append {input middle rest : Input} {ts us : List Token}
    (h : input.Reaches ts middle) (h' : middle.Reaches us rest) :
    input.Reaches (ts ++ us) rest := by
  induction h with
  | nil => exact h'
  | cons _ ih => exact .cons (ih h')

theorem reaches_append_iff {input rest : Input} {ts us : List Token} :
    input.Reaches (ts ++ us) rest ↔ ∃ middle, input.Reaches ts middle ∧ middle.Reaches us rest := by
  constructor
  · intro h
    induction ts generalizing input with
    | nil => exact ⟨input, .nil _, h⟩
    | cons t ts ih =>
      cases h with
      | cons h =>
        obtain ⟨middle, h₁, h₂⟩ := ih h
        exact ⟨middle, .cons h₁, h₂⟩
  · rintro ⟨middle, h₁, h₂⟩
    exact h₁.append h₂

theorem reaches_cons_iff {input rest : Input} {t : Token} {ts : List Token} :
    input.Reaches (t :: ts) rest ↔ ∃ middle, input.Reaches [t] middle ∧ middle.Reaches ts rest :=
  @reaches_append_iff input rest [t] ts

theorem Reaches.tokens_eq {input rest : Input} {ts : List Token} (h : input.Reaches ts rest) :
    input.tokens = ts ++ rest.tokens := by
  induction h with
  | nil => rfl
  | cons _ ih => exact congrArg (_ :: ·) ih

/-- Tokens at the front of the input can be read. -/
theorem exists_reaches {input : Input} {ts more : List Token} (h : input.tokens = ts ++ more) :
    ∃ rest, input.Reaches ts rest ∧ rest.tokens = more := by
  induction ts generalizing input with
  | nil => exact ⟨input, .nil _, h⟩
  | cons t ts ih =>
    obtain ⟨remaining, read, size⟩ := input
    cases remaining with
    | nil => simp [tokens] at h
    | cons lexeme later =>
      obtain ⟨rfl, htail⟩ := List.cons.inj h
      obtain ⟨rest, hr, hm⟩ := @ih ⟨later, read + 1, size⟩ htail
      exact ⟨rest, .cons hr, hm⟩

theorem Reaches.length_eq {input rest : Input} {ts : List Token} (h : input.Reaches ts rest) :
    input.remaining.length = ts.length + rest.remaining.length := by
  have h := congrArg List.length h.tokens_eq
  simpa only [tokens, List.length_map, List.length_append] using h

theorem Reaches.length_lt {input rest : Input} {t : Token} {ts : List Token}
    (h : input.Reaches (t :: ts) rest) : rest.remaining.length < input.remaining.length := by
  have := h.length_eq
  simp only [List.length_cons] at this
  omega

theorem Reaches.unique {input rest rest' : Input} {ts : List Token} (h : input.Reaches ts rest)
    (h' : input.Reaches ts rest') : rest = rest' := by
  induction h with
  | nil => exact (reaches_nil_iff.1 h').symm
  | cons _ ih =>
    cases h' with
    | cons h' => exact ih h'

/-- As many tokens at the front of the input are the same tokens. -/
theorem Reaches.eq_of_length_eq {input rest rest' : Input} {ts us : List Token}
    (h : input.Reaches ts rest) (h' : input.Reaches us rest') (hl : ts.length = us.length) :
    ts = us :=
  (List.append_inj (h.tokens_eq.symm.trans h'.tokens_eq) hl).1

theorem Reaches.head_unique {input rest rest' : Input} {t u : Token} {ts us : List Token}
    (h : input.Reaches (t :: ts) rest) (h' : input.Reaches (u :: us) rest') : t = u := by
  have e := h.tokens_eq.symm.trans h'.tokens_eq
  simpa using congrArg List.head? e

end Input

namespace Parser

variable {α β γ : Type}

/-! ## Acceptance and rejection -/

/-- The parser accepts `input` with a value, leaves `rest` and has reported `es`. -/
def Accepts (p : Parser α) (input : Input) (es : List Located) (value : α) (rest : Input) : Prop :=
  ∃ alternative, p input = ⟨es, .accepted value alternative rest⟩

/-- The parser does not accept `input`. -/
def Rejects (p : Parser α) (input : Input) : Prop :=
  ∀ es value rest, ¬ p.Accepts input es value rest

/-- The parser reports nothing, whether it accepts or not. -/
def Silent (p : Parser α) : Prop :=
  ∀ input, (p input).reported = []

theorem Accepts.unique {p : Parser α} {input rest rest' : Input} {es es' : List Located} {v w : α}
    (h : p.Accepts input es v rest) (h' : p.Accepts input es' w rest') :
    es = es' ∧ v = w ∧ rest = rest' := by
  obtain ⟨a, h⟩ := h
  obtain ⟨b, h'⟩ := h'
  rw [h] at h'
  cases h'
  exact ⟨rfl, rfl, rfl⟩

theorem accepts_of_eq {p : Parser α} {input rest : Input} {es : List Located} {v : α}
    {alternative : Option Located} (h : p input = ⟨es, .accepted v alternative rest⟩) :
    p.Accepts input es v rest :=
  ⟨alternative, h⟩

theorem rejects_of_eq {p : Parser α} {input : Input} {es : List Located} {cause : Located}
    (h : p input = ⟨es, .rejected cause⟩) : p.Rejects input := by
  rintro es' v rest ⟨a, h'⟩
  rw [h] at h'
  cases h'

/-- A parser accepts or rejects. -/
theorem accepts_or_rejects (p : Parser α) (input : Input) :
    (∃ es v rest, p.Accepts input es v rest) ∨ p.Rejects input := by
  rcases h : p input with ⟨es, ⟨v, a, rest⟩ | cause⟩
  · exact Or.inl ⟨es, v, rest, a, h⟩
  · exact Or.inr (rejects_of_eq h)

theorem Silent.reported_eq_nil {p : Parser α} (hp : p.Silent) {input rest : Input}
    {es : List Located} {v : α} (h : p.Accepts input es v rest) : es = [] := by
  obtain ⟨a, h⟩ := h
  have := hp input
  rwa [h] at this

/-! ## Single lexemes -/

theorem accepts_satisfy_iff {expected : List String} {f : Token → Option α} {input rest : Input}
    {es : List Located} {v : α} :
    (satisfy expected f).Accepts input es v rest ↔
      es = [] ∧ ∃ t, f t = some v ∧ input.Reaches [t] rest := by
  obtain ⟨remaining, read, size⟩ := input
  constructor
  · rintro ⟨a, h⟩
    cases remaining with
    | nil => simp [satisfy, Outcome.reject] at h
    | cons lexeme later =>
      simp only [satisfy] at h
      split at h
      · next value hf =>
        cases h
        exact ⟨rfl, lexeme.token, hf, .cons (.nil _)⟩
      · simp [Outcome.reject] at h
  · rintro ⟨rfl, t, hf, h⟩
    cases h with
    | cons h =>
      obtain rfl := Input.reaches_nil_iff.1 h
      exact ⟨none, by simp [satisfy, hf, Outcome.accept]⟩

theorem accepts_token_iff {expected : Token} {input rest : Input} {es : List Located} {v : Unit} :
    (token expected).Accepts input es v rest ↔ es = [] ∧ input.Reaches [expected] rest := by
  obtain ⟨remaining, read, size⟩ := input
  constructor
  · rintro ⟨a, h⟩
    cases remaining with
    | nil => simp [token, Outcome.reject] at h
    | cons lexeme later =>
      simp only [token] at h
      split at h
      · next ht =>
        cases h
        exact ⟨rfl, ht ▸ .cons (.nil _)⟩
      · simp [Outcome.reject] at h
  · rintro ⟨rfl, h⟩
    cases h with
    | cons h =>
      obtain rfl := Input.reaches_nil_iff.1 h
      exact ⟨none, by simp [token, Outcome.accept]⟩

theorem accepts_endOfInput_iff {input rest : Input} {es : List Located} {v : Unit} :
    endOfInput.Accepts input es v rest ↔ es = [] ∧ input.remaining = [] ∧ rest = input := by
  obtain ⟨remaining, read, size⟩ := input
  cases remaining with
  | nil =>
    simp only [Accepts, endOfInput, Outcome.accept, Outcome.mk.injEq, Reply.accepted.injEq,
      true_and]
    exact ⟨fun ⟨_, h, _, h'⟩ => ⟨h.symm, h'.symm⟩, fun ⟨h, h'⟩ => ⟨none, h.symm, rfl, h'.symm⟩⟩
  | cons lexeme later => simp [Accepts, endOfInput, Outcome.reject]

theorem silent_satisfy (expected : List String) (f : Token → Option α) :
    (satisfy expected f).Silent := by
  intro input
  unfold satisfy
  split
  · rfl
  · split <;> rfl

theorem silent_token (expected : Token) : (token expected).Silent := by
  intro input
  unfold token
  split
  · rfl
  · split <;> rfl

theorem silent_endOfInput : endOfInput.Silent := by
  intro input
  unfold endOfInput
  split <;> rfl

/-! ## Changing outcomes -/

theorem accepts_map_iff {f : α → β} {p : Parser α} {input rest : Input} {es : List Located}
    {v : β} : (p.map f).Accepts input es v rest ↔ ∃ a, p.Accepts input es a rest ∧ f a = v := by
  unfold Accepts map
  rcases p input with ⟨es', ⟨a, alternative, rest'⟩ | cause⟩
  · simp only [Outcome.mk.injEq, Reply.accepted.injEq]
    grind
  · simp

theorem Rejects.map {f : α → β} {p : Parser α} {input : Input} (h : p.Rejects input) :
    (p.map f).Rejects input := by
  intro es v rest ha
  obtain ⟨a, ha, -⟩ := accepts_map_iff.1 ha
  exact h _ _ _ ha

theorem accepts_mapFault_iff {f : Fault → Fault} {p : Parser α} {input rest : Input}
    {es : List Located} {v : α} :
    (p.mapFault f).Accepts input es v rest ↔ p.Accepts input es v rest := by
  unfold Accepts mapFault
  rcases p input with ⟨es', ⟨a, alternative, rest'⟩ | cause⟩ <;> simp

theorem accepts_labelled_iff {label : String} {p : Parser α} {input rest : Input}
    {es : List Located} {v : α} :
    (p.labelled label).Accepts input es v rest ↔
      ∃ es', p.Accepts input es' v rest ∧ es'.map (·.map (.withLabel label)) = es := by
  unfold Accepts labelled
  rcases p input with ⟨es', ⟨a, alternative, rest'⟩ | cause⟩
  · simp only [Outcome.mk.injEq, Reply.accepted.injEq]
    grind
  · simp

theorem accepts_withRange_iff {p : Parser α} {input rest : Input} {es : List Located}
    {v : α × ByteRange} :
    p.withRange.Accepts input es v rest ↔
      ∃ a, p.Accepts input es a rest ∧ (a, input.rangeTo rest) = v := by
  unfold Accepts withRange
  rcases p input with ⟨es', ⟨a, alternative, rest'⟩ | cause⟩
  · simp only [Outcome.mk.injEq, Reply.accepted.injEq]
    grind
  · simp

theorem accepts_check_iff {f : α → List Fault} {p : Parser α} {input rest : Input}
    {es : List Located} {v : α} :
    (p.check f).Accepts input es v rest ↔
      ∃ es', p.Accepts input es' v rest ∧ es' ++ (f v).map (⟨rest.read, ·⟩) = es := by
  unfold Accepts check
  rcases p input with ⟨es', ⟨a, alternative, rest'⟩ | cause⟩
  · simp only [Outcome.mk.injEq, Reply.accepted.injEq]
    grind
  · simp

theorem accepts_lookAhead_iff {p : Parser α} {input rest : Input} {es : List Located} {v : α} :
    p.lookAhead.Accepts input es v rest ↔ (∃ later, p.Accepts input es v later) ∧ rest = input := by
  unfold Accepts lookAhead
  rcases p input with ⟨es', ⟨a, alternative, rest'⟩ | cause⟩
  · simp only [Outcome.mk.injEq, Reply.accepted.injEq]
    grind
  · simp

/-! ## Sequence -/

theorem accepts_seqWith_iff {f : α → β → γ} {p : Parser α} {q : Parser β} {input rest : Input}
    {es : List Located} {v : γ} :
    (seqWith f p q).Accepts input es v rest ↔
      ∃ es₁ a middle es₂ b, p.Accepts input es₁ a middle ∧ q.Accepts middle es₂ b rest ∧
        es₁ ++ es₂ = es ∧ f a b = v := by
  constructor
  · rintro ⟨alternative, h⟩
    unfold seqWith at h
    split at h
    · simp at h
    · next hp =>
      split at h
      · next hq =>
        cases h
        exact ⟨_, _, _, _, _, ⟨_, hp⟩, ⟨_, hq⟩, rfl, rfl⟩
      · simp at h
  · rintro ⟨es₁, a, middle, es₂, b, ⟨_, hp⟩, ⟨_, hq⟩, rfl, rfl⟩
    exact ⟨_, by simp only [seqWith, hp, hq]; rfl⟩

theorem silent_map {f : α → β} {p : Parser α} (hp : p.Silent) : (p.map f).Silent := by
  intro input
  have h := hp input
  unfold map
  split <;> simp_all

theorem silent_withRange {p : Parser α} (hp : p.Silent) : p.withRange.Silent := by
  intro input
  have h := hp input
  unfold withRange
  split <;> simp_all

theorem silent_lookAhead {p : Parser α} (hp : p.Silent) : p.lookAhead.Silent := by
  intro input
  have h := hp input
  unfold lookAhead
  split <;> simp_all

theorem silent_seqWith {f : α → β → γ} {p : Parser α} {q : Parser β} (hp : p.Silent)
    (hq : q.Silent) : (seqWith f p q).Silent := by
  intro input
  have h := hp input
  unfold seqWith
  split
  · simp_all
  · next middle hm =>
    have h' := hq middle
    split <;> simp_all

theorem silent_between {first last : Token} {p : Parser α} (hp : p.Silent) :
    (between first last p).Silent :=
  silent_seqWith (silent_seqWith (silent_token _) hp) (silent_token _)

theorem accepts_between_iff {first last : Token} {p : Parser α} {input rest : Input}
    {es : List Located} {v : α} :
    (between first last p).Accepts input es v rest ↔
      ∃ inner after, input.Reaches [first] inner ∧ p.Accepts inner es v after ∧
        after.Reaches [last] rest := by
  unfold between seqLeft seqRight
  simp only [accepts_seqWith_iff, accepts_token_iff]
  constructor
  · rintro ⟨_, _, after, _, _, ⟨_, _, inner, es₂, b, ⟨rfl, h₁⟩, h₂, rfl, rfl⟩, ⟨rfl, h₃⟩, rfl, rfl⟩
    exact ⟨inner, after, h₁, by simpa using h₂, h₃⟩
  · rintro ⟨inner, after, h₁, h₂, h₃⟩
    exact ⟨es, v, after, [], (), ⟨[], (), inner, es, v, ⟨rfl, h₁⟩, h₂, rfl, rfl⟩, ⟨rfl, h₃⟩,
      by simp, rfl⟩

/-! ## Choice -/

/-- A silent parser is clean as soon as it accepts. -/
theorem isClean_eq_true_iff {p : Parser α} (hp : p.Silent) {input : Input} :
    (p input).isClean = true ↔ ¬ p.Rejects input := by
  have h := hp input
  rcases e : p input with ⟨es, ⟨v, alternative, rest⟩ | cause⟩
  · rw [e] at h
    obtain rfl : es = [] := h
    simp only [Outcome.isClean, true_iff]
    exact fun hr => hr _ _ _ ⟨_, e⟩
  · simp only [Outcome.isClean, Bool.false_eq_true, false_iff, not_not]
    exact rejects_of_eq e

theorem orElse_eq_of_not_rejects {p q : Parser α} (hp : p.Silent) {input : Input}
    (h : ¬ p.Rejects input) : p.orElse q input = p input := by
  simp [orElse, (isClean_eq_true_iff hp).2 h]

/-- Two rejections give a rejection. -/
theorem choose_rejected (es es' : List Located) (cause cause' : Located) :
    ∃ es'' cause'', Outcome.choose (α := α) ⟨es, .rejected cause⟩ ⟨es', .rejected cause'⟩ =
      ⟨es'', .rejected cause''⟩ := by
  unfold Outcome.choose
  split <;> exact ⟨_, _, rfl⟩

/-- After a rejection, what the second parser accepts is accepted with all that it reports. -/
theorem accepts_orElse_of_rejects {p q : Parser α} {input rest : Input} {es : List Located}
    {v : α} (h : p.Rejects input) :
    (p.orElse q).Accepts input es v rest ↔ q.Accepts input es v rest := by
  rcases ep : p input with ⟨esp, ⟨w, a, r⟩ | cause⟩
  · exact absurd ⟨a, ep⟩ (h _ _ _)
  · rcases eq : q input with ⟨esq, ⟨w, a, r⟩ | cause'⟩
    · -- the second parser accepts: it is kept whether it is clean or not
      cases esq with
      | nil => simp [Accepts, orElse, ep, eq, Outcome.isClean]
      | cons e esq =>
        simp [Accepts, orElse, ep, eq, Outcome.isClean, Outcome.choose, Outcome.prefersFirst,
          Outcome.chosenOver]
    · obtain ⟨es'', cause'', hc⟩ := choose_rejected (α := α) esp esq cause cause'
      simp [Accepts, orElse, ep, eq, Outcome.isClean, hc]

/-- If the first parser is silent, the choice is ordered: the second one counts only where the
first rejects. -/
theorem accepts_orElse_iff {p q : Parser α} (hp : p.Silent) {input rest : Input}
    {es : List Located} {v : α} :
    (p.orElse q).Accepts input es v rest ↔
      p.Accepts input es v rest ∨ (p.Rejects input ∧ q.Accepts input es v rest) := by
  by_cases h : p.Rejects input
  · rw [accepts_orElse_of_rejects h]
    exact ⟨fun hq => Or.inr ⟨h, hq⟩, fun ho => ho.elim (fun ha => absurd ha (h _ _ _)) And.right⟩
  · have e := orElse_eq_of_not_rejects (q := q) hp h
    simp [Accepts, e, h]

theorem chosenOver_reported (chosen other : Outcome α) :
    (chosen.chosenOver other).reported = chosen.reported := by
  unfold Outcome.chosenOver
  split <;> rfl

theorem choose_reported {a b : Outcome α} (ha : a.reported = []) (hb : b.reported = []) :
    (a.choose b).reported = [] := by
  unfold Outcome.choose
  split
  · rw [chosenOver_reported, ha]
  · rw [chosenOver_reported, hb]
  · split <;> simp_all

theorem silent_orElse {p q : Parser α} (hp : p.Silent) (hq : q.Silent) : (p.orElse q).Silent := by
  intro input
  simp only [orElse]
  split
  · exact hp input
  · split
    · exact hq input
    · exact choose_reported (hp input) (hq input)

theorem chosenOver_eq_accepted {chosen other : Outcome α} {es : List Located} {v : α}
    {alternative : Option Located} {rest : Input}
    (h : chosen.chosenOver other = ⟨es, .accepted v alternative rest⟩) :
    ∃ alternative', chosen = ⟨es, .accepted v alternative' rest⟩ := by
  unfold Outcome.chosenOver at h
  split at h
  · cases h
    exact ⟨_, rfl⟩
  · exact ⟨_, h⟩

/-- Of two outcomes the chosen one is accepted with all that it reports. -/
theorem choose_eq_accepted {a b : Outcome α} {es : List Located} {v : α}
    {alternative : Option Located} {rest : Input}
    (h : a.choose b = ⟨es, .accepted v alternative rest⟩) :
    ∃ alternative', a = ⟨es, .accepted v alternative' rest⟩ ∨
      b = ⟨es, .accepted v alternative' rest⟩ := by
  unfold Outcome.choose at h
  split at h
  · obtain ⟨alternative', ha⟩ := chosenOver_eq_accepted h
    exact ⟨alternative', .inl ha⟩
  · obtain ⟨alternative', hb⟩ := chosenOver_eq_accepted h
    exact ⟨alternative', .inr hb⟩
  · split at h
    · cases h
    · exact ⟨alternative, .inl h⟩

/-- A choice accepts what one of the two parsers accepts, with all that this one reports. -/
theorem accepts_or_of_accepts_orElse {p q : Parser α} {input rest : Input} {es : List Located}
    {v : α} (h : (p.orElse q).Accepts input es v rest) :
    p.Accepts input es v rest ∨ q.Accepts input es v rest := by
  obtain ⟨alternative, h⟩ := h
  simp only [orElse] at h
  split at h
  · exact .inl ⟨alternative, h⟩
  split at h
  · exact .inr ⟨alternative, h⟩
  · obtain ⟨alternative', h | h⟩ := choose_eq_accepted h
    · exact .inl ⟨alternative', h⟩
    · exact .inr ⟨alternative', h⟩

theorem isClean_iff {outcome : Outcome α} :
    outcome.isClean = true ↔
      ∃ v alternative rest, outcome = ⟨[], .accepted v alternative rest⟩ := by
  rcases outcome with ⟨_ | ⟨e, es⟩, ⟨v, alternative, rest⟩ | cause⟩ <;> simp [Outcome.isClean]

/-- Without a report the choice is ordered: the second parser counts only where the first accepts
nothing without a report. -/
theorem accepts_orElse_nil_iff {p q : Parser α} {input rest : Input} {v : α} :
    (p.orElse q).Accepts input [] v rest ↔
      p.Accepts input [] v rest ∨
        ((∀ w rest', ¬ p.Accepts input [] w rest') ∧ q.Accepts input [] v rest) := by
  by_cases hp : (p input).isClean = true
  · have heq : p.orElse q input = p input := by simp [orElse, hp]
    obtain ⟨w, alternative, rest', hw⟩ := isClean_iff.1 hp
    simp only [Accepts, heq]
    constructor
    · exact .inl
    · rintro (h | ⟨hnone, -⟩)
      · exact h
      · exact absurd ⟨alternative, hw⟩ (hnone w rest')
  · have hnone : ∀ w rest', ¬ p.Accepts input [] w rest' := by
      rintro w rest' ⟨alternative, hw⟩
      exact hp (isClean_iff.2 ⟨w, alternative, rest', hw⟩)
    constructor
    · intro h
      rcases accepts_or_of_accepts_orElse h with h | h
      · exact absurd h (hnone _ _)
      · exact .inr ⟨hnone, h⟩
    · rintro (h | ⟨-, alternative, h⟩)
      · exact absurd h (hnone _ _)
      · have hq : (q input).isClean = true := isClean_iff.2 ⟨v, alternative, rest, h⟩
        have heq : p.orElse q input = q input := by simp [orElse, hp, hq]
        exact ⟨alternative, heq.trans h⟩

/-- What is kept of the parsers tried before does not change what is accepted. -/
theorem accepts_firstOfAfter_iff {given : Option Located} {ps : List (Parser α)}
    {input rest : Input} {es : List Located} {v : α} :
    (firstOfAfter given ps).Accepts input es v rest ↔ (firstOf ps).Accepts input es v rest := by
  unfold firstOf
  generalize none = other
  induction ps generalizing given other with
  | nil => simp [Accepts, firstOfAfter]
  | cons p ps ih =>
    rcases ep : p input with ⟨es', ⟨w, a, r⟩ | cause⟩
    · simp only [Accepts, firstOfAfter, ep]
    · simp only [Accepts, firstOfAfter, ep]
      exact ih _

theorem not_accepts_firstOf_nil {input rest : Input} {es : List Located} {v : α} :
    ¬ (firstOf []).Accepts input es v rest := by
  simp [Accepts, firstOf, firstOfAfter]

/-- The first parser that accepts is taken, whatever it reports. -/
theorem accepts_firstOf_cons_iff {p : Parser α} {ps : List (Parser α)} {input rest : Input}
    {es : List Located} {v : α} :
    (firstOf (p :: ps)).Accepts input es v rest ↔
      p.Accepts input es v rest ∨ (p.Rejects input ∧ (firstOf ps).Accepts input es v rest) := by
  rcases ep : p input with ⟨es', ⟨w, a, r⟩ | cause⟩
  · have hp : ¬ p.Rejects input := fun h => h _ _ _ ⟨_, ep⟩
    simp [Accepts, firstOf, firstOfAfter, ep, hp]
  · have hp := rejects_of_eq ep
    have he : (firstOf (p :: ps)).Accepts input es v rest ↔
        (firstOfAfter (Located.join none (some cause)) ps).Accepts input es v rest := by
      simp only [Accepts, firstOf, firstOfAfter, ep]
    rw [he, accepts_firstOfAfter_iff]
    exact ⟨fun h => Or.inr ⟨hp, h⟩, fun h => h.elim (fun ha => absurd ha (hp _ _ _)) And.right⟩

theorem accepts_optional_iff {p : Parser α} {input rest : Input} {es : List Located}
    {v : Option α} :
    p.optional.Accepts input es v rest ↔
      (∃ a, p.Accepts input es a rest ∧ some a = v) ∨
        (p.Rejects input ∧ es = [] ∧ v = none ∧ rest = input) := by
  rcases ep : p input with ⟨es', ⟨w, a, r⟩ | cause⟩
  · have hp : ¬ p.Rejects input := fun h => h _ _ _ ⟨_, ep⟩
    simp only [Accepts, optional, ep, Outcome.mk.injEq, Reply.accepted.injEq, hp]
    grind
  · have hp := rejects_of_eq ep
    simp only [Accepts, optional, ep, Outcome.mk.injEq, Reply.accepted.injEq, hp]
    grind

/-! ## Repetition -/

/-- A run of the loop of `many`: it stops where the parser rejects, and also after an item for
which nothing was read. -/
inductive Repeats (p : Parser α) : Input → List Located → List α → Input → Prop
  | stop {input : Input} (h : p.Rejects input) : Repeats p input [] [] input
  | stuck {input rest : Input} {es : List Located} {v : α} (h : p.Accepts input es v rest)
      (hle : input.remaining.length ≤ rest.remaining.length) : Repeats p input es [v] rest
  | step {input middle rest : Input} {es es' : List Located} {v : α} {vs : List α}
      (h : p.Accepts input es v middle)
      (hlt : middle.remaining.length < input.remaining.length)
      (later : Repeats p middle es' vs rest) : Repeats p input (es ++ es') (v :: vs) rest

theorem cons_reported (outcome : Outcome (List α)) (v : α) :
    (outcome.cons v).reported = outcome.reported := by
  unfold Outcome.cons
  split <;> rfl

/-- One more item in front of what the rest of a loop accepts. -/
theorem cons_after_eq_accepted_iff {outcome : Outcome (List α)} {v : α} {vs : List α}
    {before es : List Located} {alternative : Option Located} {rest : Input} :
    (outcome.cons v).after before = ⟨es, .accepted vs alternative rest⟩ ↔
      ∃ es' ws, outcome = ⟨es', .accepted ws alternative rest⟩ ∧ before ++ es' = es ∧
        v :: ws = vs := by
  rcases outcome with ⟨es', ⟨ws, a, r⟩ | cause⟩
  · simp only [Outcome.cons, Outcome.after, Outcome.mk.injEq, Reply.accepted.injEq]
    grind
  · simp [Outcome.cons, Outcome.after]

theorem accepts_manyAfter_iff {p : Parser α} {given : Option Located} {input rest : Input}
    {es : List Located} {vs : List α} :
    Accepts (manyAfter p given) input es vs rest ↔ Repeats p input es vs rest := by
  constructor
  · rintro ⟨alternative, h⟩
    fun_induction manyAfter p given input generalizing es vs with
    | case1 given input reported cause hp =>
      cases h
      exact .stop (rejects_of_eq hp)
    | case2 given input reported v a middle hp hlt ih =>
      obtain ⟨es', ws, hm, rfl, rfl⟩ := cons_after_eq_accepted_iff.1 h
      exact .step (accepts_of_eq hp) hlt (ih hm)
    | case3 given input reported v a middle hp hle =>
      cases h
      exact .stuck (accepts_of_eq hp) (Nat.le_of_not_lt hle)
  · intro h
    induction h generalizing given with
    | @stop input h =>
      rcases ep : p input with ⟨es', ⟨w, a, r⟩ | cause⟩
      · exact absurd ⟨a, ep⟩ (h _ _ _)
      · exact ⟨_, by rw [manyAfter, ep]⟩
    | stuck h hle =>
      obtain ⟨a, ep⟩ := h
      exact ⟨_, by rw [manyAfter, ep]; exact if_neg (Nat.not_lt.2 hle)⟩
    | step h hlt _ ih =>
      obtain ⟨a, ep⟩ := h
      obtain ⟨a', em⟩ := @ih (Located.join given a)
      refine ⟨a', ?_⟩
      rw [manyAfter, ep]
      simp only [if_pos hlt]
      exact cons_after_eq_accepted_iff.2 ⟨_, _, em, rfl, rfl⟩

theorem accepts_many_iff {p : Parser α} {input rest : Input} {es : List Located} {vs : List α} :
    p.many.Accepts input es vs rest ↔ Repeats p input es vs rest :=
  accepts_manyAfter_iff

theorem manyAfter_reported {p : Parser α} (hp : p.Silent) (given : Option Located)
    (input : Input) : (manyAfter p given input).reported = [] := by
  fun_induction manyAfter p given input with
  | case1 => rfl
  | case2 given input es v a middle e _ ih =>
    have hes : es = [] := by simpa [e] using hp input
    simp [Outcome.after, cons_reported, hes, ih]
  | case3 given input es v a middle e _ =>
    have hes : es = [] := by simpa [e] using hp input
    simp [hes]

theorem silent_many {p : Parser α} (hp : p.Silent) : p.many.Silent :=
  manyAfter_reported hp none

/-- What follows an item of a separated list: more items, each after a separator, up to where
the separator or the next item is missing. -/
inductive Follows (p : Parser α) (separator : Parser Unit) : Input → List α → Input → Prop
  | noSeparator {input : Input} (h : separator.Rejects input) : Follows p separator input [] input
  | noItem {input middle : Input} (h : separator.Accepts input [] () middle)
      (hp : p.Rejects middle) : Follows p separator input [] input
  | stuck {input middle rest : Input} {v : α} (h : separator.Accepts input [] () middle)
      (hp : p.Accepts middle [] v rest)
      (hle : input.remaining.length ≤ rest.remaining.length) : Follows p separator input [v] rest
  | step {input middle next rest : Input} {v : α} {vs : List α}
      (h : separator.Accepts input [] () middle) (hp : p.Accepts middle [] v next)
      (hlt : next.remaining.length < input.remaining.length)
      (later : Follows p separator next vs rest) : Follows p separator input (v :: vs) rest

section Separated

variable {p : Parser α} {separator : Parser Unit} (hp : p.Silent) (hs : separator.Silent)

include hp hs

theorem accepts_moreAfter_iff {given : Option Located} {input rest : Input} {es : List Located}
    {vs : List α} :
    Accepts (moreAfter p separator given) input es vs rest ↔
      es = [] ∧ Follows p separator input vs rest := by
  constructor
  · rintro ⟨alternative, h⟩
    fun_induction moreAfter p separator given input generalizing es vs with
    | case1 given input reported cause e =>
      cases h
      exact ⟨rfl, .noSeparator (rejects_of_eq e)⟩
    | case2 given input es₁ u a middle e _ es₂ cause =>
      rename_i e'
      obtain rfl : es₁ = [] := by simpa [e] using hs input
      obtain rfl : es₂ = [] := by simpa [e'] using hp middle
      cases h
      exact ⟨rfl, .noItem (accepts_of_eq e) (rejects_of_eq e')⟩
    | case3 given input es₁ u a middle e _ es₂ v a' next e' hlt =>
      rename_i ih
      obtain rfl : es₁ = [] := by simpa [e] using hs input
      obtain rfl : es₂ = [] := by simpa [e'] using hp middle
      obtain ⟨es', ws, hm, rfl, rfl⟩ := cons_after_eq_accepted_iff.1 h
      obtain ⟨rfl, later⟩ := ih hm
      exact ⟨rfl, .step (accepts_of_eq e) (accepts_of_eq e') hlt later⟩
    | case4 given input es₁ u a middle e _ es₂ v a' next e' =>
      rename_i hle
      obtain rfl : es₁ = [] := by simpa [e] using hs input
      obtain rfl : es₂ = [] := by simpa [e'] using hp middle
      cases h
      exact ⟨rfl, .stuck (accepts_of_eq e) (accepts_of_eq e') (Nat.le_of_not_lt hle)⟩
  · rintro ⟨rfl, h⟩
    induction h generalizing given with
    | @noSeparator input h =>
      rcases e : separator input with ⟨es', ⟨w, a, r⟩ | cause⟩
      · exact absurd ⟨a, e⟩ (h _ _ _)
      · exact ⟨_, by rw [moreAfter, e]⟩
    | @noItem input middle h h' =>
      obtain ⟨a, e⟩ := h
      have hes := hp middle
      rcases e' : p middle with ⟨es', ⟨w, a, r⟩ | cause⟩
      · exact absurd ⟨a, e'⟩ (h' _ _ _)
      · obtain rfl : es' = [] := by simpa [e'] using hes
        exact ⟨_, by simp only [moreAfter, e, e']; rfl⟩
    | stuck h h' hle =>
      obtain ⟨a, e⟩ := h
      obtain ⟨a', e'⟩ := h'
      exact ⟨_, by rw [moreAfter, e]; simp only [e']; exact if_neg (Nat.not_lt.2 hle)⟩
    | step h h' hlt _ ih =>
      obtain ⟨a, e⟩ := h
      obtain ⟨a', e'⟩ := h'
      obtain ⟨b, em⟩ := @ih (Located.join (Located.join given a) a')
      refine ⟨b, ?_⟩
      rw [moreAfter, e]
      simp only [e', if_pos hlt]
      exact cons_after_eq_accepted_iff.2 ⟨_, _, em, rfl, rfl⟩

theorem moreAfter_reported (given : Option Located) (input : Input) :
    (moreAfter p separator given input).reported = [] := by
  fun_induction moreAfter p separator given input with
  | case1 => rfl
  | case2 given input es₁ u a middle e _ es₂ cause =>
    rename_i e'
    have h₁ : es₁ = [] := by simpa [e] using hs input
    have h₂ : es₂ = [] := by simpa [e'] using hp middle
    simp [h₁, h₂]
  | case3 given input es₁ u a middle e _ es₂ v a' next e' hlt =>
    rename_i ih
    have h₁ : es₁ = [] := by simpa [e] using hs input
    have h₂ : es₂ = [] := by simpa [e'] using hp middle
    simp [Outcome.after, cons_reported, h₁, h₂, ih]
  | case4 given input es₁ u a middle e _ es₂ v a' next e' =>
    have h₁ : es₁ = [] := by simpa [e] using hs input
    have h₂ : es₂ = [] := by simpa [e'] using hp middle
    simp [h₁, h₂]

theorem silent_sepBy : (p.sepBy separator).Silent := by
  intro input
  have h := hp input
  unfold sepBy
  split
  · simp_all
  · next es v a rest e =>
    have he : es = [] := by simpa [e] using h
    simp [Outcome.after, cons_reported, he, moreAfter_reported hp hs]

/-- A separated list: nothing, or an item and what follows it. -/
theorem accepts_sepBy_iff {input rest : Input} {es : List Located} {vs : List α} :
    (p.sepBy separator).Accepts input es vs rest ↔
      es = [] ∧ ((p.Rejects input ∧ vs = [] ∧ rest = input) ∨
        ∃ v middle ws, p.Accepts input [] v middle ∧ Follows p separator middle ws rest ∧
          v :: ws = vs) := by
  have hes := hp input
  rcases e : p input with ⟨es', ⟨v, a, middle⟩ | cause⟩
  · obtain rfl : es' = [] := by simpa [e] using hes
    have hr : ¬ p.Rejects input := fun h => h _ _ _ ⟨_, e⟩
    constructor
    · rintro ⟨alternative, h⟩
      simp only [sepBy, e] at h
      obtain ⟨es', ws, hm, rfl, rfl⟩ := cons_after_eq_accepted_iff.1 h
      obtain ⟨rfl, later⟩ := (accepts_moreAfter_iff hp hs).1 (accepts_of_eq hm)
      exact ⟨rfl, Or.inr ⟨v, middle, ws, accepts_of_eq e, later, rfl⟩⟩
    · rintro ⟨rfl, ⟨h, -⟩ | ⟨w, middle', ws, hw, later, rfl⟩⟩
      · exact absurd h hr
      · obtain ⟨-, rfl, rfl⟩ := hw.unique (accepts_of_eq e)
        have hm : Accepts (moreAfter p separator a) middle' [] ws rest :=
          (accepts_moreAfter_iff hp hs).2 ⟨rfl, later⟩
        obtain ⟨b, em⟩ := hm
        exact ⟨b, by simp only [sepBy, e]; exact cons_after_eq_accepted_iff.2 ⟨_, _, em, rfl, rfl⟩⟩
  · obtain rfl : es' = [] := by simpa [e] using hes
    have hr := rejects_of_eq e
    constructor
    · rintro ⟨alternative, h⟩
      simp only [sepBy, e] at h
      cases h
      exact ⟨rfl, Or.inl ⟨hr, rfl, rfl⟩⟩
    · rintro ⟨rfl, ⟨-, rfl, rfl⟩ | ⟨w, middle', ws, hw, -, -⟩⟩
      · exact ⟨_, by simp only [sepBy, e]; rfl⟩
      · exact absurd hw (hr _ _ _)

end Separated

/-! ## Recursion -/

theorem accepts_recursive_iff {step : Parser α → Parser α} {input rest : Input}
    {es : List Located} {v : α} :
    (recursive step).Accepts input es v rest ↔
      (unfolded step (input.remaining.length + 1)).Accepts input es v rest :=
  Iff.rfl

theorem silent_unfolded {step : Parser α → Parser α}
    (h : ∀ {p : Parser α}, p.Silent → (step p).Silent) (depth : Nat) :
    (unfolded step depth).Silent := by
  induction depth with
  | zero => exact fun _ => rfl
  | succ depth ih => exact h ih

/-! ## Running a parser -/

/-- A run succeeds exactly if the parser accepts and has reported nothing. -/
theorem run_eq_ok_iff {p : Parser α} {input : Input} {v : α} :
    p.run input = .ok v ↔ ∃ rest, p.Accepts input [] v rest := by
  unfold run Accepts
  rcases p input with ⟨_ | ⟨e, es⟩, ⟨w, a, r⟩ | cause⟩
  · simp only [Except.ok.injEq, Outcome.mk.injEq, Reply.accepted.injEq, true_and]
    grind
  all_goals simp

end Parser

end Stencil
