import Stencil.Proofs.Parser.Blocks

/-!
# Parsers that read code

An exact parser stops where the token form of its value ends, whatever follows. A parser with a
greedy loop, or with an ordered choice in which one alternative begins like another, does so only
if what follows cannot go on with it: `p.Reads bound valid form barred` says that `p` reads the
token forms of valid values where none of the `barred` tokens follows, in code of fewer than
`bound` lexemes. Code holds no raw text, so the bodies of blocks in it are plain loops.

* `Reads.seq`, `Reads.between`, `Reads.map`, `Reads.orElse`, `Reads.sepBy_between`: how it passes
  through combinators.
* `Reads.repeats_iff`: a run of the loop over such a parser.
* `reads_recursive`: a grammar that refers to itself reads what one level of it reads; the bound
  on the length of the input is what the induction is on.
* `Reads.directive`: directives over such parsers of expressions and statements.
-/

namespace Stencil

namespace Input

/-- Code of fewer than `bound` lexemes. -/
structure ShortCode (bound : Nat) (input : Input) : Prop where
  isText_eq_false : ∀ t ∈ input.tokens, t.isText = false
  length_lt : input.remaining.length < bound

/-- None of the tokens stands at the front of the input. -/
def Avoids (barred : List Token) (input : Input) : Prop :=
  ∀ t ∈ barred, ∀ rest, ¬ input.Reaches [t] rest

variable {input rest : Input} {bound : Nat} {t : Token} {ts barred : List Token}

theorem ShortCode.mono {larger : Nat} (h : input.ShortCode bound) (hle : bound ≤ larger) :
    input.ShortCode larger :=
  ⟨h.isText_eq_false, Nat.lt_of_lt_of_le h.length_lt hle⟩

theorem ShortCode.of_reaches (h : input.ShortCode bound) (hr : input.Reaches ts rest) :
    rest.ShortCode bound := by
  have htokens := hr.tokens_eq
  have hlength := congrArg List.length htokens
  simp only [tokens, List.length_map, List.length_append] at hlength
  refine ⟨fun t ht => h.isText_eq_false t (by simp [htokens, ht]), ?_⟩
  have := h.length_lt
  omega

/-- Behind a token the code is shorter. -/
theorem ShortCode.of_reaches_cons (h : input.ShortCode (bound + 1))
    (hr : input.Reaches (t :: ts) rest) : rest.ShortCode bound := by
  have hlt := hr.length_lt
  have := h.length_lt
  exact ⟨(h.of_reaches hr).isText_eq_false, by omega⟩

theorem ShortCode.not_reaches_text (h : input.ShortCode bound) (content : String) :
    ¬ input.Reaches [.text content] rest := by
  intro hr
  have := h.isText_eq_false (.text content) (by simp [hr.tokens_eq])
  cases this

theorem avoids_nil (input : Input) : input.Avoids [] :=
  fun _ ht => absurd ht (List.not_mem_nil)

theorem avoids_of_reaches (hr : input.Reaches (t :: ts) rest) (ht : t ∉ barred) :
    input.Avoids barred := by
  intro u hu rest' hr'
  exact ht (hr.head_unique hr' ▸ hu)

theorem avoids_of_remaining_eq_nil (h : input.remaining = []) : input.Avoids barred := by
  intro u _ rest' hr
  have := hr.length_lt
  simp [h] at this

end Input

namespace Parser

variable {α β E L H : Type}

/-- In code of fewer than `bound` lexemes, what the parser accepts without a report is a valid
value whose tokens stand there; and where the tokens of a valid value stand, it is accepted if no
barred token follows. -/
structure Reads (p : Parser α) (bound : Nat) (valid : α → Prop) (form : α → List Token)
    (barred : List Token) : Prop where
  sound : ∀ {input v rest}, input.ShortCode bound → p.Accepts input [] v rest →
    valid v ∧ input.Reaches (form v) rest
  complete : ∀ {input v rest}, input.ShortCode bound → valid v → input.Reaches (form v) rest →
    rest.Avoids barred → p.Accepts input [] v rest

variable {p : Parser α} {q : Parser β} {bound : Nat} {valid : α → Prop} {valid' : β → Prop}
  {form : α → List Token} {form' : β → List Token} {barred barred' : List Token}

theorem Exact.reads (hp : p.Exact form) (bound : Nat) :
    p.Reads bound (fun _ => True) form [] where
  sound _ h := ⟨trivial, ((hp _ _ _ _).1 h).2⟩
  complete _ _ h _ := (hp _ _ _ _).2 ⟨rfl, h⟩

theorem Reads.mono (hp : p.Reads bound valid form barred) {smaller : Nat}
    (hle : smaller ≤ bound) : p.Reads smaller valid form barred where
  sound hinput h := hp.sound (hinput.mono hle) h
  complete hinput hv h hrest := hp.complete (hinput.mono hle) hv h hrest

theorem Reads.bar (hp : p.Reads bound valid form barred) (h : barred ⊆ barred') :
    p.Reads bound valid form barred' where
  sound := hp.sound
  complete hinput hv hr hrest := hp.complete hinput hv hr fun t ht => hrest t (h ht)

theorem Reads.congr {valid₂ : α → Prop} {form₂ : α → List Token}
    (hp : p.Reads bound valid form barred) (hv : ∀ v, valid v ↔ valid₂ v)
    (hf : ∀ v, valid v → form v = form₂ v) : p.Reads bound valid₂ form₂ barred where
  sound := by
    intro input v rest hinput ha
    obtain ⟨h, hr⟩ := hp.sound hinput ha
    exact ⟨(hv v).1 h, hf v h ▸ hr⟩
  complete := by
    intro input v rest hinput h hr hrest
    have h := (hv v).2 h
    exact hp.complete hinput h (hf v h ▸ hr) hrest

/-- Where no valid value stands, a silent parser rejects. -/
theorem Reads.rejects (hp : p.Reads bound valid form barred) (hsilent : p.Silent) {input : Input}
    (hinput : input.ShortCode bound)
    (h : ∀ v rest, valid v → ¬ input.Reaches (form v) rest) : p.Rejects input := by
  intro es v rest ha
  obtain rfl := hsilent.reported_eq_nil ha
  obtain ⟨hv, hr⟩ := hp.sound hinput ha
  exact h v rest hv hr

/-! ## Sequence -/

theorem Reads.seq (hp : p.Reads bound valid form [])
    (hq : q.Reads bound valid' form' barred) :
    (p.seq q).Reads bound (fun v => valid v.1 ∧ valid' v.2) (fun v => form v.1 ++ form' v.2)
      barred where
  sound := by
    rintro input ⟨a, b⟩ rest hinput h
    obtain ⟨es₁, a, middle, es₂, b, ha, hb, hes, heq⟩ := accepts_seqWith_iff.1 h
    obtain ⟨rfl, rfl⟩ := List.append_eq_nil_iff.1 hes
    cases heq
    obtain ⟨hva, hra⟩ := hp.sound hinput ha
    obtain ⟨hvb, hrb⟩ := hq.sound (hinput.of_reaches hra) hb
    exact ⟨⟨hva, hvb⟩, hra.append hrb⟩
  complete := by
    rintro input ⟨a, b⟩ rest hinput ⟨hva, hvb⟩ h hrest
    obtain ⟨middle, hra, hrb⟩ := Input.reaches_append_iff.1 h
    have ha := hp.complete hinput hva hra (Input.avoids_nil _)
    have hb := hq.complete (hinput.of_reaches hra) hvb hrb hrest
    exact accepts_seqWith_iff.2 ⟨[], a, middle, [], b, ha, hb, rfl, rfl⟩

/-- A token that may follow ends what is read before it. -/
theorem Reads.seqLeft (hp : p.Reads bound valid form barred) (t : Token) (ht : t ∉ barred) :
    (p.seqLeft (token t)).Reads bound valid (fun v => form v ++ [t]) [] where
  sound := by
    intro input v rest hinput h
    obtain ⟨es₁, a, middle, es₂, _, ha, hb, hes, rfl⟩ := accepts_seqWith_iff.1 h
    obtain ⟨rfl, rfl⟩ := List.append_eq_nil_iff.1 hes
    obtain ⟨hv, hr⟩ := hp.sound hinput ha
    exact ⟨hv, hr.append (accepts_token_iff.1 hb).2⟩
  complete := by
    intro input v rest hinput hv h _
    obtain ⟨middle, hr, hr'⟩ := Input.reaches_append_iff.1 h
    have ha := hp.complete hinput hv hr (Input.avoids_of_reaches hr' ht)
    exact accepts_seqWith_iff.2
      ⟨[], v, middle, [], (), ha, accepts_token_iff.2 ⟨rfl, hr'⟩, rfl, rfl⟩

theorem Reads.seqRight (hp : p.Reads bound valid form barred) (t : Token) :
    ((token t).seqRight p).Reads (bound + 1) valid (fun v => t :: form v) barred where
  sound := by
    intro input v rest hinput h
    obtain ⟨es₁, _, middle, es₂, a, ht, ha, hes, rfl⟩ := accepts_seqWith_iff.1 h
    obtain ⟨rfl, rfl⟩ := List.append_eq_nil_iff.1 hes
    have hr := (accepts_token_iff.1 ht).2
    obtain ⟨hv, hr'⟩ := hp.sound (hinput.of_reaches_cons hr) ha
    exact ⟨hv, hr.append hr'⟩
  complete := by
    intro input v rest hinput hv h hrest
    obtain ⟨middle, hr, hr'⟩ := Input.reaches_cons_iff.1 h
    have ha := hp.complete (hinput.of_reaches_cons hr) hv hr' hrest
    exact accepts_seqWith_iff.2
      ⟨[], (), middle, [], v, accepts_token_iff.2 ⟨rfl, hr⟩, ha, rfl, rfl⟩

theorem Reads.between (hp : p.Reads bound valid form barred) (first last : Token)
    (hlast : last ∉ barred) :
    (p.between first last).Reads (bound + 1) valid (fun v => first :: (form v ++ [last])) [] :=
  (hp.seqRight first).seqLeft last hlast

theorem Reads.map (hp : p.Reads bound valid form barred) (f : α → β) (form' : β → List Token)
    (hf : ∀ a, form' (f a) = form a) :
    (p.map f).Reads bound (fun b => ∃ a, valid a ∧ f a = b) form' barred where
  sound := by
    intro input b rest hinput h
    obtain ⟨a, ha, rfl⟩ := accepts_map_iff.1 h
    obtain ⟨hv, hr⟩ := hp.sound hinput ha
    exact ⟨⟨a, hv, rfl⟩, by rwa [hf]⟩
  complete := by
    rintro input _ rest hinput ⟨a, hv, rfl⟩ h hrest
    rw [hf] at h
    exact accepts_map_iff.2 ⟨a, hp.complete hinput hv h hrest, rfl⟩

/-! ## Choice -/

/-- Where the first parser accepts nothing that a value of the second stands for, both are read. -/
theorem Reads.orElse {r : Parser α} {others : α → Prop} (hp : p.Reads bound valid form barred)
    (hr : r.Reads bound others form barred)
    (hd : ∀ {input v w rest rest'}, input.ShortCode bound → p.Accepts input [] v rest →
      others w → input.Reaches (form w) rest' → rest'.Avoids barred → False) :
    (p.orElse r).Reads bound (fun v => valid v ∨ others v) form barred where
  sound := by
    intro input v rest hinput h
    rcases accepts_orElse_nil_iff.1 h with ha | ⟨-, ha⟩
    · exact (hp.sound hinput ha).imp_left .inl
    · exact (hr.sound hinput ha).imp_left .inr
  complete := by
    rintro input v rest hinput (hv | hv) h hrest
    · exact accepts_orElse_nil_iff.2 (.inl (hp.complete hinput hv h hrest))
    · refine accepts_orElse_nil_iff.2 (.inr ⟨?_, hr.complete hinput hv h hrest⟩)
      exact fun w rest' ha => hd hinput ha hv h hrest

/-! ## Repetition -/

/-- A run of the loop, up to where a barred token does not follow: it reads valid values one after
the other, as long as there are any. -/
theorem Reads.repeats_iff (hp : p.Reads bound valid form barred)
    (hstart : ∀ v, valid v → ∃ t ts, form v = t :: ts ∧ t ∉ barred) {input rest : Input}
    (hinput : input.ShortCode bound) (hrest : rest.Avoids barred) {vs : List α} :
    Repeats p input [] vs rest ↔
      (∀ v ∈ vs, valid v) ∧ input.Reaches (vs.flatMap form) rest ∧ p.Rejects rest := by
  constructor
  · intro h
    generalize hes : ([] : List Located) = es at h
    induction h with
    | stop hr => exact ⟨by simp, .nil _, hr⟩
    | stuck ha hle =>
      subst hes
      obtain ⟨hv, hr⟩ := hp.sound hinput ha
      obtain ⟨t, ts, hform, -⟩ := hstart _ hv
      rw [hform] at hr
      exact absurd hr.length_lt (Nat.not_lt.2 hle)
    | step ha _ _ ih =>
      obtain ⟨rfl, rfl⟩ := List.append_eq_nil_iff.1 hes.symm
      obtain ⟨hv, hr⟩ := hp.sound hinput ha
      obtain ⟨hvs, hrs, hreject⟩ := ih (hinput.of_reaches hr) hrest rfl
      exact ⟨List.forall_mem_cons.2 ⟨hv, hvs⟩, hr.append hrs, hreject⟩
  · rintro ⟨hvs, hr, hreject⟩
    induction vs generalizing input with
    | nil =>
      obtain rfl := Input.reaches_nil_iff.1 hr
      exact .stop hreject
    | cons v vs ih =>
      obtain ⟨hv, hvs⟩ := List.forall_mem_cons.1 hvs
      rw [List.flatMap_cons] at hr
      obtain ⟨middle, hr, hrs⟩ := Input.reaches_append_iff.1 hr
      -- what follows is the next value, or the end of the run
      have hmiddle : middle.Avoids barred := by
        cases vs with
        | nil =>
          obtain rfl := Input.reaches_nil_iff.1 hrs
          exact hrest
        | cons w ws =>
          obtain ⟨t, ts, hform, ht⟩ := hstart w (hvs w (by simp))
          rw [List.flatMap_cons, hform] at hrs
          exact Input.avoids_of_reaches hrs ht
      have hlt : middle.remaining.length < input.remaining.length := by
        obtain ⟨t, ts, hform, -⟩ := hstart v hv
        rw [hform] at hr
        exact hr.length_lt
      exact .step (hp.complete hinput hv hr hmiddle) hlt (ih (hinput.of_reaches hr) hvs hrs)

/-- The loop between two tokens, at the second of which the parser rejects. -/
theorem Reads.many_between (hp : p.Reads bound valid form barred)
    (hstart : ∀ v, valid v → ∃ t ts, form v = t :: ts ∧ t ∉ barred) (first last : Token)
    (hlast : last ∉ barred)
    (hreject : ∀ {input rest}, input.ShortCode bound → input.Reaches [last] rest →
      p.Rejects input) :
    (p.many.between first last).Reads (bound + 1) (fun vs => ∀ v ∈ vs, valid v)
      (fun vs => first :: (vs.flatMap form ++ [last])) [] where
  sound := by
    intro input vs rest hinput h
    obtain ⟨inner, after, h₁, h₂, h₃⟩ := accepts_between_iff.1 h
    have hafter := Input.avoids_of_reaches h₃ hlast
    obtain ⟨hvs, hr, -⟩ :=
      (hp.repeats_iff hstart (hinput.of_reaches_cons h₁) hafter).1 (accepts_many_iff.1 h₂)
    exact ⟨hvs, h₁.append (hr.append h₃)⟩
  complete := by
    intro input vs rest hinput hvs h _
    obtain ⟨inner, h₁, h⟩ := Input.reaches_cons_iff.1 h
    obtain ⟨after, h₂, h₃⟩ := Input.reaches_append_iff.1 h
    have hinner := hinput.of_reaches_cons h₁
    have hafter := Input.avoids_of_reaches h₃ hlast
    have hrun := (hp.repeats_iff hstart hinner hafter).2
      ⟨hvs, h₂, hreject (hinner.of_reaches h₂) h₃⟩
    exact accepts_between_iff.2 ⟨inner, after, h₁, accepts_many_iff.2 hrun, h₃⟩

/-! ## Separated lists -/

/-- The tokens of a separated list; each item but the first follows a separator. -/
def separatedTokens (separator : Token) (form : α → List Token) (first : Bool) :
    List α → List Token
  | [] => []
  | v :: vs =>
    (if first then [] else [separator]) ++ (form v ++ separatedTokens separator form false vs)

theorem separatedTokens_true_cons (separator : Token) (v : α) (vs : List α) :
    separatedTokens separator form true (v :: vs) =
      form v ++ separatedTokens separator form false vs := rfl

theorem separatedTokens_false_cons (separator : Token) (v : α) (vs : List α) :
    separatedTokens separator form false (v :: vs) =
      separator :: (form v ++ separatedTokens separator form false vs) := rfl

theorem Reads.of_follows (hp : p.Reads bound valid form barred) {separator : Token}
    {input rest : Input} (hinput : input.ShortCode bound) {vs : List α}
    (h : Follows p (token separator) input vs rest) :
    (∀ v ∈ vs, valid v) ∧ input.Reaches (separatedTokens separator form false vs) rest := by
  induction h with
  | noSeparator => exact ⟨by simp, .nil _⟩
  | noItem => exact ⟨by simp, .nil _⟩
  | stuck hs ha =>
    have hr := (accepts_token_iff.1 hs).2
    obtain ⟨hv, hr'⟩ := hp.sound (hinput.of_reaches hr) ha
    exact ⟨by simpa using hv, by simpa [separatedTokens] using hr.append hr'⟩
  | step hs ha _ _ ih =>
    have hr := (accepts_token_iff.1 hs).2
    have hmiddle := hinput.of_reaches hr
    obtain ⟨hv, hr'⟩ := hp.sound hmiddle ha
    obtain ⟨hvs, hrs⟩ := ih (hmiddle.of_reaches hr')
    exact ⟨List.forall_mem_cons.2 ⟨hv, hvs⟩, hr.append (hr'.append hrs)⟩

/-- What follows an item of a separated list begins with a separator, or is what ends the list. -/
theorem avoids_of_reaches_separated {separator last : Token} (hs : separator ∉ barred)
    (hlast : last ∉ barred) {input after rest : Input} {vs : List α}
    (h : input.Reaches (separatedTokens separator form false vs) after)
    (hafter : after.Reaches [last] rest) : input.Avoids barred := by
  cases vs with
  | nil =>
    obtain rfl := Input.reaches_nil_iff.1 h
    exact Input.avoids_of_reaches hafter hlast
  | cons v vs => exact Input.avoids_of_reaches h hs

theorem Reads.follows (hp : p.Reads bound valid form barred) {separator last : Token}
    (hs : separator ∉ barred) (hlast : last ∉ barred) (hne : separator ≠ last)
    {input after rest : Input} (hinput : input.ShortCode bound) {vs : List α}
    (hvs : ∀ v ∈ vs, valid v)
    (h : input.Reaches (separatedTokens separator form false vs) after)
    (hafter : after.Reaches [last] rest) : Follows p (token separator) input vs after := by
  induction vs generalizing input with
  | nil =>
    obtain rfl := Input.reaches_nil_iff.1 h
    refine .noSeparator fun es v rest' ha => hne ?_
    exact (accepts_token_iff.1 ha).2.head_unique hafter
  | cons v vs ih =>
    obtain ⟨hv, hvs⟩ := List.forall_mem_cons.1 hvs
    rw [separatedTokens_false_cons] at h
    obtain ⟨middle, h₁, h⟩ := Input.reaches_cons_iff.1 h
    obtain ⟨next, h₂, h₃⟩ := Input.reaches_append_iff.1 h
    have hmiddle := hinput.of_reaches h₁
    have hnext := avoids_of_reaches_separated hs hlast h₃ hafter
    exact .step (accepts_token_iff.2 ⟨rfl, h₁⟩) (hp.complete hmiddle hv h₂ hnext)
      (h₁.append h₂).length_lt (ih (hmiddle.of_reaches h₂) hvs h₃)

/-- A separated list between two tokens, at the second of which the parser rejects. -/
theorem Reads.sepBy_between (hp : p.Reads bound valid form barred) (hsilent : p.Silent)
    (first separator last : Token) (hs : separator ∉ barred) (hlast : last ∉ barred)
    (hne : separator ≠ last)
    (hreject : ∀ {input rest}, input.ShortCode bound → input.Reaches [last] rest →
      p.Rejects input) :
    ((p.sepBy (token separator)).between first last).Reads (bound + 1)
      (fun vs => ∀ v ∈ vs, valid v)
      (fun vs => first :: (separatedTokens separator form true vs ++ [last])) [] where
  sound := by
    intro input vs rest hinput h
    obtain ⟨inner, after, h₁, h₂, h₃⟩ := accepts_between_iff.1 h
    have hinner := hinput.of_reaches_cons h₁
    rcases ((accepts_sepBy_iff hsilent (silent_token _)).1 h₂).2 with
      ⟨-, rfl, rfl⟩ | ⟨v, middle, ws, ha, hws, rfl⟩
    · exact ⟨by simp, h₁.append h₃⟩
    · obtain ⟨hv, hr⟩ := hp.sound hinner ha
      obtain ⟨hvs, hrs⟩ := hp.of_follows (hinner.of_reaches hr) hws
      exact ⟨List.forall_mem_cons.2 ⟨hv, hvs⟩, h₁.append ((hr.append hrs).append h₃)⟩
  complete := by
    intro input vs rest hinput hvs h _
    obtain ⟨inner, h₁, h⟩ := Input.reaches_cons_iff.1 h
    obtain ⟨after, h₂, h₃⟩ := Input.reaches_append_iff.1 h
    have hinner := hinput.of_reaches_cons h₁
    refine accepts_between_iff.2 ⟨inner, after, h₁, ?_, h₃⟩
    refine (accepts_sepBy_iff hsilent (silent_token _)).2 ⟨rfl, ?_⟩
    cases vs with
    | nil =>
      obtain rfl := Input.reaches_nil_iff.1 h₂
      exact .inl ⟨hreject hinner h₃, rfl, rfl⟩
    | cons v vs =>
      obtain ⟨hv, hvs⟩ := List.forall_mem_cons.1 hvs
      rw [separatedTokens_true_cons] at h₂
      obtain ⟨middle, hr, hrs⟩ := Input.reaches_append_iff.1 h₂
      have hmiddle := avoids_of_reaches_separated hs hlast hrs h₃
      exact .inr ⟨v, middle, vs, hp.complete hinner hv hr hmiddle,
        hp.follows hs hlast hne (hinner.of_reaches hr) hvs hrs h₃, rfl⟩

/-! ## Recursion -/

/-- A grammar that refers to itself, unfolded a number of times, reads inputs shorter than that. -/
theorem reads_recursive {step : Parser α → Parser α}
    (hstep : ∀ bound, (unfolded step bound).Reads bound valid form barred →
      (step (unfolded step bound)).Reads (bound + 1) valid form barred) (bound : Nat) :
    (recursive step).Reads bound valid form barred := by
  have hunfolded : ∀ depth, (unfolded step depth).Reads depth valid form barred := by
    intro depth
    induction depth with
    | zero =>
      exact ⟨fun hinput => absurd hinput.length_lt (Nat.not_lt_zero _),
        fun hinput => absurd hinput.length_lt (Nat.not_lt_zero _)⟩
    | succ depth ih => exact hstep depth ih
  have hshort : ∀ {input : Input}, input.ShortCode bound →
      input.ShortCode (input.remaining.length + 1) :=
    fun hinput => ⟨hinput.isText_eq_false, Nat.lt_succ_self _⟩
  exact ⟨fun hinput h => (hunfolded _).sound (hshort hinput) (accepts_recursive_iff.1 h),
    fun hinput hv h hrest => accepts_recursive_iff.2
      ((hunfolded _).complete (hshort hinput) hv h hrest)⟩

/-! ## Directives in code -/

/-- In code the items of a body are statements: no spaces and tabs are left out. -/
theorem Reads.repeats_bodyItem_iff (hp : p.Reads bound valid form barred) {input rest : Input}
    (hinput : input.ShortCode bound) {items : List (Option α)} :
    Repeats (bodyItem p) input [] items rest ↔
      ∃ vs, vs.map some = items ∧ Repeats p input [] vs rest := by
  have hitem : ∀ {input : Input} {es v rest}, input.ShortCode bound →
      ((bodyItem p).Accepts input es v rest ↔ ∃ s, p.Accepts input es s rest ∧ some s = v) := by
    intro input es v rest hinput
    have htrailing : (trailing : Parser (Option α)).Rejects input := by
      intro es v rest h
      obtain ⟨-, -, content, -, hr, -⟩ := accepts_trailing_iff.1 h
      exact hinput.not_reaches_text content hr
    rw [accepts_bodyItem_iff]
    constructor
    · rintro (h | ⟨-, h⟩)
      · exact absurd h (htrailing _ _ _)
      · exact h
    · exact fun h => .inr ⟨htrailing, h⟩
  have hrejects : ∀ {input : Input}, input.ShortCode bound →
      ((bodyItem p).Rejects input ↔ p.Rejects input) := by
    intro input hinput
    constructor
    · exact fun h es v rest ha => h es (some v) rest ((hitem hinput).2 ⟨v, ha, rfl⟩)
    · intro h es v rest ha
      obtain ⟨s, hs, -⟩ := (hitem hinput).1 ha
      exact h _ _ _ hs
  constructor
  · intro h
    generalize hes : ([] : List Located) = es at h
    induction h with
    | stop hr => exact ⟨[], rfl, .stop ((hrejects hinput).1 hr)⟩
    | stuck ha hle =>
      subst hes
      obtain ⟨s, hs, rfl⟩ := (hitem hinput).1 ha
      exact ⟨[s], rfl, .stuck hs hle⟩
    | step ha hlt _ ih =>
      obtain ⟨rfl, rfl⟩ := List.append_eq_nil_iff.1 hes.symm
      obtain ⟨s, hs, rfl⟩ := (hitem hinput).1 ha
      obtain ⟨vs, rfl, hvs⟩ := ih (hinput.of_reaches (hp.sound hinput hs).2) rfl
      exact ⟨s :: vs, rfl, .step hs hlt hvs⟩
  · rintro ⟨vs, rfl, h⟩
    generalize hes : ([] : List Located) = es at h
    induction h with
    | stop hr => exact .stop ((hrejects hinput).2 hr)
    | stuck hs hle =>
      subst hes
      exact .stuck ((hitem hinput).2 ⟨_, hs, rfl⟩) hle
    | step hs hlt _ ih =>
      obtain ⟨rfl, rfl⟩ := List.append_eq_nil_iff.1 hes.symm
      have hlater := ih (hinput.of_reaches (hp.sound hinput hs).2) rfl
      exact .step ((hitem hinput).2 ⟨_, hs, rfl⟩) hlt hlater

/-- In code a body is a run of the loop over statements. -/
theorem Reads.accepts_blockBody_iff (hp : p.Reads bound valid form barred) {input rest : Input}
    (hinput : input.ShortCode bound) {body : List α} :
    (blockBody p).Accepts input [] body rest ↔ Repeats p input [] body rest := by
  have hpadding : padding.Rejects input := by
    intro es v rest h
    obtain ⟨-, content, -, hr⟩ := accepts_padding_iff.1 h
    exact hinput.not_reaches_text content hr
  have hskips : ∀ {start}, SkipsPadding input start ↔ start = input := by
    intro start
    constructor
    · rintro (⟨content, -, hr⟩ | ⟨-, rfl⟩)
      · exact absurd hr (hinput.not_reaches_text content)
      · rfl
    · exact fun h => .inr ⟨hpadding, h⟩
  simp only [Parser.accepts_blockBody_iff, hskips, exists_and_left, exists_eq_left,
    hp.repeats_bodyItem_iff hinput]
  constructor
  · rintro ⟨_, ⟨vs, rfl, h⟩, rfl⟩
    simpa [List.filterMap_map] using h
  · exact fun h => ⟨_, ⟨body, rfl, h⟩, by simp [List.filterMap_map]⟩

/-- A block whose header and statements are read. -/
theorem Reads.block {construct : Construct} {header : Parser H} {validHeader : H → Prop}
    {formHeader : H → List Token}
    (hh : (header.between .openStatement .closeStatement).Reads (bound + 1) validHeader
      (fun h => construct.openingTokens (formHeader h)) [])
    (hp : p.Reads bound valid form barred)
    (hstart : ∀ v, valid v → ∃ t ts, form v = t :: ts ∧ t ∉ barred)
    (hopen : .openStatement ∉ barred)
    (hend : ∀ {input rest word}, word.isEnd = true → input.ShortCode bound →
      input.Reaches (endTokens word) rest → p.Rejects input) :
    (block construct header p).Reads (bound + 1)
      (fun v => validHeader v.1 ∧ ∀ s ∈ v.2, valid s)
      (fun v => construct.blockTokens (formHeader v.1) (v.2.flatMap form)) [] where
  sound := by
    rintro input ⟨h, body⟩ rest hinput ha
    obtain ⟨first, last, h₁, h₂, h₃⟩ := accepts_block_nil_iff.1 ha
    obtain ⟨hvalid, hopening⟩ := hh.sound hinput h₁
    have hfirst := hinput.of_reaches_cons hopening
    have hlast : last.Avoids barred := Input.avoids_of_reaches h₃ hopen
    obtain ⟨hbody, hr, -⟩ :=
      (hp.repeats_iff hstart hfirst hlast).1 ((hp.accepts_blockBody_iff hfirst).1 h₂)
    exact ⟨⟨hvalid, hbody⟩, hopening.append (hr.append h₃)⟩
  complete := by
    rintro input ⟨h, body⟩ rest hinput ⟨hvalid, hbody⟩ ha -
    obtain ⟨first, hopening, ha⟩ := Input.reaches_append_iff.1 ha
    obtain ⟨last, hr, h₃⟩ := Input.reaches_append_iff.1 ha
    have hfirst := hinput.of_reaches_cons hopening
    have hlast : last.Avoids barred := Input.avoids_of_reaches h₃ hopen
    have hreject := hend (isEnd_closing construct) (hfirst.of_reaches hr) h₃
    have hrun := (hp.repeats_iff hstart hfirst hlast).2 ⟨hbody, hr, hreject⟩
    exact accepts_block_nil_iff.2 ⟨first, last,
      hh.complete hinput hvalid hopening (Input.avoids_nil _),
      (hp.accepts_blockBody_iff hfirst).2 hrun, h₃⟩

/-- The tokens of a directive, from those of its parts. -/
def directiveTokens (formE : E → List Token) (formS : Statement E L → List Token) :
    Statement E L → List Token
  | .plain _ => []
  | .interpolation e => .openExpression :: (formE e ++ [.closeExpression])
  | .forIn binder e body =>
    Construct.forIn.blockTokens (forInTokens binder (formE e)) (body.flatMap formS)
  | .join binder e f body =>
    Construct.join.blockTokens (joinTokens binder (formE e) (formE f)) (body.flatMap formS)

/-- A directive whose parts are valid. -/
def IsDirective (validE : E → Prop) (validS : Statement E L → Prop) : Statement E L → Prop
  | .plain _ => False
  | .interpolation e => validE e
  | .forIn _ e body => validE e ∧ ∀ s ∈ body, validS s
  | .join _ e f body => (validE e ∧ validE f) ∧ ∀ s ∈ body, validS s

section Directives

variable {expression : Parser E} {validE : E → Prop} {formE : E → List Token}
  {statement : Parser (Statement E L)} {validS : Statement E L → Prop}
  {formS : Statement E L → List Token} {barredS : List Token}
  (he : ∀ bound, expression.Reads bound validE formE barred)

include he

theorem Reads.forHeader_between (hclose : .closeStatement ∉ barred) :
    ((forHeader expression).between .openStatement .closeStatement).Reads (bound + 1)
      (fun h => validE h.2)
      (fun h => Construct.forIn.openingTokens (forInTokens h.1 (formE h.2))) [] := by
  have hbinder := ((exact_pattern.seqRight (.keyword .for_)).seqLeft (.keyword .in_)).reads bound
  refine ((hbinder.seq (he bound)).between .openStatement .closeStatement hclose).congr ?_ ?_
  · simp
  · simp [Construct.openingTokens, Construct.opening, forInTokens]

theorem Reads.joinHeader_between (hclose : .closeStatement ∉ barred)
    (hwith : .keyword .with_ ∉ barred) :
    ((joinHeader expression).between .openStatement .closeStatement).Reads (bound + 1)
      (fun h => validE h.1.2 ∧ validE h.2)
      (fun h => Construct.join.openingTokens (joinTokens h.1.1 (formE h.1.2) (formE h.2))) [] := by
  have hbinder := ((exact_pattern.seqRight (.keyword .join)).seqLeft (.keyword .in_)).reads bound
  have hiterable := (hbinder.seq (he bound)).seqLeft (.keyword .with_) hwith
  refine ((hiterable.seq (he bound)).between .openStatement .closeStatement hclose).congr ?_ ?_
  · simp
  · simp [Construct.openingTokens, Construct.opening, joinTokens]

/-- Directives over expressions and statements that are read. -/
theorem Reads.directive (hclose : ∀ t ∈ barred, t.closes = false)
    (hwith : .keyword .with_ ∉ barred) (hs : statement.Reads bound validS formS barredS)
    (hstart : ∀ v, validS v → ∃ t ts, formS v = t :: ts ∧ t ∉ barredS)
    (hopen : .openStatement ∉ barredS)
    (hend : ∀ {input rest word}, word.isEnd = true → input.ShortCode bound →
      input.Reaches (endTokens word) rest → statement.Rejects input) :
    (directive expression statement).Reads (bound + 1) (IsDirective validE validS)
      (directiveTokens formE formS) [] := by
  have hcloseE : .closeExpression ∉ barred := fun h => by cases hclose _ h
  have hcloseS : .closeStatement ∉ barred := fun h => by cases hclose _ h
  have hi := (he bound).between .openExpression .closeExpression hcloseE
  have hf := Reads.block (Reads.forHeader_between he hcloseS) hs hstart hopen hend
  have hj := Reads.block (Reads.joinHeader_between he hcloseS hwith) hs hstart hopen hend
  constructor
  · intro input v rest hinput h
    rcases accepts_directive_iff_cases.1 h with
      ⟨e, ha, rfl⟩ | ⟨header, body, ha, rfl⟩ | ⟨header, body, ha, rfl⟩
    · exact hi.sound hinput ha
    · exact hf.sound hinput ha
    · exact hj.sound hinput ha
  · intro input v rest hinput hv h hrest
    refine accepts_directive_iff_cases.2 ?_
    cases v with
    | plain s => cases hv
    | interpolation e => exact .inl ⟨e, hi.complete hinput hv h hrest, rfl⟩
    | forIn binder e body =>
      have ha := @Reads.complete _ _ _ _ _ _ hf input ((binder, e), body) rest hinput hv h hrest
      exact .inr (.inl ⟨(binder, e), body, ha, rfl⟩)
    | join binder e f body =>
      have ha := @Reads.complete _ _ _ _ _ _ hj input (((binder, e), f), body) rest hinput hv h
        hrest
      exact .inr (.inr ⟨((binder, e), f), body, ha, rfl⟩)

end Directives

end Parser

end Stencil
