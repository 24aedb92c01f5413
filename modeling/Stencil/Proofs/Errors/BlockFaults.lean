import Stencil.Proofs.Errors.Places

/-!
# Faults about blocks

A block is reported with the range of the directive that opened it and with what ended it. Such a
fault must not be mixed up with one about a token: merging keeps the range of the one and may take
the kind of the other. Merging does no harm here, because a fault about a block lies at least two
lexemes behind the place at which its block began, and the other parsers that are tried at this
place give up before.

* `Truthful` says what a fault about a block tells of the source.
* `Parser.Faithful` says that the faults of a parser are truthful or point at a token. It passes
  through the loops over statements (`Parser.Loops`) and what closes them (`Parser.Loops.seqWith`).
* `faithful_template` is the result for a dialect whose plain statements are faithful.
-/

namespace Stencil

/-! ## What a fault about a block tells -/

section Truthful

variable (headers : Construct → List Token → Prop) (whole : Input)

/-- A fault about a block with this kind and range is right: the block was opened by a directive
at the given range, and ended by another end directive behind it, or by the end of input. -/
inductive Truthful : FaultKind → ByteRange → Prop
  | mismatched {construct : Construct} {word : Keyword} {header : List Token}
      {opening body ending rest : Input} (hopening : whole.Precedes opening)
      (hheader : headers construct header)
      (hbody : opening.Reaches (construct.openingTokens header) body)
      (hending : body.Precedes ending) (hword : word.isEnd = true)
      (hrest : ending.Reaches (endTokens word) rest) (hne : word ≠ construct.closing) :
      Truthful (.mismatchedEnd construct word (opening.rangeTo body)) (ending.rangeTo rest)
  | unterminated {construct : Construct} {header : List Token} {opening body : Input}
      (hopening : whole.Precedes opening) (hheader : headers construct header)
      (hbody : opening.Reaches (construct.openingTokens header) body) :
      Truthful (.unterminatedBlock construct (opening.rangeTo body)) whole.endRange

/-- A truthful fault about a block, at least two lexemes behind a place at which such a block can
begin. -/
structure Grave (begins : Input → Prop) (input : Input) (located : Located) : Prop where
  begins : begins input
  truthful : Truthful headers whole located.fault.kind located.fault.range
  read_add_two_le : input.read + 2 ≤ located.reach

/-- A fault with which parsing may stop at a place. -/
def Trouble (begins : Input → Prop) (input : Input) (located : Located) : Prop :=
  whole.Points located ∨ Grave headers whole begins input located

end Truthful

variable {headers : Construct → List Token → Prop} {whole : Input} {begins : Input → Prop}
  {input : Input} {a b : Located}

/-- The kind of a fault about a block wins over that of any other. -/
theorem Truthful.merge_kind {fault other : Fault}
    (h : Truthful headers whole fault.kind fault.range) :
    (fault.merge other).kind = fault.kind := by
  simp only [Fault.merge]
  split
  · next hkind =>
    rw [hkind] at h
    cases h
  · rfl

theorem Grave.merge (h : Grave headers whole begins input a) (fault : Fault) :
    Grave headers whole begins input ⟨a.reach, a.fault.merge fault⟩ :=
  ⟨h.begins, by rw [h.truthful.merge_kind]; exact h.truthful, h.read_add_two_le⟩

theorem Grave.mono {before : Input} (h : Grave headers whole begins input a)
    (hb : before.Precedes input) {begins' : Input → Prop} (hbegins : begins' before) :
    Grave headers whole begins' before a :=
  ⟨hbegins, h.truthful, by have := hb.read_le; have := h.read_add_two_le; omega⟩

/-- A fault about a block that leads keeps its kind. -/
theorem Grave.furthest (ha : Grave headers whole begins input a)
    (hb : Trouble headers whole begins input b) :
    Trouble headers whole begins input (a.furthest b) := by
  rcases Located.furthest_cases a b with ⟨-, h⟩ | ⟨-, h⟩ | ⟨-, h⟩
  · rw [h]
    exact .inr ha
  · rwa [h]
  · rw [h]
    exact .inr (ha.merge b.fault)

theorem Trouble.furthest_of_points (ha : Trouble headers whole begins input a)
    (hb : whole.Points b) : Trouble headers whole begins input (a.furthest b) :=
  ha.elim (fun h => .inl (h.furthest hb)) fun h => h.furthest (.inl hb)

/-- Two faults may be merged if one of them does not lie far enough to be about a block. -/
theorem Trouble.furthest (ha : Trouble headers whole begins input a)
    (hb : Trouble headers whole begins input b)
    (hlow : begins input → a.reach < input.read + 2 ∨ b.reach < input.read + 2) :
    Trouble headers whole begins input (a.furthest b) := by
  rcases hb with hb | hb
  · exact ha.furthest_of_points hb
  rcases ha with ha | ha
  · have hlt : a.reach < b.reach := by
      have := hb.read_add_two_le
      have := hlow hb.begins
      omega
    rw [Located.furthest_eq_right hlt]
    exact .inr hb
  · exact ha.furthest (.inr hb)

namespace Parser

variable {α β γ : Type} {bound : Nat}

/-! ## Faithful parsers -/

/-- Behind `whole`, on inputs of fewer lexemes than `bound`, all that the parser reports is
truthful, and so are its other faults, unless they point at a token. Faults about blocks occur only
where a block can begin. -/
structure Faithful (p : Parser α) (headers : Construct → List Token → Prop) (whole : Input)
    (begins : Input → Prop) (bound : Nat) : Prop where
  accepted : ∀ {input rest : Input} {es : List Located} {v : α} {alternative : Option Located},
    whole.Precedes input → input.remaining.length < bound →
    p input = ⟨es, .accepted v alternative rest⟩ →
    (∀ e ∈ es, Grave headers whole begins input e) ∧ input.Precedes rest ∧
      ∀ a ∈ alternative, whole.Points a
  rejected : ∀ {input : Input} {es : List Located} {cause : Located}, whole.Precedes input →
    input.remaining.length < bound → p input = ⟨es, .rejected cause⟩ →
    (∀ e ∈ es, Grave headers whole begins input e) ∧ Trouble headers whole begins input cause

theorem Plain.faithful {p : Parser α} (hp : p.Plain whole bound) :
    p.Faithful headers whole begins bound where
  accepted := by
    intro input rest es v alternative hw hlt h
    obtain ⟨rfl, hr, halt⟩ := hp.accepted hw hlt h
    exact ⟨by simp, hr, halt⟩
  rejected := by
    intro input es cause hw hlt h
    obtain ⟨rfl, hc⟩ := hp.rejected hw hlt h
    exact ⟨by simp, .inl hc⟩

theorem Faithful.map {p : Parser α} (hp : p.Faithful headers whole begins bound) (f : α → β) :
    (p.map f).Faithful headers whole begins bound where
  accepted := by
    intro input rest es v alternative hw hlt h
    obtain ⟨a, h, -⟩ := map_eq_accepted h
    exact hp.accepted hw hlt h
  rejected := fun hw hlt h => hp.rejected hw hlt (map_eq_rejected h)

/-- The parser rejects one of the first `count` lexemes. -/
def RejectsWithin (count : Nat) (p : Parser α) (input : Input) : Prop :=
  ∃ es cause, p input = ⟨es, .rejected cause⟩ ∧ cause.reach < input.read + count

theorem RejectsWithin.rejects {count : Nat} {p : Parser α} (h : RejectsWithin count p input) :
    p.Rejects input := by
  obtain ⟨es, cause, hp, -⟩ := h
  exact rejects_of_eq hp

theorem RejectsWithin.reach_lt {count : Nat} {p : Parser α} (h : RejectsWithin count p input)
    {es : List Located} {cause : Located} (hp : p input = ⟨es, .rejected cause⟩) :
    cause.reach < input.read + count := by
  obtain ⟨es', cause', hp', hlt⟩ := h
  cases hp'.symm.trans hp
  exact hlt

/-- What a parser that rejects early leaves behind points at a token. -/
theorem Faithful.points_of_rejectsWithin {p : Parser α}
    (hp : p.Faithful headers whole begins bound) (hw : whole.Precedes input)
    (hlt : input.remaining.length < bound) (h : begins input → RejectsWithin 2 p input) :
    ∀ a ∈ (p input).given, whole.Points a := by
  rcases e : p input with ⟨es, ⟨v, alternative, rest⟩ | cause⟩
  · exact (hp.accepted hw hlt e).2.2
  · intro a ha
    obtain rfl : cause = a := by simpa [Outcome.given] using ha
    rcases (hp.rejected hw hlt e).2 with hc | hc
    · exact hc
    · have := (h hc.begins).reach_lt e
      have := hc.read_add_two_le
      omega

/-- A choice, of which one part rejects early wherever a block can begin. -/
theorem Faithful.orElse {p q : Parser α} (hp : p.Faithful headers whole begins bound)
    (hq : q.Faithful headers whole begins bound)
    (hearly : ∀ {input}, begins input → RejectsWithin 2 p input ∨ RejectsWithin 2 q input) :
    (p.orElse q).Faithful headers whole begins bound where
  accepted := by
    intro input rest es v alternative hw hlt h
    obtain ⟨alternative', ⟨ha, halt⟩ | ⟨ha, halt⟩⟩ := orElse_eq_accepted h
    · obtain ⟨hes, hr, halt'⟩ := hp.accepted hw hlt ha
      refine ⟨hes, hr, ?_⟩
      rcases halt with rfl | rfl
      · exact halt'
      · refine Input.points_join halt' (hq.points_of_rejectsWithin hw hlt fun hb => ?_)
        exact (hearly hb).resolve_left fun hr => hr.rejects _ _ _ (accepts_of_eq ha)
    · obtain ⟨hes, hr, halt'⟩ := hq.accepted hw hlt ha
      refine ⟨hes, hr, ?_⟩
      rcases halt with rfl | rfl
      · exact halt'
      · refine Input.points_join halt' (hp.points_of_rejectsWithin hw hlt fun hb => ?_)
        exact (hearly hb).resolve_right fun hr => hr.rejects _ _ _ (accepts_of_eq ha)
  rejected := by
    intro input es cause hw hlt h
    obtain ⟨es₁, cause₁, es₂, cause₂, h₁, h₂, hcause, hes⟩ := orElse_eq_rejected h
    obtain ⟨hes₁, hc₁⟩ := hp.rejected hw hlt h₁
    obtain ⟨hes₂, hc₂⟩ := hq.rejected hw hlt h₂
    refine ⟨by rcases hes with rfl | rfl <;> assumption, ?_⟩
    rcases hcause with rfl | ⟨-, rfl | rfl⟩
    · exact hc₁.furthest hc₂ fun hb =>
        (hearly hb).imp (fun h => h.reach_lt h₁) (fun h => h.reach_lt h₂)
    · exact hc₁
    · exact hc₂

/-! ## Loops and what closes them -/

/-- A parser that ends in a loop over statements: the fault at which the loop stopped is kept as an
alternative, and may be about a block that begins where it stopped. -/
structure Loops (p : Parser α) (headers : Construct → List Token → Prop) (whole : Input)
    (begins starts : Input → Prop) (bound : Nat) : Prop where
  accepted : ∀ {input rest : Input} {es : List Located} {v : α} {alternative : Option Located},
    whole.Precedes input → input.remaining.length < bound →
    p input = ⟨es, .accepted v alternative rest⟩ →
    starts input ∧ (∀ e ∈ es, Grave headers whole starts input e) ∧ input.Precedes rest ∧
      ∀ a ∈ alternative, Trouble headers whole begins rest a
  rejected : ∀ {input : Input} {es : List Located} {cause : Located}, whole.Precedes input →
    input.remaining.length < bound → p input = ⟨es, .rejected cause⟩ →
    es = [] ∧ whole.Points cause

theorem Faithful.manyAfter {p : Parser α} (hp : p.Faithful headers whole begins bound)
    {given : Option Located} (hgiven : ∀ a ∈ given, whole.Points a) {input rest : Input}
    (hw : whole.Precedes input) (hlt : input.remaining.length < bound) {es : List Located}
    {vs : List α} {alternative : Option Located}
    (h : manyAfter p given input = ⟨es, .accepted vs alternative rest⟩) :
    (∀ e ∈ es, Grave headers whole (fun _ => True) input e) ∧ input.Precedes rest ∧
      ∀ a ∈ alternative, Trouble headers whole begins rest a := by
  fun_induction Parser.manyAfter p given input generalizing es vs with
  | case1 given input reported cause hr =>
    obtain ⟨hes, hc⟩ := hp.rejected hw hlt hr
    cases h
    refine ⟨by simp, .refl _, ?_⟩
    -- the first fault that was reported leads over the cause, and both over what was given
    refine Located.forall_mem_join (fun a ha b _ _ hb => hb.furthest_of_points (hgiven a ha))
      (fun a ha => .inl (hgiven a ha)) ?_
    refine Located.forall_mem_join (fun a _ b hb ha _ => (hes b ?_).furthest ha)
      (by simpa using hc) (fun b hb => .inr (hes b ?_)) <;> exact List.mem_of_head? hb
  | case2 given input reported v a middle ha hlt' ih =>
    obtain ⟨hes, hr, halt⟩ := hp.accepted hw hlt ha
    obtain ⟨es', ws, hm, rfl, -⟩ := cons_after_eq_accepted_iff.1 h
    obtain ⟨hes', hr', halt'⟩ :=
      ih (Input.points_join hgiven halt) (hw.trans hr) (hlt'.trans hlt) hm
    refine ⟨fun e he => ?_, hr.trans hr', halt'⟩
    rcases List.mem_append.1 he with he | he
    · exact (hes e he).mono (.refl _) trivial
    · exact (hes' e he).mono hr trivial
  | case3 given input reported v a middle ha _ =>
    obtain ⟨hes, hr, halt⟩ := hp.accepted hw hlt ha
    cases h
    refine ⟨fun e he => (hes e he).mono (.refl _) trivial, hr, fun a ha => ?_⟩
    exact .inl (Input.points_join hgiven halt a ha)

theorem Faithful.many {p : Parser α} (hp : p.Faithful headers whole begins bound) :
    p.many.Loops headers whole begins (fun _ => True) bound where
  accepted := fun hw hlt h => ⟨trivial, hp.manyAfter (by simp) hw hlt h⟩
  rejected := fun _ _ h => absurd h (manyAfter_ne_rejected p none _ _ _)

theorem Loops.map {p : Parser α} {starts : Input → Prop}
    (hp : p.Loops headers whole begins starts bound) (f : α → β) :
    (p.map f).Loops headers whole begins starts bound where
  accepted := by
    intro input rest es v alternative hw hlt h
    obtain ⟨a, h, -⟩ := map_eq_accepted h
    exact hp.accepted hw hlt h
  rejected := fun hw hlt h => hp.rejected hw hlt (map_eq_rejected h)

/-- A loop behind a plain parser, which says where the whole can begin. -/
theorem Plain.seqWith_loops {p : Parser α} {q : Parser β} {starts : Input → Prop} {fewer : Nat}
    (hp : p.Plain whole bound)
    (hstarts : ∀ {input es v alternative rest}, whole.Precedes input →
      p input = ⟨es, .accepted v alternative rest⟩ → starts input)
    (hq : q.Loops headers whole begins (fun _ => True) fewer)
    (hshort : ∀ {input rest : Input} {es : List Located} {v : α} {alternative : Option Located},
      whole.Precedes input → input.remaining.length < bound →
      p input = ⟨es, .accepted v alternative rest⟩ → rest.remaining.length < fewer)
    (f : α → β → γ) : (Parser.seqWith f p q).Loops headers whole begins starts bound where
  accepted := by
    intro input rest es v alternative hw hlt h
    obtain ⟨es₁, a, alt₁, middle, es₂, b, alt₂, h₁, h₂, rfl, -, rfl⟩ := seqWith_eq_accepted h
    obtain ⟨rfl, hr₁, halt₁⟩ := hp.accepted hw hlt h₁
    obtain ⟨-, hes₂, hr₂, halt₂⟩ := hq.accepted (hw.trans hr₁) (hshort hw hlt h₁) h₂
    have hinput := hstarts hw h₁
    refine ⟨hinput, fun e he => (hes₂ e he).mono hr₁ hinput, hr₁.trans hr₂, ?_⟩
    exact Located.forall_mem_join (fun a ha b _ _ hb => hb.furthest_of_points (halt₁ a ha))
      (fun a ha => .inl (halt₁ a ha)) halt₂
  rejected := by
    intro input es cause hw hlt h
    rcases seqWith_eq_rejected h with h | ⟨es₁, a, alt₁, middle, es₂, cause₂, h₁, h₂, rfl, rfl⟩
    · exact hp.rejected hw hlt h
    · obtain ⟨rfl, hr₁, halt₁⟩ := hp.accepted hw hlt h₁
      obtain ⟨rfl, hc⟩ := hq.rejected (hw.trans hr₁) (hshort hw hlt h₁) h₂
      exact ⟨rfl, hc.furthestOf halt₁⟩

/-- A loop with what closes it: the loop has stopped before, and its fault lies further. -/
theorem Loops.seqWith {p : Parser α} {q : Parser β} {starts : Input → Prop}
    (hp : p.Loops headers whole begins starts bound) (hq : q.Plain whole bound)
    (hcloses : ∀ {input}, begins input → RejectsWithin 2 q input) (f : α → β → γ) :
    (seqWith f p q).Faithful headers whole starts bound where
  accepted := by
    intro input rest es v alternative hw hlt h
    obtain ⟨es₁, a, alt₁, middle, es₂, b, alt₂, h₁, h₂, rfl, -, rfl⟩ := seqWith_eq_accepted h
    obtain ⟨-, hes₁, hr₁, halt₁⟩ := hp.accepted hw hlt h₁
    obtain ⟨rfl, hr₂, halt₂⟩ := hq.accepted (hw.trans hr₁) (hr₁.length_le.trans_lt hlt) h₂
    refine ⟨by simpa using hes₁, hr₁.trans hr₂, Input.points_join (fun a ha => ?_) halt₂⟩
    exact (halt₁ a ha).resolve_right fun hg =>
      (hcloses hg.begins).rejects _ _ _ (accepts_of_eq h₂)
  rejected := by
    intro input es cause hw hlt h
    rcases seqWith_eq_rejected h with h | ⟨es₁, a, alt₁, middle, es₂, cause₂, h₁, h₂, rfl, rfl⟩
    · obtain ⟨rfl, hc⟩ := hp.rejected hw hlt h
      exact ⟨by simp, .inl hc⟩
    · obtain ⟨hstarts, hes₁, hr₁, halt₁⟩ := hp.accepted hw hlt h₁
      obtain ⟨rfl, hc⟩ := hq.rejected (hw.trans hr₁) (hr₁.length_le.trans_lt hlt) h₂
      refine ⟨by simpa using hes₁, ?_⟩
      cases alt₁ with
      | none => exact .inl hc
      | some a =>
        rcases halt₁ a rfl with ha | ha
        · exact .inl (hc.furthest ha)
        · have hlt' : cause₂.reach < a.reach := by
            have := (hcloses ha.begins).reach_lt h₂
            have := ha.read_add_two_le
            omega
          rw [Located.furthestOf, Located.furthest_eq_right hlt']
          exact .inr (ha.mono hr₁ hstarts)

/-! ## Where a block can begin -/

/-- A block can begin here: with a brace of the host, or with a directive that opens one. -/
def BeginsBlock (input : Input) : Prop :=
  (∃ rest, input.Reaches [.symbol "\x7b"] rest) ∨
    ∃ construct rest, input.Reaches [.openStatement, .keyword (Construct.opening construct)] rest

/-- The first token of a place at which a block can begin. -/
theorem BeginsBlock.exists_reaches (h : BeginsBlock input) :
    ∃ t rest, input.Reaches [t] rest ∧ (t = .symbol "\x7b" ∨ t = .openStatement) := by
  rcases h with ⟨rest, hr⟩ | ⟨construct, rest, hr⟩
  · exact ⟨_, rest, hr, .inl rfl⟩
  · obtain ⟨middle, hr, -⟩ := Input.reaches_cons_iff.1 hr
    exact ⟨_, middle, hr, .inr rfl⟩

theorem rejectsWithin_satisfy {expected : List String} {f : Token → Option α} {t : Token}
    {rest : Input} (h : input.Reaches [t] rest) (hf : f t = none) :
    RejectsWithin 1 (satisfy expected f) input := by
  cases h with
  | cons h => exact ⟨[], _, by simp only [satisfy, hf]; rfl, by simp⟩

theorem rejectsWithin_token {expected t : Token} {rest : Input} (h : input.Reaches [t] rest)
    (hne : t ≠ expected) : RejectsWithin 1 (token expected) input := by
  cases h with
  | cons h => exact ⟨[], _, by simp only [token, if_neg hne]; rfl, by simp⟩

theorem rejectsWithin_endOfInput {t : Token} {rest : Input} (h : input.Reaches [t] rest) :
    RejectsWithin 1 endOfInput input := by
  cases h with
  | cons h => exact ⟨[], _, rfl, by simp⟩

section RejectsWithin

variable {count : Nat} {p : Parser α} (h : RejectsWithin count p input)

include h

theorem RejectsWithin.mono {more : Nat} (hle : count ≤ more) : RejectsWithin more p input := by
  obtain ⟨es, cause, hp, hlt⟩ := h
  exact ⟨es, cause, hp, by omega⟩

theorem RejectsWithin.map (f : α → β) : RejectsWithin count (p.map f) input := by
  obtain ⟨es, cause, hp, hlt⟩ := h
  exact ⟨es, cause, by simp [Parser.map, hp], hlt⟩

theorem RejectsWithin.withRange : RejectsWithin count p.withRange input := by
  obtain ⟨es, cause, hp, hlt⟩ := h
  exact ⟨es, cause, by simp [Parser.withRange, hp], hlt⟩

theorem RejectsWithin.check (f : α → List Fault) : RejectsWithin count (p.check f) input := by
  obtain ⟨es, cause, hp, hlt⟩ := h
  exact ⟨es, cause, by simp [Parser.check, hp], hlt⟩

theorem RejectsWithin.seqWith (q : Parser β) (f : α → β → γ) :
    RejectsWithin count (seqWith f p q) input := by
  obtain ⟨es, cause, hp, hlt⟩ := h
  exact ⟨es, cause, by simp [Parser.seqWith, hp], hlt⟩

theorem RejectsWithin.orElse {q : Parser α} (h' : RejectsWithin count q input) :
    RejectsWithin count (p.orElse q) input := by
  rcases ho : p.orElse q input with ⟨es, ⟨v, alternative, rest⟩ | cause⟩
  · rcases accepts_or_of_accepts_orElse (accepts_of_eq ho) with ha | ha
    · exact absurd ha (h.rejects _ _ _)
    · exact absurd ha (h'.rejects _ _ _)
  · refine ⟨es, cause, ho, ?_⟩
    obtain ⟨es₁, cause₁, es₂, cause₂, h₁, h₂, hcause, -⟩ := orElse_eq_rejected ho
    have hlt₁ := h.reach_lt h₁
    have hlt₂ := h'.reach_lt h₂
    rcases hcause with rfl | ⟨-, rfl | rfl⟩
    · rw [Located.reach_furthest]
      omega
    · exact hlt₁
    · exact hlt₂

/-- Behind one token a rejection lies one lexeme further. -/
theorem RejectsWithin.seqRight_token {before : Input} {t : Token}
    (ht : before.Reaches [t] input) : RejectsWithin (count + 1) ((token t).seqRight p) before := by
  obtain ⟨es, cause, hp, hlt⟩ := h
  cases ht with
  | cons ht =>
    obtain rfl := Input.reaches_nil_iff.1 ht
    refine ⟨es, cause, ?_, by simp only at hlt ⊢; omega⟩
    simp [seqRight, Parser.seqWith, token, Outcome.accept, hp, Located.furthestOf]

end RejectsWithin

theorem rejectsWithin_between {first last t : Token} {rest : Input} (h : input.Reaches [t] rest)
    (hne : t ≠ first) (p : Parser α) : RejectsWithin 1 (p.between first last) input :=
  ((rejectsWithin_token h hne).seqWith _ _).seqWith _ _

theorem rejectsWithin_recursive {step : Parser α → Parser α} {count : Nat}
    (h : ∀ inner, RejectsWithin count (step inner) input) :
    RejectsWithin count (recursive step) input :=
  h (unfolded step input.remaining.length)

/-! ## Directives -/

theorem rejectsWithin_blockEnd (h : BeginsBlock input) : RejectsWithin 2 blockEnd input := by
  have hend : RejectsWithin 2 endOfInput input := by
    obtain ⟨t, rest, hr, -⟩ := h.exists_reaches
    exact (rejectsWithin_endOfInput hr).mono (by omega)
  refine RejectsWithin.orElse (RejectsWithin.map (RejectsWithin.withRange ?_) _)
    (hend.withRange.map _)
  rcases h with ⟨rest, hr⟩ | ⟨construct, rest, hr⟩
  · exact (rejectsWithin_between hr (by simp) _).mono (by omega)
  · obtain ⟨middle, h₁, h₂⟩ := Input.reaches_cons_iff.1 hr
    refine RejectsWithin.seqWith (RejectsWithin.seqRight_token ?_ h₁) _ _
    exact rejectsWithin_satisfy h₂ (by cases construct <;> rfl)

variable {S H : Type} {statement : Parser S}

theorem faithful_bodyItem (hs : statement.Faithful headers whole BeginsBlock bound) :
    (bodyItem statement).Faithful headers whole BeginsBlock bound := by
  have htrailing : (trailing : Parser (Option S)).Plain whole bound :=
    ((plain_satisfy _ _).seqWith plain_blockEnd.lookAhead _).map _
  refine htrailing.faithful.orElse (hs.map some) fun {input} hb => .inl ?_
  obtain ⟨t, rest, hr, ht⟩ := hb.exists_reaches
  have hpadding : RejectsWithin 1 padding input := by
    rcases ht with rfl | rfl
    · exact rejectsWithin_satisfy hr rfl
    · exact rejectsWithin_satisfy hr rfl
  exact ((hpadding.seqWith _ _).map _).mono (by omega)

theorem loops_blockBody (hs : statement.Faithful headers whole BeginsBlock bound) :
    (blockBody statement).Loops headers whole BeginsBlock (fun _ => True) bound := by
  have hpadding : padding.optional.Plain whole bound := (plain_satisfy _ _).optional
  refine Loops.map (hpadding.seqWith_loops (fun _ _ => trivial) (faithful_bodyItem hs).many ?_ _) _
  exact fun hw hlt h => (hpadding.accepted hw hlt h).2.1.length_le.trans_lt hlt

/-- The faults of a block are about its own directives. -/
theorem grave_of_mem_faults {construct : Construct} {header : List Token}
    {first last rest : Input} {ending : BlockEnd} (hw : whole.Precedes input)
    (hheader : headers construct header)
    (hopening : input.Reaches (construct.openingTokens header) first)
    (hbody : first.Precedes last) (hend : blockEnd.Accepts last [] ending rest)
    (hbegins : begins input) {fault : Fault}
    (hfault : fault ∈ ending.faults construct (input.rangeTo first)) :
    Grave headers whole begins input ⟨rest.read, fault⟩ := by
  have hread : input.read + 2 ≤ rest.read := by
    have hfirst := hopening.read_eq
    simp only [Construct.openingTokens, List.length_cons] at hfirst
    have := hbody.read_le
    obtain ⟨-, ⟨word, -, hr, -⟩ | ⟨-, rfl, -⟩⟩ := accepts_blockEnd_iff.1 hend
    · have := hr.precedes.read_le
      omega
    · omega
  refine ⟨hbegins, ?_, hread⟩
  obtain ⟨-, ⟨word, hword, hr, rfl⟩ | ⟨-, rfl, rfl⟩⟩ := accepts_blockEnd_iff.1 hend
  · simp only [BlockEnd.faults] at hfault
    split at hfault
    · cases hfault
    · next hne =>
      obtain rfl := List.mem_singleton.1 hfault
      exact .mismatched hw hheader hopening hbody hword hr hne
  · obtain rfl := List.mem_singleton.1 hfault
    have hsize : rest.endRange = whole.endRange := by
      simp only [Input.endRange, ((hw.trans hopening.precedes).trans hbody).size_eq]
    rw [hsize]
    exact .unterminated hw hheader hopening

/-- The parser of a header between its brackets reads a header of the construct. -/
def ReadsHeader (header : Parser H) (headers : Construct → List Token → Prop) (whole : Input)
    (construct : Construct) : Prop :=
  ∀ {input es h rest}, whole.Precedes input →
    (header.between .openStatement .closeStatement).Accepts input es h rest →
    ∃ ts, headers construct ts ∧ input.Reaches (construct.openingTokens ts) rest

theorem ReadsHeader.beginsBlock {construct : Construct} {header : Parser H}
    (hheader : header.ReadsHeader headers whole construct) {es : List Located} {h : H}
    {rest : Input} (hw : whole.Precedes input)
    (ha : (header.between .openStatement .closeStatement).Accepts input es h rest) :
    BeginsBlock input ∧ rest.remaining.length < input.remaining.length := by
  obtain ⟨ts, -, hr⟩ := hheader hw ha
  obtain ⟨middle, hwords, -⟩ :=
    (@Input.reaches_append_iff _ _ [.openStatement, .keyword construct.opening] _).1 hr
  exact ⟨.inr ⟨construct, middle, hwords⟩, hr.length_lt⟩

theorem faithful_block {construct : Construct} {header : Parser H}
    (hplain : header.Plain whole bound) (hheader : header.ReadsHeader headers whole construct)
    (hs : statement.Faithful headers whole BeginsBlock bound) :
    (block construct header statement).Faithful headers whole BeginsBlock (bound + 1) := by
  let opening := (header.between .openStatement .closeStatement).withRange
  have hopening {input es v alternative rest} (hw : whole.Precedes input)
      (h : opening input = ⟨es, .accepted v alternative rest⟩) :
      BeginsBlock input ∧ rest.remaining.length < input.remaining.length := by
    obtain ⟨a, ha, -⟩ := withRange_eq_accepted h
    exact hheader.beginsBlock hw (accepts_of_eq ha)
  have hbody := loops_blockBody hs
  have hseq : (opening.seq (blockBody statement)).Loops headers whole BeginsBlock BeginsBlock
      (bound + 1) :=
    (hplain.between _ _).withRange.seqWith_loops (fun hw h => (hopening hw h).1) hbody
      (fun hw hlt h => by have := (hopening hw h).2; omega) _
  have hwhole : ((opening.seq (blockBody statement)).seq blockEnd).Faithful headers whole
      BeginsBlock (bound + 1) := hseq.seqWith plain_blockEnd rejectsWithin_blockEnd _
  refine Faithful.map ⟨?_, fun hw hlt h => hwhole.rejected hw hlt (check_eq_rejected h)⟩ _
  intro input rest es v alternative hw hlt hcheck
  obtain ⟨es', h, rfl⟩ := check_eq_accepted hcheck
  obtain ⟨hes, hr, halt⟩ := hwhole.accepted hw hlt h
  refine ⟨fun e he => (List.mem_append.1 he).elim (hes e) fun he => ?_, hr, halt⟩
  obtain ⟨fault, hfault, rfl⟩ := List.mem_map.1 he
  -- the range of the opening directive is that from the block's first lexeme to its body
  obtain ⟨_, _, _, last, _, ending, _, h₁, h₂, -, rfl, -⟩ := seqWith_eq_accepted h
  obtain ⟨_, _, _, first, _, body, _, h₃, h₄, -, rfl, -⟩ := seqWith_eq_accepted h₁
  obtain ⟨a, ha, rfl⟩ := withRange_eq_accepted h₃
  obtain ⟨ts, hts, hopen⟩ := hheader hw (accepts_of_eq ha)
  obtain ⟨hbegins, hfirst⟩ := hopening hw h₃
  obtain ⟨-, -, hlast, -⟩ := hbody.accepted (hw.trans hopen.precedes) (by omega) h₄
  have hend := accepts_of_eq h₂
  rw [silent_blockEnd.reported_eq_nil hend] at hend
  exact grave_of_mem_faults hw hts hopen hlast hend hbegins hfault

theorem rejectsWithin_block {construct : Construct} {header : Parser H} {count : Nat}
    (h : RejectsWithin count (header.between .openStatement .closeStatement) input) :
    RejectsWithin count (block construct header statement) input :=
  (((h.withRange.seqWith _ _).seqWith _ _).check _).map _

variable {E L : Type} {expression : Parser E}

/-- Behind the bracket of a directive, headers are told apart by their keyword. -/
theorem rejectsWithin_headers (construct : Construct) {rest : Input}
    (h : input.Reaches [.openStatement, .keyword construct.opening] rest)
    (statement : Parser (Statement E L)) :
    RejectsWithin 2 (block .forIn (forHeader expression) statement) input ∨
      RejectsWithin 2 (block .join (joinHeader expression) statement) input := by
  obtain ⟨middle, h₁, h₂⟩ := Input.reaches_cons_iff.1 h
  cases construct with
  | forIn =>
    refine .inr (rejectsWithin_block (RejectsWithin.seqWith (RejectsWithin.seqRight_token ?_ h₁)
      _ _))
    have hword : RejectsWithin 1 (keyword .join) middle := rejectsWithin_token h₂ (by decide)
    exact ((((hword.seqWith _ _).seqWith _ _).seqWith _ _).seqWith _ _).seqWith _ _
  | join =>
    refine .inl (rejectsWithin_block (RejectsWithin.seqWith (RejectsWithin.seqRight_token ?_ h₁)
      _ _))
    have hword : RejectsWithin 1 (keyword .for_) middle := rejectsWithin_token h₂ (by decide)
    exact ((hword.seqWith _ _).seqWith _ _).seqWith _ _

theorem rejectsWithin_directive {t : Token} {rest : Input} (h : input.Reaches [t] rest)
    (ht : t.opens = false) (statement : Parser (Statement E L)) :
    RejectsWithin 2 (directive expression statement) input := by
  have hne : t ≠ .openExpression ∧ t ≠ .openStatement := by
    constructor <;> rintro rfl <;> cases ht
  have hinterpolation : RejectsWithin 1 (interpolation expression) input :=
    rejectsWithin_between h hne.1 expression
  have hfor : RejectsWithin 1 (block .forIn (forHeader expression) statement) input :=
    rejectsWithin_block (rejectsWithin_between h hne.2 _)
  have hjoin : RejectsWithin 1 (block .join (joinHeader expression) statement) input :=
    rejectsWithin_block (rejectsWithin_between h hne.2 _)
  obtain ⟨es₁, cause₁, h₁, hlt₁⟩ := hinterpolation
  obtain ⟨es₂, cause₂, h₂, hlt₂⟩ := hfor
  obtain ⟨es₃, cause₃, h₃, hlt₃⟩ := hjoin
  refine ⟨[], cause₃.furthest (cause₂.furthest cause₁), ?_, ?_⟩
  · simp only [directive, firstOf, firstOfAfter, Parser.map, h₁, h₂, h₃]
    rfl
  · rw [Located.reach_furthest, Located.reach_furthest]
    omega

theorem faithful_directive {statement : Parser (Statement E L)} (he : expression.Plain whole bound)
    (hf : (forHeader expression).ReadsHeader headers whole .forIn)
    (hj : (joinHeader expression).ReadsHeader headers whole .join)
    (hs : statement.Faithful headers whole BeginsBlock bound) :
    (directive expression statement).Faithful headers whole BeginsBlock (bound + 1) := by
  have hfor := faithful_block (plain_forHeader he) hf hs
  have hjoin := faithful_block (plain_joinHeader he) hj hs
  have hinterpolation := he.between .openExpression .closeExpression
  constructor
  · intro input rest es v alternative hw hlt h
    obtain ⟨p, hp, h⟩ := firstOf_eq_accepted h
    simp only [List.mem_cons, List.not_mem_nil, or_false] at hp
    rcases hp with rfl | rfl | rfl
    · exact (hinterpolation.map _).faithful.accepted hw hlt h
    · exact (hfor.map _).accepted hw hlt h
    · exact (hjoin.map _).accepted hw hlt h
  · intro input es cause hw hlt h
    obtain ⟨rfl, es₁, cause₁, es₂, cause₂, es₃, cause₃, h₁, h₂, h₃, rfl⟩ :=
      firstOf_three_eq_rejected h
    have h₁ := map_eq_rejected h₁
    have h₂ := map_eq_rejected h₂
    have h₃ := map_eq_rejected h₃
    have hc₁ := (hinterpolation.rejected hw hlt h₁).2
    have hc₂ := (hfor.rejected hw hlt h₂).2
    have hc₃ := (hjoin.rejected hw hlt h₃).2
    refine ⟨by simp, hc₃.furthest (hc₂.furthest_of_points hc₁) fun hb => ?_⟩
    -- where a block can begin, an interpolation and one of the two blocks are given up early
    obtain ⟨t, rest, hr, ht⟩ := hb.exists_reaches
    have hlt₁ := RejectsWithin.reach_lt (rejectsWithin_between hr
      (by rcases ht with rfl | rfl <;> decide) expression) h₁
    have hearly : cause₃.reach < input.read + 2 ∨ cause₂.reach < input.read + 2 := by
      rcases hb with ⟨rest, hr⟩ | ⟨construct, rest, hr⟩
      · have := RejectsWithin.reach_lt
          (rejectsWithin_block (rejectsWithin_between hr (by decide) _)) h₃
        omega
      · rcases rejectsWithin_headers construct hr statement with hfor' | hjoin'
        · exact .inr (hfor'.reach_lt h₂)
        · exact .inl (hjoin'.reach_lt h₃)
    rw [Located.reach_furthest]
    omega

end Parser

/-! ## Statements and templates -/

variable {E L : Type}

/-- What a dialect has to keep to behind `whole`: its expressions are plain, they make up the
headers of its blocks, and its plain statements are faithful and do not begin like a directive. -/
structure Dialect.KeepsFaults (dialect : Dialect E L) (headers : Construct → List Token → Prop)
    (whole : Input) : Prop where
  expression : ∀ bound, dialect.expression.Plain whole bound
  forHeader : (Parser.forHeader dialect.expression).ReadsHeader headers whole .forIn
  joinHeader : (Parser.joinHeader dialect.expression).ReadsHeader headers whole .join
  plain : ∀ {bound : Nat} {statement : Parser (Statement E L)},
    statement.Faithful headers whole Parser.BeginsBlock bound →
    (dialect.plain statement).Faithful headers whole Parser.BeginsBlock (bound + 1)
  rejectsWithin : ∀ {input rest : Input} (statement : Parser (Statement E L)),
    input.Reaches [.openStatement] rest → Parser.RejectsWithin 2 (dialect.plain statement) input

namespace Parser

variable {dialect : Dialect E L} (hd : dialect.KeepsFaults headers whole)

include hd

theorem faithful_statement (bound : Nat) :
    dialect.statement.Faithful headers whole BeginsBlock bound := by
  let step := fun statement : Parser (Statement E L) =>
    ((dialect.plain statement).map .plain).orElse (directive dialect.expression statement)
  have hunfolded : ∀ depth, (unfolded step depth).Faithful headers whole BeginsBlock depth := by
    intro depth
    induction depth with
    | zero =>
      exact ⟨fun _ hlt => absurd hlt (Nat.not_lt_zero _),
        fun _ hlt => absurd hlt (Nat.not_lt_zero _)⟩
    | succ depth ih =>
      refine ((hd.plain ih).map .plain).orElse
        (faithful_directive (hd.expression depth) hd.forHeader hd.joinHeader ih) fun hb => ?_
      rcases hb with ⟨rest, hr⟩ | ⟨construct, rest, hr⟩
      · exact .inr (rejectsWithin_directive hr rfl _)
      · obtain ⟨middle, hr, -⟩ := Input.reaches_cons_iff.1 hr
        exact .inl ((hd.rejectsWithin _ hr).map _)
  exact ⟨fun hw _ h => (hunfolded _).accepted hw (Nat.lt_succ_self _) h,
    fun hw _ h => (hunfolded _).rejected hw (Nat.lt_succ_self _) h⟩

/-- The faults of a whole template are truthful or point at a token. -/
theorem faithful_template (bound : Nat) :
    dialect.template.Faithful headers whole (fun _ => True) bound := by
  refine (faithful_statement hd bound).many.seqWith plain_endOfInput (fun hb => ?_) _
  obtain ⟨t, rest, hr, -⟩ := hb.exists_reaches
  exact (rejectsWithin_endOfInput hr).mono (by omega)

end Parser

end Stencil
