import Stencil.Proofs.Parser.Acceptance

/-!
# Outcomes of combined parsers

Where a fault comes from is seen from the whole outcome of a parser, with its alternatives and
causes. Each combinator has two lemmas here, one for the outcomes in which it accepts and one for
those in which it rejects; they say which outcomes of its parts these come from.

* `seqWith_eq_accepted`, `seqWith_eq_rejected`: one parser behind the other.
* `orElse_eq_accepted`, `orElse_eq_rejected`: a choice.
* `Located.reach_furthest`, `Located.furthest_cases`: how two faults become one.
-/

namespace Stencil

/-! ## Two faults -/

namespace Located

theorem reach_furthest (a b : Located) : (a.furthest b).reach = max a.reach b.reach := by
  unfold furthest
  split
  · omega
  split
  · omega
  · simp only
    omega

theorem furthest_eq_left {a b : Located} (h : b.reach < a.reach) : a.furthest b = a :=
  if_pos h

theorem furthest_eq_right {a b : Located} (h : a.reach < b.reach) : a.furthest b = b := by
  unfold furthest
  rw [if_neg (by omega), if_pos h]

/-- Of two faults one is kept, or they reached equally far and are merged. -/
theorem furthest_cases (a b : Located) :
    (b.reach < a.reach ∧ a.furthest b = a) ∨ (a.reach < b.reach ∧ a.furthest b = b) ∨
      (a.reach = b.reach ∧ a.furthest b = ⟨a.reach, a.fault.merge b.fault⟩) := by
  rcases Nat.lt_trichotomy a.reach b.reach with h | h | h
  · exact .inr (.inl ⟨h, furthest_eq_right h⟩)
  · refine .inr (.inr ⟨h, ?_⟩)
    unfold furthest
    rw [if_neg (by omega), if_neg (by omega)]
  · exact .inl ⟨h, furthest_eq_left h⟩

/-- What holds of the parts of a joined alternative, and passes to the further of two faults,
holds of the joined alternative. -/
theorem forall_mem_join {P : Located → Prop} {earlier later : Option Located}
    (hf : ∀ a ∈ earlier, ∀ b ∈ later, P a → P b → P (b.furthest a))
    (he : ∀ a ∈ earlier, P a) (hl : ∀ a ∈ later, P a) : ∀ a ∈ join earlier later, P a := by
  cases earlier with
  | none => simpa [join] using hl
  | some a =>
    cases later with
    | none => simpa [join] using he
    | some b =>
      simp only [Option.mem_def, Option.some.injEq, forall_eq'] at he hl hf
      simpa [join] using hf he hl

/-- What was given up, if anything, lies before a place. -/
def Below (bound : Nat) (alternative : Option Located) : Prop :=
  ∀ a ∈ alternative, a.reach < bound

theorem below_none (bound : Nat) : Below bound none := by
  simp [Below]

theorem Below.mono {bound further : Nat} {alternative : Option Located}
    (h : Below bound alternative) (hle : bound ≤ further) : Below further alternative :=
  fun a ha => Nat.lt_of_lt_of_le (h a ha) hle

theorem Below.join {bound : Nat} {earlier later : Option Located} (he : Below bound earlier)
    (hl : Below bound later) : Below bound (join earlier later) := by
  refine forall_mem_join (fun a _ b _ ha hb => ?_) he hl
  rw [reach_furthest]
  omega

/-- What lies before a fault is forgotten. -/
theorem Below.join_some {located : Located} {given : Option Located}
    (h : Below located.reach given) : Located.join given (some located) = some located := by
  cases given with
  | none => rfl
  | some a => exact congrArg some (furthest_eq_left (h a rfl))

theorem Below.furthestOf {located : Located} {alternative : Option Located}
    (h : Below located.reach alternative) : located.furthestOf alternative = located := by
  cases alternative with
  | none => rfl
  | some a => exact furthest_eq_left (h a rfl)

end Located

namespace Parser

variable {α β γ : Type}

/-! ## Changed outcomes -/

theorem map_eq_accepted {f : α → β} {p : Parser α} {input rest : Input} {es : List Located}
    {v : β} {alternative : Option Located}
    (h : p.map f input = ⟨es, .accepted v alternative rest⟩) :
    ∃ a, p input = ⟨es, .accepted a alternative rest⟩ ∧ f a = v := by
  unfold map at h
  split at h
  · next hp =>
    cases h
    exact ⟨_, hp, rfl⟩
  · cases h

theorem map_eq_rejected {f : α → β} {p : Parser α} {input : Input} {es : List Located}
    {cause : Located} (h : p.map f input = ⟨es, .rejected cause⟩) :
    p input = ⟨es, .rejected cause⟩ := by
  unfold map at h
  split at h
  · cases h
  · next hp =>
    cases h
    exact hp

theorem withRange_eq_accepted {p : Parser α} {input rest : Input} {es : List Located}
    {v : α × ByteRange} {alternative : Option Located}
    (h : p.withRange input = ⟨es, .accepted v alternative rest⟩) :
    ∃ a, p input = ⟨es, .accepted a alternative rest⟩ ∧ (a, input.rangeTo rest) = v := by
  unfold withRange at h
  split at h
  · next hp =>
    cases h
    exact ⟨_, hp, rfl⟩
  · cases h

theorem withRange_eq_rejected {p : Parser α} {input : Input} {es : List Located} {cause : Located}
    (h : p.withRange input = ⟨es, .rejected cause⟩) : p input = ⟨es, .rejected cause⟩ := by
  unfold withRange at h
  split at h
  · cases h
  · next hp =>
    cases h
    exact hp

theorem check_eq_accepted {f : α → List Fault} {p : Parser α} {input rest : Input}
    {es : List Located} {v : α} {alternative : Option Located}
    (h : p.check f input = ⟨es, .accepted v alternative rest⟩) :
    ∃ es', p input = ⟨es', .accepted v alternative rest⟩ ∧
      es = es' ++ (f v).map (⟨rest.read, ·⟩) := by
  unfold check at h
  split at h
  · next hp =>
    cases h
    exact ⟨_, hp, rfl⟩
  · next hno => exact absurd h (hno _ _ _ _)

theorem check_eq_rejected {f : α → List Fault} {p : Parser α} {input : Input} {es : List Located}
    {cause : Located} (h : p.check f input = ⟨es, .rejected cause⟩) :
    p input = ⟨es, .rejected cause⟩ := by
  unfold check at h
  split at h
  · cases h
  · exact h

theorem lookAhead_eq_accepted {p : Parser α} {input rest : Input} {es : List Located} {v : α}
    {alternative : Option Located}
    (h : p.lookAhead input = ⟨es, .accepted v alternative rest⟩) :
    rest = input ∧ ∃ later, p input = ⟨es, .accepted v alternative later⟩ := by
  unfold lookAhead at h
  split at h
  · next hp =>
    cases h
    exact ⟨rfl, _, hp⟩
  · next hno => exact absurd h (hno _ _ _ _)

theorem lookAhead_eq_rejected {p : Parser α} {input : Input} {es : List Located} {cause : Located}
    (h : p.lookAhead input = ⟨es, .rejected cause⟩) : p input = ⟨es, .rejected cause⟩ := by
  unfold lookAhead at h
  split at h
  · cases h
  · exact h

theorem mapFault_eq_accepted {f : Fault → Fault} {p : Parser α} {input rest : Input}
    {es : List Located} {v : α} {alternative : Option Located}
    (h : p.mapFault f input = ⟨es, .accepted v alternative rest⟩) :
    p input = ⟨es, .accepted v alternative rest⟩ := by
  unfold mapFault at h
  split at h
  · cases h
  · exact h

theorem mapFault_eq_rejected {f : Fault → Fault} {p : Parser α} {input : Input}
    {es : List Located} {cause : Located} (h : p.mapFault f input = ⟨es, .rejected cause⟩) :
    ∃ cause', p input = ⟨es, .rejected cause'⟩ ∧ cause = cause'.map f := by
  unfold mapFault at h
  split at h
  · next hp =>
    cases h
    exact ⟨_, hp, rfl⟩
  · next hno => exact absurd h (hno _ _)

theorem labelled_eq_accepted {label : String} {p : Parser α} {input rest : Input}
    {es : List Located} {v : α} {alternative : Option Located}
    (h : p.labelled label input = ⟨es, .accepted v alternative rest⟩) :
    ∃ es' alternative', p input = ⟨es', .accepted v alternative' rest⟩ ∧
      es = es'.map (·.map (.withLabel label)) ∧
      alternative = alternative'.map (·.map (.withLabel label)) := by
  unfold labelled at h
  split at h
  · next hp =>
    cases h
    exact ⟨_, _, hp, rfl, rfl⟩
  · cases h

theorem labelled_eq_rejected {label : String} {p : Parser α} {input : Input} {es : List Located}
    {cause : Located} (h : p.labelled label input = ⟨es, .rejected cause⟩) :
    ∃ es' cause', p input = ⟨es', .rejected cause'⟩ ∧ es = es'.map (·.map (.withLabel label)) ∧
      cause = cause'.map (.withLabel label) := by
  unfold labelled at h
  split at h
  · cases h
  · next hp =>
    cases h
    exact ⟨_, _, hp, rfl, rfl⟩

/-! ## Sequence -/

theorem seqWith_eq_accepted {f : α → β → γ} {p : Parser α} {q : Parser β} {input rest : Input}
    {es : List Located} {v : γ} {alternative : Option Located}
    (h : seqWith f p q input = ⟨es, .accepted v alternative rest⟩) :
    ∃ es₁ a alt₁ middle es₂ b alt₂, p input = ⟨es₁, .accepted a alt₁ middle⟩ ∧
      q middle = ⟨es₂, .accepted b alt₂ rest⟩ ∧ es = es₁ ++ es₂ ∧ f a b = v ∧
      alternative = Located.join alt₁ alt₂ := by
  unfold seqWith at h
  split at h
  · cases h
  · next hp =>
    split at h
    · next hq =>
      cases h
      exact ⟨_, _, _, _, _, _, _, hp, hq, rfl, rfl, rfl⟩
    · cases h

theorem seqWith_eq_rejected {f : α → β → γ} {p : Parser α} {q : Parser β} {input : Input}
    {es : List Located} {cause : Located} (h : seqWith f p q input = ⟨es, .rejected cause⟩) :
    p input = ⟨es, .rejected cause⟩ ∨
      ∃ es₁ a alt₁ middle es₂ cause₂, p input = ⟨es₁, .accepted a alt₁ middle⟩ ∧
        q middle = ⟨es₂, .rejected cause₂⟩ ∧ es = es₁ ++ es₂ ∧
        cause = cause₂.furthestOf alt₁ := by
  unfold seqWith at h
  split at h
  · next hp =>
    cases h
    exact .inl hp
  · next hp =>
    split at h
    · cases h
    · next hq =>
      cases h
      exact .inr ⟨_, _, _, _, _, _, hp, hq, rfl, rfl⟩

/-! ## Choice -/

/-- An accepted choice is an accepted part, which may have remembered what the other part gave. -/
theorem orElse_eq_accepted {p q : Parser α} {input rest : Input} {es : List Located} {v : α}
    {alternative : Option Located}
    (h : p.orElse q input = ⟨es, .accepted v alternative rest⟩) :
    ∃ alternative',
      (p input = ⟨es, .accepted v alternative' rest⟩ ∧
        (alternative = alternative' ∨
          alternative = Located.join alternative' (q input).given)) ∨
      (q input = ⟨es, .accepted v alternative' rest⟩ ∧
        (alternative = alternative' ∨
          alternative = Located.join alternative' (p input).given)) := by
  have chosen {a b : Outcome α} (h : a.chosenOver b = ⟨es, .accepted v alternative rest⟩) :
      ∃ alternative', a = ⟨es, .accepted v alternative' rest⟩ ∧
        alternative = Located.join alternative' b.given := by
    unfold Outcome.chosenOver at h
    split at h
    · cases h
      exact ⟨_, rfl, rfl⟩
    · next hno => exact absurd h (hno _ _ _ _)
  simp only [orElse] at h
  split at h
  · exact ⟨_, .inl ⟨h, .inl rfl⟩⟩
  split at h
  · exact ⟨_, .inr ⟨h, .inl rfl⟩⟩
  unfold Outcome.choose at h
  split at h
  · obtain ⟨alternative', ha, halt⟩ := chosen h
    exact ⟨alternative', .inl ⟨ha, .inr halt⟩⟩
  · obtain ⟨alternative', hb, halt⟩ := chosen h
    exact ⟨alternative', .inr ⟨hb, .inr halt⟩⟩
  · split at h
    · cases h
    · exact ⟨_, .inl ⟨h, .inl rfl⟩⟩

/-- Two rejections are chosen between by how far they reached; if that was equally far they are
merged, unless something was reported. -/
theorem choose_eq_rejected {es₁ es₂ es : List Located} {cause₁ cause₂ cause : Located}
    (h : Outcome.choose (α := α) ⟨es₁, .rejected cause₁⟩ ⟨es₂, .rejected cause₂⟩ =
      ⟨es, .rejected cause⟩) :
    (cause = cause₁.furthest cause₂ ∨
      ¬ (es₁ = [] ∧ es₂ = []) ∧ (cause = cause₁ ∨ cause = cause₂)) ∧ (es = es₁ ∨ es = es₂) := by
  simp only [Outcome.choose, Outcome.prefersFirst, Located.reachedFurther] at h
  rcases Located.furthest_cases cause₁ cause₂ with ⟨hlt, hf⟩ | ⟨hlt, hf⟩ | ⟨heq, -⟩
  · simp only [if_pos hlt, Option.orElse_some, Outcome.chosenOver, Outcome.mk.injEq,
      Reply.rejected.injEq] at h
    exact ⟨.inl (h.2.symm.trans hf.symm), .inl h.1.symm⟩
  · simp only [if_neg (Nat.lt_asymm hlt), if_pos hlt, Option.orElse_some, Outcome.chosenOver,
      Outcome.mk.injEq, Reply.rejected.injEq] at h
    exact ⟨.inl (h.2.symm.trans hf.symm), .inr h.1.symm⟩
  · simp only [heq, Nat.lt_irrefl, if_false, Option.orElse_none] at h
    by_cases hes : es₁ = [] ∧ es₂ = []
    · obtain ⟨rfl, rfl⟩ := hes
      simp at h
      exact ⟨.inl h.2.symm, .inl h.1⟩
    · split at h
      all_goals
        simp only [Outcome.chosenOver, Outcome.mk.injEq, Reply.rejected.injEq] at h
      · exact ⟨.inr ⟨hes, .inl h.2.symm⟩, .inl h.1.symm⟩
      · exact ⟨.inr ⟨hes, .inr h.2.symm⟩, .inr h.1.symm⟩
      · exact ⟨.inl h.2.symm, .inl h.1.symm⟩

/-- Where nothing is reported, an accepted choice is the outcome of one part. -/
theorem orElse_eq_accepted_nil {p q : Parser α} {input rest : Input} {v : α}
    {alternative : Option Located}
    (h : p.orElse q input = ⟨[], .accepted v alternative rest⟩) :
    p input = ⟨[], .accepted v alternative rest⟩ ∨
      q input = ⟨[], .accepted v alternative rest⟩ := by
  obtain ⟨alternative', ⟨hp, -⟩ | ⟨hq, -⟩⟩ := orElse_eq_accepted h
  · have hclean : (p input).isClean = true := by rw [hp]; rfl
    simp only [orElse, hclean, if_true] at h
    exact .inl h
  · have hclean : (q input).isClean = true := by rw [hq]; rfl
    simp only [orElse, hclean, if_true] at h
    split at h
    · exact .inl h
    · exact .inr h

/-- A choice rejects if both parts do. -/
theorem orElse_eq_rejected {p q : Parser α} {input : Input} {es : List Located} {cause : Located}
    (h : p.orElse q input = ⟨es, .rejected cause⟩) :
    ∃ es₁ cause₁ es₂ cause₂, p input = ⟨es₁, .rejected cause₁⟩ ∧
      q input = ⟨es₂, .rejected cause₂⟩ ∧
      (cause = cause₁.furthest cause₂ ∨
        ¬ (es₁ = [] ∧ es₂ = []) ∧ (cause = cause₁ ∨ cause = cause₂)) ∧
      (es = es₁ ∨ es = es₂) := by
  simp only [orElse] at h
  split at h
  · next hclean =>
    obtain ⟨v, alternative, rest, hv⟩ := isClean_iff.1 hclean
    cases hv.symm.trans h
  split at h
  · next hclean =>
    obtain ⟨v, alternative, rest, hv⟩ := isClean_iff.1 hclean
    cases hv.symm.trans h
  -- an outcome that accepts would have been chosen
  rcases hp : p input with ⟨es₁, ⟨v, alternative, rest⟩ | cause₁⟩ <;>
    rcases hq : q input with ⟨es₂, ⟨w, alternative', rest'⟩ | cause₂⟩ <;> rw [hp, hq] at h
  · simp only [Outcome.choose, Outcome.prefersFirst] at h
    split at h <;> simp_all [Outcome.chosenOver]
  · simp [Outcome.choose, Outcome.prefersFirst, Outcome.chosenOver] at h
  · simp [Outcome.choose, Outcome.prefersFirst, Outcome.chosenOver] at h
  · obtain ⟨hcause, hes⟩ := choose_eq_rejected h
    exact ⟨es₁, cause₁, es₂, cause₂, rfl, rfl, hcause, hes⟩

/-- If nothing is reported on the way, the further one of two faults is kept. -/
theorem orElse_of_rejected_nil {p q : Parser α} {input : Input} {a b : Located}
    (hp : p input = ⟨[], .rejected a⟩) (hq : q input = ⟨[], .rejected b⟩) :
    p.orElse q input = ⟨[], .rejected (a.furthest b)⟩ := by
  have hchoose : p.orElse q input = Outcome.choose ⟨[], .rejected a⟩ ⟨[], .rejected b⟩ := by
    rw [← hp, ← hq]
    simp [orElse, hp, hq, Outcome.isClean]
  obtain ⟨es, cause, hc⟩ := choose_rejected (α := α) [] [] a b
  obtain ⟨hcause, hes⟩ := choose_eq_rejected hc
  obtain rfl : es = [] := by simpa using hes
  obtain rfl := hcause.resolve_right fun hne => hne.1 ⟨rfl, rfl⟩
  exact hchoose.trans hc

theorem firstOf_eq_accepted {given : Option Located} {ps : List (Parser α)} {input rest : Input}
    {es : List Located} {v : α} {alternative : Option Located}
    (h : firstOfAfter given ps input = ⟨es, .accepted v alternative rest⟩) :
    ∃ p ∈ ps, p input = ⟨es, .accepted v alternative rest⟩ := by
  induction ps generalizing given with
  | nil => simp [firstOfAfter] at h
  | cons p ps ih =>
    simp only [firstOfAfter] at h
    split at h
    · obtain ⟨q, hq, hacc⟩ := ih h
      exact ⟨q, List.mem_cons_of_mem _ hq, hacc⟩
    · exact ⟨p, List.mem_cons_self, h⟩

/-- The first of three parsers: if it rejects, all do. What they reported is dropped, and their
faults become one. -/
theorem firstOf_three_eq_rejected {p q r : Parser α} {input : Input} {es : List Located}
    {cause : Located} (h : firstOf [p, q, r] input = ⟨es, .rejected cause⟩) :
    es = [] ∧ ∃ es₁ cause₁ es₂ cause₂ es₃ cause₃, p input = ⟨es₁, .rejected cause₁⟩ ∧
      q input = ⟨es₂, .rejected cause₂⟩ ∧ r input = ⟨es₃, .rejected cause₃⟩ ∧
      cause = cause₃.furthest (cause₂.furthest cause₁) := by
  rcases hp : p input with ⟨es₁, _ | cause₁⟩
  · simp [firstOf, firstOfAfter, hp] at h
  rcases hq : q input with ⟨es₂, _ | cause₂⟩
  · simp [firstOf, firstOfAfter, hp, hq] at h
  rcases hr : r input with ⟨es₃, _ | cause₃⟩
  · simp [firstOf, firstOfAfter, hp, hq, hr] at h
  · simp only [firstOf, firstOfAfter, hp, hq, hr] at h
    cases h
    exact ⟨rfl, es₁, cause₁, es₂, cause₂, es₃, cause₃, rfl, rfl, rfl, rfl⟩

/-! ## Repetition -/

theorem cons_after_ne_rejected {outcome : Outcome (List α)} {v : α} {before es : List Located}
    {cause : Located} (h : ∀ es, outcome ≠ ⟨es, .rejected cause⟩) :
    (outcome.cons v).after before ≠ ⟨es, .rejected cause⟩ := by
  rcases outcome with ⟨es', ⟨ws, a, r⟩ | cause'⟩
  · simp [Outcome.cons, Outcome.after]
  · intro heq
    cases heq
    exact h _ rfl

/-- A loop never rejects. -/
theorem manyAfter_ne_rejected (p : Parser α) (given : Option Located) (input : Input)
    (es : List Located) (cause : Located) :
    manyAfter p given input ≠ ⟨es, .rejected cause⟩ := by
  fun_induction manyAfter p given input generalizing es with
  | case1 => simp
  | case2 _ _ _ _ _ _ _ _ ih => exact cons_after_ne_rejected ih
  | case3 => simp

theorem moreAfter_ne_rejected (p : Parser α) (separator : Parser Unit) (given : Option Located)
    (input : Input) (es : List Located) (cause : Located) :
    moreAfter p separator given input ≠ ⟨es, .rejected cause⟩ := by
  fun_induction moreAfter p separator given input generalizing es with
  | case1 => simp
  | case2 => simp
  | case3 =>
    rename_i ih
    exact cons_after_ne_rejected ih
  | case4 => simp

/-- A separated list is nothing, or an item and what the loop makes of the rest; it never
rejects. -/
theorem sepBy_eq {p : Parser α} {separator : Parser Unit} {input : Input} {es : List Located}
    {reply : Reply (List α)} (h : p.sepBy separator input = ⟨es, reply⟩) :
    (∃ cause, p input = ⟨es, .rejected cause⟩ ∧ reply = .accepted [] (some cause) input) ∨
      ∃ es₁ v alt₁ middle es₂ vs alternative rest,
        p input = ⟨es₁, .accepted v alt₁ middle⟩ ∧
        moreAfter p separator alt₁ middle = ⟨es₂, .accepted vs alternative rest⟩ ∧
        es = es₁ ++ es₂ ∧ reply = .accepted (v :: vs) alternative rest := by
  unfold sepBy at h
  split at h
  · next hp =>
    cases h
    exact .inl ⟨_, hp, rfl⟩
  · next es₁ v alt₁ middle hp =>
    rcases reply with ⟨vs, alternative, rest⟩ | cause
    · obtain ⟨es₂, ws, hm, rfl, rfl⟩ := cons_after_eq_accepted_iff.1 h
      exact .inr ⟨_, _, _, _, _, _, _, _, hp, hm, rfl, rfl⟩
    · exact absurd h
        (cons_after_ne_rejected fun es => moreAfter_ne_rejected p separator alt₁ middle es cause)

end Parser

end Stencil
