import Stencil.Dialect
import Stencil.Proofs.Lexeme.Ranges
import Stencil.Proofs.Parser.Blocks
import Stencil.Proofs.Parser.Outcomes

/-!
# Where faults point

A fault that a single token gives rise to points at the place that was reached: its range is that
of the lexeme there, and what it found is the token of this lexeme; at the end of input it is the
end range, and nothing was found. All faults of parsers without blocks are of this kind.

* `Input.Precedes` orders the places of a run; `Input.Points` says of a fault that it points at
  one of them.
* `Parser.Plain` says that a parser reports nothing and that its faults point. It passes through
  every combinator, and holds of patterns and headers.
-/

namespace Stencil

/-! ## Places of a run -/

namespace Input

variable {input middle rest : Input} {ts : List Token}

theorem Reaches.read_eq (h : input.Reaches ts rest) : rest.read = input.read + ts.length := by
  induction h with
  | nil => rfl
  | cons _ ih =>
    simp only [List.length_cons] at ih ⊢
    omega

theorem Reaches.size_eq (h : input.Reaches ts rest) : rest.size = input.size := by
  induction h with
  | nil => rfl
  | cons _ ih => exact ih

/-- The lexemes that are read stand in front of those that are left. -/
theorem Reaches.exists_remaining_eq (h : input.Reaches ts rest) :
    ∃ part, input.remaining = part ++ rest.remaining ∧ part.map Lexeme.token = ts := by
  induction h with
  | nil => exact ⟨[], rfl, rfl⟩
  | @cons lexeme _ _ _ _ _ _ ih =>
    obtain ⟨part, hpart, hts⟩ := ih
    exact ⟨lexeme :: part, congrArg _ hpart, congrArg _ hts⟩

/-- `rest` is a place at or behind `input` in the same run. -/
def Precedes (input rest : Input) : Prop :=
  ∃ ts, input.Reaches ts rest

theorem Precedes.refl (input : Input) : input.Precedes input :=
  ⟨[], .nil _⟩

theorem Precedes.trans (h : input.Precedes middle) (h' : middle.Precedes rest) :
    input.Precedes rest := by
  obtain ⟨ts, h⟩ := h
  obtain ⟨us, h'⟩ := h'
  exact ⟨ts ++ us, h.append h'⟩

theorem Reaches.precedes (h : input.Reaches ts rest) : input.Precedes rest :=
  ⟨ts, h⟩

theorem Precedes.read_le (h : input.Precedes rest) : input.read ≤ rest.read := by
  obtain ⟨ts, h⟩ := h
  rw [h.read_eq]
  omega

theorem Precedes.size_eq (h : input.Precedes rest) : rest.size = input.size := by
  obtain ⟨ts, h⟩ := h
  exact h.size_eq

theorem Precedes.length_le (h : input.Precedes rest) :
    rest.remaining.length ≤ input.remaining.length := by
  obtain ⟨ts, h⟩ := h
  obtain ⟨part, hpart, -⟩ := h.exists_remaining_eq
  simp [hpart]

/-- The range of the next lexeme, or of the end of input. -/
def nextRange (input : Input) : ByteRange :=
  match input.remaining with
  | [] => input.endRange
  | lexeme :: _ => lexeme.range

/-- What is read takes up the range from its first lexeme to its last. -/
theorem Reaches.exists_rangeTo_eq {t : Token} (h : input.Reaches (t :: ts) rest) :
    ∃ first later, input.remaining = first :: later ++ rest.remaining ∧
      (first :: later).map Lexeme.token = t :: ts ∧
      input.rangeTo rest = ⟨first.range.start, (later.getLastD first).range.stop⟩ := by
  obtain ⟨part, hpart, hts⟩ := h.exists_remaining_eq
  have hread := h.read_eq
  cases part with
  | nil => cases hts
  | cons first later =>
    refine ⟨first, later, hpart, hts, ?_⟩
    have hlength : rest.read - input.read - 1 = later.length := by
      have := congrArg List.length hts
      simp only [List.length_map, List.length_cons] at this hread
      omega
    simp [rangeTo, hpart, hlength]

theorem Reaches.standsAt {whole : Input} (hw : whole.Precedes input) {t : Token}
    (h : input.Reaches (t :: ts) rest) :
    StandsAt whole.remaining (t :: ts) (input.rangeTo rest) := by
  obtain ⟨us, hw⟩ := hw
  obtain ⟨before, hbefore, -⟩ := hw.exists_remaining_eq
  obtain ⟨first, later, hpart, hts, hrange⟩ := h.exists_rangeTo_eq
  exact ⟨before, first, later, rest.remaining, by rw [hbefore, hpart], hts, hrange⟩

theorem Reaches.areLaid {size : Nat} (h : input.Reaches ts rest)
    (hlaid : AreLaid size input.remaining) : AreLaid size rest.remaining := by
  obtain ⟨part, hpart, -⟩ := h.exists_remaining_eq
  rw [hpart] at hlaid
  exact hlaid.sublist (List.sublist_append_right _ _)

/-- What is read first ends before what is read later begins. -/
theorem Reaches.stop_le_start {next later : Input} {t u : Token} {us : List Token} {size : Nat}
    (hlaid : AreLaid size input.remaining) (h : input.Reaches (t :: ts) rest)
    (hnext : rest.Precedes next) (h' : next.Reaches (u :: us) later) :
    (input.rangeTo rest).stop ≤ (next.rangeTo later).start := by
  obtain ⟨first, more, hpart, -, hrange⟩ := h.exists_rangeTo_eq
  obtain ⟨second, more', hpart', -, hrange'⟩ := h'.exists_rangeTo_eq
  obtain ⟨vs, hnext⟩ := hnext
  obtain ⟨between, hbetween, -⟩ := hnext.exists_remaining_eq
  rw [hpart, hbetween, hpart'] at hlaid
  rw [hrange, hrange']
  exact (List.pairwise_append.1 hlaid.ordered).2.2 _ List.getLastD_mem_cons second (by simp)

end Input

/-! ## Faults about a token -/

/-- Whether a mistake is about a single token, and not about a block. -/
def FaultKind.isAboutToken : FaultKind → Bool
  | .unexpectedToken | .invalidPattern => true
  | _ => false

/-- The fault is about the token at a place, or about the end of input there. -/
structure Located.IsAt (located : Located) (place : Input) : Prop where
  reach_eq : located.reach = place.read
  range_eq : located.fault.range = place.nextRange
  found_eq : located.fault.found = place.tokens.head?
  isAboutToken : located.fault.kind.isAboutToken = true

/-- The fault is about a token behind `whole`, or about the end of input. -/
def Input.Points (whole : Input) (located : Located) : Prop :=
  ∃ place, whole.Precedes place ∧ located.IsAt place

namespace Input

variable {whole : Input} {a b : Located}

theorem points_of_remaining_eq_nil {input : Input} (hw : whole.Precedes input)
    (h : input.remaining = []) (expected : List String) :
    whole.Points ⟨input.read, .unexpected input.endRange expected none⟩ :=
  ⟨input, hw, rfl, by simp [Fault.unexpected, nextRange, h],
    by simp [Fault.unexpected, tokens, h], rfl⟩

theorem points_of_remaining_eq_cons {input : Input} {lexeme : Lexeme} {later : List Lexeme}
    (hw : whole.Precedes input) (h : input.remaining = lexeme :: later) (expected : List String) :
    whole.Points ⟨input.read, .unexpected lexeme.range expected (some lexeme.token)⟩ :=
  ⟨input, hw, rfl, by simp [Fault.unexpected, nextRange, h],
    by simp [Fault.unexpected, tokens, h], rfl⟩

theorem Points.merge (ha : whole.Points a) (hb : whole.Points b) :
    whole.Points ⟨a.reach, a.fault.merge b.fault⟩ := by
  obtain ⟨place, hplace, hat⟩ := ha
  obtain ⟨_, -, hbt⟩ := hb
  refine ⟨place, hplace, hat.reach_eq, hat.range_eq, hat.found_eq, ?_⟩
  simp only [Fault.merge]
  split
  · exact hbt.isAboutToken
  · exact hat.isAboutToken

theorem Points.furthest (ha : whole.Points a) (hb : whole.Points b) :
    whole.Points (a.furthest b) := by
  rcases Located.furthest_cases a b with ⟨-, h⟩ | ⟨-, h⟩ | ⟨-, h⟩
  · rwa [h]
  · rwa [h]
  · rw [h]
    exact ha.merge hb

theorem Points.furthestOf {alternative : Option Located} (ha : whole.Points a)
    (hb : ∀ b ∈ alternative, whole.Points b) : whole.Points (a.furthestOf alternative) := by
  cases alternative with
  | none => exact ha
  | some b => exact ha.furthest (hb b rfl)

theorem points_join {earlier later : Option Located} (he : ∀ a ∈ earlier, whole.Points a)
    (hl : ∀ a ∈ later, whole.Points a) : ∀ a ∈ Located.join earlier later, whole.Points a :=
  Located.forall_mem_join (fun _ _ _ _ ha hb => hb.furthest ha) he hl

theorem Points.withLabel (h : whole.Points a) (label : String) :
    whole.Points (a.map (.withLabel label)) := by
  obtain ⟨place, hplace, hat⟩ := h
  exact ⟨place, hplace, hat.reach_eq, hat.range_eq, hat.found_eq, hat.isAboutToken⟩

theorem Points.toInvalidPattern (h : whole.Points a) :
    whole.Points (a.map .toInvalidPattern) := by
  obtain ⟨place, hplace, hat⟩ := h
  refine ⟨place, hplace, hat.reach_eq, ?_, ?_, ?_⟩
  all_goals
    simp only [Located.map, Fault.toInvalidPattern]
    split
  · exact hat.range_eq
  · exact hat.range_eq
  · exact hat.found_eq
  · exact hat.found_eq
  · rfl
  · exact hat.isAboutToken

end Input

/-! ## Parsers whose faults are about tokens -/

namespace Parser

variable {α β γ : Type} {whole : Input} {bound : Nat}

/-- Behind `whole`, on inputs of fewer lexemes than `bound`, the parser reports nothing, and all
its faults point at tokens. -/
structure Plain (p : Parser α) (whole : Input) (bound : Nat) : Prop where
  accepted : ∀ {input rest : Input} {es : List Located} {v : α} {alternative : Option Located},
    whole.Precedes input → input.remaining.length < bound →
    p input = ⟨es, .accepted v alternative rest⟩ →
    es = [] ∧ input.Precedes rest ∧ ∀ a ∈ alternative, whole.Points a
  rejected : ∀ {input : Input} {es : List Located} {cause : Located}, whole.Precedes input →
    input.remaining.length < bound → p input = ⟨es, .rejected cause⟩ →
    es = [] ∧ whole.Points cause

theorem Plain.mono {p : Parser α} {fewer : Nat} (hp : p.Plain whole bound) (h : fewer ≤ bound) :
    p.Plain whole fewer :=
  ⟨fun hw hlt => hp.accepted hw (hlt.trans_le h), fun hw hlt => hp.rejected hw (hlt.trans_le h)⟩

theorem plain_satisfy (expected : List String) (f : Token → Option α) :
    (satisfy expected f).Plain whole bound where
  accepted := by
    intro input rest es v alternative _ _ h
    obtain ⟨rfl, t, -, hr⟩ := accepts_satisfy_iff.1 (accepts_of_eq h)
    refine ⟨rfl, hr.precedes, ?_⟩
    unfold satisfy at h
    split at h
    · cases h
    · split at h <;> cases h
      simp
  rejected := by
    intro input es cause hw _ h
    unfold satisfy at h
    split at h
    · next hnil =>
      cases h
      exact ⟨rfl, Input.points_of_remaining_eq_nil hw hnil _⟩
    · next hcons =>
      split at h <;> cases h
      exact ⟨rfl, Input.points_of_remaining_eq_cons hw hcons _⟩

theorem plain_token (expected : Token) : (token expected).Plain whole bound where
  accepted := by
    intro input rest es v alternative _ _ h
    obtain ⟨rfl, hr⟩ := accepts_token_iff.1 (accepts_of_eq h)
    refine ⟨rfl, hr.precedes, ?_⟩
    unfold token at h
    split at h
    · cases h
    · split at h <;> cases h
      simp
  rejected := by
    intro input es cause hw _ h
    unfold token at h
    split at h
    · next hnil =>
      cases h
      exact ⟨rfl, Input.points_of_remaining_eq_nil hw hnil _⟩
    · next hcons =>
      split at h <;> cases h
      exact ⟨rfl, Input.points_of_remaining_eq_cons hw hcons _⟩

theorem plain_endOfInput : endOfInput.Plain whole bound where
  accepted := by
    intro input rest es v alternative _ _ h
    unfold endOfInput at h
    split at h <;> cases h
    exact ⟨rfl, .refl _, by simp⟩
  rejected := by
    intro input es cause hw _ h
    unfold endOfInput at h
    split at h <;> cases h
    next hcons => exact ⟨rfl, Input.points_of_remaining_eq_cons hw hcons _⟩

section Combinators

variable {p : Parser α} (hp : p.Plain whole bound)

include hp

theorem Plain.map (f : α → β) : (p.map f).Plain whole bound where
  accepted := by
    intro input rest es v alternative hw hlt h
    obtain ⟨a, h, -⟩ := map_eq_accepted h
    exact hp.accepted hw hlt h
  rejected := fun hw hlt h => hp.rejected hw hlt (map_eq_rejected h)

theorem Plain.withRange : p.withRange.Plain whole bound where
  accepted := by
    intro input rest es v alternative hw hlt h
    obtain ⟨a, h, -⟩ := withRange_eq_accepted h
    exact hp.accepted hw hlt h
  rejected := fun hw hlt h => hp.rejected hw hlt (withRange_eq_rejected h)

theorem Plain.lookAhead : p.lookAhead.Plain whole bound where
  accepted := by
    intro input rest es v alternative hw hlt h
    obtain ⟨rfl, later, h⟩ := lookAhead_eq_accepted h
    obtain ⟨hes, -, halt⟩ := hp.accepted hw hlt h
    exact ⟨hes, .refl _, halt⟩
  rejected := fun hw hlt h => hp.rejected hw hlt (lookAhead_eq_rejected h)

theorem Plain.labelled (label : String) : (p.labelled label).Plain whole bound where
  accepted := by
    intro input rest es v alternative hw hlt h
    obtain ⟨es', alternative', h', rfl, rfl⟩ := labelled_eq_accepted h
    obtain ⟨rfl, hr, halt⟩ := hp.accepted hw hlt h'
    refine ⟨rfl, hr, fun a ha => ?_⟩
    obtain ⟨b, hb, rfl⟩ := Option.map_eq_some_iff.1 ha
    exact (halt b hb).withLabel label
  rejected := by
    intro input es cause hw hlt h
    obtain ⟨es', cause', h', rfl, rfl⟩ := labelled_eq_rejected h
    obtain ⟨rfl, hc⟩ := hp.rejected hw hlt h'
    exact ⟨rfl, hc.withLabel label⟩

theorem Plain.toInvalidPattern : (p.mapFault .toInvalidPattern).Plain whole bound where
  accepted := fun hw hlt h => hp.accepted hw hlt (mapFault_eq_accepted h)
  rejected := by
    intro input es cause hw hlt h
    obtain ⟨cause', h', rfl⟩ := mapFault_eq_rejected h
    obtain ⟨hes, hc⟩ := hp.rejected hw hlt h'
    exact ⟨hes, hc.toInvalidPattern⟩

/-- One parser behind the other, where the second is used on inputs shorter than `fewer`. -/
theorem Plain.seqWith_of_length_lt {q : Parser β} {fewer : Nat} (hq : q.Plain whole fewer)
    (hshort : ∀ {input rest : Input} {es : List Located} {v : α} {alternative : Option Located},
      whole.Precedes input → input.remaining.length < bound →
      p input = ⟨es, .accepted v alternative rest⟩ → rest.remaining.length < fewer)
    (f : α → β → γ) : (seqWith f p q).Plain whole bound where
  accepted := by
    intro input rest es v alternative hw hlt h
    obtain ⟨es₁, a, alt₁, middle, es₂, b, alt₂, h₁, h₂, rfl, -, rfl⟩ := seqWith_eq_accepted h
    obtain ⟨rfl, hr₁, halt₁⟩ := hp.accepted hw hlt h₁
    obtain ⟨rfl, hr₂, halt₂⟩ := hq.accepted (hw.trans hr₁) (hshort hw hlt h₁) h₂
    exact ⟨rfl, hr₁.trans hr₂, Input.points_join halt₁ halt₂⟩
  rejected := by
    intro input es cause hw hlt h
    rcases seqWith_eq_rejected h with h | ⟨es₁, a, alt₁, middle, es₂, cause₂, h₁, h₂, rfl, rfl⟩
    · exact hp.rejected hw hlt h
    · obtain ⟨rfl, hr₁, halt₁⟩ := hp.accepted hw hlt h₁
      obtain ⟨rfl, hc⟩ := hq.rejected (hw.trans hr₁) (hshort hw hlt h₁) h₂
      exact ⟨rfl, hc.furthestOf halt₁⟩

theorem Plain.seqWith {q : Parser β} (hq : q.Plain whole bound) (f : α → β → γ) :
    (seqWith f p q).Plain whole bound :=
  hp.seqWith_of_length_lt hq
    (fun hw hlt h => (hp.accepted hw hlt h).2.1.length_le.trans_lt hlt) f

/-- Between two tokens a parser is used on an input that is shorter by the first of them. -/
theorem Plain.between (first last : Token) : (p.between first last).Plain whole (bound + 1) := by
  refine Plain.seqWith ((plain_token first).seqWith_of_length_lt hp ?_ _) (plain_token last) _
  intro input rest es v alternative _ hlt h
  have := (accepts_token_iff.1 (accepts_of_eq h)).2.length_lt
  omega

/-- What is remembered of an outcome points at a token. -/
theorem Plain.points_given {input : Input} (hw : whole.Precedes input)
    (hlt : input.remaining.length < bound) : ∀ a ∈ (p input).given, whole.Points a := by
  rcases h : p input with ⟨es, ⟨v, alternative, rest⟩ | cause⟩
  · exact (hp.accepted hw hlt h).2.2
  · intro a ha
    obtain rfl : cause = a := by simpa [Outcome.given] using ha
    exact (hp.rejected hw hlt h).2

theorem Plain.orElse {q : Parser α} (hq : q.Plain whole bound) :
    (p.orElse q).Plain whole bound where
  accepted := by
    intro input rest es v alternative hw hlt h
    obtain ⟨alternative', ⟨h, halt⟩ | ⟨h, halt⟩⟩ := orElse_eq_accepted h
    · obtain ⟨hes, hr, halt'⟩ := hp.accepted hw hlt h
      refine ⟨hes, hr, ?_⟩
      rcases halt with rfl | rfl
      · exact halt'
      · exact Input.points_join halt' (hq.points_given hw hlt)
    · obtain ⟨hes, hr, halt'⟩ := hq.accepted hw hlt h
      refine ⟨hes, hr, ?_⟩
      rcases halt with rfl | rfl
      · exact halt'
      · exact Input.points_join halt' (hp.points_given hw hlt)
  rejected := by
    intro input es cause hw hlt h
    obtain ⟨es₁, cause₁, es₂, cause₂, h₁, h₂, hcause, hes⟩ := orElse_eq_rejected h
    obtain ⟨rfl, hc₁⟩ := hp.rejected hw hlt h₁
    obtain ⟨rfl, hc₂⟩ := hq.rejected hw hlt h₂
    refine ⟨hes.elim id id, ?_⟩
    rcases hcause with rfl | ⟨-, rfl | rfl⟩
    · exact hc₁.furthest hc₂
    · exact hc₁
    · exact hc₂

theorem Plain.optional : p.optional.Plain whole bound where
  accepted := by
    intro input rest es v alternative hw hlt h
    unfold Parser.optional at h
    split at h
    · next ha =>
      cases h
      exact hp.accepted hw hlt ha
    · next hr =>
      cases h
      exact ⟨rfl, .refl _, by simpa using (hp.rejected hw hlt hr).2⟩
  rejected := by
    intro input es cause _ _ h
    unfold Parser.optional at h
    split at h <;> cases h

theorem Plain.manyAfter {given : Option Located} (hgiven : ∀ a ∈ given, whole.Points a)
    {input rest : Input} (hw : whole.Precedes input) (hlt : input.remaining.length < bound)
    {es : List Located} {vs : List α} {alternative : Option Located}
    (h : manyAfter p given input = ⟨es, .accepted vs alternative rest⟩) :
    es = [] ∧ input.Precedes rest ∧ ∀ a ∈ alternative, whole.Points a := by
  fun_induction Parser.manyAfter p given input generalizing es vs with
  | case1 given input reported cause hr =>
    obtain ⟨rfl, hc⟩ := hp.rejected hw hlt hr
    cases h
    exact ⟨rfl, .refl _, Input.points_join hgiven (by simpa [Located.join] using hc)⟩
  | case2 given input reported v a middle ha hlt' ih =>
    obtain ⟨rfl, hr, halt⟩ := hp.accepted hw hlt ha
    obtain ⟨es', ws, hm, rfl, -⟩ := cons_after_eq_accepted_iff.1 h
    obtain ⟨rfl, hr', halt'⟩ :=
      ih (Input.points_join hgiven halt) (hw.trans hr) (hlt'.trans hlt) hm
    exact ⟨rfl, hr.trans hr', halt'⟩
  | case3 given input reported v a middle ha _ =>
    obtain ⟨rfl, hr, halt⟩ := hp.accepted hw hlt ha
    cases h
    exact ⟨rfl, hr, Input.points_join hgiven halt⟩

theorem Plain.many : p.many.Plain whole bound where
  accepted := fun hw hlt h => hp.manyAfter (by simp) hw hlt h
  rejected := fun _ _ h => absurd h (manyAfter_ne_rejected p none _ _ _)

theorem Plain.moreAfter {separator : Parser Unit} (hs : separator.Plain whole bound)
    {given : Option Located} (hgiven : ∀ a ∈ given, whole.Points a) {input rest : Input}
    (hw : whole.Precedes input) (hlt : input.remaining.length < bound) {es : List Located}
    {vs : List α} {alternative : Option Located}
    (h : moreAfter p separator given input = ⟨es, .accepted vs alternative rest⟩) :
    es = [] ∧ input.Precedes rest ∧ ∀ a ∈ alternative, whole.Points a := by
  fun_induction Parser.moreAfter p separator given input generalizing es vs with
  | case1 given input reported cause hr =>
    cases h
    exact ⟨rfl, .refl _, Input.points_join hgiven (by simpa using (hs.rejected hw hlt hr).2)⟩
  | case2 given input es₁ u a middle ha _ es₂ cause =>
    rename_i hc
    obtain ⟨rfl, hr, halt⟩ := hs.accepted hw hlt ha
    obtain ⟨rfl, hcause⟩ := hp.rejected (hw.trans hr) (hr.length_le.trans_lt hlt) hc
    cases h
    exact ⟨rfl, .refl _,
      Input.points_join (Input.points_join hgiven halt) (by simpa using hcause)⟩
  | case3 given input es₁ u a middle ha _ es₂ v a' next ha' hlt' =>
    rename_i ih
    obtain ⟨rfl, hr, halt⟩ := hs.accepted hw hlt ha
    obtain ⟨rfl, hr', halt'⟩ := hp.accepted (hw.trans hr) (hr.length_le.trans_lt hlt) ha'
    obtain ⟨es', ws, hm, rfl, -⟩ := cons_after_eq_accepted_iff.1 h
    obtain ⟨rfl, hr'', halt''⟩ := ih (Input.points_join (Input.points_join hgiven halt) halt')
      ((hw.trans hr).trans hr') (hlt'.trans hlt) hm
    exact ⟨rfl, (hr.trans hr').trans hr'', halt''⟩
  | case4 given input es₁ u a middle ha _ es₂ v a' next ha' =>
    obtain ⟨rfl, hr, halt⟩ := hs.accepted hw hlt ha
    obtain ⟨rfl, hr', halt'⟩ := hp.accepted (hw.trans hr) (hr.length_le.trans_lt hlt) ha'
    cases h
    exact ⟨rfl, hr.trans hr', Input.points_join (Input.points_join hgiven halt) halt'⟩

theorem Plain.sepBy {separator : Parser Unit} (hs : separator.Plain whole bound) :
    (p.sepBy separator).Plain whole bound where
  accepted := by
    intro input rest es vs alternative hw hlt h
    rcases sepBy_eq h with ⟨cause, hc, hreply⟩ |
      ⟨es₁, v, alt₁, middle, es₂, ws, _, _, h₁, h₂, rfl, hreply⟩
    · cases hreply
      obtain ⟨rfl, hcause⟩ := hp.rejected hw hlt hc
      exact ⟨rfl, .refl _, by simpa using hcause⟩
    · cases hreply
      obtain ⟨rfl, hr, halt⟩ := hp.accepted hw hlt h₁
      obtain ⟨rfl, hr', halt'⟩ :=
        hp.moreAfter hs halt (hw.trans hr) (hr.length_le.trans_lt hlt) h₂
      exact ⟨rfl, hr.trans hr', halt'⟩
  rejected := by
    intro input es cause _ _ h
    rcases sepBy_eq h with ⟨_, -, hreply⟩ | ⟨_, _, _, _, _, _, _, _, -, -, -, hreply⟩ <;>
      cases hreply

end Combinators

/-- A grammar that refers to itself is plain if one level of it is, over one less of them. -/
theorem plain_recursive (step : Parser α → Parser α)
    (hstep : ∀ depth, (unfolded step depth).Plain whole depth →
      (step (unfolded step depth)).Plain whole (depth + 1)) :
    (recursive step).Plain whole bound := by
  have hunfolded : ∀ depth, (unfolded step depth).Plain whole depth := by
    intro depth
    induction depth with
    | zero => exact ⟨fun _ hlt => absurd hlt (Nat.not_lt_zero _),
        fun _ hlt => absurd hlt (Nat.not_lt_zero _)⟩
    | succ depth ih => exact hstep depth ih
  exact ⟨fun hw _ h => (hunfolded _).accepted hw (Nat.lt_succ_self _) h,
    fun hw _ h => (hunfolded _).rejected hw (Nat.lt_succ_self _) h⟩

/-! ## Patterns, expressions and headers -/

theorem plain_patternStep {inner : Parser Pattern} (hi : inner.Plain whole bound) :
    (patternStep inner).Plain whole (bound + 1) :=
  (plain_satisfy _ _).orElse (((hi.sepBy (plain_token .comma)).between _ _).map _)

theorem plain_pattern : pattern.Plain whole bound :=
  (Plain.toInvalidPattern (plain_recursive patternStep fun _ => plain_patternStep)).labelled _

theorem plain_textExpression : Dialect.textExpression.Plain whole bound :=
  (plain_satisfy _ _).labelled _

variable {E : Type} {expression : Parser E}

theorem plain_forHeader (he : expression.Plain whole bound) :
    (forHeader expression).Plain whole bound :=
  (((plain_token _).seqWith plain_pattern _).seqWith (plain_token _) _).seqWith he _

theorem plain_joinHeader (he : expression.Plain whole bound) :
    (joinHeader expression).Plain whole bound :=
  (((((plain_token _).seqWith plain_pattern _).seqWith (plain_token _) _).seqWith he _).seqWith
    (plain_token _) _).seqWith he _

theorem plain_blockEnd : blockEnd.Plain whole bound :=
  ((((plain_satisfy _ _).between _ _).mono (Nat.le_succ bound)).withRange.map _).orElse
    (plain_endOfInput.withRange.map _)

end Parser

end Stencil
