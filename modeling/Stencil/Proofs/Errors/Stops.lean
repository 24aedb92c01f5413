import Stencil.Proofs.Errors.Blame
import Stencil.Proofs.Errors.BlockFaults
import Stencil.Proofs.Parser.Templates
import Stencil.Proofs.Template.Conservation

/-!
# Where statements stop

The loop over the statements of a template stops at the first statement it cannot read. What was
wrong there is kept as an alternative until the block around it, or the template, is found not to
end there either; then the two faults become one. It lies at the first token with which no complete
sequence of parts goes on.

* `Halts` says where a statement is rejected: no part stands there, or one opens a block whose
  inside stops.
* `Parser.Tracks` says this of a parser of statements, and that it accepts closed statements or
  reads to the end; `tracks_statement` shows it, one level after the other.
* `template_accepts_or_blames` is the outcome for a whole template.
-/

namespace Stencil

open Stencil.Parser

/-! ## Parts as a language -/

/-- The sequences of parts that can stand behind a number of open blocks. -/
def completeAt (depth : Nat) : Language Token :=
  {ts | CompleteAt depth ts}

/-- The parts that can stand behind a number of open blocks. -/
def partsAt (depth : Nat) : Language Token :=
  {w | ∃ p : Part, (p.after depth).isSome = true ∧ p.tokens = w}

/-- The directives that open a block, of either kind, up to a place inside the binder. -/
def binders : Language Token :=
  openBinders .join + openBinders .forIn

/-- The tokens before a place inside the binder of a loop: it lies behind the bracket and the
keyword that open a block, where a pattern has begun and is not complete. -/
def InBinder (ts : List Token) : Prop :=
  ∃ before construct inner,
    ts = before ++ .openStatement :: .keyword (Construct.opening construct) :: inner ∧
    (∃ v : Pattern, inner <+: v.tokens) ∧ ∀ v : Pattern, inner ≠ v.tokens

/-- The same as a language. -/
def inBinder : Language Token :=
  {ts | InBinder ts}

variable {depth next : Nat} {input rest : Input} {a b cause : Located} {u w : List Token}

theorem mem_binders_iff :
    u ∈ binders ↔ ∃ construct inner,
      u = .openStatement :: .keyword (Construct.opening construct) :: inner ∧
      (∃ v : Pattern, inner <+: v.tokens) ∧ ∀ v : Pattern, inner ≠ v.tokens := by
  have hopen {inner : List Token} : inner ∈ openPatterns ↔
      (∃ v : Pattern, inner <+: v.tokens) ∧ ∀ v : Pattern, inner ≠ v.tokens := by
    constructor
    · rintro ⟨⟨_, ⟨v, rfl⟩, hpre⟩, hnot⟩
      exact ⟨⟨v, hpre⟩, fun v heq => hnot ⟨v, heq.symm⟩⟩
    · rintro ⟨⟨v, hpre⟩, hne⟩
      exact ⟨⟨_, ⟨v, rfl⟩, hpre⟩, fun ⟨v, heq⟩ => hne v heq.symm⟩
  simp only [← hopen]
  constructor
  · rintro (⟨inner, hinner, rfl⟩ | ⟨inner, hinner, rfl⟩)
    · exact ⟨.join, inner, rfl, hinner⟩
    · exact ⟨.forIn, inner, rfl, hinner⟩
  · rintro ⟨construct, inner, rfl, hinner⟩
    cases construct with
    | forIn => exact .inr ⟨inner, hinner, rfl⟩
    | join => exact .inl ⟨inner, hinner, rfl⟩

theorem inBinder_iff : InBinder w ↔ ∃ before, ∃ u ∈ binders, w = before ++ u := by
  constructor
  · rintro ⟨before, construct, inner, rfl, hinner⟩
    exact ⟨before, _, mem_binders_iff.2 ⟨construct, inner, rfl, hinner⟩, rfl⟩
  · rintro ⟨before, u, hu, rfl⟩
    obtain ⟨construct, inner, rfl, hinner⟩ := mem_binders_iff.1 hu
    exact ⟨before, construct, inner, rfl, hinner⟩

/-- No part has been read where a binder is not complete. -/
theorem Part.not_begins_of_mem_binders (p : Part) (hu : u ∈ binders) : ¬ p.tokens <+: u := by
  intro hpre
  cases p with
  | opening construct header hheader =>
    have hmem : construct.openingTokens header ∈ openings construct := ⟨header, hheader, rfl⟩
    cases construct with
    | forIn =>
      rcases hu with ⟨inner, -, rfl⟩ | hu
      · simp [tokens, Construct.openingTokens, Construct.opening] at hpre
      · exact blames_forOpening.marks.not_begins hu hmem hpre
    | join =>
      rcases hu with hu | ⟨inner, -, rfl⟩
      · exact blames_joinOpening.marks.not_begins hu hmem hpre
      · simp [tokens, Construct.openingTokens, Construct.opening] at hpre
  | ending word hword =>
    obtain ⟨construct, inner, rfl, -⟩ := mem_binders_iff.1 hu
    simp only [tokens, endTokens, List.cons_prefix_cons, Token.keyword.injEq, true_and] at hpre
    exact opening_ne_of_isEnd hword construct hpre.1.symm
  | _ =>
    obtain ⟨construct, inner, rfl, -⟩ := mem_binders_iff.1 hu
    simp [tokens] at hpre

/-- The bracket of a block stands only at the front of a part. -/
theorem Part.eq_nil_of_tokens_eq (p : Part) {before more : List Token}
    (h : p.tokens = before ++ .openStatement :: more) : before = [] := by
  have htail : Token.openStatement ∉ p.tokens.tail := by
    cases p with
    | text content => simp [tokens]
    | interpolation e =>
      intro hmem
      simp only [tokens, List.tail_cons, List.mem_cons, List.not_mem_nil, or_false] at hmem
      rcases hmem with heq | heq
      · have := e.standsInside_token
        rw [← heq] at this
        cases this
      · cases heq
    | opening construct header hheader =>
      have hinner : ∀ t ∈ header, t.isInner = true := by
        cases hheader with
        | forIn _ he =>
          obtain ⟨e, rfl⟩ := he
          exact fun t => isInner_of_mem_forIn
        | join _ he he' =>
          obtain ⟨e, rfl⟩ := he
          obtain ⟨e', rfl⟩ := he'
          exact fun t => isInner_of_mem_join
      intro hmem
      simp only [tokens, Construct.openingTokens, List.tail_cons, List.mem_cons, List.mem_append,
        List.not_mem_nil, or_false, reduceCtorEq, false_or] at hmem
      cases hinner _ hmem
    | ending word hword => simp [tokens, endTokens]
  cases before with
  | nil => rfl
  | cons t before => exact absurd (by simp [h]) htail

/-- A part leads out of every binder. -/
theorem Part.inBinder_append_iff (p : Part) : InBinder (p.tokens ++ u) ↔ InBinder u := by
  simp only [inBinder_iff]
  constructor
  · rintro ⟨before, v, hv, heq⟩
    rcases List.append_eq_append_iff.1 heq with ⟨more, rfl, rfl⟩ | ⟨part, hp, rfl⟩
    · exact ⟨more, v, hv, rfl⟩
    · -- a binder that begins in the part begins with it, and ends in it
      cases part with
      | nil => exact ⟨[], _, hv, rfl⟩
      | cons t part =>
        obtain ⟨construct, inner, hstart, -⟩ := mem_binders_iff.1 hv
        obtain rfl : t = .openStatement := (List.cons.inj hstart).1
        obtain rfl := p.eq_nil_of_tokens_eq hp
        rw [List.nil_append] at hp
        rw [← hp] at hv
        exact absurd (List.prefix_append _ _) (p.not_begins_of_mem_binders hv)
  · rintro ⟨before, v, hv, rfl⟩
    exact ⟨p.tokens ++ before, v, hv, (List.append_assoc _ _ _).symm⟩

/-- In a part, being inside a binder is seen from its own beginning. -/
theorem mem_binders_iff_inBinder (hu : u ∈ beginnings (partsAt depth)) :
    u ∈ binders ↔ InBinder u := by
  rw [inBinder_iff]
  constructor
  · exact fun h => ⟨[], u, h, rfl⟩
  · rintro ⟨before, v, hv, rfl⟩
    obtain ⟨_, ⟨p, -, rfl⟩, more, hmore⟩ := hu
    obtain ⟨construct, inner, rfl, -⟩ := mem_binders_iff.1 hv
    rw [List.append_assoc, List.cons_append] at hmore
    obtain rfl := p.eq_nil_of_tokens_eq hmore.symm
    exact hv

/-! ## Where no part stands -/

theorem tokens_mem_completeAt {p : Part} (hp : (p.after depth).isSome = true) :
    p.tokens ∈ completeAt depth := by
  obtain ⟨next, hnext⟩ := Option.isSome_iff_exists.1 hp
  have hpart := CompleteAt.part p hnext (.done next)
  rwa [List.append_nil] at hpart

theorem exists_partsAt_begins {ts : List Token} (h : CompleteAt depth ts) (hne : ts ≠ []) :
    ∃ v ∈ partsAt depth, v <+: ts := by
  cases h with
  | done => exact absurd rfl hne
  | part p hp h => exact ⟨p.tokens, ⟨p, by simp [hp], rfl⟩, List.prefix_append _ _⟩

/-- Where no part stands, no sequence of parts goes on. -/
theorem Stuck.blamed_completeAt (h : Stuck (partsAt depth) binders input a) :
    Blamed (completeAt depth) inBinder input a := by
  refine h.blamed_of_firsts (fun u => beginnings_mono ?_) ?_
    fun u hu _ => mem_binders_iff_inBinder hu
  · rintro _ ⟨p, hp, rfl⟩
    exact tokens_mem_completeAt hp
  · exact fun w hw => or_iff_not_imp_left.2 (exists_partsAt_begins hw)

theorem Stuck.not_completeAt (h : Stuck (partsAt depth) binders input a)
    (hne : input.remaining ≠ []) : ¬ CompleteAt depth input.tokens := by
  intro hcomplete
  obtain ⟨v, hv, hpre⟩ := exists_partsAt_begins hcomplete (by simpa [Input.tokens] using hne)
  exact h.not_begins v hv hpre

/-- What a directive begins with. -/
def directiveStarts : Language Token :=
  openings .join + (openings .forIn + bracketed .openExpression .closeExpression expressions)

theorem partsAt_zero_eq :
    partsAt 0 = singles (fun t => ∃ content, t = .text content) + directiveStarts := by
  ext w
  constructor
  · rintro ⟨p, hp, rfl⟩
    cases p with
    | text content => exact .inl ⟨_, ⟨content, rfl⟩, rfl⟩
    | interpolation e =>
      exact .inr (.inr (.inr (mem_bracketed.2 ⟨_, ⟨_, ⟨e, rfl⟩, rfl⟩, rfl⟩)))
    | opening construct header hheader =>
      cases construct with
      | forIn => exact .inr (.inr (.inl ⟨header, hheader, rfl⟩))
      | join => exact .inr (.inl ⟨header, hheader, rfl⟩)
    | ending => cases hp
  · rintro (⟨_, ⟨content, rfl⟩, rfl⟩ | ⟨header, hheader, rfl⟩ | ⟨header, hheader, rfl⟩ | hw)
    · exact ⟨.text content, rfl, rfl⟩
    · exact ⟨.opening .join header hheader, rfl, rfl⟩
    · exact ⟨.opening .forIn header hheader, rfl, rfl⟩
    · obtain ⟨_, ⟨_, ⟨e, rfl⟩, rfl⟩, rfl⟩ := mem_bracketed.1 hw
      exact ⟨.interpolation e, rfl, rfl⟩

theorem openBinders_begin (construct : Construct) :
    ∀ u ∈ openBinders construct, u ∈ beginnings (openings construct) := by
  cases construct with
  | forIn => exact blames_forOpening.marks.mem_beginnings
  | join => exact blames_joinOpening.marks.mem_beginnings

theorem binders_begin : ∀ u ∈ binders, u ∈ beginnings directiveStarts := by
  rintro u (hu | hu)
  · exact mem_beginnings_add.2 (.inl (openBinders_begin _ u hu))
  · exact mem_beginnings_add.2 (.inr (mem_beginnings_add.2 (.inl (openBinders_begin _ u hu))))

theorem binders_begin_partsAt : ∀ u ∈ binders, u ∈ beginnings (partsAt 0) := by
  intro u hu
  rw [partsAt_zero_eq]
  exact mem_beginnings_add.2 (.inr (binders_begin u hu))

theorem partsAt_succ_eq (depth : Nat) : partsAt (depth + 1) = endings + partsAt 0 := by
  ext w
  constructor
  · rintro ⟨p, hp, rfl⟩
    cases p with
    | ending word hword => exact .inl ⟨word, hword, rfl⟩
    | text content => exact .inr ⟨.text content, rfl, rfl⟩
    | interpolation e => exact .inr ⟨.interpolation e, rfl, rfl⟩
    | opening construct header hheader => exact .inr ⟨.opening construct header hheader, rfl, rfl⟩
  · rintro (⟨word, hword, rfl⟩ | ⟨p, hp, rfl⟩)
    · exact ⟨.ending word hword, rfl, rfl⟩
    · refine ⟨p, ?_, rfl⟩
      cases p with
      | ending => cases hp
      | _ => rfl

/-! ## Closed statements lead nowhere else -/

theorem Closed.completeAt_append_iff (h : Closed w) :
    CompleteAt depth (w ++ u) ↔ CompleteAt depth u := by
  refine ⟨fun hc => ?_, h.completeAt_append⟩
  induction h generalizing depth u with
  | nil => exact hc
  | text content _ ih =>
    rw [List.append_assoc] at hc
    obtain ⟨_, ⟨⟩, hc⟩ := (completeAt_tokens_append_iff (p := .text content)).1 hc
    exact ih hc
  | interpolation e _ ih =>
    rw [List.append_assoc] at hc
    obtain ⟨_, ⟨⟩, hc⟩ := (completeAt_tokens_append_iff (p := .interpolation e)).1 hc
    exact ih hc
  | block hheader _ hword _ ihbody ih =>
    simp only [List.append_assoc] at hc
    obtain ⟨_, ⟨⟩, hc⟩ := (completeAt_tokens_append_iff (p := .opening _ _ hheader)).1 hc
    obtain ⟨_, ⟨⟩, hc⟩ := (completeAt_tokens_append_iff (p := .ending _ hword)).1 (ihbody hc)
    exact ih hc

theorem Closed.inBinder_append_iff (h : Closed w) : InBinder (w ++ u) ↔ InBinder u := by
  induction h generalizing u with
  | nil => rfl
  | text content _ ih =>
    rw [List.append_assoc]
    exact (Part.text content).inBinder_append_iff.trans ih
  | interpolation e _ ih =>
    rw [List.append_assoc]
    exact (Part.interpolation e).inBinder_append_iff.trans ih
  | block hheader _ hword _ ihbody ih =>
    simp only [List.append_assoc]
    exact (Part.opening _ _ hheader).inBinder_append_iff.trans
      (ihbody.trans ((Part.ending _ hword).inBinder_append_iff.trans ih))

/-! ## Faults at the next token -/

theorem Fault.merge_kind_of_right {fault other : Fault} (h : other.kind = .unexpectedToken) :
    (fault.merge other).kind = fault.kind := by
  cases hkind : fault.kind <;> simp [merge, hkind, h]

theorem Fault.merge_kind_of_left {fault other : Fault} (h : fault.kind = .unexpectedToken) :
    (fault.merge other).kind = other.kind := by
  simp [merge, h]

/-- A fault at the next token at most, which only says that this token was not expected, does not
change what another one is about. -/
theorem Blamed.furthest_shallow {l m : Language Token} (ha : Blamed l m input a)
    (hread : b.reach ≤ input.read) (hkind : b.fault.kind = .unexpectedToken) :
    Blamed l m input (a.furthest b) ∧ Blamed l m input (b.furthest a) := by
  obtain ⟨count, hreach, hextent, hnamed⟩ := ha
  have hkinds : (a.furthest b).fault.kind = a.fault.kind ∧
      (b.furthest a).fault.kind = a.fault.kind := by
    rcases Located.furthest_cases a b with ⟨hlt, h⟩ | ⟨hlt, -⟩ | ⟨heq, h⟩
    · rw [h, Located.furthest_eq_right hlt]
      exact ⟨rfl, rfl⟩
    · omega
    · rcases Located.furthest_cases b a with ⟨hlt, -⟩ | ⟨hlt, -⟩ | ⟨-, h'⟩
      · omega
      · omega
      · rw [h, h']
        exact ⟨Fault.merge_kind_of_right hkind, Fault.merge_kind_of_left hkind⟩
  refine ⟨⟨count, ?_, hextent, by rwa [hkinds.1]⟩, ⟨count, ?_, hextent, by rwa [hkinds.2]⟩⟩
  · rw [Located.reach_furthest]
    omega
  · rw [Located.reach_furthest]
    omega

theorem satisfy_eq_rejected {α : Type} {expected : List String} {f : Token → Option α}
    {es : List Located} (h : satisfy expected f input = ⟨es, .rejected cause⟩) :
    es = [] ∧ cause.reach = input.read ∧ cause.fault.kind = .unexpectedToken := by
  unfold satisfy at h
  split at h
  · cases h
    exact ⟨rfl, rfl, rfl⟩
  · split at h <;> cases h
    exact ⟨rfl, rfl, rfl⟩

theorem endOfInput_eq_rejected {es : List Located}
    (h : endOfInput input = ⟨es, .rejected cause⟩) :
    es = [] ∧ cause.reach = input.read ∧ cause.fault.kind = .unexpectedToken := by
  unfold endOfInput at h
  split at h
  · cases h
  · cases h
    exact ⟨rfl, rfl, rfl⟩

/-! ## How statements end -/

/-- The fault lies inside a block that begins here. Whatever is open around it, no sequence of
parts goes on there. -/
structure InBlock (input : Input) (cause : Located) : Prop where
  begins : ∃ construct rest,
    input.Reaches [.openStatement, .keyword (Construct.opening construct)] rest
  read_add_two_le : input.read + 2 ≤ cause.reach
  blamed : ∀ depth, Blamed (completeAt depth) inBinder input cause
  not_completeAt : ∀ depth, ¬ CompleteAt depth input.tokens

/-- A statement cannot be read here: no part that begins one stands here, or the fault lies inside
a block. -/
def Halts (input : Input) (cause : Located) : Prop :=
  Stuck (partsAt 0) binders input cause ∨ InBlock input cause

/-- Something was read, which is closed, and nothing is left of what was given up on the way; or
the input was read to its end. -/
def Proceeds (input : Input) (alternative : Option Located) (rest : Input) : Prop :=
  ∃ w, w ≠ [] ∧ input.Reaches w rest ∧
    (Closed w ∧ Located.Below rest.read alternative ∨ Complete w ∧ rest.remaining = [])

/-- What the statements of a body, or of a template, come to: the input was read to its end, or
the next statement cannot be read. -/
def ComesToHalt (input : Input) (alternative : Option Located) (rest : Input) : Prop :=
  ∃ w, input.Reaches w rest ∧
    (Complete w ∧ rest.remaining = [] ∨ Closed w ∧ ∃ c, alternative = some c ∧ Halts rest c)

theorem Halts.read_le (h : Halts input cause) : input.read ≤ cause.reach := by
  rcases h with h | h
  · exact h.blamed.read_le
  · have := h.read_add_two_le
    omega

theorem Halts.not_text (h : Halts input cause) {content : String} :
    ¬ input.Reaches [.text content] rest := by
  intro hr
  rcases h with h | h
  · refine h.not_begins _ ⟨.text content, rfl, rfl⟩ ?_
    rw [hr.tokens_eq]
    exact List.prefix_append _ _
  · obtain ⟨construct, _, hopen⟩ := h.begins
    cases hopen.head_unique hr

/-- Where an end directive stands, the fault lies inside it. -/
theorem Halts.reach_lt (h : Halts input cause) {word : Keyword} (hword : word.isEnd = true)
    (hr : input.Reaches (endTokens word) rest) : cause.reach < rest.read := by
  rcases h with h | h
  · refine h.blamed.reach_lt hr ?_
    rintro ⟨_, ⟨p, hp, rfl⟩, more, hmore⟩
    have heq : (Part.ending word hword).tokens ++ more = p.tokens ++ [] := by
      rw [List.append_nil]
      exact hmore
    obtain ⟨rfl, -⟩ := Part.tokens_append_inj heq
    cases hp
  · obtain ⟨construct, _, hopen⟩ := h.begins
    obtain ⟨_, hend, -⟩ := (@Input.reaches_append_iff _ _ [.openStatement, .keyword word] _).1 hr
    cases hopen.eq_of_length_eq hend rfl
    cases construct <;> cases hword

theorem Halts.furthest_shallow (h : Halts input a) (hread : b.reach ≤ input.read)
    (hkind : b.fault.kind = .unexpectedToken) :
    Halts input (a.furthest b) ∧ Halts input (b.furthest a) := by
  rcases h with h | h
  · obtain ⟨hleft, hright⟩ := h.blamed.furthest_shallow hread hkind
    exact ⟨.inl ⟨h.not_begins, hleft⟩, .inl ⟨h.not_begins, hright⟩⟩
  · have hlt : b.reach < a.reach := by
      have := h.read_add_two_le
      omega
    rw [Located.furthest_eq_left hlt, Located.furthest_eq_right hlt]
    exact ⟨.inr h, .inr h⟩

/-- Outside all blocks, where the template does not end either. -/
theorem Halts.blamed_outside (h : Halts input a) (hne : input.remaining ≠ [])
    (hread : b.reach ≤ input.read) (hkind : b.fault.kind = .unexpectedToken) :
    Blamed (completeAt 0) inBinder input (b.furthest a) ∧ ¬ CompleteAt 0 input.tokens := by
  rcases (h.furthest_shallow hread hkind).2 with h | h
  · exact ⟨h.blamed_completeAt, h.not_completeAt hne⟩
  · exact ⟨h.blamed 0, h.not_completeAt 0⟩

namespace Parser

variable {α S : Type} {p : Parser α} {bound : Nat}

/-- On inputs of fewer lexemes than `bound`, the parser of statements proceeds or halts. It reports
something only about blocks. -/
structure Tracks (p : Parser α) (bound : Nat) : Prop where
  accepted : ∀ {input rest : Input} {es : List Located} {v : α} {alternative : Option Located},
    input.remaining.length < bound → p input = ⟨es, .accepted v alternative rest⟩ →
    Proceeds input alternative rest ∧ (es = [] ∨ ∃ middle, input.Reaches [.openStatement] middle)
  rejected : ∀ {input : Input} {es : List Located} {cause : Located},
    input.remaining.length < bound → p input = ⟨es, .rejected cause⟩ → es = [] ∧ Halts input cause

theorem Tracks.map {β : Type} (hp : p.Tracks bound) (f : α → β) : (p.map f).Tracks bound where
  accepted := by
    intro input rest es v alternative hlt h
    obtain ⟨_, h, -⟩ := map_eq_accepted h
    exact hp.accepted hlt h
  rejected := fun hlt h => hp.rejected hlt (map_eq_rejected h)

/-- A choice whose first part is given up at the first token. -/
theorem proceeds_orElse {p q : Parser α} {input rest : Input} {es es' : List Located} {v : α}
    {alternative : Option Located} {cause : Located} (hp : p input = ⟨es', .rejected cause⟩)
    (hread : cause.reach = input.read)
    (hq : ∀ {alternative'}, q input = ⟨es, .accepted v alternative' rest⟩ →
      Proceeds input alternative' rest)
    (h : p.orElse q input = ⟨es, .accepted v alternative rest⟩) :
    Proceeds input alternative rest := by
  obtain ⟨alternative', ⟨ha, -⟩ | ⟨ha, halt⟩⟩ := orElse_eq_accepted h
  · cases ha.symm.trans hp
  obtain ⟨w, hne, hr, hw⟩ := hq ha
  refine ⟨w, hne, hr, hw.imp_left fun ⟨hclosed, hbelow⟩ => ⟨hclosed, ?_⟩⟩
  rcases halt with rfl | rfl
  · exact hbelow
  · refine hbelow.join ?_
    rw [hp]
    rintro _ ⟨⟩
    have := hr.read_eq
    have := List.length_pos_iff.2 hne
    omega

theorem Tracks.manyAfter (hp : p.Tracks bound) {given : Option Located} {input rest : Input}
    {es : List Located} {vs : List α} {alternative : Option Located}
    (hlt : input.remaining.length < bound)
    (hgiven : Located.Below input.read given ∨ input.remaining = [])
    (h : Parser.manyAfter p given input = ⟨es, .accepted vs alternative rest⟩) :
    ComesToHalt input alternative rest := by
  fun_induction Parser.manyAfter p given input generalizing es vs with
  | case1 given input reported cause hr =>
    obtain ⟨rfl, hhalts⟩ := hp.rejected hlt hr
    cases h
    refine ⟨[], .nil _, ?_⟩
    rcases hgiven with hbelow | hnil
    · exact .inr ⟨.nil, cause, (hbelow.mono hhalts.read_le).join_some, hhalts⟩
    · exact .inl ⟨.closed .nil, hnil⟩
  | case2 given input es₁ v a middle ha hlt' ih =>
    obtain ⟨es', ws, hm, rfl, -⟩ := cons_after_eq_accepted_iff.1 h
    obtain ⟨⟨w, -, hr, hw⟩, -⟩ := hp.accepted hlt ha
    rcases hw with ⟨hclosed, hbelow⟩ | ⟨hcomplete, hnil⟩
    · have hgiven' : Located.Below input.read given :=
        hgiven.resolve_right fun hnil => by simp [hnil] at hlt'
      obtain ⟨w', hr', hw'⟩ :=
        ih (by omega) (.inl ((hgiven'.mono hr.precedes.read_le).join hbelow)) hm
      refine ⟨w ++ w', hr.append hr', ?_⟩
      exact hw'.imp (fun h => ⟨hclosed.complete_append h.1, h.2⟩)
        (fun h => ⟨hclosed.append h.1, h.2⟩)
    · -- nothing is left to read
      obtain ⟨w', hr', -⟩ := ih (by omega) (.inr hnil) hm
      have htokens := hr'.tokens_eq
      simp only [Input.tokens, hnil, List.map_nil, List.nil_eq, List.append_eq_nil_iff,
        List.map_eq_nil_iff] at htokens
      obtain ⟨rfl, hrest⟩ := htokens
      exact ⟨w ++ [], hr.append hr', .inl ⟨by rwa [List.append_nil], hrest⟩⟩
  | case3 given input es₁ v a middle ha hle =>
    obtain ⟨⟨w, hne, hr, -⟩, -⟩ := hp.accepted hlt ha
    cases w with
    | nil => exact absurd rfl hne
    | cons t w => exact absurd hr.length_lt hle

/-! ## The body of a block -/

theorem satisfy_eq_accepted {expected : List String} {f : Token → Option α}
    {input rest : Input} {es : List Located} {v : α} {alternative : Option Located}
    (h : satisfy expected f input = ⟨es, .accepted v alternative rest⟩) :
    es = [] ∧ alternative = none := by
  unfold satisfy at h
  split at h
  · cases h
  · split at h <;> cases h
    exact ⟨rfl, rfl⟩

/-- Reading the end of a block gives nothing up. -/
theorem blockEnd_eq_accepted {input rest : Input} {es : List Located} {v : BlockEnd}
    {alternative : Option Located} (h : blockEnd input = ⟨es, .accepted v alternative rest⟩) :
    es = [] ∧ alternative = none := by
  obtain rfl := silent_blockEnd.reported_eq_nil (accepts_of_eq h)
  refine ⟨rfl, ?_⟩
  rcases orElse_eq_accepted_nil h with h | h <;> obtain ⟨_, h, -⟩ := map_eq_accepted h <;>
    obtain ⟨_, h, -⟩ := withRange_eq_accepted h
  · obtain ⟨_, _, _, _, _, _, _, h₁, hclose, -, -, rfl⟩ := seqWith_eq_accepted h
    obtain ⟨_, _, _, _, _, _, _, hopen, hword, -, -, rfl⟩ := seqWith_eq_accepted h₁
    rw [(token_eq_accepted hopen).2, (satisfy_eq_accepted hword).2, (token_eq_accepted hclose).2]
    rfl
  · unfold endOfInput at h
    split at h <;> cases h
    rfl

theorem trailing_eq_accepted {input rest : Input} {es : List Located} {v : Option S}
    {alternative : Option Located} (h : trailing input = ⟨es, .accepted v alternative rest⟩) :
    es = [] ∧ alternative = none ∧ ∃ content, input.Reaches [.text content] rest := by
  obtain ⟨rfl, -, content, -, hr, -⟩ := accepts_trailing_iff.1 (accepts_of_eq h)
  refine ⟨rfl, ?_, content, hr⟩
  obtain ⟨_, h, -⟩ := map_eq_accepted h
  obtain ⟨_, _, _, _, _, _, _, hpadding, hend, -, -, rfl⟩ := seqWith_eq_accepted h
  obtain ⟨-, _, hend⟩ := lookAhead_eq_accepted hend
  rw [(satisfy_eq_accepted hpadding).2, (blockEnd_eq_accepted hend).2]
  rfl

/-- Spaces and tabs before the end of a block are not read where there are none, or where something
else follows them. -/
theorem trailing_eq_rejected {input : Input} {es : List Located} {cause : Located}
    (h : (trailing : Parser (Option S)) input = ⟨es, .rejected cause⟩) :
    (cause.reach = input.read ∧ cause.fault.kind = .unexpectedToken) ∨
      ∃ content rest, input.Reaches [.text content] rest := by
  rcases seqWith_eq_rejected (map_eq_rejected h) with h | ⟨_, _, _, rest, _, _, h, -⟩
  · exact .inl (satisfy_eq_rejected h).2
  · obtain ⟨-, content, -, hr⟩ := accepts_padding_iff.1 (accepts_of_eq h)
    exact .inr ⟨content, rest, hr⟩

theorem tracks_bodyItem {statement : Parser S} (hs : statement.Tracks bound) :
    (bodyItem statement).Tracks bound where
  accepted := by
    intro input rest es v alternative hlt h
    rcases ht : (trailing : Parser (Option S)) input with ⟨es₁, ⟨w, alternative', rest'⟩ | cause⟩
    · have hnot : ¬ (trailing : Parser (Option S)).Rejects input :=
        fun hr => hr _ _ _ (accepts_of_eq ht)
      rw [bodyItem, orElse_eq_of_not_rejects silent_trailing hnot, ht] at h
      cases h
      obtain ⟨rfl, rfl, content, hr⟩ := trailing_eq_accepted ht
      exact ⟨⟨_, by simp, hr, .inl ⟨.text content .nil, Located.below_none _⟩⟩, .inl rfl⟩
    · obtain ⟨_, ⟨hp, -⟩ | ⟨hq, -⟩⟩ := orElse_eq_accepted h
      · cases hp.symm.trans ht
      rcases ((hs.map some).accepted hlt hq).2 with rfl | ⟨middle, hopen⟩
      · -- an outcome without a report is taken as it is
        rcases orElse_eq_accepted_nil h with hp | hq
        · cases hp.symm.trans ht
        · exact (hs.map some).accepted hlt hq
      · rcases trailing_eq_rejected ht with ⟨hread, -⟩ | ⟨content, _, htext⟩
        · exact ⟨proceeds_orElse ht hread (fun hq => ((hs.map some).accepted hlt hq).1) h,
            .inr ⟨middle, hopen⟩⟩
        · cases hopen.head_unique htext
  rejected := by
    intro input es cause hlt h
    obtain ⟨es₁, cause₁, es₂, cause₂, h₁, h₂, -⟩ := orElse_eq_rejected h
    obtain ⟨rfl, hhalts⟩ := hs.rejected hlt (map_eq_rejected h₂)
    obtain rfl : es₁ = [] := by
      have := silent_trailing (S := S) input
      rwa [h₁] at this
    cases (orElse_of_rejected_nil h₁ h₂).symm.trans h
    rcases trailing_eq_rejected h₁ with ⟨hread, hkind⟩ | ⟨content, rest, htext⟩
    · exact ⟨rfl, (hhalts.furthest_shallow hread.le hkind).2⟩
    · exact absurd htext hhalts.not_text

/-- The body of a block never rejects; it comes to a halt. -/
theorem comesToHalt_blockBody {statement : Parser S} (hs : statement.Tracks bound)
    {input rest : Input} {es : List Located} {body : List S} {alternative : Option Located}
    (hlt : input.remaining.length < bound)
    (h : blockBody statement input = ⟨es, .accepted body alternative rest⟩) :
    ComesToHalt input alternative rest := by
  obtain ⟨_, h, -⟩ := map_eq_accepted h
  obtain ⟨es₁, _, alt₁, start, es₂, _, alt₂, hpadding, hmany, -, -, rfl⟩ := seqWith_eq_accepted h
  have hitems := tracks_bodyItem hs
  unfold optional at hpadding
  split at hpadding
  · next hp =>
    cases hpadding
    obtain ⟨-, rfl⟩ := satisfy_eq_accepted hp
    obtain ⟨-, content, -, hr⟩ := accepts_padding_iff.1 (accepts_of_eq hp)
    have hshort := hr.length_lt
    obtain ⟨w, hr', hw⟩ := hitems.manyAfter (by omega) (.inl (Located.below_none _)) hmany
    have htext : Closed [.text content] := .text content .nil
    refine ⟨_, hr.append hr', hw.imp (fun h => ⟨htext.complete_append h.1, h.2⟩) ?_⟩
    exact fun h => ⟨htext.append h.1, h.2⟩
  · next pcause hp =>
    cases hpadding
    obtain ⟨-, hread, hkind⟩ := satisfy_eq_rejected hp
    obtain ⟨w, hr, hw⟩ := hitems.manyAfter hlt (.inl (Located.below_none _)) hmany
    refine ⟨w, hr, hw.imp_right fun ⟨hclosed, c, halt, hhalts⟩ => ⟨hclosed, ?_⟩⟩
    have hle := hr.precedes.read_le
    exact ⟨c.furthest pcause, by rw [halt]; rfl,
      (hhalts.furthest_shallow (by omega) hkind).1⟩

theorem blockBody_ne_rejected {statement : Parser S} {input : Input} {es : List Located}
    {cause : Located} : blockBody statement input ≠ ⟨es, .rejected cause⟩ := by
  intro h
  rcases seqWith_eq_rejected (map_eq_rejected h) with h | ⟨_, _, _, _, _, _, -, h, -⟩
  · unfold optional at h
    split at h <;> cases h
  · exact manyAfter_ne_rejected _ _ _ _ _ h

/-! ## Blocks -/

/-- Where neither an end directive nor the end of input stands, the fault is that of an end
directive. -/
theorem stuck_of_blockEnd {input : Input} {es : List Located} {cause : Located}
    (h : blockEnd input = ⟨es, .rejected cause⟩) :
    es = [] ∧ input.remaining ≠ [] ∧ Stuck endings 0 input cause := by
  obtain ⟨es₁, cause₁, es₂, cause₂, h₁, h₂, -⟩ := orElse_eq_rejected h
  have hend := blames_ending.withRange.outcome input
  rw [map_eq_rejected h₁] at hend
  have hinput := withRange_eq_rejected (map_eq_rejected h₂)
  obtain ⟨rfl, hread, hkind⟩ := endOfInput_eq_rejected hinput
  cases hend with
  | rejected hstuck =>
    cases (orElse_of_rejected_nil h₁ h₂).symm.trans h
    refine ⟨rfl, fun hnil => ?_, hstuck.not_begins,
      (hstuck.blamed.furthest_shallow hread.le hkind).1⟩
    simp [endOfInput, hnil, Outcome.accept] at hinput

/-- Inside a block, where neither the next statement nor the end of the block can be read. -/
theorem blamed_inside {input : Input} {a c : Located} {es : List Located} (h : Halts input a)
    (hend : blockEnd input = ⟨es, .rejected c⟩) (depth : Nat) :
    Blamed (completeAt (depth + 1)) inBinder input (c.furthest a) ∧
      ¬ CompleteAt (depth + 1) input.tokens := by
  obtain ⟨-, hne, hstuck⟩ := stuck_of_blockEnd hend
  rcases h with h | h
  · have hboth := hstuck.furthest h mem_of_mem_zero binders_begin_partsAt
    rw [zero_add, ← partsAt_succ_eq depth] at hboth
    exact ⟨hboth.blamed_completeAt, hboth.not_completeAt hne⟩
  · obtain ⟨construct, rest, hr⟩ := h.begins
    have hlt := (rejectsWithin_blockEnd (.inr ⟨construct, rest, hr⟩)).reach_lt hend
    have := h.read_add_two_le
    rw [Located.furthest_eq_right (by omega)]
    exact ⟨h.blamed _, h.not_completeAt _⟩

/-- A block that opens here, with a body behind which the fault lies. -/
theorem inBlock_of_reaches {construct : Construct} {header w : List Token}
    {input first last : Input} {a c : Located} {es : List Located}
    (hheader : IsHeader IsTextExpression construct header)
    (hr : input.Reaches (construct.openingTokens header) first) (hclosed : Closed w)
    (hr' : first.Reaches w last) (hhalts : Halts last a)
    (hend : blockEnd last = ⟨es, .rejected c⟩) : InBlock input (c.furthest a) := by
  let p : Part := .opening construct header hheader
  have hreach := hr.append hr'
  have hcomplete (depth : Nat) (u : List Token) :
      CompleteAt depth (construct.openingTokens header ++ w ++ u) ↔ CompleteAt (depth + 1) u := by
    rw [List.append_assoc]
    refine (completeAt_tokens_append_iff (p := p)).trans ?_
    simp only [p, Part.after, Option.some.injEq, exists_eq_left', hclosed.completeAt_append_iff]
  have hbinder (u : List Token) :
      InBinder (construct.openingTokens header ++ w ++ u) ↔ InBinder u := by
    rw [List.append_assoc]
    exact p.inBinder_append_iff.trans hclosed.inBinder_append_iff
  refine ⟨?_, ?_, fun depth => ?_, fun depth => ?_⟩
  · obtain ⟨middle, hwords, -⟩ :=
      (@Input.reaches_append_iff _ _ [.openStatement, .keyword construct.opening] _).1 hr
    exact ⟨construct, middle, hwords⟩
  · have hread := hreach.read_eq
    have hle := hhalts.read_le
    simp only [Construct.openingTokens, List.length_append, List.length_cons] at hread
    rw [Located.reach_furthest]
    omega
  · exact (blamed_inside hhalts hend depth).1.of_reaches hreach (hcomplete depth) hbinder
  · rw [hreach.tokens_eq, hcomplete]
    exact (blamed_inside hhalts hend depth).2

section Blocks

variable {H : Type} {construct : Construct} {header : Parser H} {statement : Parser S}
  (hheader : (header.between .openStatement .closeStatement).Blames (openings construct)
    (openBinders construct))
  (hs : statement.Tracks bound)

include hheader hs

/-- A block that is read is closed, or the input was read to its end. -/
theorem proceeds_block {input rest : Input} {es : List Located} {v : H × List S}
    {alternative : Option Located} (hlt : input.remaining.length < bound + 1)
    (h : block construct header statement input = ⟨es, .accepted v alternative rest⟩) :
    Proceeds input alternative rest ∧ ∃ middle, input.Reaches [.openStatement] middle := by
  obtain ⟨_, hchecked, -⟩ := map_eq_accepted h
  obtain ⟨_, hwhole, -⟩ := check_eq_accepted hchecked
  obtain ⟨_, _, _, last, _, ending, _, hinner, h₃, -, -, rfl⟩ := seqWith_eq_accepted hwhole
  obtain ⟨_, _, alt₁, first, _, _, alt₂, h₁, h₂, -, -, rfl⟩ := seqWith_eq_accepted hinner
  obtain ⟨rfl, rfl⟩ := blockEnd_eq_accepted h₃
  have hopening := hheader.withRange.outcome input
  rw [h₁] at hopening
  cases hopening with
  | accepted hw hr halt =>
    obtain ⟨ts, hts, rfl⟩ := hw
    have hshort := hr.length_lt
    obtain ⟨w, hr', hw⟩ := comesToHalt_blockBody hs (by omega) h₂
    refine ⟨?_, (Input.reaches_cons_iff.1 hr).imp fun _ h => h.1⟩
    obtain ⟨-, ⟨word, hword, hend, -⟩ | ⟨hnil, rfl, -⟩⟩ := accepts_blockEnd_iff.1 (accepts_of_eq h₃)
    · obtain ⟨hclosed, c, rfl, hhalts⟩ := hw.resolve_left fun h => by
        have := hend.length_lt
        simp [h.2] at this
      have hblock := Closed.block hts hclosed hword .nil
      rw [List.append_nil] at hblock
      have hc : Located.Below rest.read (some c) := by
        rintro _ ⟨⟩
        exact hhalts.reach_lt hword hend
      have hle := (hr'.append hend).precedes.read_le
      exact ⟨_, by simp [Construct.openingTokens], hr.append (hr'.append hend),
        .inl ⟨hblock, ((halt.mono hle).join hc).join (Located.below_none _)⟩⟩
    · have hcomplete : Complete w := hw.elim (·.1) fun h => .closed h.1
      exact ⟨_, by simp [Construct.openingTokens], hr.append hr',
        .inr ⟨.unclosed .nil hts hcomplete, hnil⟩⟩

/-- A block that is not read does not begin here, or it stops inside. -/
theorem stuck_or_inBlock {input : Input} {es : List Located} {cause : Located}
    (hlt : input.remaining.length < bound + 1)
    (h : block construct header statement input = ⟨es, .rejected cause⟩) :
    Stuck (openings construct) (openBinders construct) input cause ∨ InBlock input cause := by
  have hopening := hheader.withRange.outcome input
  rcases seqWith_eq_rejected (check_eq_rejected (map_eq_rejected h)) with hinner |
    ⟨_, _, _, last, _, c, hinner, hend, -, rfl⟩
  · rcases seqWith_eq_rejected hinner with h₁ | ⟨_, _, _, _, _, _, -, h₂, -⟩
    · rw [h₁] at hopening
      cases hopening with
      | rejected hstuck => exact .inl hstuck
    · exact absurd h₂ blockBody_ne_rejected
  · obtain ⟨_, _, alt₁, first, _, _, alt₂, h₁, h₂, -, -, rfl⟩ := seqWith_eq_accepted hinner
    rw [h₁] at hopening
    cases hopening with
    | accepted hw hr halt =>
      obtain ⟨ts, hts, rfl⟩ := hw
      have hshort := hr.length_lt
      obtain ⟨w, hr', hw⟩ := comesToHalt_blockBody hs (by omega) h₂
      obtain ⟨-, hne, -⟩ := stuck_of_blockEnd hend
      obtain ⟨hclosed, a, rfl, hhalts⟩ := hw.resolve_left fun h => hne h.2
      -- what was given up in the header lies before the body
      have hle := hr'.precedes.read_le
      rw [(halt.mono (hle.trans hhalts.read_le)).join_some]
      exact .inr (inBlock_of_reaches hts hr hclosed hr' hhalts hend)

end Blocks

/-! ## Statements and templates -/

/-- A directive proceeds, or it does not begin here, or it stops inside a block. -/
theorem proceeds_directive {statement : Parser TextStatement} (hs : statement.Tracks bound)
    {input rest : Input} {es : List Located} {v : TextStatement} {alternative : Option Located}
    (hlt : input.remaining.length < bound + 1)
    (h : directive Dialect.textExpression statement input =
      ⟨es, .accepted v alternative rest⟩) :
    Proceeds input alternative rest ∧
      (es = [] ∨ ∃ middle, input.Reaches [.openStatement] middle) := by
  obtain ⟨p, hp, h⟩ := firstOf_eq_accepted h
  simp only [List.mem_cons, List.not_mem_nil, or_false] at hp
  rcases hp with rfl | rfl | rfl
  · have hi := (blames_interpolation.map (Statement.interpolation (L := String))).outcome input
    rw [h] at hi
    cases hi with
    | accepted hw hr halt =>
      obtain ⟨_, ⟨_, ⟨e, rfl⟩, rfl⟩, rfl⟩ := mem_bracketed.1 hw
      exact ⟨⟨_, by simp, hr, .inl ⟨.interpolation e .nil, halt⟩⟩, .inl rfl⟩
  · obtain ⟨_, h, -⟩ := map_eq_accepted h
    exact (proceeds_block blames_forOpening hs hlt h).imp_right .inr
  · obtain ⟨_, h, -⟩ := map_eq_accepted h
    exact (proceeds_block blames_joinOpening hs hlt h).imp_right .inr

theorem stuck_or_inBlock_of_directive {statement : Parser TextStatement}
    (hs : statement.Tracks bound) {input : Input} {es : List Located} {cause : Located}
    (hlt : input.remaining.length < bound + 1)
    (h : directive Dialect.textExpression statement input = ⟨es, .rejected cause⟩) :
    es = [] ∧ (Stuck directiveStarts binders input cause ∨ InBlock input cause) := by
  obtain ⟨rfl, es₁, cause₁, es₂, cause₂, es₃, cause₃, h₁, h₂, h₃, rfl⟩ :=
    firstOf_three_eq_rejected h
  have hi := (blames_interpolation.map (Statement.interpolation (L := String))).outcome input
  rw [h₁] at hi
  refine ⟨rfl, ?_⟩
  have h₂ := map_eq_rejected h₂
  have h₃ := map_eq_rejected h₃
  -- where a block can begin, an interpolation and one of the two blocks are given up early
  have hearly (hb : ∃ construct rest,
      input.Reaches [.openStatement, .keyword (Construct.opening construct)] rest) :
      cause₁.reach < input.read + 1 ∧
        (cause₂.reach < input.read + 2 ∨ cause₃.reach < input.read + 2) := by
    obtain ⟨construct, rest, hr⟩ := hb
    obtain ⟨middle, hopen, -⟩ := Input.reaches_cons_iff.1 hr
    exact ⟨((rejectsWithin_between hopen (by decide) _).map _).reach_lt h₁,
      (rejectsWithin_headers construct hr statement).imp (·.reach_lt h₂) (·.reach_lt h₃)⟩
  cases hi with
  | rejected hi =>
    rcases stuck_or_inBlock blames_joinOpening hs hlt h₃ with hjoin | hjoin
    · rcases stuck_or_inBlock blames_forOpening hs hlt h₂ with hfor | hfor
      · have hboth := hfor.furthest hi (openBinders_begin _) mem_of_mem_zero
        rw [add_zero] at hboth
        refine .inl (hjoin.furthest hboth (openBinders_begin _) fun u hu => ?_)
        exact mem_beginnings_add.2 (.inl (openBinders_begin _ u hu))
      · have hle := hfor.read_add_two_le
        have hlts := hearly hfor.begins
        rw [Located.furthest_eq_left (a := cause₂) (by omega),
          Located.furthest_eq_right (by omega)]
        exact .inr hfor
    · have hle := hjoin.read_add_two_le
      have hlts := hearly hjoin.begins
      rw [Located.furthest_eq_left (by rw [Located.reach_furthest]; omega)]
      exact .inr hjoin

theorem tracks_textStep {inner : Parser TextStatement} (hi : inner.Tracks bound) :
    (textStep inner).Tracks (bound + 1) where
  accepted := by
    intro input rest es v alternative hlt h
    have htext := (blames_text.map (Statement.plain (E := Expression))).outcome input
    rcases ht : (text.map (Statement.plain (E := Expression))) input with
      ⟨es₁, ⟨w, alternative', rest'⟩ | cause⟩
    · have hnot : ¬ (text.map (Statement.plain (E := Expression))).Rejects input :=
        fun hr => hr _ _ _ (accepts_of_eq ht)
      rw [textStep, orElse_eq_of_not_rejects (silent_map silent_text) hnot] at h
      rw [h] at htext
      cases htext with
      | accepted hw hr halt =>
        obtain ⟨_, ⟨content, rfl⟩, rfl⟩ := hw
        exact ⟨⟨_, by simp, hr, .inl ⟨.text content .nil, halt⟩⟩, .inl rfl⟩
    · obtain ⟨-, hread, -⟩ := satisfy_eq_rejected (map_eq_rejected ht)
      obtain ⟨_, ⟨ha, -⟩ | ⟨ha, -⟩⟩ := orElse_eq_accepted h
      · cases ha.symm.trans ht
      · exact ⟨proceeds_orElse ht hread (fun hq => (proceeds_directive hi hlt hq).1) h,
          (proceeds_directive hi hlt ha).2⟩
  rejected := by
    intro input es cause hlt h
    obtain ⟨es₁, cause₁, es₂, cause₂, h₁, h₂, -⟩ := orElse_eq_rejected h
    have htext := (blames_text.map (Statement.plain (E := Expression))).outcome input
    rw [h₁] at htext
    obtain ⟨rfl, hdirective⟩ := stuck_or_inBlock_of_directive hi hlt h₂
    obtain ⟨rfl, hread, -⟩ := satisfy_eq_rejected (map_eq_rejected h₁)
    cases (orElse_of_rejected_nil h₁ h₂).symm.trans h
    refine ⟨rfl, ?_⟩
    cases htext with
    | rejected htext =>
      rcases hdirective with hstuck | hblock
      · have hboth := htext.furthest hstuck mem_of_mem_zero binders_begin
        rw [zero_add, ← partsAt_zero_eq] at hboth
        exact .inl hboth
      · have := hblock.read_add_two_le
        rw [Located.furthest_eq_right (by omega)]
        exact .inr hblock

theorem tracks_statement (bound : Nat) : Dialect.text.statement.Tracks bound := by
  have hunfolded (depth : Nat) : (unfolded textStep depth).Tracks depth := by
    induction depth with
    | zero =>
      exact ⟨fun hlt => absurd hlt (Nat.not_lt_zero _), fun hlt => absurd hlt (Nat.not_lt_zero _)⟩
    | succ depth ih => exact tracks_textStep ih
  exact ⟨fun _ h => (hunfolded _).accepted (Nat.lt_succ_self _) h,
    fun _ h => (hunfolded _).rejected (Nat.lt_succ_self _) h⟩

/-- A template is read to its end if it is complete. Otherwise the first token is blamed with which
no complete template goes on. -/
theorem template_accepts_or_blames (input : Input) :
    (Complete input.tokens ∧ ∃ es v alternative rest,
      Dialect.text.template input = ⟨es, .accepted v alternative rest⟩) ∨
    (¬ Complete input.tokens ∧ ∃ es cause, Dialect.text.template input = ⟨es, .rejected cause⟩ ∧
      Blamed (completeAt 0) inBinder input cause) := by
  rcases hm : manyAfter Dialect.text.statement none input with ⟨es, ⟨vs, alternative, rest⟩ | cause⟩
  · obtain ⟨w, hr, hw⟩ := (tracks_statement _).manyAfter (Nat.lt_succ_self _)
      (.inl (Located.below_none _)) hm
    simp only [Dialect.template, seqLeft, seqWith, many, hm]
    rcases hend : endOfInput rest with ⟨es', ⟨_, alternative', rest'⟩ | c⟩
    · have hnil := (accepts_endOfInput_iff.1 (accepts_of_eq hend)).2.1
      refine .inl ⟨?_, _, _, _, _, rfl⟩
      rw [hr.tokens_eq, Input.tokens, hnil, List.map_nil, List.append_nil]
      exact hw.elim (·.1) fun h => .closed h.1
    · have hne : rest.remaining ≠ [] := fun hnil => by
        simp [endOfInput, hnil, Outcome.accept] at hend
      obtain ⟨-, hread, hkind⟩ := endOfInput_eq_rejected hend
      obtain ⟨hclosed, a, rfl, hhalts⟩ := hw.resolve_left fun h => hne h.2
      obtain ⟨hblamed, hnot⟩ := hhalts.blamed_outside hne hread.le hkind
      refine .inr ⟨?_, _, _, rfl, hblamed.of_reaches hr (fun u => hclosed.completeAt_append_iff)
        fun u => hclosed.inBinder_append_iff⟩
      rwa [complete_iff_completeAt, hr.tokens_eq, hclosed.completeAt_append_iff]
  · exact absurd hm (manyAfter_ne_rejected _ _ _ _ _)

end Parser

end Stencil
