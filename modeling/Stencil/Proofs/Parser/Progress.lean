import Stencil.Proofs.Parser.Outcomes
import Stencil.Proofs.Parser.Templates

/-!
# Progress

A grammar that refers to itself comes to an end if it reads something before it does so, and a
loop if every one of its rounds reads something. This module counts the lexemes that are read and
proves both, for the parsers of patterns and for the statements of a dialect.

* `Parser.Consumes`: how many lexemes a parser has read at least when it accepts.
* `Parser.Guards f n m`: `f` calls the parser that it is given only behind `n` lexemes. This is
  said without looking into `f`: whatever is called elsewhere does not change the outcome. It
  passes through every combinator.
* `Parser.Evaluates`: the outcome of a grammar that refers to itself, as a finite tree of calls,
  and `Parser.Guards.descends`: a guarded grammar has such a tree on every input.
* `Parser.Iterates`: a run of a loop in which every round reads something, and
  `Parser.Consumes.repeatable`: a loop over a parser that reads something runs like this.
* `Dialect.ReadsFirst.terminates`: both for the sources of a dialect.
-/

namespace Stencil

/-! ## Places behind a place -/

namespace Input

variable {input middle rest : Input} {ts : List Token} {m n : Nat}

/-- `rest` lies at least `n` lexemes behind `input` in the same run. -/
def Advances (input : Input) (n : Nat) (rest : Input) : Prop :=
  ∃ ts : List Token, n ≤ ts.length ∧ input.Reaches ts rest

theorem Advances.refl (input : Input) : input.Advances 0 input :=
  ⟨[], Nat.le_refl _, .nil _⟩

theorem Reaches.advances (h : input.Reaches ts rest) : input.Advances ts.length rest :=
  ⟨ts, Nat.le_refl _, h⟩

theorem Advances.mono (h : input.Advances n rest) (hle : m ≤ n) : input.Advances m rest := by
  obtain ⟨ts, hts, h⟩ := h
  exact ⟨ts, Nat.le_trans hle hts, h⟩

theorem Advances.trans (h : input.Advances m middle) (h' : middle.Advances n rest) :
    input.Advances (m + n) rest := by
  obtain ⟨ts, hts, h⟩ := h
  obtain ⟨us, hus, h'⟩ := h'
  refine ⟨ts ++ us, ?_, h.append h'⟩
  rw [List.length_append]
  omega

theorem Advances.length_le (h : input.Advances n rest) :
    rest.remaining.length + n ≤ input.remaining.length := by
  obtain ⟨ts, hts, h⟩ := h
  have := h.length_eq
  omega

/-- The places behind each of the lexemes that are left. -/
def laterFrom (size : Nat) : List Lexeme → Nat → List Input
  | [], _ => []
  | _ :: rest, read => ⟨rest, read + 1, size⟩ :: laterFrom size rest (read + 1)

/-- The places that lie behind at least one lexeme. -/
def later (input : Input) : List Input :=
  laterFrom input.size input.remaining input.read

theorem mem_later_iff : rest ∈ input.later ↔ input.Advances 1 rest := by
  obtain ⟨remaining, read, size⟩ := input
  change rest ∈ laterFrom size remaining read ↔ _
  induction remaining generalizing read with
  | nil =>
    simp only [laterFrom, List.not_mem_nil, false_iff]
    intro h
    have := h.length_le
    simp at this
  | cons lexeme remaining ih =>
    simp only [laterFrom, List.mem_cons, ih]
    constructor
    · rintro (rfl | h)
      · exact (Reaches.cons (.nil _)).advances
      · exact ((Reaches.cons (.nil _)).advances.trans h).mono (by simp)
    · rintro ⟨ts, hts, h⟩
      cases h with
      | nil => simp at hts
      | @cons _ _ _ _ us _ h =>
        cases us with
        | nil => exact .inl (reaches_nil_iff.1 h)
        | cons u us => exact .inr (h.advances.mono (by simp))

end Input

namespace Parser

variable {α β γ : Type}

/-! ## What a parser reads at least -/

/-- Whatever the parser accepts, it has read at least `n` lexemes. -/
def Consumes (p : Parser α) (n : Nat) : Prop :=
  ∀ ⦃input es v rest⦄, p.Accepts input es v rest → input.Advances n rest

section Consumes

variable {p : Parser α} {q : Parser β} {m n : Nat}

theorem Consumes.mono (hp : p.Consumes n) (hle : m ≤ n) : p.Consumes m :=
  fun _ _ _ _ h => (hp h).mono hle

theorem consumes_satisfy (expected : List String) (f : Token → Option α) :
    (satisfy expected f).Consumes 1 := by
  intro input es v rest h
  obtain ⟨-, t, -, hr⟩ := accepts_satisfy_iff.1 h
  exact hr.advances

theorem consumes_token (expected : Token) : (token expected).Consumes 1 :=
  fun _ _ _ _ h => (accepts_token_iff.1 h).2.advances

theorem consumes_endOfInput : endOfInput.Consumes 0 := by
  intro input es v rest h
  obtain ⟨-, -, rfl⟩ := accepts_endOfInput_iff.1 h
  exact .refl _

theorem Consumes.map (hp : p.Consumes n) (f : α → β) : (p.map f).Consumes n := by
  intro input es v rest h
  obtain ⟨a, ha, -⟩ := accepts_map_iff.1 h
  exact hp ha

theorem Consumes.mapFault (hp : p.Consumes n) (f : Fault → Fault) : (p.mapFault f).Consumes n :=
  fun _ _ _ _ h => hp (accepts_mapFault_iff.1 h)

theorem Consumes.labelled (hp : p.Consumes n) (label : String) :
    (p.labelled label).Consumes n := by
  intro input es v rest h
  obtain ⟨es', ha, -⟩ := accepts_labelled_iff.1 h
  exact hp ha

theorem Consumes.withRange (hp : p.Consumes n) : p.withRange.Consumes n := by
  intro input es v rest h
  obtain ⟨a, ha, -⟩ := accepts_withRange_iff.1 h
  exact hp ha

theorem Consumes.check (hp : p.Consumes n) (f : α → List Fault) : (p.check f).Consumes n := by
  intro input es v rest h
  obtain ⟨es', ha, -⟩ := accepts_check_iff.1 h
  exact hp ha

/-- Looking ahead reads nothing. -/
theorem consumes_lookAhead (p : Parser α) : p.lookAhead.Consumes 0 := by
  intro input es v rest h
  obtain ⟨-, rfl⟩ := accepts_lookAhead_iff.1 h
  exact .refl _

theorem Consumes.seqWith (hp : p.Consumes m) (hq : q.Consumes n) (f : α → β → γ) :
    (Parser.seqWith f p q).Consumes (m + n) := by
  intro input es v rest h
  obtain ⟨_, _, middle, _, _, ha, hb, -, -⟩ := accepts_seqWith_iff.1 h
  exact (hp ha).trans (hq hb)

theorem Consumes.between (hp : p.Consumes n) (first last : Token) :
    (p.between first last).Consumes (1 + n + 1) :=
  ((consumes_token first).seqWith hp _).seqWith (consumes_token last) _

theorem Consumes.orElse {q : Parser α} (hp : p.Consumes n) (hq : q.Consumes n) :
    (p.orElse q).Consumes n :=
  fun _ _ _ _ h => (accepts_or_of_accepts_orElse h).elim (hp ·) (hq ·)

theorem Consumes.firstOf {ps : List (Parser α)} (hps : ∀ p ∈ ps, p.Consumes n) :
    (firstOf ps).Consumes n := by
  rintro input es v rest ⟨alternative, h⟩
  obtain ⟨p, hmem, hp⟩ := firstOf_eq_accepted h
  exact hps p hmem (accepts_of_eq hp)

theorem Consumes.optional (hp : p.Consumes 0) : p.optional.Consumes 0 := by
  intro input es v rest h
  rcases accepts_optional_iff.1 h with ⟨a, ha, -⟩ | ⟨-, -, -, rfl⟩
  · exact hp ha
  · exact .refl _

theorem Consumes.many (hp : p.Consumes 0) : p.many.Consumes 0 := by
  intro input es vs rest h
  have hrun := accepts_many_iff.1 h
  clear h
  induction hrun with
  | stop => exact .refl _
  | stuck h => exact hp h
  | step h _ _ ih => exact (hp h).trans ih

theorem Consumes.moreAfter {separator : Parser Unit} (hp : p.Consumes 0)
    (hs : separator.Consumes 0) (given : Option Located) :
    Consumes (moreAfter p separator given) 0 := by
  rintro input es vs rest ⟨alternative, h⟩
  fun_induction Parser.moreAfter p separator given input generalizing es vs with
  | case1 =>
    cases h
    exact .refl _
  | case2 =>
    cases h
    exact .refl _
  | case3 given input es₁ u a middle e _ es₂ v a' next e' hlt =>
    rename_i ih
    obtain ⟨es', ws, hm, -, -⟩ := cons_after_eq_accepted_iff.1 h
    exact ((hs (accepts_of_eq e)).trans (hp (accepts_of_eq e'))).trans (ih hm)
  | case4 given input es₁ u a middle e _ es₂ v a' next e' =>
    cases h
    exact (hs (accepts_of_eq e)).trans (hp (accepts_of_eq e'))

theorem Consumes.sepBy {separator : Parser Unit} (hp : p.Consumes 0)
    (hs : separator.Consumes 0) : (p.sepBy separator).Consumes 0 := by
  rintro input es vs rest ⟨alternative, h⟩
  rcases sepBy_eq h with ⟨_, -, hreply⟩ | ⟨_, _, _, middle, _, _, _, _, ha, hm, -, hreply⟩
  · cases hreply
    exact .refl _
  · cases hreply
    exact (hp (accepts_of_eq ha)).trans (hp.moreAfter hs _ (accepts_of_eq hm))

end Consumes

/-! ## Where a parser is called -/

/-- Two parsers do the same on every input that lies at least `n` lexemes behind `input`. -/
def Agree (n : Nat) (input : Input) (p q : Parser α) : Prop :=
  ∀ x, input.Advances n x → p x = q x

theorem Agree.behind {m n : Nat} {input middle : Input} {p q : Parser α}
    (h : Agree m input p q) (ha : input.Advances n middle) {l : Nat} (hle : m ≤ n + l) :
    Agree l middle p q :=
  fun x hx => h x ((ha.trans hx).mono hle)

/-- `f` calls the parser that it is given only behind at least `n` lexemes: its outcome stays the
same whatever parser is given, as long as this one does the same there. And `f` reads at least `m`
lexemes, given a parser that reads something. -/
structure Guards (f : Parser β → Parser α) (n m : Nat) : Prop where
  eq_of_agree : ∀ {p q : Parser β} {input : Input}, q.Consumes 1 → Agree n input p q →
    f p input = f q input
  consumes : ∀ {q : Parser β}, q.Consumes 1 → (f q).Consumes m

section Guards

variable {f : Parser γ → Parser α} {g : Parser γ → Parser β} {k l m n : Nat}

/-- What does not call the parser is guarded by any number of lexemes. -/
theorem guards_const {p : Parser α} (hp : p.Consumes m) :
    Guards (fun _ : Parser γ => p) n m :=
  ⟨fun _ _ => rfl, fun _ => hp⟩

theorem guards_id : Guards (fun p : Parser α => p) 0 1 :=
  ⟨fun _ h => h _ (.refl _), fun hq => hq⟩

theorem Guards.agree (hf : Guards f n m) {p q : Parser γ} (hq : q.Consumes 1) {input : Input}
    (h : Agree n input p q) : Agree 0 input (f p) (f q) :=
  fun _ hx => hf.eq_of_agree hq (h.behind hx (Nat.le_add_left _ _))

theorem Guards.weaken (hf : Guards f n m) (hn : k ≤ n) (hm : l ≤ m) : Guards f k l where
  eq_of_agree hq h := hf.eq_of_agree hq fun x hx => h x (hx.mono hn)
  consumes hq := (hf.consumes hq).mono hm

theorem Guards.map (hf : Guards f n m) (h : α → β) : Guards (fun p => (f p).map h) n m where
  eq_of_agree hq hagree := by simp only [Parser.map, hf.eq_of_agree hq hagree]
  consumes hq := (hf.consumes hq).map h

theorem Guards.check (hf : Guards f n m) (h : α → List Fault) :
    Guards (fun p => (f p).check h) n m where
  eq_of_agree hq hagree := by simp only [Parser.check, hf.eq_of_agree hq hagree]
  consumes hq := (hf.consumes hq).check h

/-- What is read first guards what is read after it. -/
theorem Guards.seqWith {δ : Type} (hf : Guards f k m) (hg : Guards g l n) (hle : k ≤ m + l)
    (h : α → β → δ) : Guards (fun p => Parser.seqWith h (f p) (g p)) k (m + n) where
  eq_of_agree := by
    intro p q input hq hagree
    simp only [Parser.seqWith, hf.eq_of_agree hq hagree]
    rcases ha : f q input with ⟨es, ⟨a, alternative, middle⟩ | cause⟩
    · have hmiddle := hf.consumes hq (accepts_of_eq ha)
      simp only [hg.eq_of_agree hq (hagree.behind hmiddle hle)]
    · rfl
  consumes hq := (hf.consumes hq).seqWith (hg.consumes hq) h

theorem Guards.between (hf : Guards f n m) (first last : Token) :
    Guards (fun p => (f p).between first last) (1 + n) (1 + m + 1) :=
  ((guards_const (consumes_token first)).seqWith hf (Nat.le_refl _) _).seqWith
    (guards_const (consumes_token last)) (Nat.le_add_left _ _) _

theorem Guards.orElse {g : Parser γ → Parser α} (hf : Guards f n m) (hg : Guards g n m) :
    Guards (fun p => (f p).orElse (g p)) n m where
  eq_of_agree hq hagree := by
    simp only [Parser.orElse, hf.eq_of_agree hq hagree, hg.eq_of_agree hq hagree]
  consumes hq := (hf.consumes hq).orElse (hg.consumes hq)

theorem Guards.firstOf {fs : List (Parser γ → Parser α)} (hfs : ∀ f ∈ fs, Guards f n m) :
    Guards (fun p => firstOf (fs.map fun f => f p)) n m where
  eq_of_agree := by
    intro p q input hq hagree
    unfold Parser.firstOf
    generalize (none : Option Located) = given
    induction fs generalizing given with
    | nil => rfl
    | cons f fs ih =>
      obtain ⟨hf, hfs⟩ := List.forall_mem_cons.1 hfs
      simp only [List.map_cons, firstOfAfter, hf.eq_of_agree hq hagree]
      split
      · exact ih hfs _
      · rfl
  consumes := by
    intro q hq
    refine Consumes.firstOf fun p hp => ?_
    obtain ⟨f, hf, rfl⟩ := List.mem_map.1 hp
    exact (hfs f hf).consumes hq

theorem manyAfter_congr {p q : Parser α} (hq : q.Consumes 0) {input : Input}
    (h : Agree 0 input p q) (given : Option Located) :
    manyAfter p given input = manyAfter q given input := by
  fun_induction manyAfter q given input with
  | case1 given input es cause e => rw [manyAfter, h _ (.refl _), e]
  | case2 given input es v a middle e hlt ih =>
    have hmiddle : Agree 0 middle p q := h.behind (hq (accepts_of_eq e)) (Nat.zero_le _)
    rw [manyAfter, h _ (.refl _), e]
    simp only [if_pos hlt, ih hmiddle]
  | case3 given input es v a middle e hle =>
    rw [manyAfter, h _ (.refl _), e]
    simp only [if_neg hle]

theorem Guards.many (hf : Guards f n m) : Guards (fun p => (f p).many) n 0 where
  eq_of_agree hq hagree :=
    manyAfter_congr ((hf.consumes hq).mono (Nat.zero_le _)) (hf.agree hq hagree) none
  consumes hq := ((hf.consumes hq).mono (Nat.zero_le _)).many

theorem moreAfter_congr {p q : Parser α} {separator : Parser Unit} (hq : q.Consumes 0)
    (hs : separator.Consumes 0) {input : Input} (h : Agree 0 input p q)
    (given : Option Located) :
    moreAfter p separator given input = moreAfter q separator given input := by
  fun_induction moreAfter q separator given input with
  | case1 given input es cause e => rw [moreAfter, e]
  | case2 given input es₁ u a middle e _ es₂ cause e' =>
    rw [moreAfter, e]
    simp only [h _ (hs (accepts_of_eq e)), e']
    rfl
  | case3 given input es₁ u a middle e _ es₂ v a' next e' hlt ih =>
    have hmiddle := hs (accepts_of_eq e)
    have hnext : Agree 0 next p q :=
      h.behind (hmiddle.trans (hq (accepts_of_eq e'))) (Nat.zero_le _)
    rw [moreAfter, e]
    simp only [h _ hmiddle, e', if_pos hlt]
    exact congrArg (fun later : Outcome (List α) => (later.cons v).after _) (ih hnext)
  | case4 given input es₁ u a middle e _ es₂ v a' next e' hle =>
    rw [moreAfter, e]
    simp only [h _ (hs (accepts_of_eq e)), e', if_neg hle]
    rfl

theorem Guards.sepBy (hf : Guards f n m) {separator : Parser Unit} (hs : separator.Consumes 0) :
    Guards (fun p => (f p).sepBy separator) n 0 where
  eq_of_agree := by
    intro p q input hq hagree
    have hconsumes := (hf.consumes hq).mono (Nat.zero_le m)
    have hboth := hf.agree hq hagree
    simp only [Parser.sepBy, hf.eq_of_agree hq hagree]
    rcases ha : f q input with ⟨es, ⟨v, alternative, middle⟩ | cause⟩
    · have hmiddle : Agree 0 middle (f p) (f q) :=
        hboth.behind (hconsumes (accepts_of_eq ha)) (Nat.zero_le _)
      simp only [moreAfter_congr hconsumes hs hmiddle]
    · rfl
  consumes hq := ((hf.consumes hq).mono (Nat.zero_le _)).sepBy hs

end Guards

/-! ## Recursion -/

/-- `Evaluates step input outcome`: the grammar that refers to itself by `step` comes to `outcome`
on `input` in finitely many calls. One level makes some calls of the grammar; each of these
evaluates in turn, and their outcomes settle that of the level, whatever the grammar does
elsewhere. -/
inductive Evaluates (step : Parser α → Parser α) : Input → Outcome α → Prop
  | level {input : Input} (calls : List Input) (answer : Parser α)
      (hcalls : ∀ x ∈ calls, Evaluates step x (answer x))
      (hsettled : ∀ p : Parser α, (∀ x ∈ calls, p x = answer x) →
        step p input = step answer input) :
      Evaluates step input (step answer input)

/-- What evaluates is the outcome of every solution of the grammar's equation. -/
theorem Evaluates.eq_of_unfolds {step : Parser α → Parser α} {p : Parser α}
    (hp : ∀ input, p input = step p input) {input : Input} {outcome : Outcome α}
    (h : Evaluates step input outcome) : p input = outcome := by
  induction h with
  | level calls answer _ hsettled ih => rw [hp, hsettled p ih]

/-- A grammar that calls itself where it stands, so that its outcome can be changed by changing
that of the call, does not come to an end there. -/
theorem not_evaluates_of_calls_itself {step : Parser α → Parser α} {input : Input}
    (hcalls : ∀ p, ∃ q : Parser α, (∀ x, x ≠ input → q x = p x) ∧ step q input ≠ step p input)
    (outcome : Outcome α) : ¬ Evaluates step input outcome := by
  intro h
  induction h with
  | @level input calls answer _ hsettled ih =>
    obtain ⟨q, hq, hne⟩ := hcalls answer
    by_cases hmem : input ∈ calls
    · exact ih input hmem hcalls
    · exact hne (hsettled q fun x hx => hq x fun heq => hmem (heq ▸ hx))

/-- The parser `p` is the grammar that refers to itself by `step`, and it reads something before
it does so. -/
structure Descends (p : Parser α) (step : Parser α → Parser α) : Prop where
  /-- Whatever is accepted, something has been read. -/
  consumes : p.Consumes 1
  /-- The grammar is called only behind at least one lexeme: what is put in its place may do
  anything else where nothing has been read yet. -/
  settled : ∀ input q, Agree 1 input q p → step q input = p input
  /-- It is the one solution of its equation. -/
  unfolds_iff : ∀ q : Parser α, (∀ input, q input = step q input) ↔ q = p
  /-- It comes to its outcome in finitely many calls. -/
  evaluates : ∀ input, Evaluates step input (p input)

section Recursion

variable {step : Parser α → Parser α} (hstep : Guards step 1 1)

include hstep

theorem Guards.consumes_unfolded (depth : Nat) : (unfolded step depth).Consumes 1 := by
  induction depth with
  | zero =>
    rintro input es v rest ⟨alternative, h⟩
    cases h
  | succ depth ih => exact hstep.consumes ih

theorem Guards.consumes_recursive : (recursive step).Consumes 1 :=
  fun _ _ _ _ h => hstep.consumes_unfolded _ (accepts_recursive_iff.1 h)

/-- More levels than there are lexemes change nothing. -/
theorem Guards.unfolded_eq {depth more : Nat} {input : Input}
    (hdepth : input.remaining.length < depth) (hmore : input.remaining.length < more) :
    unfolded step depth input = unfolded step more input := by
  induction depth generalizing more input with
  | zero => exact absurd hdepth (Nat.not_lt_zero _)
  | succ depth ih =>
    cases more with
    | zero => exact absurd hmore (Nat.not_lt_zero _)
    | succ more =>
      refine hstep.eq_of_agree (hstep.consumes_unfolded more) fun x hx => ?_
      have := hx.length_le
      exact ih (by omega) (by omega)

theorem Guards.settled {input : Input} {q : Parser α} (h : Agree 1 input q (recursive step)) :
    step q input = recursive step input := by
  have hunfolded : Agree 1 input q (unfolded step input.remaining.length) := by
    intro x hx
    have := hx.length_le
    exact (h x hx).trans (hstep.unfolded_eq (Nat.lt_succ_self _) (by omega))
  exact hstep.eq_of_agree (hstep.consumes_unfolded _) hunfolded

theorem Guards.evaluates (input : Input) : Evaluates step input (recursive step input) := by
  induction hlength : input.remaining.length using Nat.strongRecOn generalizing input with
  | ind length ih =>
    rw [← hstep.settled fun _ _ => rfl]
    refine .level input.later (recursive step) (fun x hx => ?_) fun p hp => ?_
    · have := (Input.mem_later_iff.1 hx).length_le
      exact ih _ (by omega) x rfl
    · exact hstep.eq_of_agree hstep.consumes_recursive fun x hx =>
        hp x (Input.mem_later_iff.2 hx)

/-- A guarded grammar comes to an end on every input. -/
theorem Guards.descends : (recursive step).Descends step where
  consumes := hstep.consumes_recursive
  settled _ _ h := hstep.settled h
  unfolds_iff q := by
    constructor
    · intro hq
      exact funext fun input => (hstep.evaluates input).eq_of_unfolds hq
    · rintro rfl input
      exact (hstep.settled fun _ _ => rfl).symm
  evaluates := hstep.evaluates

end Recursion

/-! ## Loops -/

/-- A run of the loop over `p`, to where `p` rejects; every round reads something. -/
inductive Iterates (p : Parser α) : Input → List Located → List α → Input → Prop
  | stop {input : Input} (h : p.Rejects input) : Iterates p input [] [] input
  | step {input middle rest : Input} {es es' : List Located} {v : α} {vs : List α}
      (h : p.Accepts input es v middle) (hread : input.Advances 1 middle)
      (later : Iterates p middle es' vs rest) : Iterates p input (es ++ es') (v :: vs) rest

/-- No round of the loop over `p` is accepted without reading something, and the loop runs to its
end on every input. -/
structure Repeatable (p : Parser α) : Prop where
  consumes : p.Consumes 1
  ends : ∀ input, ∃ es vs rest, Iterates p input es vs rest ∧ p.many.Accepts input es vs rest

theorem Consumes.iterates {p : Parser α} (hp : p.Consumes 1) {input rest : Input}
    {es : List Located} {vs : List α} (h : Repeats p input es vs rest) :
    Iterates p input es vs rest := by
  induction h with
  | stop h => exact .stop h
  | stuck h hle =>
    have := (hp h).length_le
    omega
  | step h _ _ ih => exact .step h (hp h) ih

theorem Consumes.repeatable {p : Parser α} (hp : p.Consumes 1) : p.Repeatable where
  consumes := hp
  ends input := by
    rcases h : p.many input with ⟨es, ⟨vs, alternative, rest⟩ | cause⟩
    · have hmany := accepts_of_eq h
      exact ⟨es, vs, rest, hp.iterates (accepts_many_iff.1 hmany), hmany⟩
    · exact absurd h (manyAfter_ne_rejected p none input es cause)

/-! ## Patterns -/

theorem guards_patternStep : Guards patternStep 1 1 :=
  (guards_const (consumes_satisfy _ _)).orElse
    ((((guards_id.sepBy (consumes_token .comma |>.mono (Nat.zero_le _))).between _ _).map
      _).weaken (Nat.le_refl _) (by omega))

theorem descends_nestedPattern : nestedPattern.Descends patternStep :=
  guards_patternStep.descends

theorem consumes_pattern : pattern.Consumes 1 :=
  (descends_nestedPattern.consumes.mapFault _).labelled _

/-! ## Directives -/

section Directives

variable {E L S H : Type}

theorem consumes_blockEnd : blockEnd.Consumes 0 :=
  (((((consumes_satisfy _ _).between _ _).withRange).map _).mono (Nat.zero_le _)).orElse
    (consumes_endOfInput.withRange.map _)

/-- Spaces and tabs before the end of a block are read, though its end is only looked at. -/
theorem consumes_trailing : (trailing : Parser (Option S)).Consumes 1 :=
  ((consumes_satisfy _ _).seqWith (consumes_lookAhead blockEnd) _).map _

theorem guards_bodyItem : Guards (bodyItem : Parser S → Parser (Option S)) 0 1 :=
  (guards_const consumes_trailing).orElse (guards_id.map some)

theorem guards_blockBody : Guards (blockBody : Parser S → Parser (List S)) 0 0 := by
  have hpadding : padding.optional.Consumes 0 :=
    ((consumes_satisfy _ _).mono (Nat.zero_le _)).optional
  exact ((guards_const hpadding).seqWith guards_bodyItem.many (Nat.le_refl _) _).map _

/-- The opening directive of a block guards its body. -/
theorem guards_block (construct : Construct) {header : Parser H} (hheader : header.Consumes 0) :
    Guards (block construct header : Parser S → Parser (H × List S)) 1 1 := by
  have hopening := (hheader.between .openStatement .closeStatement).withRange
  have hbody : Guards (fun statement : Parser S =>
      ((header.between .openStatement .closeStatement).withRange).seq (blockBody statement)) 1 2 :=
    (guards_const hopening).seqWith guards_blockBody (by omega) _
  have hend : Guards (fun _ : Parser S => blockEnd) 0 0 := guards_const consumes_blockEnd
  have hwhole := hbody.seqWith hend (by omega) Prod.mk
  exact ((hwhole.check _).map _).weaken (Nat.le_refl _) (by omega)

variable {expression : Parser E} (he : expression.Consumes 1)

include he

theorem consumes_forHeader : (forHeader expression).Consumes 4 :=
  ((((consumes_token _).seqWith consumes_pattern _).seqWith (consumes_token _) _).seqWith he _)

theorem consumes_joinHeader : (joinHeader expression).Consumes 6 :=
  (((((consumes_token _).seqWith consumes_pattern _).seqWith (consumes_token _) _).seqWith he
    _).seqWith (consumes_token _) _).seqWith he _

theorem guards_directive :
    Guards (directive expression : Parser (Statement E L) → Parser (Statement E L)) 1 1 := by
  have hfor := (consumes_forHeader he).mono (Nat.zero_le _)
  have hjoin := (consumes_joinHeader he).mono (Nat.zero_le _)
  have hall : ∀ f ∈ ([fun _ => (interpolation expression).map .interpolation,
      fun statement => (block .forIn (forHeader expression) statement).map
        fun read => .forIn read.1.1 read.1.2 read.2,
      fun statement => (block .join (joinHeader expression) statement).map
        fun read => .join read.1.1.1 read.1.1.2 read.1.2 read.2] :
      List (Parser (Statement E L) → Parser (Statement E L))), Guards f 1 1 := by
    simp only [List.forall_mem_cons, List.not_mem_nil, false_implies, implies_true, and_true]
    exact ⟨guards_const (((he.between _ _).map _).mono (by omega)),
      (guards_block .forIn hfor).map _, (guards_block .join hjoin).map _⟩
  exact Guards.firstOf hall

end Directives

end Parser

/-! ## Dialects -/

namespace Dialect

open Stencil.Parser

variable {E L : Type} {dialect : Dialect E L}

/-- One level of a statement of a dialect; `inner` reads the statements inside. -/
def statementStep (dialect : Dialect E L) (inner : Parser (Statement E L)) :
    Parser (Statement E L) :=
  ((dialect.plain inner).map .plain).orElse (directive dialect.expression inner)

/-- The parsers of a dialect read something, and before they use the parser of statements that
they are given. -/
structure ReadsFirst (dialect : Dialect E L) : Prop where
  expression : dialect.expression.Consumes 1
  plain : Guards dialect.plain 1 1

/-- A dialect's sources are read to the end. -/
structure Terminates (dialect : Dialect E L) : Prop where
  expression : dialect.expression.Consumes 1
  statement : dialect.statement.Descends dialect.statementStep
  /-- The loop over the statements of a source. -/
  sourceLoop : dialect.statement.Repeatable
  /-- The loop over the items in the body of a block. -/
  bodyLoop : (bodyItem dialect.statement).Repeatable
  /-- A source is read in finitely many rounds, which settle what comes of it. -/
  parse : ∀ name source, ∃ es vs rest,
    Iterates dialect.statement (.ofSource dialect.mode source) es vs rest ∧
      ∀ template, dialect.parse name source = .ok template ↔
        es = [] ∧ rest.remaining = [] ∧ vs = template

theorem ReadsFirst.guards_statementStep (h : dialect.ReadsFirst) :
    Guards dialect.statementStep 1 1 :=
  (h.plain.map _).orElse (guards_directive h.expression)

theorem ReadsFirst.descends_statement (h : dialect.ReadsFirst) :
    dialect.statement.Descends dialect.statementStep :=
  h.guards_statementStep.descends

theorem ReadsFirst.terminates (h : dialect.ReadsFirst) : dialect.Terminates where
  expression := h.expression
  statement := h.descends_statement
  sourceLoop := h.descends_statement.consumes.repeatable
  bodyLoop := (guards_bodyItem.consumes h.descends_statement.consumes).repeatable
  parse name source := by
    have hloop := h.descends_statement.consumes.repeatable
    obtain ⟨es, vs, rest, hrun, hmany⟩ := hloop.ends (.ofSource dialect.mode source)
    refine ⟨es, vs, rest, hrun, fun template => ?_⟩
    rw [Dialect.parse, parseAs_eq_ok_iff]
    simp only [accepts_template_iff, ← accepts_many_iff]
    constructor
    · rintro ⟨rest', ha, hrest⟩
      obtain ⟨rfl, rfl, rfl⟩ := hmany.unique ha
      exact ⟨rfl, hrest, rfl⟩
    · rintro ⟨rfl, hrest, rfl⟩
      exact ⟨rest, hmany, hrest⟩

theorem readsFirst_text : Dialect.text.ReadsFirst where
  expression := (consumes_satisfy _ _).labelled _
  plain := guards_const (p := Parser.text) (consumes_satisfy _ _)

end Dialect

end Stencil
