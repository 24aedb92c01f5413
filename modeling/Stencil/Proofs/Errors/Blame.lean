import Mathlib.Computability.Language
import Mathlib.Order.Bounds.Basic
import Stencil.Proofs.Errors.Places
import Stencil.Proofs.Template.Complete

/-!
# The first token that does not fit

A parser that accepts the words of a language should reject at the first token with which no word
goes on. This holds of the parsers of patterns, expressions and the directives of templates: the
fault lies behind the longest beginning of a word that stands at the front of the input.

* `beginnings l` are the beginnings of the words of `l`, and `Extent l ts k` says that the first `k`
  tokens of `ts` are the longest of them. `Extent.of_firsts` and `Extent.append` move it from one
  language to another.
* `Parser.Blames` says that a parser accepts a prefix-free language and rejects where its words
  no longer fit, with a fault whose kind tells whether this is inside a pattern.
* `blames_pattern`, `blames_forOpening`, `blames_joinOpening` and others are the parsers of the
  parts of templates.
-/

namespace Stencil

/-! ## Beginnings of words -/

/-- The beginnings of the words of a language. -/
def beginnings (l : Language Token) : Language Token :=
  {u | ∃ w ∈ l, u <+: w}

/-- As many tokens of a list as can be gone on with to a word of the language. -/
def Extent (l : Language Token) (ts : List Token) (count : Nat) : Prop :=
  IsGreatest {i | i ≤ ts.length ∧ ts.take i ∈ beginnings l} count

variable {l m : Language Token} {ts u w : List Token} {count : Nat}

theorem mem_beginnings : u ∈ beginnings l ↔ ∃ w ∈ l, u <+: w :=
  Iff.rfl

theorem mem_beginnings_of_mem (h : w ∈ l) : w ∈ beginnings l :=
  ⟨w, h, List.prefix_rfl⟩

theorem beginnings_mono (h : ∀ w ∈ l, w ∈ m) : u ∈ beginnings l → u ∈ beginnings m :=
  fun ⟨w, hw, hu⟩ => ⟨w, h w hw, hu⟩

theorem mem_of_mem_zero (u : List Token) (h : u ∈ (0 : Language Token)) : u ∈ l :=
  absurd h (Language.notMem_zero u)

theorem mem_beginnings_add : u ∈ beginnings (l + m) ↔ u ∈ beginnings l ∨ u ∈ beginnings m := by
  simp only [mem_beginnings, Language.mem_add, or_and_right, exists_or]

/-- The beginnings that go on behind a word which leads from one language to another. -/
theorem append_mem_beginnings (hw : ∀ u, w ++ u ∈ l ↔ u ∈ m) :
    w ++ u ∈ beginnings l ↔ u ∈ beginnings m := by
  constructor
  · rintro ⟨_, hmem, more, rfl⟩
    rw [List.append_assoc, hw] at hmem
    exact ⟨u ++ more, hmem, List.prefix_append u more⟩
  · rintro ⟨v, hv, hpre⟩
    exact ⟨w ++ v, (hw v).2 hv, (List.prefix_append_right_inj w).2 hpre⟩

namespace Extent

theorem le_length (h : Extent l ts count) : count ≤ ts.length :=
  h.1.1

theorem take_mem (h : Extent l ts count) : ts.take count ∈ beginnings l :=
  h.1.2

theorem le (h : Extent l ts count) {i : Nat} (hi : i ≤ ts.length)
    (hu : ts.take i ∈ beginnings l) : i ≤ count :=
  h.2 ⟨hi, hu⟩

/-- A beginning of a word at the front of the list is no longer. -/
theorem length_le (h : Extent l ts count) (hu : u ∈ beginnings l) (hts : u <+: ts) :
    u.length ≤ count := by
  refine h.le hts.length_le ?_
  rwa [← List.prefix_iff_eq_take.1 hts]

theorem add {other : Nat} (h : Extent l ts count) (h' : Extent m ts other) :
    Extent (l + m) ts (max count other) := by
  have hunion := h.union h'
  refine ⟨?_, fun i hi => hunion.2 ?_⟩
  · rcases hunion.1 with ⟨hle, hmem⟩ | ⟨hle, hmem⟩
    · exact ⟨hle, mem_beginnings_add.2 (.inl hmem)⟩
    · exact ⟨hle, mem_beginnings_add.2 (.inr hmem)⟩
  · exact (mem_beginnings_add.1 hi.2).imp (fun h => ⟨hi.1, h⟩) (fun h => ⟨hi.1, h⟩)

/-- If none of the words of `l` stands at the front, and every word of `m` begins with one of
them, then `m` can be followed as far as `l`. -/
theorem of_firsts (h : Extent l ts count) (hnone : ∀ w ∈ l, ¬ w <+: ts)
    (hsub : ∀ u ∈ beginnings l, u ∈ beginnings m) (hfirst : ∀ w ∈ m, w = [] ∨ ∃ v ∈ l, v <+: w) :
    Extent m ts count := by
  refine ⟨⟨h.le_length, hsub _ h.take_mem⟩, ?_⟩
  rintro i ⟨hi, w, hw, hpre⟩
  rcases hfirst w hw with rfl | ⟨v, hv, hvw⟩
  · have := hpre.length_le
    simp only [List.length_take, List.length_nil] at this
    omega
  · rcases List.prefix_or_prefix_of_prefix hpre hvw with hiv | hvi
    · exact h.le hi ⟨v, hv, hiv⟩
    · exact absurd (hvi.trans (List.take_prefix i ts)) (hnone v hv)

/-- Behind a word that leads from one language to another. -/
theorem append (h : Extent m ts count) (hw : ∀ u, w ++ u ∈ l ↔ u ∈ m) :
    Extent l (w ++ ts) (w.length + count) := by
  have hbegin {u : List Token} := append_mem_beginnings (u := u) hw
  constructor
  · refine ⟨by simp [h.le_length], ?_⟩
    rw [List.take_length_add_append]
    exact hbegin.2 h.take_mem
  · rintro i ⟨hi, hmem⟩
    rcases Nat.lt_or_ge i w.length with hlt | hge
    · omega
    · obtain ⟨j, rfl⟩ := Nat.exists_eq_add_of_le hge
      rw [List.take_length_add_append, hbegin] at hmem
      have := h.le (by simpa using hi) hmem
      omega

/-- No token fits. -/
theorem zero (hl : ∃ w, w ∈ l) (h : ∀ t ts', ts = t :: ts' → [t] ∉ beginnings l) :
    Extent l ts 0 := by
  obtain ⟨w, hw⟩ := hl
  refine ⟨⟨Nat.zero_le _, w, hw, List.nil_prefix⟩, ?_⟩
  rintro i ⟨hi, v, hv, hpre⟩
  cases ts with
  | nil => simpa using hi
  | cons t ts' =>
    cases i with
    | zero => exact Nat.le_refl _
    | succ i => exact absurd ⟨v, hv, (by simp : [t] <+: _).trans hpre⟩ (h t ts' rfl)

end Extent

/-! ## Faults behind the longest beginning -/

/-- The kind of a fault tells whether it lies behind a marked word. -/
def IsNamed (marked : Language Token) (u : List Token) (kind : FaultKind) : Prop :=
  (u ∈ marked ∧ kind = .invalidPattern) ∨ (u ∉ marked ∧ kind = .unexpectedToken)

/-- The fault lies at the first token that does not fit the language, and is named for what stands
before. -/
def Blamed (l marked : Language Token) (input : Input) (located : Located) : Prop :=
  ∃ count, located.reach = input.read + count ∧ Extent l input.tokens count ∧
    IsNamed marked (input.tokens.take count) located.fault.kind

/-- A language no word of which is the beginning of another, with some beginnings marked. -/
structure Marks (l marked : Language Token) : Prop where
  nonempty : ∃ w, w ∈ l
  prefixFree : ∀ {w w' us vs : List Token}, w ∈ l → w' ∈ l → w ++ us = w' ++ vs → w = w'
  mem_beginnings : ∀ u ∈ marked, u ∈ beginnings l
  not_begins : ∀ {u w : List Token}, u ∈ marked → w ∈ l → ¬ w <+: u

/-- No word of the language stands at the front, and the first token that does not fit is
blamed. -/
structure Stuck (l marked : Language Token) (input : Input) (located : Located) : Prop where
  not_begins : ∀ w ∈ l, ¬ w <+: input.tokens
  blamed : Blamed l marked input located

variable {l' m' : Language Token} {input rest : Input} {a b : Located}

namespace Blamed

theorem read_le (h : Blamed l m input a) : input.read ≤ a.reach := by
  obtain ⟨count, hreach, -⟩ := h
  omega

/-- If the tokens that are read do not fit, the fault lies before their end. -/
theorem reach_lt (h : Blamed l m input a) (hr : input.Reaches w rest) (hw : w ∉ beginnings l) :
    a.reach < rest.read := by
  obtain ⟨count, hreach, hextent, -⟩ := h
  have hlt : count < w.length := by
    by_contra hge
    obtain ⟨v, hv, hpre⟩ := hextent.take_mem
    refine hw ⟨v, hv, List.IsPrefix.trans ?_ hpre⟩
    rw [hr.tokens_eq]
    exact List.prefix_take_iff.2 ⟨List.prefix_append w _, by omega⟩
  rw [hr.read_eq, hreach]
  omega

theorem furthest (ha : Blamed l m input a) (hb : Blamed l' m' input b)
    (hm : ∀ u ∈ m, u ∈ beginnings l) (hm' : ∀ u ∈ m', u ∈ beginnings l') :
    Blamed (l + l') (m + m') input (a.furthest b) := by
  obtain ⟨j, hja, hj, hnamed⟩ := ha
  obtain ⟨k, hkb, hk, hnamed'⟩ := hb
  refine ⟨max j k, by rw [Located.reach_furthest]; omega, hj.add hk, ?_⟩
  -- a marked word of the one language is no longer than its extent
  rcases Located.furthest_cases a b with ⟨hlt, h⟩ | ⟨hlt, h⟩ | ⟨heq, h⟩
  · have hjk : k < j := by omega
    have hnot : input.tokens.take j ∉ m' := fun hmem => by
      have := hk.le hj.le_length (hm' _ hmem)
      omega
    rw [h, Nat.max_eq_left hjk.le]
    exact hnamed.imp (fun h => ⟨.inl h.1, h.2⟩) (fun h => ⟨fun hmem => hmem.elim h.1 hnot, h.2⟩)
  · have hjk : j < k := by omega
    have hnot : input.tokens.take k ∉ m := fun hmem => by
      have := hj.le hk.le_length (hm _ hmem)
      omega
    rw [h, Nat.max_eq_right hjk.le]
    exact hnamed'.imp (fun h => ⟨.inr h.1, h.2⟩) (fun h => ⟨fun hmem => hmem.elim hnot h.1, h.2⟩)
  · obtain rfl : j = k := by omega
    rw [h, Nat.max_self]
    rcases hnamed with ⟨hmem, hkind⟩ | ⟨hnot, hkind⟩
    · exact .inl ⟨.inl hmem, by simp [Fault.merge, hkind]⟩
    rcases hnamed' with ⟨hmem', hkind'⟩ | ⟨hnot', hkind'⟩
    · exact .inl ⟨.inr hmem', by simp [Fault.merge, hkind, hkind']⟩
    · exact .inr ⟨fun hmem => hmem.elim hnot hnot', by simp [Fault.merge, hkind, hkind']⟩

/-- A fault behind a word that leads from one language to another. -/
theorem of_reaches (h : Blamed l m rest a) (hr : input.Reaches w rest)
    (hw : ∀ u, w ++ u ∈ l' ↔ u ∈ l) (hmarked : ∀ u, w ++ u ∈ m' ↔ u ∈ m) :
    Blamed l' m' input a := by
  obtain ⟨count, hreach, hextent, hnamed⟩ := h
  refine ⟨w.length + count, by rw [hreach, hr.read_eq]; omega, ?_, ?_⟩
  · rw [hr.tokens_eq]
    exact hextent.append hw
  · rw [hr.tokens_eq, List.take_length_add_append]
    simpa only [IsNamed, hmarked] using hnamed

end Blamed

namespace Stuck

theorem furthest (ha : Stuck l m input a) (hb : Stuck l' m' input b)
    (hm : ∀ u ∈ m, u ∈ beginnings l) (hm' : ∀ u ∈ m', u ∈ beginnings l') :
    Stuck (l + l') (m + m') input (a.furthest b) where
  not_begins w hw := hw.elim (ha.not_begins w) (hb.not_begins w)
  blamed := ha.blamed.furthest hb.blamed hm hm'

/-- A fault about a longer language whose words begin with those of `l`. -/
theorem blamed_of_firsts (h : Stuck l m input a) (hsub : ∀ u ∈ beginnings l, u ∈ beginnings l')
    (hfirst : ∀ w ∈ l', w = [] ∨ ∃ v ∈ l, v <+: w)
    (hmarked : ∀ u ∈ beginnings l, (∀ w ∈ l, ¬ w <+: u) → (u ∈ m ↔ u ∈ m')) :
    Blamed l' m' input a := by
  obtain ⟨count, hreach, hextent, hnamed⟩ := h.blamed
  have hiff := hmarked _ hextent.take_mem fun w hw hpre =>
    h.not_begins w hw (hpre.trans (List.take_prefix _ _))
  refine ⟨count, hreach, hextent.of_firsts h.not_begins hsub hfirst, ?_⟩
  simpa only [IsNamed, hiff] using hnamed

theorem of_firsts (h : Stuck l m input a) (hsub : ∀ u ∈ beginnings l, u ∈ beginnings l')
    (hfirst : ∀ w ∈ l', ∃ v ∈ l, v <+: w)
    (hmarked : ∀ u ∈ beginnings l, (∀ w ∈ l, ¬ w <+: u) → (u ∈ m ↔ u ∈ m')) :
    Stuck l' m' input a where
  not_begins w hw hpre := by
    obtain ⟨v, hv, hvw⟩ := hfirst w hw
    exact h.not_begins v hv (hvw.trans hpre)
  blamed := h.blamed_of_firsts hsub (fun w hw => .inr (hfirst w hw)) hmarked

/-- A fault behind a word that leads from one language to another. -/
theorem of_reaches (h : Stuck l m rest a) (hl' : Marks l' m') (hr : input.Reaches w rest)
    (hw : ∀ u, w ++ u ∈ l' ↔ u ∈ l) (hmarked : ∀ u, w ++ u ∈ m' ↔ u ∈ m) :
    Stuck l' m' input a where
  not_begins v hv hpre := by
    rw [hr.tokens_eq] at hpre
    rcases List.prefix_or_prefix_of_prefix hpre (List.prefix_append w _) with ⟨x, rfl⟩ | ⟨x, rfl⟩
    · -- a word that ends inside `w` would be the beginning of another
      obtain ⟨_, _, hextent, -⟩ := h.blamed
      obtain ⟨y, hy, -⟩ := hextent.take_mem
      have heq := hl'.prefixFree hv ((hw y).2 hy)
        (show v ++ (x ++ y) = v ++ x ++ y ++ [] by simp)
      obtain ⟨rfl, rfl⟩ : x = [] ∧ y = [] := by simpa using heq
      exact h.not_begins [] hy List.nil_prefix
    · exact h.not_begins x ((hw x).1 hv) ((List.prefix_append_right_inj w).1 hpre)
  blamed := h.blamed.of_reaches hr hw hmarked

end Stuck

namespace Marks

theorem unmarked (hl : ∃ w, w ∈ l)
    (hfree : ∀ {w w' us vs : List Token}, w ∈ l → w' ∈ l → w ++ us = w' ++ vs → w = w') :
    Marks l 0 where
  nonempty := hl
  prefixFree := hfree
  mem_beginnings := mem_of_mem_zero
  not_begins h := absurd h (Language.notMem_zero _)

theorem mem_beginnings_mul (hl' : Marks l' m') (u : List Token) (hu : u ∈ beginnings l) :
    u ∈ beginnings (l * l') := by
  obtain ⟨v, hv⟩ := hl'.nonempty
  obtain ⟨w, hw, hpre⟩ := hu
  exact ⟨w ++ v, Language.append_mem_mul hw hv, hpre.trans (List.prefix_append w v)⟩

/-- Where no word of the first language stands, none of both stands. -/
theorem stuck_mul (hl' : Marks l' m') (h : Stuck l m input a) :
    Stuck (l * l') (m + l * m') input a := by
  refine h.of_firsts hl'.mem_beginnings_mul ?_ ?_
  · rintro _ ⟨w, hw, v, hv, rfl⟩
    exact ⟨w, hw, List.prefix_append w v⟩
  · intro u _ hu
    refine ⟨.inl, fun hmem => hmem.resolve_right ?_⟩
    rintro ⟨w, hw, v, hv, rfl⟩
    exact hu w hw (List.prefix_append w v)

variable (hl : Marks l m) (hl' : Marks l' m')

include hl

theorem append_mem_mul (hw : w ∈ l) (u : List Token) : w ++ u ∈ l * l' ↔ u ∈ l' := by
  constructor
  · rintro ⟨v, hv, v', hv', heq⟩
    obtain rfl := hl.prefixFree hv hw heq
    rwa [← List.append_cancel_left heq]
  · exact fun hu => Language.append_mem_mul hw hu

theorem append_mem_marked (hw : w ∈ l) (u : List Token) : w ++ u ∈ m + l * m' ↔ u ∈ m' := by
  constructor
  · rintro (hmem | hmem)
    · exact absurd (List.prefix_append w u) (hl.not_begins hmem hw)
    · exact (hl.append_mem_mul hw u).1 hmem
  · exact fun hu => .inr (Language.append_mem_mul hw hu)

include hl'

theorem mul : Marks (l * l') (m + l * m') where
  nonempty := by
    obtain ⟨w, hw⟩ := hl.nonempty
    obtain ⟨v, hv⟩ := hl'.nonempty
    exact ⟨w ++ v, Language.append_mem_mul hw hv⟩
  prefixFree := by
    rintro _ _ us vs ⟨w, hw, v, hv, rfl⟩ ⟨w', hw', v', hv', rfl⟩ heq
    simp only [List.append_assoc] at heq
    obtain rfl := hl.prefixFree hw hw' heq
    rw [hl'.prefixFree hv hv' (List.append_cancel_left heq)]
  mem_beginnings := by
    rintro u (hu | ⟨w, hw, v, hv, rfl⟩)
    · exact hl'.mem_beginnings_mul u (hl.mem_beginnings u hu)
    · exact (append_mem_beginnings (hl.append_mem_mul hw)).2 (hl'.mem_beginnings v hv)
  not_begins := by
    rintro u _ (hu | ⟨w, hw, v, hv, rfl⟩) ⟨w', hw', v', hv', rfl⟩ hpre
    · exact hl.not_begins hu hw' ((List.prefix_append w' v').trans hpre)
    · obtain ⟨more, hmore⟩ := hpre
      rw [List.append_assoc] at hmore
      obtain rfl := hl.prefixFree hw' hw hmore
      exact hl'.not_begins hv hv' ⟨more, List.append_cancel_left hmore⟩

/-- Behind a word of the first language, where none of the second stands. -/
theorem stuck_mul_of_reaches (hw : w ∈ l) (hr : input.Reaches w rest) (h : Stuck l' m' rest a) :
    Stuck (l * l') (m + l * m') input a :=
  h.of_reaches (hl.mul hl') hr (hl.append_mem_mul hw) (hl.append_mem_marked hw)

end Marks

/-! ## Parsers that blame the first token that does not fit -/

/-- The outcome of a parser for a language: a word is accepted, and the alternatives lie before its
end; or no word stands there, and the first token that does not fit is blamed. -/
inductive Outcome.Blames {α : Type} (l marked : Language Token) (input : Input) : Outcome α → Prop
  | accepted {v : α} {alternative : Option Located} {rest : Input} {w : List Token} (hw : w ∈ l)
      (hr : input.Reaches w rest) (halt : Located.Below rest.read alternative) :
      Blames l marked input ⟨[], .accepted v alternative rest⟩
  | rejected {cause : Located} (h : Stuck l marked input cause) :
      Blames l marked input ⟨[], .rejected cause⟩

namespace Parser

variable {α β γ : Type} {p : Parser α} {q : Parser β}

/-- The parser accepts the words of a language, and else blames the first token that does not
fit. -/
structure Blames (p : Parser α) (l marked : Language Token) : Prop where
  marks : Marks l marked
  outcome : ∀ input, (p input).Blames l marked input

theorem blames_map (h : (p input).Blames l m input) (f : α → β) :
    (p.map f input).Blames l m input := by
  unfold Parser.map
  cases hout : p input
  rw [hout] at h
  cases h with
  | accepted hw hr halt => exact .accepted hw hr halt
  | rejected h => exact .rejected h

theorem Blames.map (hp : p.Blames l m) (f : α → β) : (p.map f).Blames l m :=
  ⟨hp.marks, fun input => blames_map (hp.outcome input) f⟩

theorem Blames.withRange (hp : p.Blames l m) : p.withRange.Blames l m := by
  refine ⟨hp.marks, fun input => ?_⟩
  have h := hp.outcome input
  unfold Parser.withRange
  cases hout : p input
  rw [hout] at h
  cases h with
  | accepted hw hr halt => exact .accepted hw hr halt
  | rejected h => exact .rejected h

theorem Blames.labelled (hp : p.Blames l m) (label : String) : (p.labelled label).Blames l m := by
  refine ⟨hp.marks, fun input => ?_⟩
  have h := hp.outcome input
  unfold Parser.labelled
  cases hout : p input
  rw [hout] at h
  cases h with
  | accepted hw hr halt =>
    refine .accepted hw hr fun a ha => ?_
    obtain ⟨b, hb, rfl⟩ := Option.map_eq_some_iff.1 ha
    exact halt b hb
  | rejected h => exact .rejected ⟨h.not_begins, h.blamed⟩

/-- One parser behind the other, on one input. -/
theorem blames_seqWith (hl : Marks l m) (hl' : Marks l' m') (f : α → β → γ)
    (h : (p input).Blames l m input)
    (hq : ∀ {middle w}, w ∈ l → input.Reaches w middle → (q middle).Blames l' m' middle) :
    (seqWith f p q input).Blames (l * l') (m + l * m') input := by
  unfold Parser.seqWith
  cases hout : p input
  rw [hout] at h
  cases h with
  | rejected h => exact .rejected (hl'.stuck_mul h)
  | @accepted v alternative middle w hw hr halt =>
    have h' := hq hw hr
    simp only
    cases hout' : q middle
    rw [hout'] at h'
    cases h' with
    | accepted hw' hr' halt' =>
      exact .accepted (Language.append_mem_mul hw hw') (hr.append hr')
        ((halt.mono hr'.precedes.read_le).join halt')
    | rejected h =>
      -- what was given up before lies before the second part
      have hkeep := (halt.mono h.blamed.read_le).furthestOf
      simp only [List.nil_append, hkeep]
      exact .rejected (hl.stuck_mul_of_reaches hl' hw hr h)

theorem Blames.seqWith (hp : p.Blames l m) (hq : q.Blames l' m') (f : α → β → γ) :
    (seqWith f p q).Blames (l * l') (m + l * m') :=
  ⟨hp.marks.mul hq.marks, fun input =>
    blames_seqWith hp.marks hq.marks f (hp.outcome input) fun _ _ => hq.outcome _⟩

/-- A choice, on one input. -/
theorem blames_orElse {p q : Parser α} (hp : (p input).Blames l m input)
    (hq : (q input).Blames l' m' input) (hm : ∀ u ∈ m, u ∈ beginnings l)
    (hm' : ∀ u ∈ m', u ∈ beginnings l') :
    (p.orElse q input).Blames (l + l') (m + m') input := by
  have hout : p.orElse q input =
      if (p input).isClean then p input else if (q input).isClean then q input
      else (p input).choose (q input) := rfl
  cases hp' : p input
  rw [hp'] at hp hout
  cases hp with
  | accepted hw hr halt =>
    rw [hout]
    exact .accepted (.inl hw) hr halt
  | rejected h =>
    cases hq' : q input
    rw [hq'] at hq hout
    cases hq with
    | accepted hw hr halt =>
      rw [hout]
      exact .accepted (.inr hw) hr halt
    | rejected h' =>
      rw [orElse_of_rejected_nil hp' hq']
      exact .rejected (h.furthest h' hm hm')

/-! ## Single tokens -/

/-- The words of one token of a class. -/
def singles (fits : Token → Prop) : Language Token :=
  {w | ∃ t, fits t ∧ w = [t]}

theorem single_mem_beginnings {fits : Token → Prop} {t : Token} :
    [t] ∈ beginnings (singles fits) ↔ fits t := by
  constructor
  · rintro ⟨_, ⟨t', ht', rfl⟩, hpre⟩
    obtain rfl : t = t' := by simpa using hpre
    exact ht'
  · exact fun ht => mem_beginnings_of_mem ⟨t, ht, rfl⟩

theorem marks_singles {fits : Token → Prop} (h : ∃ t, fits t) : Marks (singles fits) 0 := by
  refine .unmarked ?_ ?_
  · obtain ⟨t, ht⟩ := h
    exact ⟨[t], t, ht, rfl⟩
  · rintro _ _ us vs ⟨t, -, rfl⟩ ⟨t', -, rfl⟩ heq
    rw [(List.cons.inj heq).1]

/-- A fault at the next lexeme, which does not fit. -/
theorem blames_reject {fits : Token → Prop} (hfits : ∃ t, fits t) {input : Input} {fault : Fault}
    (hkind : fault.kind = .unexpectedToken)
    (h : ∀ lexeme ∈ input.remaining.head?, ¬ fits lexeme.token) :
    (Outcome.reject (α := α) input.read fault).Blames (singles fits) 0 input := by
  have hnone {t : Token} {ts : List Token} (hts : input.tokens = t :: ts) : ¬ fits t := by
    obtain ⟨lexeme, later, hcons, rfl, -⟩ := List.map_eq_cons_iff.1 hts
    exact h lexeme (by rw [hcons]; rfl)
  have hextent : Extent (singles fits) input.tokens 0 :=
    .zero (marks_singles hfits).nonempty fun t ts hts hmem =>
      hnone hts (single_mem_beginnings.1 hmem)
  refine .rejected ⟨?_, 0, rfl, hextent, .inr ⟨Language.notMem_zero _, hkind⟩⟩
  rintro _ ⟨t, ht, rfl⟩ ⟨ts, hts⟩
  exact hnone hts.symm ht

theorem blames_accept {fits : Token → Prop} {input : Input} {lexeme : Lexeme}
    {later : List Lexeme} (hcons : input.remaining = lexeme :: later) (h : fits lexeme.token)
    (v : α) :
    (Outcome.accept v { input with remaining := later, read := input.read + 1 }).Blames
      (singles fits) 0 input := by
  obtain ⟨remaining, read, size⟩ := input
  obtain rfl : remaining = lexeme :: later := hcons
  exact .accepted ⟨_, h, rfl⟩ (.cons (.nil _)) (Located.below_none _)

theorem blames_satisfy {expected : List String} {f : Token → Option α} {fits : Token → Prop}
    (hfits : ∃ t, fits t) (hf : ∀ t, (∃ v, f t = some v) ↔ fits t) :
    (satisfy expected f).Blames (singles fits) 0 := by
  refine ⟨marks_singles hfits, fun input => ?_⟩
  unfold satisfy
  split
  · next hnil => exact blames_reject hfits rfl (by simp [hnil])
  · next lexeme later hcons =>
    split
    · next v hv => exact blames_accept hcons ((hf _).1 ⟨v, hv⟩) v
    · next hv => exact blames_reject hfits rfl (by simp [hcons, ← hf, hv])

theorem blames_token (expected : Token) : (token expected).Blames (singles (· = expected)) 0 := by
  have hfits : ∃ t, t = expected := ⟨expected, rfl⟩
  refine ⟨marks_singles hfits, fun input => ?_⟩
  unfold token
  split
  · next hnil => exact blames_reject hfits rfl (by simp [hnil])
  · next lexeme later hcons =>
    split
    · next ht => exact blames_accept hcons ht ()
    · next hne => exact blames_reject hfits rfl (by simp [hcons, hne])

/-- The language of a word of `l` between two tokens. -/
def bracketed (first last : Token) (l : Language Token) : Language Token :=
  singles (· = first) * l * singles (· = last)

theorem Blames.between (hp : p.Blames l m) (first last : Token) :
    (p.between first last).Blames (bracketed first last l) (singles (· = first) * m) := by
  have h := ((blames_token first).seqWith hp fun _ b => b).seqWith (blames_token last)
    fun a _ => a
  simp only [zero_add, mul_zero, add_zero] at h
  exact h

/-! ## Patterns -/

/-- The token forms of patterns. -/
def patterns : Language Token :=
  {w | ∃ v : Pattern, v.tokens = w}

/-- The items of a tuple and its closing parenthesis; each item but a first one follows a comma. -/
def tupleTails (first : Bool) : Language Token :=
  {w | ∃ vs, Pattern.tokensOf first vs ++ [.closeParen] = w}

/-- An item of a tuple; each but a first one follows a comma. -/
def tupleItems : Bool → Language Token
  | true => patterns
  | false => singles (· = .comma) * patterns

theorem marks_patterns : Marks patterns 0 := by
  refine .unmarked ⟨_, .var "", rfl⟩ ?_
  rintro _ _ us vs ⟨v, rfl⟩ ⟨w, rfl⟩ heq
  rw [exact_nestedPattern.append_inj heq]

theorem marks_tupleTails : Marks (tupleTails true) 0 := by
  refine .unmarked ⟨_, [], rfl⟩ ?_
  rintro _ _ us us' ⟨vs, rfl⟩ ⟨ws, rfl⟩ heq
  have htuple : (Pattern.tuple vs).tokens ++ us = (Pattern.tuple ws).tokens ++ us' :=
    congrArg (Token.openParen :: ·) heq
  cases exact_nestedPattern.append_inj htuple
  rfl

/-- Behind the first item of a tuple. -/
theorem item_append_mem_tupleTails (v : Pattern) (u : List Token) :
    v.tokens ++ u ∈ tupleTails true ↔ u ∈ tupleTails false := by
  constructor
  · rintro ⟨vs, heq⟩
    cases vs with
    | nil => cases v <;> simp [Pattern.tokens, Pattern.tokensOf] at heq
    | cons w ws =>
      rw [Pattern.tokensOf_true_cons, List.append_assoc] at heq
      obtain rfl := exact_nestedPattern.append_inj heq
      exact ⟨ws, List.append_cancel_left heq⟩
  · rintro ⟨ws, rfl⟩
    exact ⟨v :: ws, by rw [Pattern.tokensOf_true_cons, List.append_assoc]⟩

/-- Behind further items of a tuple. -/
theorem items_append_mem_tupleTails (vs : List Pattern) (u : List Token) :
    Pattern.tokensOf false vs ++ u ∈ tupleTails false ↔ u ∈ tupleTails false := by
  induction vs with
  | nil => rfl
  | cons v vs ih =>
    rw [Pattern.tokensOf_false_cons, ← ih]
    simp only [List.cons_append, List.append_assoc]
    constructor
    · rintro ⟨ws, heq⟩
      cases ws with
      | nil => simp [Pattern.tokensOf] at heq
      | cons w ws =>
        rw [Pattern.tokensOf_false_cons, List.cons_append, List.append_assoc] at heq
        have htail := (List.cons.inj heq).2
        obtain rfl := exact_nestedPattern.append_inj htail
        exact ⟨ws, List.append_cancel_left htail⟩
    · rintro ⟨ws, heq⟩
      refine ⟨v :: ws, ?_⟩
      rw [Pattern.tokensOf_false_cons, List.cons_append, List.append_assoc, heq]

/-- A tuple goes on with an item. -/
theorem exists_tokensOf_begins (first : Bool) {w : List Token} (hw : w ∈ tupleItems first) :
    ∃ vs, w <+: Pattern.tokensOf first vs := by
  cases first with
  | true =>
    obtain ⟨v, rfl⟩ := hw
    exact ⟨[v], List.prefix_append _ _⟩
  | false =>
    obtain ⟨_, ⟨_, rfl, rfl⟩, _, ⟨v, rfl⟩, rfl⟩ := hw
    exact ⟨[v], List.prefix_append (_ :: _) _⟩

theorem exists_tupleItems_begins (first : Bool) (v : Pattern) (vs : List Pattern) :
    ∃ w ∈ tupleItems first, w <+: Pattern.tokensOf first (v :: vs) := by
  cases first with
  | true => exact ⟨v.tokens, ⟨v, rfl⟩, List.prefix_append _ _⟩
  | false =>
    exact ⟨.comma :: v.tokens, ⟨_, ⟨_, rfl, rfl⟩, _, ⟨v, rfl⟩, rfl⟩, List.prefix_append (_ :: _) _⟩

theorem closeParen_notMem_beginnings_tupleItems (first : Bool) :
    [Token.closeParen] ∉ beginnings (tupleItems first) := by
  rintro ⟨w, hw, hpre⟩
  cases first with
  | true =>
    obtain ⟨v, rfl⟩ := hw
    cases v <;> simp [Pattern.tokens] at hpre
  | false =>
    obtain ⟨_, ⟨_, rfl, rfl⟩, _, -, rfl⟩ := hw
    simp at hpre

/-- Where no item stands the tuple is closed, or both faults become one. -/
theorem closes_or_stuck {first : Bool} (h : Stuck (tupleItems first) 0 input a) :
    (∃ alternative rest, token .closeParen input = ⟨[], .accepted () alternative rest⟩ ∧
      input.Reaches [.closeParen] rest ∧
      Located.Below rest.read (Located.join (some a) alternative)) ∨
    ∃ c, token .closeParen input = ⟨[], .rejected c⟩ ∧
      Stuck (tupleTails first) 0 input (c.furthest a) := by
  have hclose := (blames_token .closeParen).outcome input
  cases hout : token .closeParen input
  rw [hout] at hclose
  cases hclose with
  | @accepted _ alternative rest w hw hr halt =>
    obtain ⟨t, rfl, rfl⟩ := hw
    have hbelow : Located.Below rest.read (some a) := by
      rintro _ ⟨⟩
      exact h.blamed.reach_lt hr (closeParen_notMem_beginnings_tupleItems first)
    exact .inl ⟨alternative, rest, rfl, hr, hbelow.join halt⟩
  | @rejected c hclose =>
    refine .inr ⟨c, rfl, (hclose.furthest h mem_of_mem_zero mem_of_mem_zero).of_firsts ?_ ?_ ?_⟩
    · intro u hu
      rcases mem_beginnings_add.1 hu with ⟨_, ⟨t, rfl, rfl⟩, hpre⟩ | ⟨w, hw, hpre⟩
      · exact ⟨_, ⟨[], by simp [Pattern.tokensOf]⟩, hpre⟩
      · obtain ⟨vs, hvs⟩ := exists_tokensOf_begins first hw
        exact ⟨_, ⟨vs, rfl⟩, hpre.trans (hvs.trans (List.prefix_append _ _))⟩
    · rintro _ ⟨vs, rfl⟩
      cases vs with
      | nil => exact ⟨_, .inl ⟨_, rfl, rfl⟩, by simp [Pattern.tokensOf]⟩
      | cons v vs =>
        obtain ⟨w, hw, hpre⟩ := exists_tupleItems_begins first v vs
        exact ⟨w, .inr hw, hpre.trans (List.prefix_append _ _)⟩
    · intro u _ _
      rw [add_zero]

section Tuples

variable {inner : Parser Pattern} {depth : Nat}
  (hi : ∀ {input : Input}, input.remaining.length < depth → (inner input).Blames patterns 0 input)

include hi

/-- The loop over the items of a tuple stops where no further item stands. -/
theorem stuck_of_moreAfter {given : Option Located} {input rest : Input} {es : List Located}
    {vs : List Pattern} {alternative : Option Located}
    (hlt : input.remaining.length < depth) (hgiven : Located.Below input.read given)
    (h : moreAfter inner (token .comma) given input = ⟨es, .accepted vs alternative rest⟩) :
    es = [] ∧ ∃ ws a, input.Reaches (Pattern.tokensOf false ws) rest ∧ alternative = some a ∧
      Stuck (tupleItems false) 0 rest a := by
  have hmarks := (blames_token .comma).marks
  fun_induction moreAfter inner (token .comma) given input generalizing es vs with
  | case1 given input reported cause hr =>
    have hcomma := (blames_token .comma).outcome input
    rw [hr] at hcomma
    cases h
    cases hcomma with
    | rejected h =>
      have hstuck := marks_patterns.stuck_mul h
      rw [zero_add, mul_zero] at hstuck
      exact ⟨rfl, [], cause, .nil _, (hgiven.mono h.blamed.read_le).join_some, hstuck⟩
  | case2 given input es₁ u a middle ha _ es₂ cause =>
    rename_i hc
    have hcomma := (blames_token .comma).outcome input
    rw [ha] at hcomma
    cases hcomma with
    | accepted hw hr halt =>
      have hitem := hi (hr.precedes.length_le.trans_lt hlt)
      rw [hc] at hitem
      cases h
      cases hitem with
      | rejected h =>
        have hbelow := ((hgiven.mono hr.precedes.read_le).join halt).mono h.blamed.read_le
        have hstuck := hmarks.stuck_mul_of_reaches marks_patterns hw hr h
        rw [zero_add, mul_zero] at hstuck
        exact ⟨rfl, [], cause, .nil _, hbelow.join_some, hstuck⟩
  | case3 given input es₁ u a middle ha _ es₂ v a' next ha' hlt' =>
    rename_i ih
    have hcomma := (blames_token .comma).outcome input
    rw [ha] at hcomma
    cases hcomma with
    | accepted hw hr halt =>
      have hitem := hi (hr.precedes.length_le.trans_lt hlt)
      rw [ha'] at hitem
      cases hitem with
      | accepted hw' hr' halt' =>
        obtain ⟨t, rfl, rfl⟩ := hw
        obtain ⟨item, rfl⟩ := hw'
        obtain ⟨es', ws, hm, rfl, -⟩ := cons_after_eq_accepted_iff.1 h
        have hbelow := (((hgiven.mono hr.precedes.read_le).join halt).mono
          hr'.precedes.read_le).join halt'
        obtain ⟨rfl, items, a, hrest, halt, hstuck⟩ := ih (by omega) hbelow hm
        exact ⟨rfl, item :: items, a, hr.append (hr'.append hrest), halt, hstuck⟩
  | case4 given input es₁ u a middle ha _ es₂ v a' next ha' =>
    -- an item never gives back what the separator read
    rename_i hle
    have hr := (accepts_token_iff.1 (accepts_of_eq ha)).2
    have hshort := hr.length_lt
    have hitem := hi (show middle.remaining.length < depth by omega)
    rw [ha'] at hitem
    cases hitem with
    | accepted _ hr' _ =>
      have := hr'.precedes.length_le
      omega

/-- The inside of a tuple, with its closing parenthesis. -/
theorem blames_tupleTail {input : Input} (hlt : input.remaining.length < depth) :
    ((inner.sepBy (token .comma)).seqLeft (token .closeParen) input).Blames (tupleTails true) 0
      input := by
  have hitem := hi hlt
  unfold seqLeft seqWith
  rcases hs : inner.sepBy (token .comma) input with ⟨es, reply⟩
  rcases sepBy_eq hs with ⟨cause, hp, rfl⟩ |
    ⟨es₁, v, alt₁, middle, es₂, vs, alternative, rest, hp, hm, rfl, rfl⟩
  · -- the tuple has no items
    rw [hp] at hitem
    cases hitem with
    | rejected hitem =>
      have hitem : Stuck (tupleItems true) 0 input cause := hitem
      rcases closes_or_stuck hitem with ⟨_, rest, hc, hr, halt⟩ | ⟨c, hc, hstuck⟩
      · simp only [hc]
        exact .accepted ⟨[], rfl⟩ hr halt
      · simp only [hc]
        exact .rejected hstuck
  · rw [hp] at hitem
    cases hitem with
    | accepted hw hr halt =>
      obtain ⟨item, rfl⟩ := hw
      obtain ⟨rfl, items, a, hr', rfl, hmore⟩ :=
        stuck_of_moreAfter hi (hr.precedes.length_le.trans_lt hlt) halt hm
      rcases closes_or_stuck hmore with ⟨_, later, hc, hr'', halt'⟩ | ⟨c, hc, hstuck⟩
      · simp only [hc]
        have hw : item.tokens ++ (Pattern.tokensOf false items ++ [.closeParen]) ∈
            tupleTails true :=
          (item_append_mem_tupleTails item _).2 ⟨items, rfl⟩
        exact .accepted hw (hr.append (hr'.append hr'')) halt'
      · simp only [hc]
        refine .rejected (hstuck.of_reaches marks_tupleTails (hr.append hr') (fun u => ?_) ?_)
        · rw [List.append_assoc, item_append_mem_tupleTails, items_append_mem_tupleTails]
        · exact fun u => Iff.intro (absurd · (Language.notMem_zero _))
            (absurd · (Language.notMem_zero _))

end Tuples

theorem token_eq_accepted {expected : Token} {input rest : Input} {es : List Located} {v : Unit}
    {alternative : Option Located}
    (h : token expected input = ⟨es, .accepted v alternative rest⟩) :
    es = [] ∧ alternative = none := by
  unfold token at h
  split at h
  · cases h
  · split at h <;> cases h
    exact ⟨rfl, rfl⟩

/-- The brackets around `p` may be read as one with it from either side, since reading the first
gives nothing up. -/
theorem between_eq (p : Parser α) (first last : Token) :
    p.between first last = (token first).seqRight (p.seqLeft (token last)) := by
  funext input
  simp only [between, seqLeft, seqRight, seqWith]
  rcases hf : token first input with ⟨es, ⟨_, alternative, inner⟩ | cause⟩
  · obtain ⟨rfl, rfl⟩ := token_eq_accepted hf
    simp only
    rcases p inner with ⟨es, ⟨v, alternative, middle⟩ | cause⟩
    · simp only
      rcases token last middle with ⟨es', ⟨_, alternative', rest⟩ | cause⟩ <;> rfl
    · rfl
  · rfl

/-- A pattern is a name or a tuple. -/
theorem patterns_eq :
    patterns = singles (fun t => ∃ name, t = .identifier name) +
      singles (· = .openParen) * tupleTails true := by
  ext w
  constructor
  · rintro ⟨v, rfl⟩
    cases v with
    | var name => exact .inl ⟨_, ⟨name, rfl⟩, rfl⟩
    | tuple vs => exact .inr ⟨[.openParen], ⟨_, rfl, rfl⟩, _, ⟨vs, rfl⟩, rfl⟩
  · rintro (⟨_, ⟨name, rfl⟩, rfl⟩ | ⟨_, ⟨_, rfl, rfl⟩, _, ⟨vs, rfl⟩, rfl⟩)
    · exact ⟨.var name, rfl⟩
    · exact ⟨.tuple vs, rfl⟩

theorem blames_boundName :
    boundName.Blames (singles fun t => ∃ name, t = .identifier name) 0 := by
  refine blames_satisfy ⟨_, "", rfl⟩ fun t => ?_
  cases t <;> simp

/-- One level of a pattern. -/
theorem blames_patternStep {inner : Parser Pattern} {depth : Nat}
    (hi : ∀ {input : Input}, input.remaining.length < depth →
      (inner input).Blames patterns 0 input)
    {input : Input} (hlt : input.remaining.length < depth + 1) :
    (patternStep inner input).Blames patterns 0 input := by
  have hopen := blames_token .openParen
  have htail {middle : Input} {w : List Token} (hw : w ∈ singles (· = Token.openParen))
      (hr : input.Reaches w middle) := by
    have hshort : middle.remaining.length < depth := by
      obtain ⟨t, rfl, rfl⟩ := hw
      have := hr.length_lt
      omega
    exact blames_tupleTail hi hshort
  have htuple := blames_seqWith hopen.marks marks_tupleTails (fun _ b => b) (hopen.outcome input)
    htail
  have h := blames_orElse (blames_boundName.outcome input) (blames_map htuple .tuple)
    mem_of_mem_zero
    (by rw [zero_add, mul_zero]; exact mem_of_mem_zero)
  simp only [zero_add, mul_zero, ← patterns_eq] at h
  rw [patternStep, tuple, between_eq]
  exact h

theorem blames_nestedPattern : nestedPattern.Blames patterns 0 := by
  have hdepth (depth : Nat) : ∀ {input : Input}, input.remaining.length < depth →
      (unfolded patternStep depth input).Blames patterns 0 input := by
    induction depth with
    | zero => exact fun h => absurd h (Nat.not_lt_zero _)
    | succ depth ih => exact fun h => blames_patternStep ih h
  exact ⟨marks_patterns, fun input => hdepth _ (Nat.lt_succ_self _)⟩

/-- The beginnings of patterns that are not yet patterns. -/
def openPatterns : Language Token :=
  {u | u ∈ beginnings patterns ∧ u ∉ patterns}

/-- The binder of a loop: whatever does not fit makes an invalid pattern. -/
theorem blames_pattern : pattern.Blames patterns openPatterns := by
  apply Blames.labelled
  constructor
  · constructor
    case nonempty => exact marks_patterns.nonempty
    case prefixFree => exact marks_patterns.prefixFree
    case mem_beginnings => exact fun u hu => hu.1
    case not_begins =>
      rintro u w ⟨⟨v, hv, hpre⟩, hnot⟩ hw hwu
      obtain ⟨more, hmore⟩ := hwu.trans hpre
      obtain rfl := marks_patterns.prefixFree hw hv (hmore.trans (List.append_nil v).symm)
      rw [hpre.eq_of_length_le hwu.length_le] at hnot
      exact hnot hv
  · intro input
    have h := blames_nestedPattern.outcome input
    unfold mapFault
    cases hout : nestedPattern input
    rw [hout] at h
    cases h with
    | accepted hw hr halt => exact .accepted hw hr halt
    | rejected h =>
      obtain ⟨count, hreach, hextent, hnamed⟩ := h.blamed
      refine .rejected ⟨h.not_begins, count, hreach, hextent, .inl ⟨⟨hextent.take_mem, ?_⟩, ?_⟩⟩
      · exact fun hmem => h.not_begins _ hmem (List.take_prefix _ _)
      · rcases hnamed with ⟨hmem, -⟩ | ⟨-, hkind⟩
        · exact absurd hmem (Language.notMem_zero _)
        · simp [Located.map, Fault.toInvalidPattern, hkind]

/-! ## The parts of templates -/

/-- The token forms of expressions. -/
def expressions : Language Token :=
  singles fun t => ∃ e : Expression, t = e.token

/-- The directives that open a block. -/
def openings (construct : Construct) : Language Token :=
  {w | ∃ header, IsHeader IsTextExpression construct header ∧ construct.openingTokens header = w}

/-- The directives that open a block, up to a place inside the binder. -/
def openBinders (construct : Construct) : Language Token :=
  {u | ∃ inner ∈ openPatterns, .openStatement :: .keyword construct.opening :: inner = u}

/-- The directives that end a block, of either kind. -/
def endings : Language Token :=
  {w | ∃ word : Keyword, word.isEnd = true ∧ endTokens word = w}

theorem openBinders_eq (construct : Construct) :
    openBinders construct =
      singles (· = .openStatement) * (singles (· = .keyword construct.opening) * openPatterns) := by
  ext u
  constructor
  · rintro ⟨inner, hinner, rfl⟩
    exact ⟨[_], ⟨_, rfl, rfl⟩, _, ⟨[_], ⟨_, rfl, rfl⟩, inner, hinner, rfl⟩, rfl⟩
  · rintro ⟨_, ⟨_, rfl, rfl⟩, _, ⟨_, ⟨_, rfl, rfl⟩, inner, hinner, rfl⟩, rfl⟩
    exact ⟨inner, hinner, rfl⟩

theorem mem_bracketed {first last : Token} :
    w ∈ bracketed first last l ↔ ∃ u ∈ l, first :: (u ++ [last]) = w := by
  constructor
  · rintro ⟨_, ⟨_, ⟨_, rfl, rfl⟩, u, hu, rfl⟩, _, ⟨_, rfl, rfl⟩, rfl⟩
    exact ⟨u, hu, rfl⟩
  · rintro ⟨u, hu, rfl⟩
    exact ⟨first :: u, ⟨[first], ⟨_, rfl, rfl⟩, u, hu, rfl⟩, [last], ⟨_, rfl, rfl⟩, rfl⟩

theorem openings_forIn_eq :
    openings .forIn = bracketed .openStatement .closeStatement
      (singles (· = .keyword .for_) * patterns * singles (· = .keyword .in_) * expressions) := by
  ext w
  rw [mem_bracketed]
  constructor
  · rintro ⟨_, ⟨binder, ⟨e, rfl⟩⟩, rfl⟩
    refine ⟨_, ⟨_, ⟨_, ⟨[_], ⟨_, rfl, rfl⟩, _, ⟨binder, rfl⟩, rfl⟩, [_], ⟨_, rfl, rfl⟩, rfl⟩, [_],
      ⟨_, ⟨e, rfl⟩, rfl⟩, rfl⟩, ?_⟩
    simp [Construct.openingTokens, forInTokens, Construct.opening]
  · rintro ⟨_, ⟨_, ⟨_, ⟨_, ⟨_, rfl, rfl⟩, _, ⟨binder, rfl⟩, rfl⟩, _, ⟨_, rfl, rfl⟩, rfl⟩, _,
      ⟨_, ⟨e, rfl⟩, rfl⟩, rfl⟩, rfl⟩
    refine ⟨_, .forIn binder ⟨e, rfl⟩, ?_⟩
    simp [Construct.openingTokens, forInTokens, Construct.opening]

theorem openings_join_eq :
    openings .join = bracketed .openStatement .closeStatement
      (singles (· = .keyword .join) * patterns * singles (· = .keyword .in_) * expressions *
        singles (· = .keyword .with_) * expressions) := by
  ext w
  rw [mem_bracketed]
  constructor
  · rintro ⟨_, _ | ⟨binder, ⟨e, rfl⟩, ⟨e', rfl⟩⟩, rfl⟩
    refine ⟨_, ⟨_, ⟨_, ⟨_, ⟨_, ⟨[_], ⟨_, rfl, rfl⟩, _, ⟨binder, rfl⟩, rfl⟩, [_], ⟨_, rfl, rfl⟩,
      rfl⟩, [_], ⟨_, ⟨e, rfl⟩, rfl⟩, rfl⟩, [_], ⟨_, rfl, rfl⟩, rfl⟩, [_], ⟨_, ⟨e', rfl⟩, rfl⟩,
      rfl⟩, ?_⟩
    simp [Construct.openingTokens, joinTokens, Construct.opening]
  · rintro ⟨_, ⟨_, ⟨_, ⟨_, ⟨_, ⟨_, ⟨_, rfl, rfl⟩, _, ⟨binder, rfl⟩, rfl⟩, _, ⟨_, rfl, rfl⟩, rfl⟩, _,
      ⟨_, ⟨e, rfl⟩, rfl⟩, rfl⟩, _, ⟨_, rfl, rfl⟩, rfl⟩, _, ⟨_, ⟨e', rfl⟩, rfl⟩, rfl⟩, rfl⟩
    refine ⟨_, .join binder ⟨e, rfl⟩ ⟨e', rfl⟩, ?_⟩
    simp [Construct.openingTokens, joinTokens, Construct.opening]

theorem blames_textExpression : Dialect.textExpression.Blames expressions 0 := by
  apply Blames.labelled
  refine blames_satisfy ⟨_, .reference "", rfl⟩ fun t => ⟨?_, ?_⟩
  · rintro ⟨v, hv⟩
    split at hv
    · exact ⟨.reference _, rfl⟩
    · exact ⟨.literal (.string _), rfl⟩
    · exact ⟨.literal (.integer _), rfl⟩
    · cases hv
  · rintro ⟨e, rfl⟩
    match e with
    | .reference _ | .literal (.string _) | .literal (.integer _) => exact ⟨_, rfl⟩

theorem blames_text : text.Blames (singles fun t => ∃ content, t = .text content) 0 := by
  refine blames_satisfy ⟨_, "", rfl⟩ fun t => ?_
  cases t <;> simp

theorem blames_interpolation :
    (interpolation Dialect.textExpression).Blames
      (bracketed .openExpression .closeExpression expressions) 0 := by
  have h := blames_textExpression.between .openExpression .closeExpression
  rwa [mul_zero] at h

theorem blames_forOpening :
    ((forHeader Dialect.textExpression).between .openStatement .closeStatement).Blames
      (openings .forIn) (openBinders .forIn) := by
  have h := (((((blames_token (.keyword .for_)).seqWith blames_pattern fun _ b => b).seqWith
    (blames_token (.keyword .in_)) fun a _ => a).seqWith blames_textExpression Prod.mk).between
      .openStatement .closeStatement)
  simp only [zero_add, mul_zero, add_zero] at h
  rw [openings_forIn_eq, openBinders_eq]
  exact h

theorem blames_joinOpening :
    ((joinHeader Dialect.textExpression).between .openStatement .closeStatement).Blames
      (openings .join) (openBinders .join) := by
  have h := ((((((blames_token (.keyword .join)).seqWith blames_pattern fun _ b => b).seqWith
    (blames_token (.keyword .in_)) fun a _ => a).seqWith blames_textExpression Prod.mk).seqWith
      (blames_token (.keyword .with_)) fun a _ => a).seqWith blames_textExpression
        Prod.mk).between .openStatement .closeStatement
  simp only [zero_add, mul_zero, add_zero] at h
  rw [openings_join_eq, openBinders_eq]
  exact h

theorem blames_ending :
    (endKeyword.between .openStatement .closeStatement).Blames endings 0 := by
  have hword : endKeyword.Blames
      (singles fun t => ∃ word : Keyword, word.isEnd = true ∧ t = .keyword word) 0 := by
    refine blames_satisfy ⟨_, .endFor, rfl, rfl⟩ fun t => ?_
    cases t <;> simp
  have h := hword.between .openStatement .closeStatement
  rw [mul_zero] at h
  convert h using 1
  ext w
  rw [mem_bracketed]
  constructor
  · rintro ⟨word, hword, rfl⟩
    exact ⟨_, ⟨_, ⟨word, hword, rfl⟩, rfl⟩, rfl⟩
  · rintro ⟨_, ⟨_, ⟨word, hword, rfl⟩, rfl⟩, rfl⟩
    exact ⟨word, hword, rfl⟩

end Parser

end Stencil
