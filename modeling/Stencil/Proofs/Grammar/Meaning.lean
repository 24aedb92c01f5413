import Mathlib.Data.List.Forall2
import Stencil.Proofs.Grammar.Derivation
import Stencil.Token

/-!
# What a grammar says about token lists

A grammar speaks about symbols and a source is a list of tokens. Given which tokens can be read as
which symbols, `Grammar.Covers` says that a list of tokens can be read as a sequence of symbols
that is derived from a given one.

A *meaning* gives each nonterminal a set of token lists. It is a model of a grammar if it is closed
under the productions. The lists that are covered form the least model:

* `isModel_coverage`: they are a model;
* `Meaning.IsModel.sequence_of_covers`: every model holds them.

So a grammar is understood by giving a model and showing that all of it is covered.
-/

namespace Stencil

/-- A set of token lists for each nonterminal. -/
abbrev Meaning := String → List Token → Prop

namespace Meaning

variable (reads : Token → Symbol → Prop) (meaning : Meaning)

/-- The token lists of a symbol: those of a nonterminal, or a token that is read as the symbol. -/
def symbol : Symbol → List Token → Prop
  | .nonterminal name, ts => meaning name ts
  | .terminal spelling, ts => ∃ t, ts = [t] ∧ reads t (.terminal spelling)
  | .tokenClass name, ts => ∃ t, ts = [t] ∧ reads t (.tokenClass name)

/-- The token lists of a sequence of symbols: those of the symbols, one after the other. -/
def sequence : List Symbol → List Token → Prop
  | [], ts => ts = []
  | s :: symbols, ts => ∃ us vs, ts = us ++ vs ∧ meaning.symbol reads s us ∧ sequence symbols vs

/-- The meaning is closed under the productions of a grammar. -/
def IsModel (grammar : Grammar) : Prop :=
  ∀ name production, (name, production) ∈ grammar.productions →
    ∀ ts, meaning.sequence reads production.symbols ts → meaning name ts

variable {reads meaning}

theorem sequence_terminal {spelling : String} {symbols : List Symbol} {t : Token}
    {ts : List Token} (ht : reads t (.terminal spelling)) (h : meaning.sequence reads symbols ts) :
    meaning.sequence reads (.terminal spelling :: symbols) (t :: ts) :=
  ⟨[t], ts, rfl, ⟨t, rfl, ht⟩, h⟩

theorem sequence_tokenClass {name : String} {symbols : List Symbol} {t : Token}
    {ts : List Token} (ht : reads t (.tokenClass name)) (h : meaning.sequence reads symbols ts) :
    meaning.sequence reads (.tokenClass name :: symbols) (t :: ts) :=
  ⟨[t], ts, rfl, ⟨t, rfl, ht⟩, h⟩

theorem sequence_nonterminal {name : String} {symbols : List Symbol} {us ts : List Token}
    (hu : meaning name us) (h : meaning.sequence reads symbols ts) :
    meaning.sequence reads (.nonterminal name :: symbols) (us ++ ts) :=
  ⟨us, ts, rfl, hu, h⟩

theorem sequence_nonterminal_last {name : String} {ts : List Token} (h : meaning name ts) :
    meaning.sequence reads [.nonterminal name] ts :=
  ⟨ts, [], by simp, h, rfl⟩

theorem sequence_single_iff {name : String} {ts : List Token} :
    meaning.sequence reads [.nonterminal name] ts ↔ meaning name ts := by
  refine ⟨?_, sequence_nonterminal_last⟩
  rintro ⟨us, _, rfl, h, rfl⟩
  rwa [List.append_nil]

end Meaning

namespace Grammar

variable {grammar : Grammar} {reads : Token → Symbol → Prop}

/-- The tokens can be read as symbols that are derived from a given sequence. -/
def Covers (grammar : Grammar) (reads : Token → Symbol → Prop) (symbols : List Symbol)
    (ts : List Token) : Prop :=
  ∃ word, List.Forall₂ reads ts word ∧ grammar.Derives symbols word

/-- The token lists that a grammar covers. -/
def coverage (grammar : Grammar) (reads : Token → Symbol → Prop) : Meaning :=
  fun name ts => grammar.Covers reads [.nonterminal name] ts

theorem covers_of_sequence {symbols : List Symbol} {ts : List Token}
    (h : (grammar.coverage reads).sequence reads symbols ts) : grammar.Covers reads symbols ts := by
  induction symbols generalizing ts with
  | nil =>
    obtain rfl := h
    exact ⟨[], .nil, .refl⟩
  | cons s symbols ih =>
    obtain ⟨us, vs, rfl, hs, h⟩ := h
    obtain ⟨word, hword, hd⟩ := ih h
    have hsymbol : grammar.Covers reads [s] us := by
      cases s with
      | nonterminal name => exact hs
      | terminal spelling =>
        obtain ⟨t, rfl, ht⟩ := hs
        exact ⟨_, .cons ht .nil, .refl⟩
      | tokenClass name =>
        obtain ⟨t, rfl, ht⟩ := hs
        exact ⟨_, .cons ht .nil, .refl⟩
    obtain ⟨part, hpart, hd'⟩ := hsymbol
    exact ⟨part ++ word, List.rel_append hpart hword, hd'.append hd⟩

/-- What a grammar covers is a model of it. -/
theorem isModel_coverage (grammar : Grammar) (reads : Token → Symbol → Prop) :
    (grammar.coverage reads).IsModel reads grammar := by
  intro name production hp ts h
  obtain ⟨word, hword, hd⟩ := covers_of_sequence h
  exact ⟨word, hword, (derives_of_mem hp).trans hd⟩

end Grammar

/-- Every model of a grammar holds what the grammar covers, since no token is read as a
nonterminal. -/
theorem Meaning.IsModel.sequence_of_covers {grammar : Grammar} {reads : Token → Symbol → Prop}
    {meaning : Meaning} (hm : meaning.IsModel reads grammar)
    (hn : ∀ t name, ¬ reads t (.nonterminal name)) {symbols : List Symbol} {ts : List Token}
    (h : grammar.Covers reads symbols ts) : meaning.sequence reads symbols ts := by
  obtain ⟨word, hword, hd⟩ := h
  have hy := Grammar.derives_iff_yields.1 hd
  clear hd
  induction hy generalizing ts with
  | nil =>
    cases hword
    rfl
  | keep s _ ih =>
    cases hword with
    | cons ht htail =>
      cases s with
      | nonterminal name => exact absurd ht (hn _ _)
      | terminal spelling => exact sequence_terminal ht (ih htail)
      | tokenClass name => exact sequence_tokenClass ht (ih htail)
  | @expand name production _ part word hp _ _ ihpart ih =>
    have hu := ihpart (List.forall₂_take_append ts part word hword)
    have hv := ih (List.forall₂_drop_append ts part word hword)
    rw [← List.take_append_drop part.length ts]
    exact sequence_nonterminal (hm _ _ hp _ hu) hv

end Stencil
