import Stencil.Proofs.Composition.Merged
import Stencil.Proofs.Grammar.DirectiveMeaning

/-!
# What a composed grammar means

A meaning is a model of a composed grammar exactly if it is a model of the host grammar, is closed
under writing directives around what the host calls expressions and statements, and holds
directives wherever it holds these (`isModel_composed_iff`). So host and directives can be
understood one by one.
-/

namespace Stencil

open Meaning

/-- A meaning under the names of directives: it has the host's token lists for what directives call
an expression or a statement. -/
def Meaning.renamed (m : Meaning) (splice : SplicePoints) : Meaning :=
  fun name => m (splice.rename name)

/-- The meaning holds directives, and what is spliced into a host's code is among its expressions
and statements. -/
structure Meaning.HoldsSpliced (m : Meaning) (splice : SplicePoints) : Prop where
  directives : (m.renamed splice).HoldsDirectives
  interpolation : ∀ {ts}, m "template_interpolation" ts → m splice.expression ts
  statement : ∀ {ts}, m "template_statement" ts → m splice.statement ts

section Composed

variable {reads : Token → Symbol → Prop} {m : Meaning} {host template : Grammar}
  {splice : SplicePoints}

theorem sequence_renamed_iff {symbols : List Symbol} {ts : List Token} :
    (m.renamed splice).sequence reads symbols ts ↔
      m.sequence reads (symbols.map splice.renameSymbol) ts := by
  induction symbols generalizing ts with
  | nil => exact Iff.rfl
  | cons s symbols ih =>
    have hsymbol : ∀ us,
        (m.renamed splice).symbol reads s us ↔ m.symbol reads (splice.renameSymbol s) us := by
      intro us
      cases s <;> exact Iff.rfl
    simp only [List.map_cons, Meaning.sequence, hsymbol, ih]

/-- A meaning is a model of a merged grammar if it is one of the host grammar and, under the names
of directives, of the template's, and holds what is spliced in. -/
theorem isModel_merge_iff (h : (Composition.merge host splice template).2 = []) :
    m.IsModel reads (Composition.merge host splice template).1 ↔
      m.IsModel reads host ∧ (m.renamed splice).IsModel reads template ∧
        (∀ ts, m "template_interpolation" ts → m splice.expression ts) ∧
        ∀ ts, m "template_statement" ts → m splice.statement ts := by
  constructor
  · intro hm
    refine ⟨?_, ?_, ?_, ?_⟩
    · intro name production hp ts hts
      refine hm name _ ((Composition.mem_productions_merge h).2 (.inl ⟨_, hp, rfl⟩)) ts ?_
      rwa [Composition.symbols_raise]
    · intro name production hp ts hts
      refine hm _ _ ((Composition.mem_productions_merge h).2
        (.inr (.inl ⟨name, production, hp, rfl, rfl⟩))) ts ?_
      rw [Composition.symbols_raise]
      exact sequence_renamed_iff.1 hts
    · intro ts hts
      refine hm _ _ ((Composition.mem_productions_merge h).2
        (.inr (.inr (.inl ⟨rfl, rfl⟩)))) ts ?_
      rw [Composition.symbols_raise]
      exact sequence_nonterminal_last hts
    · intro ts hts
      refine hm _ _ ((Composition.mem_productions_merge h).2
        (.inr (.inr (.inr ⟨rfl, rfl⟩)))) ts ?_
      exact sequence_nonterminal_last hts
  · rintro ⟨hhost, htemplate, hexpression, hstatement⟩ name production hp ts hts
    rcases (Composition.mem_productions_merge h).1 hp with
      ⟨original, ho, rfl⟩ | ⟨source, original, ho, rfl, rfl⟩ | ⟨rfl, rfl⟩ | ⟨rfl, rfl⟩
    · rw [Composition.symbols_raise] at hts
      exact hhost _ _ ho ts hts
    · rw [Composition.symbols_raise] at hts
      exact htemplate _ _ ho ts (sequence_renamed_iff.2 hts)
    · rw [Composition.symbols_raise] at hts
      exact hexpression ts (sequence_single_iff.1 hts)
    · exact hstatement ts (sequence_single_iff.1 hts)

/-- The models of a composed grammar. -/
theorem isModel_composed_iff (hr : IsReading reads) {conflicts : List Conflict}
    {composed : ComposedGrammar}
    (h : compose host conflicts splice (directiveRules .code) = .ok composed) :
    m.IsModel reads composed.rules ↔ m.IsModel reads host ∧ m.HoldsSpliced splice := by
  obtain ⟨-, hmerge, hrules, -⟩ := Composition.compose_eq_ok_iff.1 h
  rw [hrules, isModel_merge_iff hmerge, directiveRules, isModel_shared_iff hr]
  refine and_congr_right fun _ => ⟨?_, ?_⟩
  · rintro ⟨hdirectives, hexpression, hstatement⟩
    exact ⟨hdirectives, hexpression _, hstatement _⟩
  · intro hm
    exact ⟨hm.directives, fun _ => hm.interpolation, fun _ => hm.statement⟩

end Composed

end Stencil
