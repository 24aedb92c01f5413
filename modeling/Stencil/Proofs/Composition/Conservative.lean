import Stencil.Host.Calc
import Stencil.Proofs.Composition.Merged
import Stencil.Proofs.Grammar.Derivation

/-!
# Composition is a conservative extension

Where no directive stands, a composed grammar says what the host grammar says.

* `yields_merge_of_yields`: what is derived in the host is derived in the merged grammar.
* `marked_of_yields_interpolation`, `marked_of_yields_statement`: all that an alternative derives
  that was spliced in is marked by an opening delimiter of a directive.
* `yields_host_of_yields_merge`: what is not marked is derived by productions of the host alone.
* `derives_composed_iff_of_not_marked` puts these together for composition.
-/

namespace Stencil

open Grammar

/-- Every production refers only to nonterminals that are defined. -/
def Grammar.IsClosed (grammar : Grammar) : Prop :=
  ∀ entry ∈ grammar.productions, ∀ reference ∈ entry.2.references,
    reference ∈ grammar.nonterminals

instance (grammar : Grammar) : Decidable grammar.IsClosed :=
  inferInstanceAs (Decidable (∀ entry ∈ grammar.productions, _))

theorem Production.mem_references_iff {production : Production} {name : String} :
    name ∈ production.references ↔ .nonterminal name ∈ production.symbols := by
  simp only [references, List.mem_filterMap]
  constructor
  · rintro ⟨symbol, hs, h⟩
    cases symbol <;> simp_all
  · intro h
    exact ⟨_, h, rfl⟩

/-- An opening delimiter of a directive is among the symbols. -/
def Marked (word : List Symbol) : Prop :=
  .terminal "\x7b\x7b" ∈ word ∨ .terminal "\x7b%" ∈ word

instance (word : List Symbol) : Decidable (Marked word) :=
  inferInstanceAs (Decidable (_ ∨ _))

theorem Marked.append_left {u : List Symbol} (h : Marked u) (v : List Symbol) :
    Marked (u ++ v) :=
  h.imp (List.mem_append_left v) (List.mem_append_left v)

theorem Marked.append_right {v : List Symbol} (h : Marked v) (u : List Symbol) :
    Marked (u ++ v) :=
  h.imp (List.mem_append_right u) (List.mem_append_right u)

namespace Composition

variable {host template : Grammar} {splice : SplicePoints} {word : List Symbol}

/-- What the host derives is still derived when template rules are merged into it. -/
theorem yields_merge_of_yields (h : (merge host splice template).2 = []) {symbols : List Symbol}
    (hd : host.Yields symbols word) : (merge host splice template).1.Yields symbols word := by
  induction hd with
  | nil => exact .nil
  | keep symbol _ ih => exact .keep symbol ih
  | @expand name production rest part word hp _ _ ihpart ih =>
    have hmerged := (mem_productions_merge h).2 (.inl ⟨production, hp, rfl⟩)
    exact .expand hmerged (by rwa [symbols_raise]) ih

/-! ## Directives leave a mark -/

/-- The names of the template rules are not those that stand for nonterminals of the host. -/
theorem rename_of_mem_nonterminals {name : String}
    (hname : name ∈ (directiveRules .code).nonterminals) : splice.rename name = name := by
  have hplain : ∀ name ∈ (directiveRules .code).nonterminals,
      name ≠ expressionName ∧ name ≠ statementName := by decide
  obtain ⟨he, hs⟩ := hplain name hname
  rw [SplicePoints.rename, if_neg he, if_neg hs]

section Directives

variable (hpoints : missingSplicePoints host splice = [])
  (h : (merge host splice (directiveRules .code)).2 = [])

include hpoints h

/-- The productions of a template nonterminal in the merged grammar are those it had. -/
theorem symbols_of_mem_merge {name : String} {production : Production}
    (hname : name ∈ (directiveRules .code).nonterminals)
    (hp : (name, production) ∈ (merge host splice (directiveRules .code)).1.productions) :
    ∃ original, (name, original) ∈ (directiveRules .code).productions ∧
      production.symbols = original.symbols.map splice.renameSymbol := by
  have hnew := rename_not_mem_nonterminals h hname
  rw [rename_of_mem_nonterminals hname] at hnew
  obtain ⟨hexpression, hstatement⟩ := missingSplicePoints_eq_nil_iff.1 hpoints
  rcases (mem_productions_merge h).1 hp with
    ⟨original, ho, -⟩ | ⟨source, original, ho, hsource, rfl⟩ | ⟨rfl, -⟩ | ⟨rfl, -⟩
  · -- a production of the host has a name of the host
    obtain ⟨rule, hr, rfl, -⟩ := mem_productions_iff.1 ho
    exact absurd (List.mem_map_of_mem hr) hnew
  · have hmem : source ∈ (directiveRules .code).nonterminals := by
      obtain ⟨rule, hr, rfl, -⟩ := mem_productions_iff.1 ho
      exact List.mem_map_of_mem hr
    rw [rename_of_mem_nonterminals hmem] at hsource
    subst hsource
    exact ⟨original, ho, by rw [symbols_raise]; rfl⟩
  · exact absurd hexpression hnew
  · exact absurd hstatement hnew

theorem marked_of_yields_interpolation (hw : IsSentence word)
    (hd : (merge host splice (directiveRules .code)).1.Yields
      [.nonterminal "template_interpolation"] word) : Marked word := by
  obtain ⟨production, part, rest, hp, rfl, hpart, -⟩ := (yields_nonterminal_cons_iff hw).1 hd
  obtain ⟨original, ho, hsymbols⟩ := symbols_of_mem_merge hpoints h (by decide) hp
  have hopening : ∀ entry ∈ (directiveRules .code).productions,
      entry.1 = "template_interpolation" →
        entry.2.symbols.head? = some (.terminal "\x7b\x7b") := by decide
  obtain ⟨tail, ht⟩ := List.head?_eq_some_iff.1 (hopening _ ho rfl)
  rw [hsymbols, ht] at hpart
  obtain ⟨tail, rfl, -⟩ := (yields_cons_iff_of_not_nonterminal rfl).1 hpart
  exact Marked.append_left (.inl List.mem_cons_self) rest

theorem marked_of_yields_statement (hw : IsSentence word)
    (hd : (merge host splice (directiveRules .code)).1.Yields
      [.nonterminal "template_statement"] word) : Marked word := by
  obtain ⟨production, part, rest, hp, rfl, hpart, -⟩ := (yields_nonterminal_cons_iff hw).1 hd
  obtain ⟨hw, -⟩ := isSentence_append_iff.1 hw
  obtain ⟨original, ho, hsymbols⟩ := symbols_of_mem_merge hpoints h (by decide) hp
  have hopening : ∀ entry ∈ (directiveRules .code).productions, entry.1 = "template_statement" →
      entry.2.symbols = [.nonterminal "template_interpolation"] ∨
        entry.2.symbols.head? = some (.terminal "\x7b%") := by decide
  refine Marked.append_left ?_ rest
  rcases hopening _ ho rfl with hs | hs
  · have hrename : splice.rename "template_interpolation" = "template_interpolation" :=
      rename_of_mem_nonterminals (by decide)
    rw [hsymbols, hs, List.map_singleton, SplicePoints.renameSymbol, hrename] at hpart
    exact marked_of_yields_interpolation hpoints h hw hpart
  · obtain ⟨tail, ht⟩ := List.head?_eq_some_iff.1 hs
    rw [hsymbols, ht] at hpart
    obtain ⟨tail, rfl, -⟩ := (yields_cons_iff_of_not_nonterminal rfl).1 hpart
    exact .inr List.mem_cons_self

/-! ## Without a mark there is only the host -/

/-- In an unmarked sentence the nonterminals of the host are expanded by productions of the host:
the two alternatives that were spliced in leave marks. -/
theorem yields_host_of_yields_merge (hclosed : host.IsClosed) {symbols : List Symbol}
    (hsymbols : ∀ name, .nonterminal name ∈ symbols → name ∈ host.nonterminals)
    (hw : IsSentence word) (hm : ¬ Marked word)
    (hd : (merge host splice (directiveRules .code)).1.Yields symbols word) :
    host.Yields symbols word := by
  induction hd with
  | nil => exact .nil
  | @keep symbol symbols word _ ih =>
    refine .keep symbol (ih ?_ ?_ ?_)
    · exact fun name hname => hsymbols name (List.mem_cons_of_mem _ hname)
    · exact fun s hs => hw s (List.mem_cons_of_mem _ hs)
    · exact fun h => hm (h.append_right [symbol])
  | @expand name production rest part word hp hpart _ ihpart ih =>
    obtain ⟨hwpart, hwrest⟩ := isSentence_append_iff.1 hw
    have hname := hsymbols name List.mem_cons_self
    have hunmarked : ¬ Marked part := fun h => hm (h.append_left word)
    have hrest : host.Yields rest word :=
      ih (fun other hother => hsymbols other (List.mem_cons_of_mem _ hother)) hwrest
        fun h => hm (h.append_right part)
    rcases (mem_productions_merge h).1 hp with
      ⟨original, ho, rfl⟩ | ⟨source, original, ho, rfl, -⟩ | ⟨-, rfl⟩ | ⟨-, rfl⟩
    · rw [symbols_raise] at ihpart
      refine .expand ho (ihpart ?_ hwpart hunmarked) hrest
      exact fun other hother => hclosed _ ho other (Production.mem_references_iff.2 hother)
    · have hsource : source ∈ (directiveRules .code).nonterminals := by
        obtain ⟨rule, hr, rfl, -⟩ := mem_productions_iff.1 ho
        exact List.mem_map_of_mem hr
      exact absurd hname (rename_not_mem_nonterminals h hsource)
    · rw [symbols_raise] at hpart
      exact absurd (marked_of_yields_interpolation hpoints h hwpart hpart) hunmarked
    · exact absurd (marked_of_yields_statement hpoints h hwpart hpart) hunmarked

end Directives

end Composition

/-- Composition with directives changes nothing where there are none: a nonterminal of the host
derives the same sentences without an opening delimiter as before. -/
theorem derives_composed_iff_of_not_marked {host : Grammar} {conflicts : List Conflict}
    {splice : SplicePoints} {composed : ComposedGrammar} (hclosed : host.IsClosed)
    (h : compose host conflicts splice (directiveRules .code) = .ok composed) {name : String}
    (hname : name ∈ host.nonterminals) {word : List Symbol} (hw : IsSentence word)
    (hm : ¬ Marked word) :
    composed.rules.Derives [.nonterminal name] word ↔ host.Derives [.nonterminal name] word := by
  obtain ⟨hpoints, hmerge, hrules, -⟩ := Composition.compose_eq_ok_iff.1 h
  rw [derives_iff_yields, derives_iff_yields, hrules]
  constructor
  · refine Composition.yields_host_of_yields_merge hpoints hmerge hclosed ?_ hw hm
    intro other hother
    obtain rfl : other = name := by simpa using hother
    exact hname
  · exact Composition.yields_merge_of_yields hmerge

/-- An instance: a statement of the calculator, whose expressions and statements both take
directives. -/
theorem calc_derives_composed_iff :
    Calc.rules.IsClosed ∧ ∃ composed,
      compose Calc.rules [] ⟨"expr", "stmt"⟩ (directiveRules .code) = .ok composed ∧
      (composed.rules.Derives [.nonterminal "stmt"]
          [.terminal "\x7b", .tokenClass "identifier", .terminal ";", .terminal "\x7d"] ↔
        Calc.rules.Derives [.nonterminal "stmt"]
          [.terminal "\x7b", .tokenClass "identifier", .terminal ";", .terminal "\x7d"]) := by
  have hclosed : Calc.rules.IsClosed := by decide +kernel
  have hok : (compose Calc.rules [] ⟨"expr", "stmt"⟩ (directiveRules .code)).isOk = true := by
    decide +kernel
  refine ⟨hclosed, ?_⟩
  cases hcompose : compose Calc.rules [] ⟨"expr", "stmt"⟩ (directiveRules .code) with
  | error errors => simp [hcompose, Except.isOk, Except.toBool] at hok
  | ok composed =>
    refine ⟨composed, rfl, ?_⟩
    exact derives_composed_iff_of_not_marked hclosed hcompose (by decide) (by decide) (by decide)

end Stencil
