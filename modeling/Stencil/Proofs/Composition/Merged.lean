import Stencil.Composition

/-!
# The merged grammar

What composition makes of a host grammar and template rules, production by production.

* `compose_eq_ok_iff`: composition succeeds if all of its checks find nothing.
* `mem_productions_merge`: the productions of a merged grammar are those of the host, those of
  the template under the host's names, and one more at each splice point.
-/

namespace Stencil

namespace Composition

variable {host grammar template : Grammar} {splice : SplicePoints} {name : String}
  {production : Production}

theorem missingSplicePoints_eq_nil_iff :
    missingSplicePoints host splice = [] ↔
      splice.expression ∈ host.nonterminals ∧ splice.statement ∈ host.nonterminals := by
  simp [missingSplicePoints, SplicePoints.toList, List.filter_eq_nil_iff, ← Grammar.contains_iff]

/-! ## Template rules under the host's names -/

theorem adoptRules_cons_of_errors_eq_nil {rule : Rule} {rest : List Rule}
    (h : (adoptRules splice grammar (rule :: rest)).2 = []) :
    splice.rename rule.name ∉ grammar.nonterminals ∧
      adoptRules splice grammar (rule :: rest) = adoptRules splice
        (grammar.add (splice.rename rule.name) (rule.productions.map (adopt splice))) rest := by
  rw [adoptRules] at h ⊢
  dsimp only at h ⊢
  split at h
  · simp at h
  · next hc =>
    rw [if_neg hc]
    rw [Grammar.contains_iff] at hc
    exact ⟨hc, rfl⟩

/-- If no template rule finds its name taken, the names are new. -/
theorem rename_not_mem_of_adoptRules {rules : List Rule}
    (h : (adoptRules splice grammar rules).2 = []) {rule : Rule} (hr : rule ∈ rules) :
    splice.rename rule.name ∉ grammar.nonterminals := by
  induction rules generalizing grammar with
  | nil => cases hr
  | cons first rest ih =>
    obtain ⟨hnew, heq⟩ := adoptRules_cons_of_errors_eq_nil h
    rcases List.mem_cons.1 hr with rfl | hr
    · exact hnew
    · have hrest := ih (heq ▸ h) hr
      rw [Grammar.nonterminals_add, if_neg hnew] at hrest
      exact fun hmem => hrest (List.mem_append_left _ hmem)

/-- If no template rule finds its name taken, all of the rules are added. -/
theorem mem_productions_adoptRules {rules : List Rule}
    (h : (adoptRules splice grammar rules).2 = []) :
    (name, production) ∈ (adoptRules splice grammar rules).1.productions ↔
      (name, production) ∈ grammar.productions ∨
        ∃ rule ∈ rules, name = splice.rename rule.name ∧
          production ∈ rule.productions.map (adopt splice) := by
  induction rules generalizing grammar with
  | nil => simp [adoptRules]
  | cons rule rest ih =>
    obtain ⟨-, heq⟩ := adoptRules_cons_of_errors_eq_nil h
    rw [heq] at h ⊢
    rw [ih h, Grammar.mem_productions_add, or_assoc]
    simp only [List.mem_cons, exists_eq_or_imp]

/-! ## Splicing -/

/-- The alternatives of the host's statement are raised above those of templates. -/
def raise (splice : SplicePoints) (name : String) (production : Production) : Production :=
  if name = splice.statement then { production with precedence := templatePrecedence + 1 }
  else production

@[simp] theorem symbols_raise : (raise splice name production).symbols = production.symbols := by
  unfold raise
  split <;> rfl

@[simp] theorem origin_raise : (raise splice name production).origin = production.origin := by
  unfold raise
  split <;> rfl

/-- The alternative that the host's expression gets. -/
def expressionAlternative : Production :=
  ⟨"template_expression", [.nonterminal "template_interpolation"], templatePrecedence, .template⟩

/-- The alternative that the host's statement gets. -/
def statementAlternative : Production :=
  ⟨"template_statement", [.nonterminal "template_statement"], templatePrecedence, .template⟩

theorem mem_productions_splice :
    (name, production) ∈ (spliceStatement splice (spliceExpression splice grammar)).productions ↔
      (∃ original, (name, original) ∈ grammar.productions ∧
          production = raise splice name original) ∨
        (name = splice.expression ∧ production = raise splice name expressionAlternative) ∨
        (name = splice.statement ∧ production = statementAlternative) := by
  rw [spliceStatement, Grammar.mem_productions_add, Grammar.mem_productions_mapProductions,
    spliceExpression]
  simp only [Grammar.mem_productions_add, List.mem_singleton]
  constructor
  · rintro (⟨original, h | ⟨hname, rfl⟩, rfl⟩ | h)
    · exact .inl ⟨original, h, rfl⟩
    · exact .inr (.inl ⟨hname, rfl⟩)
    · exact .inr (.inr h)
  · rintro (⟨original, h, rfl⟩ | ⟨hname, rfl⟩ | h)
    · exact .inl ⟨original, .inl h, rfl⟩
    · exact .inl ⟨_, .inr ⟨hname, rfl⟩, rfl⟩
    · exact .inr h

/-- The productions of host and template before the splice points get theirs. -/
theorem mem_productions_adopted (h : (merge host splice template).2 = []) :
    (name, production) ∈ (adoptRules splice (markHost host) template.rules).1.productions ↔
      (∃ original, (name, original) ∈ host.productions ∧
          production = { original with origin := .host }) ∨
        ∃ source original, (source, original) ∈ template.productions ∧
          name = splice.rename source ∧ production = adopt splice original := by
  rw [mem_productions_adoptRules h, markHost, Grammar.mem_productions_mapProductions]
  refine or_congr_right ⟨?_, ?_⟩
  · rintro ⟨rule, hr, hname, hp⟩
    obtain ⟨original, ho, rfl⟩ := List.mem_map.1 hp
    exact ⟨rule.name, original, Grammar.mem_productions_iff.2 ⟨rule, hr, rfl, ho⟩, hname, rfl⟩
  · rintro ⟨source, original, ho, hname, rfl⟩
    obtain ⟨rule, hr, rfl, hp⟩ := Grammar.mem_productions_iff.1 ho
    exact ⟨rule, hr, hname, List.mem_map_of_mem hp⟩

/-- Where a production of a merged grammar comes from. -/
theorem mem_productions_merge (h : (merge host splice template).2 = []) :
    (name, production) ∈ (merge host splice template).1.productions ↔
      (∃ original, (name, original) ∈ host.productions ∧
          production = raise splice name { original with origin := .host }) ∨
        (∃ source original, (source, original) ∈ template.productions ∧
          name = splice.rename source ∧
          production = raise splice name (adopt splice original)) ∨
        (name = splice.expression ∧ production = raise splice name expressionAlternative) ∨
        (name = splice.statement ∧ production = statementAlternative) := by
  rw [show (merge host splice template).1 = spliceStatement splice (spliceExpression splice
    (adoptRules splice (markHost host) template.rules).1) from rfl, mem_productions_splice]
  refine (or_congr_left ⟨?_, ?_⟩).trans or_assoc
  · rintro ⟨adopted, ha, rfl⟩
    rcases (mem_productions_adopted h).1 ha with
      ⟨original, ho, rfl⟩ | ⟨source, original, ho, hn, rfl⟩
    · exact .inl ⟨original, ho, rfl⟩
    · exact .inr ⟨source, original, ho, hn, rfl⟩
  · rintro (⟨original, ho, rfl⟩ | ⟨source, original, ho, hn, rfl⟩)
    · exact ⟨_, (mem_productions_adopted h).2 (.inl ⟨original, ho, rfl⟩), rfl⟩
    · exact ⟨_, (mem_productions_adopted h).2 (.inr ⟨source, original, ho, hn, rfl⟩), rfl⟩

/-- Template nonterminals are new. -/
theorem rename_not_mem_nonterminals (h : (merge host splice template).2 = [])
    (hname : name ∈ template.nonterminals) : splice.rename name ∉ host.nonterminals := by
  obtain ⟨rule, hr, rfl⟩ := List.mem_map.1 hname
  have hnew := @rename_not_mem_of_adoptRules (markHost host) splice _ h rule hr
  simpa [markHost, Grammar.mapProductions, Grammar.nonterminals, Function.comp_def] using hnew

/-! ## All checks -/

/-- Composition succeeds if and only if none of its checks finds anything. -/
theorem compose_eq_ok_iff {host template : Grammar} {hostConflicts : List Conflict}
    {splice : SplicePoints} {composed : ComposedGrammar} :
    compose host hostConflicts splice template = .ok composed ↔
      missingSplicePoints host splice = [] ∧ (merge host splice template).2 = [] ∧
      composed.rules = (merge host splice template).1 ∧
      composed.conflicts = hostConflicts ++ directiveConflicts.map (fun conflict =>
        ⟨splice.rename conflict.left, splice.rename conflict.right⟩) ∧
      composed.splice = splice ∧
      undefinedReferences composed.rules = [] ∧
      unknownConflictSymbols composed.rules composed.conflicts = [] ∧
      ambiguities composed.rules composed.conflicts splice = [] := by
  obtain ⟨rules, conflicts, points⟩ := composed
  rw [compose]
  split
  · next error errors h => simp [h]
  · next h =>
    obtain ⟨merged, duplicates⟩ := merge host splice template
    dsimp only
    generalize hostConflicts ++ directiveConflicts.map _ = all
    constructor
    · intro hok
      split at hok
      · next hnone =>
        split at hok
        · next hunambiguous =>
          cases hok
          simp only [List.isEmpty_iff, List.append_eq_nil_iff] at hnone hunambiguous
          obtain ⟨⟨hd, hu⟩, hc⟩ := hnone
          exact ⟨h, hd, rfl, rfl, rfl, hu, hc, hunambiguous⟩
        · cases hok
      · cases hok
    · rintro ⟨-, rfl, rfl, rfl, rfl, hu, hc, ha⟩
      simp [hu, hc, ha]

end Composition

end Stencil
