import Stencil.Proofs.Composition.Merged
import Stencil.Proofs.Grammar.FirstSets

/-!
# The check for ambiguities is exact

If nothing else is wrong, composition reports exactly the pairs of a host and a template
alternative of a splice point that begin alike with nothing to tell them apart. What the check
computes with FIRST sets is said here with derivations.

* `Indistinct` is such a pair of alternatives, and `AreCommonStarts` the list of what both can
  begin with.
* `ambiguity?_eq_some_iff` says what the check finds in one pair, and `mem_ambiguities_iff` what
  it finds in a grammar.
* `compose_eq_of_only_ambiguities`: if nothing else is wrong, composition reports what the check
  finds.
* `ambiguous_mem_errors_iff_indistinct` puts these together.
-/

namespace Stencil

open Grammar

/-! ## Alternatives that cannot be told apart -/

/-- By which names a conflict can mean an alternative of a nonterminal: its label, the nonterminal
it begins with and, if it is the host's, the nonterminal itself. -/
def Production.IsNamed (production : Production) (nonterminal name : String) : Prop :=
  name = production.label ∨ production.symbols.head? = some (.nonterminal name) ∨
    production.origin = .host ∧ name = nonterminal

/-- One side of a conflict means the one alternative, and the other side the other. -/
def Conflict.Resolves (conflict : Conflict) (nonterminal : String) (a b : Production) : Prop :=
  a.IsNamed nonterminal conflict.left ∧ b.IsNamed nonterminal conflict.right ∨
    a.IsNamed nonterminal conflict.right ∧ b.IsNamed nonterminal conflict.left

/-- A host and a template alternative of a splice point can begin alike, with a terminal, with a
class or by deriving the empty sequence, and neither precedence nor a conflict tells them apart. -/
structure Indistinct (grammar : Grammar) (conflicts : List Conflict) (splice : SplicePoints)
    (nonterminal : String) (host template : Production) : Prop where
  spliced : nonterminal = splice.expression ∨ nonterminal = splice.statement
  host_mem : (nonterminal, host) ∈ grammar.productions
  host_origin : host.origin = .host
  template_mem : (nonterminal, template) ∈ grammar.productions
  template_origin : template.origin = .template
  precedence_eq : host.precedence = template.precedence
  unresolved : ∀ conflict ∈ conflicts, ¬ conflict.Resolves nonterminal host template
  alike : ∃ x, grammar.Begins host.symbols x ∧ grammar.Begins template.symbols x

/-- All terminals and classes that both sequences can begin with, each once, in order. -/
structure AreCommonStarts (grammar : Grammar) (symbols others starts : List Symbol) : Prop where
  ordered : FirstSet.Ordered starts
  mem_iff : ∀ a, a ∈ starts ↔ grammar.Begins symbols (some a) ∧ grammar.Begins others (some a)

/-- Whether an error is that of two alternatives that begin alike. -/
def CompositionError.isAmbiguity : CompositionError → Bool
  | .ambiguous .. => true
  | _ => false

/-- Lists in order with the same members are the same. -/
theorem FirstSet.Ordered.eq_of_mem_iff {symbols others : List Symbol} (h : Ordered symbols)
    (h' : Ordered others) (hmem : ∀ a, a ∈ symbols ↔ a ∈ others) : symbols = others := by
  have hperm : symbols.Perm others := (List.perm_ext_iff_of_nodup h.nodup h'.nodup).2 hmem
  refine hperm.eq_of_pairwise (fun a b _ _ hab hba => ?_) h h'
  exact absurd (Symbol.before_trans hab hba) (Symbol.before_irrefl a)

/-- There is only one list of common starts. -/
theorem AreCommonStarts.unique {grammar : Grammar} {symbols others starts starts' : List Symbol}
    (h : AreCommonStarts grammar symbols others starts)
    (h' : AreCommonStarts grammar symbols others starts') : starts = starts' :=
  h.ordered.eq_of_mem_iff h'.ordered fun a => (h.mem_iff a).trans (h'.mem_iff a).symm

/-- The rule that is found under a name holds the productions of that name. -/
theorem Grammar.mem_get?_iff {grammar : Grammar} {name : String} {production : Production} :
    production ∈ ((grammar.get? name).map Rule.productions).getD [] ↔
      (name, production) ∈ grammar.productions := by
  obtain ⟨rules, hdistinct⟩ := grammar
  simp only [mem_productions_iff, get?]
  induction rules with
  | nil => simp
  | cons rule rest ih =>
    obtain ⟨hnew, hrest⟩ := List.nodup_cons.1 hdistinct
    by_cases h : rule.name = name
    · -- no later rule has the name
      have hlater : ∀ other ∈ rest, other.name ≠ name := by
        intro other hother heq
        rw [h, ← heq] at hnew
        exact hnew (List.mem_map_of_mem hother)
      simp only [List.find?_cons, h, beq_self_eq_true, Option.map_some, Option.getD_some,
        List.mem_cons, exists_eq_or_imp, true_and]
      refine (or_iff_left ?_).symm
      rintro ⟨other, hother, hname, -⟩
      exact hlater other hother hname
    · simp only [List.find?_cons, beq_eq_false_iff_ne.2 h, ih hrest, List.mem_cons,
        exists_eq_or_imp, h, false_and, false_or]

namespace Composition

variable {grammar : Grammar} {conflicts : List Conflict} {splice : SplicePoints}
  {nonterminal : String} {host template : Production} {error : CompositionError}

/-! ## One pair of alternatives -/

theorem mem_conflictNames {production : Production} {name : String} :
    name ∈ conflictNames nonterminal production ↔ production.IsNamed nonterminal name := by
  have hleading : production.leadingNonterminal? = some name ↔
      production.symbols.head? = some (.nonterminal name) := by
    rw [Production.leadingNonterminal?]
    cases production.symbols with
    | nil => simp
    | cons symbol symbols => cases symbol <;> simp
  by_cases ho : production.origin = .host <;>
    simp [conflictNames, Production.IsNamed, ← hleading, ho]

theorem covers_iff {conflict : Conflict} :
    conflict.covers (conflictNames nonterminal host) (conflictNames nonterminal template) = true ↔
      conflict.Resolves nonterminal host template := by
  simp [Conflict.covers, Conflict.Resolves, mem_conflictNames]

theorem overlaps_iff {a b : FirstSet} :
    a.overlaps b = true ↔ ∃ x, a.Holds x ∧ b.Holds x := by
  have hshared : a.shared b ≠ [] ↔ ∃ symbol, a.Holds (some symbol) ∧ b.Holds (some symbol) := by
    rw [Ne, List.eq_nil_iff_forall_not_mem]
    simp [FirstSet.shared, FirstSet.Holds]
  have hempty : (!(a.shared b).isEmpty) = true ↔ a.shared b ≠ [] := by simp
  rw [FirstSet.overlaps, Bool.or_eq_true_iff, Bool.and_eq_true_iff, hempty, hshared,
    Option.exists]
  rfl

/-- What two FIRST sets share are the symbols that both sequences can begin with. -/
theorem areCommonStarts_shared (grammar : Grammar) (symbols others : List Symbol) :
    AreCommonStarts grammar symbols others ((grammar.firstSets.ofSequence symbols).shared
      (grammar.firstSets.ofSequence others)) where
  ordered := (grammar.ordered_ofSequence_firstSets symbols).filter _
  mem_iff a := by
    rw [← holds_ofSequence_firstSets_iff, ← holds_ofSequence_firstSets_iff]
    simp [FirstSet.shared, FirstSet.Holds]

theorem ambiguity?_eq_some_iff :
    ambiguity? grammar.firstSets conflicts nonterminal host template = some error ↔
      ((∃ x, grammar.Begins host.symbols x ∧ grammar.Begins template.symbols x) ∧
        host.precedence = template.precedence ∧
        ∀ conflict ∈ conflicts, ¬ conflict.Resolves nonterminal host template) ∧
      ∃ starts, AreCommonStarts grammar host.symbols template.symbols starts ∧
        error = .ambiguous nonterminal host.label template.label
          (starts.map Symbol.describe) := by
  have hstarts := areCommonStarts_shared grammar host.symbols template.symbols
  simp only [ambiguity?, Option.ite_none_right_eq_some, Bool.and_eq_true_iff, overlaps_iff,
    beq_iff_eq, Bool.not_eq_true', List.any_eq_false, covers_iff, holds_ofSequence_firstSets_iff,
    and_assoc, Option.some.injEq]
  refine and_congr_right fun _ => and_congr_right fun _ => and_congr_right fun _ => ?_
  constructor
  · rintro rfl
    exact ⟨_, hstarts, rfl⟩
  · rintro ⟨starts, h, rfl⟩
    rw [h.unique hstarts]

/-! ## All pairs of a grammar -/

/-- The check finds the pairs of alternatives that cannot be told apart. -/
theorem mem_ambiguities_iff :
    error ∈ ambiguities grammar conflicts splice ↔
      ∃ nonterminal host template starts,
        Indistinct grammar conflicts splice nonterminal host template ∧
        AreCommonStarts grammar host.symbols template.symbols starts ∧
        error = .ambiguous nonterminal host.label template.label
          (starts.map Symbol.describe) := by
  have horigin : ∀ production : Production,
      production.origin ≠ .host ↔ production.origin = .template := by
    intro production
    cases production.origin <;> simp
  simp only [ambiguities, List.mem_flatMap, List.mem_filterMap, List.mem_filter,
    decide_eq_true_eq, mem_get?_iff, horigin, SplicePoints.toList, List.mem_cons,
    List.not_mem_nil, or_false, ambiguity?_eq_some_iff]
  constructor
  · rintro ⟨nonterminal, hspliced, host, ⟨hh, hho⟩, template, ⟨ht, hto⟩, ⟨halike, hprec, hnone⟩,
      starts, hstarts, rfl⟩
    exact ⟨nonterminal, host, template, starts,
      ⟨hspliced, hh, hho, ht, hto, hprec, hnone, halike⟩, hstarts, rfl⟩
  · rintro ⟨nonterminal, host, template, starts,
      ⟨hspliced, hh, hho, ht, hto, hprec, hnone, halike⟩, hstarts, rfl⟩
    exact ⟨nonterminal, hspliced, host, ⟨hh, hho⟩, template, ⟨ht, hto⟩, ⟨halike, hprec, hnone⟩,
      starts, hstarts, rfl⟩

theorem ambiguities_eq_nil_iff :
    ambiguities grammar conflicts splice = [] ↔
      ¬ ∃ nonterminal host template,
        Indistinct grammar conflicts splice nonterminal host template := by
  rw [List.eq_nil_iff_forall_not_mem]
  constructor
  · rintro h ⟨nonterminal, host, template, hp⟩
    exact h _ (mem_ambiguities_iff.2
      ⟨nonterminal, host, template, _, hp, areCommonStarts_shared _ _ _, rfl⟩)
  · intro h error herror
    obtain ⟨nonterminal, host, template, -, hp, -⟩ := mem_ambiguities_iff.1 herror
    exact h ⟨nonterminal, host, template, hp⟩

end Composition

/-! ## Composition -/

/-- All declared conflicts: those of the host, and those of directives under the host's names. -/
def declaredConflicts (hostConflicts : List Conflict) (splice : SplicePoints) : List Conflict :=
  hostConflicts ++ directiveConflicts.map fun conflict =>
    ⟨splice.rename conflict.left, splice.rename conflict.right⟩

namespace Composition

variable {host template : Grammar} {hostConflicts : List Conflict} {splice : SplicePoints}
  {error : CompositionError}

theorem isAmbiguity_eq_false_of_mem_adoptRules {grammar : Grammar} {rules : List Rule}
    (h : error ∈ (adoptRules splice grammar rules).2) : error.isAmbiguity = false := by
  induction rules generalizing grammar with
  | nil => cases h
  | cons rule rest ih =>
    rw [adoptRules] at h
    dsimp only at h
    split at h
    · rcases List.mem_cons.1 h with rfl | h
      · rfl
      · exact ih h
    · exact ih h

/-- What all checks but the last one find. -/
def otherErrors (host : Grammar) (hostConflicts : List Conflict) (splice : SplicePoints)
    (template : Grammar) : List CompositionError :=
  (merge host splice template).2 ++ undefinedReferences (merge host splice template).1 ++
    unknownConflictSymbols (merge host splice template).1
      (declaredConflicts hostConflicts splice)

theorem isAmbiguity_eq_false_of_mem_otherErrors
    (h : error ∈ otherErrors host hostConflicts splice template) : error.isAmbiguity = false := by
  rcases List.mem_append.1 h with h | h
  · rcases List.mem_append.1 h with h | h
    · exact isAmbiguity_eq_false_of_mem_adoptRules h
    · obtain ⟨entry, -, h⟩ := List.mem_flatMap.1 h
      obtain ⟨name, -, rfl⟩ := List.mem_map.1 h
      rfl
  · obtain ⟨conflict, -, h⟩ := List.mem_flatMap.1 h
    obtain ⟨name, -, rfl⟩ := List.mem_map.1 h
    rfl

/-- Composition in terms of what its checks find. -/
theorem compose_eq (hpoints : missingSplicePoints host splice = []) :
    compose host hostConflicts splice template =
      let errors :=
        if otherErrors host hostConflicts splice template = [] then
          ambiguities (merge host splice template).1 (declaredConflicts hostConflicts splice) splice
        else otherErrors host hostConflicts splice template
      if errors = [] then
        .ok ⟨(merge host splice template).1, declaredConflicts hostConflicts splice, splice⟩
      else .error errors := by
  rw [compose]
  split
  · next hmissing => simp [hpoints] at hmissing
  · simp only [List.isEmpty_iff]
    rfl

/-- If composition has no other errors, its errors are what the check for ambiguities finds. -/
theorem compose_eq_of_only_ambiguities
    (h : ∀ errors, compose host hostConflicts splice template = .error errors →
      ∀ error ∈ errors, error.isAmbiguity = true) :
    compose host hostConflicts splice template =
      let errors := ambiguities (merge host splice template).1
        (declaredConflicts hostConflicts splice) splice
      if errors = [] then
        .ok ⟨(merge host splice template).1, declaredConflicts hostConflicts splice, splice⟩
      else .error errors := by
  have hpoints : missingSplicePoints host splice = [] := by
    cases hmissing : missingSplicePoints host splice with
    | nil => rfl
    | cons error errors =>
      have herror : error ∈ missingSplicePoints host splice := by simp [hmissing]
      obtain ⟨name, -, rfl⟩ := List.mem_map.1 herror
      have := h (_ :: errors) (by rw [compose, hmissing]) _ List.mem_cons_self
      cases this
  have hothers : otherErrors host hostConflicts splice template = [] := by
    refine List.eq_nil_iff_forall_not_mem.2 fun error herror => ?_
    have hne := List.ne_nil_of_mem herror
    have hall := h _ (by rw [compose_eq hpoints, if_neg hne, if_neg hne]) error herror
    rw [isAmbiguity_eq_false_of_mem_otherErrors herror] at hall
    cases hall
  rw [compose_eq hpoints, if_pos hothers]

end Composition

/-- If composition reports no missing splice point, no nonterminal that is defined twice or not at
all and no unknown name in a conflict, then it reports an ambiguity exactly for each host and
template alternative of a splice point that cannot be told apart, with all that both can begin
with; and it succeeds if there are none. -/
theorem ambiguous_mem_errors_iff_indistinct {host template : Grammar}
    {hostConflicts : List Conflict} {splice : SplicePoints}
    (honly : ∀ errors, compose host hostConflicts splice template = .error errors →
      ∀ error ∈ errors, error.isAmbiguity = true) :
    (∀ nonterminal hostLabel templateLabel shared,
      (∃ errors, compose host hostConflicts splice template = .error errors ∧
          .ambiguous nonterminal hostLabel templateLabel shared ∈ errors) ↔
        ∃ p q starts,
          Indistinct (Composition.merge host splice template).1
            (declaredConflicts hostConflicts splice) splice nonterminal p q ∧
          p.label = hostLabel ∧ q.label = templateLabel ∧
          AreCommonStarts (Composition.merge host splice template).1 p.symbols q.symbols starts ∧
          starts.map Symbol.describe = shared) ∧
    ((∃ composed, compose host hostConflicts splice template = .ok composed) ↔
      ¬ ∃ nonterminal p q, Indistinct (Composition.merge host splice template).1
        (declaredConflicts hostConflicts splice) splice nonterminal p q) := by
  have hcompose := Composition.compose_eq_of_only_ambiguities honly
  dsimp only at hcompose
  rw [← Composition.ambiguities_eq_nil_iff]
  constructor
  · intro nonterminal hostLabel templateLabel shared
    constructor
    · rintro ⟨errors, herrors, hmem⟩
      rw [hcompose] at herrors
      split at herrors
      · cases herrors
      · cases herrors
        obtain ⟨_, p, q, starts, hpair, hstarts, heq⟩ := Composition.mem_ambiguities_iff.1 hmem
        cases heq
        exact ⟨p, q, starts, hpair, rfl, rfl, hstarts, rfl⟩
    · rintro ⟨p, q, starts, hpair, rfl, rfl, hstarts, rfl⟩
      have hmem := Composition.mem_ambiguities_iff.2 ⟨_, p, q, starts, hpair, hstarts, rfl⟩
      exact ⟨_, hcompose.trans (if_neg (List.ne_nil_of_mem hmem)), hmem⟩
  · rw [hcompose]
    split
    · next hnil => simp [hnil]
    · next hne => simp [hne]

/-- A host that writes its own expressions between the brackets of an interpolation. -/
def bracketHost : Grammar :=
  .ofRules
    [("stmt", [.of "expr_stmt" [.nonterminal "expr", .terminal ";"]]),
      ("expr",
        [.of "name" [.tokenClass "identifier"],
          .of "brackets" [.terminal "\x7b\x7b", .nonterminal "expr", .terminal "\x7d\x7d"]])]

/-- An instance: these brackets cannot be told from an interpolation. -/
theorem bracketHost_indistinct :
    compose bracketHost [] ⟨"expr", "stmt"⟩ (directiveRules .code) =
        .error [.ambiguous "expr" "brackets" "template_expression" ["'\x7b\x7b'"]] ∧
      ∃ p q starts,
        Indistinct (Composition.merge bracketHost ⟨"expr", "stmt"⟩ (directiveRules .code)).1
          (declaredConflicts [] ⟨"expr", "stmt"⟩) ⟨"expr", "stmt"⟩ "expr" p q ∧
        p.label = "brackets" ∧ q.label = "template_expression" ∧
        AreCommonStarts
          (Composition.merge bracketHost ⟨"expr", "stmt"⟩ (directiveRules .code)).1
          p.symbols q.symbols starts ∧
        starts.map Symbol.describe = ["'\x7b\x7b'"] := by
  have hcompose : compose bracketHost [] ⟨"expr", "stmt"⟩ (directiveRules .code) =
      .error [.ambiguous "expr" "brackets" "template_expression" ["'\x7b\x7b'"]] := by
    decide +kernel
  refine ⟨hcompose, ((ambiguous_mem_errors_iff_indistinct ?_).1 _ _ _ _).1
    ⟨_, hcompose, List.mem_singleton_self _⟩⟩
  intro errors herrors error herror
  rw [hcompose] at herrors
  cases herrors
  rw [List.mem_singleton.1 herror]
  rfl

end Stencil
