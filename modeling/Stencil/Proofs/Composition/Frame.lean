import Mathlib.Data.List.Nodup
import Stencil.Proofs.Composition.Conservative

/-!
# What composition leaves as it is

A composed grammar has the rules of the host, in order, and behind them those of the template. Of a
rule of the host all that changes is that it gets an alternative if it is a splice point, and that
the alternatives of the statement are raised; of a template rule, that it speaks of the host's
expression and statement. This holds whatever the splice points are called: they may be the names
that templates use, with their meanings exchanged, and they may be one nonterminal.

* `templateName` and `templateSymbol` say what the names that templates use stand for in the host,
  and `hostRule` and `templateRule` what becomes of a rule.
* `rules_adoptRules`, `rules_splice` and `rules_merge` follow the rules through the merging.
* `IsExtension` and `isExtension_of_compose`: all that composition keeps.
-/

namespace Stencil

/-! ## Adding to one rule -/

namespace Grammar

variable {grammar : Grammar} {name : String} {added : List Production} {rules : List Rule}

theorem addTo_of_not_mem (h : name ∉ rules.map Rule.name) :
    addTo name added rules = rules ++ [⟨name, added⟩] := by
  induction rules with
  | nil => rfl
  | cons rule rest ih =>
    rw [List.map_cons, List.mem_cons, not_or] at h
    rw [addTo, if_neg (Ne.symm h.1), ih h.2, List.cons_append]

/-- A rule with more alternatives, if it is the one of the given name. -/
def extendAt (name : String) (added : List Production) (rule : Rule) : Rule :=
  ⟨rule.name, rule.productions ++ if rule.name = name then added else []⟩

theorem map_extendAt_of_not_mem (h : name ∉ rules.map Rule.name) :
    rules.map (extendAt name added) = rules := by
  have hkept : ∀ rule ∈ rules, extendAt name added rule = rule := by
    intro rule hrule
    have hname : rule.name ≠ name := fun heq => h (heq ▸ List.mem_map_of_mem hrule)
    rw [extendAt, if_neg hname, List.append_nil]
  rw [List.map_congr_left hkept, List.map_id']

/-- Since names are distinct, productions are added to one rule and the others stay as they are. -/
theorem addTo_of_mem (hdistinct : (rules.map Rule.name).Nodup) (h : name ∈ rules.map Rule.name) :
    addTo name added rules = rules.map (extendAt name added) := by
  induction rules with
  | nil => cases h
  | cons rule rest ih =>
    rw [List.map_cons, List.nodup_cons] at hdistinct
    by_cases hname : rule.name = name
    · rw [hname] at hdistinct
      rw [addTo, if_pos hname, List.map_cons, map_extendAt_of_not_mem hdistinct.1, extendAt,
        if_pos hname]
    · have hrest : name ∈ rest.map Rule.name := (List.mem_cons.1 h).resolve_left (Ne.symm hname)
      rw [addTo, if_neg hname, ih hdistinct.2 hrest, List.map_cons, extendAt, if_neg hname,
        List.append_nil]

theorem rules_mapProductions (f : String → Production → Production) :
    (grammar.mapProductions f).rules =
      grammar.rules.map fun rule => ⟨rule.name, rule.productions.map (f rule.name)⟩ := rfl

@[simp] theorem nonterminals_mapProductions (f : String → Production → Production) :
    (grammar.mapProductions f).nonterminals = grammar.nonterminals := by
  rw [nonterminals, rules_mapProductions, List.map_map]
  rfl

theorem rules_add_of_not_mem (h : name ∉ grammar.nonterminals) :
    (grammar.add name added).rules = grammar.rules ++ [⟨name, added⟩] :=
  addTo_of_not_mem h

theorem rules_add_of_mem (h : name ∈ grammar.nonterminals) :
    (grammar.add name added).rules = grammar.rules.map (extendAt name added) :=
  addTo_of_mem grammar.distinct h

end Grammar

namespace Composition

variable {host grammar template : Grammar} {splice : SplicePoints} {rules : List Rule}
  {rule : Rule}

/-! ## Names of templates in the host -/

/-- What a nonterminal of a template is called in the host: the two that a template leaves to its
host are the splice points, and every other one keeps its name. -/
def templateName (splice : SplicePoints) : String → String
  | "expression" => splice.expression
  | "statement" => splice.statement
  | name => name

/-- What becomes of a symbol of a template. Tokens stay as they are. -/
def templateSymbol (splice : SplicePoints) : Symbol → Symbol
  | .terminal spelling => .terminal spelling
  | .tokenClass name => .tokenClass name
  | .nonterminal "expression" => .nonterminal splice.expression
  | .nonterminal "statement" => .nonterminal splice.statement
  | .nonterminal name => .nonterminal name

theorem rename_eq_templateName (splice : SplicePoints) : splice.rename = templateName splice := by
  funext name
  unfold templateName
  split
  · exact if_pos rfl
  · exact (if_neg (by decide)).trans (if_pos rfl)
  · next he hs => exact (if_neg he).trans (if_neg hs)

theorem renameSymbol_eq_templateSymbol (splice : SplicePoints) :
    splice.renameSymbol = templateSymbol splice := by
  funext symbol
  cases symbol with
  | terminal spelling => rfl
  | tokenClass name => rfl
  | nonterminal name =>
    rw [SplicePoints.renameSymbol, rename_eq_templateName]
    unfold templateName
    split
    · rfl
    · rfl
    · next he hs => rw [templateSymbol] <;> assumption

/-! ## What becomes of a rule -/

/-- What becomes of a production of the host: in the statement it is raised, and elsewhere it is
as it was. -/
def hostProduction (splice : SplicePoints) (name : String) (production : Production) :
    Production where
  label := production.label
  symbols := production.symbols
  precedence := if name = splice.statement then 1 else production.precedence
  origin := .host

/-- The alternatives that a nonterminal gets behind its own. If the splice points are one
nonterminal, it gets both, and the first is raised with its own. -/
def alternatives (splice : SplicePoints) (name : String) : List Production :=
  (if name = splice.expression then
    [⟨"template_expression", [.nonterminal "template_interpolation"],
      if name = splice.statement then 1 else 0, .template⟩]
  else []) ++
    if name = splice.statement then
      [⟨"template_statement", [.nonterminal "template_statement"], 0, .template⟩]
    else []

/-- What becomes of a rule of the host. -/
def hostRule (splice : SplicePoints) (rule : Rule) : Rule where
  name := rule.name
  productions :=
    rule.productions.map (hostProduction splice rule.name) ++ alternatives splice rule.name

/-- What becomes of a template rule: the names that it uses for the host's nonterminals are
replaced. -/
def templateRule (splice : SplicePoints) (rule : Rule) : Rule where
  name := templateName splice rule.name
  productions := rule.productions.map fun production =>
    ⟨production.label, production.symbols.map (templateSymbol splice), production.precedence,
      .template⟩

theorem templateRule_eq (splice : SplicePoints) (rule : Rule) :
    templateRule splice rule =
      ⟨splice.rename rule.name, rule.productions.map (adopt splice)⟩ := by
  rw [templateRule, ← rename_eq_templateName, ← renameSymbol_eq_templateSymbol]
  rfl

theorem alternatives_eq (splice : SplicePoints) (name : String) :
    alternatives splice name =
      (if name = splice.expression then [raise splice name expressionAlternative] else []) ++
        if name = splice.statement then [statementAlternative] else [] := by
  unfold alternatives raise
  split <;> split <;> rfl

theorem map_name_hostRule (rules : List Rule) :
    (rules.map (hostRule splice)).map Rule.name = rules.map Rule.name := by
  rw [List.map_map]
  rfl

theorem map_name_templateRule (rules : List Rule) :
    (rules.map (templateRule splice)).map Rule.name =
      (rules.map Rule.name).map (templateName splice) := by
  rw [List.map_map, List.map_map]
  rfl

/-! ## Merging, step by step -/

/-- Template rules whose names are new are added one behind the other. -/
theorem rules_adoptRules (h : (adoptRules splice grammar rules).2 = []) :
    (adoptRules splice grammar rules).1.rules =
      grammar.rules ++ rules.map (templateRule splice) := by
  induction rules generalizing grammar with
  | nil => rw [adoptRules, List.map_nil, List.append_nil]
  | cons rule rest ih =>
    obtain ⟨hnew, heq⟩ := adoptRules_cons_of_errors_eq_nil h
    rw [heq] at h ⊢
    rw [ih h, Grammar.rules_add_of_not_mem hnew, List.append_assoc, ← templateRule_eq]
    rfl

/-- A rule with its alternatives raised, if it is the statement, and with what it gets as a splice
point. -/
def splicedRule (splice : SplicePoints) (rule : Rule) : Rule where
  name := rule.name
  productions :=
    rule.productions.map (raise splice rule.name) ++ alternatives splice rule.name

theorem rules_splice (he : splice.expression ∈ grammar.nonterminals)
    (hs : splice.statement ∈ grammar.nonterminals) :
    (spliceStatement splice (spliceExpression splice grammar)).rules =
      grammar.rules.map (splicedRule splice) := by
  have hexpression : (spliceExpression splice grammar).rules =
      grammar.rules.map (Grammar.extendAt splice.expression [expressionAlternative]) :=
    Grammar.rules_add_of_mem he
  have hnames : ((spliceExpression splice grammar).mapProductions (raise splice)).nonterminals =
      grammar.nonterminals := by
    rw [Grammar.nonterminals_mapProductions, spliceExpression, Grammar.nonterminals_add, if_pos he]
  have hstatement : (spliceStatement splice (spliceExpression splice grammar)).rules =
      ((spliceExpression splice grammar).mapProductions (raise splice)).rules.map
        (Grammar.extendAt splice.statement [statementAlternative]) :=
    Grammar.rules_add_of_mem (hnames ▸ hs)
  rw [hstatement, Grammar.rules_mapProductions, hexpression, List.map_map, List.map_map]
  refine List.map_congr_left fun rule _ => ?_
  simp only [Function.comp_apply, Grammar.extendAt, splicedRule, alternatives_eq, List.map_append,
    List.append_assoc]
  congr 3
  split <;> rfl

theorem raise_host (splice : SplicePoints) (name : String) (production : Production) :
    raise splice name { production with origin := .host } =
      hostProduction splice name production := by
  unfold raise hostProduction
  split <;> rfl

theorem splicedRule_host (rule : Rule) :
    splicedRule splice ⟨rule.name, rule.productions.map ({ · with origin := .host })⟩ =
      hostRule splice rule := by
  simp only [splicedRule, hostRule, List.map_map]
  congr 2
  exact List.map_congr_left fun production _ => raise_host splice rule.name production

/-- A rule that is no splice point stays as it is. -/
theorem splicedRule_of_ne (he : rule.name ≠ splice.expression)
    (hs : rule.name ≠ splice.statement) : splicedRule splice rule = rule := by
  have hraise : raise splice rule.name = id := by
    funext production
    rw [raise, if_neg hs, id]
  rw [splicedRule, hraise, List.map_id, alternatives, if_neg he, if_neg hs, List.append_nil,
    List.append_nil]

theorem rules_merge (hpoints : missingSplicePoints host splice = [])
    (h : (merge host splice template).2 = []) :
    (merge host splice template).1.rules =
      host.rules.map (hostRule splice) ++ template.rules.map (templateRule splice) := by
  obtain ⟨he, hs⟩ := missingSplicePoints_eq_nil_iff.1 hpoints
  have hadopted : (adoptRules splice (markHost host) template.rules).1.rules =
      (markHost host).rules ++ template.rules.map (templateRule splice) := rules_adoptRules h
  have hmem : ∀ name ∈ host.nonterminals,
      name ∈ (adoptRules splice (markHost host) template.rules).1.nonterminals := by
    intro name hname
    rw [Grammar.nonterminals, hadopted, List.map_append]
    refine List.mem_append_left _ ?_
    rwa [← Grammar.nonterminals, markHost, Grammar.nonterminals_mapProductions]
  have hmerge : (merge host splice template).1.rules =
      ((markHost host).rules ++ template.rules.map (templateRule splice)).map
        (splicedRule splice) := by
    rw [← hadopted]
    exact rules_splice (hmem _ he) (hmem _ hs)
  rw [hmerge, List.map_append, markHost, Grammar.rules_mapProductions, List.map_map]
  congr 1
  · exact List.map_congr_left fun rule _ => splicedRule_host rule
  · have hkept : ∀ rule ∈ template.rules.map (templateRule splice),
        splicedRule splice rule = rule := by
      intro rule hrule
      obtain ⟨original, horiginal, rfl⟩ := List.mem_map.1 hrule
      have hnew : templateName splice original.name ∉ host.nonterminals := by
        rw [← rename_eq_templateName]
        exact rename_not_mem_nonterminals h (List.mem_map_of_mem horiginal)
      exact splicedRule_of_ne (ne_of_mem_of_not_mem he hnew).symm
        (ne_of_mem_of_not_mem hs hnew).symm
    rw [List.map_congr_left hkept, List.map_id']

/-! ## Counting productions -/

theorem map_snd_productions (grammar : Grammar) :
    grammar.productions.map Prod.snd = grammar.rules.flatMap Rule.productions := by
  simp [Grammar.productions, List.map_flatMap, Function.comp_def]

theorem length_productions (grammar : Grammar) :
    grammar.productions.length = (grammar.rules.flatMap Rule.productions).length := by
  rw [← map_snd_productions, List.length_map]

theorem count_eq_countP (composed : ComposedGrammar) (origin : Origin) :
    composed.count origin =
      (composed.rules.rules.flatMap Rule.productions).countP (·.origin = origin) := by
  rw [← map_snd_productions, List.countP_map]
  rfl

theorem origin_of_mem_alternatives {name : String} {production : Production}
    (h : production ∈ alternatives splice name) : production.origin = .template := by
  rcases List.mem_append.1 h with h | h
  · split at h
    · obtain rfl := List.mem_singleton.1 h
      rfl
    · cases h
  · split at h
    · obtain rfl := List.mem_singleton.1 h
      rfl
    · cases h

theorem countP_origin {productions : List Production} {origin : Origin}
    (h : ∀ production ∈ productions, production.origin = origin) (other : Origin) :
    productions.countP (·.origin = other) = if origin = other then productions.length else 0 := by
  by_cases heq : origin = other
  · rw [if_pos heq]
    exact List.countP_eq_length.2 fun production hp => by simp [h production hp, heq]
  · rw [if_neg heq]
    exact List.countP_eq_zero.2 fun production hp => by simp [h production hp, heq]

/-- The productions of the host's rules are the host's own and those that splice points get. -/
theorem countP_hostRules (rules : List Rule) (origin : Origin) :
    ((rules.map (hostRule splice)).flatMap Rule.productions).countP (·.origin = origin) =
      (if .host = origin then (rules.flatMap Rule.productions).length else 0) +
        if .template = origin then
          (rules.flatMap fun rule => alternatives splice rule.name).length else 0 := by
  induction rules with
  | nil => cases origin <;> rfl
  | cons rule rest ih =>
    have hown : ∀ production ∈ rule.productions.map (hostProduction splice rule.name),
        production.origin = .host := by simp [hostProduction]
    simp only [List.map_cons, List.flatMap_cons, List.countP_append, List.length_append, ih]
    rw [hostRule, List.countP_append, countP_origin hown, List.length_map,
      countP_origin fun _ => origin_of_mem_alternatives]
    cases origin <;> simp

theorem countP_templateRules (rules : List Rule) (origin : Origin) :
    ((rules.map (templateRule splice)).flatMap Rule.productions).countP (·.origin = origin) =
      if .template = origin then (rules.flatMap Rule.productions).length else 0 := by
  have hadopted : ∀ production ∈ (rules.map (templateRule splice)).flatMap Rule.productions,
      production.origin = .template := by
    intro production hproduction
    obtain ⟨_, hrule, hproduction⟩ := List.mem_flatMap.1 hproduction
    obtain ⟨rule, -, rfl⟩ := List.mem_map.1 hrule
    obtain ⟨original, -, rfl⟩ := List.mem_map.1 hproduction
    rfl
  rw [countP_origin hadopted]
  simp [templateRule, List.length_flatMap, Function.comp_def]

theorem length_alternatives (name : String) :
    (alternatives splice name).length =
      (if name = splice.expression then 1 else 0) + if name = splice.statement then 1 else 0 := by
  rw [alternatives, List.length_append]
  congr 1 <;> split <;> rfl

/-- A splice point gets an alternative wherever its name occurs. -/
theorem length_flatMap_alternatives (rules : List Rule) :
    (rules.flatMap fun rule => alternatives splice rule.name).length =
      (rules.map Rule.name).count splice.expression +
        (rules.map Rule.name).count splice.statement := by
  induction rules with
  | nil => rfl
  | cons rule rest ih =>
    simp only [List.flatMap_cons, List.length_append, ih, length_alternatives, List.map_cons,
      List.count_cons, beq_iff_eq]
    omega

section Count

variable {composed : ComposedGrammar}
  (hrules : composed.rules.rules =
    host.rules.map (hostRule splice) ++ template.rules.map (templateRule splice))

include hrules

theorem count_host_of_rules : composed.count .host = host.productions.length := by
  rw [count_eq_countP, hrules, List.flatMap_append, List.countP_append, countP_hostRules,
    countP_templateRules, length_productions]
  rfl

theorem count_template_of_rules (he : splice.expression ∈ host.nonterminals)
    (hs : splice.statement ∈ host.nonterminals) :
    composed.count .template = template.productions.length + 2 := by
  have hadded : (host.rules.flatMap fun rule => alternatives splice rule.name).length = 2 := by
    rw [length_flatMap_alternatives, List.count_eq_one_of_mem host.distinct he,
      List.count_eq_one_of_mem host.distinct hs]
  rw [count_eq_countP, hrules, List.flatMap_append, List.countP_append, countP_hostRules,
    countP_templateRules, length_productions, hadded, Nat.add_comm]
  rfl

end Count

end Composition

/-! ## All that composition keeps -/

/-- A composed grammar is its host with template rules behind it. -/
structure IsExtension (host : Grammar) (hostConflicts : List Conflict) (splice : SplicePoints)
    (template : Grammar) (composed : ComposedGrammar) : Prop where
  /-- The rules of the host come first, and each is in its place. -/
  rules : composed.rules.rules = host.rules.map (Composition.hostRule splice) ++
    template.rules.map (Composition.templateRule splice)
  nonterminals : composed.rules.nonterminals =
    host.nonterminals ++ template.nonterminals.map (Composition.templateName splice)
  /-- No name of the template, as it is renamed, is one of the host or another one of its own. -/
  distinct :
    (host.nonterminals ++ template.nonterminals.map (Composition.templateName splice)).Nodup
  closed : composed.rules.IsClosed
  conflicts : composed.conflicts = hostConflicts ++ [⟨splice.expression, "template_statement"⟩]
  /-- Conflicts are between nonterminals and productions. -/
  known : ∀ conflict ∈ composed.conflicts, ∀ name ∈ [conflict.left, conflict.right],
    name ∈ composed.rules.nonterminals ∨
      ∃ entry ∈ composed.rules.productions, entry.2.label = name
  summary : composed.summary =
    { nonterminals := host.rules.length + template.rules.length
      hostProductions := host.productions.length
      templateProductions := template.productions.length + 2
      conflicts := hostConflicts.length + 1
      splice := splice }

namespace Composition

variable {grammar : Grammar} {conflicts : List Conflict}

theorem isClosed_of_undefinedReferences (h : undefinedReferences grammar = []) :
    grammar.IsClosed := by
  intro entry hentry reference hreference
  have hnone := List.map_eq_nil_iff.1 (List.flatMap_eq_nil_iff.1 h entry hentry)
  have hdefined := List.filter_eq_nil_iff.1 hnone reference hreference
  rwa [Bool.not_eq_true, Bool.not_eq_false', Grammar.contains_iff] at hdefined

theorem known_of_unknownConflictSymbols (h : unknownConflictSymbols grammar conflicts = []) :
    ∀ conflict ∈ conflicts, ∀ name ∈ [conflict.left, conflict.right],
      name ∈ grammar.nonterminals ∨ ∃ entry ∈ grammar.productions, entry.2.label = name := by
  intro conflict hconflict name hname
  have hnone := List.map_eq_nil_iff.1 (List.flatMap_eq_nil_iff.1 h conflict hconflict)
  have hknown := List.filter_eq_nil_iff.1 hnone name hname
  rw [Bool.and_eq_true, not_and_or] at hknown
  refine hknown.imp (fun hcontains => ?_) fun hproduction => ?_
  · rwa [Bool.not_eq_true, Bool.not_eq_false', Grammar.contains_iff] at hcontains
  · rw [Bool.not_eq_true, Bool.not_eq_false', Grammar.hasProduction] at hproduction
    simpa using hproduction

end Composition

/-- A host that calls its expressions statements, and its statements expressions. -/
def exchangedHost : Grammar :=
  .ofRules [("expression", [.of "call" [.nonterminal "statement", .terminal ";"], .of "skip" []]),
    ("statement", [.of "name" [.tokenClass "identifier"]])]

/-- The rules of that host with directives spliced in, and those of interpolations and bodies. -/
def exchangedRules : List Rule :=
  [⟨"expression",
      [⟨"call", [.nonterminal "statement", .terminal ";"], 1, .host⟩,
        ⟨"skip", [], 1, .host⟩,
        ⟨"template_statement", [.nonterminal "template_statement"], 0, .template⟩]⟩,
    ⟨"statement",
      [⟨"name", [.tokenClass "identifier"], 0, .host⟩,
        ⟨"template_expression", [.nonterminal "template_interpolation"], 0, .template⟩]⟩,
    ⟨"template_interpolation",
      [⟨"template_interpolation",
        [.terminal "\x7b\x7b", .nonterminal "statement", .terminal "\x7d\x7d"], 0, .template⟩]⟩,
    ⟨"template_body",
      [⟨"template_empty_body", [], 0, .template⟩,
        ⟨"template_body", [.nonterminal "expression", .nonterminal "template_body"], 0,
          .template⟩]⟩]

end Stencil
