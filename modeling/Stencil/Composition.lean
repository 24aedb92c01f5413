import Stencil.Grammar.Directives
import Stencil.Grammar.First

/-!
# Composing a host grammar with directives

The directives are spliced into a host grammar at two of its nonterminals, its expression and its
statement. `compose` merges the two grammars and checks that the result is still one that a parser
can follow: every nonterminal that is referred to is defined, and wherever a host alternative and
a template alternative of a splice point can begin alike, precedence or a declared conflict says
which is meant.
-/

namespace Stencil

/-- Two productions or nonterminals that may begin alike on purpose. -/
structure Conflict where
  left : String
  right : String
  deriving DecidableEq, Repr

namespace Conflict

/-- A conflict, as messages show it. -/
def describe (conflict : Conflict) : String :=
  "[" ++ conflict.left ++ ", " ++ conflict.right ++ "]"

/-- A conflict in JSON output. -/
def toJson (conflict : Conflict) : Json :=
  .object [("left", .string conflict.left), ("right", .string conflict.right)]

/-- Whether a conflict is between things named by the two lists, in either order. -/
def covers (conflict : Conflict) (a b : List String) : Bool :=
  (a.contains conflict.left && b.contains conflict.right) ||
    (a.contains conflict.right && b.contains conflict.left)

end Conflict

/-- The conflict that directives bring with them: a host statement may begin with an expression,
and an expression may be an interpolation, as a directive statement may. -/
def directiveConflicts : List Conflict :=
  [⟨expressionName, "template_statement"⟩]

/-- The host nonterminals into which directives are spliced. -/
structure SplicePoints where
  expression : String
  statement : String
  deriving DecidableEq, Repr

namespace SplicePoints

/-- The splice points of a host that uses the names that directives refer to. -/
def standard : SplicePoints :=
  ⟨expressionName, statementName⟩

/-- The host's name for what directives call an expression or a statement. -/
def rename (splice : SplicePoints) (name : String) : String :=
  if name = expressionName then splice.expression
  else if name = statementName then splice.statement
  else name

/-- Renames the nonterminals of a symbol. -/
def renameSymbol (splice : SplicePoints) : Symbol → Symbol
  | .nonterminal name => .nonterminal (splice.rename name)
  | symbol => symbol

/-- The two splice points: the expression, then the statement. -/
def toList (splice : SplicePoints) : List String :=
  [splice.expression, splice.statement]

/-- Splice points in JSON output. -/
def toJson (splice : SplicePoints) : Json :=
  .object [("expression", .string splice.expression), ("statement", .string splice.statement)]

end SplicePoints

/-- What keeps two grammars from being composed. -/
inductive CompositionError where
  /-- A host and a template alternative can begin alike, and nothing says which is meant. -/
  | ambiguous (nonterminal host template : String) (shared : List String)
  /-- Both grammars define a nonterminal. -/
  | duplicate (nonterminal : String)
  /-- A production refers to a nonterminal that is not defined. -/
  | undefined (production nonterminal : String)
  /-- The host does not define a splice point. -/
  | missingSplicePoint (nonterminal : String)
  /-- A declared conflict names neither a production nor a nonterminal. -/
  | unknownConflictSymbol (conflict symbol : String)
  deriving DecidableEq, Repr

/-- The text of an error. -/
def CompositionError.message : CompositionError → String
  | .ambiguous nonterminal host template shared =>
    "ambiguous alternatives of '" ++ nonterminal ++ "': host production '" ++ host ++
      "' and template production '" ++ template ++ "' can both start with " ++
      ", ".intercalate shared
  | .duplicate nonterminal => "nonterminal '" ++ nonterminal ++ "' is defined by both grammars"
  | .undefined production nonterminal =>
    "production '" ++ production ++ "' references undefined nonterminal '" ++ nonterminal ++ "'"
  | .missingSplicePoint nonterminal =>
    "splice point '" ++ nonterminal ++ "' is not defined by the host grammar"
  | .unknownConflictSymbol conflict symbol =>
    "conflict " ++ conflict ++ " names unknown production or nonterminal '" ++ symbol ++ "'"

/-- A host grammar with directives spliced in. -/
structure ComposedGrammar where
  rules : Grammar
  conflicts : List Conflict
  splice : SplicePoints
  deriving DecidableEq

/-- The size of a composition. -/
structure CompositionSummary where
  nonterminals : Nat
  hostProductions : Nat
  templateProductions : Nat
  conflicts : Nat
  splice : SplicePoints
  deriving DecidableEq, Repr

namespace CompositionSummary

/-- A summary in one line. -/
def describe (summary : CompositionSummary) : String :=
  toString summary.nonterminals ++ " nonterminals, " ++ toString summary.hostProductions ++
    " host + " ++ toString summary.templateProductions ++ " template productions, " ++
    toString summary.conflicts ++ " conflicts, spliced at '" ++ summary.splice.expression ++
    "' and '" ++ summary.splice.statement ++ "'"

/-- A summary in JSON output. -/
def toJson (summary : CompositionSummary) : Json :=
  .object [("nonterminals", .ofNat summary.nonterminals),
    ("host_productions", .ofNat summary.hostProductions),
    ("template_productions", .ofNat summary.templateProductions),
    ("conflicts", .ofNat summary.conflicts), ("splice_points", summary.splice.toJson)]

end CompositionSummary

namespace ComposedGrammar

/-- The number of productions of an origin. -/
def count (composed : ComposedGrammar) (origin : Origin) : Nat :=
  composed.rules.productions.countP fun production => production.2.origin = origin

/-- The size of a composition. -/
def summary (composed : ComposedGrammar) : CompositionSummary where
  nonterminals := composed.rules.rules.length
  hostProductions := composed.count .host
  templateProductions := composed.count .template
  conflicts := composed.conflicts.length
  splice := composed.splice

/-- A composed grammar in JSON output. -/
def toJson (composed : ComposedGrammar) : Json :=
  .object [("rules", composed.rules.toJson),
    ("conflicts", .array (composed.conflicts.map Conflict.toJson)),
    ("splice_points", composed.splice.toJson)]

end ComposedGrammar

namespace Composition

/-! ## Merging -/

/-- The splice points that the host does not define. -/
def missingSplicePoints (host : Grammar) (splice : SplicePoints) : List CompositionError :=
  (splice.toList.filter fun name => !host.contains name).map .missingSplicePoint

/-- A template production with the host's names, marked as a template's. -/
def adopt (splice : SplicePoints) (production : Production) : Production :=
  { production with
    symbols := production.symbols.map splice.renameSymbol
    origin := .template }

/-- Adds the template rules to a grammar, with the host's names. A rule whose name is taken is
left out and reported. -/
def adoptRules (splice : SplicePoints) (grammar : Grammar) :
    List Rule → Grammar × List CompositionError
  | [] => (grammar, [])
  | rule :: rest =>
    let name := splice.rename rule.name
    if grammar.contains name then
      let (merged, errors) := adoptRules splice grammar rest
      (merged, .duplicate name :: errors)
    else
      adoptRules splice (grammar.add name (rule.productions.map (adopt splice))) rest

/-- The host grammar with its productions marked as the host's. -/
def markHost (host : Grammar) : Grammar :=
  host.mapProductions fun _ production => { production with origin := .host }

/-- Makes an interpolation an alternative of the host's expression. -/
def spliceExpression (splice : SplicePoints) (grammar : Grammar) : Grammar :=
  grammar.add splice.expression
    [⟨"template_expression", [.nonterminal "template_interpolation"], templatePrecedence,
      .template⟩]

/-- Raises the alternatives of the host's statement above those of templates, and makes a
directive statement an alternative of it. -/
def spliceStatement (splice : SplicePoints) (grammar : Grammar) : Grammar :=
  let raised := grammar.mapProductions fun name production =>
    if name = splice.statement then { production with precedence := templatePrecedence + 1 }
    else production
  raised.add splice.statement
    [⟨"template_statement", [.nonterminal "template_statement"], templatePrecedence, .template⟩]

/-- The merged grammar, and the template rules that found their names taken. -/
def merge (host : Grammar) (splice : SplicePoints) (template : Grammar) :
    Grammar × List CompositionError :=
  let (merged, errors) := adoptRules splice (markHost host) template.rules
  (spliceStatement splice (spliceExpression splice merged), errors)

/-! ## Checks -/

/-- The references to nonterminals that are not defined. -/
def undefinedReferences (grammar : Grammar) : List CompositionError :=
  grammar.productions.flatMap fun (_, production) =>
    (production.references.filter fun name => !grammar.contains name).map
      (.undefined production.label ·)

/-- The names in conflicts that are neither nonterminals nor labels of productions. -/
def unknownConflictSymbols (grammar : Grammar) (conflicts : List Conflict) :
    List CompositionError :=
  conflicts.flatMap fun conflict =>
    ([conflict.left, conflict.right].filter fun name =>
      !grammar.contains name && !grammar.hasProduction name).map
      (.unknownConflictSymbol conflict.describe ·)

/-- The names by which a conflict may refer to a production of a nonterminal. -/
def conflictNames (nonterminal : String) (production : Production) : List String :=
  production.label :: production.leadingNonterminal?.toList ++
    (if production.origin = .host then [nonterminal] else [])

/-- What is wrong with a host and a template alternative of a nonterminal: they can begin alike,
have the same precedence, and no conflict covers them. -/
def ambiguity? (sets : FirstSets) (conflicts : List Conflict) (nonterminal : String)
    (host template : Production) : Option CompositionError :=
  let hostFirst := sets.ofSequence host.symbols
  let templateFirst := sets.ofSequence template.symbols
  let covered := conflicts.any
    (·.covers (conflictNames nonterminal host) (conflictNames nonterminal template))
  if hostFirst.overlaps templateFirst && host.precedence == template.precedence && !covered then
    some (.ambiguous nonterminal host.label template.label
      ((hostFirst.shared templateFirst).map Symbol.describe))
  else none

/-- The ambiguities at the splice points. -/
def ambiguities (grammar : Grammar) (conflicts : List Conflict) (splice : SplicePoints) :
    List CompositionError :=
  let sets := grammar.firstSets
  splice.toList.flatMap fun nonterminal =>
    let productions := ((grammar.get? nonterminal).map Rule.productions).getD []
    let hosts := productions.filter (·.origin = .host)
    let templates := productions.filter (·.origin ≠ .host)
    hosts.flatMap fun host => templates.filterMap (ambiguity? sets conflicts nonterminal host)

end Composition

/-- Splices template rules into a host grammar, or reports all that is wrong. Ambiguities are
looked for only if nothing else is wrong, and a missing splice point leaves nothing to check. -/
def compose (host : Grammar) (hostConflicts : List Conflict) (splice : SplicePoints)
    (template : Grammar) : Except (List CompositionError) ComposedGrammar :=
  match Composition.missingSplicePoints host splice with
  | error :: errors => .error (error :: errors)
  | [] =>
    let (rules, duplicates) := Composition.merge host splice template
    let conflicts := hostConflicts ++ directiveConflicts.map fun conflict =>
      ⟨splice.rename conflict.left, splice.rename conflict.right⟩
    let errors := duplicates ++ Composition.undefinedReferences rules ++
      Composition.unknownConflictSymbols rules conflicts
    let errors :=
      if errors.isEmpty then Composition.ambiguities rules conflicts splice else errors
    if errors.isEmpty then .ok ⟨rules, conflicts, splice⟩ else .error errors

end Stencil
