import Stencil.Json
import Stencil.Text.UpperCase

/-!
# Grammars

A grammar is a list of rules with distinct names, each with its alternative productions. Grammars
are data: composition reasons about them, and parsers are written apart from them.

* `Grammar.add` adds productions to a rule, and declares the rule if it is new.
* `Grammar.listing` writes a grammar out, one production a line.
-/

namespace Stencil

/-- A symbol of a grammar. -/
inductive Symbol where
  /-- A token with a fixed spelling. -/
  | terminal (spelling : String)
  /-- A class of tokens. -/
  | tokenClass (name : String)
  | nonterminal (name : String)
  deriving DecidableEq, Repr

namespace Symbol

/-- Whether a symbol is a nonterminal. -/
def isNonterminal : Symbol → Bool
  | .nonterminal _ => true
  | _ => false

/-- A symbol in a listing: terminals in quotation marks, classes in capitals. -/
def describe : Symbol → String
  | .terminal spelling => "'" ++ spelling ++ "'"
  | .tokenClass name => Text.toUpperCase name
  | .nonterminal name => name

/-- A symbol in JSON output. -/
def toJson : Symbol → Json
  | .terminal spelling => .single "terminal" (.string spelling)
  | .tokenClass name => .single "class" (.string name)
  | .nonterminal name => .single "non_terminal" (.string name)

/-- The kinds of symbols in order: terminals, classes, nonterminals. -/
def rank : Symbol → Nat
  | .terminal _ => 0
  | .tokenClass _ => 1
  | .nonterminal _ => 2

/-- The spelling or the name of a symbol. -/
def name : Symbol → String
  | .terminal name | .tokenClass name | .nonterminal name => name

/-- Whether a symbol comes before another: by kind, and within a kind by name. -/
def before (a b : Symbol) : Bool :=
  a.rank < b.rank || (a.rank == b.rank && a.name < b.name)

end Symbol

/-- Which grammar a production belongs to. -/
inductive Origin where
  | host
  | template
  deriving DecidableEq, Repr

/-- The name of an origin in JSON output. -/
def Origin.name : Origin → String
  | .host => "host"
  | .template => "template"

/-- The precedence of the productions of templates. -/
def templatePrecedence : Int := 0

/-- An alternative of a rule. -/
structure Production where
  label : String
  symbols : List Symbol
  precedence : Int
  origin : Origin
  deriving DecidableEq, Repr

namespace Production

/-- A production of a host, with the precedence that templates have. -/
def of (label : String) (symbols : List Symbol) : Production :=
  ⟨label, symbols, templatePrecedence, .host⟩

/-- The nonterminal that a production begins with, if it begins with one. -/
def leadingNonterminal? (production : Production) : Option String :=
  match production.symbols with
  | .nonterminal name :: _ => some name
  | _ => none

/-- The nonterminals in a production, in order. -/
def references (production : Production) : List String :=
  production.symbols.filterMap fun
    | .nonterminal name => some name
    | _ => none

/-- A production in JSON output. -/
def toJson (production : Production) : Json :=
  .object [("label", .string production.label),
    ("symbols", .array (production.symbols.map Symbol.toJson)),
    ("precedence", .number production.precedence),
    ("origin", .string production.origin.name)]

/-- The end of a production's line in a listing: its symbols, label and precedence. -/
def listing (production : Production) : String :=
  (match production.symbols with
    | [] => " ε"
    | symbols => String.join (symbols.map fun symbol => " " ++ symbol.describe)) ++
  "  ; " ++ production.label ++
  (if production.precedence = templatePrecedence then ""
    else " (prec " ++ toString production.precedence ++ ")") ++ "\n"

end Production

/-- A nonterminal with its alternatives. -/
structure Rule where
  name : String
  productions : List Production
  deriving DecidableEq, Repr

namespace Rule

/-- A rule in JSON output. -/
def toJson (rule : Rule) : Json :=
  .object [("name", .string rule.name),
    ("productions", .array (rule.productions.map Production.toJson))]

/-- A rule in a listing. The name stands before the first alternative, and a bar before the
others, indented by the size of the name in bytes. -/
def listing (rule : Rule) : String :=
  match rule.productions with
  | [] => ""
  | first :: rest =>
    let bar := String.ofList (List.replicate rule.name.utf8ByteSize ' ') ++ "   |"
    rule.name ++ " ::=" ++ first.listing ++
      String.join (rest.map fun production => bar ++ production.listing)

end Rule

/-- Rules with distinct names, in order. -/
structure Grammar where
  rules : List Rule
  distinct : (rules.map Rule.name).Nodup
  deriving DecidableEq

namespace Grammar

/-! ## Building grammars -/

/-- The grammar without rules. -/
def empty : Grammar :=
  ⟨[], List.nodup_nil⟩

/-- Adds productions to the rule of a name, or a new rule at the end. -/
def addTo (name : String) (productions : List Production) : List Rule → List Rule
  | [] => [⟨name, productions⟩]
  | rule :: rest =>
    if rule.name = name then ⟨rule.name, rule.productions ++ productions⟩ :: rest
    else rule :: addTo name productions rest

theorem names_addTo (name : String) (productions : List Production) (rules : List Rule) :
    (addTo name productions rules).map Rule.name =
      if name ∈ rules.map Rule.name then rules.map Rule.name
      else rules.map Rule.name ++ [name] := by
  induction rules with
  | nil => simp [addTo]
  | cons rule rest ih =>
    by_cases h : rule.name = name
    · simp [addTo, h]
    · have h' : ¬ name = rule.name := fun e => h e.symm
      by_cases hmem : name ∈ rest.map Rule.name
      · rw [if_pos hmem] at ih
        simp only [addTo, if_neg h, List.map_cons, ih]
        rw [if_pos (List.mem_cons_of_mem _ hmem)]
      · rw [if_neg hmem] at ih
        simp only [addTo, if_neg h, List.map_cons, ih]
        rw [if_neg (by simpa [h'] using hmem), List.cons_append]

/-- Adds productions to the rule of a name, and declares the rule if it is new. -/
def add (grammar : Grammar) (name : String) (productions : List Production) : Grammar where
  rules := addTo name productions grammar.rules
  distinct := by
    rw [names_addTo]
    split
    · exact grammar.distinct
    · next h =>
      rw [List.nodup_append]
      refine ⟨grammar.distinct, by simp, ?_⟩
      intro a ha b hb
      rw [List.mem_singleton.1 hb]
      exact fun e => h (e ▸ ha)

/-- The grammar of a list of named productions, added in order. -/
def ofRules (rules : List (String × List Production)) : Grammar :=
  rules.foldl (fun grammar rule => grammar.add rule.1 rule.2) empty

/-- Changes the productions of every rule. -/
def mapProductions (f : String → Production → Production) (grammar : Grammar) : Grammar where
  rules := grammar.rules.map fun rule => ⟨rule.name, rule.productions.map (f rule.name)⟩
  distinct := by
    have h := grammar.distinct
    rwa [List.map_map] at *

/-! ## Looking into grammars -/

/-- The rule of a name. -/
def get? (grammar : Grammar) (name : String) : Option Rule :=
  grammar.rules.find? (·.name == name)

/-- Whether a nonterminal is defined. -/
def contains (grammar : Grammar) (name : String) : Bool :=
  (grammar.get? name).isSome

/-- The nonterminals, in order. -/
def nonterminals (grammar : Grammar) : List String :=
  grammar.rules.map Rule.name

theorem contains_iff (grammar : Grammar) (name : String) :
    grammar.contains name = true ↔ name ∈ grammar.nonterminals := by
  simp [contains, get?, nonterminals]

theorem nonterminals_add (grammar : Grammar) (name : String) (productions : List Production) :
    (grammar.add name productions).nonterminals =
      if name ∈ grammar.nonterminals then grammar.nonterminals
      else grammar.nonterminals ++ [name] :=
  names_addTo name productions grammar.rules

/-- All productions with the nonterminal they belong to, in order. -/
def productions (grammar : Grammar) : List (String × Production) :=
  grammar.rules.flatMap fun rule => rule.productions.map (rule.name, ·)

theorem mem_productions_iff {grammar : Grammar} {name : String} {production : Production} :
    (name, production) ∈ grammar.productions ↔
      ∃ rule ∈ grammar.rules, rule.name = name ∧ production ∈ rule.productions := by
  simp only [productions, List.mem_flatMap, List.mem_map, Prod.mk.injEq]
  grind

theorem mem_productions_addTo {name other : String} {added : List Production}
    {production : Production} {rules : List Rule} :
    (∃ rule ∈ addTo name added rules, rule.name = other ∧ production ∈ rule.productions) ↔
      (∃ rule ∈ rules, rule.name = other ∧ production ∈ rule.productions) ∨
        (other = name ∧ production ∈ added) := by
  induction rules with
  | nil => simp [addTo, eq_comm]
  | cons rule rest ih =>
    by_cases h : rule.name = name
    · simp only [addTo, if_pos h, List.mem_cons, exists_eq_or_imp, List.mem_append]
      grind
    · simp only [addTo, if_neg h, List.mem_cons, exists_eq_or_imp, ih, or_assoc]

theorem mem_productions_add {grammar : Grammar} {name other : String} {added : List Production}
    {production : Production} :
    (other, production) ∈ (grammar.add name added).productions ↔
      (other, production) ∈ grammar.productions ∨ (other = name ∧ production ∈ added) := by
  rw [mem_productions_iff, mem_productions_iff]
  exact mem_productions_addTo

theorem mem_productions_mapProductions {f : String → Production → Production} {grammar : Grammar}
    {name : String} {production : Production} :
    (name, production) ∈ (grammar.mapProductions f).productions ↔
      ∃ original, (name, original) ∈ grammar.productions ∧ production = f name original := by
  simp only [mem_productions_iff, mapProductions, List.mem_map]
  grind

theorem mem_productions_ofRules {rules : List (String × List Production)} {name : String}
    {production : Production} :
    (name, production) ∈ (ofRules rules).productions ↔
      ∃ rule ∈ rules, rule.1 = name ∧ production ∈ rule.2 := by
  have fold : ∀ grammar : Grammar,
      (name, production) ∈
          (rules.foldl (fun grammar rule => grammar.add rule.1 rule.2) grammar).productions ↔
        (name, production) ∈ grammar.productions ∨
          ∃ rule ∈ rules, rule.1 = name ∧ production ∈ rule.2 := by
    induction rules with
    | nil => simp
    | cons rule rest ih =>
      intro grammar
      simp only [List.foldl_cons, ih, mem_productions_add, List.mem_cons, exists_eq_or_imp,
        or_assoc, @eq_comm _ name]
  rw [ofRules, fold]
  simp [empty, productions]

/-- Whether a production has the given label. -/
def hasProduction (grammar : Grammar) (label : String) : Bool :=
  grammar.productions.any (·.2.label == label)

/-! ## Writing grammars -/

/-- A grammar, one production a line. -/
def listing (grammar : Grammar) : String :=
  String.join (grammar.rules.map Rule.listing)

/-- A grammar in JSON output. -/
def toJson (grammar : Grammar) : Json :=
  .single "rules" (.array (grammar.rules.map Rule.toJson))

end Grammar

end Stencil
