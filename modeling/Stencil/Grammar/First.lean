import Stencil.Grammar

/-!
# FIRST sets

The FIRST set of a sequence of symbols holds the terminals and classes that what it derives can
begin with, and whether it derives the empty sequence. `Grammar.firstSets` computes the sets of
all nonterminals: starting from empty sets it adds what the productions show until nothing is
new. A nonterminal without a rule derives nothing.
-/

namespace Stencil

/-- What a sequence of symbols can begin with. -/
structure FirstSet where
  /-- The terminals and classes, each once, in order. -/
  symbols : List Symbol
  /-- Whether the empty sequence can be derived. -/
  nullable : Bool
  deriving DecidableEq, Repr

namespace FirstSet

/-- The set of a sequence that derives nothing. -/
def empty : FirstSet :=
  ⟨[], false⟩

/-- Inserts a symbol at its place in an ordered list, unless it is there. -/
def insert (symbol : Symbol) : List Symbol → List Symbol
  | [] => [symbol]
  | first :: rest =>
    if symbol = first then first :: rest
    else if symbol.before first then symbol :: first :: rest
    else first :: insert symbol rest

/-- The symbols of both lists, in order. -/
def union (symbols others : List Symbol) : List Symbol :=
  others.foldl (fun all symbol => insert symbol all) symbols

@[simp] theorem mem_insert {symbol other : Symbol} {symbols : List Symbol} :
    other ∈ insert symbol symbols ↔ other = symbol ∨ other ∈ symbols := by
  induction symbols with
  | nil => simp [insert]
  | cons first rest ih =>
    rw [insert]
    split
    · next h => simp [h]
    · split
      · simp
      · simp only [List.mem_cons, ih]
        exact or_left_comm

@[simp] theorem mem_union {symbol : Symbol} {symbols others : List Symbol} :
    symbol ∈ union symbols others ↔ symbol ∈ symbols ∨ symbol ∈ others := by
  unfold union
  induction others generalizing symbols with
  | nil => simp
  | cons first rest ih =>
    simp only [List.foldl_cons, ih, mem_insert, List.mem_cons]
    rw [or_comm (a := symbol = first), or_assoc]

/-- The symbols that are in both sets, in order. -/
def shared (a b : FirstSet) : List Symbol :=
  a.symbols.filter fun symbol => b.symbols.contains symbol

/-- Whether two sets allow the same beginning. -/
def overlaps (a b : FirstSet) : Bool :=
  (a.nullable && b.nullable) || !(a.shared b).isEmpty

end FirstSet

/-- The FIRST sets of nonterminals. -/
abbrev FirstSets := List (String × FirstSet)

namespace FirstSets

/-- The set of a nonterminal, if it has one. -/
def get? (sets : FirstSets) (name : String) : Option FirstSet :=
  (sets.find? (·.1 == name)).map Prod.snd

/-- The FIRST set of a sequence of symbols, from those of the nonterminals. -/
def ofSequence (sets : FirstSets) : List Symbol → FirstSet
  | [] => ⟨[], true⟩
  | .nonterminal name :: rest =>
    match sets.get? name with
    | none => .empty
    | some set =>
      if set.nullable then
        let later := ofSequence sets rest
        ⟨FirstSet.union set.symbols later.symbols, later.nullable⟩
      else ⟨set.symbols, false⟩
  | symbol :: _ => ⟨[symbol], false⟩

/-- Adds a set to that of a nonterminal. -/
def extend (sets : FirstSets) (name : String) (set : FirstSet) : FirstSets :=
  sets.map fun entry =>
    if entry.1 = name then
      (name, ⟨FirstSet.union entry.2.symbols set.symbols, entry.2.nullable || set.nullable⟩)
    else entry

/-- Adds what each of the productions shows, one after the other. -/
def pass (productions : List (String × Production)) (sets : FirstSets) : FirstSets :=
  productions.foldl
    (fun sets production => sets.extend production.1 (sets.ofSequence production.2.symbols)) sets

/-- Passes over the productions until nothing is new, at most `rounds` times. -/
def saturate (productions : List (String × Production)) (rounds : Nat) (sets : FirstSets) :
    FirstSets :=
  match rounds with
  | 0 => sets
  | rounds + 1 =>
    let next := pass productions sets
    if next = sets then sets else saturate productions rounds next

end FirstSets

namespace Grammar

/-- A number of passes after which nothing is new: every pass but the last adds a symbol of some
production, or the empty sequence, to the set of some nonterminal. -/
def passes (grammar : Grammar) : Nat :=
  let symbols := grammar.productions.flatMap fun production => production.2.symbols
  grammar.rules.length * (symbols.length + 1) + 1

/-- The FIRST sets of all nonterminals. -/
def firstSets (grammar : Grammar) : FirstSets :=
  FirstSets.saturate grammar.productions grammar.passes
    (grammar.nonterminals.map (·, FirstSet.empty))

end Grammar

end Stencil
