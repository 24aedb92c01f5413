import Mathlib.Logic.Relation
import Stencil.Grammar

/-!
# Derivations

A grammar derives one sequence of symbols from another by replacing nonterminals, one at a time
and in any order, by the symbols of one of their productions. `Grammar.Derives` says this step by
step. `Grammar.Yields` says the same by recursion on the sequence: each of its symbols is kept, or
is a nonterminal whose production yields a part of the result.

* `derives_iff_yields`: the two agree.
* `yields_append_iff`, `yields_cons_iff_of_not_nonterminal`, `yields_nonterminal_cons_iff`: how a
  derivation comes apart along the sequence it starts from.
-/

namespace Stencil.Grammar

variable {grammar : Grammar}

/-- One nonterminal is replaced by the symbols of one of its productions. -/
inductive Produces (grammar : Grammar) : List Symbol → List Symbol → Prop
  | intro {name : String} {production : Production} (h : (name, production) ∈ grammar.productions)
      (before after : List Symbol) :
      Produces grammar (before ++ .nonterminal name :: after)
        (before ++ (production.symbols ++ after))

/-- Replacing nonterminals, any number of times, leads from one sequence to another. -/
def Derives (grammar : Grammar) : List Symbol → List Symbol → Prop :=
  Relation.ReflTransGen grammar.Produces

/-- Each symbol of the first sequence is kept in the second, or is a nonterminal one of whose
productions yields a part of it. -/
inductive Yields (grammar : Grammar) : List Symbol → List Symbol → Prop
  | nil : Yields grammar [] []
  | keep (symbol : Symbol) {symbols word : List Symbol} (h : Yields grammar symbols word) :
      Yields grammar (symbol :: symbols) (symbol :: word)
  | expand {name : String} {production : Production} {symbols part word : List Symbol}
      (hp : (name, production) ∈ grammar.productions)
      (hpart : Yields grammar production.symbols part) (h : Yields grammar symbols word) :
      Yields grammar (.nonterminal name :: symbols) (part ++ word)

/-! ## Steps -/

theorem Produces.append_left {u v : List Symbol} (h : grammar.Produces u v) (p : List Symbol) :
    grammar.Produces (p ++ u) (p ++ v) := by
  cases h with
  | intro h before after => simpa using Produces.intro h (p ++ before) after

theorem Produces.append_right {u v : List Symbol} (h : grammar.Produces u v) (p : List Symbol) :
    grammar.Produces (u ++ p) (v ++ p) := by
  cases h with
  | intro h before after => simpa using Produces.intro h before (after ++ p)

theorem Derives.append {u u' v v' : List Symbol} (h : grammar.Derives u u')
    (h' : grammar.Derives v v') : grammar.Derives (u ++ v) (u' ++ v') := by
  have left : grammar.Derives (u ++ v) (u' ++ v) :=
    Relation.ReflTransGen.lift (· ++ v) (fun _ _ hs => Produces.append_right hs v) _ _ h
  have right : grammar.Derives (u' ++ v) (u' ++ v') :=
    Relation.ReflTransGen.lift (u' ++ ·) (fun _ _ hs => Produces.append_left hs u') _ _ h'
  exact left.trans right

theorem derives_of_mem {name : String} {production : Production}
    (h : (name, production) ∈ grammar.productions) :
    grammar.Derives [.nonterminal name] production.symbols := by
  have := Produces.intro h [] []
  simp only [List.nil_append, List.append_nil] at this
  exact Relation.ReflTransGen.single this

/-! ## Derivations along a sequence -/

theorem yields_refl (symbols : List Symbol) : grammar.Yields symbols symbols := by
  induction symbols with
  | nil => exact .nil
  | cons symbol symbols ih => exact .keep symbol ih

theorem Yields.append {u u' v v' : List Symbol} (h : grammar.Yields u u')
    (h' : grammar.Yields v v') : grammar.Yields (u ++ v) (u' ++ v') := by
  induction h with
  | nil => exact h'
  | keep symbol _ ih => exact .keep symbol ih
  | expand hp hpart _ _ ih =>
    rw [List.append_assoc]
    exact .expand hp hpart ih

theorem yields_append_iff {u v word : List Symbol} :
    grammar.Yields (u ++ v) word ↔
      ∃ u' v', word = u' ++ v' ∧ grammar.Yields u u' ∧ grammar.Yields v v' := by
  constructor
  · intro h
    induction u generalizing word with
    | nil => exact ⟨[], word, rfl, .nil, h⟩
    | cons symbol u ih =>
      cases h with
      | keep _ h =>
        obtain ⟨u', v', rfl, hu, hv⟩ := ih h
        exact ⟨symbol :: u', v', rfl, .keep symbol hu, hv⟩
      | @expand _ _ _ part _ hp hpart h =>
        obtain ⟨u', v', rfl, hu, hv⟩ := ih h
        exact ⟨part ++ u', v', by simp, .expand hp hpart hu, hv⟩
  · rintro ⟨u', v', rfl, hu, hv⟩
    exact hu.append hv

theorem Produces.trans_yields {u v word : List Symbol} (h : grammar.Produces u v)
    (h' : grammar.Yields v word) : grammar.Yields u word := by
  cases h with
  | intro h before after =>
    obtain ⟨u', v', rfl, hbefore, hv⟩ := yields_append_iff.1 h'
    obtain ⟨part, w, rfl, hpart, hafter⟩ := yields_append_iff.1 hv
    exact hbefore.append (.expand h hpart hafter)

/-- The two forms of derivation agree. -/
theorem derives_iff_yields {u v : List Symbol} : grammar.Derives u v ↔ grammar.Yields u v := by
  constructor
  · intro h
    induction h using Relation.ReflTransGen.head_induction_on with
    | refl => exact yields_refl v
    | head hstep _ ih => exact hstep.trans_yields ih
  · intro h
    induction h with
    | nil => exact .refl
    | @keep symbol symbols word _ ih =>
      have hs : grammar.Derives [symbol] [symbol] := .refl
      exact hs.append ih
    | expand hp _ _ ihpart ih => exact Derives.append ((derives_of_mem hp).trans ihpart) ih

theorem yields_cons_iff_of_not_nonterminal {symbol : Symbol} (hs : symbol.isNonterminal = false)
    {symbols word : List Symbol} :
    grammar.Yields (symbol :: symbols) word ↔
      ∃ rest, word = symbol :: rest ∧ grammar.Yields symbols rest := by
  constructor
  · intro h
    cases h with
    | keep _ h => exact ⟨_, rfl, h⟩
    | expand => cases hs
  · rintro ⟨rest, rfl, h⟩
    exact .keep symbol h

/-- A sequence of terminals and classes. -/
def IsSentence (word : List Symbol) : Prop :=
  ∀ symbol ∈ word, symbol.isNonterminal = false

instance (word : List Symbol) : Decidable (IsSentence word) :=
  inferInstanceAs (Decidable (∀ symbol ∈ word, _))

theorem isSentence_append_iff {u v : List Symbol} :
    IsSentence (u ++ v) ↔ IsSentence u ∧ IsSentence v := by
  simp [IsSentence, or_imp, forall_and]

/-- In a sentence no nonterminal is kept. -/
theorem yields_nonterminal_cons_iff {name : String} {symbols word : List Symbol}
    (hw : IsSentence word) :
    grammar.Yields (.nonterminal name :: symbols) word ↔
      ∃ production part rest, (name, production) ∈ grammar.productions ∧ word = part ++ rest ∧
        grammar.Yields production.symbols part ∧ grammar.Yields symbols rest := by
  constructor
  · intro h
    cases h with
    | keep _ h => simp [IsSentence, Symbol.isNonterminal] at hw
    | expand hp hpart h => exact ⟨_, _, _, hp, rfl, hpart, h⟩
  · rintro ⟨production, part, rest, hp, rfl, hpart, h⟩
    exact .expand hp hpart h

end Stencil.Grammar
