import Mathlib.Data.List.Pairwise
import Mathlib.Data.String.Basic
import Mathlib.Logic.Function.Iterate
import Stencil.Grammar.First
import Stencil.Proofs.Grammar.Derivation

/-!
# FIRST sets are what can be derived

For every grammar, recursive in any way and with any productions missing, `Grammar.firstSets`
reaches sets that a further pass leaves alone, and the sets that `FirstSets.ofSequence` makes of
them hold exactly what can be derived.

* `FirstSets.Sound` is kept by every extension (`Sound.extend`), so all that the sets hold can be
  derived.
* `holds_pass_of_holds_ofSequence`: a pass adds what each production shows. Sets that a pass leaves
  alone are therefore closed under the productions, and by induction on derivations hold all that
  can be derived (`holds_head?_of_yields`).
* `pass_eq_or_weight_lt`: a pass that changes something makes the sets larger, and
  `Tidy.weight_le` bounds how large they can be.
* `firstSets_eq_derivable_starts` puts these together.
-/

namespace Stencil

open Grammar

/-! ## Lists of symbols in order -/

namespace Symbol

theorem before_iff {a b : Symbol} :
    a.before b = true ↔ a.rank < b.rank ∨ a.rank = b.rank ∧ a.name < b.name := by
  simp [before]

theorem before_irrefl (a : Symbol) : ¬ a.before a = true := by
  simp [before_iff]

theorem before_trans {a b c : Symbol} (hab : a.before b = true) (hbc : b.before c = true) :
    a.before c = true := by
  rw [before_iff] at *
  rcases hab with hab | ⟨hab, hn⟩ <;> rcases hbc with hbc | ⟨hbc, hn'⟩
  · exact .inl (hab.trans hbc)
  · exact .inl (hbc ▸ hab)
  · exact .inl (hab ▸ hbc)
  · exact .inr ⟨hab.trans hbc, hn.trans hn'⟩

theorem eq_of_rank_eq_of_name_eq {a b : Symbol} (hr : a.rank = b.rank) (hn : a.name = b.name) :
    a = b := by
  cases a <;> cases b <;> simp_all [rank, name]

theorem before_of_ne {a b : Symbol} (hne : a ≠ b) (hab : ¬ a.before b = true) :
    b.before a = true := by
  rw [before_iff] at *
  rcases lt_trichotomy a.rank b.rank with hr | hr | hr
  · exact absurd (.inl hr) hab
  · rcases lt_trichotomy a.name b.name with hn | hn | hn
    · exact absurd (.inr ⟨hr, hn⟩) hab
    · exact absurd (eq_of_rank_eq_of_name_eq hr hn) hne
    · exact .inr ⟨hr.symm, hn⟩
  · exact .inl hr

end Symbol

namespace FirstSet

/-- The symbols stand in order, each once. -/
def Ordered (symbols : List Symbol) : Prop :=
  symbols.Pairwise fun a b => a.before b = true

theorem Ordered.nodup {symbols : List Symbol} (h : Ordered symbols) : symbols.Nodup := by
  refine List.Pairwise.imp ?_ h
  rintro a b hab rfl
  exact Symbol.before_irrefl a hab

theorem Ordered.insert {symbols : List Symbol} (h : Ordered symbols) (symbol : Symbol) :
    Ordered (insert symbol symbols) := by
  induction symbols with
  | nil => exact List.pairwise_singleton _ _
  | cons first rest ih =>
    obtain ⟨hfirst, hrest⟩ := List.pairwise_cons.1 h
    rw [FirstSet.insert]
    split
    · exact h
    · next hne =>
      split
      · next hb =>
        refine List.pairwise_cons.2 ⟨?_, h⟩
        intro other hother
        rcases List.mem_cons.1 hother with rfl | hother
        · exact hb
        · exact Symbol.before_trans hb (hfirst other hother)
      · next hb =>
        refine List.pairwise_cons.2 ⟨?_, ih hrest⟩
        intro other hother
        rcases mem_insert.1 hother with rfl | hother
        · exact Symbol.before_of_ne hne hb
        · exact hfirst other hother

theorem Ordered.union {symbols : List Symbol} (h : Ordered symbols) (others : List Symbol) :
    Ordered (union symbols others) := by
  unfold FirstSet.union
  induction others generalizing symbols with
  | nil => exact h
  | cons symbol others ih => exact ih (h.insert symbol)

/-- Inserting a symbol changes nothing or makes the list longer. -/
theorem insert_eq_or_length_lt (symbol : Symbol) (symbols : List Symbol) :
    insert symbol symbols = symbols ∨ symbols.length < (insert symbol symbols).length := by
  induction symbols with
  | nil => simp [insert]
  | cons first rest ih =>
    rw [insert]
    split
    · exact .inl rfl
    · split
      · exact .inr (by simp)
      · rcases ih with ih | ih
        · exact .inl (by rw [ih])
        · exact .inr (by simpa using ih)

theorem union_eq_or_length_lt (symbols others : List Symbol) :
    union symbols others = symbols ∨ symbols.length < (union symbols others).length := by
  unfold union
  induction others generalizing symbols with
  | nil => exact .inl rfl
  | cons symbol others ih =>
    rw [List.foldl_cons]
    rcases insert_eq_or_length_lt symbol symbols with h | h
    · rw [h]
      exact ih symbols
    · rcases ih (insert symbol symbols) with h' | h'
      · exact .inr (by rwa [h'])
      · exact .inr (h.trans h')

end FirstSet

/-- What a set holds: a symbol to begin with, or the empty sequence. -/
def FirstSet.Holds (set : FirstSet) : Option Symbol → Prop
  | some a => a ∈ set.symbols
  | none => set.nullable = true

namespace FirstSets

/-! ## The set of a nonterminal -/

/-- The set of a nonterminal; one without a rule derives nothing. -/
def of (sets : FirstSets) (name : String) : FirstSet :=
  (sets.get? name).getD .empty

/-- The nonterminals with a set. -/
def names (sets : FirstSets) : List String :=
  sets.map Prod.fst

theorem ofSequence_nonterminal_cons (sets : FirstSets) (name : String) (rest : List Symbol) :
    sets.ofSequence (.nonterminal name :: rest) =
      if (sets.of name).nullable then
        ⟨FirstSet.union (sets.of name).symbols (sets.ofSequence rest).symbols,
          (sets.ofSequence rest).nullable⟩
      else ⟨(sets.of name).symbols, false⟩ := by
  rw [ofSequence, of]
  cases sets.get? name with
  | none => rfl
  | some set => rfl

theorem ofSequence_cons_of_not_nonterminal (sets : FirstSets) {symbol : Symbol}
    (hs : symbol.isNonterminal = false) (rest : List Symbol) :
    sets.ofSequence (symbol :: rest) = ⟨[symbol], false⟩ := by
  cases symbol with
  | terminal spelling => rfl
  | tokenClass name => rfl
  | nonterminal name => cases hs

/-- A sequence begins as its first nonterminal does, or as the rest does if that can vanish. -/
theorem holds_ofSequence_nonterminal_cons {sets : FirstSets} {name : String}
    {rest : List Symbol} {x : Option Symbol} :
    (sets.ofSequence (.nonterminal name :: rest)).Holds x ↔
      (x ≠ none ∧ (sets.of name).Holds x) ∨
        (sets.of name).Holds none ∧ (sets.ofSequence rest).Holds x := by
  rw [ofSequence_nonterminal_cons]
  cases x with
  | none => split <;> simp_all [FirstSet.Holds]
  | some a => split <;> simp_all [FirstSet.Holds]

theorem names_extend (sets : FirstSets) (name : String) (set : FirstSet) :
    (sets.extend name set).names = sets.names := by
  rw [names, extend, List.map_map]
  refine List.map_congr_left ?_
  rintro ⟨other, old⟩ -
  by_cases h : other = name <;> simp [h]

theorem of_cons (entry : String × FirstSet) (sets : FirstSets) (name : String) :
    of (entry :: sets) name = if entry.1 = name then entry.2 else sets.of name := by
  by_cases h : entry.1 = name <;> simp [of, get?, h]

/-- An extension adds to the set of one nonterminal, if it has one. -/
theorem of_extend (sets : FirstSets) (name other : String) (set : FirstSet) :
    (sets.extend name set).of other =
      if other = name ∧ name ∈ sets.names then
        ⟨FirstSet.union (sets.of name).symbols set.symbols,
          (sets.of name).nullable || set.nullable⟩
      else sets.of other := by
  induction sets with
  | nil => simp [extend, names]
  | cons entry sets ih =>
    have hcons : extend (entry :: sets) name set =
        (if entry.1 = name then (name, ⟨FirstSet.union entry.2.symbols set.symbols,
          entry.2.nullable || set.nullable⟩) else entry) :: extend sets name set := rfl
    rw [hcons, of_cons, ih, of_cons, of_cons]
    by_cases ho : other = name
    · subst ho
      by_cases he : entry.1 = other
      · simp [he, names]
      · have hmem : other ∈ names (entry :: sets) ↔ other ∈ names sets := by
          simp [names, Ne.symm he]
        simp only [if_neg he, hmem, true_and]
    · have ho' : ¬ name = other := fun e => ho e.symm
      by_cases he : entry.1 = name <;> simp [he, ho, ho']

theorem holds_extend {sets : FirstSets} {name other : String} {set : FirstSet}
    {x : Option Symbol} :
    ((sets.extend name set).of other).Holds x ↔
      (sets.of other).Holds x ∨ other = name ∧ name ∈ sets.names ∧ set.Holds x := by
  rw [of_extend]
  split
  · next h =>
    obtain ⟨rfl, h⟩ := h
    cases x <;> simp [FirstSet.Holds, h]
  · next h =>
    rw [or_iff_left]
    rintro ⟨ho, hn, -⟩
    exact h ⟨ho, hn⟩

theorem pass_cons (production : String × Production) (productions : List (String × Production))
    (sets : FirstSets) :
    pass (production :: productions) sets =
      pass productions (sets.extend production.1 (sets.ofSequence production.2.symbols)) :=
  rfl

theorem names_pass (productions : List (String × Production)) (sets : FirstSets) :
    (pass productions sets).names = sets.names := by
  induction productions generalizing sets with
  | nil => rfl
  | cons production productions ih => rw [pass_cons, ih, names_extend]

end FirstSets

/-! ## What the sets hold can be derived -/

/-- What a sequence of symbols can begin with: a terminal or a class that some derived sequence
begins with, or nothing if it derives the empty sequence. -/
def Grammar.Begins (grammar : Grammar) (symbols : List Symbol) : Option Symbol → Prop
  | some a => a.isNonterminal = false ∧ ∃ w, grammar.Derives symbols (a :: w)
  | none => grammar.Derives symbols []

theorem Grammar.Begins.of_derives {grammar : Grammar} {u v : List Symbol} {x : Option Symbol}
    (hv : grammar.Begins v x) (h : grammar.Derives u v) : grammar.Begins u x := by
  cases x with
  | none => exact h.trans hv
  | some a =>
    obtain ⟨hs, w, hw⟩ := hv
    exact ⟨hs, w, h.trans hw⟩

theorem Grammar.Begins.append {grammar : Grammar} {u : List Symbol} {x : Option Symbol}
    (hu : grammar.Begins u x) (hx : x ≠ none) (v : List Symbol) : grammar.Begins (u ++ v) x := by
  cases x with
  | none => exact absurd rfl hx
  | some a =>
    obtain ⟨hs, w, hw⟩ := hu
    exact ⟨hs, w ++ v, hw.append .refl⟩

namespace FirstSets

variable {grammar : Grammar} {sets : FirstSets}

/-- The sets of nonterminals hold only what these can begin with. -/
def Sound (grammar : Grammar) (sets : FirstSets) : Prop :=
  ∀ name x, (sets.of name).Holds x → grammar.Begins [.nonterminal name] x

theorem Sound.ofSequence (h : Sound grammar sets) {symbols : List Symbol} {x : Option Symbol}
    (hx : (sets.ofSequence symbols).Holds x) : grammar.Begins symbols x := by
  induction symbols with
  | nil =>
    cases x with
    | none => exact .refl
    | some a => cases hx
  | cons symbol rest ih =>
    cases hs : symbol.isNonterminal with
    | false =>
      rw [ofSequence_cons_of_not_nonterminal sets hs] at hx
      cases x with
      | none => cases hx
      | some a =>
        obtain rfl := List.mem_singleton.1 hx
        exact ⟨hs, rest, .refl⟩
    | true =>
      obtain ⟨name, rfl⟩ : ∃ name, symbol = .nonterminal name := by
        cases symbol <;> simp_all [Symbol.isNonterminal]
      rcases holds_ofSequence_nonterminal_cons.1 hx with ⟨hne, hx⟩ | ⟨hnull, hx⟩
      · exact (h name x hx).append hne rest
      · have hvanish : grammar.Derives (.nonterminal name :: rest) rest :=
          Derives.append (h name none hnull) .refl
        exact (ih hx).of_derives hvanish

/-- Extending a set by what a production shows keeps all sets sound. -/
theorem Sound.extend (h : Sound grammar sets) {name : String} {production : Production}
    (hp : (name, production) ∈ grammar.productions) :
    Sound grammar (sets.extend name (sets.ofSequence production.symbols)) := by
  intro other x hx
  rcases holds_extend.1 hx with hx | ⟨rfl, -, hx⟩
  · exact h other x hx
  · exact (h.ofSequence hx).of_derives (derives_of_mem hp)

theorem Sound.pass (h : Sound grammar sets) {productions : List (String × Production)}
    (hp : ∀ production ∈ productions, production ∈ grammar.productions) :
    Sound grammar (pass productions sets) := by
  induction productions generalizing sets with
  | nil => exact h
  | cons production productions ih =>
    rw [pass_cons]
    exact ih (h.extend (hp _ List.mem_cons_self)) fun p hmem => hp p (List.mem_cons_of_mem _ hmem)

/-! ## A pass adds what the productions show -/

/-- The sets of nonterminals hold no more than other ones. -/
def Below (sets others : FirstSets) : Prop :=
  ∀ name x, (sets.of name).Holds x → (others.of name).Holds x

variable {others : FirstSets}

theorem below_extend (sets : FirstSets) (name : String) (set : FirstSet) :
    Below sets (sets.extend name set) :=
  fun _ _ hx => holds_extend.2 (.inl hx)

theorem below_pass (productions : List (String × Production)) (sets : FirstSets) :
    Below sets (pass productions sets) := by
  induction productions generalizing sets with
  | nil => exact fun _ _ hx => hx
  | cons production productions ih =>
    exact fun name x hx => ih _ name x (below_extend sets _ _ name x hx)

/-- Larger sets show more. -/
theorem Below.ofSequence (h : Below sets others) {symbols : List Symbol} {x : Option Symbol}
    (hx : (sets.ofSequence symbols).Holds x) : (others.ofSequence symbols).Holds x := by
  induction symbols with
  | nil => exact hx
  | cons symbol rest ih =>
    cases symbol with
    | terminal spelling => exact hx
    | tokenClass name => exact hx
    | nonterminal name =>
      rcases holds_ofSequence_nonterminal_cons.1 hx with ⟨hne, hx⟩ | ⟨hnull, hx⟩
      · exact holds_ofSequence_nonterminal_cons.2 (.inl ⟨hne, h name x hx⟩)
      · exact holds_ofSequence_nonterminal_cons.2 (.inr ⟨h name none hnull, ih hx⟩)

/-- What a production shows at the start of a pass is added in the course of it. -/
theorem holds_pass_of_holds_ofSequence {productions : List (String × Production)}
    {production : String × Production} (hp : production ∈ productions)
    (hname : production.1 ∈ sets.names) {x : Option Symbol}
    (hx : (sets.ofSequence production.2.symbols).Holds x) :
    ((pass productions sets).of production.1).Holds x := by
  induction productions generalizing sets with
  | nil => cases hp
  | cons first productions ih =>
    rw [pass_cons]
    rcases List.mem_cons.1 hp with rfl | hp
    · exact below_pass _ _ _ x (holds_extend.2 (.inr ⟨rfl, hname, hx⟩))
    · exact ih hp (by rwa [names_extend]) ((below_extend _ _ _).ofSequence hx)

/-! ## What can be derived is in the sets -/

/-- Sets that a pass leaves alone hold what can be derived: a derivation that expands a nonterminal
uses a production, and this one has shown all it can. -/
theorem holds_head?_of_yields (hnames : sets.names = grammar.nonterminals)
    (hfixed : pass grammar.productions sets = sets) {symbols word : List Symbol}
    (h : grammar.Yields symbols word) (hw : ∀ a ∈ word.head?, a.isNonterminal = false) :
    (sets.ofSequence symbols).Holds word.head? := by
  induction h with
  | nil => rfl
  | @keep symbol rest word _ ih =>
    rw [ofSequence_cons_of_not_nonterminal sets (hw symbol rfl)]
    exact List.mem_singleton_self symbol
  | @expand name production rest part word hp _ _ ihpart ih =>
    have hname : name ∈ sets.names := by
      obtain ⟨rule, hr, rfl, -⟩ := mem_productions_iff.1 hp
      rw [hnames]
      exact List.mem_map_of_mem hr
    have hclosed := fun x => @holds_pass_of_holds_ofSequence sets _ _ hp hname x
    rw [hfixed] at hclosed
    cases part with
    | nil =>
      have hnull := hclosed none (ihpart (by simp))
      exact holds_ofSequence_nonterminal_cons.2 (.inr ⟨hnull, ih hw⟩)
    | cons a part =>
      have hstart := hclosed (some a) (ihpart hw)
      exact holds_ofSequence_nonterminal_cons.2 (.inl ⟨by simp, hstart⟩)

end FirstSets

/-! ## The passes come to an end -/

/-- The number of things that a set holds. -/
def FirstSet.weight (set : FirstSet) : Nat :=
  set.symbols.length + set.nullable.toNat

theorem FirstSet.union_eq_or_weight_lt (set added : FirstSet) :
    (⟨union set.symbols added.symbols, set.nullable || added.nullable⟩ : FirstSet) = set ∨
      set.weight <
        weight ⟨union set.symbols added.symbols, set.nullable || added.nullable⟩ := by
  obtain ⟨symbols, nullable⟩ := set
  have hn : (nullable || added.nullable) = nullable ∨
      nullable.toNat < (nullable || added.nullable).toNat := by
    cases nullable <;> cases added.nullable <;> simp
  simp only [weight, FirstSet.mk.injEq]
  rcases union_eq_or_length_lt symbols added.symbols with h | h <;> rcases hn with hn | hn
  · exact .inl ⟨h, hn⟩
  · exact .inr (by rw [h]; omega)
  · exact .inr (by rw [hn]; omega)
  · exact .inr (by omega)

namespace FirstSets

variable {grammar : Grammar} {sets : FirstSets}

/-- The number of things that the sets of all nonterminals hold. -/
def weight : FirstSets → Nat
  | [] => 0
  | entry :: sets => entry.2.weight + weight sets

/-- An extension changes nothing or adds something. -/
theorem extend_eq_or_weight_lt (sets : FirstSets) (name : String) (set : FirstSet) :
    sets.extend name set = sets ∨ sets.weight < (sets.extend name set).weight := by
  induction sets with
  | nil => exact .inl rfl
  | cons entry sets ih =>
    obtain ⟨other, old⟩ := entry
    have hcons : extend ((other, old) :: sets) name set =
        (if other = name then (name, ⟨FirstSet.union old.symbols set.symbols,
          old.nullable || set.nullable⟩) else (other, old)) :: extend sets name set := rfl
    rw [hcons]
    split
    · next h =>
      subst h
      rcases old.union_eq_or_weight_lt set with h | h <;> rcases ih with ih | ih
      · exact .inl (by rw [h, ih])
      · exact .inr (by simpa [weight, h] using ih)
      · exact .inr (by simpa [weight, ih] using h)
      · exact .inr (by simpa [weight] using add_lt_add h ih)
    · rcases ih with ih | ih
      · exact .inl (by rw [ih])
      · exact .inr (by simpa [weight] using ih)

theorem pass_eq_or_weight_lt (productions : List (String × Production)) (sets : FirstSets) :
    pass productions sets = sets ∨ sets.weight < (pass productions sets).weight := by
  induction productions generalizing sets with
  | nil => exact .inl rfl
  | cons production productions ih =>
    rw [pass_cons]
    rcases extend_eq_or_weight_lt sets production.1 (sets.ofSequence production.2.symbols)
      with h | h
    · rw [h]
      exact ih sets
    · rcases ih (sets.extend production.1 (sets.ofSequence production.2.symbols)) with h' | h'
      · exact .inr (by rwa [h'])
      · exact .inr (h.trans h')

/-- All sets are in order and hold only symbols of a given list. -/
def Tidy (known : List Symbol) (sets : FirstSets) : Prop :=
  ∀ entry ∈ sets, FirstSet.Ordered entry.2.symbols ∧ entry.2.symbols ⊆ known

variable {known : List Symbol}

theorem Tidy.of (h : Tidy known sets) (name : String) : (sets.of name).symbols ⊆ known := by
  induction sets with
  | nil => simp [FirstSets.of, get?, FirstSet.empty]
  | cons entry sets ih =>
    rw [of_cons]
    split
    · exact (h entry List.mem_cons_self).2
    · exact ih fun e he => h e (List.mem_cons_of_mem _ he)

theorem Tidy.ofSequence (h : Tidy known sets) {symbols : List Symbol} (hs : symbols ⊆ known) :
    (sets.ofSequence symbols).symbols ⊆ known := by
  induction symbols with
  | nil => simp [FirstSets.ofSequence]
  | cons symbol rest ih =>
    obtain ⟨hsymbol, hrest⟩ := List.cons_subset.1 hs
    cases symbol with
    | terminal spelling => simpa [FirstSets.ofSequence] using hsymbol
    | tokenClass name => simpa [FirstSets.ofSequence] using hsymbol
    | nonterminal name =>
      intro a ha
      rcases (@holds_ofSequence_nonterminal_cons sets name rest (some a)).1 ha with
        ⟨-, ha⟩ | ⟨-, ha⟩
      · exact h.of name ha
      · exact ih hrest ha

theorem Tidy.ordered_of (h : Tidy known sets) (name : String) :
    FirstSet.Ordered (sets.of name).symbols := by
  induction sets with
  | nil => exact List.Pairwise.nil
  | cons entry sets ih =>
    rw [of_cons]
    split
    · exact (h entry List.mem_cons_self).1
    · exact ih fun e he => h e (List.mem_cons_of_mem _ he)

theorem Tidy.ordered_ofSequence (h : Tidy known sets) (symbols : List Symbol) :
    FirstSet.Ordered (sets.ofSequence symbols).symbols := by
  cases symbols with
  | nil => exact List.Pairwise.nil
  | cons symbol rest =>
    cases hs : symbol.isNonterminal with
    | false =>
      rw [ofSequence_cons_of_not_nonterminal sets hs]
      exact List.pairwise_singleton _ _
    | true =>
      obtain ⟨name, rfl⟩ : ∃ name, symbol = .nonterminal name := by
        cases symbol <;> simp_all [Symbol.isNonterminal]
      rw [ofSequence_nonterminal_cons]
      split
      · exact (h.ordered_of name).union _
      · exact h.ordered_of name

theorem Tidy.extend (h : Tidy known sets) {set : FirstSet} (hs : set.symbols ⊆ known)
    (name : String) : Tidy known (sets.extend name set) := by
  intro entry hentry
  obtain ⟨old, hold, rfl⟩ := List.mem_map.1 hentry
  obtain ⟨hordered, hknown⟩ := h old hold
  split
  · refine ⟨hordered.union _, ?_⟩
    intro a ha
    rcases FirstSet.mem_union.1 ha with ha | ha
    · exact hknown ha
    · exact hs ha
  · exact ⟨hordered, hknown⟩

theorem Tidy.pass {productions : List (String × Production)} (h : Tidy known sets)
    (hp : ∀ production ∈ productions, production.2.symbols ⊆ known) :
    Tidy known (pass productions sets) := by
  induction productions generalizing sets with
  | nil => exact h
  | cons production productions ih =>
    rw [pass_cons]
    exact ih (h.extend (h.ofSequence (hp _ List.mem_cons_self)) _)
      fun p hmem => hp p (List.mem_cons_of_mem _ hmem)

theorem Tidy.weight_le (h : Tidy known sets) :
    sets.weight ≤ sets.length * (known.length + 1) := by
  induction sets with
  | nil => simp [weight]
  | cons entry sets ih =>
    obtain ⟨hordered, hknown⟩ := h entry List.mem_cons_self
    have hentry : entry.2.weight ≤ known.length + 1 := by
      have := hordered.nodup.length_le_of_subset hknown
      have := entry.2.nullable.toNat_le
      rw [FirstSet.weight]
      omega
    have hsets := ih fun e he => h e (List.mem_cons_of_mem _ he)
    have hcons : weight (entry :: sets) = entry.2.weight + weight sets := by simp [weight]
    rw [hcons, List.length_cons, Nat.add_mul, Nat.one_mul]
    omega

theorem length_pass (productions : List (String × Production)) (sets : FirstSets) :
    (pass productions sets).length = sets.length := by
  have h := congrArg List.length (names_pass productions sets)
  simpa [names] using h

/-- With enough rounds, saturating stops at sets that a further pass leaves alone. -/
theorem exists_saturate_eq_iterate {productions : List (String × Production)} {rounds : Nat}
    (known : List Symbol) (h : Tidy known sets)
    (hp : ∀ production ∈ productions, production.2.symbols ⊆ known)
    (hr : sets.length * (known.length + 1) < sets.weight + rounds) :
    (∃ n ≤ rounds, saturate productions rounds sets = (pass productions)^[n] sets) ∧
      pass productions (saturate productions rounds sets) =
        saturate productions rounds sets := by
  induction rounds generalizing sets with
  | zero =>
    have := h.weight_le
    omega
  | succ rounds ih =>
    rw [saturate]
    split
    · next hfixed => exact ⟨⟨0, Nat.zero_le _, rfl⟩, hfixed⟩
    · next hne =>
      have hlt := (pass_eq_or_weight_lt productions sets).resolve_left hne
      obtain ⟨⟨n, hn, heq⟩, hfixed⟩ := ih (h.pass hp) (by rw [length_pass]; omega)
      exact ⟨⟨n + 1, by omega, heq⟩, hfixed⟩

end FirstSets

/-! ## The sets of a grammar -/

namespace Grammar

open FirstSets

variable (grammar : Grammar)

/-- The sets that the passes start from. -/
def initialSets : FirstSets :=
  grammar.nonterminals.map (·, .empty)

theorem sound_initialSets : Sound grammar grammar.initialSets := by
  intro name x hx
  have hof : grammar.initialSets.of name = .empty := by
    unfold initialSets
    induction grammar.nonterminals with
    | nil => rfl
    | cons other names ih =>
      rw [List.map_cons, of_cons, ih]
      exact ite_self _
  rw [hof] at hx
  cases x <;> cases hx

theorem names_initialSets : grammar.initialSets.names = grammar.nonterminals := by
  simp [initialSets, names, Function.comp_def]

theorem tidy_initialSets (known : List Symbol) : Tidy known grammar.initialSets := by
  intro entry hentry
  obtain ⟨name, -, rfl⟩ := List.mem_map.1 hentry
  exact ⟨List.Pairwise.nil, List.nil_subset _⟩

/-- The passes stop early enough, at sets that a further pass leaves alone. -/
theorem exists_firstSets_eq_iterate :
    (∃ n ≤ grammar.passes,
        grammar.firstSets = (pass grammar.productions)^[n] grammar.initialSets) ∧
      pass grammar.productions grammar.firstSets = grammar.firstSets := by
  refine exists_saturate_eq_iterate
    (grammar.productions.flatMap fun production => production.2.symbols)
    (grammar.tidy_initialSets _) ?_ ?_
  · intro production hp a ha
    exact List.mem_flatMap.2 ⟨production, hp, ha⟩
  · rw [List.length_map, nonterminals, List.length_map, passes]
    omega

/-- What holds of the initial sets and is kept by passes holds of the final ones. -/
theorem firstSets_induction {P : FirstSets → Prop} (init : P grammar.initialSets)
    (step : ∀ sets, P sets → P (pass grammar.productions sets)) : P grammar.firstSets := by
  obtain ⟨⟨n, -, hn⟩, -⟩ := grammar.exists_firstSets_eq_iterate
  rw [hn]
  exact Function.Iterate.rec P init step n

theorem sound_firstSets : Sound grammar grammar.firstSets :=
  grammar.firstSets_induction grammar.sound_initialSets fun _ h => h.pass fun _ hp => hp

theorem names_firstSets : grammar.firstSets.names = grammar.nonterminals :=
  grammar.firstSets_induction (P := fun sets => sets.names = grammar.nonterminals)
    grammar.names_initialSets fun _ h => by rwa [names_pass]

/-- The FIRST set of a sequence holds what the sequence can begin with. -/
theorem holds_ofSequence_firstSets_iff {symbols : List Symbol} {x : Option Symbol} :
    (grammar.firstSets.ofSequence symbols).Holds x ↔ grammar.Begins symbols x := by
  obtain ⟨-, hfixed⟩ := grammar.exists_firstSets_eq_iterate
  have complete {word : List Symbol} (h : grammar.Derives symbols word) :=
    holds_head?_of_yields grammar.names_firstSets hfixed (derives_iff_yields.1 h)
  refine ⟨grammar.sound_firstSets.ofSequence, ?_⟩
  cases x with
  | none => exact fun h => complete h (by simp)
  | some a =>
    rintro ⟨hs, w, hw⟩
    exact complete hw (by simpa using hs)

/-- The symbols of a FIRST set stand in order. -/
theorem ordered_ofSequence_firstSets (symbols : List Symbol) :
    FirstSet.Ordered (grammar.firstSets.ofSequence symbols).symbols := by
  let known := grammar.productions.flatMap fun production => production.2.symbols
  have htidy : Tidy known grammar.firstSets := by
    refine grammar.firstSets_induction (grammar.tidy_initialSets known) fun sets h => h.pass ?_
    intro production hp a ha
    exact List.mem_flatMap.2 ⟨production, hp, ha⟩
  exact htidy.ordered_ofSequence symbols

/-- The FIRST sets are reached by passes over the productions, a further pass adds nothing to
them, and with them the FIRST set of a sequence of symbols holds the terminals and classes that
the sequence can derive a beginning with, and tells whether it can derive the empty sequence. -/
theorem firstSets_eq_derivable_starts :
    (∃ n ≤ grammar.passes,
        grammar.firstSets = (pass grammar.productions)^[n] grammar.initialSets ∧
        pass grammar.productions grammar.firstSets = grammar.firstSets) ∧
      ∀ symbols : List Symbol,
        (∀ a, a ∈ (grammar.firstSets.ofSequence symbols).symbols ↔
          a.isNonterminal = false ∧ ∃ w, grammar.Derives symbols (a :: w)) ∧
        ((grammar.firstSets.ofSequence symbols).nullable = true ↔
          grammar.Derives symbols []) := by
  obtain ⟨⟨n, hn, heq⟩, hfixed⟩ := grammar.exists_firstSets_eq_iterate
  refine ⟨⟨n, hn, heq, hfixed⟩, ?_⟩
  intro symbols
  have sound {x : Option Symbol} :
      (grammar.firstSets.ofSequence symbols).Holds x → grammar.Begins symbols x :=
    grammar.sound_firstSets.ofSequence
  have complete {word : List Symbol} (h : grammar.Derives symbols word) :=
    holds_head?_of_yields grammar.names_firstSets hfixed (derives_iff_yields.1 h)
  refine ⟨fun a => ⟨@sound (some a), ?_⟩, @sound none, ?_⟩
  · rintro ⟨hs, w, hw⟩
    exact complete hw (by simpa using hs)
  · intro h
    exact complete h (by simp)

end Grammar

end Stencil
