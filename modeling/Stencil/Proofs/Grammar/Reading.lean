import Stencil.Proofs.Grammar.Meaning
import Stencil.Proofs.Lexeme.Spelling

/-!
# Tokens read as symbols

A token is read as the terminal of its spelling, or as its class (`Token.ReadAs`). A host language
may read more tokens as terminals, as long as no two tokens are read as the same one; this is what
`IsReading` asks for. Under such a reading the token of a terminal is known, so a meaning is closed
under a production exactly if it is closed under putting tokens around and between its parts.

* `isReading_readScanned`: names and signs can be read as terminals, in code that was scanned.
* `forall_sequence_nonterminal_iff`, `IsReading.forall_terminal_iff` and the lemmas beside them
  spell out closure under a production, symbol by symbol.
-/

namespace Stencil

/-- The symbol that a token is read as: the terminal of its spelling, or its class. Symbols of
host code and invalid input are read as nothing. -/
def Token.symbol? : Token → Option Symbol
  | .text _ => some (.tokenClass "text")
  | .openExpression => some (.terminal "\x7b\x7b")
  | .closeExpression => some (.terminal "\x7d\x7d")
  | .openStatement => some (.terminal "\x7b%")
  | .closeStatement => some (.terminal "%\x7d")
  | .keyword word => some (.terminal word.spelling)
  | .identifier _ => some (.tokenClass "identifier")
  | .string _ => some (.tokenClass "string")
  | .integer _ => some (.tokenClass "integer")
  | .openParen => some (.terminal "(")
  | .closeParen => some (.terminal ")")
  | .comma => some (.terminal ",")
  | .symbol _ => none
  | .invalid _ => none

/-- A token is read as a symbol. -/
def Token.ReadAs (token : Token) (symbol : Symbol) : Prop :=
  token.symbol? = some symbol

theorem Token.not_readAs_nonterminal (token : Token) (name : String) :
    ¬ token.ReadAs (.nonterminal name) := by
  cases token <;> simp [ReadAs, symbol?]

/-- A token with a fixed spelling is what its spelling is scanned as. -/
theorem Token.ReadAs.scan_eq {t : Token} {spelling : String}
    (h : t.ReadAs (.terminal spelling)) : scan .code .code spelling.toList = [t] := by
  cases t with
  | keyword word =>
    obtain rfl : word.spelling = spelling := by simpa [ReadAs, symbol?] using h
    simpa using @scan_keyword .code [] word trivial
  | openExpression | closeExpression | openStatement | closeStatement | openParen | closeParen
    | comma =>
    obtain rfl := Symbol.terminal.inj (Option.some.inj h)
    simp
  | _ => cases h

theorem Token.readAs_text_iff {token : Token} :
    token.ReadAs (.tokenClass "text") ↔ ∃ content, token = .text content := by
  cases token <;> simp [ReadAs, symbol?]

theorem Token.readAs_identifier_iff {token : Token} :
    token.ReadAs (.tokenClass "identifier") ↔ ∃ name, token = .identifier name := by
  cases token <;> simp [ReadAs, symbol?]

theorem Token.readAs_string_iff {token : Token} :
    token.ReadAs (.tokenClass "string") ↔ ∃ value, token = .string value := by
  cases token <;> simp [ReadAs, symbol?]

theorem Token.readAs_integer_iff {token : Token} :
    token.ReadAs (.tokenClass "integer") ↔ ∃ digits, token = .integer digits := by
  cases token <;> simp [ReadAs, symbol?]

/-! ## Readings -/

/-- A way of reading tokens as symbols. Classes are read as by `Token.ReadAs` and terminals at
least so, and only one token is read as a terminal. -/
structure IsReading (reads : Token → Symbol → Prop) : Prop where
  of_readAs : ∀ {t s}, t.ReadAs s → reads t s
  tokenClass : ∀ {t name}, reads t (.tokenClass name) → t.ReadAs (.tokenClass name)
  not_nonterminal : ∀ t name, ¬ reads t (.nonterminal name)
  eq_of_terminal : ∀ {t u spelling}, reads t (.terminal spelling) → reads u (.terminal spelling) →
    t = u

theorem isReading_readAs : IsReading Token.ReadAs where
  of_readAs h := h
  tokenClass h := h
  not_nonterminal := Token.not_readAs_nonterminal
  eq_of_terminal ht hu := List.singleton_inj.1 (ht.scan_eq.symm.trans hu.scan_eq)

/-- How a token of code is read as a symbol: as by `Token.ReadAs`, and a name or a sign also as
the terminal that is spelled like it. So a host can have words of its own that are no keywords of
directives, and they can still be names. -/
inductive Token.ReadInCode : Token → Symbol → Prop where
  | readAs {token : Token} {symbol : Symbol} (h : token.ReadAs symbol) : token.ReadInCode symbol
  | identifier (name : String) : ReadInCode (.identifier name) (.terminal name)
  | symbol (sign : String) : ReadInCode (.symbol sign) (.terminal sign)

/-- A token that is read as a terminal is what the spelling of the terminal is scanned as. -/
theorem Token.ReadInCode.scan_eq {t : Token} {spelling : String}
    (h : t.ReadInCode (.terminal spelling)) (hw : t.WellFormed) :
    scan .code .code spelling.toList = [t] := by
  cases h with
  | readAs h => exact h.scan_eq
  | identifier => simpa using @scan_identifier .code [] spelling hw trivial
  | symbol =>
    obtain ⟨c, hc, rfl⟩ := hw
    have hsign : startsBracket [c] = false := by simp [startsBracket]
    simpa using scan_sign hc hsign

/-- How a token that was scanned is read in code. Tokens with a content that cannot be scanned,
such as a sign that is spelled like a keyword, are read as their class at most. -/
def Token.ReadScanned (token : Token) (symbol : Symbol) : Prop :=
  token.ReadAs symbol ∨ token.WellFormed ∧ token.ReadInCode symbol

theorem Token.ReadScanned.scan_eq {t : Token} {spelling : String}
    (h : t.ReadScanned (.terminal spelling)) : scan .code .code spelling.toList = [t] :=
  h.elim ReadAs.scan_eq fun ⟨hw, h⟩ => h.scan_eq hw

theorem isReading_readScanned : IsReading Token.ReadScanned where
  of_readAs := .inl
  tokenClass := by
    rintro t name (h | ⟨-, ⟨h⟩⟩)
    · exact h
    · exact h
  not_nonterminal := by
    rintro t name (h | ⟨-, ⟨h⟩⟩)
    · exact t.not_readAs_nonterminal name h
    · exact t.not_readAs_nonterminal name h
  eq_of_terminal ht hu := List.singleton_inj.1 (ht.scan_eq.symm.trans hu.scan_eq)

theorem Token.readScanned_iff {t : Token} {s : Symbol} (hw : t.WellFormed) :
    t.ReadScanned s ↔ t.ReadInCode s := by
  constructor
  · rintro (h | ⟨-, h⟩)
    · exact .readAs h
    · exact h
  · exact fun h => .inr ⟨hw, h⟩

/-- Of scanned tokens, a grammar covers the same under both readings. -/
theorem Grammar.covers_readScanned_iff {grammar : Grammar} {symbols : List Symbol}
    {ts : List Token} (hw : ∀ t ∈ ts, t.WellFormed) :
    grammar.Covers Token.ReadScanned symbols ts ↔ grammar.Covers Token.ReadInCode symbols ts := by
  have hwell : ∀ (reads : Token → Symbol → Prop) (word : List Symbol),
      List.Forall₂ reads ts word ↔ List.Forall₂ (fun t s => t.WellFormed ∧ reads t s) ts word :=
    fun reads word => by rw [List.forall₂_and_left, and_iff_right hw]
  have hsame : (fun t s => t.WellFormed ∧ t.ReadScanned s) =
      fun t s => t.WellFormed ∧ Token.ReadInCode t s :=
    funext₂ fun t s => propext (and_congr_right Token.readScanned_iff)
  unfold Covers
  simp only [hwell Token.ReadScanned, hwell Token.ReadInCode, hsame]

/-! ## Closure under a production

A statement about all token lists of a sequence of symbols, one symbol at a time. -/

section Closure

open Meaning

variable {reads : Token → Symbol → Prop} {m : Meaning} {symbols : List Symbol}
  {P : List Token → Prop}

theorem forall_sequence_nil_iff : (∀ ts, m.sequence reads [] ts → P ts) ↔ P [] :=
  forall_eq

theorem forall_sequence_nonterminal_iff {name : String} :
    (∀ ts, m.sequence reads (.nonterminal name :: symbols) ts → P ts) ↔
      ∀ us, m name us → ∀ ts, m.sequence reads symbols ts → P (us ++ ts) := by
  constructor
  · intro h us hu ts hts
    exact h _ (sequence_nonterminal hu hts)
  · rintro h _ ⟨us, ts, rfl, hu, hts⟩
    exact h us hu ts hts

namespace IsReading

variable (hr : IsReading reads)

include hr

/-- The token of a terminal is known. -/
theorem forall_terminal_iff {t : Token} {spelling : String} (ht : reads t (.terminal spelling)) :
    (∀ ts, m.sequence reads (.terminal spelling :: symbols) ts → P ts) ↔
      ∀ ts, m.sequence reads symbols ts → P (t :: ts) := by
  constructor
  · intro h ts hts
    exact h _ (sequence_terminal ht hts)
  · rintro h _ ⟨_, ts, rfl, ⟨u, rfl, hu⟩, hts⟩
    rw [hr.eq_of_terminal hu ht]
    exact h ts hts

theorem forall_class_iff {name : String} :
    (∀ ts, m.sequence reads (.tokenClass name :: symbols) ts → P ts) ↔
      ∀ t, t.ReadAs (.tokenClass name) → ∀ ts, m.sequence reads symbols ts → P (t :: ts) := by
  constructor
  · intro h t ht ts hts
    exact h _ (sequence_tokenClass (hr.of_readAs ht) hts)
  · rintro h _ ⟨_, ts, rfl, ⟨t, rfl, ht⟩, hts⟩
    exact h t (hr.tokenClass ht) ts hts

theorem forall_text_iff :
    (∀ ts, m.sequence reads (.tokenClass "text" :: symbols) ts → P ts) ↔
      ∀ content ts, m.sequence reads symbols ts → P (.text content :: ts) := by
  simp only [hr.forall_class_iff, Token.readAs_text_iff, forall_exists_index,
    forall_eq_apply_imp_iff]

theorem forall_identifier_iff :
    (∀ ts, m.sequence reads (.tokenClass "identifier" :: symbols) ts → P ts) ↔
      ∀ name ts, m.sequence reads symbols ts → P (.identifier name :: ts) := by
  simp only [hr.forall_class_iff, Token.readAs_identifier_iff, forall_exists_index,
    forall_eq_apply_imp_iff]

theorem forall_string_iff :
    (∀ ts, m.sequence reads (.tokenClass "string" :: symbols) ts → P ts) ↔
      ∀ value ts, m.sequence reads symbols ts → P (.string value :: ts) := by
  simp only [hr.forall_class_iff, Token.readAs_string_iff, forall_exists_index,
    forall_eq_apply_imp_iff]

theorem forall_integer_iff :
    (∀ ts, m.sequence reads (.tokenClass "integer" :: symbols) ts → P ts) ↔
      ∀ digits ts, m.sequence reads symbols ts → P (.integer digits :: ts) := by
  simp only [hr.forall_class_iff, Token.readAs_integer_iff, forall_exists_index,
    forall_eq_apply_imp_iff]

end IsReading

end Closure

/-- A model of a grammar is closed under each of the productions that the grammar is made of. -/
theorem isModel_ofRules_iff {reads : Token → Symbol → Prop} {m : Meaning}
    {rules : List (String × List Production)} :
    m.IsModel reads (.ofRules rules) ↔
      ∀ rule ∈ rules, ∀ production ∈ rule.2, ∀ ts,
        m.sequence reads production.symbols ts → m rule.1 ts := by
  constructor
  · intro h rule hrule production hp
    exact h _ _ (Grammar.mem_productions_ofRules.2 ⟨rule, hrule, rfl, hp⟩)
  · intro h name production hmem
    obtain ⟨rule, hrule, rfl, hp⟩ := Grammar.mem_productions_ofRules.1 hmem
    exact h rule hrule production hp

theorem isModel_ofRules_append_iff {reads : Token → Symbol → Prop} {m : Meaning}
    {rules others : List (String × List Production)} :
    m.IsModel reads (.ofRules (rules ++ others)) ↔
      m.IsModel reads (.ofRules rules) ∧ m.IsModel reads (.ofRules others) := by
  simp only [isModel_ofRules_iff, List.forall_mem_append]

end Stencil
