import Stencil.Proofs.Lexeme.Spelling

/-!
# The rules by which tokens are cut off

For each kind of token there is a rule that says which characters it takes and where it ends. The
rules are given as a relation, apart from the function that cuts tokens off, and the two are shown
to agree. What depends on how tokens are read can then be settled rule by rule.

* `Token.IsCut` are the rules.
* `Piece.next?_eq_some_iff`: the next piece of the input is the one that a rule allows, and by
  `Piece.next?_eq_none_iff` there is always one.
-/

namespace Stencil

/-- Whether a character can begin a token of code. -/
def startsToken (c : Char) : Bool :=
  startsIdentifier c || c.isDigit || ['"', '\'', '(', ')', ','].contains c || signs.contains c

/-- In a mode, a token is cut off from the characters it takes and what follows them. -/
inductive Token.IsCut : Mode → Token → List Char → List Char → Prop where
  | openExpression (mode : Mode) (rest : List Char) :
    IsCut mode .openExpression ['\x7b', '\x7b'] rest
  | openStatement (mode : Mode) (rest : List Char) :
    IsCut mode .openStatement ['\x7b', '%'] rest
  | closeExpression (rest : List Char) : IsCut .code .closeExpression ['\x7d', '\x7d'] rest
  | closeStatement (rest : List Char) : IsCut .code .closeStatement ['%', '\x7d'] rest
  /-- A run of text goes on to the next directive. -/
  | text {chars rest : List Char} (hne : chars ≠ [])
    (h : Piece.splitText chars = (chars, [])) (hr : EndsText chars rest) :
    IsCut .text (.text (String.ofList chars)) chars rest
  /-- A word takes all characters that can continue it. -/
  | word {chars rest : List Char} (h : IsIdentifier chars) (hr : EndsWord rest) :
    IsCut .code (Piece.word chars) chars rest
  /-- A number takes all digits; a letter may follow. -/
  | integer {chars rest : List Char} (h : IsInteger chars)
    (hr : ∀ d ∈ rest.head?, d.isDigit = false) :
    IsCut .code (.integer (String.ofList chars)) chars rest
  /-- A string ends at the first quote like the one it began with. -/
  | string {quote : Char} {chars : List Char} (hq : quote = '"' ∨ quote = '\'')
    (h : quote ∉ chars) (rest : List Char) :
    IsCut .code (.string (String.ofList chars)) (quote :: chars ++ [quote]) rest
  | openParen (rest : List Char) : IsCut .code .openParen ['('] rest
  | closeParen (rest : List Char) : IsCut .code .closeParen [')'] rest
  | comma (rest : List Char) : IsCut .code .comma [','] rest
  /-- A sign stands for itself, unless it begins a bracket. -/
  | symbol {c : Char} {rest : List Char} (hc : c ∈ signs)
    (hr : startsBracket (c :: rest) = false) :
    IsCut .code (.symbol (String.ofList [c])) [c] rest
  /-- Without its closing quote, a string is invalid up to the end of the input. -/
  | unclosed {quote : Char} {chars : List Char} (hq : quote = '"' ∨ quote = '\'')
    (h : quote ∉ chars) :
    IsCut .code (.invalid (String.ofList (quote :: chars))) (quote :: chars) []
  | stray {c : Char} (hc : startsToken c = false) (rest : List Char) :
    IsCut .code (.invalid (String.ofList [c])) [c] rest

namespace Piece

variable {mode : Mode} {input : List Char} {piece : Piece}

/-! ## What is cut off follows the rules -/

theorem isCut_of_ofText? (h : ofText? input = some piece) :
    piece.token.IsCut .text piece.taken piece.rest := by
  unfold ofText? at h
  split at h
  · cases h
  · cases h
    exact .openExpression _ _
  · cases h
    exact .openStatement _ _
  · next c rest h₁ h₂ =>
    have hno : startsDirective (c :: rest) = false := by
      unfold startsDirective
      split <;> simp_all
    have hsplit := splitText_cons hno
    obtain rfl := Option.some.inj h
    refine .text (List.cons_ne_nil _ _) ?_ ?_
    · have hrun := splitText_fst (c :: rest)
      rwa [hsplit] at hrun
    · have hends := splitText_snd (c :: rest)
      have hlast := @getLast?_splitText_fst (c :: rest)
      rw [hsplit] at hends hlast
      exact hends.imp_right fun hstarts => ⟨hstarts, hlast hstarts⟩

theorem isCut_quoted {quote : Char} (hq : quote = '"' ∨ quote = '\'') (chars : List Char) :
    (quoted quote chars).token.IsCut .code (quoted quote chars).taken
      (quoted quote chars).rest := by
  unfold quoted
  split
  · next hnil =>
    refine .unclosed hq fun hmem => ?_
    have := List.dropWhile_eq_nil_iff.1 hnil quote hmem
    simp at this
  · refine .string hq (fun hmem => ?_) _
    have := List.mem_takeWhile_imp hmem
    simp at this

/-- What is left of the input after a class of characters begins with none of it. -/
theorem head?_dropWhile_eq_false (p : Char → Bool) (chars : List Char) :
    ∀ d ∈ (chars.dropWhile p).head?, p d = false := by
  intro d hd
  have h := List.head?_dropWhile_not p chars
  rwa [hd] at h

theorem endsWord_dropWhile (chars : List Char) :
    EndsWord (chars.dropWhile continuesIdentifier) := by
  have h := head?_dropWhile_eq_false continuesIdentifier chars
  cases hrest : chars.dropWhile continuesIdentifier with
  | nil => trivial
  | cons d rest =>
    rw [hrest] at h
    exact h d rfl

theorem isCut_of_ofCode? (h : ofCode? input = some piece) :
    piece.token.IsCut .code piece.taken piece.rest := by
  unfold ofCode? at h
  split at h
  · cases h
  · cases h
    exact .openExpression _ _
  · cases h
    exact .closeExpression _
  · cases h
    exact .openStatement _ _
  · cases h
    exact .closeStatement _
  · next c rest h₁ h₂ h₃ h₄ =>
    simp only at h
    split at h
    · next hc =>
      obtain rfl := Option.some.inj h
      exact .word ⟨hc, fun d hd => List.mem_takeWhile_imp hd⟩ (endsWord_dropWhile rest)
    split at h
    · next hc =>
      obtain rfl := Option.some.inj h
      refine .integer ⟨List.cons_ne_nil _ _, ?_⟩ (head?_dropWhile_eq_false _ rest)
      exact List.forall_mem_cons.2 ⟨hc, fun d hd => List.mem_takeWhile_imp hd⟩
    split at h
    · next hc =>
      obtain rfl := Option.some.inj h
      exact isCut_quoted (by simpa using hc) rest
    split at h
    · next hc =>
      obtain rfl := Option.some.inj h
      exact hc ▸ .openParen rest
    split at h
    · next hc =>
      obtain rfl := Option.some.inj h
      exact hc ▸ .closeParen rest
    split at h
    · next hc =>
      obtain rfl := Option.some.inj h
      exact hc ▸ .comma rest
    split at h
    · next hc =>
      obtain rfl := Option.some.inj h
      refine .symbol (List.contains_iff_mem.1 hc) ?_
      unfold startsBracket
      split <;> simp_all
    · obtain rfl := Option.some.inj h
      refine .stray ?_ rest
      simp_all [startsToken]

/-! ## What the rules allow is cut off -/

theorem ofText?_append_of_isCut {token : Token} {taken rest : List Char}
    (h : token.IsCut .text taken rest) : ofText? (taken ++ rest) = some ⟨token, taken, rest⟩ := by
  cases h with
  | openExpression => rfl
  | openStatement => rfl
  | text hne hrun hr => exact ofText?_run hne hrun hr

theorem ofCode?_stray {c : Char} (hc : startsToken c = false) (rest : List Char) :
    ofCode? (c :: rest) = some ⟨.invalid (String.ofList [c]), [c], rest⟩ := by
  unfold ofCode?
  split
  · next h => cases h
  -- every bracket begins with a sign
  iterate 4
    · next h =>
      obtain ⟨rfl, -⟩ := List.cons.inj h
      exact absurd hc (by decide)
  · next h =>
    obtain ⟨rfl, rfl⟩ := List.cons.inj h
    simp_all [startsToken]

theorem ofCode?_append_of_isCut {token : Token} {taken rest : List Char}
    (h : token.IsCut .code taken rest) : ofCode? (taken ++ rest) = some ⟨token, taken, rest⟩ := by
  cases h with
  | word h hr =>
    cases taken with
    | nil => cases h
    | cons c chars => exact ofCode?_word h.1 h.2 hr
  | integer h hr =>
    cases taken with
    | nil => exact absurd rfl h.1
    | cons c chars =>
      obtain ⟨hc, hchars⟩ := List.forall_mem_cons.1 h.2
      exact ofCode?_integer hc hchars hr
  | string hq h =>
    rw [List.cons_append, List.cons_append, List.append_assoc, List.singleton_append,
      ofCode?_quote hq, quoted_append h]
    rfl
  | symbol hc hr => exact ofCode?_sign hc hr
  | @unclosed quote chars hq h =>
    have hnil : chars.dropWhile (· != quote) = [] :=
      List.dropWhile_eq_nil_iff.2 fun d hd => bne_iff_ne.2 fun heq => h (heq ▸ hd)
    rw [List.append_nil, ofCode?_quote hq, quoted, hnil]
  | stray hc => exact ofCode?_stray hc rest
  | _ => rfl

/-- The next piece of the input is the one that is cut off by the rules, and there is no other. -/
theorem next?_eq_some_iff :
    next? mode input = some piece ↔
      piece.token.IsCut mode piece.taken piece.rest ∧ piece.taken ++ piece.rest = input := by
  constructor
  · intro h
    refine ⟨?_, taken_append_rest h⟩
    cases mode with
    | text => exact isCut_of_ofText? h
    | code => exact isCut_of_ofCode? h
  · rintro ⟨h, rfl⟩
    cases mode with
    | text => exact ofText?_append_of_isCut h
    | code => exact ofCode?_append_of_isCut h

theorem eq_nil_of_ofCode?_eq_none (h : ofCode? input = none) : input = [] := by
  unfold ofCode? at h
  split at h
  · rfl
  iterate 4
    · cases h
  · simp only at h
    repeat' split at h
    all_goals cases h

/-- As long as there is input, there is a next piece. -/
theorem next?_eq_none_iff : next? mode input = none ↔ input = [] := by
  constructor
  · intro h
    cases mode with
    | text =>
      cases input with
      | nil => rfl
      | cons c rest =>
        obtain ⟨piece, hpiece, -⟩ := ofText?_cons c rest
        cases hpiece.symm.trans h
    | code => exact eq_nil_of_ofCode?_eq_none h
  · rintro rfl
    cases mode <;> rfl

end Piece

/-- Text is cut off in text mode only, up to where it ends. -/
theorem Token.IsCut.of_text {mode : Mode} {content : String} {taken rest : List Char}
    (h : (Token.text content).IsCut mode taken rest) :
    mode = .text ∧ taken = content.toList ∧ (Token.text content).WellFormed ∧
      EndsText content.toList rest := by
  generalize ht : Token.text content = token at h
  cases h with
  | text hne hrun hr =>
    obtain rfl := Token.text.inj ht
    rw [WellFormed, String.toList_ofList]
    exact ⟨rfl, rfl, ⟨by simpa using hne, hrun⟩, hr⟩
  | word =>
    unfold Piece.word at ht
    split at ht <;> cases ht
  | _ => cases ht

end Stencil
