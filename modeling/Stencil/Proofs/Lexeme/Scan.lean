import Mathlib.Data.List.Chain
import Mathlib.Data.List.TakeWhile
import Stencil.Lexeme

/-!
# Scanning a source

The tokens of a source without their places, and what is known of every token that was scanned.

* `scan` gives the tokens of the input that is left; `scan_of_next?` and `scan_of_next?_eq_none`
  are its steps.
* `Token.WellFormed` holds of every scanned token (`wellFormed_of_mem_scan`): a run of text holds
  no opening bracket, an identifier is not a keyword, a string lacks one of the two quotes, a symbol
  is a single sign.
* `Token.MayPrecede` holds of scanned tokens that follow one another (`isChain_scan`): after a run
  of text comes an opening bracket, and the run does not end in a brace.
-/

namespace Stencil

/-! ## Tokens without places -/

variable {initial current : Mode} {input : List Char} {piece : Piece}

theorem lexemesFrom_of_next?_eq_none
    (h : Piece.next? current (afterSkipped current input) = none) (offset : Nat) :
    lexemesFrom initial current offset input = [] := by
  rw [lexemesFrom]
  split
  · rfl
  · next h' => simp [h] at h'

theorem lexemesFrom_of_next? (h : Piece.next? current (afterSkipped current input) = some piece)
    (offset : Nat) :
    ∃ range, lexemesFrom initial current offset input = ⟨piece.token, range⟩ ::
      lexemesFrom initial (current.after initial piece.token) range.stop piece.rest := by
  rw [lexemesFrom]
  split
  · next h' => simp [h] at h'
  · next other h' =>
    obtain rfl : other = piece := Option.some.inj (h'.symm.trans h)
    exact ⟨_, rfl⟩

/-- The tokens of the input that is left, in a source that began in mode `initial`. -/
def scan (initial current : Mode) (input : List Char) : List Token :=
  (lexemesFrom initial current 0 input).map Lexeme.token

theorem tokens_eq_scan (mode : Mode) (source : String) :
    tokens mode source = scan mode mode source.toList :=
  rfl

/-- The tokens do not depend on the offset at which the input begins. -/
theorem map_token_lexemesFrom (initial current : Mode) (offset other : Nat) (input : List Char) :
    (lexemesFrom initial current offset input).map Lexeme.token =
      (lexemesFrom initial current other input).map Lexeme.token := by
  fun_induction lexemesFrom initial current offset input generalizing other with
  | case1 current offset input h => rw [lexemesFrom_of_next?_eq_none h, List.map_nil]
  | case2 current offset input piece h start stop _ _ ih =>
    obtain ⟨range, hcons⟩ := @lexemesFrom_of_next? initial _ _ _ h other
    rw [hcons, List.map_cons, List.map_cons, ih range.stop]

theorem scan_of_next?_eq_none (h : Piece.next? current (afterSkipped current input) = none) :
    scan initial current input = [] := by
  rw [scan, lexemesFrom_of_next?_eq_none h, List.map_nil]

theorem scan_of_next? (h : Piece.next? current (afterSkipped current input) = some piece) :
    scan initial current input =
      piece.token :: scan initial (current.after initial piece.token) piece.rest := by
  obtain ⟨range, hcons⟩ := @lexemesFrom_of_next? initial _ _ _ h 0
  rw [scan, hcons, List.map_cons, map_token_lexemesFrom _ _ _ 0]
  rfl

/-! ## Runs of text -/

theorem startsDirective_append {chars : List Char} (h : startsDirective chars = true)
    (rest : List Char) : startsDirective (chars ++ rest) = true := by
  unfold startsDirective at h
  split at h
  · rfl
  · rfl
  · cases h

theorem eq_cons_of_startsDirective {chars : List Char} (h : startsDirective chars = true) :
    ∃ rest, chars = '\x7b' :: rest := by
  unfold startsDirective at h
  split at h
  · exact ⟨_, rfl⟩
  · exact ⟨_, rfl⟩
  · cases h

/-- A brace makes an opening bracket of one more brace before it. -/
theorem startsDirective_cons_of_startsDirective {chars : List Char}
    (h : startsDirective chars = true) : startsDirective ('\x7b' :: chars) = true := by
  obtain ⟨rest, rfl⟩ := eq_cons_of_startsDirective h
  rfl

namespace Piece

/-- In a run of text no directive opens. -/
theorem splitText_fst (input : List Char) :
    splitText (splitText input).1 = ((splitText input).1, []) := by
  induction input with
  | nil => rfl
  | cons c rest ih =>
    rw [splitText]
    split
    · rfl
    · next h =>
      have hprefix : startsDirective (c :: (splitText rest).1) = false := by
        refine Bool.eq_false_iff.2 fun hstarts => h ?_
        have happend := startsDirective_append hstarts (splitText rest).2
        rwa [List.cons_append, splitText_append] at happend
      simp only [splitText, hprefix, ih, Bool.false_eq_true, if_false]

/-- What follows a run of text is a directive or the end of the input. -/
theorem splitText_snd (input : List Char) :
    (splitText input).2 = [] ∨ startsDirective (splitText input).2 = true := by
  induction input with
  | nil => exact .inl rfl
  | cons c rest ih =>
    rw [splitText]
    split
    · next h => exact .inr h
    · exact ih

theorem splitText_cons {c : Char} {rest : List Char} (h : startsDirective (c :: rest) = false) :
    splitText (c :: rest) = (c :: (splitText rest).1, (splitText rest).2) := by
  simp [splitText, h]

/-- The text before an opening bracket does not end in a brace: the bracket would have begun
there. -/
theorem getLast?_splitText_fst {input : List Char}
    (h : startsDirective (splitText input).2 = true) :
    (splitText input).1.getLast? ≠ some '\x7b' := by
  induction input with
  | nil => cases h
  | cons c rest ih =>
    by_cases hc : startsDirective (c :: rest) = true
    · simp [splitText, hc]
    · have hno := Bool.eq_false_iff.2 hc
      rw [splitText_cons hno] at h ⊢
      cases hrest : (splitText rest).1 with
      | nil =>
        have happend := splitText_append rest
        rw [hrest, List.nil_append] at happend
        rw [happend] at h
        intro hlast
        obtain rfl : c = '\x7b' := by simpa using hlast
        exact hc (startsDirective_cons_of_startsDirective h)
      | cons d more =>
        rw [hrest] at ih
        rw [List.getLast?_cons_cons]
        exact ih h

/-- In text mode the next token is an opening bracket if there is one, and otherwise the text up
to the next one. -/
theorem ofText?_cons (c : Char) (rest : List Char) :
    ∃ piece, ofText? (c :: rest) = some piece ∧
      if startsDirective (c :: rest) then piece.token.opens = true
      else piece = ⟨.text (String.ofList (splitText (c :: rest)).1), (splitText (c :: rest)).1,
        (splitText (c :: rest)).2⟩ := by
  unfold ofText?
  split
  · next h => cases h
  · next h =>
    obtain ⟨rfl, rfl⟩ := List.cons.inj h
    exact ⟨_, rfl, rfl⟩
  · next h =>
    obtain ⟨rfl, rfl⟩ := List.cons.inj h
    exact ⟨_, rfl, rfl⟩
  · next c rest h₁ h₂ h =>
    obtain ⟨rfl, rfl⟩ := List.cons.inj h
    have hno : startsDirective (c :: rest) = false := by
      unfold startsDirective
      split <;> simp_all
    refine ⟨_, rfl, ?_⟩
    rw [hno, splitText_cons hno]
    rfl

end Piece

/-! ## What is known of a scanned token -/

/-- The characters of an identifier. -/
def IsIdentifier : List Char → Prop
  | [] => False
  | c :: rest => startsIdentifier c = true ∧ ∀ d ∈ rest, continuesIdentifier d = true

instance : (chars : List Char) → Decidable (IsIdentifier chars)
  | [] => isFalse id
  | _ :: rest =>
    have : Decidable (∀ d ∈ rest, continuesIdentifier d = true) := List.decidableBAll _ rest
    inferInstanceAs (Decidable (_ ∧ _))

/-- The characters of an integer. -/
def IsInteger (chars : List Char) : Prop :=
  chars ≠ [] ∧ ∀ d ∈ chars, d.isDigit = true

instance (chars : List Char) : Decidable (IsInteger chars) :=
  have : Decidable (∀ d ∈ chars, d.isDigit = true) := List.decidableBAll _ chars
  inferInstanceAs (Decidable (_ ∧ _))

/-- A token with a content that can be scanned. -/
def Token.WellFormed : Token → Prop
  | .text content => content ≠ "" ∧ Piece.splitText content.toList = (content.toList, [])
  | .identifier name => IsIdentifier name.toList ∧ Keyword.ofSpelling? name = none
  | .string value => '"' ∉ value.toList ∨ '\'' ∉ value.toList
  | .integer digits => IsInteger digits.toList
  | .symbol sign => ∃ c ∈ signs, sign = String.ofList [c]
  | _ => True

theorem Piece.wellFormed_word {chars : List Char} (h : IsIdentifier chars) :
    (word chars).WellFormed ∧ (word chars).isText = false := by
  unfold word
  split
  · exact ⟨trivial, rfl⟩
  · next hk => exact ⟨⟨by rwa [String.toList_ofList], hk⟩, rfl⟩

theorem Piece.wellFormed_quoted {quote : Char} (hq : quote = '"' ∨ quote = '\'')
    (chars : List Char) :
    (quoted quote chars).token.WellFormed ∧ (quoted quote chars).token.isText = false := by
  unfold quoted
  split
  · exact ⟨trivial, rfl⟩
  · have hnot : quote ∉ chars.takeWhile (· != quote) := by
      intro hmem
      have := List.mem_takeWhile_imp hmem
      simp at this
    refine ⟨?_, rfl⟩
    rcases hq with rfl | rfl
    · exact .inl (by simpa using hnot)
    · exact .inr (by simpa using hnot)

theorem Piece.wellFormed_of_ofText? (h : ofText? input = some piece) : piece.token.WellFormed := by
  cases input with
  | nil => cases h
  | cons c rest =>
    obtain ⟨piece', h', hpiece⟩ := ofText?_cons c rest
    obtain rfl : piece' = piece := Option.some.inj (h'.symm.trans h)
    split at hpiece
    · cases ht : piece'.token <;> simp_all [Token.opens, Token.WellFormed]
    · next hno =>
      subst hpiece
      refine ⟨?_, ?_⟩
      · simp [splitText_cons (Bool.eq_false_iff.2 hno)]
      · simp only [String.toList_ofList]
        exact splitText_fst (c :: rest)

/-- In code mode a token that can be written is scanned, and no text. -/
theorem Piece.wellFormed_of_ofCode? (h : ofCode? input = some piece) :
    piece.token.WellFormed ∧ piece.token.isText = false := by
  unfold ofCode? at h
  split at h
  · cases h
  iterate 4
    · cases h
      exact ⟨trivial, rfl⟩
  · next c rest _ _ _ _ =>
    simp only at h
    split at h
    · next hc =>
      obtain rfl := Option.some.inj h
      refine wellFormed_word ⟨hc, ?_⟩
      exact fun d hd => List.mem_takeWhile_imp hd
    split at h
    · next hc =>
      obtain rfl := Option.some.inj h
      refine ⟨⟨by simp, ?_⟩, rfl⟩
      simp only [String.toList_ofList, List.mem_cons, forall_eq_or_imp]
      exact ⟨hc, fun d hd => List.mem_takeWhile_imp hd⟩
    split at h
    · next hc =>
      obtain rfl := Option.some.inj h
      exact wellFormed_quoted (by simpa using hc) rest
    iterate 3
      split at h
      · obtain rfl := Option.some.inj h
        exact ⟨trivial, rfl⟩
    split at h
    · next hc =>
      obtain rfl := Option.some.inj h
      exact ⟨⟨c, List.contains_iff_mem.1 hc, rfl⟩, rfl⟩
    · obtain rfl := Option.some.inj h
      exact ⟨trivial, rfl⟩

theorem Piece.wellFormed_of_next? (h : next? current input = some piece) :
    piece.token.WellFormed := by
  cases current with
  | text => exact wellFormed_of_ofText? h
  | code => exact (wellFormed_of_ofCode? h).1

/-! ## What is known of all scanned tokens -/

/-- What holds when no token is left, and of a token and those after it if it holds of these, holds
of all that is scanned. -/
theorem scan_induction {P : Mode → List Char → List Token → Prop}
    (nil : ∀ current input, Piece.next? current (afterSkipped current input) = none →
      P current input [])
    (cons : ∀ current input piece, Piece.next? current (afterSkipped current input) = some piece →
      P (current.after initial piece.token) piece.rest
        (scan initial (current.after initial piece.token) piece.rest) →
      P current input
        (piece.token :: scan initial (current.after initial piece.token) piece.rest))
    (current : Mode) (input : List Char) : P current input (scan initial current input) := by
  generalize 0 = offset
  induction current, offset, input using lexemesFrom.induct initial with
  | case1 current offset input h =>
    rw [scan_of_next?_eq_none h]
    exact nil current input h
  | case2 current offset input piece h _ _ _ _ ih =>
    rw [scan_of_next? h]
    exact cons current input piece h ih

theorem wellFormed_of_mem_scan {token : Token} (h : token ∈ scan initial current input) :
    token.WellFormed := by
  refine scan_induction (P := fun _ _ ts => ∀ t ∈ ts, t.WellFormed) ?_ ?_ current input token h
  · simp
  · intro current input piece hpiece ih t ht
    rcases List.mem_cons.1 ht with rfl | ht
    · exact Piece.wellFormed_of_next? hpiece
    · exact ih t ht

/-- A source that begins in code mode holds no raw text. -/
theorem isText_eq_false_of_mem_scan {token : Token} (h : token ∈ scan .code .code input) :
    token.isText = false := by
  refine scan_induction (P := fun current _ ts => current = .code → ∀ t ∈ ts, t.isText = false)
    ?_ ?_ .code input rfl token h
  · simp
  · rintro current input piece hpiece ih rfl t ht
    have hafter : Mode.after .code .code piece.token = .code := by simp [Mode.after]
    rcases List.mem_cons.1 ht with rfl | ht
    · exact (Piece.wellFormed_of_ofCode? hpiece).2
    · exact ih hafter t ht

/-- Which token can follow a token: after a run of text only an opening bracket, and then the run
does not end in a brace. -/
def Token.MayPrecede : Token → Token → Prop
  | .text content, next => next.opens = true ∧ content.toList.getLast? ≠ some '\x7b'
  | _, _ => True

theorem Token.mayPrecede_of_isText_eq_false {token : Token} (h : token.isText = false)
    (next : Token) : token.MayPrecede next := by
  cases token with
  | text content => cases h
  | _ => trivial

theorem mayPrecede_of_ofText? (h : Piece.ofText? input = some piece) {next : Token}
    {others : List Token} (hs : scan initial (Mode.after .text initial piece.token) piece.rest =
      next :: others) : piece.token.MayPrecede next := by
  cases input with
  | nil => cases h
  | cons c rest =>
    obtain ⟨piece', h', hpiece⟩ := Piece.ofText?_cons c rest
    obtain rfl : piece' = piece := Option.some.inj (h'.symm.trans h)
    split at hpiece
    · cases ht : piece'.token <;> simp_all [Token.opens, Token.MayPrecede]
    · subst hpiece
      have hafter : Mode.after .text initial
          (.text (String.ofList (Piece.splitText (c :: rest)).1)) = .text := rfl
      simp only [hafter] at hs
      rcases Piece.splitText_snd (c :: rest) with hnil | hstarts
      · rw [hnil, scan_of_next?_eq_none rfl] at hs
        cases hs
      · -- the next token is the bracket that ends the text
        obtain ⟨more, hmore⟩ := eq_cons_of_startsDirective hstarts
        obtain ⟨opening, hopening, hopens⟩ := Piece.ofText?_cons '\x7b' more
        rw [← hmore] at hopening hopens
        rw [if_pos hstarts] at hopens
        rw [@scan_of_next? initial .text _ _ hopening] at hs
        obtain ⟨rfl, -⟩ := List.cons.inj hs
        refine ⟨hopens, ?_⟩
        rw [String.toList_ofList]
        exact Piece.getLast?_splitText_fst hstarts

theorem isChain_scan (initial current : Mode) (input : List Char) :
    (scan initial current input).IsChain Token.MayPrecede := by
  refine scan_induction (P := fun _ _ ts => ts.IsChain Token.MayPrecede) ?_ ?_ current input
  · exact fun _ _ _ => .nil
  · intro current input piece hpiece ih
    cases hs : scan initial (current.after initial piece.token) piece.rest with
    | nil => exact .singleton _
    | cons next others =>
      rw [hs] at ih
      refine .cons_cons ?_ ih
      cases current with
      | text => exact mayPrecede_of_ofText? hpiece hs
      | code =>
        exact Token.mayPrecede_of_isText_eq_false (Piece.wellFormed_of_ofCode? hpiece).2 next

end Stencil
