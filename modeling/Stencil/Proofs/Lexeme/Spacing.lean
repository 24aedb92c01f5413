import Stencil.Proofs.Lexeme.Lossless
import Stencil.Proofs.Lexeme.Seams

/-!
# Tokens of code and the white space between them

Code is read alike however it is spaced. Whatever the tokens are, if they are written one after the
other with some white space between any two of them, they are read back: white space ends words and
numbers, keeps the halves of a bracket apart, and is no part of a token unless it stands in a
string.

* `Token.IsCode` are the tokens of code, and `Token.isCode_iff` says which tokens these are.
* `Token.IsSpelled.isCut` is one step: before white space or the end, a token is cut off from its
  spelling.
* `tokens_written` is the whole run, over `Word`s, which are spelled tokens with the white space
  behind them.
-/

namespace Stencil

variable {initial : Mode} {token : Token} {spelling : String} {taken rest : List Char}

/-! ## White space ends every token -/

/-- All characters are white space. -/
def IsBlank (text : String) : Prop :=
  ∀ c ∈ text.toList, Text.isWhite c = true

instance (text : String) : Decidable (IsBlank text) :=
  List.decidableBAll _ _

/-- Input that is at its end or goes on with white space. -/
def StartsBlank (rest : List Char) : Prop :=
  ∀ c ∈ rest.head?, Text.isWhite c = true

theorem startsBlank_of_isBlank {gap : String} (h : IsBlank gap)
    (hrest : gap = "" → rest = []) : StartsBlank (gap.toList ++ rest) := by
  intro c hc
  cases hgap : gap.toList with
  | nil =>
    rw [hgap, hrest (String.toList_eq_nil_iff.1 hgap)] at hc
    cases hc
  | cons d others =>
    rw [hgap] at hc
    obtain rfl : d = c := Option.some.inj hc
    exact h d (by rw [hgap]; exact List.mem_cons_self)

/-- No token begins with white space. -/
theorem isWhite_eq_false_of_startsToken {c : Char} (h : startsToken c = true) :
    Text.isWhite c = false := by
  simp only [startsToken, Bool.or_eq_true, List.contains_iff_mem] at h
  rcases h with ((h | h) | h) | h
  · exact isWhite_eq_false_of_startsIdentifier h
  · exact isWhite_eq_false_of_isDigit h
  · have hnone : (['"', '\'', '(', ')', ','].all fun c => !Text.isWhite c) = true := by decide
    simpa using List.all_eq_true.1 hnone c h
  · exact (class_of_mem_signs h).1

/-- White space begins no token, and so it goes on with none. -/
theorem StartsBlank.startsToken_eq_false (h : StartsBlank rest) :
    ∀ c ∈ rest.head?, startsToken c = false := by
  intro c hc
  refine Bool.eq_false_iff.2 fun hstarts => ?_
  have hwhite := h c hc
  simp [isWhite_eq_false_of_startsToken hstarts] at hwhite

theorem StartsBlank.endsWord (h : StartsBlank rest) : EndsWord rest := by
  cases rest with
  | nil => trivial
  | cons c rest =>
    have hnone := h.startsToken_eq_false c rfl
    refine Bool.eq_false_iff.2 fun hword => ?_
    simp_all [startsToken, startsIdentifier, continuesIdentifier, Char.isAlphanum]

theorem StartsBlank.startsBracket_eq_false (h : StartsBlank rest) (c : Char) :
    startsBracket (c :: rest) = false := by
  have hnone := h.startsToken_eq_false
  unfold startsBracket
  split
  -- the second half of a bracket would begin a token
  iterate 4
    · next heq =>
      obtain ⟨rfl, rfl⟩ := List.cons.inj heq
      exact absurd (hnone _ rfl) (by decide)
  · rfl

/-! ## One token -/

/-- Whether a token stands for input that starts no token. -/
def Token.isInvalid : Token → Bool
  | .invalid _ => true
  | _ => false

/-- Before white space and at the end of the input, a token is cut off from its spelling. -/
theorem Token.IsSpelled.isCut (h : token.IsSpelled spelling) (hwell : token.WellFormed)
    (htext : token.isText = false) (hvalid : token.isInvalid = false) (hr : StartsBlank rest) :
    token.IsCut .code spelling.toList rest := by
  cases token with
  | text content => cases htext
  | invalid content => cases hvalid
  | identifier name =>
    obtain rfl : spelling = name := h
    have hcut := IsCut.word hwell.1 hr.endsWord
    rwa [Piece.word_of_wellFormed hwell] at hcut
  | keyword word =>
    obtain rfl : spelling = word.spelling := h
    have hcut := IsCut.word (isIdentifier_spelling word) hr.endsWord
    rwa [Piece.word_spelling] at hcut
  | integer digits =>
    obtain rfl : spelling = digits := h
    have hcut := IsCut.integer hwell hr.endsWord.head?_isDigit_eq_false
    rwa [String.ofList_toList] at hcut
  | string value =>
    obtain ⟨quote, hq, hnot, rfl⟩ := h
    have hcut := IsCut.string hq hnot rest
    simpa using hcut
  | symbol sign =>
    obtain rfl : spelling = sign := h
    obtain ⟨c, hc, rfl⟩ := hwell
    rw [String.toList_ofList]
    exact .symbol hc (hr.startsBracket_eq_false c)
  | openExpression => exact h ▸ .openExpression .code rest
  | openStatement => exact h ▸ .openStatement .code rest
  | closeExpression => exact h ▸ .closeExpression rest
  | closeStatement => exact h ▸ .closeStatement rest
  | openParen => exact h ▸ .openParen rest
  | closeParen => exact h ▸ .closeParen rest
  | comma => exact h ▸ .comma rest

/-- What is cut off for a token of code begins with no white space. -/
theorem Token.IsCut.startsToken_head (h : token.IsCut .code taken rest)
    (hvalid : token.isInvalid = false) : ∃ c chars, taken = c :: chars ∧ startsToken c = true := by
  cases h with
  | openExpression | openStatement | closeExpression | closeStatement | openParen | closeParen
  | comma => exact ⟨_, _, rfl, rfl⟩
  | word h =>
    cases taken with
    | nil => cases h
    | cons c chars => exact ⟨c, chars, rfl, by simp [startsToken, h.1]⟩
  | integer h =>
    obtain ⟨c, chars, rfl⟩ := List.exists_cons_of_ne_nil h.1
    exact ⟨c, chars, rfl, by simp [startsToken, h.2 c List.mem_cons_self]⟩
  | string hq => exact ⟨_, _, rfl, by rcases hq with rfl | rfl <;> rfl⟩
  | symbol hc => exact ⟨_, _, rfl, by simp [startsToken, hc]⟩
  | unclosed => cases hvalid
  | stray => cases hvalid

theorem scan_of_isCut (h : token.IsCut .code taken rest) (hvalid : token.isInvalid = false) :
    scan initial .code (taken ++ rest) =
      token :: scan initial (Mode.after .code initial token) rest := by
  obtain ⟨c, chars, rfl, hc⟩ := h.startsToken_head hvalid
  have hskip : afterSkipped .code (c :: chars ++ rest) = c :: chars ++ rest := by
    simp [afterSkipped, isWhite_eq_false_of_startsToken hc]
  refine @scan_of_next? initial .code _ ⟨token, c :: chars, rest⟩ ?_
  rw [hskip]
  exact Piece.next?_eq_some_iff.2 ⟨h, rfl⟩

/-- A spelled token is the first one of what begins with it and goes on with white space. -/
theorem scan_spelled (h : token.IsSpelled spelling) (hwell : token.WellFormed)
    (htext : token.isText = false) (hvalid : token.isInvalid = false) (hr : StartsBlank rest) :
    scan .code .code (spelling.toList ++ rest) = token :: scan .code .code rest := by
  have hmode : Mode.after .code .code token = .code := by cases token <;> rfl
  rw [scan_of_isCut (h.isCut hwell htext hvalid hr) hvalid, hmode]

/-! ## The tokens of code -/

/-- A token of code: one that some source in code mode has, and not an invalid one. -/
def Token.IsCode (token : Token) : Prop :=
  token.isInvalid = false ∧ ∃ source, token ∈ tokens .code source

/-- A string that lacks one of the quotes is written with it, and the other tokens have only one
spelling. -/
theorem Token.exists_isSpelled (h : token.WellFormed) : ∃ spelling, token.IsSpelled spelling := by
  cases token with
  | string value =>
    rcases h with h | h
    · exact ⟨_, '"', .inl rfl, h, rfl⟩
    · exact ⟨_, '\'', .inr rfl, h, rfl⟩
  | _ => exact ⟨_, rfl⟩

/-- The tokens of code are the brackets, the keywords, the names that are no keywords, the strings
that lack one of the quotes, the integers, parentheses and commas, and the single signs. -/
theorem Token.isCode_iff :
    token.IsCode ↔ token.isInvalid = false ∧ token.isText = false ∧ token.WellFormed := by
  refine and_congr_right fun hvalid => ⟨?_, ?_⟩
  · rintro ⟨source, hmem⟩
    exact ⟨isText_eq_false_of_mem_scan hmem, wellFormed_of_mem_scan hmem⟩
  · rintro ⟨htext, hwell⟩
    obtain ⟨spelling, hspelling⟩ := exists_isSpelled hwell
    have hscan := @scan_spelled _ _ [] hspelling hwell htext hvalid (by simp [StartsBlank])
    rw [List.append_nil, scan_nil, ← tokens_eq_scan] at hscan
    exact ⟨spelling, hscan ▸ List.mem_singleton_self token⟩

/-- Decides whether a token can be written. -/
def Token.decWellFormed : (token : Token) → Decidable token.WellFormed
  | .text _ => inferInstanceAs (Decidable (_ ∧ _))
  | .identifier name =>
    inferInstanceAs (Decidable (IsIdentifier name.toList ∧ Keyword.ofSpelling? name = none))
  | .string _ => inferInstanceAs (Decidable (_ ∨ _))
  | .integer digits => inferInstanceAs (Decidable (IsInteger digits.toList))
  | .symbol sign => List.decidableBEx (fun c => sign = String.ofList [c]) signs
  | .openExpression | .closeExpression | .openStatement | .closeStatement | .keyword _
  | .openParen | .closeParen | .comma | .invalid _ => isTrue trivial

instance (token : Token) : Decidable token.IsCode :=
  have := token.decWellFormed
  decidable_of_iff _ Token.isCode_iff.symm

/-! ## Tokens one after the other -/

/-- A token of code as it is written, with the white space behind it. -/
structure Word where
  token : Token
  spelling : String
  gap : String
  isCode : token.IsCode
  isSpelled : token.IsSpelled spelling
  isBlank : IsBlank gap

/-- Words written one after the other. -/
def written : List Word → String
  | [] => ""
  | word :: rest => word.spelling ++ word.gap ++ written rest

theorem toList_written_cons (word : Word) (rest : List Word) :
    (written (word :: rest)).toList =
      word.spelling.toList ++ (word.gap.toList ++ (written rest).toList) := by
  simp [written]

theorem scan_written {words : List Word} (h : ∀ word ∈ words.dropLast, word.gap ≠ "") :
    scan .code .code (written words).toList = words.map Word.token := by
  induction words with
  | nil => exact scan_nil .code .code
  | cons word rest ih =>
    obtain ⟨hvalid, htext, hwell⟩ := Token.isCode_iff.1 word.isCode
    have hblank : StartsBlank (word.gap.toList ++ (written rest).toList) := by
      refine startsBlank_of_isBlank word.isBlank fun hgap => ?_
      cases rest with
      | nil => rfl
      | cons next rest => exact absurd hgap (h word List.mem_cons_self)
    have hrest : ∀ other ∈ rest.dropLast, other.gap ≠ "" := by
      intro other hother
      cases rest with
      | nil => cases hother
      | cons next rest => exact h other (List.mem_cons_of_mem _ hother)
    rw [toList_written_cons, scan_spelled word.isSpelled hwell htext hvalid hblank,
      scan_append_of_white word.isBlank, ih hrest, List.map_cons]

/-- Tokens of code that are written with white space between any two of them, and white space or
nothing at both ends, are read back. -/
theorem tokens_written {leading : String} {words : List Word} (hleading : IsBlank leading)
    (hgaps : ∀ word ∈ words.dropLast, word.gap ≠ "") :
    tokens .code (leading ++ written words) = words.map Word.token := by
  rw [tokens_eq_scan, String.toList_append, scan_append_of_white hleading, scan_written hgaps]

/-- Halves of brackets one after the other, a name that begins like a keyword, and strings that hold
a closing bracket, white space and the other quote. -/
def hardWords : List Word :=
  [⟨.symbol "\x7b", "\x7b", "\n", by decide, rfl, by decide⟩,
    ⟨.symbol "\x7b", "\x7b", " \u00a0", by decide, rfl, by decide⟩,
    ⟨.symbol "%", "%", "\u2003", by decide, rfl, by decide⟩,
    ⟨.symbol "\x7d", "\x7d", " ", by decide, rfl, by decide⟩,
    ⟨.keyword .for_, "for", " ", by decide, rfl, by decide⟩,
    ⟨.identifier "forx", "forx", "\r\n", by decide, rfl, by decide⟩,
    ⟨.string "it's %\x7d\n", "\"it's %\x7d\n\"", " ", by decide,
      ⟨'"', .inl rfl, by decide, rfl⟩, by decide⟩,
    ⟨.string "\"", "'\"'", " ", by decide, ⟨'\'', .inr rfl, by decide, rfl⟩, by decide⟩,
    ⟨.integer "007", "007", " ", by decide, rfl, by decide⟩,
    ⟨.openStatement, "\x7b%", " ", by decide, rfl, by decide⟩,
    ⟨.closeExpression, "\x7d\x7d", "", by decide, rfl, by decide⟩]

theorem tokens_written_hardWords :
    tokens .code ("\t\x7b\n\x7b \u00a0%\u2003\x7d for forx\r\n\"it's %\x7d\n\" '\"' 007 " ++
        "\x7b% \x7d\x7d") =
      [.symbol "\x7b", .symbol "\x7b", .symbol "%", .symbol "\x7d", .keyword .for_,
        .identifier "forx", .string "it's %\x7d\n", .string "\"", .integer "007", .openStatement,
        .closeExpression] :=
  @tokens_written "\t" hardWords (by decide) (by decide)

end Stencil
