import Stencil.Proofs.Lexeme.Scan

/-!
# Scanning what was written

Tokens that are written out are scanned again. In code mode white space between them is skipped;
a word or a number ends where the next character cannot continue it (`EndsWord`), and all other
tokens end where they end. In text mode a run of text ends at the next opening bracket.

* `scan_identifier`, `scan_keyword`, `scan_integer`, `scan_quoted` and the lemmas for single
  characters and brackets give the first token of the input and the rest of it.
* `scan_text` does so for a run of text.
-/

namespace Stencil

variable {initial : Mode} {c : Char} {rest : List Char}

/-! ## White space -/

theorem scan_white (hc : Text.isWhite c = true) (rest : List Char) :
    scan initial .code (c :: rest) = scan initial .code rest := by
  have hskip : afterSkipped .code (c :: rest) = afterSkipped .code rest := by
    simp [afterSkipped, hc]
  cases h : Piece.next? .code (afterSkipped .code rest) with
  | none => rw [scan_of_next?_eq_none h, scan_of_next?_eq_none (hskip ▸ h)]
  | some piece => rw [scan_of_next? h, scan_of_next? (hskip ▸ h)]

@[simp] theorem scan_space (rest : List Char) :
    scan initial .code (' ' :: rest) = scan initial .code rest :=
  scan_white rfl rest

theorem scan_of_ofCode? {input taken : List Char} {token : Token} (hc : Text.isWhite c = false)
    (h : Piece.ofCode? (c :: input) = some ⟨token, taken, rest⟩) :
    scan initial .code (c :: input) =
      token :: scan initial (Mode.after .code initial token) rest := by
  have hskip : afterSkipped .code (c :: input) = c :: input := by simp [afterSkipped, hc]
  exact scan_of_next? (by rw [hskip]; exact h)

theorem scan_of_ofText? {input taken : List Char} {token : Token}
    (h : Piece.ofText? input = some ⟨token, taken, rest⟩) :
    scan initial .text input = token :: scan initial (Mode.after .text initial token) rest :=
  @scan_of_next? initial .text input _ h

/-! ## Single characters and brackets -/

@[simp] theorem scan_openParen (rest : List Char) :
    scan initial .code ('(' :: rest) = .openParen :: scan initial .code rest :=
  scan_of_ofCode? rfl rfl

@[simp] theorem scan_closeParen (rest : List Char) :
    scan initial .code (')' :: rest) = .closeParen :: scan initial .code rest :=
  scan_of_ofCode? rfl rfl

@[simp] theorem scan_comma (rest : List Char) :
    scan initial .code (',' :: rest) = .comma :: scan initial .code rest :=
  scan_of_ofCode? rfl rfl

@[simp] theorem scan_closeExpression (rest : List Char) :
    scan initial .code ('\x7d' :: '\x7d' :: rest) =
      .closeExpression :: scan initial initial rest :=
  scan_of_ofCode? rfl rfl

@[simp] theorem scan_closeStatement (rest : List Char) :
    scan initial .code ('%' :: '\x7d' :: rest) = .closeStatement :: scan initial initial rest :=
  scan_of_ofCode? rfl rfl

@[simp] theorem scan_openExpression {current : Mode} (rest : List Char) :
    scan initial current ('\x7b' :: '\x7b' :: rest) =
      .openExpression :: scan initial .code rest := by
  cases current with
  | text => exact scan_of_ofText? rfl
  | code => exact scan_of_ofCode? rfl rfl

@[simp] theorem scan_openStatement {current : Mode} (rest : List Char) :
    scan initial current ('\x7b' :: '%' :: rest) = .openStatement :: scan initial .code rest := by
  cases current with
  | text => exact scan_of_ofText? rfl
  | code => exact scan_of_ofCode? rfl rfl

/-- Whether code begins with a bracket of a directive. -/
def startsBracket : List Char → Bool
  | '\x7b' :: '\x7b' :: _ | '\x7d' :: '\x7d' :: _ | '\x7b' :: '%' :: _ | '%' :: '\x7d' :: _ => true
  | _ => false

/-- The signs are neither white space nor the beginning of another token. -/
theorem class_of_mem_signs (hc : c ∈ signs) :
    Text.isWhite c = false ∧ startsIdentifier c = false ∧ c.isDigit = false ∧
      List.contains ['"', '\'', '(', ')', ','] c = false := by
  have hclass : (signs.all fun c => !Text.isWhite c && !startsIdentifier c && !c.isDigit &&
      !List.contains ['"', '\'', '(', ')', ','] c) = true := by decide
  have hsign := List.all_eq_true.1 hclass c hc
  simp only [Bool.and_eq_true, Bool.not_eq_true'] at hsign
  obtain ⟨⟨⟨hwhite, hword⟩, hdigit⟩, hother⟩ := hsign
  exact ⟨hwhite, hword, hdigit, hother⟩

theorem ofCode?_sign (hc : c ∈ signs) (hr : startsBracket (c :: rest) = false) :
    Piece.ofCode? (c :: rest) = some ⟨.symbol (String.ofList [c]), [c], rest⟩ := by
  obtain ⟨-, hword, hdigit, hother⟩ := class_of_mem_signs hc
  unfold Piece.ofCode?
  split
  · next h => cases h
  iterate 4
    · next h =>
      obtain ⟨rfl, rfl⟩ := List.cons.inj h
      cases hr
  · next h =>
    obtain ⟨rfl, rfl⟩ := List.cons.inj h
    simp_all

/-- A sign that begins no bracket is a symbol. -/
theorem scan_sign (hc : c ∈ signs) (hr : startsBracket (c :: rest) = false) :
    scan initial .code (c :: rest) =
      .symbol (String.ofList [c]) :: scan initial .code rest :=
  scan_of_ofCode? (class_of_mem_signs hc).1 (ofCode?_sign hc hr)

@[simp] theorem scan_nil (initial current : Mode) : scan initial current [] = [] := by
  cases current <;> exact scan_of_next?_eq_none rfl

/-! ## Words and numbers -/

/-- Input in which a word or a number before it comes to an end. -/
def EndsWord : List Char → Prop
  | [] => True
  | c :: _ => continuesIdentifier c = false

theorem endsWord_space (rest : List Char) : EndsWord (' ' :: rest) := rfl

theorem endsWord_comma (rest : List Char) : EndsWord (',' :: rest) := rfl

theorem endsWord_closeParen (rest : List Char) : EndsWord (')' :: rest) := rfl

theorem toNat_of_isAlpha (h : c.isAlpha = true) :
    65 ≤ c.toNat ∧ c.toNat ≤ 90 ∨ 97 ≤ c.toNat ∧ c.toNat ≤ 122 := by
  unfold Char.isAlpha Char.isUpper Char.isLower at h
  simpa [UInt32.le_iff_toNat_le] using h

theorem toNat_of_isDigit (h : c.isDigit = true) : 48 ≤ c.toNat ∧ c.toNat ≤ 57 := by
  simpa [Char.isDigit, UInt32.le_iff_toNat_le] using h

theorem toNat_of_startsIdentifier (h : startsIdentifier c = true) :
    65 ≤ c.toNat ∧ c.toNat ≤ 90 ∨ c.toNat = 95 ∨ 97 ≤ c.toNat ∧ c.toNat ≤ 122 := by
  rcases Bool.or_eq_true_iff.1 h with h | h
  · have := toNat_of_isAlpha h
    omega
  · rw [beq_iff_eq.1 h]
    decide

theorem isWhite_eq_false_of_toNat (h : 33 ≤ c.toNat) (h' : c.toNat ≤ 126) :
    Text.isWhite c = false := by
  simp only [Text.isWhite, Bool.or_eq_false_iff, Bool.and_eq_false_iff, decide_eq_false_iff_not,
    beq_eq_false_iff_ne]
  omega

theorem isWhite_eq_false_of_startsIdentifier (h : startsIdentifier c = true) :
    Text.isWhite c = false := by
  have := toNat_of_startsIdentifier h
  exact isWhite_eq_false_of_toNat (by omega) (by omega)

theorem isWhite_eq_false_of_isDigit (h : c.isDigit = true) : Text.isWhite c = false := by
  have := toNat_of_isDigit h
  exact isWhite_eq_false_of_toNat (by omega) (by omega)

/-- Characters of a class, and input that begins with none of it, come apart where they meet. -/
theorem takeWhile_append_of_head? {p : Char → Bool} {chars : List Char}
    (h : ∀ d ∈ chars, p d = true) (hr : ∀ d ∈ rest.head?, p d = false) :
    (chars ++ rest).takeWhile p = chars ∧ (chars ++ rest).dropWhile p = rest := by
  rw [List.takeWhile_append_of_pos h, List.dropWhile_append_of_pos h]
  cases rest with
  | nil => simp
  | cons d rest => simp [hr d rfl]

theorem EndsWord.head?_eq_false (hr : EndsWord rest) :
    ∀ d ∈ rest.head?, continuesIdentifier d = false := by
  cases rest with
  | nil => simp
  | cons c rest =>
    rintro _ ⟨⟩
    exact hr

theorem continuesIdentifier_of_isDigit (h : c.isDigit = true) : continuesIdentifier c = true := by
  simp [continuesIdentifier, Char.isAlphanum, h]

/-- Where a word ends, a number ends. -/
theorem EndsWord.head?_isDigit_eq_false (hr : EndsWord rest) :
    ∀ d ∈ rest.head?, d.isDigit = false := by
  intro d hd
  refine Bool.eq_false_iff.2 fun hdigit => ?_
  have hends := hr.head?_eq_false d hd
  simp [continuesIdentifier_of_isDigit hdigit] at hends

theorem ofCode?_word {chars : List Char} (hc : startsIdentifier c = true)
    (h : ∀ d ∈ chars, continuesIdentifier d = true) (hr : EndsWord rest) :
    Piece.ofCode? (c :: (chars ++ rest)) =
      some ⟨Piece.word (c :: chars), c :: chars, rest⟩ := by
  obtain ⟨ht, hd⟩ := takeWhile_append_of_head? h hr.head?_eq_false
  unfold Piece.ofCode?
  split
  · next h => cases h
  -- no bracket begins like a word
  iterate 4
    · next h =>
      obtain ⟨rfl, -⟩ := List.cons.inj h
      exact absurd hc (by decide)
  · next h =>
    obtain ⟨rfl, rfl⟩ := List.cons.inj h
    simp [hc, ht, hd]

theorem ofCode?_integer {chars : List Char} (hc : c.isDigit = true)
    (h : ∀ d ∈ chars, d.isDigit = true) (hr : ∀ d ∈ rest.head?, d.isDigit = false) :
    Piece.ofCode? (c :: (chars ++ rest)) =
      some ⟨.integer (String.ofList (c :: chars)), c :: chars, rest⟩ := by
  have hstart : startsIdentifier c = false := by
    have hdigit := toNat_of_isDigit hc
    refine Bool.eq_false_iff.2 fun hword => ?_
    have := toNat_of_startsIdentifier hword
    omega
  obtain ⟨ht, hd⟩ := takeWhile_append_of_head? h hr
  unfold Piece.ofCode?
  split
  · next h => cases h
  -- no bracket begins like a number
  iterate 4
    · next h =>
      obtain ⟨rfl, -⟩ := List.cons.inj h
      exact absurd hc (by decide)
  · next h =>
    obtain ⟨rfl, rfl⟩ := List.cons.inj h
    simp [hstart, hc, ht, hd]

theorem scan_word {chars : List Char} (h : IsIdentifier chars) (hr : EndsWord rest) :
    scan initial .code (chars ++ rest) =
      Piece.word chars :: scan initial .code rest := by
  cases chars with
  | nil => cases h
  | cons c chars =>
    obtain ⟨hc, hchars⟩ := h
    have hafter : Mode.after .code initial (Piece.word (c :: chars)) = .code := by
      unfold Piece.word
      split <;> rfl
    have hscan := @scan_of_ofCode? initial _ _ _ _ _
      (isWhite_eq_false_of_startsIdentifier hc) (ofCode?_word hc hchars hr)
    rwa [hafter] at hscan

theorem Piece.word_of_wellFormed {name : String} (h : (Token.identifier name).WellFormed) :
    word name.toList = .identifier name := by
  rw [word, String.ofList_toList, h.2]

theorem scan_identifier {name : String} (h : (Token.identifier name).WellFormed)
    (hr : EndsWord rest) :
    scan initial .code (name.toList ++ rest) = .identifier name :: scan initial .code rest := by
  rw [scan_word h.1 hr, Piece.word_of_wellFormed h]

theorem isIdentifier_spelling (word : Keyword) : IsIdentifier word.spelling.toList := by
  cases word <;> exact ⟨rfl, List.all_eq_true.1 rfl⟩

theorem Piece.word_spelling (word : Keyword) :
    Piece.word word.spelling.toList = .keyword word := by
  cases word <;> rfl

theorem scan_keyword (word : Keyword) (hr : EndsWord rest) :
    scan initial .code (word.spelling.toList ++ rest) =
      .keyword word :: scan initial .code rest := by
  rw [scan_word (isIdentifier_spelling word) hr, Piece.word_spelling]

theorem scan_integer {digits : String} (h : (Token.integer digits).WellFormed)
    (hr : EndsWord rest) :
    scan initial .code (digits.toList ++ rest) = .integer digits :: scan initial .code rest := by
  obtain ⟨hne, hdigits⟩ := h
  cases hchars : digits.toList with
  | nil => exact absurd hchars hne
  | cons c chars =>
    rw [hchars] at hdigits
    obtain ⟨hc, hrest⟩ := List.forall_mem_cons.1 hdigits
    have hdigits : String.ofList (c :: chars) = digits := by rw [← hchars, String.ofList_toList]
    have hscan := @scan_of_ofCode? initial _ _ _ _ _ (isWhite_eq_false_of_isDigit hc)
      (ofCode?_integer hc hrest hr.head?_isDigit_eq_false)
    rw [hdigits] at hscan
    exact hscan

/-! ## Strings -/

theorem quoted_append {quote : Char} {chars : List Char} (h : quote ∉ chars) :
    Piece.quoted quote (chars ++ quote :: rest) =
      ⟨.string (String.ofList chars), quote :: chars ++ [quote], rest⟩ := by
  have hchars : ∀ d ∈ chars, (d != quote) = true := by
    intro d hd
    exact bne_iff_ne.2 fun heq => h (heq ▸ hd)
  have ht : (chars ++ quote :: rest).takeWhile (· != quote) = chars := by
    rw [List.takeWhile_append_of_pos hchars]
    simp
  have hd : (chars ++ quote :: rest).dropWhile (· != quote) = quote :: rest := by
    rw [List.dropWhile_append_of_pos hchars]
    simp
  rw [Piece.quoted, hd, ht]

theorem ofCode?_quote {quote : Char} (hq : quote = '"' ∨ quote = '\'') (chars : List Char) :
    Piece.ofCode? (quote :: chars) = some (Piece.quoted quote chars) := by
  rcases hq with rfl | rfl <;> rfl

theorem scan_quoted {quote : Char} (hq : quote = '"' ∨ quote = '\'') {value : String}
    (h : quote ∉ value.toList) :
    scan initial .code (quote :: (value.toList ++ quote :: rest)) =
      .string value :: scan initial .code rest := by
  have hpiece := ofCode?_quote hq (value.toList ++ quote :: rest)
  have hwhite : Text.isWhite quote = false := by
    rcases hq with rfl | rfl <;> rfl
  rw [quoted_append h, String.ofList_toList] at hpiece
  exact scan_of_ofCode? hwhite hpiece

/-! ## Runs of text -/

/-- What can stand behind a run of text: nothing, or an opening bracket if the run does not end in
a brace. -/
def EndsText (chars rest : List Char) : Prop :=
  rest = [] ∨ startsDirective rest = true ∧ chars.getLast? ≠ some '\x7b'

theorem startsDirective_cons_cons (c d : Char) (rest others : List Char) :
    startsDirective (c :: d :: rest) = startsDirective (c :: d :: others) := by
  rw [Bool.eq_iff_iff]
  constructor
  · intro h
    unfold startsDirective at h
    split at h <;> simp_all [startsDirective]
  · intro h
    unfold startsDirective at h
    split at h <;> simp_all [startsDirective]

/-- A character that is no brace opens no directive. -/
theorem startsDirective_eq_false_of_ne (hc : c ≠ '\x7b') (rest : List Char) :
    startsDirective (c :: rest) = false := by
  unfold startsDirective
  split <;> simp_all

theorem splitText_eq_self_cons_iff {chars : List Char} :
    Piece.splitText (c :: chars) = (c :: chars, []) ↔
      startsDirective (c :: chars) = false ∧ Piece.splitText chars = (chars, []) := by
  by_cases h : startsDirective (c :: chars) = true
  · simp [Piece.splitText, h]
  · simp [Piece.splitText, h, Prod.ext_iff]

/-- A run in which no directive opens, and which does not end in a brace, goes on into what
follows. -/
theorem splitText_append_of_getLast? {chars : List Char}
    (h : Piece.splitText chars = (chars, [])) (hlast : chars.getLast? ≠ some '\x7b')
    (rest : List Char) :
    Piece.splitText (chars ++ rest) =
      (chars ++ (Piece.splitText rest).1, (Piece.splitText rest).2) := by
  induction chars with
  | nil => rfl
  | cons c chars ih =>
    obtain ⟨hno, hchars⟩ := splitText_eq_self_cons_iff.1 h
    -- the next two characters decide; the second may be the first of what follows
    have hno' : startsDirective (c :: (chars ++ rest)) = false := by
      cases chars with
      | nil => exact startsDirective_eq_false_of_ne (by simpa using hlast) _
      | cons d chars => rw [← hno, List.cons_append, startsDirective_cons_cons]
    have hlast' : chars.getLast? ≠ some '\x7b' := by
      cases chars with
      | nil => simp
      | cons d chars => rwa [List.getLast?_cons_cons] at hlast
    rw [List.cons_append, Piece.splitText_cons hno', ih hchars hlast']
    rfl

/-- A run in which no directive opens ends before the next one. -/
theorem splitText_append_of_endsText {chars : List Char}
    (h : Piece.splitText chars = (chars, [])) (hr : EndsText chars rest) :
    Piece.splitText (chars ++ rest) = (chars, rest) := by
  rcases hr with rfl | ⟨hstarts, hlast⟩
  · rwa [List.append_nil]
  · obtain ⟨more, rfl⟩ := eq_cons_of_startsDirective hstarts
    rw [splitText_append_of_getLast? h hlast]
    simp [Piece.splitText, hstarts]

/-- A run of text is cut off at its end. -/
theorem ofText?_run {chars : List Char} (hne : chars ≠ [])
    (h : Piece.splitText chars = (chars, [])) (hr : EndsText chars rest) :
    Piece.ofText? (chars ++ rest) = some ⟨.text (String.ofList chars), chars, rest⟩ := by
  have happend := splitText_append_of_endsText h hr
  cases chars with
  | nil => exact absurd rfl hne
  | cons c chars =>
    rw [List.cons_append] at happend ⊢
    have hno : startsDirective (c :: (chars ++ rest)) = false := by
      refine Bool.eq_false_iff.2 fun hstarts => ?_
      simp [Piece.splitText, hstarts] at happend
    obtain ⟨piece, hpiece, hshape⟩ := Piece.ofText?_cons c (chars ++ rest)
    rw [if_neg (by simp [hno]), happend] at hshape
    rw [hpiece, hshape]

/-- A run of text is scanned up to its end. -/
theorem scan_text {content : String} (h : (Token.text content).WellFormed)
    (hr : EndsText content.toList rest) :
    scan initial .text (content.toList ++ rest) = .text content :: scan initial .text rest := by
  have hpiece := ofText?_run (fun hnil => h.1 (String.toList_eq_nil_iff.1 hnil)) h.2 hr
  rw [String.ofList_toList] at hpiece
  exact scan_of_ofText? hpiece

end Stencil
