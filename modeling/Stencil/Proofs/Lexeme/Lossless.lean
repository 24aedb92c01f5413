import Stencil.Proofs.Lexeme.Cuts
import Stencil.Proofs.Lexeme.Ranges

/-!
# Lexemes lose nothing of the source

The lexemes of a source and the white space between them make up the source. Every lexeme stands at
a range of whole characters, and what stands there is a way to write its token.

* `Token.IsSpelled` says how a token is written, and `ByteRange.slice` is what a source holds at a
  range.
* `slice_of_mem_lexemesFrom`: what stands at the range of a lexeme.
* `covered_or_skipped`: a byte that belongs to no lexeme is one of white space, in code.
* `isLossless_lexemes` puts these together.
-/

namespace Stencil

/-! ## How tokens are written -/

/-- A text is a way to write a token. Only for strings there is a choice, that of the quotes. -/
def Token.IsSpelled : Token → String → Prop
  | .text content, spelling | .identifier content, spelling | .integer content, spelling
  | .symbol content, spelling | .invalid content, spelling => spelling = content
  | .string value, spelling => ∃ quote, (quote = '"' ∨ quote = '\'') ∧ quote ∉ value.toList ∧
      spelling = String.ofList (quote :: value.toList ++ [quote])
  | .keyword word, spelling => spelling = word.spelling
  | .openExpression, spelling => spelling = "\x7b\x7b"
  | .closeExpression, spelling => spelling = "\x7d\x7d"
  | .openStatement, spelling => spelling = "\x7b%"
  | .closeStatement, spelling => spelling = "%\x7d"
  | .openParen, spelling => spelling = "("
  | .closeParen, spelling => spelling = ")"
  | .comma, spelling => spelling = ","

theorem Token.isSpelled_word (chars : List Char) :
    (Piece.word chars).IsSpelled (String.ofList chars) := by
  unfold Piece.word
  split
  · next word hword =>
    have hspelling := List.find?_some hword
    exact (beq_iff_eq.1 hspelling).symm
  · rfl

variable {mode initial current : Mode} {token : Token} {taken rest : List Char}

/-- What is cut off for a token is a way to write it. -/
theorem Token.IsCut.isSpelled (h : token.IsCut mode taken rest) :
    token.IsSpelled (String.ofList taken) := by
  cases h with
  | word => exact isSpelled_word taken
  | @string quote chars hq hnot => exact ⟨quote, hq, by simpa using hnot, by simp⟩
  | _ => rfl

theorem Token.IsCut.taken_ne_nil (h : token.IsCut mode taken rest) : taken ≠ [] := by
  cases h with
  | text hne => exact hne
  | word h =>
    rintro rfl
    exact h
  | integer h => exact h.1
  | _ => exact List.cons_ne_nil _ _

/-! ## Bytes and characters -/

theorem byteSize_pos {chars : List Char} (h : chars ≠ []) : 0 < byteSize chars := by
  cases chars with
  | nil => exact absurd rfl h
  | cons c rest =>
    have := c.utf8Size_pos
    simp only [byteSize]
    omega

/-- Every byte belongs to a character. -/
theorem exists_char_at {chars : List Char} {offset : Nat} (h : offset < byteSize chars) :
    ∃ before c after, chars = before ++ c :: after ∧ byteSize before ≤ offset ∧
      offset < byteSize before + c.utf8Size := by
  induction chars generalizing offset with
  | nil => simp [byteSize] at h
  | cons c rest ih =>
    by_cases hc : offset < c.utf8Size
    · exact ⟨[], c, rest, rfl, Nat.zero_le _, by simpa [byteSize] using hc⟩
    · simp only [byteSize] at h
      obtain ⟨before, d, after, rfl, hle, hlt⟩ := @ih (offset - c.utf8Size) (by omega)
      refine ⟨c :: before, d, after, rfl, ?_, ?_⟩ <;> simp only [byteSize] <;> omega

/-- What a source holds at a range. -/
def ByteRange.slice (range : ByteRange) (source : String) : String :=
  String.Pos.Raw.extract source ⟨range.start⟩ ⟨range.stop⟩

/-- The range begins and ends between two characters of the source, or at one of its ends. -/
def ByteRange.IsAligned (range : ByteRange) (source : String) : Prop :=
  String.Pos.Raw.IsValid source ⟨range.start⟩ ∧ String.Pos.Raw.IsValid source ⟨range.stop⟩

theorem byteSize_eq_utf8Len (chars : List Char) : byteSize chars = String.utf8Len chars := by
  rw [← String.utf8ByteSize_ofList, ← byteSize_toList, String.toList_ofList]

section Slices

variable {source : String} {before chars after : List Char}

theorem isValid_byteSize (h : source.toList = before ++ after) :
    String.Pos.Raw.IsValid source ⟨byteSize before⟩ := by
  refine String.Pos.Raw.isValid_iff_exists_append.2
    ⟨String.ofList before, String.ofList after, ?_, ?_⟩
  · rw [← String.ofList_append, ← h, String.ofList_toList]
  · rw [byteSize_eq_utf8Len, String.rawEndPos_ofList]

theorem isAligned_of_toList_eq (h : source.toList = before ++ (chars ++ after)) :
    ByteRange.IsAligned ⟨byteSize before, byteSize before + byteSize chars⟩ source := by
  refine ⟨isValid_byteSize h, ?_⟩
  rw [← byteSize_append]
  exact isValid_byteSize (by rw [h, List.append_assoc])

theorem slice_of_toList_eq (h : source.toList = before ++ (chars ++ after)) :
    ByteRange.slice ⟨byteSize before, byteSize before + byteSize chars⟩ source =
      String.ofList chars := by
  have hextract := String.extract_of_valid before chars after
  rwa [List.append_assoc, ← h, String.ofList_toList, ← byteSize_eq_utf8Len,
    ← byteSize_eq_utf8Len] at hextract

end Slices

/-! ## What stands at the range of a lexeme -/

/-- The input at an offset holds the token of a lexeme at its range. -/
theorem slice_of_mem_lexemesFrom {offset : Nat} {input : List Char} {lexeme : Lexeme}
    (h : lexeme ∈ lexemesFrom initial current offset input) :
    ∃ before chars after, input = before ++ (chars ++ after) ∧ chars ≠ [] ∧
      lexeme.range = ⟨offset + byteSize before, offset + byteSize before + byteSize chars⟩ ∧
      lexeme.token.IsSpelled (String.ofList chars) := by
  fun_induction lexemesFrom initial current offset input with
  | case1 => cases h
  | case2 current offset input piece hpiece start stop _ _ ih =>
    obtain ⟨hcut, happend⟩ := Piece.next?_eq_some_iff.1 hpiece
    have hinput : input = skipped current input ++ (piece.taken ++ piece.rest) := by
      rw [happend, skipped_append_afterSkipped]
    rcases List.mem_cons.1 h with rfl | h
    · exact ⟨_, _, _, hinput, hcut.taken_ne_nil, rfl, hcut.isSpelled⟩
    · obtain ⟨before, chars, after, hrest, hne, hrange, hspelled⟩ := ih h
      refine ⟨skipped current input ++ (piece.taken ++ before), chars, after, ?_, hne, ?_,
        hspelled⟩
      · rw [hrest] at hinput
        simpa only [List.append_assoc] using hinput
      · have hoffset : stop + byteSize before =
            offset + byteSize (skipped current input ++ (piece.taken ++ before)) := by
          simp only [byteSize_append]
          omega
        rw [hrange, hoffset]

/-! ## What belongs to no lexeme -/

/-- The mode behind some lexemes, from the mode before them. -/
def Mode.behind (current initial : Mode) (lexemes : List Lexeme) : Mode :=
  lexemes.foldl (fun mode lexeme => mode.after initial lexeme.token) current

/-- A byte of the input is part of a white character, and the lexemes before it lead into code
mode. The input begins at byte `offset`, in mode `current`. -/
structure IsSkipped (initial current : Mode) (lexemes : List Lexeme) (offset : Nat)
    (input : List Char) (byte : Nat) : Prop where
  white : ∃ before c after, input = before ++ c :: after ∧ Text.isWhite c = true ∧
    offset + byteSize before ≤ byte ∧ byte < offset + byteSize before + c.utf8Size
  code : current.behind initial (lexemes.filter (·.range.stop ≤ byte)) = .code

/-- Only white space is skipped, and only in code. -/
theorem mem_skipped {input : List Char} {c : Char} (h : c ∈ skipped current input) :
    Text.isWhite c = true ∧ current = .code := by
  cases current with
  | text => cases h
  | code => exact ⟨List.mem_takeWhile_imp h, rfl⟩

/-- A character that is not white stands in what some token is written as. -/
theorem exists_isSpelled_of_mem {input : List Char} {c : Char} (hc : c ∈ input)
    (hwhite : Text.isWhite c = false) :
    ∃ token ∈ scan initial current input, ∃ spelling : String,
      token.IsSpelled spelling ∧ c ∈ spelling.toList := by
  have hskipped : ∀ {current : Mode} {input : List Char}, c ∉ skipped current input := by
    intro current input hmem
    rw [(mem_skipped hmem).1] at hwhite
    cases hwhite
  refine scan_induction (P := fun _ input ts => c ∈ input → ∃ token ∈ ts, ∃ spelling : String,
    token.IsSpelled spelling ∧ c ∈ spelling.toList) ?_ ?_ current input hc
  · intro current input hnone hc
    rw [← skipped_append_afterSkipped current input, Piece.next?_eq_none_iff.1 hnone,
      List.append_nil] at hc
    exact absurd hc hskipped
  · intro current input piece hpiece ih hc
    obtain ⟨hcut, hinput⟩ := Piece.next?_eq_some_iff.1 hpiece
    rw [← skipped_append_afterSkipped current input, ← hinput, List.mem_append,
      List.mem_append] at hc
    rcases hc with hc | hc | hc
    · exact absurd hc hskipped
    · exact ⟨piece.token, List.mem_cons_self, _, hcut.isSpelled, by simpa using hc⟩
    · obtain ⟨token, hmem, hspelled⟩ := ih hc
      exact ⟨token, List.mem_cons_of_mem _ hmem, hspelled⟩

/-- Before the first lexeme stands what was skipped. -/
theorem isSkipped_of_lt {lexemes : List Lexeme} {offset byte : Nat} {input : List Char}
    (h : offset ≤ byte) (h' : byte < offset + byteSize (skipped current input))
    (hlexemes : ∀ lexeme ∈ lexemes, byte < lexeme.range.stop) :
    IsSkipped initial current lexemes offset input byte := by
  obtain ⟨before, c, after, hskipped, hle, hlt⟩ :=
    @exists_char_at (skipped current input) (byte - offset) (by omega)
  obtain ⟨hwhite, hcode⟩ : Text.isWhite c = true ∧ current = .code :=
    @mem_skipped current input c (by simp [hskipped])
  refine ⟨⟨before, c, after ++ afterSkipped current input, ?_, hwhite, by omega, by omega⟩, ?_⟩
  · rw [← List.cons_append, ← List.append_assoc, ← hskipped, skipped_append_afterSkipped]
  · rw [List.filter_eq_nil_iff.2 fun lexeme hmem => by simpa using hlexemes lexeme hmem]
    exact hcode

/-- A byte of the input belongs to a lexeme, or to white space that was skipped in code. -/
theorem covered_or_skipped (initial current : Mode) (offset : Nat) (input : List Char) {byte : Nat}
    (h : offset ≤ byte) (h' : byte < offset + byteSize input) :
    (∃ lexeme ∈ lexemesFrom initial current offset input,
        lexeme.range.start ≤ byte ∧ byte < lexeme.range.stop) ∨
      IsSkipped initial current (lexemesFrom initial current offset input) offset input byte := by
  fun_induction lexemesFrom initial current offset input with
  | case1 current offset input hnone =>
    -- all of the input was skipped
    have hinput := skipped_append_afterSkipped current input
    rw [Piece.next?_eq_none_iff.1 hnone, List.append_nil] at hinput
    exact .inr (isSkipped_of_lt h (by rw [hinput]; exact h') (by simp))
  | case2 current offset input piece hpiece start stop _ _ ih =>
    have hinput : input = skipped current input ++ (piece.taken ++ piece.rest) := by
      rw [Piece.taken_append_rest hpiece, skipped_append_afterSkipped]
    have hsize := congrArg byteSize hinput
    simp only [byteSize_append] at hsize
    by_cases hstart : byte < start
    · refine .inr (isSkipped_of_lt h hstart fun lexeme hmem => ?_)
      rcases List.mem_cons.1 hmem with rfl | hmem
      · show byte < stop
        omega
      · have hle := le_start_of_mem_lexemesFrom hmem
        have hproper := (areLaid_lexemesFrom _ _ _ _).proper lexeme hmem
        omega
    by_cases hstop : byte < stop
    · exact .inl ⟨_, List.mem_cons_self, Nat.le_of_not_lt hstart, hstop⟩
    · rcases ih (by omega) (by omega) with ⟨lexeme, hmem, hcovers⟩ | ⟨hwhite, hcode⟩
      · exact .inl ⟨lexeme, List.mem_cons_of_mem _ hmem, hcovers⟩
      · obtain ⟨before, c, after, hrest, hwhite, hle, hlt⟩ := hwhite
        refine .inr ⟨⟨skipped current input ++ (piece.taken ++ before), c, after, ?_, hwhite, ?_,
          ?_⟩, ?_⟩
        · rw [hrest] at hinput
          simpa only [List.append_assoc] using hinput
        · simp only [byteSize_append]
          omega
        · simp only [byteSize_append]
          omega
        · rw [List.filter_cons_of_pos (by simpa using hstop)]
          exact hcode

/-! ## All lexemes of a source -/

/-- The lexemes of a source that begins in a mode lose nothing of it. -/
structure IsLossless (mode : Mode) (source : String) (lexemes : List Lexeme) : Prop where
  /-- No range is empty, and all lie within the source. -/
  proper : ∀ lexeme ∈ lexemes,
    lexeme.range.start < lexeme.range.stop ∧ lexeme.range.stop ≤ source.utf8ByteSize
  /-- The ranges stand one behind the other. -/
  ordered : lexemes.Pairwise fun a b => a.range.stop ≤ b.range.start
  /-- No character is cut in two. -/
  aligned : ∀ lexeme ∈ lexemes, lexeme.range.IsAligned source
  /-- A token is what stands at its range. -/
  spelled : ∀ lexeme ∈ lexemes, lexeme.token.IsSpelled (lexeme.range.slice source)
  /-- What stands at no range is white space that was skipped in code. -/
  skipped : ∀ byte < source.utf8ByteSize,
    (∀ lexeme ∈ lexemes, ¬ (lexeme.range.start ≤ byte ∧ byte < lexeme.range.stop)) →
      IsSkipped mode mode lexemes 0 source.toList byte

/-- The lexemes of a source lose nothing of it, in both modes. -/
theorem isLossless_lexemes (mode : Mode) (source : String) :
    IsLossless mode source (lexemes mode source) := by
  have hlaid := areLaid_lexemes mode source
  -- each lexeme, with the characters at its range
  have hslice : ∀ lexeme ∈ lexemes mode source, ∃ before chars after,
      source.toList = before ++ (chars ++ after) ∧ chars ≠ [] ∧
        lexeme.range = ⟨byteSize before, byteSize before + byteSize chars⟩ ∧
        lexeme.token.IsSpelled (String.ofList chars) := by
    intro lexeme hmem
    have h := slice_of_mem_lexemesFrom hmem
    simpa only [Nat.zero_add] using h
  refine ⟨fun lexeme hmem => ?_, hlaid.ordered, fun lexeme hmem => ?_, fun lexeme hmem => ?_,
    fun byte hbyte hnone => ?_⟩
  · obtain ⟨before, chars, after, -, hne, hrange, -⟩ := hslice lexeme hmem
    refine ⟨?_, hlaid.within lexeme hmem⟩
    have := byteSize_pos hne
    rw [hrange]
    show byteSize before < byteSize before + byteSize chars
    omega
  · obtain ⟨before, chars, after, hsource, -, hrange, -⟩ := hslice lexeme hmem
    rw [hrange]
    exact isAligned_of_toList_eq hsource
  · obtain ⟨before, chars, after, hsource, -, hrange, hspelled⟩ := hslice lexeme hmem
    rw [hrange, slice_of_toList_eq hsource]
    exact hspelled
  · have hcases := covered_or_skipped mode mode 0 source.toList (Nat.zero_le byte)
      (by rwa [Nat.zero_add, byteSize_toList])
    rcases hcases with ⟨lexeme, hmem, hcovers⟩ | hskipped
    · exact absurd hcovers (hnone lexeme hmem)
    · exact hskipped

end Stencil
