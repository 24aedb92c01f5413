import Stencil.Proofs.Lexeme.Cuts
import Stencil.Proofs.Template.TokenForm

/-!
# Scanning across a seam

If more is put behind a source, its tokens stay as they are, up to the last one: a token that ended
at the end of the source may go on, and the mode in which the source ended decides how what follows
is read. Nothing else is carried across the seam.

* `Token.IsCut.append_of_ne_nil`, `Token.IsCut.append_of_settled`: when a token stays as it is.
* `scan_append_of_standsInside`: code without brackets and signs, before something that ends a word.
* `scan_of_scan_append`: such code, taken from the tokens of what is put together.
* `scan_append_of_closes` and `scan_append_of_text`: a source in text mode that ends with a
  closing bracket, and one that ends with a run of text.
-/

namespace Stencil

variable {mode initial other current : Mode} {token : Token} {piece : Piece}
  {taken rest input : List Char}

/-! ## One token -/

theorem startsBracket_cons_cons (c d : Char) (rest others : List Char) :
    startsBracket (c :: d :: rest) = startsBracket (c :: d :: others) := by
  unfold startsBracket
  split <;> split <;> simp_all

/-- A token behind which input is left does not depend on where that input ends. -/
theorem Token.IsCut.append_of_ne_nil (h : token.IsCut mode taken rest) (hne : rest ≠ [])
    (more : List Char) : token.IsCut mode taken (rest ++ more) := by
  obtain ⟨d, others, rfl⟩ := List.exists_cons_of_ne_nil hne
  cases h with
  | openExpression => exact .openExpression _ _
  | openStatement => exact .openStatement _ _
  | closeExpression => exact .closeExpression _
  | closeStatement => exact .closeStatement _
  | text htaken hrun hr =>
    rcases hr with hnil | ⟨hstarts, hlast⟩
    · cases hnil
    · exact .text htaken hrun (.inr ⟨startsDirective_append hstarts more, hlast⟩)
  | word h hr => exact .word h hr
  | integer h hr => exact .integer h hr
  | string hq h => exact .string hq h _
  | openParen => exact .openParen _
  | closeParen => exact .closeParen _
  | comma => exact .comma _
  | symbol hc hr => exact .symbol hc (by rw [← hr, List.cons_append, startsBracket_cons_cons])
  | stray hc => exact .stray hc _

/-- A token at the end of the input stays as it is if it is a closing bracket, and if it stands
inside directives and no word goes on behind it. -/
theorem Token.IsCut.append_of_settled {more : List Char} (h : token.IsCut mode taken [])
    (hsettled : token.closes = true ∨ token.standsInside = true ∧ EndsWord more) :
    token.IsCut mode taken more := by
  have hinside : token.closes = false → token.standsInside = true ∧ EndsWord more := by
    intro hcloses
    simpa [hcloses] using hsettled
  cases h with
  | closeExpression => exact .closeExpression _
  | closeStatement => exact .closeStatement _
  | word h =>
    have hcloses : (Piece.word taken).closes = false := by
      unfold Piece.word
      split <;> rfl
    exact .word h (hinside hcloses).2
  | integer h => exact .integer h (hinside rfl).2.head?_isDigit_eq_false
  | string hq h => exact .string hq h _
  | openParen => exact .openParen _
  | closeParen => exact .closeParen _
  | comma => exact .comma _
  | _ => cases (hinside rfl).1

/-! ## One step of the scanner -/

theorem afterSkipped_append (h : afterSkipped current input ≠ []) (more : List Char) :
    afterSkipped current (input ++ more) = afterSkipped current input ++ more := by
  cases current with
  | text => rfl
  | code =>
    simp only [afterSkipped] at h ⊢
    rw [List.dropWhile_append, if_neg (by simpa using h)]

/-- A first token that stays as it is, is scanned first if more follows. -/
theorem scan_append_of_next? {more : List Char}
    (h : Piece.next? current (afterSkipped current input) = some piece)
    (hcut : piece.token.IsCut current piece.taken (piece.rest ++ more)) :
    scan initial current (input ++ more) =
      piece.token :: scan initial (current.after initial piece.token) (piece.rest ++ more) := by
  have hinput := Piece.taken_append_rest h
  have hne : afterSkipped current input ≠ [] := by
    intro hnil
    rw [Piece.next?_eq_none_iff.2 hnil] at h
    cases h
  have hnext : Piece.next? current (afterSkipped current (input ++ more)) =
      some ⟨piece.token, piece.taken, piece.rest ++ more⟩ := by
    refine Piece.next?_eq_some_iff.2 ⟨hcut, ?_⟩
    rw [afterSkipped_append hne, ← hinput, List.append_assoc]
  exact scan_of_next? hnext

/-- The first of the tokens is cut off, and the others are scanned from what is left. -/
theorem exists_isCut_of_scan_eq_cons {ts : List Token}
    (h : scan initial current input = token :: ts) :
    ∃ taken rest, token.IsCut current taken rest ∧ taken ++ rest = afterSkipped current input ∧
      scan initial (current.after initial token) rest = ts := by
  cases hpiece : Piece.next? current (afterSkipped current input) with
  | none =>
    rw [scan_of_next?_eq_none hpiece] at h
    cases h
  | some piece =>
    rw [scan_of_next? hpiece] at h
    obtain ⟨rfl, hts⟩ := List.cons.inj h
    obtain ⟨hcut, hinput⟩ := Piece.next?_eq_some_iff.1 hpiece
    exact ⟨piece.taken, piece.rest, hcut, hinput, hts⟩

/-! ## Code -/

theorem scan_append_of_white (h : ∀ c ∈ input, Text.isWhite c = true) (more : List Char) :
    scan initial .code (input ++ more) = scan initial .code more := by
  induction input with
  | nil => rfl
  | cons c input ih =>
    obtain ⟨hc, hinput⟩ := List.forall_mem_cons.1 h
    rw [List.cons_append, scan_white hc, ih hinput]

theorem Token.after_of_standsInside (h : token.standsInside = true) (current initial : Mode) :
    current.after initial token = current := by
  cases token with
  | openExpression | closeExpression | openStatement | closeStatement => cases h
  | _ => rfl

/-- Code whose tokens all stand inside directives is scanned alike before anything that ends a
word, and whatever the mode in which the source began. -/
theorem scan_append_of_standsInside {more : List Char}
    (h : ∀ t ∈ scan other .code input, t.standsInside = true) (hr : EndsWord more) :
    scan initial .code (input ++ more) = scan other .code input ++ scan initial .code more := by
  refine @scan_induction other (fun current input ts => current = .code →
    (∀ t ∈ ts, t.standsInside = true) →
      scan initial .code (input ++ more) = ts ++ scan initial .code more) ?_ ?_ .code input rfl h
  · rintro _ input hnone rfl -
    refine scan_append_of_white ?_ more
    exact List.dropWhile_eq_nil_iff.1 (Piece.next?_eq_none_iff.1 hnone)
  · rintro _ input piece hpiece ih rfl hts
    obtain ⟨htoken, hothers⟩ := List.forall_mem_cons.1 hts
    have hcut : piece.token.IsCut .code piece.taken (piece.rest ++ more) := by
      have hcut := (Piece.next?_eq_some_iff.1 hpiece).1
      by_cases hrest : piece.rest = []
      · rw [hrest] at hcut ⊢
        exact hcut.append_of_settled (.inr ⟨htoken, hr⟩)
      · exact hcut.append_of_ne_nil hrest more
    have hstep := @scan_append_of_next? initial _ _ _ _ hpiece hcut
    rw [Token.after_of_standsInside htoken] at hstep ih hothers ⊢
    rw [hstep, ih rfl hothers, List.cons_append]

/-! ## Taking a seam apart -/

/-- No token that stands inside directives goes on into this input: a word ends before it, and it
holds no quote that could close a string. -/
structure EndsInside (more : List Char) : Prop where
  endsWord : EndsWord more
  doubleQuote : '"' ∉ more
  singleQuote : '\'' ∉ more

theorem EndsInside.quote_not_mem {more : List Char} (h : EndsInside more) {quote : Char}
    (hq : quote = '"' ∨ quote = '\'') : quote ∉ more := by
  rcases hq with rfl | rfl
  · exact h.doubleQuote
  · exact h.singleQuote

/-- A token that begins before such input also ends before it. -/
theorem Token.IsCut.eq_nil_of_endsInside {beyond more : List Char}
    (h : token.IsCut .code taken rest) (hinside : token.standsInside = true)
    (htaken : taken = input ++ beyond) (hne : input ≠ []) (hmore : EndsInside (beyond ++ more)) :
    beyond = [] := by
  obtain ⟨c, before, rfl⟩ := List.exists_cons_of_ne_nil hne
  cases beyond with
  | nil => rfl
  | cons d beyond =>
    have hd : continuesIdentifier d = false := hmore.endsWord
    have hlength := congrArg List.length htaken
    cases h with
    | word h =>
      rw [htaken] at h
      simp [h.2 d (by simp)] at hd
    | integer h =>
      have hdigit := h.2 d (by simp [htaken])
      simp [continuesIdentifier_of_isDigit hdigit] at hd
    | @string quote chars hq h =>
      -- the closing quote would stand behind the seam
      have hlast := congrArg List.getLast? htaken
      rw [List.getLast?_append_of_ne_nil _ (List.cons_ne_nil _ _),
        List.getLast?_append_of_ne_nil _ (List.cons_ne_nil _ _)] at hlast
      have hmem : quote ∈ d :: beyond := List.mem_of_getLast? hlast.symm
      exact absurd (List.mem_append_left more hmem) (hmore.quote_not_mem hq)
    | openParen | closeParen | comma =>
      simp at hlength
    | _ => cases hinside

theorem EndsWord.left_of_append {left more : List Char} (h : EndsWord (left ++ more)) :
    EndsWord left := by
  cases left with
  | nil => trivial
  | cons c left => exact h

/-- A token that stands inside directives is cut off alike if less follows it. -/
theorem Token.IsCut.left_of_append {left more : List Char} (h : token.IsCut .code taken rest)
    (hinside : token.standsInside = true) (hrest : rest = left ++ more) :
    token.IsCut .code taken left := by
  cases h with
  | word h hr => exact .word h (hrest ▸ hr).left_of_append
  | integer h hr =>
    refine .integer h fun d hd => hr d ?_
    rw [hrest, List.head?_append, Option.mem_def.1 hd]
    rfl
  | string hq h => exact .string hq h _
  | openParen => exact .openParen _
  | closeParen => exact .closeParen _
  | comma => exact .comma _
  | _ => cases hinside

/-- A first token that stands inside directives is that of the input before the seam, unless there
is nothing but white space. -/
theorem exists_next?_of_scan_append {more : List Char} {ts : List Token}
    (h : scan initial .code (input ++ more) = token :: ts) (hinside : token.standsInside = true)
    (hmore : EndsInside more) (hne : afterSkipped .code input ≠ []) :
    ∃ taken left, Piece.next? .code (afterSkipped .code input) = some ⟨token, taken, left⟩ ∧
      scan initial .code (left ++ more) = ts := by
  obtain ⟨taken, rest, hcut, hinput, hts⟩ := exists_isCut_of_scan_eq_cons h
  rw [Token.after_of_standsInside hinside] at hts
  rw [afterSkipped_append hne] at hinput
  obtain ⟨left, hleft, hrest⟩ : ∃ left, afterSkipped .code input = taken ++ left ∧
      rest = left ++ more := by
    rcases List.append_eq_append_iff.1 hinput with ⟨left, hleft, hrest⟩ | ⟨beyond, htaken, heq⟩
    · exact ⟨left, hleft, hrest⟩
    · rw [heq] at hmore
      obtain rfl := hcut.eq_nil_of_endsInside hinside htaken hne hmore
      exact ⟨[], by simp [htaken], by simp [heq]⟩
  refine ⟨taken, left, Piece.next?_eq_some_iff.2 ⟨?_, hleft.symm⟩, by rwa [hrest] at hts⟩
  exact hcut.left_of_append hinside hrest

/-- Tokens that stand inside directives and are scanned first across a seam, all stand before it, or
all of the input before it is scanned as the first of them. -/
theorem scan_of_scan_append {more : List Char} {ts us : List Token} (hmore : EndsInside more)
    (hts : ∀ t ∈ ts, t.standsInside = true)
    (h : scan initial .code (input ++ more) = ts ++ us) :
    (∃ left, scan other .code input = ts ++ scan other .code left ∧
        scan initial .code (left ++ more) = us) ∨
      ∃ beyond, ts = scan other .code input ++ beyond ∧ scan initial .code more = beyond ++ us := by
  induction ts generalizing input with
  | nil => exact .inl ⟨input, rfl, h⟩
  | cons t ts ih =>
    obtain ⟨ht, hts⟩ := List.forall_mem_cons.1 hts
    by_cases hskip : afterSkipped .code input = []
    · have hwhite := List.dropWhile_eq_nil_iff.1 hskip
      rw [scan_append_of_white hwhite] at h
      rw [scan_of_next?_eq_none (Piece.next?_eq_none_iff.2 hskip)]
      exact .inr ⟨t :: ts, rfl, h⟩
    · obtain ⟨taken, left, hpiece, hleft⟩ := exists_next?_of_scan_append h ht hmore hskip
      have hscan := @scan_of_next? other _ _ _ hpiece
      rw [Token.after_of_standsInside ht] at hscan
      rw [hscan]
      refine (ih hts hleft).imp ?_ ?_
      · rintro ⟨left', hfirst, hothers⟩
        exact ⟨left', by rw [hfirst, List.cons_append], hothers⟩
      · rintro ⟨beyond, hfirst, hothers⟩
        exact ⟨beyond, by rw [hfirst, List.cons_append], hothers⟩

/-! ## Text -/

theorem Token.after_of_closes (h : token.closes = true) (current initial : Mode) :
    current.after initial token = initial := by
  cases token with
  | closeExpression | closeStatement => rfl
  | _ => cases h

/-- A source in text mode that ends with a closing bracket, or is empty, leaves nothing behind for
what follows it. -/
theorem scan_append_of_closes (hnil : scan .text current input = [] → current = .text)
    (hlast : ∀ t ∈ (scan .text current input).getLast?, t.closes = true) (more : List Char) :
    scan .text current (input ++ more) = scan .text current input ++ scan .text .text more := by
  refine @scan_induction .text (fun current input ts => (ts = [] → current = .text) →
    (∀ t ∈ ts.getLast?, t.closes = true) →
      scan .text current (input ++ more) = ts ++ scan .text .text more)
    ?_ ?_ current input hnil hlast
  · intro current input hnone hnil _
    obtain rfl := hnil rfl
    obtain rfl : input = [] := Piece.next?_eq_none_iff.1 hnone
    rfl
  · intro current input piece hpiece ih _ hlast
    generalize hothers : scan .text (current.after .text piece.token) piece.rest = others
      at ih hlast ⊢
    have hcloses : others = [] → piece.token.closes = true := by
      rintro rfl
      exact hlast _ rfl
    have hcut : piece.token.IsCut current piece.taken (piece.rest ++ more) := by
      have hcut := (Piece.next?_eq_some_iff.1 hpiece).1
      by_cases hrest : piece.rest = []
      · rw [hrest, scan_nil] at hothers
        rw [hrest] at hcut ⊢
        exact hcut.append_of_settled (.inl (hcloses hothers.symm))
      · exact hcut.append_of_ne_nil hrest more
    rw [scan_append_of_next? hpiece hcut, List.cons_append]
    refine congrArg _ (ih (fun hnone => ?_) fun t ht => ?_)
    · exact Token.after_of_closes (hcloses hnone) current .text
    · cases others with
      | nil => cases ht
      | cons next others => exact hlast t (by rwa [List.getLast?_cons_cons])

/-- In text mode nothing is skipped. -/
theorem eq_nil_of_scan_eq_nil (h : scan initial .text input = []) : input = [] := by
  cases hpiece : Piece.next? .text input with
  | none => exact Piece.next?_eq_none_iff.1 hpiece
  | some piece =>
    rw [@scan_of_next? initial .text input piece hpiece] at h
    cases h

/-- Of a source in text mode that ends with a run of text, the run is scanned again together with
what follows it. -/
theorem scan_append_of_text {ts : List Token} {content : String}
    (h : scan .text current input = ts ++ [.text content]) (more : List Char) :
    content.toList <:+ input ∧
      scan .text current (input ++ more) = ts ++ scan .text .text (content.toList ++ more) := by
  refine @scan_induction .text (fun current input tokens => ∀ ts, tokens = ts ++ [.text content] →
    content.toList <:+ input ∧
      scan .text current (input ++ more) = ts ++ scan .text .text (content.toList ++ more))
    ?_ ?_ current input ts h
  · intro _ _ _ ts hts
    simp at hts
  · intro current input piece hpiece ih ts hts
    obtain ⟨hcut, hinput⟩ := Piece.next?_eq_some_iff.1 hpiece
    cases ts with
    | nil =>
      -- the run of text is all there is
      obtain ⟨htoken, hothers⟩ := List.cons.inj hts
      rw [htoken] at hcut hothers
      obtain ⟨rfl, htaken, -⟩ := hcut.of_text
      have hrest : piece.rest = [] := eq_nil_of_scan_eq_nil hothers
      obtain rfl : content.toList = input := by
        rw [← htaken, ← List.append_nil piece.taken, ← hrest]
        exact hinput
      exact ⟨List.suffix_rfl, rfl⟩
    | cons t ts =>
      obtain ⟨rfl, hothers⟩ := List.cons.inj hts
      have hrest : piece.rest ≠ [] := by
        intro hnil
        rw [hnil, scan_nil] at hothers
        simp at hothers
      obtain ⟨hsuffix, hscan⟩ := ih ts hothers
      refine ⟨hsuffix.trans ?_, ?_⟩
      · refine ⟨skipped current input ++ piece.taken, ?_⟩
        rw [List.append_assoc, hinput, skipped_append_afterSkipped]
      · rw [scan_append_of_next? hpiece (hcut.append_of_ne_nil hrest more), hscan]
        rfl

/-- What begins with no run of text is empty or begins with a directive. -/
theorem startsDirective_of_scan (h : ∀ t ∈ (scan initial .text input).head?, t.isText = false) :
    input = [] ∨ startsDirective input = true := by
  cases input with
  | nil => exact .inl rfl
  | cons c rest =>
    obtain ⟨piece, hpiece, hshape⟩ := Piece.ofText?_cons c rest
    by_cases hstarts : startsDirective (c :: rest) = true
    · exact .inr hstarts
    · rw [if_neg hstarts] at hshape
      rw [@scan_of_next? initial .text _ _ hpiece] at h
      have htext := h _ rfl
      rw [hshape] at htext
      cases htext

/-- Where a run of text is scanned first, it stands at the front of the input, up to its end. -/
theorem exists_of_scan_eq_text_cons {content : String} {ts : List Token}
    (h : scan .text .text input = .text content :: ts) :
    ∃ rest, input = content.toList ++ rest ∧ ts = scan .text .text rest ∧
      (Token.text content).WellFormed ∧ EndsText content.toList rest := by
  obtain ⟨taken, rest, hcut, hinput, hts⟩ := exists_isCut_of_scan_eq_cons h
  obtain ⟨-, rfl, hwell, hends⟩ := hcut.of_text
  exact ⟨rest, hinput.symm, hts.symm, hwell, hends⟩

/-- Two runs of text that meet are one, unless a bracket begins at the end of the first. -/
theorem scan_text_append {content next : String} {more : List Char} {ts : List Token}
    (h : (Token.text content).WellFormed) (hlast : content.toList.getLast? ≠ some '\x7b')
    (hmore : scan .text .text more = .text next :: ts) :
    scan .text .text (content.toList ++ more) = .text (content ++ next) :: ts := by
  obtain ⟨rest, rfl, rfl, hnext, hends⟩ := exists_of_scan_eq_text_cons hmore
  have hne : next.toList ≠ [] := fun hnil => hnext.1 (String.toList_eq_nil_iff.1 hnil)
  have hwell : (Token.text (content ++ next)).WellFormed := by
    refine ⟨fun hempty => h.1 (String.append_eq_empty_iff.1 hempty).1, ?_⟩
    rw [String.toList_append, splitText_append_of_getLast? h.2 hlast, hnext.2]
  have hends' : EndsText (content ++ next).toList rest := by
    refine hends.imp_right fun ⟨hstarts, hnext⟩ => ⟨hstarts, ?_⟩
    rwa [String.toList_append, List.getLast?_append_of_ne_nil _ hne]
  rw [← List.append_assoc, ← String.toList_append, scan_text hwell hends']

end Stencil
