import Stencil.Proofs.Lexeme.Lossless
import Stencil.Proofs.Lexeme.Modes
import Stencil.Proofs.Template.Assembly
import Stencil.Proofs.Template.Complete
import Stencil.Proofs.Template.NormalForm

/-!
# Fragments of templates

A statement, an expression or a pattern can be read on its own, apart from a template. Each of them
is then what it is within a template that holds nothing else.

* `parsePattern_exact`: a pattern is read from its tokens and from no others.
* `scan_eq_or_of_scan_append`: what is put into a directive is scanned as what stands there, unless
  the directive ends in it; `scan_eq_of_scan_interpolation` and `scan_eq_of_scan_forIn` say that
  it does not, if the template is that directive alone.
* `parse_fragments`: the fragments and the templates made of them.
* `parse_eq_ok_plain_iff`: the templates that are a run of text and nothing else.
-/

namespace Stencil

open TextStatement

/-! ## Patterns -/

/-- The name that a token is, if it is an identifier. -/
def Token.name? : Token → Option String
  | .identifier name => some name
  | _ => none

namespace Pattern

mutual

theorem filterMap_name?_tokens (p : Pattern) : p.tokens.filterMap Token.name? = p.boundNames := by
  match p with
  | .var _ => rfl
  | .tuple ps =>
    have hps := filterMap_name?_tokensOf true ps
    simpa [tokens, boundNames, Token.name?, List.filterMap_cons] using hps

/-- Between the names stand only parentheses and commas. -/
theorem filterMap_name?_tokensOf (first : Bool) (ps : List Pattern) :
    (tokensOf first ps).filterMap Token.name? = boundNamesOf ps := by
  match ps with
  | [] => rfl
  | p :: ps =>
    have hp := filterMap_name?_tokens p
    have hps := filterMap_name?_tokensOf false ps
    cases first <;> simp [tokensOf, boundNamesOf, Token.name?, List.filterMap_cons, hp, hps]

end

end Pattern

theorem tokens_patternSource {p : Pattern} (h : ∀ name ∈ p.boundNames, IsName name) :
    tokens .code p.source = p.tokens := by
  have hwell : ∀ t ∈ p.tokens, t.WellFormed := fun _ ht => wellFormed_of_mem_pattern h ht
  have hscan := @scan_pattern .code p hwell [] trivial
  rwa [List.append_nil, scan_nil, List.append_nil] at hscan

theorem parsePattern_eq_ok_iff {source : String} {p : Pattern} :
    parsePattern source = .ok p ↔ tokens .code source = p.tokens :=
  parseAs_eq_ok_iff_of_exact Parser.exact_pattern

/-- A pattern is read from its tokens and from no others, so there is at most one. It binds the
identifiers among the tokens, and it is read back from what it is written as. -/
theorem parsePattern_exact (source : String) (pattern : Pattern) :
    (parsePattern source = .ok pattern ↔ tokens .code source = pattern.tokens) ∧
      (∀ other : Pattern, tokens .code source = pattern.tokens →
        tokens .code source = other.tokens → pattern = other) ∧
      ((∀ name ∈ pattern.boundNames, IsName name) → parsePattern pattern.source = .ok pattern) ∧
      (parsePattern source = .ok pattern →
        pattern.boundNames = (tokens .code source).filterMap Token.name?) := by
  refine ⟨parsePattern_eq_ok_iff, fun other h h' => ?_, fun h => ?_, fun h => ?_⟩
  · have heq : pattern.tokens ++ [] = other.tokens ++ [] := by rw [← h, h']
    exact Parser.exact_pattern.append_inj heq
  · exact parsePattern_eq_ok_iff.2 (tokens_patternSource h)
  · rw [parsePattern_eq_ok_iff.1 h, Pattern.filterMap_name?_tokens]

/-- An empty tuple and a tuple of one element, within others. -/
theorem parsePattern_exact_nested :
    ∃ (source : String) (pattern : Pattern),
      source = "( a ,(_b,\n((in2), ())))" ∧
      pattern = .tuple [.var "a", .tuple [.var "_b", .tuple [.tuple [.var "in2"], .tuple []]]] ∧
      tokens .code source = pattern.tokens ∧ (∀ name ∈ pattern.boundNames, IsName name) ∧
      parsePattern source = .ok pattern ∧
      (∀ other : Pattern, tokens .code source = other.tokens → pattern = other) ∧
      parsePattern pattern.source = .ok pattern ∧
      pattern.boundNames = (tokens .code source).filterMap Token.name? := by
  refine ⟨_, _, rfl, rfl, (and_iff_left_of_imp fun htokens => ?_).2 (by decide +kernel)⟩
  refine (and_iff_left_of_imp fun hnames => ?_).2 (by decide +kernel)
  have hread := (parsePattern_exact _ _).1.2 htokens
  exact ⟨hread, fun other => (parsePattern_exact _ _).2.1 other htokens,
    (parsePattern_exact "" _).2.2.1 hnames, (parsePattern_exact _ _).2.2.2 hread⟩

/-! ## Statements -/

theorem parseStatement_eq_ok_iff {source : String} {u : TextStatement} :
    parseStatement source = .ok u ↔
      ∃ w : TextStatement, tokens .text source = w.tokens ∧ w.trimmed = u := by
  rw [parseStatement, parseAs_eq_ok_iff, ← tokens_ofSource]
  simp only [Parser.seqLeft, Parser.accepts_seqWith_iff, Parser.accepts_endOfInput_iff]
  constructor
  · rintro ⟨rest, es, _, middle, _, _, h, ⟨rfl, hrest, rfl⟩, hes, rfl⟩
    rw [List.append_nil] at hes
    subst hes
    obtain ⟨w, hw⟩ := Parser.reaches_of_accepts_statement h
    refine ⟨w, by simpa [Input.tokens, hrest] using hw.tokens_eq, ?_⟩
    exact ((Parser.accepts_statement_of_reaches hw).unique h).2.1
  · rintro ⟨w, hw, rfl⟩
    obtain ⟨rest, hreaches, hrest⟩ := Input.exists_reaches (hw.trans (List.append_nil _).symm)
    exact ⟨rest, [], _, rest, [], (), Parser.accepts_statement_of_reaches hreaches,
      ⟨rfl, by simpa [Input.tokens] using hrest, rfl⟩, rfl, rfl⟩

theorem parse_eq_ok_singleton_iff {source : String} {u : TextStatement} :
    parse source = .ok [u] ↔
      ∃ w : TextStatement, tokens .text source = w.tokens ∧ w.trimmed = u := by
  rw [parse_eq_ok_iff]
  constructor
  · rintro ⟨ws, hws, htrimmed⟩
    rw [trimmedOf_eq_map] at htrimmed
    obtain ⟨w, rfl, hw⟩ := List.map_eq_singleton_iff.1 htrimmed
    exact ⟨w, by simpa using hws, hw⟩
  · rintro ⟨w, hw, rfl⟩
    exact ⟨[w], by simpa using hw, rfl⟩

/-- A statement on its own is a template of one statement. -/
theorem parseStatement_eq_ok_iff_parse {source : String} {u : TextStatement} :
    parseStatement source = .ok u ↔ parse source = .ok [u] :=
  parseStatement_eq_ok_iff.trans parse_eq_ok_singleton_iff.symm

/-! ## What stands between brackets -/

section Brackets

variable {source left more : List Char} {t close : Token} {ts words us vs : List Token}

theorem takeWhile_standsInside (hwords : ∀ t ∈ words, t.standsInside = true)
    (hclose : close.standsInside = false) :
    (words ++ close :: us).takeWhile Token.standsInside = words := by
  rw [List.takeWhile_append_of_pos hwords, List.takeWhile_cons_of_neg (by simp [hclose]),
    List.append_nil]

/-- Before the last words of a directive and the bracket that ends it, a source is scanned as the
other tokens between the brackets, unless the source itself holds all of them. -/
theorem scan_eq_or_of_scan_append (hmore : EndsInside more)
    (hts : ∀ t ∈ ts, t.standsInside = true) (hwords : ∀ t ∈ words, t.standsInside = true)
    (hclose : close.standsInside = false) (hscan : scan .text .code more = words ++ close :: us)
    (h : scan .text .code (source ++ more) = (ts ++ words) ++ close :: vs) :
    scan .code .code source = ts ∨
      ∃ left, scan .code .code source = (ts ++ words) ++ scan .code .code left ∧
        scan .text .code (left ++ more) = close :: vs := by
  have hinside := List.forall_mem_append.2 ⟨hts, hwords⟩
  rcases scan_of_scan_append hmore hinside h with ⟨left, hsource, hleft⟩ |
    ⟨beyond, hsource, hbeyond⟩
  · exact .inr ⟨left, hsource, hleft⟩
  · rw [hsource, List.forall_mem_append] at hinside
    have htake := congrArg (List.takeWhile Token.standsInside) (hscan.symm.trans hbeyond)
    rw [takeWhile_standsInside hwords hclose, takeWhile_standsInside hinside.2 hclose] at htake
    rw [← htake] at hsource
    exact .inl (List.append_cancel_right hsource).symm

theorem endsInside_closeExpression : EndsInside ['\x7d', '\x7d'] :=
  ⟨rfl, by decide, by decide⟩

theorem scan_end_closeExpression : scan .text .code ['\x7d', '\x7d'] = [.closeExpression] := by
  rw [scan_closeExpression, scan_nil]

/-- If a closing bracket is all that is scanned of what it ends, nothing stands before it. -/
theorem scan_eq_nil_of_closeExpression
    (h : scan .text .code (left ++ ['\x7d', '\x7d']) = [.closeExpression]) :
    scan .code .code left = [] := by
  obtain ⟨taken, rest, hcut, hinput, hrest⟩ := exists_isCut_of_scan_eq_cons h
  obtain rfl := eq_nil_of_scan_eq_nil hrest
  have htaken : taken = ['\x7d', '\x7d'] := by simpa using congrArg String.toList hcut.isSpelled
  refine scan_of_next?_eq_none (Piece.next?_eq_none_iff.2 ?_)
  by_contra hskip
  rw [afterSkipped_append hskip, htaken, List.append_nil] at hinput
  exact hskip (List.self_eq_append_left.1 hinput)

/-- If an interpolation is all that is scanned, the token between its brackets is that of what is
written between them. -/
theorem scan_eq_of_scan_interpolation (ht : t.standsInside = true)
    (h : scan .text .code (source ++ ['\x7d', '\x7d']) = [t, .closeExpression]) :
    scan .code .code source = [t] := by
  rcases @scan_eq_or_of_scan_append _ _ _ [t] [] _ _ endsInside_closeExpression
    (by simpa using ht) (by simp) rfl scan_end_closeExpression h with hsource |
    ⟨left, hsource, hleft⟩
  · exact hsource
  · simpa [scan_eq_nil_of_closeExpression hleft] using hsource

/-- What stands behind the binder of the loop that a pattern is put into. -/
def loopRest : List Char :=
  ' ' :: (Keyword.in_.spelling.toList ++ ' ' :: 'y' :: ' ' :: '%' :: '\x7d' ::
    endSource Keyword.endFor)

theorem endsInside_loopRest : EndsInside loopRest :=
  ⟨rfl, by decide, by decide⟩

theorem scan_loopRest :
    scan .text .code loopRest =
      [.keyword .in_, .identifier "y"] ++ .closeStatement :: endTokens .endFor := by
  decide +kernel

/-- Behind its header, a loop whose body is made of spaces and tabs is written without this
letter. -/
theorem not_mem_spelling_of_mem_loop {body : List TextStatement}
    (hbody : ∀ u ∈ body, u.isPadding = true)
    (ht : t ∈ .closeStatement :: (tokensOf body ++ endTokens .endFor)) {spelling : String}
    (hspelling : t.IsSpelled spelling) : 'i' ∉ spelling.toList := by
  rcases List.mem_cons.1 ht with rfl | ht
  · cases hspelling
    decide
  rcases List.mem_append.1 ht with ht | ht
  · obtain ⟨u, hu, ht⟩ := mem_tokensOf.1 ht
    obtain ⟨content, rfl, hcontent⟩ := isPadding_eq_true_iff.1 (hbody u hu)
    obtain rfl := List.mem_singleton.1 ht
    intro hi
    rw [hspelling] at hi
    exact absurd (List.all_eq_true.1 hcontent 'i' hi) (by decide)
  · simp only [endTokens, List.mem_cons, List.not_mem_nil, or_false] at ht
    rcases ht with rfl | rfl | rfl <;> cases hspelling <;> decide

/-- If a loop with nothing but spaces and tabs for a body is all that is scanned, the tokens of its
binder are those of what is written in its place. -/
theorem scan_eq_of_scan_forIn {body : List TextStatement}
    (hbody : ∀ u ∈ body, u.isPadding = true) (hts : ∀ t ∈ ts, t.standsInside = true)
    (h : scan .text .code (source ++ loopRest) = (ts ++ [.keyword .in_, .identifier "y"]) ++
      .closeStatement :: (tokensOf body ++ endTokens .endFor)) :
    scan .code .code source = ts := by
  rcases scan_eq_or_of_scan_append endsInside_loopRest hts (by decide) rfl scan_loopRest h with
    hsource | ⟨left, -, hleft⟩
  · exact hsource
  · -- the header would end before the seam, and its last words would stand in no token
    have hi : 'i' ∈ left ++ loopRest := List.mem_append_right _ (by decide)
    obtain ⟨t, ht, spelling, hspelling, hmem⟩ := exists_isSpelled_of_mem hi rfl
    rw [hleft] at ht
    exact absurd hmem (not_mem_spelling_of_mem_loop hbody ht hspelling)

end Brackets

/-! ## Bodies of spaces -/

theorem isPadding_of_trimEnd_eq_nil {body : List TextStatement} (h : trimEnd body = []) :
    ∀ u ∈ body, u.isPadding = true := by
  fun_induction trimEnd body with
  | case1 => simp
  | case2 last hp => simpa using hp
  | case3 => cases h
  | case4 => cases h

/-- A body that trimming leaves nothing of is made of spaces and tabs. -/
theorem isPadding_of_trim_eq_nil {body : List TextStatement} (h : trim body = []) :
    ∀ u ∈ body, u.isPadding = true := by
  have hstart := isPadding_of_trimEnd_eq_nil h
  cases body with
  | nil => simp
  | cons first rest =>
    rw [trimStart] at hstart
    split at hstart
    · next hp => exact List.forall_mem_cons.2 ⟨hp, hstart⟩
    · exact hstart

theorem isPadding_of_trim_trimmedOf_eq_nil {body : List TextStatement}
    (h : trim (trimmedOf body) = []) : ∀ u ∈ body, u.isPadding = true := by
  intro u hu
  rw [← isPadding_trimmed]
  refine isPadding_of_trim_eq_nil h _ ?_
  rw [trimmedOf_eq_map]
  exact List.mem_map_of_mem hu

/-! ## Fragments and templates made of them -/

theorem parseExpression_eq_ok_iff {source : String} {e : Expression} :
    parseExpression source = .ok e ↔ tokens .code source = [e.token] :=
  parseAs_eq_ok_iff_of_exact Parser.exact_textExpression

/-- An expression on its own is a template of one interpolation. -/
theorem parseExpression_eq_ok_iff_parse {source : String} {e : Expression} :
    parseExpression source = .ok e ↔
      parse ("\x7b\x7b" ++ source ++ "\x7d\x7d") = .ok [.interpolation e] := by
  have hscan : tokens .text ("\x7b\x7b" ++ source ++ "\x7d\x7d") =
      .openExpression :: scan .text .code (source.toList ++ ['\x7d', '\x7d']) := by
    rw [tokens_eq_scan, String.toList_append, String.toList_append, List.append_assoc]
    exact scan_openExpression _
  rw [parse_eq_ok_singleton_iff, hscan]
  constructor
  · intro h
    refine ⟨.interpolation e, ?_, rfl⟩
    rw [scan_of_parseExpression h endsInside_closeExpression.endsWord, scan_end_closeExpression]
    rfl
  · rintro ⟨w, hw, htrimmed⟩
    cases w with
    | interpolation f =>
      obtain rfl : f = e := by simpa [trimmed] using htrimmed
      refine parseExpression_eq_ok_iff.2 ((tokens_eq_scan _ _).trans ?_)
      exact scan_eq_of_scan_interpolation f.standsInside_token (List.cons.inj hw).2
    | _ => cases htrimmed

/-- A pattern on its own is a template of one loop, which has it as its binder. -/
theorem parsePattern_eq_ok_iff_parse {source : String} {p : Pattern} :
    parsePattern source = .ok p ↔
      parse ("\x7b% for " ++ source ++ " in y %\x7d\x7b% endfor %\x7d") =
        .ok [.forIn p (.reference "y") []] := by
  have hscan : tokens .text ("\x7b% for " ++ source ++ " in y %\x7d\x7b% endfor %\x7d") =
      .openStatement :: .keyword .for_ :: scan .text .code (source.toList ++ loopRest) := by
    have hchars : ("\x7b% for " ++ source ++ " in y %\x7d\x7b% endfor %\x7d").toList =
        '\x7b' :: '%' :: ' ' ::
          (Keyword.for_.spelling.toList ++ ' ' :: (source.toList ++ loopRest)) := by
      rw [String.toList_append, String.toList_append, List.append_assoc]
      rfl
    rw [tokens_eq_scan, hchars, scan_openStatement, scan_space, scan_keyword _ (endsWord_space _),
      scan_space]
  rw [parse_eq_ok_singleton_iff, hscan]
  constructor
  · intro h
    refine ⟨.forIn p (.reference "y") [], ?_, rfl⟩
    rw [scan_of_parsePattern h endsInside_loopRest.endsWord, scan_loopRest]
    simp [Construct.blockTokens, Construct.openingTokens, Construct.opening, Construct.closing,
      forInTokens, Expression.token]
  · rintro ⟨w, hw, htrimmed⟩
    cases w with
    | forIn q f body =>
      obtain ⟨rfl, rfl, hbody⟩ : q = p ∧ f = .reference "y" ∧ trim (trimmedOf body) = [] := by
        simpa [trimmed] using htrimmed
      refine parsePattern_eq_ok_iff.2 ((tokens_eq_scan _ _).trans ?_)
      refine scan_eq_of_scan_forIn (isPadding_of_trim_trimmedOf_eq_nil hbody)
        (fun _ => Pattern.standsInside_of_mem_tokens) ?_
      simpa [Construct.blockTokens, Construct.openingTokens, Construct.opening,
        Construct.closing, forInTokens, Expression.token] using hw
    | _ => cases htrimmed

/-- A statement, an expression or a pattern that is read on its own is what it is in a template that
holds nothing else. -/
theorem parse_fragments (source : String) :
    (∀ u : TextStatement, parseStatement source = .ok u ↔ parse source = .ok [u]) ∧
      (∀ e : Expression, parseExpression source = .ok e ↔
        parse ("\x7b\x7b" ++ source ++ "\x7d\x7d") = .ok [.interpolation e]) ∧
      ∀ p : Pattern, parsePattern source = .ok p ↔
        parse ("\x7b% for " ++ source ++ " in y %\x7d\x7b% endfor %\x7d") =
          .ok [.forIn p (.reference "y") []] :=
  ⟨fun _ => parseStatement_eq_ok_iff_parse, fun _ => parseExpression_eq_ok_iff_parse,
    fun _ => parsePattern_eq_ok_iff_parse⟩

/-! ## Text -/

/-- A template is one run of text, which is all of the source, exactly if the source is not empty
and no directive opens in it. -/
theorem parse_eq_ok_plain_iff (source : String) :
    parse source = .ok [.plain source] ↔
      source ≠ "" ∧ ¬ ['\x7b', '\x7b'] <:+: source.toList ∧ ¬ ['\x7b', '%'] <:+: source.toList := by
  rw [← not_or, ← HoldsOpening, ← Token.wellFormed_text_iff, parse_eq_ok_singleton_iff]
  simp only [trimmed_eq_plain_iff, exists_eq_right, tokens_plain, tokens_eq_scan]
  constructor
  · intro h
    exact wellFormed_of_mem_scan (h ▸ List.mem_singleton_self _)
  · intro h
    have hscan := @scan_text .text [] source h (.inl rfl)
    rwa [List.append_nil, scan_nil] at hscan

end Stencil
