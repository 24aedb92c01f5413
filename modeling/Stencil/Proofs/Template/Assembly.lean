import Stencil.Proofs.Lexeme.Seams
import Stencil.Proofs.Template.RoundTrip

/-!
# Templates made of templates

What a source means does not depend on where it stands. A source put behind another one is parsed
as if it stood alone, except that two runs of text that meet become one; and a source put between
the directives of a block is parsed to the body of that block, except that a body loses the spaces
and tabs at its edges. The same holds of the patterns and expressions that a directive is made of.

Only a brace at the end of a source goes together with what follows, so it is excluded.

* `scan_append_tokensOf` and `scan_append_tokensOf_text` are the two kinds of seam.
* `parse_append`: two templates, one behind the other.
* `parse_block`: a block, from its parts.
-/

namespace Stencil

open TextStatement

/-! ## Token forms, put together -/

namespace TextStatement

theorem tokensOf_append (us ws : List TextStatement) :
    tokensOf (us ++ ws) = tokensOf us ++ tokensOf ws := by
  induction us with
  | nil => rfl
  | cons u us ih => rw [List.cons_append, tokensOf_cons, ih, tokensOf_cons, List.append_assoc]

theorem trimmedOf_eq_map (us : List TextStatement) : trimmedOf us = us.map trimmed := by
  induction us with
  | nil => rfl
  | cons u us ih => rw [trimmedOf, ih, List.map_cons]

theorem trimmed_eq_plain_iff {u : TextStatement} {content : String} :
    u.trimmed = .plain content ↔ u = .plain content := by
  cases u <;> simp [trimmed]

theorem isText_of_mem_map_trimmed {u? : Option TextStatement}
    (h : ∀ u ∈ u?.map trimmed, u.isText = false) : ∀ u ∈ u?, u.isText = false := by
  intro u hu
  rw [← isText_trimmed]
  exact h _ (Option.mem_map_of_mem trimmed hu)

/-- A directive ends with its closing bracket. -/
theorem closes_of_mem_getLast? {u : TextStatement} (hu : u.isText = false) {t : Token}
    (ht : t ∈ u.tokens.getLast?) : t.closes = true := by
  cases u with
  | plain content => cases hu
  | interpolation e =>
    cases ht
    rfl
  | forIn binder e body | join binder e f body =>
    simp only [tokens_forIn, tokens_join, Construct.blockTokens, endTokens,
      List.getLast?_append] at ht
    cases ht
    rfl

/-- A token form begins with text where its template does. -/
theorem isText_of_mem_head?_tokensOf {us : List TextStatement}
    (h : ∀ u ∈ us.head?, u.isText = false) {t : Token} (ht : t ∈ (tokensOf us).head?) :
    t.isText = false := by
  cases us with
  | nil => cases ht
  | cons u us =>
    have hu := h u rfl
    cases u with
    | plain content => cases hu
    | _ =>
      cases ht
      rfl

end TextStatement

/-! ## Seams -/

section Seams

variable {us : List TextStatement} {ts : List Token} {content next : String}
  {chars more : List Char}

/-- A run of text at the end of a source ends as the source does. -/
theorem text_of_scan_eq (h : scan .text .text chars = ts ++ [.text content])
    (hlast : chars.getLast? ≠ some '\x7b') :
    (Token.text content).WellFormed ∧ content.toList.getLast? ≠ some '\x7b' := by
  have hmem : .text content ∈ scan .text .text chars := by simp [h]
  have hwell : (Token.text content).WellFormed := wellFormed_of_mem_scan hmem
  have hne : content.toList ≠ [] := fun hnil => hwell.1 (String.toList_eq_nil_iff.1 hnil)
  obtain ⟨⟨before, rfl⟩, -⟩ := scan_append_of_text h []
  rw [List.getLast?_append_of_ne_nil _ hne] at hlast
  exact ⟨hwell, hlast⟩

/-- Where no two runs of text meet, both sources are scanned as they are. -/
theorem scan_append_tokensOf (h : scan .text .text chars = tokensOf us)
    (hlast : chars.getLast? ≠ some '\x7b')
    (hseam : (∀ u ∈ us.getLast?, u.isText = false) ∨
      ∀ t ∈ (scan .text .text more).head?, t.isText = false) :
    scan .text .text (chars ++ more) = tokensOf us ++ scan .text .text more := by
  rcases us.eq_nil_or_concat' with rfl | ⟨us, u, rfl⟩
  · obtain rfl := eq_nil_of_scan_eq_nil h
    rfl
  rw [tokensOf_append, tokensOf_cons, tokensOf_nil, List.append_nil] at h ⊢
  cases hu : u.isText with
  | false =>
    -- the source ends with a closing bracket
    rw [← h]
    refine scan_append_of_closes (fun _ => rfl) (fun t ht => ?_) more
    obtain ⟨first, others, hfirst⟩ := exists_tokens_eq_cons u
    have hne : u.tokens ≠ [] := by simp [hfirst]
    rw [h, List.getLast?_append_of_ne_nil _ hne] at ht
    exact closes_of_mem_getLast? hu ht
  | true =>
    obtain ⟨content, rfl⟩ := isText_eq_true_iff.1 hu
    have hmore : more = [] ∨ startsDirective more = true := by
      refine startsDirective_of_scan (hseam.resolve_left fun hdirective => ?_)
      simp [isText] at hdirective
    obtain ⟨hwell, hcontent⟩ := text_of_scan_eq h hlast
    have hends : EndsText content.toList more := hmore.imp_right fun hstarts => ⟨hstarts, hcontent⟩
    rw [(scan_append_of_text h more).2, scan_text hwell hends, List.append_assoc]
    rfl

/-- Where two runs of text meet, they are scanned as one. -/
theorem scan_append_tokensOf_text
    (h : scan .text .text chars = tokensOf us ++ [.text content])
    (hlast : chars.getLast? ≠ some '\x7b')
    (hmore : scan .text .text more = .text next :: ts) :
    scan .text .text (chars ++ more) = tokensOf us ++ .text (content ++ next) :: ts := by
  obtain ⟨hwell, hcontent⟩ := text_of_scan_eq h hlast
  rw [(scan_append_of_text h more).2, scan_text_append hwell hcontent hmore]

end Seams

/-! ## One template behind another -/

/-- Of two templates that are put one behind the other, the statements are those of the first and
those of the second; but if a run of text ends the first and one begins the second, these two are
one. -/
theorem parse_append {source other : String} {first second : List TextStatement}
    (hfirst : parse source = .ok first) (hsecond : parse other = .ok second)
    (hlast : source.toList.getLast? ≠ some '\x7b') :
    ((∀ u ∈ first.getLast?, u.isText = false) ∨ (∀ u ∈ second.head?, u.isText = false) →
        parse (source ++ other) = .ok (first ++ second)) ∧
      ∀ us content next ws, first = us ++ [.plain content] → second = .plain next :: ws →
        parse (source ++ other) = .ok (us ++ .plain (content ++ next) :: ws) := by
  obtain ⟨us, hus, rfl⟩ := parse_eq_ok_iff.1 hfirst
  obtain ⟨ws, hws, rfl⟩ := parse_eq_ok_iff.1 hsecond
  rw [tokens_eq_scan] at hus hws
  simp only [trimmedOf_eq_map, List.getLast?_map, List.head?_map]
  constructor
  · intro hseam
    refine parse_eq_ok_iff.2 ⟨us ++ ws, ?_, by rw [trimmedOf_eq_map, List.map_append]⟩
    have hmore : (∀ u ∈ us.getLast?, u.isText = false) ∨
        ∀ t ∈ (scan .text .text other.toList).head?, t.isText = false := by
      rw [hws]
      refine hseam.imp isText_of_mem_map_trimmed fun hhead t => ?_
      exact isText_of_mem_head?_tokensOf (isText_of_mem_map_trimmed hhead)
    rw [tokens_eq_scan, String.toList_append, scan_append_tokensOf hus hlast hmore, hws,
      tokensOf_append]
  · intro before content next after hbefore hafter
    obtain ⟨us, last, rfl, rfl, hcontent⟩ := List.map_eq_append_iff.1 hbefore
    obtain ⟨u, rfl, hu⟩ := List.map_eq_singleton_iff.1 hcontent
    obtain ⟨w, ws, rfl, hw, rfl⟩ := List.map_eq_cons_iff.1 hafter
    obtain rfl := trimmed_eq_plain_iff.1 hu
    obtain rfl := trimmed_eq_plain_iff.1 hw
    refine parse_eq_ok_iff.2 ⟨us ++ .plain (content ++ next) :: ws, ?_, ?_⟩
    · rw [tokensOf_append] at hus
      rw [tokens_eq_scan, String.toList_append, scan_append_tokensOf_text hus hlast hws,
        tokensOf_append]
      rfl
    · rw [trimmedOf_eq_map, List.map_append]
      rfl

/-- A closing bracket before a brace, a run of text across the seam, and a block behind it. -/
theorem parse_append_braces :
    parse "\x7b\x7bx\x7d\x7d\x7d%" = .ok [.interpolation (.reference "x"), .plain "\x7d%"] ∧
      parse "\x7d\x7b \x7b%for (y, z) in 'w'%\x7d \x7b%endfor%\x7d" = .ok [.plain "\x7d\x7b ",
        .forIn (.tuple [.var "y", .var "z"]) (.literal (.string "w")) []] ∧
      parse ("\x7b\x7bx\x7d\x7d\x7d%" ++
          "\x7d\x7b \x7b%for (y, z) in 'w'%\x7d \x7b%endfor%\x7d") =
        .ok [.interpolation (.reference "x"), .plain "\x7d%\x7d\x7b ",
          .forIn (.tuple [.var "y", .var "z"]) (.literal (.string "w")) []] := by
  have hfirst : parse "\x7b\x7bx\x7d\x7d\x7d%" =
      .ok [.interpolation (.reference "x"), .plain "\x7d%"] := by decide +kernel
  have hsecond : parse "\x7d\x7b \x7b%for (y, z) in 'w'%\x7d \x7b%endfor%\x7d" =
      .ok [.plain "\x7d\x7b ",
        .forIn (.tuple [.var "y", .var "z"]) (.literal (.string "w")) []] := by decide +kernel
  refine ⟨hfirst, hsecond, ?_⟩
  exact (parse_append hfirst hsecond (by decide)).2 [.interpolation (.reference "x")] _ _ _ rfl rfl

/-! ## What stands inside a directive -/

/-- What an exact parser reads a whole source to has the tokens of that source. -/
theorem parseAs_eq_ok_iff_of_exact {α : Type} {p : Parser α} {form : α → List Token}
    (hp : p.Exact form) {mode : Mode} {name : Option String} {source : String} {v : α} :
    parseAs (p.seqLeft Parser.endOfInput) mode name source = .ok v ↔
      tokens mode source = form v := by
  rw [parseAs_eq_ok_iff, ← tokens_ofSource]
  simp only [Parser.seqLeft, Parser.accepts_seqWith_iff, Parser.accepts_endOfInput_iff,
    hp _ _ _ _]
  constructor
  · rintro ⟨rest, _, _, middle, _, _, ⟨rfl, h⟩, ⟨-, hrest, rfl⟩, -, rfl⟩
    simpa [Input.tokens, hrest] using h.tokens_eq
  · intro h
    obtain ⟨rest, hreaches, hrest⟩ := Input.exists_reaches (h.trans (List.append_nil _).symm)
    exact ⟨rest, [], v, rest, [], (), ⟨rfl, hreaches⟩,
      ⟨rfl, by simpa [Input.tokens] using hrest, rfl⟩, rfl, rfl⟩

/-- A source that was read on its own is scanned alike within a directive. -/
theorem scan_of_tokens_eq {source : String} {ts : List Token} (h : tokens .code source = ts)
    (hts : ∀ t ∈ ts, t.standsInside = true) {rest : List Char} (hr : EndsWord rest) :
    scan .text .code (source.toList ++ rest) = ts ++ scan .text .code rest := by
  subst h
  exact scan_append_of_standsInside hts hr

theorem scan_of_parsePattern {source : String} {p : Pattern} (h : parsePattern source = .ok p)
    {rest : List Char} (hr : EndsWord rest) :
    scan .text .code (source.toList ++ rest) = p.tokens ++ scan .text .code rest :=
  scan_of_tokens_eq ((parseAs_eq_ok_iff_of_exact Parser.exact_pattern).1 h)
    (fun _ => Pattern.standsInside_of_mem_tokens) hr

theorem scan_of_parseExpression {source : String} {e : Expression}
    (h : parseExpression source = .ok e) {rest : List Char} (hr : EndsWord rest) :
    scan .text .code (source.toList ++ rest) = [e.token] ++ scan .text .code rest := by
  refine scan_of_tokens_eq ((parseAs_eq_ok_iff_of_exact Parser.exact_textExpression).1 h) ?_ hr
  intro t ht
  obtain rfl := List.mem_singleton.1 ht
  exact e.standsInside_token

/-! ## Blocks -/

/-- The directive that ends a block, as it is written. -/
def endSource (word : Keyword) : List Char :=
  '\x7b' :: '%' :: ' ' :: (word.spelling.toList ++ [' ', '%', '\x7d'])

/-- A template before the directive that ends a block. -/
theorem scan_body_end {us : List TextStatement} {body : List Char}
    (h : scan .text .text body = tokensOf us) (hlast : body.getLast? ≠ some '\x7b')
    (word : Keyword) :
    scan .text .text (body ++ endSource word) = tokensOf us ++ endTokens word := by
  have hend : scan .text .text (endSource word) = endTokens word := by
    rw [endSource, scan_end, scan_nil, List.append_nil]
  rw [scan_append_tokensOf h hlast, hend]
  right
  rw [hend]
  rintro t ⟨⟩
  rfl

/-- A block is parsed to a block of what its parts are parsed to, with the edges of the body
trimmed. -/
theorem parse_block {binder iterable separator body : String} {p : Pattern} {e f : Expression}
    {template : List TextStatement} (hp : parsePattern binder = .ok p)
    (he : parseExpression iterable = .ok e) (hf : parseExpression separator = .ok f)
    (hbody : parse body = .ok template) (hlast : body.toList.getLast? ≠ some '\x7b') :
    parse ("\x7b% for " ++ binder ++ " in " ++ iterable ++ " %\x7d" ++ body ++
        "\x7b% endfor %\x7d") = .ok [.forIn p e (trim template)] ∧
      parse ("\x7b% join " ++ binder ++ " in " ++ iterable ++ " with " ++ separator ++ " %\x7d" ++
        body ++ "\x7b% endjoin %\x7d") = .ok [.join p e f (trim template)] := by
  obtain ⟨us, hus, rfl⟩ := parse_eq_ok_iff.1 hbody
  constructor
  · refine parse_eq_ok_iff.2 ⟨[.forIn p e us], ?_, rfl⟩
    have hscan := scan_forIn (scan_of_parsePattern hp) (scan_of_parseExpression he)
      (body.toList ++ endSource Keyword.endFor)
    rw [scan_body_end hus hlast] at hscan
    rw [tokens_eq_scan, tokensOf_cons, tokensOf_nil, List.append_nil, tokens_forIn,
      Construct.blockTokens, Construct.closing, ← hscan]
    simp only [String.toList_append, List.append_assoc]
    rfl
  · refine parse_eq_ok_iff.2 ⟨[.join p e f us], ?_, rfl⟩
    have hscan := scan_join (scan_of_parsePattern hp) (scan_of_parseExpression he)
      (scan_of_parseExpression hf) (body.toList ++ endSource Keyword.endJoin)
    rw [scan_body_end hus hlast] at hscan
    rw [tokens_eq_scan, tokensOf_cons, tokensOf_nil, List.append_nil, tokens_join,
      Construct.blockTokens, Construct.closing, ← hscan]
    simp only [String.toList_append, List.append_assoc]
    rfl

/-- An instance with a closing bracket in a string, and a body that has spaces at both edges and
blocks of both kinds. -/
theorem parse_block_nested :
    ∃ (body : String) (inner : List TextStatement),
      body = " \t\x7b%for y in x%\x7d \x7b\x7by\x7d\x7d\x7b%endfor%\x7d" ++
        "\x7b%join y in x with '\x7b% endjoin %\x7d'%\x7d\x7d\x7b%endjoin%\x7d  " ∧
      inner = [.forIn (.var "y") (.reference "x") [.interpolation (.reference "y")],
        .join (.var "y") (.reference "x") (.literal (.string "\x7b% endjoin %\x7d"))
          [.plain "\x7d"]] ∧
      parsePattern "( a ,(b))\n" = .ok (.tuple [.var "a", .tuple [.var "b"]]) ∧
      parseExpression "'%\x7d'" = .ok (.literal (.string "%\x7d")) ∧
      parseExpression " 7" = .ok (.literal (.integer "7")) ∧
      parse body = .ok (.plain " \t" :: (inner ++ [.plain "  "])) ∧
      parse ("\x7b% for " ++ "( a ,(b))\n" ++ " in " ++ "'%\x7d'" ++ " %\x7d" ++ body ++
          "\x7b% endfor %\x7d") =
        .ok [.forIn (.tuple [.var "a", .tuple [.var "b"]]) (.literal (.string "%\x7d")) inner] ∧
      parse ("\x7b% join " ++ "( a ,(b))\n" ++ " in " ++ "'%\x7d'" ++ " with " ++ " 7" ++
          " %\x7d" ++ body ++ "\x7b% endjoin %\x7d") =
        .ok [.join (.tuple [.var "a", .tuple [.var "b"]]) (.literal (.string "%\x7d"))
          (.literal (.integer "7")) inner] := by
  refine ⟨_, _, rfl, rfl, ?_⟩
  have hp : parsePattern "( a ,(b))\n" = .ok (.tuple [.var "a", .tuple [.var "b"]]) := by
    decide +kernel
  have he : parseExpression "'%\x7d'" = .ok (.literal (.string "%\x7d")) := by decide +kernel
  have hf : parseExpression " 7" = .ok (.literal (.integer "7")) := by decide +kernel
  refine ⟨hp, he, hf, (and_iff_left_of_imp fun hbody => ?_).2 (by decide +kernel)⟩
  exact parse_block hp he hf hbody (by decide)

end Stencil
