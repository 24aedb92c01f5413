import Stencil.Proofs.Template.RoundTrip

/-!
# Nothing is lost and nothing is invented

A template that was read from a source is written with the tokens of the source, except for the
runs of spaces and tabs at the edges of the bodies of blocks. Where these stand can be seen from
the tokens alone: directly behind the header of a block, or directly before an end directive.

* `withoutEdgePadding` leaves out these tokens and keeps the others in order.
* `keptBetween_tokensOf`: of the token form of a template it leaves the token form of the trimmed
  template.
* `tokens_sources_of_parse` is the statement about sources.
-/

namespace Stencil

/-! ## Padding at the edges of bodies -/

/-- Whether a token is a run of spaces and tabs. -/
def Token.isPadding : Token → Bool
  | .text content => Parser.isPadding content
  | _ => false

/-- Whether the innermost directive that is open before a place is the header of a block. The
tokens before the place are given nearest first. -/
def inHeader : List Token → Bool
  | [] => false
  | .openStatement :: _ => false
  | .keyword word :: .openStatement :: _ => word = .for_ || word = .join
  | _ :: before => inHeader before

/-- Whether the header of a block ends directly before a place. -/
def followsHeader : List Token → Bool
  | .closeStatement :: before => inHeader before
  | _ => false

/-- Whether an end directive stands directly behind a place. -/
def precedesEnd : List Token → Bool
  | .openStatement :: .keyword word :: .closeStatement :: _ => word.isEnd
  | _ => false

/-- Whether a token is a run of spaces and tabs at the edge of a body, from the tokens before it,
nearest first, and those behind it. -/
def isEdgePadding (before : List Token) (token : Token) (after : List Token) : Bool :=
  token.isPadding && (followsHeader before || precedesEnd after)

/-- Of tokens that stand between others, those that are not padding at the edge of a body. -/
def keptBetween (before after : List Token) : List Token → List Token
  | [] => []
  | token :: ts =>
    if isEdgePadding before token (ts ++ after) then keptBetween (token :: before) after ts
    else token :: keptBetween (token :: before) after ts

/-- The tokens of a source without the padding at the edges of bodies. -/
def withoutEdgePadding (ts : List Token) : List Token :=
  keptBetween [] [] ts

theorem keptBetween_append (before after ts us : List Token) :
    keptBetween before after (ts ++ us) =
      keptBetween before (us ++ after) ts ++ keptBetween (ts.reverse ++ before) after us := by
  induction ts generalizing before with
  | nil => rfl
  | cons token ts ih =>
    simp only [List.cons_append, keptBetween, List.append_assoc, ih, List.reverse_cons,
      List.nil_append]
    split <;> rfl

/-- What is no padding is kept. -/
theorem keptBetween_eq_self {ts : List Token} (h : ∀ t ∈ ts, t.isPadding = false)
    (before after : List Token) : keptBetween before after ts = ts := by
  induction ts generalizing before with
  | nil => rfl
  | cons token ts ih =>
    obtain ⟨htoken, hts⟩ := List.forall_mem_cons.1 h
    simp [keptBetween, isEdgePadding, htoken, ih hts]

/-! ## Headers -/

/-- Whether a token can stand inside the header of a block behind its opening keyword. -/
def Token.isInner (token : Token) : Bool :=
  !token.isText && token != .openStatement

theorem isPadding_eq_false_of_isInner {token : Token} (h : token.isInner = true) :
    token.isPadding = false := by
  cases token <;> simp_all [Token.isInner, Token.isText, Token.isPadding]

theorem isInner_of_standsInside {token : Token} (h : token.standsInside = true) :
    token.isInner = true := by
  cases token with
  | text _ | openStatement => cases h
  | _ => rfl

theorem isInner_of_mem_forIn {binder : Pattern} {e : Expression} {t : Token}
    (h : t ∈ forInTokens binder [e.token]) : t.isInner = true := by
  simp only [forInTokens, List.mem_append, List.mem_cons, List.not_mem_nil, or_false] at h
  rcases h with h | rfl | rfl
  · exact isInner_of_standsInside (Pattern.standsInside_of_mem_tokens h)
  · rfl
  · exact isInner_of_standsInside e.standsInside_token

theorem isInner_of_mem_join {binder : Pattern} {e f : Expression} {t : Token}
    (h : t ∈ joinTokens binder [e.token] [f.token]) : t.isInner = true := by
  simp only [joinTokens, List.mem_append, List.mem_cons, List.not_mem_nil, or_false] at h
  rcases h with h | rfl | rfl | rfl | rfl
  · exact isInner_of_standsInside (Pattern.standsInside_of_mem_tokens h)
  · rfl
  · exact isInner_of_standsInside e.standsInside_token
  · rfl
  · exact isInner_of_standsInside f.standsInside_token

theorem inHeader_cons_cons {token next : Token} (h : token ≠ .openStatement)
    (hnext : next ≠ .openStatement) (before : List Token) :
    inHeader (token :: next :: before) = inHeader (next :: before) := by
  rw [inHeader]
  · exact h
  · rintro word others - heq
    exact hnext (List.cons.inj heq).1

/-- Behind the opening keyword of a block the header goes on up to its closing bracket. -/
theorem inHeader_append {ts : List Token} (h : ∀ t ∈ ts, t.isInner = true) (c : Construct)
    (before : List Token) :
    inHeader (ts ++ .keyword c.opening :: .openStatement :: before) = true := by
  have hne : ∀ {t}, t ∈ ts → t ≠ .openStatement := by
    rintro t ht rfl
    cases h _ ht
  induction ts with
  | nil => cases c <;> rfl
  | cons token ts ih =>
    have hrest := ih (fun t ht => h t (List.mem_cons_of_mem _ ht))
      fun ht => hne (List.mem_cons_of_mem _ ht)
    cases ts with
    | nil => exact (inHeader_cons_cons (hne List.mem_cons_self) (by simp) _).trans hrest
    | cons next ts =>
      exact (inHeader_cons_cons (hne List.mem_cons_self) (hne (by simp)) _).trans hrest

/-- The body of a block begins directly behind its header. -/
theorem followsHeader_opening {header : List Token} (h : ∀ t ∈ header, t.isInner = true)
    (c : Construct) (before : List Token) :
    followsHeader ((c.openingTokens header).reverse ++ before) = true := by
  have hreverse : (c.openingTokens header).reverse ++ before = .closeStatement ::
      (header.reverse ++ .keyword c.opening :: .openStatement :: before) := by
    simp [Construct.openingTokens]
  rw [hreverse]
  exact inHeader_append (fun t ht => h t (List.mem_reverse.1 ht)) c before

/-! ## The token form of a template -/

namespace TextStatement

/-- No statement begins with an end directive. -/
theorem precedesEnd_tokens_append (u : TextStatement) (after : List Token) :
    precedesEnd (u.tokens ++ after) = false := by
  have hblock (c : Construct) (ts : List Token) :
      precedesEnd (.openStatement :: .keyword c.opening :: ts) = false := by
    unfold precedesEnd
    split
    · next heq =>
      cases heq
      cases c <;> rfl
    · rfl
  cases u with
  | plain content => rfl
  | interpolation e => rfl
  | forIn binder e body => exact hblock .forIn _
  | join binder e f body => exact hblock .join _

/-- A header ends no statement. -/
theorem followsHeader_tokens_append (u : TextStatement) (before : List Token) :
    followsHeader (u.tokens.reverse ++ before) = false := by
  have hblock (c : Construct) (header body : List Token) :
      followsHeader ((c.blockTokens header body).reverse ++ before) = false := by
    have hreverse : (c.blockTokens header body).reverse ++ before = .closeStatement ::
        .keyword c.closing :: .openStatement ::
          (body.reverse ++ ((c.openingTokens header).reverse ++ before)) := by
      simp [Construct.blockTokens, endTokens]
    rw [hreverse]
    cases c <;> rfl
  cases u with
  | plain content => rfl
  | interpolation e => rfl
  | forIn binder e body => exact hblock _ _ _
  | join binder e f body => exact hblock _ _ _

/-- A body without a run of spaces and tabs at its start, at its end, or at both. -/
def trimAt (start stop : Bool) (body : List TextStatement) : List TextStatement :=
  let body := if start then trimStart body else body
  if stop then trimEnd body else body

theorem trimEnd_cons_of_not_isPadding {u : TextStatement} (h : isPadding u = false)
    (rest : List TextStatement) : trimEnd (u :: rest) = u :: trimEnd rest := by
  cases rest with
  | nil => simp [trimEnd, h]
  | cons next rest => rfl

theorem trimAt_cons_of_not_isPadding {u : TextStatement} (h : isPadding u = false)
    (start stop : Bool) (rest : List TextStatement) :
    trimAt start stop (u :: rest) = u :: trimAt false stop rest := by
  cases start <;> cases stop <;> simp [trimAt, trimStart, h, trimEnd_cons_of_not_isPadding h]

/-- A run of text is left out if it is padding and nothing else stands at an edge of its body. -/
theorem trimAt_plain_cons (content : String) (start stop : Bool) (rest : List TextStatement) :
    trimAt start stop (.plain content :: rest) =
      if Parser.isPadding content && (start || stop && rest.isEmpty) then trimAt false stop rest
      else .plain content :: trimAt false stop rest := by
  have hpadding : isPadding (.plain content) = Parser.isPadding content := rfl
  cases rest with
  | nil =>
    cases hp : Parser.isPadding content <;> cases start <;> cases stop <;>
      simp [trimAt, trimStart, trimEnd, hpadding, hp]
  | cons next rest =>
    cases hp : Parser.isPadding content <;> cases start <;> cases stop <;>
      simp [trimAt, trimStart, hpadding, hp]

theorem keptBetween_block {c : Construct} {header body : List Token}
    (h : ∀ t ∈ header, t.isInner = true) (before after : List Token) :
    keptBetween before after (c.blockTokens header body) =
      c.openingTokens header ++ (keptBetween ((c.openingTokens header).reverse ++ before)
        (endTokens c.closing ++ after) body ++ endTokens c.closing) := by
  have hopening : ∀ t ∈ c.openingTokens header, t.isPadding = false := by
    intro t ht
    simp only [Construct.openingTokens, List.mem_cons, List.mem_append, List.not_mem_nil,
      or_false] at ht
    rcases ht with rfl | rfl | ht | rfl
    · rfl
    · rfl
    · exact isPadding_eq_false_of_isInner (h t ht)
    · rfl
  have hend : ∀ t ∈ endTokens c.closing, t.isPadding = false := by
    simp [endTokens, Token.isPadding]
  rw [Construct.blockTokens, keptBetween_append, keptBetween_append, keptBetween_eq_self hopening,
    keptBetween_eq_self hend]

/-- Whether a run of text before a sequence of statements is left out shows on the tokens around
it. -/
theorem isEdgePadding_text_tokensOf (content : String) (rest : List TextStatement)
    (before after : List Token) :
    isEdgePadding before (.text content) (tokensOf rest ++ after) =
      (Parser.isPadding content &&
        (followsHeader before || precedesEnd after && (trimmedOf rest).isEmpty)) := by
  have hend : precedesEnd (tokensOf rest ++ after) =
      (precedesEnd after && (trimmedOf rest).isEmpty) := by
    cases rest with
    | nil => simp [trimmedOf]
    | cons next rest => simp [trimmedOf, precedesEnd_tokens_append]
  rw [← hend]
  rfl

mutual

/-- Of a directive, what is kept is the trimmed directive. -/
theorem keptBetween_tokens {u : TextStatement} (hu : u.isText = false)
    (before after : List Token) :
    keptBetween before after u.tokens = (trimmed u).tokens := by
  match u with
  | .plain content => cases hu
  | .interpolation e =>
    refine keptBetween_eq_self (fun t ht => isPadding_eq_false_of_isInner ?_) before after
    simp only [tokens_interpolation, List.mem_cons, List.not_mem_nil, or_false] at ht
    rcases ht with rfl | rfl | rfl
    · rfl
    · exact isInner_of_standsInside e.standsInside_token
    · rfl
  | .forIn binder e body =>
    have hheader := fun t => @isInner_of_mem_forIn binder e t
    rw [tokens_forIn, keptBetween_block hheader, keptBetween_tokensOf body,
      followsHeader_opening hheader]
    rfl
  | .join binder e f body =>
    have hheader := fun t => @isInner_of_mem_join binder e f t
    rw [tokens_join, keptBetween_block hheader, keptBetween_tokensOf body,
      followsHeader_opening hheader]
    rfl

/-- Of a sequence of statements, what is kept is the trimmed sequence, itself trimmed where it
stands at an edge. -/
theorem keptBetween_tokensOf (us : List TextStatement) (before after : List Token) :
    keptBetween before after (tokensOf us) =
      tokensOf (trimAt (followsHeader before) (precedesEnd after) (trimmedOf us)) := by
  match us with
  | [] => cases followsHeader before <;> cases precedesEnd after <;> rfl
  | u :: rest =>
    have hfirst := fun hu => @keptBetween_tokens u hu before (tokensOf rest ++ after)
    have hlater := keptBetween_tokensOf rest (u.tokens.reverse ++ before) after
    rw [followsHeader_tokens_append] at hlater
    cases hu : u.isText with
    | false =>
      have hpadding : isPadding (trimmed u) = false := by
        rw [isPadding_trimmed, isPadding_eq_false_of_isText hu]
      rw [tokensOf_cons, keptBetween_append, hfirst hu, hlater, trimmedOf,
        trimAt_cons_of_not_isPadding hpadding, tokensOf_cons]
    | true =>
      -- only here does the place of a statement decide whether it is kept
      obtain ⟨content, rfl⟩ := isText_eq_true_iff.1 hu
      rw [tokensOf_cons, tokens_plain, List.singleton_append, keptBetween,
        isEdgePadding_text_tokensOf, trimmedOf, trimmed, trimAt_plain_cons, apply_ite tokensOf,
        tokensOf_cons, ← hlater]
      rfl

end

/-- The template that tokens of a source spell is written, when trimmed, with its own tokens. -/
theorem tokens_sources_trimmedOf {source : String} {us : List TextStatement}
    (h : Stencil.tokens .text source = tokensOf us) :
    Stencil.tokens .text (sources (trimmedOf us)) = tokensOf (trimmedOf us) := by
  rw [tokens_eq_scan] at h
  have hwell : ∀ t ∈ tokensOf us, t.WellFormed := fun t ht => wellFormed_of_mem_scan (h ▸ ht)
  have hchain : (tokensOf us ++ []).IsChain Token.MayPrecede := by
    rw [List.append_nil, ← h]
    exact isChain_scan .text .text source.toList
  have hseparated : SeparatedOf false us := separatedOf_of_isChain (by simp) hchain
  exact tokens_sources (fun t ht => hwell t (tokensOf_trimmedOf_subset us ht))
    hseparated.trimmedOf

end TextStatement

open TextStatement

/-- What a template that was read is written as has the tokens of its source, each one once and in
order, except for the padding at the edges of bodies. -/
theorem tokens_sources_of_parse {source : String} {template : List TextStatement}
    (h : parse source = .ok template) :
    tokens .text (sources template) = withoutEdgePadding (tokens .text source) := by
  obtain ⟨us, htokens, rfl⟩ := parse_eq_ok_iff.1 h
  have hkept : withoutEdgePadding (tokensOf us) = tokensOf (trimmedOf us) :=
    keptBetween_tokensOf us [] []
  rw [tokens_sources_trimmedOf htokens, htokens, hkept]

/-- An instance with padding that is left out on both sides of a nested block, and padding that is
kept: outside of blocks, between directives of a body, and next to other text. -/
theorem tokens_sources_of_parse_nested :
    ∃ source template, source =
        " \x7b%for x in y%\x7d  \x7b%join z in x with ','%\x7d\t\x7b\x7bz\x7d\x7d " ++
          "\x7b\x7bz\x7d\x7d\x7b%endjoin%\x7d \x7b%endfor%\x7d " ++
          "\x7b%for x in y%\x7d x \x7b%endfor%\x7d" ∧
      template =
        [.plain " ",
          .forIn (.var "x") (.reference "y")
            [.join (.var "z") (.reference "x") (.literal (.string ","))
              [.interpolation (.reference "z"), .plain " ", .interpolation (.reference "z")]],
          .plain " ",
          .forIn (.var "x") (.reference "y") [.plain " x "]] ∧
      parse source = .ok template ∧
      tokens .text (sources template) = withoutEdgePadding (tokens .text source) := by
  refine ⟨_, _, rfl, rfl, (and_iff_left_of_imp tokens_sources_of_parse).2 ?_⟩
  decide +kernel

end Stencil
