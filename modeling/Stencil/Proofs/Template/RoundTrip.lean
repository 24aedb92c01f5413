import Stencil.Proofs.Lexeme.Spelling
import Stencil.Proofs.Parser.Templates
import Stencil.Proofs.Template.Separated

/-!
# Templates are read back as they were

A template that was read from some source can be written out, and is read back from what was
written. What is written has the template's own token form: the separating spaces are skipped, a
string stands in the quotes it lacks, and a run of text ends where it did.

* `scan_expression`, `scan_pattern`, `scan_source` and `scan_sources` scan what was written.
* `parse_sources_of_parse` is the round trip.
-/

namespace Stencil

/-! ## Expressions and patterns -/

theorem scan_expression {initial : Mode} {e : Expression} (h : e.token.WellFormed)
    {rest : List Char} (hr : EndsWord rest) :
    scan initial .code (e.source.toList ++ rest) = [e.token] ++ scan initial .code rest := by
  match e with
  | .reference name => exact scan_identifier h hr
  | .literal (.integer digits) => exact scan_integer h hr
  | .literal (.string value) =>
    by_cases hquote : '"' ∈ value.toList
    · have hsource : (Expression.literal (.string value)).source.toList ++ rest =
          '\'' :: (value.toList ++ '\'' :: rest) := by
        simp [Expression.source, Literal.source, hquote]
      rw [hsource]
      exact scan_quoted (.inr rfl) (h.resolve_left (not_not_intro hquote))
    · have hsource : (Expression.literal (.string value)).source.toList ++ rest =
          '"' :: (value.toList ++ '"' :: rest) := by
        simp [Expression.source, Literal.source, hquote]
      rw [hsource]
      exact scan_quoted (.inl rfl) hquote

mutual

theorem scan_pattern {initial : Mode} {p : Pattern} (h : ∀ t ∈ p.tokens, t.WellFormed)
    {rest : List Char} (hr : EndsWord rest) :
    scan initial .code (p.source.toList ++ rest) = p.tokens ++ scan initial .code rest := by
  match p with
  | .var name => exact scan_identifier (h _ (List.mem_singleton_self _)) hr
  | .tuple ps =>
    have hps : ∀ t ∈ Pattern.tokensOf true ps, t.WellFormed := by
      intro t ht
      exact h t (by simp [Pattern.tokens, ht])
    have hsource : (Pattern.tuple ps).source.toList ++ rest =
        '(' :: ((Pattern.sources true ps).toList ++ ')' :: rest) := by
      simp [Pattern.source]
    rw [hsource, scan_openParen, scan_patterns hps (endsWord_closeParen rest), scan_closeParen]
    simp [Pattern.tokens]

/-- The elements of a tuple end with a word, or before the comma of the next one. -/
theorem scan_patterns {initial : Mode} {first : Bool} {ps : List Pattern}
    (h : ∀ t ∈ Pattern.tokensOf first ps, t.WellFormed) {rest : List Char} (hr : EndsWord rest) :
    scan initial .code ((Pattern.sources first ps).toList ++ rest) =
      Pattern.tokensOf first ps ++ scan initial .code rest := by
  match ps with
  | [] => rfl
  | p :: ps =>
    have hp : ∀ t ∈ p.tokens, t.WellFormed := by
      intro t ht
      exact h t (by simp [Pattern.tokensOf, ht])
    have hps : ∀ t ∈ Pattern.tokensOf false ps, t.WellFormed := by
      intro t ht
      exact h t (by simp [Pattern.tokensOf, ht])
    have hends : EndsWord ((Pattern.sources false ps).toList ++ rest) := by
      cases ps with
      | nil => exact hr
      | cons q qs =>
        have hsource : (Pattern.sources false (q :: qs)).toList ++ rest =
            ',' :: ' ' :: (q.source.toList ++ ((Pattern.sources false qs).toList ++ rest)) := by
          simp [Pattern.sources]
        rw [hsource]
        exact endsWord_comma _
    have hscan : scan initial .code
        (p.source.toList ++ ((Pattern.sources false ps).toList ++ rest)) =
        p.tokens ++ (Pattern.tokensOf false ps ++ scan initial .code rest) := by
      rw [scan_pattern hp hends, scan_patterns hps hr]
    cases first with
    | true => simpa [Pattern.sources, Pattern.tokensOf] using hscan
    | false => simpa [Pattern.sources, Pattern.tokensOf] using hscan

end

/-! ## Directives, character by character -/

theorem toList_interpolationSource (e : String) (rest : List Char) :
    (interpolationSource e).toList ++ rest =
      '\x7b' :: '\x7b' :: ' ' :: (e.toList ++ ' ' :: '\x7d' :: '\x7d' :: rest) := by
  simp [interpolationSource]

theorem toList_forInSource (binder : Pattern) (iterable body : String) (rest : List Char) :
    (forInSource binder iterable body).toList ++ rest =
      '\x7b' :: '%' :: ' ' :: (Keyword.for_.spelling.toList ++ ' ' :: (binder.source.toList ++
        ' ' :: (Keyword.in_.spelling.toList ++ ' ' :: (iterable.toList ++ ' ' :: '%' :: '\x7d' ::
          (body.toList ++ '\x7b' :: '%' :: ' ' ::
            (Keyword.endFor.spelling.toList ++ ' ' :: '%' :: '\x7d' :: rest)))))) := by
  unfold forInSource
  simp only [String.toList_append, List.append_assoc]
  rfl

theorem toList_joinSource (binder : Pattern) (iterable separator body : String)
    (rest : List Char) :
    (joinSource binder iterable separator body).toList ++ rest =
      '\x7b' :: '%' :: ' ' :: (Keyword.join.spelling.toList ++ ' ' :: (binder.source.toList ++
        ' ' :: (Keyword.in_.spelling.toList ++ ' ' :: (iterable.toList ++
          ' ' :: (Keyword.with_.spelling.toList ++ ' ' :: (separator.toList ++
            ' ' :: '%' :: '\x7d' :: (body.toList ++ '\x7b' :: '%' :: ' ' ::
              (Keyword.endJoin.spelling.toList ++ ' ' :: '%' :: '\x7d' :: rest)))))))) := by
  unfold joinSource
  simp only [String.toList_append, List.append_assoc]
  rfl

section Directives

variable {mode : Mode} {binder : Pattern} {p e f : List Char} {es fs : List Token}

theorem scan_interpolation
    (he : ∀ {rest}, EndsWord rest → scan mode .code (e ++ rest) = es ++ scan mode .code rest)
    (rest : List Char) :
    scan mode mode ('\x7b' :: '\x7b' :: ' ' :: (e ++ ' ' :: '\x7d' :: '\x7d' :: rest)) =
      .openExpression :: (es ++ .closeExpression :: scan mode mode rest) := by
  rw [scan_openExpression, scan_space, he (endsWord_space _), scan_space, scan_closeExpression]

/-- The directive that opens a loop. -/
theorem scan_forIn
    (hp : ∀ {rest}, EndsWord rest →
      scan mode .code (p ++ rest) = binder.tokens ++ scan mode .code rest)
    (he : ∀ {rest}, EndsWord rest → scan mode .code (e ++ rest) = es ++ scan mode .code rest)
    (rest : List Char) :
    scan mode mode ('\x7b' :: '%' :: ' ' ::
        (Keyword.for_.spelling.toList ++ ' ' :: (p ++
          ' ' :: (Keyword.in_.spelling.toList ++ ' ' :: (e ++ ' ' :: '%' :: '\x7d' :: rest))))) =
      Construct.forIn.openingTokens (forInTokens binder es) ++ scan mode mode rest := by
  rw [scan_openStatement, scan_space, scan_keyword _ (endsWord_space _), scan_space,
    hp (endsWord_space _), scan_space, scan_keyword _ (endsWord_space _), scan_space,
    he (endsWord_space _), scan_space, scan_closeStatement]
  simp [Construct.openingTokens, Construct.opening, forInTokens]

/-- The directive that opens a joined loop. -/
theorem scan_join
    (hp : ∀ {rest}, EndsWord rest →
      scan mode .code (p ++ rest) = binder.tokens ++ scan mode .code rest)
    (he : ∀ {rest}, EndsWord rest → scan mode .code (e ++ rest) = es ++ scan mode .code rest)
    (hf : ∀ {rest}, EndsWord rest → scan mode .code (f ++ rest) = fs ++ scan mode .code rest)
    (rest : List Char) :
    scan mode mode ('\x7b' :: '%' :: ' ' ::
        (Keyword.join.spelling.toList ++ ' ' :: (p ++
          ' ' :: (Keyword.in_.spelling.toList ++ ' ' :: (e ++
            ' ' :: (Keyword.with_.spelling.toList ++ ' ' :: (f ++
              ' ' :: '%' :: '\x7d' :: rest))))))) =
      Construct.join.openingTokens (joinTokens binder es fs) ++ scan mode mode rest := by
  rw [scan_openStatement, scan_space, scan_keyword _ (endsWord_space _), scan_space,
    hp (endsWord_space _), scan_space, scan_keyword _ (endsWord_space _), scan_space,
    he (endsWord_space _), scan_space, scan_keyword _ (endsWord_space _), scan_space,
    hf (endsWord_space _), scan_space, scan_closeStatement]
  simp [Construct.openingTokens, Construct.opening, joinTokens]

/-- The directive that ends a block. -/
theorem scan_end (word : Keyword) (rest : List Char) :
    scan mode mode ('\x7b' :: '%' :: ' ' ::
        (word.spelling.toList ++ ' ' :: '%' :: '\x7d' :: rest)) =
      endTokens word ++ scan mode mode rest := by
  rw [scan_openStatement, scan_space, scan_keyword word (endsWord_space _), scan_space,
    scan_closeStatement]
  rfl

end Directives

/-! ## Statements -/

namespace TextStatement

theorem source_interpolation (e : Expression) :
    source (.interpolation e) = interpolationSource e.source := rfl

theorem source_forIn (binder : Pattern) (e : Expression) (body : List TextStatement) :
    source (.forIn binder e body) = forInSource binder e.source (sources body) := rfl

theorem source_join (binder : Pattern) (e f : Expression) (body : List TextStatement) :
    source (.join binder e f body) = joinSource binder e.source f.source (sources body) := rfl

theorem mem_tokensOf {us : List TextStatement} {t : Token} :
    t ∈ tokensOf us ↔ ∃ u ∈ us, t ∈ u.tokens := by
  induction us with
  | nil => simp
  | cons u us ih => simp [ih]

theorem wellFormed_of_mem_block {c : Construct} {header body : List Token}
    (h : ∀ t ∈ c.blockTokens header body, t.WellFormed) :
    (∀ t ∈ header, t.WellFormed) ∧ ∀ t ∈ body, t.WellFormed := by
  refine ⟨fun t ht => h t ?_, fun t ht => h t ?_⟩ <;>
    simp [Construct.blockTokens, Construct.openingTokens, ht]

/-- What can stand behind the statements of a template or of a body: nothing, or a directive. -/
def EndsBody : Bool → List Char → Prop
  | true, rest => startsDirective rest = true
  | false, rest => rest = []

theorem endsBody_openStatement (rest : List Char) : EndsBody true ('\x7b' :: '%' :: rest) := rfl

/-- A directive is written with its opening bracket first. -/
theorem startsDirective_source {u : TextStatement} (hu : u.isText = false) (rest : List Char) :
    startsDirective (u.source.toList ++ rest) = true := by
  cases u with
  | plain content => cases hu
  | interpolation e =>
    rw [source_interpolation, toList_interpolationSource]
    rfl
  | forIn binder e body =>
    rw [source_forIn, toList_forInSource]
    rfl
  | join binder e f body =>
    rw [source_join, toList_joinSource]
    rfl

theorem toList_sources_cons (u : TextStatement) (us : List TextStatement) :
    (sources (u :: us)).toList = u.source.toList ++ (sources us).toList := by
  simp [sources, source, Statement.sources]

/-- A run of text that may stand before other statements ends where these begin. -/
theorem endsText_of_standsBefore {followed : Bool} {content : String} {us : List TextStatement}
    (h : StandsBefore followed (.plain content) us) {rest : List Char}
    (hr : EndsBody followed rest) :
    EndsText content.toList ((sources us).toList ++ rest) := by
  cases us with
  | nil =>
    cases followed with
    | false => exact .inl hr
    | true => exact .inr ⟨hr, h rfl⟩
  | cons next us =>
    rw [toList_sources_cons, List.append_assoc]
    exact .inr ⟨startsDirective_source h.1 _, h.2⟩

mutual

theorem scan_source {u : TextStatement} (hw : ∀ t ∈ u.tokens, t.WellFormed) (hs : u.Separated)
    {rest : List Char} (hr : ∀ content, u = .plain content → EndsText content.toList rest) :
    scan .text .text (u.source.toList ++ rest) = u.tokens ++ scan .text .text rest := by
  match u with
  | .plain content => exact scan_text (hw _ (List.mem_singleton_self _)) (hr content rfl)
  | .interpolation e =>
    rw [source_interpolation, toList_interpolationSource]
    have he : e.token.WellFormed := hw _ (by simp)
    exact scan_interpolation (scan_expression he) rest
  | .forIn binder e body =>
    obtain ⟨hheader, hbody⟩ := wellFormed_of_mem_block hw
    have hb : ∀ t ∈ binder.tokens, t.WellFormed := fun t ht =>
      hheader t (by simp [forInTokens, ht])
    have he : e.token.WellFormed := hheader _ (by simp [forInTokens])
    rw [source_forIn, toList_forInSource, scan_forIn (scan_pattern hb) (scan_expression he),
      scan_sources hbody hs (endsBody_openStatement _), scan_end, tokens_forIn]
    simp [Construct.blockTokens, Construct.closing]
  | .join binder e f body =>
    obtain ⟨hheader, hbody⟩ := wellFormed_of_mem_block hw
    have hb : ∀ t ∈ binder.tokens, t.WellFormed := fun t ht =>
      hheader t (by simp [joinTokens, ht])
    have he : e.token.WellFormed := hheader _ (by simp [joinTokens])
    have hf : f.token.WellFormed := hheader _ (by simp [joinTokens])
    rw [source_join, toList_joinSource,
      scan_join (scan_pattern hb) (scan_expression he) (scan_expression hf),
      scan_sources hbody hs (endsBody_openStatement _), scan_end, tokens_join]
    simp [Construct.blockTokens, Construct.closing]

theorem scan_sources {followed : Bool} {us : List TextStatement}
    (hw : ∀ t ∈ tokensOf us, t.WellFormed) (hs : SeparatedOf followed us) {rest : List Char}
    (hr : EndsBody followed rest) :
    scan .text .text ((sources us).toList ++ rest) = tokensOf us ++ scan .text .text rest := by
  match us with
  | [] => rfl
  | u :: us =>
    obtain ⟨hu, hstands, hus⟩ := hs
    have hwu : ∀ t ∈ u.tokens, t.WellFormed := fun t ht => hw t (by simp [ht])
    have hwus : ∀ t ∈ tokensOf us, t.WellFormed := fun t ht => hw t (by simp [ht])
    rw [toList_sources_cons, List.append_assoc, scan_source hwu hu, scan_sources hwus hus hr,
      tokensOf_cons, List.append_assoc]
    rintro content rfl
    exact endsText_of_standsBefore hstands hr

end

/-! ## The round trip -/

theorem trimStart_sublist (body : List TextStatement) : (trimStart body).Sublist body := by
  cases body with
  | nil => exact .slnil
  | cons first rest =>
    rw [trimStart]
    split
    · exact List.sublist_cons_self first rest
    · exact List.Sublist.refl _

theorem trimEnd_sublist (body : List TextStatement) : (trimEnd body).Sublist body := by
  fun_induction trimEnd body with
  | case1 => exact .slnil
  | case2 last hp => exact List.nil_sublist _
  | case3 last hp => exact List.Sublist.refl _
  | case4 u next rest ih => exact ih.cons_cons u

theorem trim_sublist (body : List TextStatement) : (trim body).Sublist body :=
  (trimEnd_sublist _).trans (trimStart_sublist body)

theorem tokensOf_trim_subset (body : List TextStatement) :
    tokensOf (trim body) ⊆ tokensOf body := by
  intro t ht
  obtain ⟨u, hu, ht⟩ := mem_tokensOf.1 ht
  exact mem_tokensOf.2 ⟨u, (trim_sublist body).subset hu, ht⟩

theorem blockTokens_subset {body others : List Token} (h : body ⊆ others) (c : Construct)
    (header : List Token) : c.blockTokens header body ⊆ c.blockTokens header others := by
  intro t ht
  simp only [Construct.blockTokens, List.mem_append] at ht ⊢
  exact ht.imp_right (Or.imp_left (@h t))

mutual

theorem tokens_trimmed_subset (u : TextStatement) : (trimmed u).tokens ⊆ u.tokens := by
  match u with
  | .plain _ => exact List.Subset.refl _
  | .interpolation _ => exact List.Subset.refl _
  | .forIn _ _ body =>
    exact blockTokens_subset
      (List.Subset.trans (tokensOf_trim_subset _) (tokensOf_trimmedOf_subset body)) _ _
  | .join _ _ _ body =>
    exact blockTokens_subset
      (List.Subset.trans (tokensOf_trim_subset _) (tokensOf_trimmedOf_subset body)) _ _

/-- Trimming leaves out tokens and adds none. -/
theorem tokensOf_trimmedOf_subset (us : List TextStatement) :
    tokensOf (trimmedOf us) ⊆ tokensOf us := by
  match us with
  | [] => exact List.Subset.refl _
  | u :: us =>
    intro t ht
    rcases List.mem_append.1 ht with ht | ht
    · exact List.mem_append_left _ (tokens_trimmed_subset u ht)
    · exact List.mem_append_right _ (tokensOf_trimmedOf_subset us ht)

end

end TextStatement

open TextStatement

/-- What a separated template of tokens that can be written is written as has its token form. -/
theorem tokens_sources {template : List TextStatement}
    (hw : ∀ t ∈ tokensOf template, t.WellFormed) (hs : SeparatedOf false template) :
    tokens .text (sources template) = tokensOf template := by
  have hscan := @scan_sources false template hw hs [] rfl
  rwa [List.append_nil, scan_nil, List.append_nil] at hscan

/-- A template that was read is read back from what it is written as. -/
theorem parse_sources_of_parse {source : String} {template : List TextStatement}
    (h : parse source = .ok template) : parse (sources template) = .ok template := by
  obtain ⟨us, htokens, rfl⟩ := parse_eq_ok_iff.1 h
  rw [tokens_eq_scan] at htokens
  have hwell : ∀ t ∈ tokensOf us, t.WellFormed := fun t ht =>
    wellFormed_of_mem_scan (htokens ▸ ht)
  have hchain : (tokensOf us ++ []).IsChain Token.MayPrecede := by
    rw [List.append_nil, ← htokens]
    exact isChain_scan .text .text source.toList
  have hseparated : SeparatedOf false us := separatedOf_of_isChain (by simp) hchain
  refine parse_eq_ok_iff.2 ⟨trimmedOf us, ?_, trimmedOf_trimmedOf hseparated⟩
  exact tokens_sources (fun t ht => hwell t (tokensOf_trimmedOf_subset us ht))
    hseparated.trimmedOf

/-- An instance with lone braces, a nested and an empty tuple, closing brackets inside strings, and
spaces at the edges of bodies. -/
theorem parse_sources_of_parse_nested :
    ∃ template, template =
        [.plain "a\x7b ",
          .forIn (.tuple [.var "x", .tuple [.var "y", .tuple []]])
            (.literal (.string "say \"%\x7d\""))
            [.join (.var "z") (.literal (.integer "12")) (.literal (.string "\x7d\x7d'"))
              [.interpolation (.reference "z"), .plain " \x7d"]],
          .plain "\x7b"] ∧
      parse ("a\x7b \x7b%for (x, (y, ())) in 'say \"%\x7d\"'%\x7d  " ++
        "\x7b%join z in 12 with \"\x7d\x7d'\"%\x7d\t\x7b\x7bz\x7d\x7d \x7d\x7b%endjoin%\x7d " ++
        "\x7b%endfor%\x7d\x7b") = .ok template ∧
      parse (sources template) = .ok template := by
  refine ⟨_, rfl, (and_iff_left_of_imp parse_sources_of_parse).2 ?_⟩
  decide +kernel

end Stencil
