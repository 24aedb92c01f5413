import Stencil.Proofs.Lexeme.Modes
import Stencil.Proofs.Template.NormalForm

/-!
# The templates that are read

A template that was read from a source has a form that whoever goes on with it can rely on. The
scanner gives its parts: names are no keywords, strings lack one of the quotes, runs of text are
separated by directives. Trimming gives the edges of bodies. The form holds at every depth, and it
is complete: each template that has it is read from what it is written as.

* `TextStatement.levelsOf` are the template and the bodies of its blocks, at every depth.
* `TextStatement.InNormalForm` is the form, stated level by level.
* `forall_wellFormed_tokensOf_iff`, `separatedOf_iff` and `trimmedOf_eq_self_iff` say level by
  level what the tokens, the separated templates and the trimmed templates are.
* `exists_parse_eq_ok_iff_inNormalForm` puts these together.
-/

namespace Stencil

/-! ## Names and literals -/

@[simp] theorem Token.wellFormed_keyword (word : Keyword) : (Token.keyword word).WellFormed :=
  trivial

@[simp] theorem Token.wellFormed_openExpression : Token.openExpression.WellFormed := trivial

@[simp] theorem Token.wellFormed_closeExpression : Token.closeExpression.WellFormed := trivial

theorem Expression.wellFormed_token_iff {e : Expression} : e.token.WellFormed ↔ e.IsWritable := by
  match e with
  | .reference _ => exact isName_iff.symm
  | .literal (.string _) => exact Iff.rfl
  | .literal (.integer _) => exact Iff.rfl

namespace Pattern

mutual

/-- Each name that a pattern binds is one of its tokens. -/
theorem identifier_mem_tokens {p : Pattern} {name : String} (h : name ∈ p.boundNames) :
    .identifier name ∈ p.tokens := by
  match p with
  | .var _ =>
    obtain rfl := List.mem_singleton.1 h
    exact List.mem_singleton_self _
  | .tuple ps =>
    exact List.mem_cons_of_mem _ (List.mem_append_left _ (identifier_mem_tokensOf h))

theorem identifier_mem_tokensOf {first : Bool} {ps : List Pattern} {name : String}
    (h : name ∈ boundNamesOf ps) : .identifier name ∈ tokensOf first ps := by
  match ps with
  | [] => cases h
  | p :: ps =>
    refine List.mem_append_right _ (List.mem_append.2 ?_)
    exact (List.mem_append.1 h).imp identifier_mem_tokens identifier_mem_tokensOf

end

theorem forall_wellFormed_tokens_iff {p : Pattern} :
    (∀ t ∈ p.tokens, t.WellFormed) ↔ ∀ name ∈ p.boundNames, IsName name :=
  ⟨fun h _ hname => isName_iff.2 (h _ (identifier_mem_tokens hname)),
    fun h _ ht => TextStatement.wellFormed_of_mem_pattern h ht⟩

end Pattern

namespace TextStatement

/-! ## The levels of a template -/

mutual

/-- The bodies of the blocks in a statement, at every depth. -/
def bodies : TextStatement → List (List TextStatement)
  | .plain _ => []
  | .interpolation _ => []
  | .forIn _ _ body => body :: bodiesOf body
  | .join _ _ _ body => body :: bodiesOf body

/-- The bodies of the blocks in a sequence of statements, at every depth. -/
def bodiesOf : List TextStatement → List (List TextStatement)
  | [] => []
  | u :: rest => bodies u ++ bodiesOf rest

end

/-- A sequence of statements and the bodies of the blocks in it. -/
def levelsOf (us : List TextStatement) : List (List TextStatement) :=
  us :: bodiesOf us

/-! ## The form -/

/-- A statement whose text, names and literals a source can have. Its body is a level of its own. -/
def IsSound : TextStatement → Prop
  | .plain content => content ≠ "" ∧ ¬ HoldsOpening content.toList
  | .interpolation e => e.IsWritable
  | .forIn binder iterable _ => (∀ name ∈ binder.boundNames, IsName name) ∧ iterable.IsWritable
  | .join binder iterable separator _ =>
    (∀ name ∈ binder.boundNames, IsName name) ∧ iterable.IsWritable ∧ separator.IsWritable

/-- The form of the templates that are read. -/
structure InNormalForm (template : List TextStatement) : Prop where
  /-- No run of text is empty or holds an opening bracket. Names are identifiers and no keywords,
  strings lack one of the quotes, and integers are made of digits, of one at least. -/
  sound : ∀ level ∈ levelsOf template, ∀ u ∈ level, u.IsSound
  /-- No run of text stands behind another one. -/
  apart : ∀ level ∈ levelsOf template, ∀ u v, [u, v] <:+: level →
    ¬ (u.isText = true ∧ v.isText = true)
  /-- Outside of blocks only the last statement can be a run of text that ends in a brace. -/
  brace : ∀ content rest, .plain content :: rest <:+ template →
    content.toList.getLast? = some '\x7b' → rest = []
  /-- In the body of a block no run of text ends in a brace. -/
  braceless : ∀ body ∈ bodiesOf template, ∀ content, .plain content ∈ body →
    content.toList.getLast? ≠ some '\x7b'
  /-- The body of a block does not begin with a run of spaces and tabs. -/
  start : ∀ body ∈ bodiesOf template, ∀ u ∈ body.head?, u.isPadding = false
  /-- The body of a block does not end with a run of spaces and tabs. -/
  finish : ∀ body ∈ bodiesOf template, ∀ u ∈ body.getLast?, u.isPadding = false

/-! ## Tokens, level by level -/

theorem forall_wellFormed_block_iff {c : Construct} {header body : List Token} :
    (∀ t ∈ c.blockTokens header body, t.WellFormed) ↔
      (∀ t ∈ header, t.WellFormed) ∧ ∀ t ∈ body, t.WellFormed :=
  ⟨wellFormed_of_mem_block, fun h _ ht => wellFormed_of_mem_blockTokens h.1 h.2 ht⟩

theorem forall_wellFormed_forIn_iff {binder : Pattern} {e : Expression} :
    (∀ t ∈ forInTokens binder [e.token], t.WellFormed) ↔
      (∀ name ∈ binder.boundNames, IsName name) ∧ e.IsWritable := by
  rw [forInTokens, List.forall_mem_append, Pattern.forall_wellFormed_tokens_iff]
  simp [Expression.wellFormed_token_iff]

theorem forall_wellFormed_join_iff {binder : Pattern} {e f : Expression} :
    (∀ t ∈ joinTokens binder [e.token] [f.token], t.WellFormed) ↔
      (∀ name ∈ binder.boundNames, IsName name) ∧ e.IsWritable ∧ f.IsWritable := by
  rw [joinTokens, List.forall_mem_append, Pattern.forall_wellFormed_tokens_iff]
  simp [Expression.wellFormed_token_iff]

mutual

theorem forall_wellFormed_tokens_iff {u : TextStatement} :
    (∀ t ∈ u.tokens, t.WellFormed) ↔
      u.IsSound ∧ ∀ body ∈ bodies u, ∀ v ∈ body, v.IsSound := by
  match u with
  | .plain content => simp [bodies, IsSound, Token.wellFormed_text_iff]
  | .interpolation e => simp [bodies, IsSound, Expression.wellFormed_token_iff]
  | .forIn binder e body =>
    rw [tokens_forIn, forall_wellFormed_block_iff, forall_wellFormed_forIn_iff,
      forall_wellFormed_tokensOf_iff]
    rfl
  | .join binder e f body =>
    rw [tokens_join, forall_wellFormed_block_iff, forall_wellFormed_join_iff,
      forall_wellFormed_tokensOf_iff]
    rfl

/-- The tokens of a template can be written exactly if the parts of its statements can. -/
theorem forall_wellFormed_tokensOf_iff {us : List TextStatement} :
    (∀ t ∈ tokensOf us, t.WellFormed) ↔ ∀ level ∈ levelsOf us, ∀ u ∈ level, u.IsSound := by
  match us with
  | [] => simp [levelsOf, bodiesOf]
  | u :: us =>
    rw [tokensOf_cons, List.forall_mem_append, forall_wellFormed_tokens_iff,
      forall_wellFormed_tokensOf_iff]
    simp only [levelsOf, bodiesOf, List.forall_mem_cons, List.forall_mem_append]
    rw [and_and_and_comm]

end

/-! ## Separated text, level by level -/

/-- Each statement may stand before those behind it. -/
def Apart (followed : Bool) (level : List TextStatement) : Prop :=
  ∀ u rest, u :: rest <:+ level → StandsBefore followed u rest

theorem apart_cons_iff {followed : Bool} {u : TextStatement} {rest : List TextStatement} :
    Apart followed (u :: rest) ↔ StandsBefore followed u rest ∧ Apart followed rest := by
  simp only [Apart, List.suffix_cons_iff, List.cons.injEq]
  constructor
  · exact fun h => ⟨h u rest (.inl ⟨rfl, rfl⟩), fun v others hv => h v others (.inr hv)⟩
  · rintro ⟨hu, hrest⟩ v others (⟨rfl, rfl⟩ | hv)
    · exact hu
    · exact hrest v others hv

mutual

theorem separated_iff {u : TextStatement} : u.Separated ↔ ∀ body ∈ bodies u, Apart true body := by
  match u with
  | .plain _ => simp [Separated, bodies]
  | .interpolation _ => simp [Separated, bodies]
  | .forIn _ _ body => rw [Separated, separatedOf_iff, bodies, List.forall_mem_cons]
  | .join _ _ _ body => rw [Separated, separatedOf_iff, bodies, List.forall_mem_cons]

theorem separatedOf_iff {followed : Bool} {us : List TextStatement} :
    SeparatedOf followed us ↔ Apart followed us ∧ ∀ body ∈ bodiesOf us, Apart true body := by
  match us with
  | [] => simp [SeparatedOf, Apart, bodiesOf]
  | u :: us =>
    rw [SeparatedOf, separated_iff, separatedOf_iff, apart_cons_iff, bodiesOf,
      List.forall_mem_append]
    tauto

end

/-- What may stand behind a statement, told from the next one and from the brace before it. -/
theorem standsBefore_iff {followed : Bool} {u : TextStatement} {rest : List TextStatement} :
    StandsBefore followed u rest ↔
      (∀ v ∈ rest.head?, ¬ (u.isText = true ∧ v.isText = true)) ∧
        ∀ content, u = .plain content → content.toList.getLast? = some '\x7b' →
          rest = [] ∧ followed = false := by
  cases u with
  | plain content =>
    cases rest with
    | nil => cases followed <;> simp [StandsBefore]
    | cons next rest => simp [StandsBefore, isText]
  | _ => simp [StandsBefore, isText]

theorem apart_iff {followed : Bool} {level : List TextStatement} :
    Apart followed level ↔
      (∀ u v, [u, v] <:+: level → ¬ (u.isText = true ∧ v.isText = true)) ∧
        ∀ content rest, .plain content :: rest <:+ level →
          content.toList.getLast? = some '\x7b' → rest = [] ∧ followed = false := by
  simp only [Apart, standsBefore_iff]
  constructor
  · refine fun h => ⟨?_, fun content rest hrest => (h _ rest hrest).2 content rfl⟩
    rintro u v ⟨before, after, rfl⟩
    exact (h u (v :: after) ⟨before, by simp⟩).1 v rfl
  · rintro ⟨hpairs, hbrace⟩ u rest hrest
    refine ⟨fun v hv => hpairs u v ?_, ?_⟩
    · obtain ⟨after, rfl⟩ := List.head?_eq_some_iff.1 hv
      obtain ⟨before, rfl⟩ := hrest
      exact ⟨before, after, by simp⟩
    · rintro content rfl
      exact hbrace content rest hrest

theorem apart_false_iff {level : List TextStatement} :
    Apart false level ↔
      (∀ u v, [u, v] <:+: level → ¬ (u.isText = true ∧ v.isText = true)) ∧
        ∀ content rest, .plain content :: rest <:+ level →
          content.toList.getLast? = some '\x7b' → rest = [] := by
  simp only [apart_iff, and_true]

/-- In front of the directive that ends a block no run of text ends in a brace. -/
theorem apart_true_iff {body : List TextStatement} :
    Apart true body ↔
      (∀ u v, [u, v] <:+: body → ¬ (u.isText = true ∧ v.isText = true)) ∧
        ∀ content, .plain content ∈ body → content.toList.getLast? ≠ some '\x7b' := by
  refine apart_iff.trans (and_congr_right' ⟨?_, ?_⟩)
  · intro h content hmem hlast
    obtain ⟨before, rest, rfl⟩ := List.append_of_mem hmem
    exact absurd (h content rest ⟨before, rfl⟩ hlast).2 (by decide)
  · intro h content rest hrest hlast
    exact absurd hlast (h content (hrest.subset List.mem_cons_self))

/-! ## Trimmed bodies -/

theorem length_trimmedOf (us : List TextStatement) : (trimmedOf us).length = us.length := by
  induction us with
  | nil => rfl
  | cons u us ih => simp [trimmedOf, ih]

theorem trimStart_eq_self_iff {body : List TextStatement} :
    trimStart body = body ↔ ∀ u ∈ body.head?, isPadding u = false := by
  refine ⟨fun h => ?_, trimStart_eq_self⟩
  cases body with
  | nil => simp
  | cons first rest =>
    rintro _ ⟨⟩
    refine Bool.eq_false_iff.2 fun hp => ?_
    rw [trimStart, if_pos hp] at h
    exact List.cons_ne_self first rest h.symm

theorem trimEnd_eq_self_iff {body : List TextStatement} :
    trimEnd body = body ↔ ∀ u ∈ body.getLast?, isPadding u = false := by
  refine ⟨fun h => ?_, trimEnd_eq_self⟩
  fun_induction trimEnd body with
  | case1 => simp
  | case2 last hp => cases h
  | case3 last hp => simpa using hp
  | case4 u next rest ih =>
    rw [List.getLast?_cons_cons]
    exact ih (List.cons.inj h).2

/-- A body that stays as it is loses nothing at either end. -/
theorem trim_eq_self_iff {body : List TextStatement} :
    trim body = body ↔ trimStart body = body ∧ trimEnd body = body := by
  constructor
  · intro h
    have hstart : trimStart body = body :=
      (trimStart_sublist body).eq_of_length_le
        ((congrArg List.length h).ge.trans (trimEnd_sublist (trimStart body)).length_le)
    exact ⟨hstart, by rwa [trim, hstart] at h⟩
  · rintro ⟨hstart, hend⟩
    rw [trim, hstart, hend]

theorem trim_trimmedOf_eq_self_iff {body : List TextStatement} :
    trim (trimmedOf body) = body ↔ trim body = body ∧ trimmedOf body = body := by
  constructor
  · intro h
    -- trimming the bodies inside takes no statement away, so the length is lost nowhere
    have hbody : trimmedOf body = body := by
      have hlength : (trimmedOf body).length ≤ (trim (trimmedOf body)).length := by
        rw [h, length_trimmedOf]
      exact ((trim_sublist _).eq_of_length_le hlength).symm.trans h
    exact ⟨by rwa [hbody] at h, hbody⟩
  · rintro ⟨htrim, hbody⟩
    rw [hbody, htrim]

mutual

theorem trimmed_eq_self_iff {u : TextStatement} :
    trimmed u = u ↔ ∀ body ∈ bodies u, trim body = body := by
  match u with
  | .plain _ => simp [trimmed, bodies]
  | .interpolation _ => simp [trimmed, bodies]
  | .forIn binder e body =>
    rw [bodies, List.forall_mem_cons, ← trimmedOf_eq_self_iff, ← trim_trimmedOf_eq_self_iff]
    simp [trimmed]
  | .join binder e f body =>
    rw [bodies, List.forall_mem_cons, ← trimmedOf_eq_self_iff, ← trim_trimmedOf_eq_self_iff]
    simp [trimmed]

theorem trimmedOf_eq_self_iff {us : List TextStatement} :
    trimmedOf us = us ↔ ∀ body ∈ bodiesOf us, trim body = body := by
  match us with
  | [] => simp [trimmedOf, bodiesOf]
  | u :: us =>
    rw [trimmedOf, List.cons.injEq, trimmed_eq_self_iff, trimmedOf_eq_self_iff, bodiesOf,
      List.forall_mem_append]

end

/-! ## The form is what scanning and trimming give -/

theorem inNormalForm_iff {template : List TextStatement} :
    InNormalForm template ↔
      (∀ t ∈ tokensOf template, t.WellFormed) ∧ SeparatedOf false template ∧
        trimmedOf template = template := by
  rw [forall_wellFormed_tokensOf_iff, separatedOf_iff, trimmedOf_eq_self_iff]
  simp only [apart_false_iff, apart_true_iff, trim_eq_self_iff, trimStart_eq_self_iff,
    trimEnd_eq_self_iff]
  constructor
  · intro h
    obtain ⟨htop, hbodies⟩ := List.forall_mem_cons.1 h.apart
    refine ⟨h.sound, ⟨⟨htop, h.brace⟩, fun body hbody => ?_⟩, fun body hbody => ?_⟩
    · exact ⟨hbodies body hbody, h.braceless body hbody⟩
    · exact ⟨h.start body hbody, h.finish body hbody⟩
  · rintro ⟨hsound, ⟨⟨htop, hbrace⟩, hbodies⟩, hedges⟩
    exact
      { sound := hsound
        apart := List.forall_mem_cons.2 ⟨htop, fun body hbody => (hbodies body hbody).1⟩
        brace := hbrace
        braceless := fun body hbody => (hbodies body hbody).2
        start := fun body hbody => (hedges body hbody).1
        finish := fun body hbody => (hedges body hbody).2 }

end TextStatement

open TextStatement

/-- The templates in normal form are those that are read from a source. -/
theorem exists_parse_eq_ok_iff_inNormalForm (template : List TextStatement) :
    (∃ source, parse source = .ok template) ↔ InNormalForm template := by
  rw [inNormalForm_iff]
  constructor
  · rintro ⟨source, h⟩
    obtain ⟨us, htokens, rfl⟩ := parse_eq_ok_iff.1 h
    rw [tokens_eq_scan] at htokens
    have hwell : ∀ t ∈ tokensOf us, t.WellFormed := fun t ht =>
      wellFormed_of_mem_scan (htokens ▸ ht)
    have hchain : (tokensOf us ++ []).IsChain Token.MayPrecede := by
      rw [List.append_nil, ← htokens]
      exact isChain_scan .text .text source.toList
    have hseparated : SeparatedOf false us := separatedOf_of_isChain (by simp) hchain
    exact ⟨fun t ht => hwell t (tokensOf_trimmedOf_subset us ht), hseparated.trimmedOf,
      trimmedOf_trimmedOf hseparated⟩
  · rintro ⟨hwell, hseparated, htrimmed⟩
    exact ⟨sources template,
      parse_eq_ok_iff.2 ⟨template, tokens_sources hwell hseparated, htrimmed⟩⟩

end Stencil
