import Stencil.Proofs.Template.RoundTrip

/-!
# Any tree is read back as its normal form

A tree need not have been read from a source to be written: it may hold runs of text side by side,
and spaces and tabs at the edges of bodies. What is written shows neither the seam between two
runs nor that an edge belongs to a body, so it is read back as the *normal form* of the tree, in
which adjacent runs are one and the bodies are trimmed.

* `TextStatement.coalescedOf` joins adjacent runs of text, in bodies too; `normalised` trims the
  bodies of the result.
* `TextStatement.AreWritable` says which trees can be written: names are names and no keywords,
  strings lack one of the quotes, integers have digits, and texts hold no opening brace.
* `sources_coalescedOf`: joining runs of text does not change what is written.
* `parse_sources_eq_normalised` is the statement about any tree that can be written.
-/

namespace Stencil

/-! ## Names and expressions that can be written -/

/-- A name that is no keyword. -/
def IsName (name : String) : Prop :=
  IsIdentifier name.toList ∧ ∀ word : Keyword, word.spelling ≠ name

/-- An expression that can be written. -/
def Expression.IsWritable : Expression → Prop
  | .reference name => IsName name
  | .literal (.string value) => '"' ∉ value.toList ∨ '\'' ∉ value.toList
  | .literal (.integer digits) => IsInteger digits.toList

/-- A name can be scanned as an identifier. -/
theorem isName_iff {name : String} : IsName name ↔ (Token.identifier name).WellFormed := by
  have hword : (∀ word : Keyword, word.spelling ≠ name) ↔ Keyword.ofSpelling? name = none := by
    have hall (word : Keyword) : word ∈ Keyword.all := by cases word <;> decide
    simp [Keyword.ofSpelling?, List.find?_eq_none, hall]
  exact and_congr_right' hword

instance (name : String) : Decidable (IsName name) :=
  decidable_of_iff (IsIdentifier name.toList ∧ Keyword.ofSpelling? name = none) isName_iff.symm

instance (e : Expression) : Decidable e.IsWritable :=
  match e with
  | .reference name => inferInstanceAs (Decidable (IsName name))
  | .literal (.string _) => inferInstanceAs (Decidable (_ ∨ _))
  | .literal (.integer digits) => inferInstanceAs (Decidable (IsInteger digits.toList))

theorem Expression.wellFormed_token {e : Expression} (h : e.IsWritable) :
    e.token.WellFormed := by
  match e with
  | .reference _ => exact isName_iff.1 h
  | .literal (.string _) => exact h
  | .literal (.integer _) => exact h

namespace TextStatement

/-! ## The normal form -/

/-- Puts a statement before others; a run of text becomes one with the run that follows it. -/
def consText : TextStatement → List TextStatement → List TextStatement
  | .plain content, .plain next :: rest => .plain (content ++ next) :: rest
  | statement, rest => statement :: rest

mutual

/-- A statement in whose bodies adjacent runs of text are joined. -/
def coalesced : TextStatement → TextStatement
  | .plain content => .plain content
  | .interpolation e => .interpolation e
  | .forIn binder iterable body => .forIn binder iterable (coalescedOf body)
  | .join binder iterable separator body => .join binder iterable separator (coalescedOf body)

/-- A sequence of statements in which adjacent runs of text are joined, in bodies too. -/
def coalescedOf : List TextStatement → List TextStatement
  | [] => []
  | statement :: rest => consText (coalesced statement) (coalescedOf rest)

end

/-- The normal form of a template: adjacent runs of text are joined, and then the bodies of all
blocks are trimmed. -/
def normalised (template : List TextStatement) : List TextStatement :=
  trimmedOf (coalescedOf template)

/-! ## Trees that can be written -/

mutual

/-- A statement that can be written. -/
def IsWritable : TextStatement → Prop
  | .plain content => content ≠ "" ∧ '\x7b' ∉ content.toList
  | .interpolation e => e.IsWritable
  | .forIn binder iterable body =>
    (∀ name ∈ binder.boundNames, IsName name) ∧ iterable.IsWritable ∧ AreWritable body
  | .join binder iterable separator body =>
    (∀ name ∈ binder.boundNames, IsName name) ∧ iterable.IsWritable ∧ separator.IsWritable ∧
      AreWritable body

/-- Statements that can be written. -/
def AreWritable : List TextStatement → Prop
  | [] => True
  | statement :: rest => IsWritable statement ∧ AreWritable rest

end

mutual

/-- Decides whether a statement can be written. -/
def decIsWritable : (u : TextStatement) → Decidable u.IsWritable
  | .plain _ => inferInstanceAs (Decidable (_ ∧ _))
  | .interpolation e => inferInstanceAs (Decidable e.IsWritable)
  | .forIn _ _ body =>
    have := decAreWritable body
    inferInstanceAs (Decidable (_ ∧ _ ∧ AreWritable body))
  | .join _ _ _ body =>
    have := decAreWritable body
    inferInstanceAs (Decidable (_ ∧ _ ∧ _ ∧ AreWritable body))

/-- Decides whether statements can be written. -/
def decAreWritable : (us : List TextStatement) → Decidable (AreWritable us)
  | [] => isTrue trivial
  | u :: us =>
    have := decIsWritable u
    have := decAreWritable us
    inferInstanceAs (Decidable (u.IsWritable ∧ AreWritable us))

end

instance (us : List TextStatement) : Decidable (AreWritable us) := decAreWritable us

/-! ## Joining runs of text -/

/-- What becomes of a statement that is put before others: it stays as it is, or it is a run of
text before another one. -/
theorem consText_cases (u : TextStatement) (us : List TextStatement) :
    (∃ content next rest, u = .plain content ∧ us = .plain next :: rest ∧
        consText u us = .plain (content ++ next) :: rest) ∨
      consText u us = u :: us ∧ (u.isText = true → ∀ next ∈ us.head?, next.isText = false) := by
  cases u with
  | plain content =>
    cases us with
    | nil => exact .inr ⟨rfl, by simp⟩
    | cons next rest =>
      cases next with
      | plain next => exact .inl ⟨content, next, rest, rfl, rfl, rfl⟩
      | _ => exact .inr ⟨rfl, by simp [isText]⟩
  | _ => exact .inr ⟨rfl, by simp [isText]⟩

theorem sources_cons (u : TextStatement) (us : List TextStatement) :
    sources (u :: us) = source u ++ sources us := rfl

theorem sources_consText (u : TextStatement) (us : List TextStatement) :
    sources (consText u us) = source u ++ sources us := by
  rcases consText_cases u us with ⟨content, next, rest, rfl, rfl, h⟩ | ⟨h, -⟩
  · rw [h, sources_cons, sources_cons]
    exact String.append_assoc
  · rw [h, sources_cons]

mutual

theorem source_coalesced (u : TextStatement) : source (coalesced u) = source u := by
  match u with
  | .plain _ => rfl
  | .interpolation _ => rfl
  | .forIn binder e body => rw [coalesced, source_forIn, source_forIn, sources_coalescedOf body]
  | .join binder e f body => rw [coalesced, source_join, source_join, sources_coalescedOf body]

/-- Between two runs of text that are written one after the other no seam shows. -/
theorem sources_coalescedOf (us : List TextStatement) : sources (coalescedOf us) = sources us := by
  match us with
  | [] => rfl
  | u :: us =>
    rw [coalescedOf, sources_consText, source_coalesced u, sources_coalescedOf us, sources_cons]

end

theorem AreWritable.consText {u : TextStatement} {us : List TextStatement} (hu : u.IsWritable)
    (hus : AreWritable us) : AreWritable (consText u us) := by
  rcases consText_cases u us with ⟨content, next, rest, rfl, rfl, h⟩ | ⟨h, -⟩
  · rw [h]
    refine ⟨⟨?_, ?_⟩, hus.2⟩
    · have := hu.1
      simp_all
    · simpa using ⟨hu.2, hus.1.2⟩
  · rw [h]
    exact ⟨hu, hus⟩

mutual

theorem IsWritable.coalesced {u : TextStatement} (h : u.IsWritable) :
    (coalesced u).IsWritable := by
  match u with
  | .plain _ => exact h
  | .interpolation _ => exact h
  | .forIn _ _ body => exact ⟨h.1, h.2.1, AreWritable.coalescedOf h.2.2⟩
  | .join _ _ _ body => exact ⟨h.1, h.2.1, h.2.2.1, AreWritable.coalescedOf h.2.2.2⟩

theorem AreWritable.coalescedOf {us : List TextStatement} (h : AreWritable us) :
    AreWritable (coalescedOf us) := by
  match us with
  | [] => trivial
  | u :: us => exact .consText (IsWritable.coalesced h.1) (AreWritable.coalescedOf h.2)

end

/-! ## The normal form is separated -/

/-- A run of text without an opening brace may stand before anything but another run. -/
theorem standsBefore_of_isWritable {followed : Bool} {u : TextStatement}
    {rest : List TextStatement} (hu : u.IsWritable)
    (hnext : u.isText = true → ∀ next ∈ rest.head?, next.isText = false) :
    StandsBefore followed u rest := by
  cases u with
  | plain content =>
    have hlast : content.toList.getLast? ≠ some '\x7b' := fun h => hu.2 (List.mem_of_getLast? h)
    cases rest with
    | nil => exact fun _ => hlast
    | cons next rest => exact ⟨hnext rfl next rfl, hlast⟩
  | _ => trivial

theorem SeparatedOf.consText {followed : Bool} {u : TextStatement} {us : List TextStatement}
    (hw : u.IsWritable) (hws : AreWritable us) (hu : u.Separated) (hus : SeparatedOf followed us) :
    SeparatedOf followed (consText u us) := by
  rcases consText_cases u us with ⟨content, next, rest, rfl, rfl, h⟩ | ⟨h, hnext⟩
  · have hjoined : AreWritable (.plain (content ++ next) :: rest) := h ▸ AreWritable.consText hw hws
    rw [h]
    refine ⟨trivial, standsBefore_of_isWritable hjoined.1 fun _ => ?_, hus.2.2⟩
    -- what may follow the second run may follow both
    cases rest with
    | nil => simp
    | cons other rest =>
      rintro _ ⟨⟩
      exact hus.2.1.1
  · rw [h]
    exact ⟨hu, standsBefore_of_isWritable hw hnext, hus⟩

mutual

theorem separated_coalesced {u : TextStatement} (h : u.IsWritable) : (coalesced u).Separated := by
  match u with
  | .plain _ => trivial
  | .interpolation _ => trivial
  | .forIn _ _ body => exact separatedOf_coalescedOf h.2.2
  | .join _ _ _ body => exact separatedOf_coalescedOf h.2.2.2

theorem separatedOf_coalescedOf {followed : Bool} {us : List TextStatement}
    (h : AreWritable us) : SeparatedOf followed (coalescedOf us) := by
  match us with
  | [] => trivial
  | u :: us =>
    exact .consText h.1.coalesced h.2.coalescedOf (separated_coalesced h.1)
      (separatedOf_coalescedOf h.2)

end

/-! ## The tokens of a tree that can be written -/

mutual

theorem wellFormed_of_mem_pattern {p : Pattern} (h : ∀ name ∈ p.boundNames, IsName name)
    {t : Token} (ht : t ∈ p.tokens) : t.WellFormed := by
  match p with
  | .var name =>
    rw [List.mem_singleton.1 ht]
    exact isName_iff.1 (h name (List.mem_singleton_self _))
  | .tuple ps =>
    simp only [Pattern.tokens, List.mem_cons, List.mem_append, List.not_mem_nil, or_false] at ht
    rcases ht with rfl | ht | rfl
    · trivial
    · exact wellFormed_of_mem_patterns h ht
    · trivial

theorem wellFormed_of_mem_patterns {first : Bool} {ps : List Pattern}
    (h : ∀ name ∈ Pattern.boundNamesOf ps, IsName name) {t : Token}
    (ht : t ∈ Pattern.tokensOf first ps) : t.WellFormed := by
  match ps with
  | [] => cases ht
  | p :: ps =>
    simp only [Pattern.boundNamesOf, List.mem_append] at h
    simp only [Pattern.tokensOf, List.mem_append] at ht
    rcases ht with ht | ht | ht
    · cases first with
      | true => cases ht
      | false =>
        rw [List.mem_singleton.1 ht]
        trivial
    · exact wellFormed_of_mem_pattern (fun name hname => h name (.inl hname)) ht
    · exact wellFormed_of_mem_patterns (fun name hname => h name (.inr hname)) ht

end

/-- In text without an opening brace no directive opens. -/
theorem splitText_eq_self {chars : List Char} (h : '\x7b' ∉ chars) :
    Piece.splitText chars = (chars, []) := by
  induction chars with
  | nil => rfl
  | cons c chars ih =>
    have hno : startsDirective (c :: chars) = false := by
      refine Bool.eq_false_iff.2 fun hstarts => h ?_
      obtain ⟨rest, hrest⟩ := eq_cons_of_startsDirective hstarts
      rw [hrest]
      exact List.mem_cons_self
    rw [Piece.splitText_cons hno, ih fun hmem => h (List.mem_cons_of_mem _ hmem)]

theorem wellFormed_of_mem_blockTokens {c : Construct} {header body : List Token}
    (hheader : ∀ t ∈ header, t.WellFormed) (hbody : ∀ t ∈ body, t.WellFormed) {t : Token}
    (ht : t ∈ c.blockTokens header body) : t.WellFormed := by
  simp only [Construct.blockTokens, Construct.openingTokens, endTokens, List.mem_append,
    List.mem_cons, List.not_mem_nil, or_false] at ht
  rcases ht with (rfl | rfl | ht | rfl) | ht | rfl | rfl | rfl
  · trivial
  · trivial
  · exact hheader t ht
  · trivial
  · exact hbody t ht
  all_goals trivial

mutual

theorem wellFormed_of_mem_tokens {u : TextStatement} (h : u.IsWritable) {t : Token}
    (ht : t ∈ u.tokens) : t.WellFormed := by
  match u with
  | .plain content =>
    rw [List.mem_singleton.1 ht]
    exact ⟨h.1, splitText_eq_self h.2⟩
  | .interpolation e =>
    simp only [tokens_interpolation, List.mem_cons, List.not_mem_nil, or_false] at ht
    rcases ht with rfl | rfl | rfl
    · trivial
    · exact Expression.wellFormed_token h
    · trivial
  | .forIn binder e body =>
    obtain ⟨hbinder, he, hbody⟩ := h
    refine wellFormed_of_mem_blockTokens (fun t ht => ?_)
      (fun t ht => wellFormed_of_mem_tokensOf hbody ht) ht
    simp only [forInTokens, List.mem_append, List.mem_cons, List.not_mem_nil, or_false] at ht
    rcases ht with ht | rfl | rfl
    · exact wellFormed_of_mem_pattern hbinder ht
    · trivial
    · exact Expression.wellFormed_token he
  | .join binder e f body =>
    obtain ⟨hbinder, he, hf, hbody⟩ := h
    refine wellFormed_of_mem_blockTokens (fun t ht => ?_)
      (fun t ht => wellFormed_of_mem_tokensOf hbody ht) ht
    simp only [joinTokens, List.mem_append, List.mem_cons, List.not_mem_nil, or_false] at ht
    rcases ht with ht | rfl | rfl | rfl | rfl
    · exact wellFormed_of_mem_pattern hbinder ht
    · trivial
    · exact Expression.wellFormed_token he
    · trivial
    · exact Expression.wellFormed_token hf

theorem wellFormed_of_mem_tokensOf {us : List TextStatement} (h : AreWritable us) {t : Token}
    (ht : t ∈ tokensOf us) : t.WellFormed := by
  match us with
  | [] => cases ht
  | u :: us =>
    rcases List.mem_append.1 ht with ht | ht
    · exact wellFormed_of_mem_tokens h.1 ht
    · exact wellFormed_of_mem_tokensOf h.2 ht

end

end TextStatement

open TextStatement

/-! ## Reading back -/

/-- A tree that can be written is read back as its normal form; one that is its own normal form is
read back as it is. -/
theorem parse_sources_eq_normalised {template : List TextStatement} (h : AreWritable template) :
    parse (sources template) = .ok (normalised template) ∧
      (normalised template = template → parse (sources template) = .ok template) := by
  have htokens : tokens .text (sources template) = tokensOf (coalescedOf template) := by
    rw [← sources_coalescedOf]
    exact tokens_sources (fun _ ht => wellFormed_of_mem_tokensOf h.coalescedOf ht)
      (separatedOf_coalescedOf h)
  have hparse : parse (sources template) = .ok (normalised template) :=
    parse_eq_ok_iff.2 ⟨coalescedOf template, htokens, rfl⟩
  exact ⟨hparse, fun hnormal => by rw [hparse, hnormal]⟩

/-- An instance with runs of text side by side at every level: two make up padding and are left
out, three do not since one holds a line feed, and at the top level spaces stay. -/
theorem parse_sources_eq_normalised_nested :
    ∃ template, template =
        [.plain " ", .plain "\t",
          .forIn (.tuple [.var "x", .tuple []]) (.literal (.string "\"%\x7d"))
            [.plain " ", .plain "\t",
              .join (.var "_y") (.reference "x") (.literal (.integer "07"))
                [.interpolation (.reference "y"), .plain " ", .plain "\n", .plain " "],
              .plain " ", .plain " "]] ∧
      AreWritable template ∧
      normalised template =
        [.plain " \t",
          .forIn (.tuple [.var "x", .tuple []]) (.literal (.string "\"%\x7d"))
            [.join (.var "_y") (.reference "x") (.literal (.integer "07"))
                [.interpolation (.reference "y"), .plain " \n "]]] ∧
      parse (sources template) = .ok (normalised template) := by
  refine ⟨_, rfl, (and_iff_left_of_imp fun h => ⟨?_, (parse_sources_eq_normalised h).1⟩).2 ?_⟩
  all_goals decide +kernel

end Stencil
