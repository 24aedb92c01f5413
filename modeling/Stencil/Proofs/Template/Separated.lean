import Stencil.Proofs.Lexeme.Scan
import Stencil.Proofs.Template.TokenForm

/-!
# Separated text

In a template that was scanned, runs of text are separated by directives, and a run before a
directive does not end in a brace. This is `TextStatement.SeparatedOf`. It is kept when the bodies
of blocks are trimmed, and it is why trimming a body once is enough: behind a run of spaces that is
dropped there is no other one.

* `separatedOf_of_isChain`: templates whose token form was scanned are separated.
* `SeparatedOf.trimmedOf`: trimmed templates are, too.
* `trimmedOf_trimmedOf`: trimming a separated template again changes nothing.
-/

namespace Stencil.TextStatement

/-- Whether a statement is a run of text. -/
def isText : TextStatement → Bool
  | .plain _ => true
  | _ => false

theorem isText_eq_true_iff {u : TextStatement} :
    u.isText = true ↔ ∃ content, u = .plain content := by
  cases u <;> simp [isText]

theorem isPadding_eq_false_of_isText {u : TextStatement} (h : u.isText = false) :
    isPadding u = false := by
  cases u <;> simp_all [isText, isPadding]

/-- What may stand behind a statement: behind a run of text no other one, and a directive only if
the run does not end in a brace. The directive that ends a block counts; `followed` tells whether
there is one. -/
def StandsBefore (followed : Bool) : TextStatement → List TextStatement → Prop
  | .plain content, [] => followed = true → content.toList.getLast? ≠ some '\x7b'
  | .plain content, next :: _ => isText next = false ∧ content.toList.getLast? ≠ some '\x7b'
  | _, _ => True

mutual

/-- In the body of a block, runs of text are separated. -/
def Separated : TextStatement → Prop
  | .plain _ => True
  | .interpolation _ => True
  | .forIn _ _ body => SeparatedOf true body
  | .join _ _ _ body => SeparatedOf true body

/-- In a sequence of statements, runs of text are separated. -/
def SeparatedOf (followed : Bool) : List TextStatement → Prop
  | [] => True
  | u :: rest => Separated u ∧ StandsBefore followed u rest ∧ SeparatedOf followed rest

end

/-! ## Scanned templates -/

/-- What begins with an opening bracket is not text. -/
theorem isText_eq_false_of_opens {u : TextStatement} {t : Token} {ts : List Token}
    (hu : u.tokens = t :: ts) (ht : t.opens = true) : u.isText = false := by
  cases u with
  | plain content =>
    obtain ⟨rfl, -⟩ := List.cons.inj hu
    cases ht
  | _ => rfl

theorem standsBefore_of_isChain {followed : Bool} {u : TextStatement}
    {rest : List TextStatement} {tail : List Token} (hf : followed = true → tail ≠ [])
    (h : (u.tokens ++ (tokensOf rest ++ tail)).IsChain Token.MayPrecede) :
    StandsBefore followed u rest := by
  cases u with
  | plain content =>
    rw [tokens_plain, List.singleton_append, List.isChain_cons_iff] at h
    cases rest with
    | nil =>
      intro hfollowed
      rcases h with hnil | ⟨next, others, hnext, -, -⟩
      · exact absurd hnil (hf hfollowed)
      · exact hnext.2
    | cons next rest =>
      obtain ⟨t, ts, ht⟩ := exists_tokens_eq_cons next
      rw [tokensOf_cons, ht] at h
      rcases h with hnil | ⟨first, others, hfirst, -, heq⟩
      · cases hnil
      · obtain ⟨rfl, -⟩ := List.cons.inj heq
        exact ⟨isText_eq_false_of_opens ht hfirst.1, hfirst.2⟩
  | _ => trivial

theorem isChain_body {c : Construct} {header body tail : List Token}
    (h : (c.blockTokens header body ++ tail).IsChain Token.MayPrecede) :
    (body ++ (endTokens c.closing ++ tail)).IsChain Token.MayPrecede := by
  rw [Construct.blockTokens, List.append_assoc, List.append_assoc] at h
  exact h.right_of_append

mutual

theorem separated_of_isChain {u : TextStatement} {tail : List Token}
    (h : (u.tokens ++ tail).IsChain Token.MayPrecede) : u.Separated := by
  match u with
  | .plain _ => trivial
  | .interpolation _ => trivial
  | .forIn binder e body =>
    rw [tokens_forIn] at h
    exact separatedOf_of_isChain (fun _ => by simp [endTokens]) (isChain_body h)
  | .join binder e f body =>
    rw [tokens_join] at h
    exact separatedOf_of_isChain (fun _ => by simp [endTokens]) (isChain_body h)

/-- A template is separated if its token form, with what follows it, can be scanned. -/
theorem separatedOf_of_isChain {followed : Bool} {us : List TextStatement} {tail : List Token}
    (hf : followed = true → tail ≠ [])
    (h : (tokensOf us ++ tail).IsChain Token.MayPrecede) : SeparatedOf followed us := by
  match us with
  | [] => trivial
  | u :: rest =>
    rw [tokensOf_cons, List.append_assoc] at h
    exact ⟨separated_of_isChain h, standsBefore_of_isChain hf h,
      separatedOf_of_isChain hf h.right_of_append⟩

end

/-! ## Trimming keeps text separated -/

@[simp] theorem isText_trimmed (u : TextStatement) : (trimmed u).isText = u.isText := by
  cases u <;> rfl

theorem SeparatedOf.trimStart {followed : Bool} {body : List TextStatement}
    (h : SeparatedOf followed body) : SeparatedOf followed (trimStart body) := by
  cases body with
  | nil => exact h
  | cons first rest =>
    rw [TextStatement.trimStart]
    split
    · exact h.2.2
    · exact h

/-- The first statement stays, unless it is a run of spaces and nothing else is there. -/
theorem trimEnd_cons_eq (first : TextStatement) (rest : List TextStatement) :
    trimEnd (first :: rest) = [] ∧ isPadding first = true ∨
      ∃ others, trimEnd (first :: rest) = first :: others := by
  cases rest with
  | nil =>
    rw [trimEnd]
    split
    · next hp => exact .inl ⟨rfl, hp⟩
    · exact .inr ⟨[], rfl⟩
  | cons second rest => exact .inr ⟨_, rfl⟩

/-- If the last statement is dropped, the end of the block stands in its place. -/
theorem SeparatedOf.trimEnd {body : List TextStatement} (h : SeparatedOf true body) :
    SeparatedOf true (trimEnd body) := by
  fun_induction TextStatement.trimEnd body with
  | case1 => exact h
  | case2 last hp => trivial
  | case3 last hp => exact h
  | case4 u next rest ih =>
    obtain ⟨hu, hstands, hrest⟩ := h
    refine ⟨hu, ?_, ih hrest⟩
    cases u with
    | plain content =>
      rcases trimEnd_cons_eq next rest with ⟨hnil, -⟩ | ⟨others, hcons⟩
      · rw [hnil]
        exact fun _ => hstands.2
      · rw [hcons]
        exact hstands
    | _ => trivial

theorem SeparatedOf.trim {body : List TextStatement} (h : SeparatedOf true body) :
    SeparatedOf true (trim body) :=
  h.trimStart.trimEnd

theorem StandsBefore.trimmed {followed : Bool} {u : TextStatement} {rest : List TextStatement}
    (h : StandsBefore followed u rest) :
    StandsBefore followed (trimmed u) (trimmedOf rest) := by
  cases u with
  | plain content =>
    cases rest with
    | nil => exact h
    | cons next rest => exact ⟨by rw [isText_trimmed]; exact h.1, h.2⟩
  | _ => trivial

mutual

theorem Separated.trimmed {u : TextStatement} (h : u.Separated) : (trimmed u).Separated := by
  match u with
  | .plain _ => trivial
  | .interpolation _ => trivial
  | .forIn _ _ body => exact (SeparatedOf.trimmedOf h).trim
  | .join _ _ _ body => exact (SeparatedOf.trimmedOf h).trim

theorem SeparatedOf.trimmedOf {followed : Bool} {us : List TextStatement}
    (h : SeparatedOf followed us) : SeparatedOf followed (trimmedOf us) := by
  match us with
  | [] => trivial
  | u :: rest => exact ⟨Separated.trimmed h.1, h.2.1.trimmed, SeparatedOf.trimmedOf h.2.2⟩

end

/-! ## Trimming twice -/

theorem trimStart_eq_self {body : List TextStatement}
    (h : ∀ u ∈ body.head?, isPadding u = false) : trimStart body = body := by
  cases body with
  | nil => rfl
  | cons first rest => simp [trimStart, h first rfl]

theorem trimEnd_eq_self {body : List TextStatement}
    (h : ∀ u ∈ body.getLast?, isPadding u = false) : trimEnd body = body := by
  fun_induction trimEnd body with
  | case1 => rfl
  | case2 last hp => simp [h last rfl] at hp
  | case3 last hp => rfl
  | case4 u next rest ih =>
    rw [List.getLast?_cons_cons] at h
    rw [ih h]

/-- Behind a first run of spaces stands a directive. -/
theorem isPadding_head?_trimStart {followed : Bool} {body : List TextStatement}
    (h : SeparatedOf followed body) : ∀ u ∈ (trimStart body).head?, isPadding u = false := by
  cases body with
  | nil => simp [trimStart]
  | cons first rest =>
    rw [trimStart]
    split
    · next hp =>
      obtain ⟨content, rfl, -⟩ := isPadding_eq_true_iff.1 hp
      cases rest with
      | nil => simp
      | cons next rest =>
        rintro _ ⟨⟩
        exact isPadding_eq_false_of_isText h.2.1.1
    · next hp =>
      rintro _ ⟨⟩
      exact Bool.eq_false_iff.2 hp

/-- Before a last run of spaces stands a directive. -/
theorem isPadding_getLast?_trimEnd {followed : Bool} {body : List TextStatement}
    (h : SeparatedOf followed body) : ∀ u ∈ (trimEnd body).getLast?, isPadding u = false := by
  fun_induction trimEnd body with
  | case1 => simp
  | case2 last hp => simp
  | case3 last hp =>
    rintro _ ⟨⟩
    exact Bool.eq_false_iff.2 hp
  | case4 u next rest ih =>
    obtain ⟨-, hstands, hrest⟩ := h
    rcases trimEnd_cons_eq next rest with ⟨hnil, hp⟩ | ⟨others, hcons⟩
    · -- all that followed was a run of spaces, so this is not text
      rw [hnil]
      rintro _ ⟨⟩
      refine Bool.eq_false_iff.2 fun hu => ?_
      obtain ⟨content, rfl, -⟩ := isPadding_eq_true_iff.1 hu
      rw [isPadding_eq_false_of_isText hstands.1] at hp
      cases hp
    · rw [hcons] at ih ⊢
      rw [List.getLast?_cons_cons]
      exact ih hrest

theorem trim_trim {body : List TextStatement} (h : SeparatedOf true body) :
    trim (trim body) = trim body := by
  have hstart : trimStart (trim body) = trim body := by
    refine trimStart_eq_self fun u hu => isPadding_head?_trimStart h u ?_
    rw [trim] at hu
    cases hbody : trimStart body with
    | nil => simp [hbody, trimEnd] at hu
    | cons first rest =>
      rw [hbody] at hu
      rcases trimEnd_cons_eq first rest with ⟨hnil, -⟩ | ⟨others, hcons⟩
      · simp [hnil] at hu
      · simpa [hcons] using hu
  have hend : trimEnd (trim body) = trim body :=
    trimEnd_eq_self (isPadding_getLast?_trimEnd h.trimStart)
  rw [trim, hstart, hend]

theorem trimmedOf_trimStart (body : List TextStatement) :
    trimmedOf (trimStart body) = trimStart (trimmedOf body) := by
  cases body with
  | nil => rfl
  | cons first rest =>
    rw [trimStart, trimmedOf, trimStart, isPadding_trimmed]
    split <;> rfl

theorem trimmedOf_trimEnd (body : List TextStatement) :
    trimmedOf (trimEnd body) = trimEnd (trimmedOf body) := by
  fun_induction trimEnd body with
  | case1 => rfl
  | case2 last hp => simp [trimmedOf, trimEnd, hp]
  | case3 last hp => simp [trimmedOf, trimEnd, hp]
  | case4 u next rest ih =>
    rw [trimmedOf, ih]
    rfl

theorem trimmedOf_trim (body : List TextStatement) :
    trimmedOf (trim body) = trim (trimmedOf body) := by
  rw [trim, trimmedOf_trimEnd, trimmedOf_trimStart]
  rfl

mutual

theorem trimmed_trimmed {u : TextStatement} (h : u.Separated) :
    trimmed (trimmed u) = trimmed u := by
  match u with
  | .plain _ => rfl
  | .interpolation _ => rfl
  | .forIn binder e body =>
    have hbody := trimmedOf_trimmedOf h
    simp only [trimmed, trimmedOf_trim, hbody, trim_trim (SeparatedOf.trimmedOf h)]
  | .join binder e f body =>
    have hbody := trimmedOf_trimmedOf h
    simp only [trimmed, trimmedOf_trim, hbody, trim_trim (SeparatedOf.trimmedOf h)]

/-- A separated template is trimmed once and for all. -/
theorem trimmedOf_trimmedOf {followed : Bool} {us : List TextStatement}
    (h : SeparatedOf followed us) : trimmedOf (trimmedOf us) = trimmedOf us := by
  match us with
  | [] => rfl
  | u :: rest =>
    simp only [trimmedOf, trimmed_trimmed h.1, trimmedOf_trimmedOf h.2.2]

end

end Stencil.TextStatement
