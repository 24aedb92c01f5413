import Mathlib.Data.List.Basic
import Stencil.Proofs.Parser.Blocks

/-!
# Complete templates

The parser of templates over raw text goes on behind a block that is closed by the wrong end
directive, or not closed at all. So more than templates is read to the end: a *complete* list of
tokens is a sequence of statements in which a block may be closed by either end directive or by the
end of input.

* `Complete` says this along the nesting of blocks, `CompleteAt` part by part, with the number of
  blocks that are open; `complete_iff_completeAt` shows that they agree.
* `completeAt_tokens_append_iff` takes a part off the front, since no part is the beginning of
  another (`Part.tokens_append_inj`).
-/

namespace Stencil

/-! ## Headers -/

/-- The tokens of the header of a block behind its keyword, over the token forms of
expressions. -/
inductive IsHeader (expression : List Token → Prop) : Construct → List Token → Prop
  | forIn (binder : Pattern) {iterable : List Token} (h : expression iterable) :
      IsHeader expression .forIn (forInTokens binder iterable)
  | join (binder : Pattern) {iterable separator : List Token} (h : expression iterable)
      (h' : expression separator) :
      IsHeader expression .join (joinTokens binder iterable separator)

/-- The token forms of the expressions of templates over raw text. -/
def IsTextExpression (ts : List Token) : Prop :=
  ∃ e : Expression, ts = [e.token]

/-! ## Along the nesting of blocks -/

/-- A sequence of statements in which each block is closed, by either end directive. -/
inductive Closed : List Token → Prop
  | nil : Closed []
  | text (content : String) {rest : List Token} (h : Closed rest) :
      Closed ([.text content] ++ rest)
  | interpolation (e : Expression) {rest : List Token} (h : Closed rest) :
      Closed ([.openExpression, e.token, .closeExpression] ++ rest)
  | block {construct : Construct} {header body rest : List Token} {word : Keyword}
      (hheader : IsHeader IsTextExpression construct header) (hbody : Closed body)
      (hword : word.isEnd = true) (h : Closed rest) :
      Closed (construct.openingTokens header ++ (body ++ (endTokens word ++ rest)))

/-- A sequence of statements in which the end of input may close blocks. -/
inductive Complete : List Token → Prop
  | closed {ts : List Token} (h : Closed ts) : Complete ts
  | unclosed {before header body : List Token} {construct : Construct} (hbefore : Closed before)
      (hheader : IsHeader IsTextExpression construct header) (hbody : Complete body) :
      Complete (before ++ (construct.openingTokens header ++ body))

theorem Closed.append {ts us : List Token} (h : Closed ts) (h' : Closed us) :
    Closed (ts ++ us) := by
  induction h with
  | nil => exact h'
  | text content _ ih => exact .text content ih
  | interpolation e _ ih => exact .interpolation e ih
  | block hheader hbody hword _ _ ih =>
    simp only [List.append_assoc]
    exact .block hheader hbody hword ih

theorem Closed.complete_append {ts us : List Token} (h : Closed ts) (h' : Complete us) :
    Complete (ts ++ us) := by
  cases h' with
  | closed h' => exact .closed (h.append h')
  | unclosed hbefore hheader hbody =>
    rw [← List.append_assoc]
    exact .unclosed (h.append hbefore) hheader hbody

/-! ## Part by part -/

/-- A part of a template: text, an interpolation, a directive that opens a block, or one that
ends it. -/
inductive Part where
  | text (content : String)
  | interpolation (e : Expression)
  | opening (construct : Construct) (header : List Token)
      (h : IsHeader IsTextExpression construct header)
  | ending (word : Keyword) (h : word.isEnd = true)

namespace Part

/-- The tokens of a part. -/
def tokens : Part → List Token
  | .text content => [.text content]
  | .interpolation e => [.openExpression, e.token, .closeExpression]
  | .opening construct header _ => construct.openingTokens header
  | .ending word _ => endTokens word

/-- The number of open blocks behind a part, if it can stand behind `depth` open blocks. -/
def after (depth : Nat) : Part → Option Nat
  | .text _ | .interpolation _ => some depth
  | .opening .. => some (depth + 1)
  | .ending .. =>
    match depth with
    | 0 => none
    | outer + 1 => some outer

end Part

/-- A sequence of parts behind a number of open blocks, in which no end directive stands where no
block is open. -/
inductive CompleteAt : Nat → List Token → Prop
  | done (depth : Nat) : CompleteAt depth []
  | part {depth next : Nat} {rest : List Token} (p : Part) (hp : p.after depth = some next)
      (h : CompleteAt next rest) : CompleteAt depth (p.tokens ++ rest)

theorem Closed.completeAt_append {ts us : List Token} (h : Closed ts) {depth : Nat}
    (h' : CompleteAt depth us) : CompleteAt depth (ts ++ us) := by
  induction h generalizing us depth with
  | nil => exact h'
  | text content _ ih => exact .part (.text content) rfl (ih h')
  | interpolation e _ ih => exact .part (.interpolation e) rfl (ih h')
  | block hheader _ hword _ ihbody ih =>
    simp only [List.append_assoc]
    exact .part (.opening _ _ hheader) rfl (ihbody (.part (.ending _ hword) rfl (ih h')))

theorem Complete.completeAt {ts : List Token} (h : Complete ts) (depth : Nat) :
    CompleteAt depth ts := by
  induction h generalizing depth with
  | closed h => simpa using h.completeAt_append (.done depth)
  | unclosed hbefore hheader _ ih =>
    exact hbefore.completeAt_append (.part (.opening _ _ hheader) rfl (ih (depth + 1)))

/-- Behind open blocks a complete sequence follows, or a closed one up to the end directive of the
innermost of them. -/
def CompleteOrEnds (depth : Nat) (ts : List Token) : Prop :=
  Complete ts ∨ ∃ outer body word rest, depth = outer + 1 ∧ Closed body ∧ word.isEnd = true ∧
    CompleteAt outer rest ∧ ts = body ++ (endTokens word ++ rest)

theorem CompleteOrEnds.append {depth : Nat} {before ts : List Token} (hbefore : Closed before)
    (h : CompleteOrEnds depth ts) : CompleteOrEnds depth (before ++ ts) := by
  rcases h with h | ⟨outer, body, word, rest, hdepth, hbody, hword, hrest, rfl⟩
  · exact .inl (hbefore.complete_append h)
  · exact .inr ⟨outer, before ++ body, word, rest, hdepth, hbefore.append hbody, hword, hrest,
      (List.append_assoc _ _ _).symm⟩

theorem CompleteAt.completeOrEnds (n : Nat) {depth : Nat} {ts : List Token} (hn : ts.length ≤ n)
    (h : CompleteAt depth ts) : CompleteOrEnds depth ts := by
  induction n generalizing depth ts with
  | zero =>
    obtain rfl := List.length_eq_zero_iff.1 (Nat.le_zero.1 hn)
    exact .inl (.closed .nil)
  | succ n ih =>
    cases h with
    | done => exact .inl (.closed .nil)
    | @part _ next rest p hp h =>
      rw [List.length_append] at hn
      cases p with
      | text content =>
        cases hp
        exact CompleteOrEnds.append (.text content .nil) (ih (by simp [Part.tokens] at hn; omega) h)
      | interpolation e =>
        cases hp
        exact CompleteOrEnds.append (.interpolation e .nil)
          (ih (by simp [Part.tokens] at hn; omega) h)
      | opening construct header hheader =>
        cases hp
        have hlt : rest.length ≤ n := by
          simp only [Part.tokens, Construct.openingTokens, List.length_cons] at hn
          omega
        rcases ih hlt h with hcomplete | ⟨outer, body, word, more, hdepth, hbody, hword, hmore, rfl⟩
        · exact .inl (.unclosed .nil hheader hcomplete)
        · -- the block is closed: go on behind its end directive
          cases hdepth
          have hle : more.length ≤ n := by
            simp only [List.length_append] at hlt
            omega
          have hblock := Closed.block hheader hbody hword .nil
          simpa [Part.tokens] using CompleteOrEnds.append hblock (ih hle hmore)
      | ending word hword =>
        cases depth with
        | zero => cases hp
        | succ outer =>
          cases hp
          exact .inr ⟨_, [], word, rest, rfl, .nil, hword, h, rfl⟩

/-- Both ways of saying that a list of tokens is complete agree. -/
theorem complete_iff_completeAt {ts : List Token} : Complete ts ↔ CompleteAt 0 ts := by
  constructor
  · exact fun h => h.completeAt 0
  · intro h
    rcases h.completeOrEnds ts.length (Nat.le_refl _) with h | ⟨outer, _, _, _, hdepth, _⟩
    · exact h
    · cases hdepth

/-! ## No part is the beginning of another -/

/-- What an exact parser reads from the front of a list of tokens is one value. -/
theorem Parser.Exact.append_inj {α : Type} {p : Parser α} {form : α → List Token}
    (hp : p.Exact form) {v w : α} {us vs : List Token} (h : form v ++ us = form w ++ vs) :
    v = w := by
  let input : Input := ⟨(form v ++ us).map fun t => ⟨t, ⟨0, 0⟩⟩, 0, 0⟩
  have hinput : input.tokens = form v ++ us := by simp [input, Input.tokens, Function.comp_def]
  obtain ⟨rest, hv, -⟩ := Input.exists_reaches hinput
  obtain ⟨rest', hw, -⟩ := Input.exists_reaches (hinput.trans h)
  exact ((hp _ _ _ _).2 ⟨rfl, hv⟩ |>.unique ((hp _ _ _ _).2 ⟨rfl, hw⟩)).2.1

theorem Expression.token_injective : Function.Injective Expression.token := by
  intro e f h
  match e, f with
  | .reference _, .reference _ => simpa [token] using h
  | .literal (.string _), .literal (.string _) => simpa [token] using h
  | .literal (.integer _), .literal (.integer _) => simpa [token] using h
  | .reference _, .literal (.string _) | .reference _, .literal (.integer _)
  | .literal (.string _), .reference _ | .literal (.integer _), .reference _
  | .literal (.string _), .literal (.integer _) | .literal (.integer _), .literal (.string _) =>
    cases h

theorem IsHeader.openingTokens_append_inj {construct construct' : Construct}
    {header header' us vs : List Token} (h : IsHeader IsTextExpression construct header)
    (h' : IsHeader IsTextExpression construct' header')
    (heq : construct.openingTokens header ++ us = construct'.openingTokens header' ++ vs) :
    construct = construct' ∧ header = header' := by
  have hfor := (Parser.exact_forHeader Parser.exact_textExpression).between .openStatement
    .closeStatement
  have hjoin := (Parser.exact_joinHeader Parser.exact_textExpression).between .openStatement
    .closeStatement
  cases h with
  | @forIn binder _ he =>
    obtain ⟨e, rfl⟩ := he
    cases h' with
    | @forIn binder' _ he' =>
      obtain ⟨e', rfl⟩ := he'
      cases hfor.append_inj (v := (binder, e)) (w := (binder', e')) heq
      exact ⟨rfl, rfl⟩
    | join => cases (List.cons.inj (List.cons.inj heq).2).1
  | @join binder _ _ he hf =>
    obtain ⟨e, rfl⟩ := he
    obtain ⟨f, rfl⟩ := hf
    cases h' with
    | forIn => cases (List.cons.inj (List.cons.inj heq).2).1
    | @join binder' _ _ he' hf' =>
      obtain ⟨e', rfl⟩ := he'
      obtain ⟨f', rfl⟩ := hf'
      cases hjoin.append_inj (v := ((binder, e), f)) (w := ((binder', e'), f')) heq
      exact ⟨rfl, rfl⟩

namespace Part

theorem opening_ne_of_isEnd {word : Keyword} (h : word.isEnd = true) (construct : Construct) :
    construct.opening ≠ word := by
  cases construct <;> rintro rfl <;> cases h

/-- The part at the front of a list of tokens is one part. -/
theorem tokens_append_inj {p q : Part} {us vs : List Token}
    (h : p.tokens ++ us = q.tokens ++ vs) : p = q ∧ us = vs := by
  have hpq : p = q := by
    cases p with
    | text content =>
      cases q with
      | text content' =>
        cases (List.cons.inj h).1
        rfl
      | _ => cases (List.cons.inj h).1
    | interpolation e =>
      cases q with
      | interpolation e' =>
        rw [Expression.token_injective (List.cons.inj (List.cons.inj h).2).1]
      | _ => cases (List.cons.inj h).1
    | opening construct header hheader =>
      cases q with
      | opening construct' header' hheader' =>
        obtain ⟨rfl, rfl⟩ := hheader.openingTokens_append_inj hheader' h
        rfl
      | ending word hword =>
        exact absurd (Token.keyword.inj (List.cons.inj (List.cons.inj h).2).1)
          (opening_ne_of_isEnd hword construct)
      | _ => cases (List.cons.inj h).1
    | ending word hword =>
      cases q with
      | opening construct header hheader =>
        exact absurd (Token.keyword.inj (List.cons.inj (List.cons.inj h).2).1).symm
          (opening_ne_of_isEnd hword construct)
      | ending word' hword' =>
        cases (List.cons.inj (List.cons.inj h).2).1
        rfl
      | _ => cases (List.cons.inj h).1
  subst hpq
  exact ⟨rfl, List.append_cancel_left h⟩

theorem tokens_ne_nil (p : Part) : p.tokens ≠ [] := by
  cases p <;> simp [tokens, Construct.openingTokens, endTokens]

end Part

/-- Taking a part off the front. -/
theorem completeAt_tokens_append_iff {depth : Nat} {p : Part} {ts : List Token} :
    CompleteAt depth (p.tokens ++ ts) ↔ ∃ next, p.after depth = some next ∧ CompleteAt next ts := by
  constructor
  · intro h
    generalize heq : p.tokens ++ ts = us at h
    cases h with
    | done => exact absurd (List.append_eq_nil_iff.1 heq).1 p.tokens_ne_nil
    | @part _ next rest q hq h =>
      obtain ⟨rfl, rfl⟩ := Part.tokens_append_inj heq
      exact ⟨next, hq, h⟩
  · rintro ⟨next, hp, h⟩
    exact .part p hp h

end Stencil
