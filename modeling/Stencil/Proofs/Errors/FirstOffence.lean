import Stencil.Proofs.Errors.Stops
import Stencil.Proofs.Errors.Truthful

/-!
# Syntax errors point at the first offending token

If the tokens of a source are not complete, then besides the errors about blocks there is one error
about a token. It stands at the first token that cannot go on to a complete list of tokens, or at
the end of input if all of them can, and it is about the pattern if that is inside a binder.

* `Viable` says that a list of tokens can go on to a complete one, and `FirstOffence` where a source
  stops being viable.
* `ParseError.IsAtFirstOffence` says what the error tells about this place.
-/

namespace Stencil

/-! ## The first offence of a source -/

/-- The tokens can go on to a complete list of tokens. -/
def Viable (ts : List Token) : Prop :=
  ∃ more, Complete (ts ++ more)

/-- Where a source stops being viable: the tokens before that place, its range and the token that
stands there. If all tokens are viable it is the end of input. -/
inductive FirstOffence (source : String) : List Token → ByteRange → Option Token → Prop
  | token {before after : List Lexeme} {lexeme : Lexeme}
      (h : lexemes .text source = before ++ lexeme :: after)
      (hviable : Viable (before.map Lexeme.token))
      (hnot : ¬ Viable (before.map Lexeme.token ++ [lexeme.token])) :
      FirstOffence source (before.map Lexeme.token) lexeme.range (some lexeme.token)
  | endOfInput (h : Viable (tokens .text source)) :
      FirstOffence source (tokens .text source) ⟨source.utf8ByteSize, source.utf8ByteSize⟩ none

/-- Whether an error is about a single token, and not about a block. -/
def ParseErrorKind.isAboutToken : ParseErrorKind → Bool
  | .unexpectedToken .. | .invalidPattern .. => true
  | _ => false

/-- The error stands where the source stops being viable, names the token there, and is about the
pattern if that is inside a binder. -/
def ParseError.IsAtFirstOffence (source : String) (error : ParseError) : Prop :=
  ∃ before range found expected, FirstOffence source before range found ∧
    error.span = (LineIndex.ofSource source).span range ∧
    ((InBinder before ∧ error.kind = .invalidPattern expected (found.map Token.describe)) ∨
      (¬ InBinder before ∧ error.kind = .unexpectedToken expected (found.map Token.describe)))

/-- The errors about a token among those that parsing ends with. -/
def tokenErrors {α : Type} : Except (List ParseError) α → List ParseError
  | .ok _ => []
  | .error errors => errors.filter (·.kind.isAboutToken)

variable {source : String} {input : Input} {cause : Located}

theorem viable_iff {ts : List Token} : Viable ts ↔ ts ∈ beginnings (completeAt 0) := by
  constructor
  · rintro ⟨more, h⟩
    exact ⟨ts ++ more, complete_iff_completeAt.1 h, List.prefix_append ts more⟩
  · rintro ⟨_, h, more, rfl⟩
    exact ⟨more, complete_iff_completeAt.2 h⟩

/-- A blamed fault that points at a token points at the first offence. -/
theorem firstOffence_of_blamed (h : Blamed (completeAt 0) inBinder (.ofSource .text source) cause)
    {place : Input} (hw : (Input.ofSource .text source).Precedes place) (hat : cause.IsAt place) :
    ∃ before, FirstOffence source before cause.fault.range cause.fault.found ∧
      IsNamed inBinder before cause.fault.kind := by
  obtain ⟨count, hreach, hextent, hnamed⟩ := h
  obtain ⟨ts, hr⟩ := hw
  obtain ⟨part, hpart, hts⟩ := hr.exists_remaining_eq
  have hcount : count = part.length := by
    have hread := hr.read_eq
    rw [← hts, List.length_map, ← hat.reach_eq, hreach] at hread
    omega
  have hbefore : (Input.ofSource .text source).tokens.take count = part.map Lexeme.token := by
    rw [hr.tokens_eq, hcount, ← hts]
    exact List.take_left' (List.length_map ..)
  rw [hbefore] at hnamed
  refine ⟨part.map Lexeme.token, ?_, hnamed⟩
  rw [hat.range_eq, hat.found_eq]
  have hviable : Viable (part.map Lexeme.token) := viable_iff.2 (hbefore ▸ hextent.take_mem)
  have hlexemes : lexemes .text source = part ++ place.remaining := hpart
  cases hremaining : place.remaining with
  | nil =>
    rw [hremaining, List.append_nil] at hlexemes
    have hrange : place.nextRange = ⟨source.utf8ByteSize, source.utf8ByteSize⟩ := by
      simp [Input.nextRange, hremaining, Input.endRange, hr.size_eq, Input.ofSource]
    have hfound : place.tokens.head? = none := by simp [Input.tokens, hremaining]
    rw [hrange, hfound]
    rw [← hlexemes] at hviable ⊢
    exact .endOfInput hviable
  | cons lexeme after =>
    rw [hremaining] at hlexemes
    have hrange : place.nextRange = lexeme.range := by simp [Input.nextRange, hremaining]
    have hfound : place.tokens.head? = some lexeme.token := by simp [Input.tokens, hremaining]
    rw [hrange, hfound]
    refine .token hlexemes hviable fun hmore => ?_
    have hpre : part.map Lexeme.token ++ [lexeme.token] <+:
        (Input.ofSource .text source).tokens := by
      simp [Input.tokens, Input.ofSource, hlexemes]
    have hle := hextent.length_le (viable_iff.1 hmore) hpre
    simp only [List.length_append, List.length_map, List.length_singleton] at hle
    omega

/-! ## The errors of a source -/

theorem isAboutToken_toParseError (index : LineIndex) (name : Option String) (fault : Fault) :
    (fault.toParseError index name).kind.isAboutToken = fault.kind.isAboutToken := by
  simp only [Fault.toParseError]
  cases fault.kind <;> rfl

theorem Truthful.isAboutToken_eq_false {headers : Construct → List Token → Prop} {whole : Input}
    {kind : FaultKind} {range : ByteRange} (h : Truthful headers whole kind range) :
    kind.isAboutToken = false := by
  cases h <;> rfl

/-- An error at the first offence is made of a fault there. -/
theorem isAtFirstOffence_of_fault {before : List Token}
    (hoffence : FirstOffence source before cause.fault.range cause.fault.found)
    (hnamed : IsNamed inBinder before cause.fault.kind) :
    (cause.fault.toParseError (LineIndex.ofSource source) none).IsAtFirstOffence source := by
  refine ⟨before, _, _, cause.fault.reportedExpected, hoffence, rfl, ?_⟩
  refine hnamed.imp (fun h => ⟨h.1, ?_⟩) (fun h => ⟨h.1, ?_⟩)
  · simp [Fault.toParseError, h.2]
  · simp [Fault.toParseError, h.2]

/-- The errors about a token are made of the faults about one. -/
theorem tokenErrors_perm {faults : List Fault}
    (h : Dialect.text.template.run (.ofSource .text source) = .error faults) :
    (tokenErrors (parse source)).Perm ((faults.filter (·.kind.isAboutToken)).map
      (·.toParseError (LineIndex.ofSource source) none)) := by
  have hparse : parse source = _ := parseAs_eq_error_iff.2 ⟨faults, h, rfl⟩
  have hperm := (ParseError.sortByStart_perm (faults.map
    (·.toParseError (LineIndex.ofSource source) none))).filter (·.kind.isAboutToken)
  simp only [List.filter_map, Function.comp_def, isAboutToken_toParseError] at hperm
  rw [hparse]
  exact hperm

/-- What is reported on the way through a template is about blocks. -/
theorem filter_reported_eq_nil {es : List Located} {reply : Reply (List TextStatement)}
    (h : Dialect.text.template (.ofSource .text source) = ⟨es, reply⟩) :
    (es.map Located.fault).filter (·.kind.isAboutToken) = [] := by
  have hfaithful := Parser.faithful_template (keepsFaults_text (.ofSource .text source))
    ((lexemes .text source).length + 1)
  have hw := Input.Precedes.refl (.ofSource .text source)
  have hlt := Nat.lt_succ_self (lexemes .text source).length
  have hgrave : ∀ e ∈ es, Grave (IsHeader IsTextExpression) (.ofSource .text source)
      (fun _ => True) (.ofSource .text source) e := by
    rcases reply with ⟨v, alternative, rest⟩ | cause
    · exact (hfaithful.accepted hw hlt h).1
    · exact (hfaithful.rejected hw hlt h).1
  simp only [List.filter_eq_nil_iff, List.forall_mem_map]
  intro e he
  rw [(hgrave e he).truthful.isAboutToken_eq_false]
  exact Bool.false_ne_true

theorem tokenErrors_eq_nil_of_complete (h : Complete (tokens .text source)) :
    tokenErrors (parse source) = [] := by
  cases hparse : parse source with
  | ok => rfl
  | error errors =>
    obtain ⟨faults, hrun, -⟩ := parseAs_eq_error_iff.1 hparse
    obtain ⟨-, es, v, alternative, rest, ha⟩ :=
      (Parser.template_accepts_or_blames (.ofSource .text source)).resolve_right fun h' => h'.1 h
    have hperm := tokenErrors_perm hrun
    rcases Parser.run_eq_error_iff.1 hrun with ⟨es', _, _, _, ha', -, rfl⟩ | ⟨_, _, hr, -⟩
    · rw [filter_reported_eq_nil ha', List.map_nil, hparse] at hperm
      exact hperm.eq_nil
    · cases hr.symm.trans ha

theorem tokenErrors_eq_singleton (h : ¬ Complete (tokens .text source)) :
    ∃ error, tokenErrors (parse source) = [error] ∧ error.IsAtFirstOffence source := by
  obtain ⟨-, es, cause, hr, hblamed⟩ :=
    (Parser.template_accepts_or_blames (.ofSource .text source)).resolve_left fun h' => h h'.1
  -- the fault is not about a block, so it points at a token
  have hkind : cause.fault.kind.isAboutToken = true := by
    obtain ⟨_, _, _, ⟨-, h⟩ | ⟨-, h⟩⟩ := hblamed <;> rw [h] <;> rfl
  obtain ⟨-, ⟨place, hplace, hat⟩ | hgrave⟩ := (Parser.faithful_template
    (keepsFaults_text (.ofSource .text source)) _).rejected (Input.Precedes.refl _)
      (Nat.lt_succ_self _) hr
  · obtain ⟨before, hoffence, hnamed⟩ := firstOffence_of_blamed hblamed hplace hat
    refine ⟨_, ?_, isAtFirstOffence_of_fault hoffence hnamed⟩
    have hperm := tokenErrors_perm (Parser.run_eq_error_iff.2 (.inr ⟨es, cause, hr, rfl⟩))
    rw [List.filter_append, filter_reported_eq_nil hr, List.nil_append, List.filter_singleton,
      hkind] at hperm
    exact List.perm_singleton.1 hperm
  · rw [hgrave.truthful.isAboutToken_eq_false] at hkind
    cases hkind

/-- **Syntax errors point at the first offending token.** There is an error about a token if and
only if the tokens of the source are not complete; then it is the only one, and it stands at the
first offence. -/
theorem tokenErrors_parse_at_first_offence (source : String) :
    (tokenErrors (parse source) ≠ [] ↔ ¬ Complete (tokens .text source)) ∧
    (¬ Complete (tokens .text source) →
      ∃ error, tokenErrors (parse source) = [error] ∧ error.IsAtFirstOffence source) := by
  refine ⟨⟨mt tokenErrors_eq_nil_of_complete, fun h => ?_⟩, tokenErrors_eq_singleton⟩
  obtain ⟨error, herror, -⟩ := tokenErrors_eq_singleton h
  simp [herror]

/-- The pattern is not complete at the closing bracket, in a block that is never closed. -/
example : tokenErrors (parse "\x7b% join y in b with c %\x7d\x7b% for (a, %\x7d") =
    [⟨.invalidPattern ["an identifier", "'('"] (some "'%\x7d'"), ⟨⟨0, 35⟩, ⟨0, 37⟩⟩, none⟩] := by
  decide +kernel

end Stencil
