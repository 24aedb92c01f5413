import Stencil.Proofs.Errors.BlockFaults
import Stencil.Proofs.Errors.Reported
import Stencil.Proofs.Host.CalcParser
import Stencil.Proofs.Template.Complete

/-!
# Reported places are truthful

If a source does not parse, its errors tell the truth about places: they lie in the source, come in
order, and an error about a block names an end directive or the end of input, together with the
directive that opened the block.

* `AreTruthful` is what this means for a list of errors.
* `areTruthful_of_keepsFaults` derives it for a dialect whose parsers are faithful;
  `keepsFaults_text` and `Calc.keepsFaults_host` show this of templates over raw text and of
  calculator code.
-/

namespace Stencil

/-! ## Truthful errors -/

/-- A directive that opens a block of the construct stands at the range. -/
def OpensAt (expression : List Token → Prop) (lexemes : List Lexeme) (construct : Construct)
    (range : ByteRange) : Prop :=
  ∃ header, IsHeader expression construct header ∧
    StandsAt lexemes (construct.openingTokens header) range

/-- The range lies within the bytes of a source. -/
def ByteRange.IsWithin (range : ByteRange) (source : String) : Prop :=
  range.start ≤ range.stop ∧ range.stop ≤ source.utf8ByteSize

/-- Where the block of an error was opened, if the error is about a block. -/
def ParseErrorKind.openedAt? : ParseErrorKind → Option Span
  | .unterminatedBlock _ openedAt | .mismatchedEnd _ _ openedAt => some openedAt
  | _ => none

/-- What an error tells about places: it lies in the source, and if it is about a block, it names
the directive that opened it, and an end directive behind that one that does not close the block,
or the end of input. -/
structure ParseError.IsTruthful (expression : List Token → Prop) (mode : Mode) (source : String)
    (error : ParseError) : Prop where
  span_within : ∃ range : ByteRange, range.IsWithin source ∧
    error.span = (LineIndex.ofSource source).span range
  openedAt_within : ∀ openedAt ∈ error.kind.openedAt?,
    ∃ range : ByteRange, range.IsWithin source ∧
      openedAt = (LineIndex.ofSource source).span range
  mismatched : ∀ construct found openedAt,
    error.kind = .mismatchedEnd construct found openedAt →
    found.isEnd = true ∧ found ≠ construct.closing ∧
      ∃ range opened, StandsAt (lexemes mode source) (endTokens found) range ∧
        error.span = (LineIndex.ofSource source).span range ∧
        OpensAt expression (lexemes mode source) construct opened ∧
        openedAt = (LineIndex.ofSource source).span opened ∧ opened.stop ≤ range.start
  unterminated : ∀ construct openedAt, error.kind = .unterminatedBlock construct openedAt →
    error.span = (LineIndex.ofSource source).span ⟨source.utf8ByteSize, source.utf8ByteSize⟩ ∧
      ∃ opened, OpensAt expression (lexemes mode source) construct opened ∧
        openedAt = (LineIndex.ofSource source).span opened

/-- The errors of a source are some, in the order of their places, and all truthful. -/
structure AreTruthful (expression : List Token → Prop) (mode : Mode) (source : String)
    (errors : List ParseError) : Prop where
  ne_nil : errors ≠ []
  ordered : errors.Pairwise fun a b => a.span.start.le b.span.start = true
  isTruthful : ∀ error ∈ errors, error.IsTruthful expression mode source

section Faults

variable {expression : List Token → Prop} {mode : Mode} {source : String} {input : Input}

theorem Input.areLaid_remaining (hw : (Input.ofSource mode source).Precedes input) :
    AreLaid source.utf8ByteSize input.remaining := by
  obtain ⟨ts, hr⟩ := hw
  exact hr.areLaid (areLaid_lexemes mode source)

theorem Input.nextRange_isWithin (hw : (Input.ofSource mode source).Precedes input) :
    input.nextRange.IsWithin source := by
  have hlaid := areLaid_remaining hw
  unfold nextRange
  split
  · simp only [endRange, hw.size_eq]
    exact ⟨Nat.le_refl _, Nat.le_refl _⟩
  · next lexeme later hcons =>
    have hmem : lexeme ∈ input.remaining := by simp [hcons]
    exact ⟨hlaid.proper lexeme hmem, hlaid.within lexeme hmem⟩

theorem OpensAt.isWithin {construct : Construct} {range : ByteRange}
    (h : OpensAt expression (lexemes mode source) construct range) : range.IsWithin source := by
  obtain ⟨header, -, hstands⟩ := h
  exact hstands.start_le_stop_le (areLaid_lexemes mode source)

theorem isTruthful_of_isAt {fault : Fault} (name : Option String)
    (hw : (Input.ofSource mode source).Precedes input) (hrange : fault.range = input.nextRange)
    (hkind : fault.kind.isAboutToken = true) :
    (fault.toParseError (LineIndex.ofSource source) name).IsTruthful expression mode source := by
  obtain ⟨kind, range, expected, found, label⟩ := fault
  obtain rfl : range = input.nextRange := hrange
  refine ⟨⟨_, Input.nextRange_isWithin hw, rfl⟩, ?_, ?_, ?_⟩
  all_goals
    cases kind with
    | unexpectedToken | invalidPattern => simp [Fault.toParseError, ParseErrorKind.openedAt?]
    | unterminatedBlock | mismatchedEnd => cases hkind

theorem isTruthful_of_truthful {fault : Fault} (name : Option String)
    (h : Truthful (IsHeader expression) (.ofSource mode source) fault.kind fault.range) :
    (fault.toParseError (LineIndex.ofSource source) name).IsTruthful expression mode source := by
  obtain ⟨kind, range, expected, found, label⟩ := fault
  cases h with
  | @mismatched construct word header opening body ending rest hopening hheader hbody hending
      hword hrest hne =>
    have hopens : OpensAt expression (lexemes mode source) construct (opening.rangeTo body) :=
      ⟨header, hheader, hbody.standsAt hopening⟩
    have hstands : StandsAt (lexemes mode source) (endTokens word) (ending.rangeTo rest) :=
      hrest.standsAt ((hopening.trans hbody.precedes).trans hending)
    have hlaid := Input.areLaid_remaining hopening
    refine ⟨⟨_, hstands.start_le_stop_le (areLaid_lexemes mode source), rfl⟩, ?_, ?_, ?_⟩
    · rintro _ ⟨⟩
      exact ⟨_, hopens.isWithin, rfl⟩
    · rintro _ _ _ ⟨⟩
      exact ⟨hword, hne, _, _, hstands, rfl, hopens, rfl, hbody.stop_le_start hlaid hending hrest⟩
    · rintro _ _ ⟨⟩
  | @unterminated construct header opening body hopening hheader hbody =>
    have hopens : OpensAt expression (lexemes mode source) construct (opening.rangeTo body) :=
      ⟨header, hheader, hbody.standsAt hopening⟩
    refine ⟨⟨_, ⟨Nat.le_refl _, Nat.le_refl _⟩, rfl⟩, ?_, ?_, ?_⟩
    · rintro _ ⟨⟩
      exact ⟨_, hopens.isWithin, rfl⟩
    · rintro _ _ _ ⟨⟩
    · rintro _ _ ⟨⟩
      exact ⟨rfl, _, hopens, rfl⟩

/-- A dialect that keeps its faults reports truthful errors. -/
theorem areTruthful_of_keepsFaults {E L : Type} {dialect : Dialect E L}
    (hd : dialect.KeepsFaults (IsHeader expression) (.ofSource dialect.mode source))
    {name : Option String} {errors : List ParseError}
    (h : dialect.parse name source = .error errors) :
    AreTruthful expression dialect.mode source errors := by
  obtain ⟨faults, hrun, rfl⟩ := parseAs_eq_error_iff.1 h
  have hfaithful := Parser.faithful_template hd ((lexemes dialect.mode source).length + 1)
  have hw := Input.Precedes.refl (.ofSource dialect.mode source)
  have hlt := Nat.lt_succ_self (lexemes dialect.mode source).length
  have hfaults : faults ≠ [] ∧ ∀ fault ∈ faults, ∃ located, fault = located.fault ∧
      Trouble (IsHeader expression) (.ofSource dialect.mode source) (fun _ => True)
        (.ofSource dialect.mode source) located := by
    rcases Parser.run_eq_error_iff.1 hrun with ⟨es, v, alternative, rest, hp, hne, rfl⟩ |
      ⟨es, cause, hp, rfl⟩
    · obtain ⟨hes, -, -⟩ := hfaithful.accepted hw hlt hp
      refine ⟨by simpa using hne, fun fault hf => ?_⟩
      obtain ⟨e, he, rfl⟩ := List.mem_map.1 hf
      exact ⟨e, rfl, .inr (hes e he)⟩
    · obtain ⟨hes, hc⟩ := hfaithful.rejected hw hlt hp
      refine ⟨by simp, fun fault hf => ?_⟩
      rcases List.mem_append.1 hf with hf | hf
      · obtain ⟨e, he, rfl⟩ := List.mem_map.1 hf
        exact ⟨e, rfl, .inr (hes e he)⟩
      · exact ⟨cause, List.mem_singleton.1 hf, hc⟩
  have hperm := ParseError.sortByStart_perm
    (faults.map (·.toParseError (LineIndex.ofSource source) name))
  refine ⟨fun hnil => ?_, ParseError.pairwise_sortByStart _, fun error he => ?_⟩
  · rw [hnil] at hperm
    exact hfaults.1 (by simpa using hperm.symm.eq_nil)
  · obtain ⟨fault, hf, rfl⟩ := List.mem_map.1 (hperm.mem_iff.1 he)
    obtain ⟨located, rfl, ⟨place, hplace, hat⟩ | hgrave⟩ := hfaults.2 fault hf
    · exact isTruthful_of_isAt name hplace hat.range_eq hat.isAboutToken
    · exact isTruthful_of_truthful name hgrave.truthful

end Faults

/-! ## Templates over raw text -/

open Stencil.Parser in
theorem keepsFaults_text (whole : Input) :
    Dialect.text.KeepsFaults (IsHeader IsTextExpression) whole where
  expression := fun _ => plain_textExpression
  forHeader := by
    intro input es h rest _ ha
    obtain ⟨-, hr⟩ := ((exact_forHeader exact_textExpression).between _ _ _ _ _ _).1 ha
    exact ⟨_, .forIn h.1 ⟨h.2, rfl⟩, hr⟩
  joinHeader := by
    intro input es h rest _ ha
    obtain ⟨-, hr⟩ := ((exact_joinHeader exact_textExpression).between _ _ _ _ _ _).1 ha
    exact ⟨_, .join h.1.1 ⟨h.1.2, rfl⟩ ⟨h.2, rfl⟩, hr⟩
  plain := by
    intro bound statement _
    exact Plain.faithful (p := text) (plain_satisfy _ _)
  rejectsWithin := by
    intro input rest statement hr
    have htext : RejectsWithin 1 text input := rejectsWithin_satisfy hr rfl
    exact htext.mono (by omega)

/-! ## Calculator code -/

namespace Calc

open Stencil.Parser

/-- The token forms of the expressions of calculator code. -/
def IsSplicedExpression (ts : List Token) : Prop :=
  ∃ e, SplicedCanonical e ∧ ts = splicedTokens e

variable {whole input : Input} {bound : Nat}

theorem plain_splicedStep {inner : Parser SplicedExpr} (hi : inner.Plain whole bound) :
    (splicedStep inner).Plain whole (bound + 1) := by
  have hoperand : (leaf.orElse (group inner)).Plain whole (bound + 1) :=
    (plain_satisfy _ _).orElse (((hi.sepBy (plain_token _)).between _ _).map _)
  have hmore := ((plain_token (.symbol "+")).seqWith hoperand fun _ b => b).many
  exact ((hoperand.seqWith hmore _).map _).orElse ((hi.between _ _).map _)

theorem plain_splicedExpression : host.splicedExpression.Plain whole bound :=
  plain_recursive splicedStep fun _ => plain_splicedStep

/-- An expression rejects a token with which none begins. -/
theorem rejectsWithin_splicedExpression {t : Token} {rest : Input} (h : input.Reaches [t] rest)
    (ht : startsExpression t = false) : RejectsWithin 1 host.splicedExpression input := by
  have hne : t ≠ .openParen ∧ t ≠ .openExpression := by
    constructor <;> rintro rfl <;> cases ht
  have hleaf : RejectsWithin 1 leaf input :=
    rejectsWithin_satisfy h (by cases t <;> first | rfl | cases ht)
  have hoperand (inner : Parser SplicedExpr) : RejectsWithin 1 (leaf.orElse (group inner)) input :=
    hleaf.orElse ((rejectsWithin_between h hne.1 _).map _)
  have hstep (inner : Parser SplicedExpr) : RejectsWithin 1 (splicedStep inner) input :=
    (((hoperand inner).seqWith _ _).map _).orElse ((rejectsWithin_between h hne.2 _).map _)
  exact rejectsWithin_recursive hstep

theorem plain_letStmt : (letStmt host.splicedExpression).Plain whole bound :=
  (((((plain_token _).seqWith (plain_satisfy _ _) _).seqWith (plain_token _) _).seqWith
    plain_splicedExpression _).seqWith (plain_token _) _).map _

theorem plain_exprStmt : (exprStmt host.splicedExpression).Plain whole bound :=
  (plain_splicedExpression.seqWith (plain_token _) _).map _

theorem rejectsWithin_letStmt {t : Token} {rest : Input} (h : input.Reaches [t] rest)
    (ht : t ≠ .identifier "let") : RejectsWithin 1 (letStmt host.splicedExpression) input :=
  (((((rejectsWithin_token h ht).seqWith _ _).seqWith _ _).seqWith _ _).seqWith _ _).map _

theorem rejectsWithin_exprStmt {t : Token} {rest : Input} (h : input.Reaches [t] rest)
    (ht : startsExpression t = false) :
    RejectsWithin 1 (exprStmt host.splicedExpression) input :=
  ((rejectsWithin_splicedExpression h ht).seqWith _ _).map _

variable {headers : Construct → List Token → Prop} {statement : Parser SplicedStmt}

theorem faithful_blockStmt (hs : statement.Faithful headers whole BeginsBlock bound) :
    (blockStmt statement).Faithful headers whole BeginsBlock (bound + 1) := by
  have hreaches {input es v alternative rest}
      (h : token (.symbol "\x7b") input = ⟨es, .accepted v alternative rest⟩) :
      input.Reaches [.symbol "\x7b"] rest := (accepts_token_iff.1 (accepts_of_eq h)).2
  have hloop : ((token (.symbol "\x7b")).seqRight statement.many).Loops headers whole BeginsBlock
      BeginsBlock (bound + 1) :=
    (plain_token _).seqWith_loops (fun _ h => .inl ⟨_, hreaches h⟩) hs.many
      (fun _ hlt h => by have := (hreaches h).length_lt; omega) _
  refine Faithful.map (hloop.seqWith (plain_token (.symbol "\x7d")) (fun hb => ?_) _) _
  obtain ⟨t, rest, hr, ht⟩ := hb.exists_reaches
  exact (rejectsWithin_token hr (by rcases ht with rfl | rfl <;> decide)).mono (by omega)

theorem faithful_plain (hs : statement.Faithful headers whole BeginsBlock bound) :
    (Calc.statement statement host.splicedExpression).Faithful headers whole BeginsBlock
      (bound + 1) := by
  refine (plain_letStmt.faithful.orElse (faithful_blockStmt hs) fun hb => .inl ?_).orElse
    plain_exprStmt.faithful fun hb => .inr ?_
  all_goals obtain ⟨t, rest, hr, ht⟩ := hb.exists_reaches
  · exact (rejectsWithin_letStmt hr (by rcases ht with rfl | rfl <;> simp)).mono (by omega)
  · exact (rejectsWithin_exprStmt hr (by rcases ht with rfl | rfl <;> rfl)).mono (by omega)

theorem keepsFaults_host (source : String) :
    host.dialect.KeepsFaults (IsHeader IsSplicedExpression) (.ofSource .code source) where
  expression := fun _ => plain_splicedExpression
  forHeader := by
    rintro input es h rest ⟨ts, hw⟩ ha
    obtain rfl : es = [] := by
      obtain ⟨alternative, ha⟩ := ha
      exact (((plain_forHeader plain_splicedExpression).between _ _).accepted (.refl _)
        (Nat.lt_succ_self _) ha).1
    obtain ⟨he, hr⟩ := (Reads.forHeader_between reads_splicedExpression (by decide)).sound
      ((shortCode_ofSource source).of_reaches hw) ha
    exact ⟨_, .forIn h.1 ⟨h.2, he, rfl⟩, hr⟩
  joinHeader := by
    rintro input es h rest ⟨ts, hw⟩ ha
    obtain rfl : es = [] := by
      obtain ⟨alternative, ha⟩ := ha
      exact (((plain_joinHeader plain_splicedExpression).between _ _).accepted (.refl _)
        (Nat.lt_succ_self _) ha).1
    obtain ⟨⟨he, hf⟩, hr⟩ := (Reads.joinHeader_between reads_splicedExpression (by decide)
      (by decide)).sound ((shortCode_ofSource source).of_reaches hw) ha
    exact ⟨_, .join h.1.1 ⟨h.1.2, he, rfl⟩ ⟨h.2, hf, rfl⟩, hr⟩
  plain := faithful_plain
  rejectsWithin := by
    intro input rest statement hr
    apply RejectsWithin.mono _ (show 1 ≤ 2 by omega)
    exact ((rejectsWithin_letStmt hr (by simp)).orElse
      ((rejectsWithin_between hr (by simp) _).map _)).orElse (rejectsWithin_exprStmt hr rfl)

end Calc

/-- **Reported places are truthful**, in templates over raw text and in calculator code. -/
theorem parse_errors_areTruthful :
    (∀ source errors, parse source = .error errors →
      AreTruthful IsTextExpression .text source errors) ∧
    ∀ name source errors, Calc.host.dialect.parse name source = .error errors →
      AreTruthful Calc.IsSplicedExpression .code source errors :=
  ⟨fun source _ h => areTruthful_of_keepsFaults (keepsFaults_text (.ofSource .text source)) h,
    fun _ source _ h => areTruthful_of_keepsFaults (Calc.keepsFaults_host source) h⟩

/-- An instance with crossed blocks of which one is left open, and one in which the host's own block
is left open around a block that is ended by the wrong directive. -/
theorem parse_errors_areTruthful_crossed :
    ∃ source errors code others,
      source = "\x7b% for x in a %\x7d\n\x7b% join y in b with c %\x7d\x7b% endfor %\x7d" ∧
      errors = [⟨.mismatchedEnd .join .endFor ⟨⟨1, 0⟩, ⟨1, 24⟩⟩, ⟨⟨1, 24⟩, ⟨1, 36⟩⟩, none⟩,
        ⟨.unterminatedBlock .forIn ⟨⟨0, 0⟩, ⟨0, 16⟩⟩, ⟨⟨1, 36⟩, ⟨1, 36⟩⟩, none⟩] ∧
      code = "\x7b% for i in x %\x7d\x7b \x7b% for i in x %\x7d\n\x7b% endjoin %\x7d " ∧
      others = [⟨.mismatchedEnd .forIn .endJoin ⟨⟨0, 18⟩, ⟨0, 34⟩⟩, ⟨⟨1, 0⟩, ⟨1, 13⟩⟩, none⟩] ∧
      (parse source = .error errors ∧ Calc.host.dialect.parse none code = .error others) ∧
      AreTruthful IsTextExpression .text source errors ∧
      AreTruthful Calc.IsSplicedExpression .code code others := by
  refine ⟨_, _, _, _, rfl, rfl, rfl, rfl, (and_iff_left_of_imp fun h =>
    ⟨parse_errors_areTruthful.1 _ _ h.1, parse_errors_areTruthful.2 _ _ _ h.2⟩).2 ⟨?_, ?_⟩⟩
  · refine parseAs_eq_error_iff.2 ⟨[.mismatched .join .endFor ⟨17, 41⟩ ⟨41, 53⟩,
      .unterminated .forIn ⟨0, 16⟩ ⟨53, 53⟩], by decide +kernel, ?_⟩
    rw [ParseError.sortByStart_map_eq_self (by decide)]
    decide +kernel
  · generalize hothers : [ParseError.mk _ _ _] = others
    have herrors : (match Calc.host.dialect.parse none
        "\x7b% for i in x %\x7d\x7b \x7b% for i in x %\x7d\n\x7b% endjoin %\x7d " with
      | .error errors => some errors
      | .ok _ => none) = some others := by
      subst hothers
      decide +kernel
    split at herrors
    · next h => rw [h, Option.some.inj herrors]
    · cases herrors

end Stencil
