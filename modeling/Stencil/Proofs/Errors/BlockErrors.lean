import Stencil.Proofs.Errors.Reported
import Stencil.Proofs.Errors.Stops

/-!
# Block errors are exact

A source that is made of whole parts is read to its end, however its blocks are closed. Each end
directive closes the innermost open block, and what is reported is exactly where this went wrong:
the end directives that are not those of their blocks, in their order, and then the blocks that are
still open at the end, the innermost first.

* `matchUp` pairs the end directives with the blocks they close, and leaves the blocks that are
  still open. It does not look at how the parser works.
* `Reports` follows the input part by part with the open blocks on a stack. Every parser of
  statements adds to it what it reports (`Parser.Adds`), and `Reports.eq_blockFaults` shows that the
  result is that of `matchUp`.
-/

namespace Stencil

/-! ## End directives and the blocks they close -/

/-- A part of a template with the range that it takes up. -/
structure PlacedPart where
  part : Part
  range : ByteRange

/-- The lexemes are those of the parts, one part behind the other. -/
inductive AreCutInto : List Lexeme → List PlacedPart → Prop
  | nil : AreCutInto [] []
  | cons {first : Lexeme} {later rest : List Lexeme} {parts : List PlacedPart} (p : Part)
      (hp : (first :: later).map Lexeme.token = p.tokens) (h : AreCutInto rest parts) :
      AreCutInto (first :: later ++ rest)
        (⟨p, ⟨first.range.start, (later.getLastD first).range.stop⟩⟩ :: parts)

/-- A block, by its construct and the range of the directive that opens it. -/
structure OpenBlock where
  construct : Construct
  openedAt : ByteRange
  deriving DecidableEq

/-- An end directive with the block it closes. -/
structure Closing where
  block : OpenBlock
  word : Keyword
  range : ByteRange
  deriving DecidableEq

/-- The end directive is that of its block. -/
def Closing.IsMatching (closing : Closing) : Prop :=
  closing.word = closing.block.construct.closing

instance (closing : Closing) : Decidable closing.IsMatching :=
  inferInstanceAs (Decidable (_ = _))

/-- The end directives in their order, each with the innermost block that is open there, and the
blocks that are open at the end, the innermost first. `stack` are the blocks that are open before;
there is no result if an end directive stands where no block is open. -/
def matchUp (stack : List OpenBlock) : List PlacedPart → Option (List Closing × List OpenBlock)
  | [] => some ([], stack)
  | ⟨.text _, _⟩ :: parts | ⟨.interpolation _, _⟩ :: parts => matchUp stack parts
  | ⟨.opening construct _ _, range⟩ :: parts => matchUp (⟨construct, range⟩ :: stack) parts
  | ⟨.ending word _, range⟩ :: parts =>
    match stack with
    | [] => none
    | block :: outer =>
      (matchUp outer parts).map fun (closings, stillOpen) =>
        (⟨block, word, range⟩ :: closings, stillOpen)

/-- What is reported of an end directive, if it is not that of its block. -/
def Closing.error? (index : LineIndex) (closing : Closing) : Option ParseError :=
  if closing.IsMatching then none
  else some ⟨.mismatchedEnd closing.block.construct closing.word
    (index.span closing.block.openedAt), index.span closing.range, none⟩

/-- What is reported of a block that is still open at the end of input. -/
def OpenBlock.error (index : LineIndex) (endRange : ByteRange) (block : OpenBlock) : ParseError :=
  ⟨.unterminatedBlock block.construct (index.span block.openedAt), index.span endRange, none⟩

/-- The errors about the blocks of a source: one for each end directive that is not that of its
block, and then one for each block that is still open. -/
def blockErrors (source : String) (closings : List Closing) (stillOpen : List OpenBlock) :
    List ParseError :=
  let index := LineIndex.ofSource source
  closings.filterMap (·.error? index) ++
    stillOpen.map (·.error index ⟨source.utf8ByteSize, source.utf8ByteSize⟩)

/-! ## Following the input part by part -/

/-- What is wrong with an end directive. -/
def Closing.faults (closing : Closing) : List Fault :=
  (Parser.BlockEnd.directive closing.word closing.range).faults closing.block.construct
    closing.block.openedAt

/-- The input ends in a block. -/
def OpenBlock.fault (endRange : ByteRange) (block : OpenBlock) : Fault :=
  .unterminated block.construct block.openedAt endRange

/-- The faults that are reported from a place to the end of input, where the blocks of `stack` are
open. -/
inductive Reports : List OpenBlock → Input → List Fault → Prop
  | done {stack : List OpenBlock} {input : Input} (h : input.remaining = []) :
      Reports stack input (stack.map (·.fault input.endRange))
  | text {stack : List OpenBlock} {input rest : Input} {faults : List Fault} {content : String}
      (hr : input.Reaches [.text content] rest) (h : Reports stack rest faults) :
      Reports stack input faults
  | interpolation {stack : List OpenBlock} {input rest : Input} {faults : List Fault}
      {e : Expression} (hr : input.Reaches [.openExpression, e.token, .closeExpression] rest)
      (h : Reports stack rest faults) : Reports stack input faults
  | opening {stack : List OpenBlock} {input rest : Input} {faults : List Fault}
      {construct : Construct} {header : List Token}
      (hheader : IsHeader IsTextExpression construct header)
      (hr : input.Reaches (construct.openingTokens header) rest)
      (h : Reports (⟨construct, input.rangeTo rest⟩ :: stack) rest faults) :
      Reports stack input faults
  | ending {block : OpenBlock} {outer : List OpenBlock} {input rest : Input}
      {faults : List Fault} {word : Keyword} (hword : word.isEnd = true)
      (hr : input.Reaches (endTokens word) rest) (h : Reports outer rest faults) :
      Reports (block :: outer) input
        ((Closing.mk block word (input.rangeTo rest)).faults ++ faults)

theorem Reports.eq_of_remaining_eq_nil {stack : List OpenBlock} {input : Input}
    {faults : List Fault} (h : Reports stack input faults) (hnil : input.remaining = []) :
    faults = stack.map (·.fault input.endRange) := by
  cases h with
  | done => rfl
  | text hr | interpolation hr | opening _ hr | ending _ hr =>
    have := hr.length_lt
    simp [hnil] at this

namespace Parser

variable {α S H : Type}

/-- The parser of statements adds what it reports to what is reported behind it. -/
def Adds (p : Parser α) : Prop :=
  ∀ {input rest : Input} {es : List Located} {v : α} {stack : List OpenBlock}
    {faults : List Fault}, p.Accepts input es v rest → Reports stack rest faults →
    Reports stack input (es.map Located.fault ++ faults)

theorem Adds.repeats {p : Parser α} (hp : p.Adds) {input rest : Input} {es : List Located}
    {vs : List α} (h : Repeats p input es vs rest) {stack : List OpenBlock} {faults : List Fault}
    (hfaults : Reports stack rest faults) :
    Reports stack input (es.map Located.fault ++ faults) := by
  induction h with
  | stop => exact hfaults
  | stuck h => exact hp h hfaults
  | step h _ _ ih =>
    rw [List.map_append, List.append_assoc]
    exact hp h (ih hfaults)

theorem adds_blockBody {statement : Parser S} (hs : statement.Adds) :
    (blockBody statement).Adds := by
  have hitem : (bodyItem statement).Adds := by
    intro input rest es v stack faults h hfaults
    rcases accepts_bodyItem_iff.1 h with h | ⟨-, s, h, -⟩
    · obtain ⟨rfl, -, content, -, hr, -⟩ := accepts_trailing_iff.1 h
      exact .text hr hfaults
    · exact hs h hfaults
  intro input rest es body stack faults h hfaults
  obtain ⟨start, items, hskip, hrepeats, -⟩ := accepts_blockBody_iff.1 h
  have hstart := hitem.repeats hrepeats hfaults
  rcases hskip with ⟨content, -, hr⟩ | ⟨-, rfl⟩
  · exact .text hr hstart
  · exact hstart

/-- A block puts itself on the stack for its body, and its end takes it off again. -/
theorem adds_block {construct : Construct} {header : Parser H} {form : H → List Token}
    (hexact : header.Exact fun h => .keyword construct.opening :: form h)
    (hheader : ∀ h, IsHeader IsTextExpression construct (form h)) {statement : Parser S}
    (hs : statement.Adds) : (block construct header statement).Adds := by
  rintro input rest es ⟨h, body⟩ stack faults ha hfaults
  obtain ⟨first, last, es₁, es₂, ending, hopening, hbody, hend, rfl⟩ := accepts_block_iff.1 ha
  obtain ⟨rfl, hr⟩ := (hexact.between _ _ _ _ _ _).1 hopening
  have hinside : Reports (⟨construct, input.rangeTo first⟩ :: stack) last
      (ending.faults construct (input.rangeTo first) ++ faults) := by
    obtain ⟨-, ⟨word, hword, hr', rfl⟩ | ⟨hnil, rfl, rfl⟩⟩ := accepts_blockEnd_iff.1 hend
    · exact .ending hword hr' hfaults
    · rw [hfaults.eq_of_remaining_eq_nil hnil]
      exact .done hnil
  refine .opening (hheader h) hr ?_
  simpa [Function.comp_def] using adds_blockBody hs hbody hinside

theorem adds_textStep {inner : Parser TextStatement} (hi : inner.Adds) : (textStep inner).Adds := by
  intro input rest es v stack faults h hfaults
  rcases accepts_textStep_iff.1 h with ⟨content, rfl, hr, -⟩ | h
  · exact .text hr hfaults
  rcases (accepts_directive_iff exact_textExpression).1 h with
    ⟨e, rfl, hr, -⟩ | ⟨header, body, hb, -⟩ | ⟨header, body, hb, -⟩
  · exact .interpolation hr hfaults
  · exact adds_block (exact_forHeader exact_textExpression) (fun h => .forIn h.1 ⟨h.2, rfl⟩) hi hb
      hfaults
  · exact adds_block (exact_joinHeader exact_textExpression)
      (fun h => .join h.1.1 ⟨h.1.2, rfl⟩ ⟨h.2, rfl⟩) hi hb hfaults

theorem adds_statement : Dialect.text.statement.Adds := by
  have hunfolded (depth : Nat) : (unfolded textStep depth).Adds := by
    induction depth with
    | zero => exact fun h => by simp [Accepts, unfolded, Outcome.reject] at h
    | succ depth ih => exact adds_textStep ih
  intro input rest es v stack faults h hfaults
  exact hunfolded _ (accepts_statement_iff.1 h) hfaults

/-- A template that is read to its end reports what is wrong with its blocks. -/
theorem reports_of_accepts_template {input rest : Input} {es : List Located}
    {template : List TextStatement} (h : Dialect.text.template.Accepts input es template rest) :
    Reports [] input (es.map Located.fault) := by
  obtain ⟨es₁, _, last, es₂, _, hmany, hend, rfl, -⟩ := accepts_seqWith_iff.1 h
  obtain ⟨rfl, hnil, rfl⟩ := accepts_endOfInput_iff.1 hend
  have hend : Reports [] rest [] := .done hnil
  simpa using adds_statement.repeats (accepts_many_iff.1 hmany) hend

end Parser

/-! ## The faults of a source that is cut into parts -/

variable {input rest : Input} {stack stillOpen : List OpenBlock} {parts : List PlacedPart}
  {closings : List Closing} {faults : List Fault}

/-- The faults about the blocks of a sequence of parts. -/
def blockFaults (endRange : ByteRange) (closings : List Closing) (stillOpen : List OpenBlock) :
    List Fault :=
  closings.flatMap Closing.faults ++ stillOpen.map (·.fault endRange)

theorem Input.Reaches.endRange_eq {ts : List Token} (h : input.Reaches ts rest) :
    input.endRange = rest.endRange := by
  simp only [Input.endRange, h.size_eq]

/-- The part that is read first is the first part. -/
theorem AreCutInto.exists_eq_cons (h : AreCutInto input.remaining parts) {p : Part}
    (hr : input.Reaches p.tokens rest) :
    ∃ later, parts = ⟨p, input.rangeTo rest⟩ :: later ∧ AreCutInto rest.remaining later := by
  obtain ⟨t, ts, hts⟩ := List.exists_cons_of_ne_nil p.tokens_ne_nil
  rw [hts] at hr
  obtain ⟨first, later, hremaining, htokens, hrange⟩ := hr.exists_rangeTo_eq
  rw [← hts] at htokens
  rw [hrange]
  generalize input.remaining = ls at h hremaining
  cases h with
  | nil => cases hremaining
  | @cons first' later' rest' parts q hq h =>
    -- both are the part at the front, so they are as long as each other
    have heq := congrArg (List.map Lexeme.token) hremaining
    rw [List.map_append, List.map_append, hq, htokens] at heq
    obtain ⟨rfl, -⟩ := Part.tokens_append_inj heq
    have hlength := congrArg List.length (hq.trans htokens.symm)
    rw [List.length_map, List.length_map] at hlength
    obtain ⟨hpart, rfl⟩ := List.append_inj hremaining hlength
    obtain ⟨rfl, rfl⟩ := List.cons.inj hpart
    exact ⟨parts, rfl, h⟩

/-- What is reported is what the parts say. -/
theorem Reports.eq_blockFaults (h : Reports stack input faults)
    (hcut : AreCutInto input.remaining parts)
    (hmatch : matchUp stack parts = some (closings, stillOpen)) :
    faults = blockFaults input.endRange closings stillOpen := by
  induction h generalizing parts closings with
  | done hnil =>
    rw [hnil] at hcut
    cases hcut
    cases hmatch
    rfl
  | @text _ input rest _ content hr _ ih =>
    obtain ⟨later, rfl, hlater⟩ := hcut.exists_eq_cons (p := .text content) hr
    rw [hr.endRange_eq]
    exact ih hlater hmatch
  | @interpolation _ input rest _ e hr _ ih =>
    obtain ⟨later, rfl, hlater⟩ := hcut.exists_eq_cons (p := .interpolation e) hr
    rw [hr.endRange_eq]
    exact ih hlater hmatch
  | opening hheader hr _ ih =>
    obtain ⟨later, rfl, hlater⟩ := hcut.exists_eq_cons (p := .opening _ _ hheader) hr
    rw [hr.endRange_eq]
    exact ih hlater hmatch
  | ending hword hr _ ih =>
    obtain ⟨later, rfl, hlater⟩ := hcut.exists_eq_cons (p := .ending _ hword) hr
    obtain ⟨⟨closings, stillOpen⟩, hmatch, heq⟩ := Option.map_eq_some_iff.1 hmatch
    cases heq
    rw [ih hlater hmatch, hr.endRange_eq, blockFaults, blockFaults, List.flatMap_cons,
      List.append_assoc]

/-- Parts that can be matched up make a complete sequence. -/
theorem AreCutInto.completeAt {lexemes : List Lexeme} (h : AreCutInto lexemes parts)
    (hmatch : matchUp stack parts = some (closings, stillOpen)) :
    CompleteAt stack.length (lexemes.map Lexeme.token) := by
  induction h generalizing stack closings with
  | nil => exact .done _
  | @cons first later rest parts p hp _ ih =>
    rw [List.map_append, hp]
    cases p with
    | text content => exact .part (.text content) rfl (ih hmatch)
    | interpolation e => exact .part (.interpolation e) rfl (ih hmatch)
    | opening construct header hheader =>
      exact .part (.opening construct header hheader) rfl (ih hmatch)
    | ending word hword =>
      cases stack with
      | nil => cases hmatch
      | cons block outer =>
        obtain ⟨⟨closings, stillOpen⟩, hmatch, heq⟩ := Option.map_eq_some_iff.1 hmatch
        cases heq
        exact .part (.ending word hword) rfl (ih hmatch)

/-- A place before all that is left to be read. -/
def Input.IsAhead (input : Input) (offset : Nat) : Prop :=
  offset ≤ input.size ∧ ∀ lexeme ∈ input.remaining, offset ≤ lexeme.range.start

theorem Input.IsAhead.of_reaches {ts : List Token} {offset : Nat} (h : input.IsAhead offset)
    (hr : input.Reaches ts rest) : rest.IsAhead offset := by
  obtain ⟨part, hpart, -⟩ := hr.exists_remaining_eq
  refine ⟨hr.size_eq ▸ h.1, fun lexeme hl => h.2 lexeme ?_⟩
  rw [hpart]
  exact List.mem_append_right _ hl

/-- What is read begins behind a place before it, and before all that is left behind it. -/
theorem Input.Reaches.isAhead_start {t : Token} {ts : List Token}
    (hr : input.Reaches (t :: ts) rest) (hlaid : AreLaid input.size input.remaining) :
    rest.IsAhead (input.rangeTo rest).start ∧
      ∀ offset, input.IsAhead offset → offset ≤ (input.rangeTo rest).start := by
  obtain ⟨first, later, hremaining, -, hrange⟩ := hr.exists_rangeTo_eq
  have hstart : (input.rangeTo rest).start = first.range.start := by rw [hrange]
  rw [hstart]
  have hfirst : first ∈ input.remaining := by simp [hremaining]
  have hproper := hlaid.proper first hfirst
  have hwithin := hlaid.within first hfirst
  have hordered := hlaid.ordered
  rw [hremaining] at hordered
  refine ⟨⟨by rw [hr.size_eq]; omega, fun lexeme hl => ?_⟩, fun offset h => h.2 first hfirst⟩
  have := List.rel_of_pairwise_cons hordered (List.mem_append_right later hl)
  omega

theorem Closing.range_of_mem_faults {closing : Closing} {fault : Fault}
    (h : fault ∈ closing.faults) : fault.range = closing.range := by
  simp only [faults, Parser.BlockEnd.faults] at h
  split at h
  · cases h
  · rw [List.mem_singleton.1 h]
    rfl

/-- What is reported comes in the order of its places. -/
theorem Reports.pairwise_start_le (h : Reports stack input faults)
    (hlaid : AreLaid input.size input.remaining) :
    faults.Pairwise (fun a b => a.range.start ≤ b.range.start) ∧
      ∀ fault ∈ faults, ∀ offset, input.IsAhead offset → offset ≤ fault.range.start := by
  induction h with
  | done =>
    refine ⟨List.pairwise_map.2 (List.pairwise_of_forall fun _ _ => Nat.le_refl _), ?_⟩
    intro fault hf offset hahead
    obtain ⟨block, -, rfl⟩ := List.mem_map.1 hf
    exact hahead.1
  | text hr _ ih | interpolation hr _ ih | opening _ hr _ ih =>
    obtain ⟨hpairwise, hle⟩ := ih (hr.size_eq ▸ hr.areLaid hlaid)
    exact ⟨hpairwise, fun fault hf offset hahead => hle fault hf offset (hahead.of_reaches hr)⟩
  | @ending block outer input rest faults word hword hr _ ih =>
    obtain ⟨hpairwise, hle⟩ := ih (hr.size_eq ▸ hr.areLaid hlaid)
    obtain ⟨hbehind, hbefore⟩ := hr.isAhead_start hlaid
    -- the end directive begins before all that is behind it
    refine ⟨List.pairwise_append.2 ⟨?_, hpairwise, fun a ha b hb => ?_⟩, ?_⟩
    · refine List.pairwise_of_forall_mem_list fun a ha b hb => ?_
      rw [Closing.range_of_mem_faults ha, Closing.range_of_mem_faults hb]
    · rw [Closing.range_of_mem_faults ha]
      exact hle b hb _ hbehind
    · intro fault hf offset hoffset
      rcases List.mem_append.1 hf with hf | hf
      · rw [Closing.range_of_mem_faults hf]
        exact hbefore offset hoffset
      · exact hle fault hf offset (hoffset.of_reaches hr)

/-! ## The errors of a source that is cut into parts -/

theorem Closing.faults_of_isMatching {closing : Closing} (h : closing.IsMatching) :
    closing.faults = [] :=
  if_pos h

theorem Closing.faults_of_not_isMatching {closing : Closing} (h : ¬ closing.IsMatching) :
    closing.faults = [.mismatched closing.block.construct closing.word closing.block.openedAt
      closing.range] :=
  if_neg h

theorem blockFaults_eq_nil_iff {endRange : ByteRange} :
    blockFaults endRange closings stillOpen = [] ↔
      (∀ closing ∈ closings, closing.IsMatching) ∧ stillOpen = [] := by
  have hfaults (closing : Closing) : closing.faults = [] ↔ closing.IsMatching := by
    refine ⟨fun h => ?_, Closing.faults_of_isMatching⟩
    by_contra hnot
    simp [Closing.faults_of_not_isMatching hnot] at h
  simp [blockFaults, hfaults]

/-- The errors about blocks are made of the faults about them. -/
theorem map_toParseError_blockFaults (source : String) :
    (blockFaults ⟨source.utf8ByteSize, source.utf8ByteSize⟩ closings stillOpen).map
        (·.toParseError (LineIndex.ofSource source) none) =
      blockErrors source closings stillOpen := by
  rw [blockFaults, blockErrors, List.map_append, List.map_map]
  congr 1
  induction closings with
  | nil => rfl
  | cons closing closings ih =>
    rw [List.flatMap_cons, List.map_append, ih]
    by_cases hmatching : closing.IsMatching
    · have herror : closing.error? (LineIndex.ofSource source) = none := if_pos hmatching
      rw [Closing.faults_of_isMatching hmatching, List.filterMap_cons_none herror]
      rfl
    · have herror : closing.error? (LineIndex.ofSource source) = some _ := if_neg hmatching
      rw [Closing.faults_of_not_isMatching hmatching, List.filterMap_cons_some herror]
      rfl

/-- **Block errors are exact.** A source that is cut into parts parses if every end directive is
that of its block and no block is still open at the end. Otherwise the errors are exactly those
about the other end directives, in their order, and then about the open blocks, the innermost
first. -/
theorem parse_reports_exact_block_errors {source : String} {parts : List PlacedPart}
    {closings : List Closing} {stillOpen : List OpenBlock}
    (hcut : AreCutInto (lexemes .text source) parts)
    (hmatch : matchUp [] parts = some (closings, stillOpen)) :
    ((∃ template, parse source = .ok template) ↔
      (∀ closing ∈ closings, closing.IsMatching) ∧ stillOpen = []) ∧
    (¬ ((∀ closing ∈ closings, closing.IsMatching) ∧ stillOpen = []) →
      parse source = .error (blockErrors source closings stillOpen)) := by
  -- all of the source is read, and what is reported is known
  have hcomplete : Complete (Input.ofSource .text source).tokens :=
    complete_iff_completeAt.2 (hcut.completeAt hmatch)
  obtain ⟨-, es, template, alternative, rest, ha⟩ :=
    (Parser.template_accepts_or_blames (.ofSource .text source)).resolve_right
      fun h => h.1 hcomplete
  have hreports := Parser.reports_of_accepts_template (Parser.accepts_of_eq ha)
  have hfaults := hreports.eq_blockFaults hcut hmatch
  have hordered := (hreports.pairwise_start_le (areLaid_lexemes .text source)).1
  by_cases hclean : (∀ closing ∈ closings, closing.IsMatching) ∧ stillOpen = []
  · rw [blockFaults_eq_nil_iff.2 hclean, List.map_eq_nil_iff] at hfaults
    subst hfaults
    have hparse : parse source = .ok template :=
      parseAs_eq_ok_iff.2 ⟨rest, alternative, ha⟩
    exact ⟨iff_of_true ⟨template, hparse⟩ hclean, absurd hclean⟩
  · have hne : es ≠ [] := by
      rintro rfl
      exact hclean (blockFaults_eq_nil_iff.1 hfaults.symm)
    have hrun := Parser.run_eq_error_iff.2 (.inl ⟨es, template, alternative, rest, ha, hne, rfl⟩)
    have hparse : parse source = .error (blockErrors source closings stillOpen) := by
      refine parseAs_eq_error_iff.2 ⟨_, hrun, ?_⟩
      rw [ParseError.sortByStart_map_eq_self hordered, hfaults]
      exact map_toParseError_blockFaults source
    refine ⟨iff_of_false ?_ hclean, fun _ => hparse⟩
    rintro ⟨template', hok⟩
    cases hparse.symm.trans hok

/-- An instance with crossed blocks, of which one is left open. -/
theorem parse_reports_exact_block_errors_crossed :
    ∃ source parts closings stillOpen,
      source = "\x7b% for x in a %\x7d\x7b% join y in b with c %\x7d\x7b% endfor %\x7d!" ∧
      AreCutInto (lexemes .text source) parts ∧
      matchUp [] parts = some (closings, stillOpen) ∧
      closings = [⟨⟨.join, ⟨16, 40⟩⟩, .endFor, ⟨40, 52⟩⟩] ∧ stillOpen = [⟨.forIn, ⟨0, 16⟩⟩] ∧
      parse source = .error
        [⟨.mismatchedEnd .join .endFor ⟨⟨0, 16⟩, ⟨0, 40⟩⟩, ⟨⟨0, 40⟩, ⟨0, 52⟩⟩, none⟩,
          ⟨.unterminatedBlock .forIn ⟨⟨0, 0⟩, ⟨0, 16⟩⟩, ⟨⟨0, 53⟩, ⟨0, 53⟩⟩, none⟩] := by
  obtain ⟨source, hsource⟩ : ∃ source, source =
    "\x7b% for x in a %\x7d\x7b% join y in b with c %\x7d\x7b% endfor %\x7d!" := ⟨_, rfl⟩
  have hlexemes : lexemes .text source =
      [⟨.openStatement, ⟨0, 2⟩⟩, ⟨.keyword .for_, ⟨3, 6⟩⟩, ⟨.identifier "x", ⟨7, 8⟩⟩,
        ⟨.keyword .in_, ⟨9, 11⟩⟩, ⟨.identifier "a", ⟨12, 13⟩⟩, ⟨.closeStatement, ⟨14, 16⟩⟩] ++
      ([⟨.openStatement, ⟨16, 18⟩⟩, ⟨.keyword .join, ⟨19, 23⟩⟩, ⟨.identifier "y", ⟨24, 25⟩⟩,
        ⟨.keyword .in_, ⟨26, 28⟩⟩, ⟨.identifier "b", ⟨29, 30⟩⟩, ⟨.keyword .with_, ⟨31, 35⟩⟩,
        ⟨.identifier "c", ⟨36, 37⟩⟩, ⟨.closeStatement, ⟨38, 40⟩⟩] ++
      ([⟨.openStatement, ⟨40, 42⟩⟩, ⟨.keyword .endFor, ⟨43, 49⟩⟩, ⟨.closeStatement, ⟨50, 52⟩⟩] ++
      ([⟨.text "!", ⟨52, 53⟩⟩] ++ []))) := by
    rw [hsource]
    decide +kernel
  have hcut : ∃ parts, AreCutInto (lexemes .text source) parts ∧ matchUp [] parts =
      some ([⟨⟨.join, ⟨16, 40⟩⟩, .endFor, ⟨40, 52⟩⟩], [⟨.forIn, ⟨0, 16⟩⟩]) := by
    rw [hlexemes]
    exact ⟨_, .cons (.opening .forIn _ (.forIn (.var "x") ⟨.reference "a", rfl⟩)) rfl
      (.cons (.opening .join _ (.join (.var "y") ⟨.reference "b", rfl⟩ ⟨.reference "c", rfl⟩)) rfl
        (.cons (.ending .endFor rfl) rfl (.cons (.text "!") rfl .nil))), rfl⟩
  obtain ⟨parts, hcut, hmatch⟩ := hcut
  refine ⟨source, parts, _, _, hsource, hcut, hmatch, rfl, rfl, ?_⟩
  rw [(parse_reports_exact_block_errors hcut hmatch).2 (by decide), hsource]
  exact congrArg Except.error (by decide +kernel)

end Stencil
