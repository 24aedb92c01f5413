import Stencil.Proofs.Lexeme.Ranges

/-!
# Positions keep the order of offsets

Errors are put in order by their positions, and a place is looked up in a span by its position.
Both are right because lines and columns say as much as byte offsets do, and in the same order.

The starts of lines increase, so a search among them has one result. The number of those that are
not behind an offset is one more than the number of line feeds before it, and the last of them is
where its column counts from.

* `countP_startsFrom`: the starts up to an offset are the line feeds before it, byte by byte.
* `locate_eq`: the line that is found for an offset, and its start.
* `LineIndex.Locates` says which place a search ends at, `LineIndex.Measures` what positions say of
  offsets, and `measures_ofSource` that they do.
-/

namespace Stencil

/-! ## The bytes of line feeds -/

/-- The bytes of a source in UTF-8. -/
def bytes (source : String) : List UInt8 :=
  source.toByteArray.data.toList

/-- The number of line feeds among the bytes before an offset. -/
def lineFeedsBefore (source : String) (offset : Nat) : Nat :=
  ((bytes source).take offset).count '\n'.toUInt8

theorem bytes_eq_flatMap (source : String) :
    bytes source = source.toList.flatMap String.utf8EncodeChar := by
  conv_lhs => rw [← String.ofList_toList (s := source)]
  rw [bytes, String.toByteArray_ofList, List.utf8Encode, List.toList_data_toByteArray]

/-- A line feed is one byte, and no other character has that byte in it: it is below the bytes of
longer characters. -/
theorem lineFeed_not_mem_utf8EncodeChar {c : Char} (hc : c ≠ '\n') :
    '\n'.toUInt8 ∉ String.utf8EncodeChar c := by
  have hval : c.val.toNat ≠ 10 := fun h => hc (Char.ext (UInt32.toNat_inj.1 h))
  have hbyte (n : Nat) (hn : n % 256 ≠ 10) : ¬ '\n'.toUInt8 = UInt8.ofNat n := by
    intro heq
    have htoNat := congrArg UInt8.toNat heq
    rw [UInt8.toNat_ofNat'] at htoNat
    exact hn htoNat.symm
  unfold String.utf8EncodeChar
  simp only
  repeat' split
  all_goals simp only [List.mem_cons, List.not_mem_nil, or_false, not_or]
  · exact hbyte _ (by omega)
  · exact ⟨hbyte _ (by omega), hbyte _ (by omega)⟩
  · exact ⟨hbyte _ (by omega), hbyte _ (by omega), hbyte _ (by omega)⟩
  · exact ⟨hbyte _ (by omega), hbyte _ (by omega), hbyte _ (by omega), hbyte _ (by omega)⟩

namespace LineIndex

/-! ## The starts of lines -/

theorem lt_of_mem_startsFrom {offset start : Nat} {chars : List Char}
    (h : start ∈ startsFrom offset chars) : offset < start := by
  induction chars generalizing offset with
  | nil => cases h
  | cons c rest ih =>
    have hsize := c.utf8Size_pos
    rw [startsFrom] at h
    split at h
    · rcases List.mem_cons.1 h with rfl | h
      · omega
      · have := ih h
        omega
    · have := ih h
      omega

theorem pairwise_startsFrom (offset : Nat) (chars : List Char) :
    (startsFrom offset chars).Pairwise (· < ·) := by
  induction chars generalizing offset with
  | nil => exact .nil
  | cons c rest ih =>
    rw [startsFrom]
    split
    · exact List.pairwise_cons.2 ⟨fun _ => lt_of_mem_startsFrom, ih _⟩
    · exact ih _

theorem pairwise_starts (source : String) : (ofSource source).starts.Pairwise (· < ·) :=
  List.pairwise_cons.2 ⟨fun _ => lt_of_mem_startsFrom, pairwise_startsFrom _ _⟩

/-- The starts up to an offset are as many as the line feeds before it. -/
theorem countP_startsFrom (limit offset : Nat) (chars : List Char) :
    (startsFrom offset chars).countP (· ≤ limit) =
      ((chars.flatMap String.utf8EncodeChar).take (limit - offset)).count '\n'.toUInt8 := by
  induction chars generalizing offset with
  | nil => simp [startsFrom]
  | cons c rest ih =>
    rw [startsFrom, List.flatMap_cons, List.take_append, List.count_append,
      String.length_utf8EncodeChar, Nat.sub_sub]
    split
    · next hc =>
      subst hc
      rw [List.countP_cons, ih]
      have hsize : '\n'.utf8Size = 1 := rfl
      have hencode : String.utf8EncodeChar '\n' = ['\n'.toUInt8] := rfl
      rw [hsize, hencode]
      by_cases hlimit : offset + 1 ≤ limit
      · obtain ⟨n, hn⟩ := Nat.exists_eq_succ_of_ne_zero (by omega : limit - offset ≠ 0)
        simp [hlimit, hn, Nat.add_comm]
      · simp [hlimit, (by omega : limit - offset = 0)]
    · next hc =>
      have hnone := lineFeed_not_mem_utf8EncodeChar hc
      rw [ih, List.count_eq_zero_of_not_mem fun h => hnone (List.mem_of_mem_take h), Nat.zero_add]

/-! ## The search among them -/

/-- The line that is found is the last one that does not begin behind the offset. -/
theorem locate_eq {offset start : Nat} {later : List Nat}
    (h : (start :: later).Pairwise (· < ·)) (hstart : start ≤ offset) (line : Nat) :
    ∃ found, (start :: later)[later.countP (· ≤ offset)]? = some found ∧ found ≤ offset ∧
      locate offset line start later = ⟨line + later.countP (· ≤ offset), offset - found⟩ := by
  induction later generalizing line start with
  | nil => exact ⟨start, rfl, hstart, rfl⟩
  | cons next later ih =>
    obtain ⟨-, hlater⟩ := List.pairwise_cons.1 h
    rw [locate]
    split
    · next hnext =>
      obtain ⟨found, hfound, hle, heq⟩ := ih hlater hnext (line + 1)
      refine ⟨found, ?_, hle, ?_⟩
      · simpa [List.countP_cons, hnext] using hfound
      · rw [heq, List.countP_cons]
        simp [hnext]
        omega
    · next hnext =>
      have hnone : (next :: later).countP (· ≤ offset) = 0 := by
        rw [List.countP_eq_zero]
        intro s hs
        have : next ≤ s := by
          rcases List.mem_cons.1 hs with rfl | hs
          · exact Nat.le_refl _
          · exact Nat.le_of_lt ((List.pairwise_cons.1 hlater).1 s hs)
        simp
        omega
      exact ⟨start, by rw [hnone]; rfl, hstart, by rw [hnone]; rfl⟩

/-- The position of an offset in a source, and the start that its column counts from. -/
theorem position_eq (source : String) (offset : Nat) :
    ∃ found, (ofSource source).starts[lineFeedsBefore source offset]? = some found ∧
      found ≤ offset ∧
      (ofSource source).position offset = ⟨lineFeedsBefore source offset, offset - found⟩ := by
  obtain ⟨found, hfound, hle, heq⟩ := locate_eq (pairwise_starts source) (Nat.zero_le offset) 0
  rw [countP_startsFrom, Nat.sub_zero, ← bytes_eq_flatMap] at hfound heq
  rw [Nat.zero_add] at heq
  exact ⟨found, hfound, hle, heq⟩

theorem countP_starts (source : String) (offset : Nat) :
    (ofSource source).starts.countP (· ≤ offset) = lineFeedsBefore source offset + 1 := by
  rw [ofSource, List.countP_cons_of_pos (by simp), countP_startsFrom, Nat.sub_zero,
    ← bytes_eq_flatMap]
  rfl

theorem countP_append_of_le {offset : Nat} {before after : List Nat}
    (hbefore : ∀ start ∈ before, start ≤ offset) (hafter : ∀ start ∈ after, offset < start) :
    (before ++ after).countP (· ≤ offset) = before.length := by
  rw [List.countP_append, List.countP_eq_length.2 (by simpa using hbefore),
    List.countP_eq_zero.2 (by simpa using hafter), Nat.add_zero]

/-- A position is where a search for an offset ends. The search finds the offset among the starts of
lines, or else the place at which it would have to be put in, which is behind the line it is in. -/
structure Locates (index : LineIndex) (offset : Nat) (p : Position) : Prop where
  present : ∀ before after, index.starts = before ++ offset :: after → p.line = before.length
  absent : ∀ before after, index.starts = before ++ after → (∀ start ∈ before, start < offset) →
    (∀ start ∈ after, offset < start) → 0 < before.length ∧ p.line = before.length - 1
  /-- There is a line of this number, it does not begin behind the offset, and the column counts
  from where it begins. -/
  column : ∃ start, index.starts[p.line]? = some start ∧ start ≤ offset ∧
    start + p.column = offset

theorem locates_position (source : String) (offset : Nat) :
    (ofSource source).Locates offset ((ofSource source).position offset) := by
  obtain ⟨found, hfound, hle, heq⟩ := position_eq source offset
  have hcount := countP_starts source offset
  rw [heq]
  refine ⟨fun before after hstarts => ?_, fun before after hstarts hbefore hafter => ?_, ?_⟩
  · -- the starts increase, so those before the offset are less and those behind it are greater
    have hincreasing := pairwise_starts source
    rw [hstarts, List.pairwise_append, List.pairwise_cons] at hincreasing
    obtain ⟨-, ⟨hafter, -⟩, hbefore⟩ := hincreasing
    have hle : ∀ start ∈ before ++ [offset], start ≤ offset := by
      intro start hmem
      rcases List.mem_append.1 hmem with hmem | hmem
      · exact Nat.le_of_lt (hbefore start hmem offset List.mem_cons_self)
      · exact Nat.le_of_eq (List.mem_singleton.1 hmem)
    rw [hstarts, List.append_cons, countP_append_of_le hle hafter, List.length_append] at hcount
    exact (Nat.succ.inj hcount).symm
  · have hle : ∀ start ∈ before, start ≤ offset := fun start hmem =>
      Nat.le_of_lt (hbefore start hmem)
    rw [hstarts, countP_append_of_le hle hafter] at hcount
    exact ⟨by omega, (Nat.sub_eq_of_eq_add hcount).symm⟩
  · exact ⟨found, hfound, hle, Nat.add_sub_of_le hle⟩

/-! ## The order of positions -/

/-- Positions are in the same order as offsets. -/
theorem position_le_position_iff (source : String) {offset other : Nat} :
    ((ofSource source).position offset).le ((ofSource source).position other) = true ↔
      offset ≤ other := by
  refine ⟨fun h => ?_, position_le_position _⟩
  obtain ⟨found, hfound, hle, heq⟩ := position_eq source offset
  obtain ⟨found', hfound', hle', heq'⟩ := position_eq source other
  by_contra hlt
  have hge := position_le_position (ofSource source) (Nat.le_of_not_le hlt)
  rw [heq, heq', Position.le_iff] at h hge
  -- the positions are the same, so the columns count from the same start
  obtain ⟨hline, hcolumn⟩ : lineFeedsBefore source offset = lineFeedsBefore source other ∧
      offset - found = other - found' := by
    simp only at h hge
    omega
  rw [hline, hfound'] at hfound
  obtain rfl := Option.some.inj hfound
  omega

end LineIndex

/-- Positions are compared by lines, and by columns within a line. -/
instance : LT Position :=
  ⟨fun p q => p.line < q.line ∨ p.line = q.line ∧ p.column < q.column⟩

theorem Position.lt_iff {p q : Position} : p < q ↔ q.le p = false := by
  rw [← Bool.not_eq_true, le_iff]
  change p.line < q.line ∨ p.line = q.line ∧ p.column < q.column ↔ _
  omega

/-- The positions of a source stand for its offsets, those behind its end too. -/
structure LineIndex.Measures (index : LineIndex) (source : String) : Prop where
  /-- The starts of lines increase, so that they can be searched. -/
  increasing : index.starts.Pairwise (· < ·)
  locates : ∀ offset, index.Locates offset (index.position offset)
  line : ∀ offset, (index.position offset).line = lineFeedsBefore source offset
  lt_iff : ∀ offset other, offset < other ↔ index.position offset < index.position other
  contains_iff : ∀ range offset, (index.span range).contains (index.position offset) = true ↔
    range.start ≤ offset ∧ offset ≤ range.stop

/-- Lines and columns say what byte offsets say, in the same order. -/
theorem LineIndex.measures_ofSource (source : String) : (ofSource source).Measures source where
  increasing := pairwise_starts source
  locates := locates_position source
  line offset := by
    obtain ⟨_, -, -, heq⟩ := position_eq source offset
    rw [heq]
  lt_iff offset other := by
    rw [Position.lt_iff, ← Bool.not_eq_true, position_le_position_iff, Nat.not_le]
  contains_iff range offset := by
    rw [Span.contains, Bool.and_eq_true]
    exact and_congr (position_le_position_iff source) (position_le_position_iff source)

end Stencil
