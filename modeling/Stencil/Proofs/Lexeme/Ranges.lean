import Mathlib.Data.List.Basic
import Mathlib.Data.String.Basic
import Stencil.Lexeme
import Stencil.Location

/-!
# Where lexemes stand

The lexemes of a source stand one behind the other, and all of them within its bytes. Positions
count lines and columns in the same order as byte offsets.

* `areLaid_lexemes`: the ranges of the lexemes of a source.
* `StandsAt`: tokens that stand next to each other in a source, with the range they take up.
* `LineIndex.position_le_position`: a later offset has no earlier position.
-/

namespace Stencil

/-! ## Ranges -/

/-- The lexemes stand one behind the other, within `size` bytes. -/
structure AreLaid (size : Nat) (lexemes : List Lexeme) : Prop where
  ordered : lexemes.Pairwise fun a b => a.range.stop ≤ b.range.start
  proper : ∀ lexeme ∈ lexemes, lexeme.range.start ≤ lexeme.range.stop
  within : ∀ lexeme ∈ lexemes, lexeme.range.stop ≤ size

theorem byteSize_toList (source : String) : byteSize source.toList = source.utf8ByteSize := by
  have hsize : ∀ chars, byteSize chars = String.utf8Len chars := by
    intro chars
    induction chars with
    | nil => rfl
    | cons c rest ih => rw [byteSize, ih, String.utf8Len_cons, Nat.add_comm]
  rw [hsize, ← String.utf8ByteSize_ofList, String.ofList_toList]

/-- The lexemes of the input at an offset stand behind the offset. -/
theorem le_start_of_mem_lexemesFrom {initial current : Mode} {offset : Nat} {input : List Char}
    {lexeme : Lexeme} (h : lexeme ∈ lexemesFrom initial current offset input) :
    offset ≤ lexeme.range.start := by
  fun_induction lexemesFrom initial current offset input with
  | case1 => cases h
  | case2 current offset input piece _ start stop _ _ ih =>
    rcases List.mem_cons.1 h with rfl | h
    · exact Nat.le_add_right _ _
    · have := ih h
      omega

theorem areLaid_lexemesFrom (initial current : Mode) (offset : Nat) (input : List Char) :
    AreLaid (offset + byteSize input) (lexemesFrom initial current offset input) := by
  fun_induction lexemesFrom initial current offset input with
  | case1 => exact ⟨.nil, by simp, by simp⟩
  | case2 current offset input piece h start stop _ _ ih =>
    -- the bytes of the input: what is skipped, the token, and the rest
    have hsize : stop + byteSize piece.rest = offset + byteSize input := by
      have hinput := skipped_append_afterSkipped current input
      rw [← Piece.taken_append_rest h] at hinput
      have hbytes := congrArg byteSize hinput
      simp only [byteSize_append] at hbytes
      omega
    rw [hsize] at ih
    refine ⟨?_, ?_, ?_⟩
    · exact List.pairwise_cons.2 ⟨fun _ => le_start_of_mem_lexemesFrom, ih.ordered⟩
    · exact List.forall_mem_cons.2 ⟨Nat.le_add_right _ _, ih.proper⟩
    · exact List.forall_mem_cons.2 ⟨hsize ▸ Nat.le_add_right _ _, ih.within⟩

/-- The lexemes of a source stand one behind the other, within its bytes. -/
theorem areLaid_lexemes (mode : Mode) (source : String) :
    AreLaid source.utf8ByteSize (lexemes mode source) := by
  have h := areLaid_lexemesFrom mode mode 0 source.toList
  rwa [Nat.zero_add, byteSize_toList] at h

theorem AreLaid.sublist {size : Nat} {some all : List Lexeme} (h : AreLaid size all)
    (hsome : some.Sublist all) : AreLaid size some where
  ordered := h.ordered.sublist hsome
  proper := fun lexeme hl => h.proper lexeme (hsome.subset hl)
  within := fun lexeme hl => h.within lexeme (hsome.subset hl)

/-! ## Tokens next to each other -/

/-- The tokens stand next to each other among the lexemes, and take up the range. -/
def StandsAt (lexemes : List Lexeme) (tokens : List Token) (range : ByteRange) : Prop :=
  ∃ before first later after, lexemes = before ++ (first :: later ++ after) ∧
    (first :: later).map Lexeme.token = tokens ∧
    range = ⟨first.range.start, (later.getLastD first).range.stop⟩

theorem AreLaid.start_le_stop_getLastD {size : Nat} {first : Lexeme} {later : List Lexeme}
    (h : AreLaid size (first :: later)) :
    first.range.start ≤ (later.getLastD first).range.stop := by
  have hfirst := h.proper first List.mem_cons_self
  have hmem : later.getLastD first ∈ first :: later := List.getLastD_mem_cons
  have hlast := h.proper _ hmem
  rcases List.mem_cons.1 hmem with heq | hmem
  · rwa [heq]
  · have := List.rel_of_pairwise_cons h.ordered hmem
    omega

/-- A range that tokens take up lies within the source. -/
theorem StandsAt.start_le_stop_le {size : Nat} {lexemes : List Lexeme} {tokens : List Token}
    {range : ByteRange} (hlaid : AreLaid size lexemes) (h : StandsAt lexemes tokens range) :
    range.start ≤ range.stop ∧ range.stop ≤ size := by
  obtain ⟨before, first, later, after, rfl, -, rfl⟩ := h
  have hpart : AreLaid size (first :: later) :=
    hlaid.sublist ((List.sublist_append_left _ _).trans (List.sublist_append_right _ _))
  exact ⟨hpart.start_le_stop_getLastD, hpart.within _ List.getLastD_mem_cons⟩

/-! ## Positions -/

namespace Position

theorem le_iff {p q : Position} :
    p.le q = true ↔ p.line < q.line ∨ p.line = q.line ∧ p.column ≤ q.column := by
  simp [le]

theorem le_trans {p q r : Position} (h : p.le q = true) (h' : q.le r = true) : p.le r = true := by
  rw [le_iff] at *
  omega

theorem le_total (p q : Position) : (p.le q || q.le p) = true := by
  rw [Bool.or_eq_true, le_iff, le_iff]
  omega

end Position

namespace LineIndex

/-- The line that is found is not before the one the search began with. -/
theorem line_le_line_locate (offset line start : Nat) (later : List Nat) :
    line ≤ (locate offset line start later).line := by
  fun_induction locate offset line start later with
  | case1 => exact Nat.le_refl _
  | case2 line start next later _ ih => omega
  | case3 => exact Nat.le_refl _

theorem locate_le_locate {offset other : Nat} (h : offset ≤ other) (line start : Nat)
    (later : List Nat) :
    (locate offset line start later).le (locate other line start later) = true := by
  rw [Position.le_iff]
  induction later generalizing line start with
  | nil => exact .inr ⟨rfl, Nat.sub_le_sub_right h _⟩
  | cons next later ih =>
    simp only [locate]
    split
    · rw [if_pos (by omega)]
      exact ih _ _
    · split
      · exact .inl (line_le_line_locate other (line + 1) next later)
      · exact .inr ⟨rfl, Nat.sub_le_sub_right h _⟩

/-- A later offset has no earlier position. -/
theorem position_le_position (index : LineIndex) {offset other : Nat} (h : offset ≤ other) :
    (index.position offset).le (index.position other) = true := by
  unfold position
  split
  · rw [Position.le_iff]
    exact .inr ⟨rfl, h⟩
  · exact locate_le_locate h _ _ _

end LineIndex

end Stencil
