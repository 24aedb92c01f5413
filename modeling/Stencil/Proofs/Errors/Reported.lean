import Stencil.Proofs.Lexeme.Ranges
import Stencil.Proofs.Parser.Acceptance
import Stencil.Dialect

/-!
# What is reported of a failed parse

If a source does not parse, the faults that were reported and the one that stopped the parser are
turned into errors and put in the order of their places.

* `parseAs_eq_error_iff`, `Parser.run_eq_error_iff` say which faults these are.
* `ParseError.pairwise_sortByStart`: the errors are in order; `ParseError.sortByStart_map_eq_self`:
  errors of faults that are in the order of their ranges stay as they are.
-/

namespace Stencil

namespace ParseError

theorem pairwise_sortByStart (errors : List ParseError) :
    (sortByStart errors).Pairwise fun a b => a.span.start.le b.span.start = true := by
  apply List.pairwise_mergeSort
  · exact fun _ _ _ => Position.le_trans
  · exact fun a b => Position.le_total a.span.start b.span.start

theorem sortByStart_perm (errors : List ParseError) : (sortByStart errors).Perm errors :=
  List.mergeSort_perm _ _

/-- The order of ranges is that of the errors. -/
theorem sortByStart_map_eq_self {index : LineIndex} {name : Option String} {faults : List Fault}
    (h : faults.Pairwise fun a b => a.range.start ≤ b.range.start) :
    sortByStart (faults.map (·.toParseError index name)) =
      faults.map (·.toParseError index name) :=
  List.mergeSort_of_pairwise
    (List.pairwise_map.2 (h.imp fun hle => LineIndex.position_le_position index hle))

end ParseError

/-- A run fails with what was reported, and with the cause of a rejection at the end. -/
theorem Parser.run_eq_error_iff {α : Type} {p : Parser α} {input : Input} {faults : List Fault} :
    p.run input = .error faults ↔
      (∃ es v alternative rest, p input = ⟨es, .accepted v alternative rest⟩ ∧ es ≠ [] ∧
        faults = es.map Located.fault) ∨
      ∃ es cause, p input = ⟨es, .rejected cause⟩ ∧
        faults = es.map Located.fault ++ [cause.fault] := by
  unfold run
  rcases p input with ⟨_ | ⟨e, es⟩, ⟨v, alternative, rest⟩ | cause⟩ <;> simp [eq_comm]

theorem parseAs_eq_error_iff {α : Type} {p : Parser α} {mode : Mode} {name : Option String}
    {source : String} {errors : List ParseError} :
    parseAs p mode name source = .error errors ↔
      ∃ faults, p.run (.ofSource mode source) = .error faults ∧
        ParseError.sortByStart
          (faults.map (·.toParseError (LineIndex.ofSource source) name)) = errors := by
  unfold parseAs
  split
  · simp_all
  · next faults h => simp [h]

end Stencil
