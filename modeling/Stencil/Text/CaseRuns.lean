/-!
# Case forms from tables

Case forms are kept as runs of characters that all move by the same distance, and as a list of
the characters whose form is several characters long.
-/

namespace Stencil.Text

/-- The code points `first`, `first + step`, …, `last`, each of which changes case by adding
`delta`. -/
structure CaseRun where
  first : Nat
  last : Nat
  step : Nat
  delta : Int

namespace CaseRun

/-- Whether a code point belongs to the run. -/
def covers (run : CaseRun) (n : Nat) : Bool :=
  run.first ≤ n && n ≤ run.last && (n - run.first) % run.step == 0

end CaseRun

/-- The form of a character by its run or its expansion; a character in neither stays as it
is. -/
def caseForm (runs : Array CaseRun) (expansions : Array (Nat × List Nat)) (c : Char) :
    List Char :=
  match expansions.find? (·.1 == c.toNat) with
  | some (_, form) => form.map Char.ofNat
  | none =>
    match runs.find? (·.covers c.toNat) with
    | some run => [Char.ofNat (Int.toNat (c.toNat + run.delta))]
    | none => [c]

end Stencil.Text
