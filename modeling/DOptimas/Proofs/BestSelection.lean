import DOptimas.Core.Region
import DOptimas.Heuristics.Rules
import DOptimas.Support.Rational
/-!
# Folding with a tolerance

Three folds pick the best of a list with `getBestSolution`: the analyser's own
`findBestSolution`, a region, and the context of an agent.  With a tolerance a
tie goes to the newer solution, so that a chain of ties can climb away from the
minimum, by less than one tolerance at each solution.
-/

namespace DOptimas.Proofs.BestSelection

open DOptimas.Support DOptimas.Heuristics
open DOptimas.Core (SolutionAnalyser Region)
open DOptimas.Core.SolutionAnalyser (tolerance tolerance_pos keepsLeft_tolerant keepsLeft_trans
  le_of_keepsLeft)

variable {K : Type} [RealArith K]

/-! ## On function values -/

/-- At most one tolerance above every value of the list. -/
def WithinTolerance (values : List K) (x : K) : Prop := ∀ y ∈ values, x ≤ y + tolerance

/-- Some value within one tolerance of all is at least a tolerance below every
value after it. -/
def Settled (values : List K) : Prop :=
  ∃ before x after, values = before ++ x :: after ∧ WithinTolerance values x ∧
    ∀ y ∈ after, x + tolerance ≤ y

variable {a : SolutionAnalyser}

/-- The selected value is less than one tolerance a step above the minimum. -/
theorem select_le (ha : a.Tolerant) (v : K) (vs : List K) {y : K} (hy : y ∈ v :: vs) :
    select a.keepsLeft v vs ≤ y + vs.length * tolerance := by
  refine select_le_add tolerance_pos.le (fun _ _ => a.le_of_keepsLeft) (fun x z h => ?_) v vs hy
  rw [← Bool.not_eq_true, keepsLeft_tolerant ha, not_le] at h
  exact h.le

/-! ## The three folds -/

section Example

def line : Heuristics.Problem ℚ :=
  { id := 1, name := .function, dimension := 1, nullInit := false, analyser := .function
    max := false, initialValue := RealArith.maxValue, parsedInitialValue := .ok 0
    domain := fun _ => .ok (0, 1)
    objectiveFunction := fun _ vector =>
      ⟨1, match vector with
        | [some e] => .ok e.toDoubleValue
        | _ => .error .objectiveFunctionEvaluation⟩
    checkViability := fun _ => (true, .ok ())
    adaptiveFunctionValue := fun _ _ _ => ⟨0, .ok none⟩ }

end Example

end DOptimas.Proofs.BestSelection
