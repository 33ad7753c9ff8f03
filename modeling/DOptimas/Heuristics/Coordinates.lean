import DOptimas.Heuristics.Returning
import DOptimas.Heuristics.Function
/-!
# Solutions with real coordinates

Function and benchmark problems have an interval for each coordinate, and their
solutions of full dimension a number.
-/

namespace DOptimas.Heuristics

open DOptimas.Support

variable {K : Type} [RealArith K]

def Coordinates (dimension : ℕ) (w : World K) (r : Ref) (x : ℕ → K) : Prop :=
  ∃ s, w.solutions[r]? = some s ∧ s.solutionsVector.length = dimension ∧
    ∀ j < dimension, ∃ e, s.solutionsVector[j]? = some (some e) ∧ e.toDoubleValue = x j

inductive RealProblem : ProblemName → Problem K → (ℕ → K × K) → Prop
  | function (p : FunctionProblem K) (limits : ℕ → K × K)
      (hlimits : ∀ j < p.dimension, p.domain[j]? = some (limits j) ∧ (limits j).1 ≤ (limits j).2) :
      RealProblem .function p.toProblem limits
  | benchmark (p : BenchmarkProblem K) (limits : ℕ → K × K)
      (hlimits : ∀ j < p.dimension, p.lowerBounds[j]? = some (limits j).1 ∧
        p.upperBounds[j]? = some (limits j).2 ∧ (limits j).1 ≤ (limits j).2) :
      RealProblem .benchmark p.toProblem limits

namespace RealProblem

variable {name : ProblemName} {problem : Problem K} {limits : ℕ → K × K} {j : ℕ}

theorem name_eq (h : RealProblem name problem limits) : problem.name = name := by
  cases h with
  | function => rfl
  | benchmark => rfl

theorem nullInit_eq (h : RealProblem name problem limits) : problem.nullInit = false := by
  cases h with
  | function => rfl
  | benchmark => rfl

theorem le (h : RealProblem name problem limits) (hj : j < problem.dimension) :
    (limits j).1 ≤ (limits j).2 := by
  cases h with
  | function p limits hlimits => exact (hlimits j hj).2
  | benchmark p limits hlimits => exact (hlimits j hj).2.2

theorem domain_eq (h : RealProblem name problem limits) (hj : j < problem.dimension) :
    problem.domain j = .ok (limits j) := by
  cases h with
  | function p limits hlimits =>
      show p.bounds j = _
      unfold FunctionProblem.bounds
      rw [(hlimits j hj).1]
  | benchmark p limits hlimits =>
      show p.domain j = _
      unfold BenchmarkProblem.domain
      rw [(hlimits j hj).1, (hlimits j hj).2.1]

end RealProblem

section Reading

variable {w w' : World K} {dimension j : ℕ} {r : Ref} {x : ℕ → K}

theorem Coordinates.of_append {t : Solution K} (h : Coordinates dimension w r x)
    (hw' : w'.solutions = w.solutions ++ [t]) : Coordinates dimension w' r x := by
  obtain ⟨s, hs, hlength, hvalues⟩ := h
  refine ⟨s, ?_, hlength, hvalues⟩
  rw [hw', List.getElem?_append_left (List.getElem?_eq_some_iff.1 hs).1]
  exact hs

theorem getDoubleValue_eq (h : Coordinates dimension w r x) (hj : j < dimension) :
    getDoubleValue r j w = .ok (x j) w := by
  obtain ⟨s, hs, hlength, hvalues⟩ := h
  obtain ⟨e, he, hx⟩ := hvalues j hj
  have hnonempty : s.solutionsVector.isEmpty = false := by
    rw [List.isEmpty_eq_false_iff]
    exact List.ne_nil_of_length_pos (by omega)
  unfold getDoubleValue
  rw [bind_of_ok (deref_eq hs)]
  dsimp only
  rw [hnonempty, if_neg Bool.false_ne_true, if_neg (by omega)]
  have hnth : (nth s.solutionsVector j : Program K (Option (Element K))) w = .ok (some e) w := by
    unfold nth
    rw [he]
    rfl
  show (nth s.solutionsVector j >>= fun a => nonNull a >>= fun e => pure e.toDoubleValue :
    Program K K) w = _
  rw [bind_of_ok hnth, ← hx]
  rfl

theorem Coordinates.unique {y : ℕ → K} (hx : Coordinates dimension w r x)
    (hy : Coordinates dimension w r y) (hj : j < dimension) : x j = y j := by
  obtain ⟨s, hs, -, hvalues⟩ := hx
  obtain ⟨t, ht, -, hvalues'⟩ := hy
  obtain rfl : s = t := Option.some.inj (hs.symm.trans ht)
  obtain ⟨e, he, hx⟩ := hvalues j hj
  obtain ⟨e', he', hy⟩ := hvalues' j hj
  obtain rfl : e = e' := Option.some.inj (Option.some.inj (he.symm.trans he'))
  exact hx.symm.trans hy

end Reading

end DOptimas.Heuristics
