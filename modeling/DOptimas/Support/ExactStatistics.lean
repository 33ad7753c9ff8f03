import DOptimas.Support.Statistics
import Mathlib
/-!
# The estimators in exact arithmetic

The mean and the bias-corrected deviation as the real numbers that the library
approximates.  At least one value lies within one deviation of the mean.
-/

namespace DOptimas.Support

/-- The estimators are the exact mean and the exact sample deviation, which is
zero for a single value. -/
class ExactStatistics (K : Type) [RealArith K] [CommonsMath K] : Prop where
  mean_eq : ∀ xs : List K, xs ≠ [] → CommonsMath.mean xs = .fin (xs.sum / xs.length)
  deviation_single : ∀ x : K, CommonsMath.standardDeviation [x] = .fin 0
  deviation_eq : ∀ xs : List K, 2 ≤ xs.length →
    ∃ std : K, 0 ≤ std ∧ CommonsMath.standardDeviation xs = .fin std ∧
      std ^ 2 * (xs.length - 1) = (xs.map fun x => (x - xs.sum / xs.length) ^ 2).sum

section Deviation

variable {K : Type} [RealArith K]

theorem exists_near_mean {xs : List K} {mean std : K} (hne : xs ≠ []) (hstd : 0 ≤ std)
    (hvariance : std ^ 2 * (xs.length - 1) = (xs.map fun x => (x - mean) ^ 2).sum) :
    ∃ x ∈ xs, mean - std ≤ x ∧ x ≤ mean + std := by
  have hconst : (xs.map fun _ => std ^ 2).sum = std ^ 2 * xs.length := by
    rw [List.map_const', List.sum_replicate, nsmul_eq_mul, mul_comm]
  have hle : (xs.map fun x => (x - mean) ^ 2).sum ≤ (xs.map fun _ => std ^ 2).sum := by
    rw [hconst, ← hvariance]
    have hsq : 0 ≤ std ^ 2 := sq_nonneg std
    linarith
  obtain ⟨x, hx, hnear⟩ := List.exists_le_of_sum_le hne _ _ hle
  have habs : |x - mean| ≤ std := abs_le_of_sq_le_sq hnear hstd
  have hbounds := abs_le.1 habs
  exact ⟨x, hx, by linarith, by linarith⟩

variable [CommonsMath K] [ExactStatistics K]

theorem exact_estimators {xs : List K} (hne : xs ≠ []) :
    ∃ mean std : K, CommonsMath.mean xs = .fin mean ∧ CommonsMath.standardDeviation xs = .fin std ∧
      0 ≤ std ∧ ∃ x ∈ xs, mean - std ≤ x ∧ x ≤ mean + std := by
  have hmean := ExactStatistics.mean_eq xs hne
  match xs, hne with
  | [x], _ =>
      refine ⟨_, 0, hmean, ExactStatistics.deviation_single x, le_rfl, x,
        List.mem_singleton_self x, ?_⟩
      simp
  | x :: y :: ys, hne =>
      have hlength : 2 ≤ (x :: y :: ys).length := by simp
      obtain ⟨std, hstd, hdeviation, hvariance⟩ := ExactStatistics.deviation_eq _ hlength
      exact ⟨_, std, hmean, hdeviation, hstd, exists_near_mean hne hstd hvariance⟩

end Deviation

/-! ## The real numbers -/

noncomputable instance : RealArith ℝ where
  __ := (inferInstance : Field ℝ)
  __ := (inferInstance : LinearOrder ℝ)
  __ := (inferInstance : IsStrictOrderedRing ℝ)
  __ := (inferInstance : FloorRing ℝ)
  exp := Real.exp
  maxValue := ((2 ^ 53 - 1 : ℕ) : ℝ) * ((2 ^ 971 : ℕ) : ℝ)

theorem expLaws_real : ExpLaws ℝ where
  strictMono := Real.exp_strictMono
  zero := Real.exp_zero
  pos := Real.exp_pos

namespace Exact

noncomputable def mean (xs : List ℝ) : JDouble ℝ :=
  if xs = [] then .nan else .fin (xs.sum / xs.length)

noncomputable def variance (xs : List ℝ) : ℝ :=
  (xs.map fun x => (x - xs.sum / xs.length) ^ 2).sum / (xs.length - 1)

noncomputable def standardDeviation : List ℝ → JDouble ℝ
  | [] => .nan
  | [_] => .fin 0
  | xs => .fin (Real.sqrt (variance xs))

end Exact

noncomputable instance : CommonsMath ℝ where
  mean := Exact.mean
  standardDeviation := Exact.standardDeviation
  aggregateMean xss := Exact.mean xss.flatten
  aggregateStandardDeviation xss := Exact.standardDeviation xss.flatten

instance : ExactStatistics ℝ where
  mean_eq xs hne := if_neg hne
  deviation_single _ := rfl
  deviation_eq xs hlength := by
    have hpos : (0 : ℝ) < xs.length - 1 := by
      have hcast : (2 : ℝ) ≤ xs.length := by exact_mod_cast hlength
      linarith
    have hsum : 0 ≤ (xs.map fun x => (x - xs.sum / xs.length) ^ 2).sum := by
      refine List.sum_nonneg fun x hx => ?_
      obtain ⟨y, -, rfl⟩ := List.mem_map.1 hx
      exact sq_nonneg _
    have hvariance : 0 ≤ Exact.variance xs := div_nonneg hsum hpos.le
    refine ⟨Real.sqrt (Exact.variance xs), Real.sqrt_nonneg _, ?_, ?_⟩
    · match xs, hlength with
      | _ :: _ :: _, _ => rfl
    · rw [Real.sq_sqrt hvariance, Exact.variance, div_mul_cancel₀ _ hpos.ne']

end DOptimas.Support
