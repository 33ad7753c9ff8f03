import DOptimas.Core.Solution
import DOptimas.Support.Selection
/-!
# The order behind an analyser

`getBestSolution` keeps its left argument on a condition that is an order for
two of the analysers only: with a tolerance, ties are not transitive.  What all
analysers share is stated here on function values, and carried over to solutions.
-/

namespace DOptimas.Core

open DOptimas.Support

namespace SolutionAnalyser

variable {K : Type} [RealArith K]

theorem tolerance_pos : 0 < (tolerance : K) := by
  unfold tolerance
  positivity

def Tolerant : SolutionAnalyser → Prop
  | function => True
  | knapsack01 => True
  | vehicleRoutingTimeWindow => True
  | _ => False

theorem compareWithTolerance_neg_iff {left right : K} :
    compareWithTolerance left right < 0 ↔ left + tolerance ≤ right := by
  have htolerance := tolerance_pos (K := K)
  unfold compareWithTolerance
  split
  next hclose =>
    have hbounds := abs_lt.1 hclose
    constructor
    · intro h
      omega
    · intro h
      linarith [hbounds.1]
  next hfar =>
    split
    next hlt =>
      have habs : |left - right| = right - left := by
        rw [abs_of_neg (by linarith), neg_sub]
      rw [habs, not_lt] at hfar
      constructor
      · intro _
        linarith
      · intro _
        omega
    next hge =>
      constructor
      · intro h
        omega
      · intro h
        linarith

theorem keepsLeft_tolerant {a : SolutionAnalyser} (h : a.Tolerant) {left right : K} :
    a.keepsLeft left right ↔ left + tolerance ≤ right := by
  cases a with
  | benchmark => exact h.elim
  | binaryPartitionNumber => exact h.elim
  | function => simp [keepsLeft, compareFunctionValue, compareWithTolerance_neg_iff]
  | knapsack01 => simp [keepsLeft, compareFunctionValue, compareWithTolerance_neg_iff]
  | vehicleRoutingTimeWindow =>
      simp [keepsLeft, compareFunctionValue, compareWithTolerance_neg_iff]

theorem keepsLeft_benchmark {left right : K} : benchmark.keepsLeft left right ↔ left ≤ right := by
  simp [keepsLeft]

theorem keepsLeft_binaryPartitionNumber {left right : K} :
    binaryPartitionNumber.keepsLeft left right ↔ left < right := by
  simp [keepsLeft]

def beats (a : SolutionAnalyser) (left right : K) : Bool :=
  a.keepsLeft left right && !a.keepsLeft right left

theorem beats_tolerant {a : SolutionAnalyser} (h : a.Tolerant) {left right : K} :
    a.beats left right ↔ left + tolerance ≤ right := by
  have htolerance := tolerance_pos (K := K)
  rw [beats, Bool.and_eq_true, Bool.not_eq_true', ← Bool.not_eq_true, keepsLeft_tolerant h,
    keepsLeft_tolerant h, and_iff_left_iff_imp]
  intro hle hge
  linarith

theorem beats_benchmark {left right : K} : benchmark.beats left right ↔ left < right := by
  rw [beats, Bool.and_eq_true, Bool.not_eq_true', ← Bool.not_eq_true, keepsLeft_benchmark,
    keepsLeft_benchmark, not_le, and_iff_right_iff_imp]
  exact le_of_lt

theorem beats_binaryPartitionNumber {left right : K} :
    binaryPartitionNumber.beats left right ↔ left < right := by
  rw [beats, Bool.and_eq_true, Bool.not_eq_true', ← Bool.not_eq_true,
    keepsLeft_binaryPartitionNumber, keepsLeft_binaryPartitionNumber, not_lt,
    and_iff_left_iff_imp]
  exact le_of_lt

theorem tolerant_or (a : SolutionAnalyser) :
    a.Tolerant ∨ a = benchmark ∨ a = binaryPartitionNumber := by
  cases a with
  | function => exact Or.inl trivial
  | benchmark => exact Or.inr (Or.inl rfl)
  | binaryPartitionNumber => exact Or.inr (Or.inr rfl)
  | knapsack01 => exact Or.inl trivial
  | vehicleRoutingTimeWindow => exact Or.inl trivial

theorem le_of_keepsLeft (a : SolutionAnalyser) {x y : K} (h : a.keepsLeft x y) : x ≤ y := by
  have htolerance := tolerance_pos (K := K)
  rcases a.tolerant_or with ha | rfl | rfl
  · rw [keepsLeft_tolerant ha] at h
    linarith
  · exact keepsLeft_benchmark.1 h
  · exact (keepsLeft_binaryPartitionNumber.1 h).le

theorem le_of_compareFunctionValue_neg (a : SolutionAnalyser) {x y : K}
    (h : a.compareFunctionValue x y < 0) : x ≤ y := by
  have htolerance := tolerance_pos (K := K)
  cases a with
  | benchmark =>
      by_contra hlt
      simp [compareFunctionValue, hlt] at h
  | binaryPartitionNumber =>
      simp only [compareFunctionValue] at h
      split at h
      next heq => exact heq.le
      next =>
        split at h
        next hlt => exact hlt.le
        next => omega
  | _ =>
      have hle := compareWithTolerance_neg_iff.1 h
      linarith

theorem le_of_compareFunctionValue_pos (a : SolutionAnalyser) {x y : K}
    (h : 0 < a.compareFunctionValue x y) : y ≤ x := by
  have hnear : 0 < compareWithTolerance x y → y ≤ x := by
    intro h
    unfold compareWithTolerance at h
    split at h
    next => omega
    next =>
      split at h
      next => omega
      next hlt => exact not_lt.1 hlt
  cases a with
  | benchmark =>
      simp only [compareFunctionValue] at h
      split at h
      next => omega
      next hlt => exact (not_le.1 hlt).le
  | binaryPartitionNumber =>
      simp only [compareFunctionValue] at h
      split at h
      next => omega
      next =>
        split at h
        next => omega
        next hlt => exact not_lt.1 hlt
  | _ => exact hnear h

/-- By how much a solution may be smaller that is not chosen. -/
def slack : SolutionAnalyser → K
  | benchmark => 0
  | binaryPartitionNumber => 0
  | _ => tolerance

theorem slack_nonneg (a : SolutionAnalyser) : 0 ≤ (slack a : K) := by
  have htolerance := tolerance_pos (K := K)
  cases a with
  | benchmark => exact le_refl 0
  | binaryPartitionNumber => exact le_refl 0
  | _ => exact htolerance.le

theorem slack_of_not_tolerant {a : SolutionAnalyser} (h : ¬a.Tolerant) : (slack a : K) = 0 := by
  rcases a.tolerant_or with ha | rfl | rfl
  · exact absurd ha h
  · rfl
  · rfl

theorem le_add_slack_of_not_keepsLeft {a : SolutionAnalyser} {x y : K} (h : ¬a.keepsLeft x y) :
    y ≤ x + slack a := by
  rcases a.tolerant_or with ha | rfl | rfl
  · have hslack : (slack a : K) = tolerance := by
      cases a with
      | benchmark => exact ha.elim
      | binaryPartitionNumber => exact ha.elim
      | _ => rfl
    rw [keepsLeft_tolerant ha, not_le] at h
    rw [hslack]
    exact h.le
  · rw [keepsLeft_benchmark, not_le] at h
    simpa [slack] using h.le
  · rw [keepsLeft_binaryPartitionNumber, not_lt] at h
    simpa [slack] using h

theorem keepsLeft_trans (a : SolutionAnalyser) {x y z : K} (hxy : a.keepsLeft x y)
    (hyz : a.keepsLeft y z) : a.keepsLeft x z := by
  have htolerance := tolerance_pos (K := K)
  rcases a.tolerant_or with ha | rfl | rfl
  · rw [keepsLeft_tolerant ha] at *
    linarith
  · rw [keepsLeft_benchmark] at *
    exact hxy.trans hyz
  · rw [keepsLeft_binaryPartitionNumber] at *
    exact hxy.trans hyz

theorem beats_of_beats_of_keepsLeft (a : SolutionAnalyser) {x y z : K} (hxy : a.beats x y)
    (hyz : a.keepsLeft y z) : a.beats x z := by
  have htolerance := tolerance_pos (K := K)
  rcases a.tolerant_or with ha | rfl | rfl
  · rw [beats_tolerant ha] at *
    rw [keepsLeft_tolerant ha] at hyz
    linarith
  · rw [beats_benchmark] at *
    exact hxy.trans_le (keepsLeft_benchmark.1 hyz)
  · rw [beats_binaryPartitionNumber] at *
    exact hxy.trans (keepsLeft_binaryPartitionNumber.1 hyz)

/-! ## On solutions -/

def keeps (a : SolutionAnalyser) (left right : Solution K) : Bool :=
  match left.functionValue, right.functionValue with
  | some l, some r => a.keepsLeft l r
  | _, _ => false

/-- The left solution is chosen over the right one in either order. -/
def Beats (a : SolutionAnalyser) (left right : Solution K) : Prop :=
  a.keeps left right ∧ ¬a.keeps right left

theorem keeps_of_values {a : SolutionAnalyser} {left right : Solution K} {l r : K}
    (hl : left.functionValue = some l) (hr : right.functionValue = some r) :
    a.keeps left right = a.keepsLeft l r := by
  simp [keeps, hl, hr]

theorem values_of_keeps {a : SolutionAnalyser} {left right : Solution K}
    (h : a.keeps left right) :
    ∃ l r, left.functionValue = some l ∧ right.functionValue = some r ∧ a.keepsLeft l r := by
  unfold keeps at h
  split at h
  next l r hl hr => exact ⟨l, r, hl, hr, h⟩
  · simp at h

theorem keeps_trans (a : SolutionAnalyser) (x y z : Solution K) (hxy : a.keeps x y)
    (hyz : a.keeps y z) : a.keeps x z := by
  obtain ⟨l, m, hl, hm, hlm⟩ := values_of_keeps hxy
  obtain ⟨m', r, hm', hr, hmr⟩ := values_of_keeps hyz
  obtain rfl : m = m' := Option.some.inj (hm.symm.trans hm')
  rw [keeps_of_values hl hr]
  exact a.keepsLeft_trans hlm hmr

theorem beats_values {a : SolutionAnalyser} {left right : Solution K} {l r : K}
    (hl : left.functionValue = some l) (hr : right.functionValue = some r) :
    a.Beats left right ↔ a.beats l r := by
  simp [Beats, beats, keeps_of_values hl hr, keeps_of_values hr hl]

theorem Beats.trans_keeps {a : SolutionAnalyser} {x y z : Solution K} (hxy : a.Beats x y)
    (hyz : a.keeps y z) : a.Beats x z := by
  obtain ⟨l, m, hl, hm, -⟩ := values_of_keeps hxy.1
  obtain ⟨m', r, hm', hr, hmr⟩ := values_of_keeps hyz
  obtain rfl : m = m' := Option.some.inj (hm.symm.trans hm')
  rw [beats_values hl hr]
  exact a.beats_of_beats_of_keepsLeft ((beats_values hl hm).1 hxy) hmr

def Unbeaten (a : SolutionAnalyser) (ss : List (Solution K)) (s : Solution K) : Prop :=
  ∀ t ∈ ss, ¬a.Beats t s

theorem reduceBest_eq_select (a : SolutionAnalyser) {s : Solution K} {ss : List (Solution K)}
    (h : ∀ t ∈ s :: ss, t.functionValue ≠ none) :
    a.reduceBest (s :: ss) = .ok (some (select a.keeps s ss)) := by
  show reduceBest.go a s ss = _
  induction ss generalizing s with
  | nil => rfl
  | cons t ts ih =>
      obtain ⟨l, hl⟩ := Option.ne_none_iff_exists'.1 (h s List.mem_cons_self)
      obtain ⟨r, hr⟩ :=
        Option.ne_none_iff_exists'.1 (h t (List.mem_cons_of_mem s List.mem_cons_self))
      have hbest : a.getBestSolution s t = .ok (if a.keeps s t then s else t) := by
        simp [getBestSolution, keeps, hl, hr]
      rw [reduceBest.go, hbest, select_cons]
      apply ih
      intro u hu
      rcases List.mem_cons.1 hu with rfl | hu
      · split
        · exact h s List.mem_cons_self
        · exact h t (List.mem_cons_of_mem s List.mem_cons_self)
      · exact h u (List.mem_cons_of_mem s (List.mem_cons_of_mem t hu))

/-- Some unbeaten solution of the list is kept at all that come after it. -/
def Settles (a : SolutionAnalyser) (ss : List (Solution K)) : Prop :=
  ∃ before s after, ss = before ++ s :: after ∧ a.Unbeaten ss s ∧ ∀ t ∈ after, a.keeps s t

theorem unbeaten_select_iff (a : SolutionAnalyser) (s : Solution K) (ss : List (Solution K)) :
    a.Unbeaten (s :: ss) (select a.keeps s ss) ↔ a.Settles (s :: ss) :=
  select_iff (keeps_trans a)
    (fun _ _ hkeeps hunbeaten t ht hbeats => hunbeaten t ht (hbeats.trans_keeps hkeeps)) s ss

end SolutionAnalyser

end DOptimas.Core
