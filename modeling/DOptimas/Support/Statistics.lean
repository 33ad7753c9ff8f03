import DOptimas.Support.JavaDouble
import DOptimas.Support.Sampling
import Mathlib.Algebra.BigOperators.Group.List.Basic
/-!
# The statistics library

The commons-math accumulators that the program uses.  What an accumulator
reports is a function of the values added since it was last cleared; the counts
and the accepted shapes are part of the interface, the numerical formulas are
the parameter `CommonsMath`.
-/

namespace DOptimas.Support

/-- The estimators of the library. -/
class CommonsMath (K : Type) where
  mean : List K → JDouble K
  standardDeviation : List K → JDouble K
  aggregateMean : List (List K) → JDouble K
  aggregateStandardDeviation : List (List K) → JDouble K

structure SummaryStatistics (K : Type) where
  values : List K
  deriving DecidableEq

/-- The interface that both a single accumulator and an aggregate implement. -/
structure StatisticalSummary (K : Type) where
  n : ℕ
  mean : JDouble K
  standardDeviation : JDouble K
  deriving DecidableEq

structure MultivariateSummaryStatistics (K : Type) where
  dimension : ℕ
  rows : List (List K)
  deriving DecidableEq

variable {K : Type}

namespace SummaryStatistics

def new : SummaryStatistics K := ⟨[]⟩

def addValue (s : SummaryStatistics K) (x : K) : SummaryStatistics K := ⟨s.values ++ [x]⟩

def clear (_ : SummaryStatistics K) : SummaryStatistics K := new

def getN (s : SummaryStatistics K) : ℕ := s.values.length

def toStatisticalSummary [CommonsMath K] (s : SummaryStatistics K) : StatisticalSummary K :=
  { n := s.getN
    mean := CommonsMath.mean s.values
    standardDeviation := CommonsMath.standardDeviation s.values }

@[simp] theorem values_new : (new : SummaryStatistics K).values = [] := rfl

@[simp] theorem values_addValue (s : SummaryStatistics K) (x : K) :
    (s.addValue x).values = s.values ++ [x] := rfl

@[simp] theorem clear_eq (s : SummaryStatistics K) : s.clear = new := rfl

@[simp] theorem getN_mk (xs : List K) : (⟨xs⟩ : SummaryStatistics K).getN = xs.length := rfl

end SummaryStatistics

/-- `AggregateSummaryStatistics.aggregate`: null for no summary at all. -/
def aggregate [CommonsMath K] : List (SummaryStatistics K) → Option (StatisticalSummary K)
  | [] => none
  | s :: ss => some
      { n := ((s :: ss).map SummaryStatistics.getN).sum
        mean := CommonsMath.aggregateMean ((s :: ss).map SummaryStatistics.values)
        standardDeviation :=
          CommonsMath.aggregateStandardDeviation ((s :: ss).map SummaryStatistics.values) }

@[simp] theorem aggregate_nil [CommonsMath K] :
    aggregate ([] : List (SummaryStatistics K)) = none := rfl

theorem aggregate_cons_isSome [CommonsMath K] (s : SummaryStatistics K)
    (ss : List (SummaryStatistics K)) : (aggregate (s :: ss)).isSome := rfl

namespace MultivariateSummaryStatistics

def new (dimension : ℕ) : MultivariateSummaryStatistics K := ⟨dimension, []⟩

/-- `none` where the library throws `DimensionMismatchException`. -/
def addValue (s : MultivariateSummaryStatistics K) (row : List K) :
    Option (MultivariateSummaryStatistics K) :=
  if row.length = s.dimension then some { s with rows := s.rows ++ [row] } else none

def clear (s : MultivariateSummaryStatistics K) : MultivariateSummaryStatistics K :=
  new s.dimension

def getN (s : MultivariateSummaryStatistics K) : ℕ := s.rows.length

def column (s : MultivariateSummaryStatistics K) (i : ℕ) : List K :=
  s.rows.filterMap fun row => row[i]?

def getMean [CommonsMath K] (s : MultivariateSummaryStatistics K) : List (JDouble K) :=
  (List.range s.dimension).map fun i => CommonsMath.mean (s.column i)

@[simp] theorem length_getMean [CommonsMath K] (s : MultivariateSummaryStatistics K) :
    s.getMean.length = s.dimension := by
  simp [getMean]

@[simp] theorem dimension_new (d : ℕ) :
    (new d : MultivariateSummaryStatistics K).dimension = d := rfl

@[simp] theorem dimension_clear (s : MultivariateSummaryStatistics K) :
    s.clear.dimension = s.dimension := rfl

end MultivariateSummaryStatistics

/-- Without replacement, the sample picks the element at each choice among those
still left; `none` where the library throws on the sample size. -/
def nextSample {α : Type} (choices : List ℕ) (xs : List α) (k : ℤ) : Option (List α) :=
  if 0 < k ∧ k ≤ xs.length then some (pick choices k.toNat xs) else none
where
  pick : List ℕ → ℕ → List α → List α
    | _, 0, _ => []
    | choices, k + 1, xs =>
        match xs[choices.headD 0 % xs.length]? with
        | none => []
        | some x => x :: pick choices.tail k (xs.eraseIdx (choices.headD 0 % xs.length))

theorem mem_of_mem_pick {α : Type} {choices : List ℕ} {k : ℕ} {xs : List α} {x : α}
    (h : x ∈ nextSample.pick choices k xs) : x ∈ xs := by
  induction k generalizing choices xs with
  | zero => simp [nextSample.pick] at h
  | succ k ih =>
      simp only [nextSample.pick] at h
      split at h
      · simp at h
      next y hy =>
        rcases List.mem_cons.1 h with rfl | hrest
        · exact List.mem_of_getElem? hy
        · exact List.mem_of_mem_eraseIdx (ih hrest)

theorem mem_of_mem_nextSample {α : Type} {choices : List ℕ} {xs ys : List α} {k : ℤ} {x : α}
    (h : nextSample choices xs k = some ys) (hx : x ∈ ys) : x ∈ xs := by
  unfold nextSample at h
  split at h
  · obtain rfl : _ = ys := by simpa using h
    exact mem_of_mem_pick hx
  · simp at h

theorem pick_drawn {α : Type} (choices : List ℕ) {k : ℕ} {xs : List α} (h : k ≤ xs.length) :
    (nextSample.pick choices k xs).length = k ∧ DrawnFrom xs (nextSample.pick choices k xs) := by
  induction k generalizing choices xs with
  | zero => exact ⟨rfl, drawnFrom_nil xs⟩
  | succ k ih =>
      have hlt : choices.headD 0 % xs.length < xs.length := Nat.mod_lt _ (by omega)
      have hrest : k ≤ (xs.eraseIdx (choices.headD 0 % xs.length)).length := by
        rw [List.length_eraseIdx_of_lt hlt]
        omega
      obtain ⟨hlength, hdrawn⟩ := ih choices.tail hrest
      simp only [nextSample.pick]
      split
      next hnone => exact absurd (List.getElem?_eq_none_iff.1 hnone) (by omega)
      next x hx => exact ⟨by rw [List.length_cons, hlength], hdrawn.cons hx⟩

/-- A sample has the size asked for and comes from distinct positions. -/
theorem nextSample_drawn {α : Type} {choices : List ℕ} {xs ys : List α} {k : ℤ}
    (h : nextSample choices xs k = some ys) : (ys.length : ℤ) = k ∧ DrawnFrom xs ys := by
  unfold nextSample at h
  split at h
  next hsize =>
    obtain rfl : _ = ys := by simpa using h
    obtain ⟨hlength, hdrawn⟩ := pick_drawn choices (show k.toNat ≤ xs.length by omega)
    exact ⟨by omega, hdrawn⟩
  · simp at h

theorem nextSample_isSome_iff {α : Type} (choices : List ℕ) (xs : List α) (k : ℤ) :
    (nextSample choices xs k).isSome ↔ 0 < k ∧ k ≤ xs.length := by
  unfold nextSample
  split <;> simp_all

end DOptimas.Support
