import DOptimas.Support.JavaDouble
/-!
# Problems, solutions and their analysers

The data of an optimisation problem and of a candidate solution, and the
analyser that picks the better of two solutions.  The elements of a solution's
vector and its function value may be missing; reading a missing one throws.
-/

namespace DOptimas.Core

open DOptimas.Support

inductive Field where
  | problem | region | timer | bestSolution | leader | actorRef
  | agent | agentProblem | result | functionValue | element | summary | globalStatistics
  deriving DecidableEq

inductive Failure where
  | nullPointer (field : Field)
  | dimensionMismatch
  | sampleSize
  | indexOutOfBounds
  | askTimeout
  | extraction
  | exit
  deriving DecidableEq

/-- A failure about the data of a solution, not about a field of an actor. -/
def Failure.BadSolution : Failure → Prop
  | .nullPointer .functionValue => True
  | .nullPointer .element => True
  | .dimensionMismatch => True
  | _ => False

inductive SolutionAnalyser where
  | function
  | benchmark
  | binaryPartitionNumber
  | knapsack01
  | vehicleRoutingTimeWindow
  deriving DecidableEq

/-- The identity of a problem and what regions and agents read of it. -/
structure Problem where
  id : ℕ
  dimension : ℕ
  analyser : SolutionAnalyser
  deriving DecidableEq

structure Solution (K : Type) where
  id : ℕ
  /-- The agent that produced the solution, unset until its run has ended. -/
  agent : Option ℕ
  solutionsVector : List (Option K)
  functionValue : Option K
  viable : Bool
  changed : Bool
  deriving DecidableEq

variable {K : Type}

namespace Solution

def toDoubleArray (s : Solution K) : Option (List K) :=
  collect s.solutionsVector
where
  collect : List (Option K) → Option (List K)
    | [] => some []
    | none :: _ => none
    | some x :: xs => (collect xs).map (x :: ·)

/-- What a region of dimension `d` needs of a solution to store it. -/
def Storable (d : ℕ) (s : Solution K) : Prop :=
  s.functionValue.isSome ∧ ∃ row, s.toDoubleArray = some row ∧ row.length = d

theorem Storable.functionValue_ne_none {d : ℕ} {s : Solution K} (h : s.Storable d) :
    s.functionValue ≠ none := by
  have hsome := h.1
  intro hnone
  simp [hnone] at hsome

end Solution

namespace SolutionAnalyser

variable [RealArith K]

/-- `1e-5`, below which three of the analysers take two values for equal. -/
def tolerance : K := 1 / 100000

/-- `compareFunctionValue` of the function, knapsack and routing analysers. -/
def compareWithTolerance (left right : K) : ℤ :=
  if |left - right| < tolerance then 0 else if left < right then -1 else 1

def compareFunctionValue : SolutionAnalyser → K → K → ℤ
  | function, left, right => compareWithTolerance left right
  | knapsack01, left, right => compareWithTolerance left right
  | vehicleRoutingTimeWindow, left, right => compareWithTolerance left right
  | benchmark, left, right => if left ≤ right then -1 else 1
  | binaryPartitionNumber, left, right =>
      if left = right then 0 else if left < right then -1 else 1

def keepsLeft : SolutionAnalyser → K → K → Bool
  | benchmark, left, right => decide (left ≤ right)
  | binaryPartitionNumber, left, right => decide (left < right)
  | a, left, right => decide (a.compareFunctionValue left right < 0)

def getBestSolution (a : SolutionAnalyser) (left right : Solution K) :
    Except Failure (Solution K) :=
  match left.functionValue, right.functionValue with
  | some l, some r => .ok (if a.keepsLeft l r then left else right)
  | _, _ => .error (.nullPointer .functionValue)

theorem getBestSolution_ok (a : SolutionAnalyser) {left right : Solution K}
    (hl : left.functionValue ≠ none) (hr : right.functionValue ≠ none) :
    ∃ best, a.getBestSolution left right = .ok best ∧ (best = left ∨ best = right) := by
  obtain ⟨l, hl⟩ := Option.ne_none_iff_exists'.1 hl
  obtain ⟨r, hr⟩ := Option.ne_none_iff_exists'.1 hr
  simp only [getBestSolution, hl, hr]
  split
  · exact ⟨left, rfl, Or.inl rfl⟩
  · exact ⟨right, rfl, Or.inr rfl⟩

/-- `stream().reduce(analyser::getBestSolution)`. -/
def reduceBest (a : SolutionAnalyser) : List (Solution K) → Except Failure (Option (Solution K))
  | [] => .ok none
  | s :: ss => go s ss
where
  go (best : Solution K) : List (Solution K) → Except Failure (Option (Solution K))
    | [] => .ok (some best)
    | s :: ss =>
        match a.getBestSolution best s with
        | .error e => .error e
        | .ok best => go best ss

theorem reduceBest_ok (a : SolutionAnalyser) {ss : List (Solution K)}
    (h : ∀ s ∈ ss, s.functionValue ≠ none) :
    ∃ best, a.reduceBest ss = .ok best ∧ (best = none ↔ ss = []) := by
  have hgo : ∀ (ss : List (Solution K)) (b : Solution K), b.functionValue ≠ none →
      (∀ s ∈ ss, s.functionValue ≠ none) → ∃ best, reduceBest.go a b ss = .ok (some best) := by
    intro ss
    induction ss with
    | nil => exact fun b _ _ => ⟨b, rfl⟩
    | cons s ss ih =>
        intro b hb hss
        have hs := hss s List.mem_cons_self
        obtain ⟨best, hbest, hor⟩ := a.getBestSolution_ok hb hs
        have hne : best.functionValue ≠ none := by
          rcases hor with rfl | rfl
          · exact hb
          · exact hs
        obtain ⟨last, hlast⟩ := ih best hne fun t ht => hss t (List.mem_cons_of_mem s ht)
        exact ⟨last, by simp [reduceBest.go, hbest, hlast]⟩
  cases ss with
  | nil => exact ⟨none, rfl, by simp⟩
  | cons s ss =>
      obtain ⟨best, hbest⟩ := hgo ss s (h s List.mem_cons_self)
        fun t ht => h t (List.mem_cons_of_mem s ht)
      exact ⟨some best, hbest, by simp⟩

theorem reduceBest_failure (a : SolutionAnalyser) {ss : List (Solution K)} {e : Failure}
    (h : a.reduceBest ss = .error e) : e.BadSolution := by
  have hgo : ∀ (ss : List (Solution K)) (b : Solution K),
      reduceBest.go a b ss = .error e → e.BadSolution := by
    intro ss
    induction ss with
    | nil => exact fun b hb => by simp [reduceBest.go] at hb
    | cons s ss ih =>
        intro b hb
        simp only [reduceBest.go] at hb
        split at hb
        next e' he =>
          obtain rfl : e' = e := by simpa using hb
          unfold getBestSolution at he
          split at he
          · simp at he
          · obtain rfl : Failure.nullPointer .functionValue = e' := by simpa using he
            trivial
        next best _ => exact ih best hb
  cases ss with
  | nil => simp [reduceBest] at h
  | cons s ss => exact hgo ss s h

theorem reduceBest_benchmark {ss : List (Solution K)} {best : Solution K}
    (h : benchmark.reduceBest ss = .ok (some best)) (hvalued : ∀ s ∈ ss, s.functionValue ≠ none) :
    best ∈ ss ∧
      ∀ s ∈ ss, ∀ v w, best.functionValue = some v → s.functionValue = some w → v ≤ w := by
  have hgo : ∀ (ss : List (Solution K)) (b : Solution K),
      reduceBest.go benchmark b ss = .ok (some best) →
      (∀ s ∈ b :: ss, s.functionValue ≠ none) →
      best ∈ b :: ss ∧
        ∀ s ∈ b :: ss, ∀ v w, best.functionValue = some v → s.functionValue = some w → v ≤ w := by
    intro ss
    induction ss with
    | nil =>
        intro b hb _
        obtain rfl : b = best := by simpa [reduceBest.go] using hb
        refine ⟨List.mem_cons_self, fun s hs v w hv hw => ?_⟩
        obtain rfl := List.mem_singleton.1 hs
        exact (Option.some.inj (hv.symm.trans hw)).le
    | cons t ts ih =>
        intro b hb hall
        obtain ⟨x, hx⟩ := Option.ne_none_iff_exists'.1 (hall b List.mem_cons_self)
        obtain ⟨y, hy⟩ := Option.ne_none_iff_exists'.1
          (hall t (List.mem_cons_of_mem b List.mem_cons_self))
        have hts : ∀ s ∈ ts, s.functionValue ≠ none := fun s hs =>
          hall s (List.mem_cons_of_mem b (List.mem_cons_of_mem t hs))
        by_cases hle : x ≤ y
        · have hbest : benchmark.getBestSolution b t = .ok b := by
            simp [getBestSolution, hx, hy, keepsLeft, hle]
          rw [reduceBest.go, hbest] at hb
          obtain ⟨hmem, hmin⟩ := ih b hb fun s hs => by
            rcases List.mem_cons.1 hs with rfl | hs
            · exact hall s List.mem_cons_self
            · exact hts s hs
          refine ⟨?_, fun s hs v w hv hw => ?_⟩
          · rcases List.mem_cons.1 hmem with rfl | hmem
            · exact List.mem_cons_self
            · exact List.mem_cons_of_mem b (List.mem_cons_of_mem t hmem)
          · rcases List.mem_cons.1 hs with rfl | hs
            · exact hmin s List.mem_cons_self v w hv hw
            · rcases List.mem_cons.1 hs with rfl | hs
              · obtain rfl : y = w := Option.some.inj (hy.symm.trans hw)
                exact (hmin b List.mem_cons_self v x hv hx).trans hle
              · exact hmin s (List.mem_cons_of_mem b hs) v w hv hw
        · have hbest : benchmark.getBestSolution b t = .ok t := by
            simp [getBestSolution, hx, hy, keepsLeft, hle]
          rw [reduceBest.go, hbest] at hb
          obtain ⟨hmem, hmin⟩ := ih t hb fun s hs => hall s (List.mem_cons_of_mem b hs)
          refine ⟨List.mem_cons_of_mem b hmem, fun s hs v w hv hw => ?_⟩
          rcases List.mem_cons.1 hs with rfl | hs
          · obtain rfl : x = w := Option.some.inj (hx.symm.trans hw)
            exact (hmin t List.mem_cons_self v y hv hy).trans (not_le.1 hle).le
          · exact hmin s hs v w hv hw
  cases ss with
  | nil => simp [reduceBest] at h
  | cons s ss => exact hgo ss s h hvalued

end SolutionAnalyser

end DOptimas.Core
