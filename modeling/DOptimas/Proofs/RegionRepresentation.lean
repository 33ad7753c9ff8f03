import DOptimas.Core.Analyser
import DOptimas.Core.Region
import DOptimas.Support.Rational
/-!
# What a region keeps in step

The list of solutions, the three accumulators and the best solution of a region
under any sequence of calls.  A collection that throws half-way leaves a
solution in the list that the accumulators lack, `clear` leaves the best
solution of the list it has emptied, and ties that are not transitive can leave
a best solution that is beaten.
-/

namespace DOptimas.Proofs.RegionRepresentation

open DOptimas.Support DOptimas.Core

variable {K : Type}

/-- The accumulators describe exactly the solutions of the list. -/
structure Counted (r : Region K) : Prop where
  stats_n : r.stats.getN = r.solutionList.length
  summary_n : r.summary.getN = r.solutionList.length
  searchSpaceSummary_n : r.searchSpaceSummary.getN = r.solutionList.length
  stats_values : r.stats.values.map some = r.solutionList.map Solution.functionValue
  summary_values : r.summary.values.map some = r.solutionList.map Solution.functionValue
  rows : r.searchSpaceSummary.rows.map some = r.solutionList.map Solution.toDoubleArray

structure Framed (r : Region K) : Prop where
  analyser : r.analyser = r.problem.analyser
  dimension : r.searchSpaceSummary.dimension = r.problem.dimension
  row_length : ∀ row ∈ r.searchSpaceSummary.rows, row.length = r.problem.dimension

theorem Counted.of_values {r : Region K}
    (hstats : r.stats.values.map some = r.solutionList.map Solution.functionValue)
    (hsummary : r.summary.values.map some = r.solutionList.map Solution.functionValue)
    (hrows : r.searchSpaceSummary.rows.map some = r.solutionList.map Solution.toDoubleArray) :
    Counted r :=
  { stats_n := by simpa [SummaryStatistics.getN] using congrArg List.length hstats
    summary_n := by simpa [SummaryStatistics.getN] using congrArg List.length hsummary
    searchSpaceSummary_n := by
      simpa [MultivariateSummaryStatistics.getN] using congrArg List.length hrows
    stats_values := hstats
    summary_values := hsummary
    rows := hrows }

theorem filterMap_of_map_some {α β : Type} {f : α → Option β} {xs : List α} {ys : List β}
    (h : ys.map some = xs.map f) : ys = xs.filterMap f := by
  have hfilter := congrArg (List.filterMap id) h
  simpa [List.filterMap_map] using hfilter

theorem map_some_filterMap {α β : Type} {f : α → Option β} {xs : List α}
    (h : ∀ x ∈ xs, f x ≠ none) : (xs.filterMap f).map some = xs.map f := by
  induction xs with
  | nil => rfl
  | cons x xs ih =>
      obtain ⟨y, hy⟩ := Option.ne_none_iff_exists'.1 (h x List.mem_cons_self)
      have htail := ih fun z hz => h z (List.mem_cons_of_mem x hz)
      simp [hy, htail]

theorem Counted.consistent {r : Region K} (h : Counted r) (hframe : Framed r) : r.Consistent := by
  refine ⟨fun s hs => ⟨?_, ?_⟩, filterMap_of_map_some h.stats_values,
    filterMap_of_map_some h.summary_values, hframe.dimension⟩
  · have hmem : s.functionValue ∈ r.stats.values.map some := by
      rw [h.stats_values]
      exact List.mem_map_of_mem hs
    obtain ⟨v, -, hv⟩ := List.mem_map.1 hmem
    simp [← hv]
  · have hmem : s.toDoubleArray ∈ r.searchSpaceSummary.rows.map some := by
      rw [h.rows]
      exact List.mem_map_of_mem hs
    obtain ⟨row, hrow, heq⟩ := List.mem_map.1 hmem
    exact ⟨row, heq.symm, hframe.row_length row hrow⟩

theorem Counted.of_consistent {r : Region K} (h : r.Consistent)
    (hrows : r.searchSpaceSummary.rows.map some = r.solutionList.map Solution.toDoubleArray) :
    Counted r := by
  have hvalued : ∀ s ∈ r.solutionList, s.functionValue ≠ none :=
    fun s hs => (h.storable s hs).functionValue_ne_none
  apply Counted.of_values
  · rw [h.stats_eq, map_some_filterMap hvalued]
  · rw [h.summary_eq, map_some_filterMap hvalued]
  · exact hrows

theorem Counted.clear (r : Region K) : Counted r.clear := ⟨rfl, rfl, rfl, rfl, rfl, rfl⟩

theorem Framed.clear {r : Region K} (h : Framed r) : Framed r.clear :=
  { analyser := h.analyser
    dimension := h.dimension
    row_length := fun row hrow => by
      simp [Region.clear, MultivariateSummaryStatistics.clear, MultivariateSummaryStatistics.new]
        at hrow }

/-! ## Adding solutions -/

theorem Framed.addSolution {r : Region K} (h : Framed r) (s : Solution K) :
    Framed (r.addSolution s).1 := by
  unfold Region.addSolution
  split
  · exact ⟨h.analyser, h.dimension, h.row_length⟩
  · split
    · exact ⟨h.analyser, h.dimension, h.row_length⟩
    next row _ =>
      dsimp only
      split
      · exact ⟨h.analyser, h.dimension, h.row_length⟩
      next t ht =>
        unfold MultivariateSummaryStatistics.addValue at ht
        split at ht
        next hlen =>
          obtain rfl : _ = t := Option.some.inj ht
          refine ⟨h.analyser, h.dimension, fun row' hrow' => ?_⟩
          rcases List.mem_append.1 hrow' with hrow' | hrow'
          · exact h.row_length row' hrow'
          · rw [List.mem_singleton.1 hrow']
            exact hlen.trans h.dimension
        · simp at ht

theorem Framed.addEach {r : Region K} (h : Framed r) (ss : List (Solution K)) :
    Framed (r.addEach ss).1 := by
  induction ss generalizing r with
  | nil => exact h
  | cons s ss ih =>
      have hadd := h.addSolution s
      unfold Region.addEach
      split
      next r' e heq => rwa [heq] at hadd
      next r' heq =>
        rw [heq] at hadd
        exact ih hadd

/-- The solution that makes a collection throw is in the list, but not in the
summary of the search space. -/
theorem addSolution_lengths (r : Region K) (s : Solution K) :
    (r.addSolution s).1.solutionList.length = r.solutionList.length + 1 ∧
      (r.addSolution s).1.searchSpaceSummary.getN =
        r.searchSpaceSummary.getN + if (r.addSolution s).2 = none then 1 else 0 := by
  cases hv : s.functionValue with
  | none => simp [Region.addSolution, hv]
  | some v =>
      cases hrow : s.toDoubleArray with
      | none => simp [Region.addSolution, hv, hrow]
      | some row =>
          by_cases hlen : row.length = r.searchSpaceSummary.dimension
          · simp [Region.addSolution, hv, hrow, MultivariateSummaryStatistics.addValue, hlen,
              MultivariateSummaryStatistics.getN]
          · simp [Region.addSolution, hv, hrow, MultivariateSummaryStatistics.addValue, hlen]

theorem addEach_lengths {r : Region K} {ss : List (Solution K)}
    (h : r.searchSpaceSummary.getN = r.solutionList.length) (hfail : (r.addEach ss).2 ≠ none) :
    (r.addEach ss).1.searchSpaceSummary.getN < (r.addEach ss).1.solutionList.length := by
  induction ss generalizing r with
  | nil => exact absurd rfl hfail
  | cons s ss ih =>
      obtain ⟨hlist, hrows⟩ := addSolution_lengths r s
      unfold Region.addEach at hfail ⊢
      split at hfail
      next r' e heq =>
        rw [heq] at hlist hrows
        simp only [reduceCtorEq, if_false] at hlist hrows ⊢
        omega
      next r' heq =>
        simp only [heq, if_true] at hlist hrows ⊢
        apply ih _ hfail
        omega

variable [RealArith K]

theorem Framed.addSolutionsCollection {r : Region K} (h : Framed r) (ss : List (Solution K)) :
    Framed (r.addSolutionsCollection ss).1 := by
  have hadd := h.addEach ss
  unfold Region.addSolutionsCollection
  split
  next r' e heq => rwa [heq] at hadd
  next r' heq =>
    rw [heq] at hadd
    split
    · exact hadd
    · dsimp only
      split
      · exact ⟨hadd.analyser, hadd.dimension, hadd.row_length⟩
      · exact ⟨hadd.analyser, hadd.dimension, hadd.row_length⟩

/-- The representation invariant of a region. -/
structure Represents (r : Region K) : Prop extends Counted r where
  bestSolution_none : r.bestSolution = none ↔ r.solutionList = []
  bestSolution_some : ∀ best, r.bestSolution = some best →
    best ∈ r.solutionList ∧ r.problem.analyser.Unbeaten r.solutionList best

theorem Represents.of_empty {r : Region K} (h : Counted r) (hlist : r.solutionList = [])
    (hbest : r.bestSolution = none) : Represents r :=
  { toCounted := h
    bestSolution_none := by simp [hlist, hbest]
    bestSolution_some := fun best heq => by simp [hbest] at heq }

theorem addSolutionsCollection_best {r : Region K} (hframe : Framed r) (hcount : Counted r)
    {ss : List (Solution K)} (hss : ∀ s ∈ ss, s.Storable r.problem.dimension) :
    Counted (r.addSolutionsCollection ss).1 ∧
      (r.addSolutionsCollection ss).1.solutionList = r.solutionList ++ ss ∧
      (r.addSolutionsCollection ss).1.problem = r.problem ∧
      match r.solutionList ++ ss with
      | [] => (r.addSolutionsCollection ss).1.bestSolution = r.bestSolution
      | s :: ss' => (r.addSolutionsCollection ss).1.bestSolution =
          some (select r.problem.analyser.keeps s ss') := by
  have hr := hcount.consistent hframe
  obtain ⟨r', hadd, hr', hlist, hsame, -⟩ := Region.addSolutionsCollection_storable hr hss
  obtain ⟨r₁, best, hadds, hreduce, rfl⟩ := Region.addSolutionsCollection_eq hadd
  obtain ⟨r₂, hadds₂, -, hlist₂, hbest₂, hsame₂⟩ := Region.addEach_storable hr hss
  obtain rfl : r₁ = r₂ := by simpa [hadds] using hadds₂
  have hrows := Region.addEach_rows hadds
  rw [hcount.rows, ← List.map_append, ← hlist₂] at hrows
  have hvalued : ∀ s ∈ r₁.solutionList, s.functionValue ≠ none :=
    fun s hs => (hr'.storable s hs).functionValue_ne_none
  rw [hadd]
  refine ⟨Counted.of_consistent hr' hrows, hlist, hsame.problem, ?_⟩
  rw [hlist₂, hsame₂.analyser, hframe.analyser] at hreduce
  rw [hlist₂] at hvalued
  split
  next heq =>
    rw [heq] at hreduce
    obtain rfl : none = best := by simpa [SolutionAnalyser.reduceBest] using hreduce
    exact hbest₂
  next s ss' heq =>
    rw [heq] at hreduce hvalued
    rw [SolutionAnalyser.reduceBest_eq_select _ hvalued] at hreduce
    obtain rfl : some _ = best := by simpa using hreduce
    rfl

/-- Adding to a region keeps its accumulators in step exactly when all of the
solutions are complete, and its best solution unbeaten exactly when the list settles. -/
theorem represents_addSolutionsCollection_iff {r : Region K} (hframe : Framed r)
    (hcount : Counted r) (ss : List (Solution K)) :
    Represents (r.addSolutionsCollection ss).1 ↔
      (∀ s ∈ ss, s.Storable r.problem.dimension) ∧
        (r.solutionList ++ ss = [] → r.bestSolution = none) ∧
        (r.solutionList ++ ss ≠ [] → r.problem.analyser.Settles (r.solutionList ++ ss)) := by
  by_cases hss : ∀ s ∈ ss, s.Storable r.problem.dimension
  · obtain ⟨hcount', hlist, hproblem, hbest⟩ := addSolutionsCollection_best hframe hcount hss
    split at hbest
    next heq =>
      rw [heq] at hlist
      constructor
      · intro h
        refine ⟨hss, fun _ => ?_, fun hne => absurd heq hne⟩
        rw [← hbest]
        exact h.bestSolution_none.2 hlist
      · rintro ⟨-, hnone, -⟩
        exact Represents.of_empty hcount' hlist (hbest.trans (hnone heq))
    next s ss' heq =>
      rw [heq] at hlist
      constructor
      · intro h
        obtain ⟨-, hunbeaten⟩ := h.bestSolution_some _ hbest
        rw [hlist, hproblem, SolutionAnalyser.unbeaten_select_iff] at hunbeaten
        refine ⟨hss, fun hnil => ?_, fun _ => heq ▸ hunbeaten⟩
        rw [heq] at hnil
        simp at hnil
      · rintro ⟨-, -, hsettles⟩
        have hunbeaten := hsettles (by simp [heq])
        rw [heq, ← SolutionAnalyser.unbeaten_select_iff] at hunbeaten
        refine { toCounted := hcount', bestSolution_none := ?_, bestSolution_some := ?_ }
        · simp [hbest, hlist]
        · intro best hsome
          obtain rfl : select _ s ss' = best := Option.some.inj (hbest.symm.trans hsome)
          rw [hlist, hproblem]
          exact ⟨select_mem _ s ss', hunbeaten⟩
  · constructor
    · intro h
      have hfail := Region.addEach_not_storable (hcount.consistent hframe) hss
      have hlt := addEach_lengths hcount.searchSpaceSummary_n hfail
      have heq : (r.addSolutionsCollection ss).1 = (r.addEach ss).1 := by
        unfold Region.addSolutionsCollection
        split
        next r' e hadd => rw [hadd]
        next r' hadd => exact absurd (by rw [hadd]) hfail
      have hn := h.searchSpaceSummary_n
      rw [heq] at hn
      omega
    · rintro ⟨hall, -⟩
      exact absurd hall hss

/-! ## Sequences of calls -/

variable [CommonsMath K]

inductive Call (K : Type) where
  | addSolutionsCollection (solutions : List (Solution K))
  | split
  | clear
  | getRandomSolutions (choices : List ℕ) (solutionsCount : ℤ)

def afterCall (r : Region K) : Call K → Region K
  | .addSolutionsCollection solutions => (r.addSolutionsCollection solutions).1
  | .split => r.split.1
  | .clear => r.clear
  | .getRandomSolutions _ _ => r

def states (r : Region K) : List (Call K) → List (Region K)
  | [] => [r]
  | c :: cs => r :: states (afterCall r c) cs

/-- What a region has to find for a call to keep it in order. -/
def Admits (r : Region K) : Call K → Prop
  | .addSolutionsCollection solutions =>
      (∀ s ∈ solutions, s.Storable r.problem.dimension) ∧
        (r.solutionList ++ solutions ≠ [] →
          r.problem.analyser.Settles (r.solutionList ++ solutions))
  | .split =>
      r.regionSettings.minSolutionsToSplit ≤ r.solutionList.length → r.solutionList ≠ [] →
        r.problem.analyser.Settles r.splitResult.middle
  | .clear => r.solutionList = []
  | .getRandomSolutions _ _ => True

def AllAdmitted (r : Region K) : List (Call K) → Prop
  | [] => True
  | c :: cs => Admits r c ∧ AllAdmitted (afterCall r c) cs

theorem Framed.split {r : Region K} (h : Framed r) : Framed r.split.1 := by
  unfold Region.split
  split
  · split
    · exact h
    · have hadd := h.clear.addSolutionsCollection r.splitResult.middle
      split
      next kept e heq => rwa [heq] at hadd
      next kept heq => rwa [heq] at hadd
  · exact h

theorem Framed.afterCall {r : Region K} (h : Framed r) (c : Call K) :
    Framed (afterCall r c) := by
  cases c with
  | addSolutionsCollection solutions => exact h.addSolutionsCollection solutions
  | split => exact h.split
  | clear => exact h.clear
  | getRandomSolutions choices solutionsCount => exact h

theorem splitResult_middle_nil {r : Region K} (h : r.solutionList = []) :
    r.splitResult.middle = [] := by
  simp [Region.splitResult, h]

theorem represents_split_iff {r : Region K} (hframe : Framed r) (h : Represents r) :
    Represents r.split.1 ↔ Admits r .split := by
  by_cases hsize : r.regionSettings.minSolutionsToSplit ≤ r.solutionList.length
  · have hr := h.toCounted.consistent hframe
    obtain ⟨kept, hadd, hsplit, -, -, -, -⟩ := Region.split_large hr hsize
    have hstorable : ∀ s ∈ r.splitResult.middle, s.Storable r.clear.problem.dimension :=
      fun s hs => hr.storable s (List.mem_filter.1 hs).1
    have hiff := represents_addSolutionsCollection_iff hframe.clear (Counted.clear r)
      r.splitResult.middle
    have hmiddle : r.clear.solutionList ++ r.splitResult.middle = r.splitResult.middle := rfl
    rw [hadd, hmiddle] at hiff
    rw [hsplit, hiff]
    constructor
    · rintro ⟨-, hnone, hsettles⟩ - hne
      apply hsettles
      intro hnil
      exact hne (h.bestSolution_none.1 (hnone hnil))
    · intro hadmits
      refine ⟨hstorable, fun hnil => ?_, fun hne => ?_⟩
      · refine h.bestSolution_none.2 (by_contra fun hlist => ?_)
        obtain ⟨before, s, after, hsettled, -, -⟩ := hadmits hsize hlist
        rw [hnil] at hsettled
        simp at hsettled
      · apply hadmits hsize
        intro hlist
        exact hne (splitResult_middle_nil hlist)
  · rw [Region.split_small hsize]
    constructor
    · intro _ hle
      exact absurd hle hsize
    · intro _
      exact h

/-- One call keeps a region in order exactly when the region admits it. -/
theorem represents_afterCall_iff {r : Region K} (hframe : Framed r) (h : Represents r)
    (c : Call K) : Represents (afterCall r c) ↔ Admits r c := by
  cases c with
  | addSolutionsCollection solutions =>
      have hiff := represents_addSolutionsCollection_iff hframe h.toCounted solutions
      have hnone : r.solutionList ++ solutions = [] → r.bestSolution = none :=
        fun hnil => h.bestSolution_none.2 (List.append_eq_nil_iff.1 hnil).1
      show Represents (r.addSolutionsCollection solutions).1 ↔ _
      rw [hiff]
      constructor
      · rintro ⟨hall, -, hsettles⟩
        exact ⟨hall, hsettles⟩
      · rintro ⟨hall, hsettles⟩
        exact ⟨hall, hnone, hsettles⟩
  | split => exact represents_split_iff hframe h
  | clear =>
      constructor
      · intro hclear
        exact h.bestSolution_none.1 (hclear.bestSolution_none.2 rfl)
      · intro hlist
        exact Represents.of_empty (Counted.clear r) rfl (h.bestSolution_none.2 hlist)
  | getRandomSolutions choices solutionsCount =>
      constructor
      · intro _
        trivial
      · intro _
        exact h

theorem states_iff {r : Region K} (hframe : Framed r) (h : Represents r) (calls : List (Call K)) :
    (∀ r' ∈ states r calls, Represents r') ↔ AllAdmitted r calls := by
  induction calls generalizing r with
  | nil => simp [states, AllAdmitted, h]
  | cons c cs ih =>
      have hstep := represents_afterCall_iff hframe h c
      have hframe' := hframe.afterCall c
      rw [states, AllAdmitted, List.forall_mem_cons]
      constructor
      · rintro ⟨-, hrest⟩
        have hafter : Represents (afterCall r c) := by
          apply hrest
          cases cs with
          | nil => exact List.mem_singleton_self _
          | cons c' cs => exact List.mem_cons_self
        exact ⟨hstep.1 hafter, (ih hframe' hafter).1 hrest⟩
      · rintro ⟨hadmits, hrest⟩
        have hafter := hstep.2 hadmits
        exact ⟨h, (ih hframe' hafter).2 hrest⟩

/-- A region is in order throughout a sequence of calls exactly when it admits
each of them. -/
theorem new_states_iff (id : ℕ) (problem : Problem) (settings : RegionSettings)
    (calls : List (Call K)) :
    (∀ r ∈ states (Region.new id problem settings) calls, Represents r) ↔
      AllAdmitted (Region.new id problem settings) calls := by
  refine states_iff ⟨rfl, rfl, fun row hrow => ?_⟩ ?_ calls
  · simp [Region.new, MultivariateSummaryStatistics.new] at hrow
  · exact Represents.of_empty ⟨rfl, rfl, rfl, rfl, rfl, rfl⟩ rfl rfl

section Example

def plane : Problem := ⟨1, 1, .benchmark⟩

def onLine (x : ℚ) : Solution ℚ :=
  { id := 0, agent := none, solutionsVector := [some x], functionValue := some x
    viable := true, changed := false }

def offLine : Solution ℚ := { onLine 2 with solutionsVector := [some 2, some 2] }

/-- The collection throws at its second solution, which the list keeps. -/
theorem dimension_mismatch_breaks :
    ∃ r ∈ states (Region.new 1 plane ⟨1, 10⟩) [.addSolutionsCollection [onLine 1, offLine]],
      ¬Represents r ∧ r.solutionList.length = 2 ∧ r.stats.getN = 2 ∧
        r.searchSpaceSummary.getN = 1 ∧ r.bestSolution = none := by
  refine ⟨_, List.mem_cons_of_mem _ (List.mem_singleton_self _), fun h => ?_, rfl, rfl, rfl, rfl⟩
  have hn : (1 : ℕ) = 2 := h.searchSpaceSummary_n
  omega

/-- Clearing leaves the best solution of the list it has emptied. -/
example : (afterCall (afterCall (Region.new 1 plane ⟨1, 10⟩)
    (.addSolutionsCollection [onLine 1])) .clear).bestSolution = some (onLine 1) := rfl

end Example

end DOptimas.Proofs.RegionRepresentation
