import DOptimas.Core.Solution
import DOptimas.Support.Statistics
/-!
# Regions

The container of solutions that a region actor owns, with its incremental
statistics.  A mutator that throws half-way returns the state it has left behind
together with the failure.
-/

namespace DOptimas.Core

open DOptimas.Support

variable {K : Type}

def variationRate [RealArith K] (summary : StatisticalSummary K) : JDouble K :=
  (summary.standardDeviation.div summary.mean).abs

structure RegionSettings where
  minRegions : ℤ
  minSolutionsToSplit : ℤ
  deriving DecidableEq

structure Region (K : Type) where
  id : ℕ
  regionSettings : RegionSettings
  solutionList : List (Solution K)
  problem : Problem
  stats : SummaryStatistics K
  summary : SummaryStatistics K
  searchSpaceSummary : MultivariateSummaryStatistics K
  analyser : SolutionAnalyser
  bestSolution : Option (Solution K)
  deriving DecidableEq

structure SplitResult (K : Type) where
  lower : List (Solution K)
  higher : List (Solution K)
  middle : List (Solution K)

namespace Region

def new (id : ℕ) (problem : Problem) (settings : RegionSettings) : Region K :=
  { id
    regionSettings := settings
    solutionList := []
    problem
    stats := .new
    summary := .new
    searchSpaceSummary := .new problem.dimension
    analyser := problem.analyser
    bestSolution := none }

def clear (r : Region K) : Region K :=
  { r with
    solutionList := []
    stats := r.stats.clear
    summary := r.summary.clear
    searchSpaceSummary := r.searchSpaceSummary.clear }

def addSolution (r : Region K) (s : Solution K) : Region K × Option Failure :=
  let r := { r with solutionList := r.solutionList ++ [s] }
  match s.functionValue with
  | none => (r, some (.nullPointer .functionValue))
  | some v =>
      let r := { r with stats := r.stats.addValue v, summary := r.summary.addValue v }
      match s.toDoubleArray with
      | none => (r, some (.nullPointer .element))
      | some row =>
          match r.searchSpaceSummary.addValue row with
          | none => (r, some .dimensionMismatch)
          | some t => ({ r with searchSpaceSummary := t }, none)

def addEach (r : Region K) : List (Solution K) → Region K × Option Failure
  | [] => (r, none)
  | s :: ss =>
      match r.addSolution s with
      | (r, some e) => (r, some e)
      | (r, none) => addEach r ss

/-- The values are read once more, for the log, after the best solution is set. -/
def addSolutionsCollection [RealArith K] (r : Region K) (solutions : List (Solution K)) :
    Region K × Option Failure :=
  match r.addEach solutions with
  | (r, some e) => (r, some e)
  | (r, none) =>
      match r.analyser.reduceBest r.solutionList with
      | .error e => (r, some e)
      | .ok best =>
          let r := { r with bestSolution := best.or r.bestSolution }
          if r.solutionList.any fun s => s.functionValue.isNone then
            (r, some (.nullPointer .functionValue))
          else (r, none)

def getRandomSolutions (r : Region K) (choices : List ℕ) (solutionsCount : ℤ) :
    Option (List (Solution K)) :=
  nextSample choices r.solutionList solutionsCount

/-- Where `split` puts a solution, given the mean and the deviation. -/
def isLower [RealArith K] (mean std : JDouble K) (s : Solution K) : Bool :=
  match s.functionValue with
  | none => false
  | some v => (JDouble.fin v).lt (mean.sub std)

def isHigher [RealArith K] (mean std : JDouble K) (s : Solution K) : Bool :=
  match s.functionValue with
  | none => false
  | some v => !(JDouble.fin v).lt (mean.sub std) && (mean.add std).lt (JDouble.fin v)

def splitResult [RealArith K] [CommonsMath K] (r : Region K) : SplitResult K :=
  let mean := CommonsMath.mean r.stats.values
  let std := CommonsMath.standardDeviation r.stats.values
  { lower := r.solutionList.filter fun s => isLower mean std s
    higher := r.solutionList.filter fun s => isHigher mean std s
    middle := r.solutionList.filter fun s => !isLower mean std s && !isHigher mean std s }

/-- The region keeps the middle solutions and returns the other two lists, both
of them empty when the region is too small to split. -/
def split [RealArith K] [CommonsMath K] (r : Region K) :
    Region K × Except Failure (List (List (Solution K))) :=
  if r.regionSettings.minSolutionsToSplit ≤ r.solutionList.length then
    if r.solutionList.any fun s => s.functionValue.isNone then
      (r, .error (.nullPointer .functionValue))
    else
      match r.clear.addSolutionsCollection r.splitResult.middle with
      | (kept, some e) => (kept, .error e)
      | (kept, none) => (kept, .ok [r.splitResult.lower, r.splitResult.higher])
  else (r, .ok [[], []])

/-! ## What a region holds -/

/-- The representation invariant: the statistics are those of the solutions the
region holds, and every one of them is complete. -/
structure Consistent (r : Region K) : Prop where
  storable : ∀ s ∈ r.solutionList, s.Storable r.problem.dimension
  stats_eq : r.stats.values = r.solutionList.filterMap Solution.functionValue
  summary_eq : r.summary.values = r.solutionList.filterMap Solution.functionValue
  dimension_eq : r.searchSpaceSummary.dimension = r.problem.dimension

structure SameRegion (r r' : Region K) : Prop where
  id : r'.id = r.id
  regionSettings : r'.regionSettings = r.regionSettings
  problem : r'.problem = r.problem
  analyser : r'.analyser = r.analyser

theorem SameRegion.refl (r : Region K) : SameRegion r r := ⟨rfl, rfl, rfl, rfl⟩

theorem SameRegion.trans {r r' r'' : Region K} (h : SameRegion r r') (h' : SameRegion r' r'') :
    SameRegion r r'' :=
  ⟨h'.id.trans h.id, h'.regionSettings.trans h.regionSettings, h'.problem.trans h.problem,
    h'.analyser.trans h.analyser⟩

theorem consistent_new (id : ℕ) (problem : Problem) (settings : RegionSettings) :
    (new id problem settings : Region K).Consistent :=
  ⟨by simp [new], rfl, rfl, rfl⟩

theorem Consistent.clear {r : Region K} (h : r.Consistent) : r.clear.Consistent :=
  ⟨by simp [Region.clear], rfl, rfl, h.dimension_eq⟩

theorem addSolution_storable {r : Region K} {s : Solution K} (hr : r.Consistent)
    (h : s.Storable r.problem.dimension) :
    ∃ r', r.addSolution s = (r', none) ∧ r'.Consistent ∧
      r'.solutionList = r.solutionList ++ [s] ∧ r'.bestSolution = r.bestSolution ∧
      SameRegion r r' := by
  obtain ⟨v, hv⟩ := Option.isSome_iff_exists.1 h.1
  obtain ⟨row, hrow, hlen⟩ := h.2
  have hdim : row.length = r.searchSpaceSummary.dimension := hlen.trans hr.dimension_eq.symm
  refine ⟨{ r with
    solutionList := r.solutionList ++ [s]
    stats := r.stats.addValue v
    summary := r.summary.addValue v
    searchSpaceSummary := { r.searchSpaceSummary with
      rows := r.searchSpaceSummary.rows ++ [row] } }, ?_, ?_, rfl, rfl, ⟨rfl, rfl, rfl, rfl⟩⟩
  · simp [addSolution, hv, hrow, MultivariateSummaryStatistics.addValue, hdim]
  · constructor
    · intro t ht
      rcases List.mem_append.1 ht with ht | ht
      · exact hr.storable t ht
      · rwa [List.mem_singleton.1 ht]
    · simp [hr.stats_eq, hv]
    · simp [hr.summary_eq, hv]
    · exact hr.dimension_eq

theorem addSolution_not_storable {r : Region K} {s : Solution K} (hr : r.Consistent)
    (h : ¬s.Storable r.problem.dimension) : (r.addSolution s).2 ≠ none := by
  unfold addSolution
  split
  · simp
  next v hv =>
    split
    · simp
    next row hrow =>
      have hlen : row.length ≠ r.searchSpaceSummary.dimension := by
        intro hlen
        exact h ⟨by simp [hv], row, hrow, hlen.trans hr.dimension_eq⟩
      simp [MultivariateSummaryStatistics.addValue, hlen]

theorem addEach_storable {r : Region K} {ss : List (Solution K)} (hr : r.Consistent)
    (h : ∀ s ∈ ss, s.Storable r.problem.dimension) :
    ∃ r', r.addEach ss = (r', none) ∧ r'.Consistent ∧
      r'.solutionList = r.solutionList ++ ss ∧ r'.bestSolution = r.bestSolution ∧
      SameRegion r r' := by
  induction ss generalizing r with
  | nil => exact ⟨r, rfl, hr, by simp, rfl, SameRegion.refl r⟩
  | cons s ss ih =>
      obtain ⟨r₁, hadd, hr₁, hlist₁, hbest₁, hsame₁⟩ :=
        addSolution_storable hr (h s List.mem_cons_self)
      have hrest : ∀ t ∈ ss, t.Storable r₁.problem.dimension := by
        intro t ht
        rw [hsame₁.problem]
        exact h t (List.mem_cons_of_mem s ht)
      obtain ⟨r₂, hadds, hr₂, hlist₂, hbest₂, hsame₂⟩ := ih hr₁ hrest
      refine ⟨r₂, ?_, hr₂, ?_, hbest₂.trans hbest₁, hsame₁.trans hsame₂⟩
      · simp [addEach, hadd, hadds]
      · rw [hlist₂, hlist₁, List.append_assoc, List.singleton_append]

theorem addEach_not_storable {r : Region K} {ss : List (Solution K)} (hr : r.Consistent)
    (h : ¬∀ s ∈ ss, s.Storable r.problem.dimension) : (r.addEach ss).2 ≠ none := by
  induction ss generalizing r with
  | nil => simp at h
  | cons s ss ih =>
      by_cases hs : s.Storable r.problem.dimension
      · obtain ⟨r₁, hadd, hr₁, -, -, hsame₁⟩ := addSolution_storable hr hs
        have hrest : ¬∀ t ∈ ss, t.Storable r₁.problem.dimension := by
          intro hrest
          rw [hsame₁.problem] at hrest
          exact h fun t ht => by
            rcases List.mem_cons.1 ht with rfl | ht
            · exact hs
            · exact hrest t ht
        simpa [addEach, hadd] using ih hr₁ hrest
      · have hfail := addSolution_not_storable hr hs
        unfold addEach
        split
        next r' e heq => simp
        next r' heq => simp [heq] at hfail

theorem addSolutionsCollection_storable [RealArith K] {r : Region K} {ss : List (Solution K)}
    (hr : r.Consistent) (h : ∀ s ∈ ss, s.Storable r.problem.dimension) :
    ∃ r', r.addSolutionsCollection ss = (r', none) ∧ r'.Consistent ∧
      r'.solutionList = r.solutionList ++ ss ∧ SameRegion r r' ∧
      (r'.bestSolution = none ↔ r.bestSolution = none ∧ r'.solutionList = []) := by
  obtain ⟨r₁, hadds, hr₁, hlist, hbest, hsame⟩ := addEach_storable hr h
  have hvalues : ∀ s ∈ r₁.solutionList, s.functionValue ≠ none :=
    fun s hs => (hr₁.storable s hs).functionValue_ne_none
  have hvalued : (r₁.solutionList.any fun s => s.functionValue.isNone) = false := by
    rw [List.any_eq_false]
    intro s hs
    simpa using hvalues s hs
  obtain ⟨best, hreduce, hempty⟩ := r₁.analyser.reduceBest_ok hvalues
  refine ⟨{ r₁ with bestSolution := best.or r₁.bestSolution }, ?_, ?_, hlist, ?_, ?_⟩
  · simp [addSolutionsCollection, hadds, hreduce, hvalued]
  · exact ⟨hr₁.storable, hr₁.stats_eq, hr₁.summary_eq, hr₁.dimension_eq⟩
  · exact ⟨hsame.id, hsame.regionSettings, hsame.problem, hsame.analyser⟩
  · cases best with
    | none => simp [hbest, hempty.1 rfl]
    | some b =>
        have hne : r₁.solutionList ≠ [] := fun hnil => by simpa using hempty.2 hnil
        simp [hne]

theorem addSolutionsCollection_not_storable [RealArith K] {r : Region K} {ss : List (Solution K)}
    (hr : r.Consistent) (h : ¬∀ s ∈ ss, s.Storable r.problem.dimension) :
    (r.addSolutionsCollection ss).2 ≠ none := by
  have hfail := addEach_not_storable hr h
  unfold addSolutionsCollection
  split
  next r' e heq => simp
  next r' heq => simp [heq] at hfail

theorem addSolution_failure {r : Region K} {s : Solution K} {e : Failure}
    (h : (r.addSolution s).2 = some e) : e.BadSolution := by
  unfold addSolution at h
  split at h
  · obtain rfl : Failure.nullPointer .functionValue = e := by simpa using h
    trivial
  · split at h
    · obtain rfl : Failure.nullPointer .element = e := by simpa using h
      trivial
    · dsimp only at h
      split at h
      · obtain rfl : Failure.dimensionMismatch = e := by simpa using h
        trivial
      · simp at h

theorem addEach_failure {r : Region K} {ss : List (Solution K)} {e : Failure}
    (h : (r.addEach ss).2 = some e) : e.BadSolution := by
  induction ss generalizing r with
  | nil => simp [addEach] at h
  | cons s ss ih =>
      unfold addEach at h
      split at h
      next r' e' heq =>
        obtain rfl : e' = e := by simpa using h
        exact addSolution_failure (by rw [heq])
      next r' heq => exact ih h

theorem addSolutionsCollection_failure [RealArith K] {r : Region K} {ss : List (Solution K)}
    {e : Failure} (h : (r.addSolutionsCollection ss).2 = some e) : e.BadSolution := by
  unfold addSolutionsCollection at h
  split at h
  next r' e' heq =>
    obtain rfl : e' = e := by simpa using h
    exact addEach_failure (by rw [heq])
  next r' heq =>
    split at h
    next e' hreduce =>
      obtain rfl : e' = e := by simpa using h
      exact SolutionAnalyser.reduceBest_failure _ hreduce
    · dsimp only at h
      split at h
      · obtain rfl : Failure.nullPointer .functionValue = e := by simpa using h
        trivial
      · simp at h

theorem splitResult_perm [RealArith K] [CommonsMath K] (r : Region K) :
    (r.splitResult.lower ++ r.splitResult.higher ++ r.splitResult.middle).Perm
      r.solutionList := by
  have hperm : ∀ (low high : Solution K → Bool) (ss : List (Solution K)),
      (∀ s, high s → low s = false) →
      (ss.filter low ++ ss.filter high ++ ss.filter fun s => !low s && !high s).Perm ss := by
    intro low high ss hdisj
    have hlow := List.filter_append_perm low ss
    have hhigh := List.filter_append_perm high (ss.filter fun s => !low s)
    have heq : (ss.filter fun s => !low s).filter high = ss.filter high := by
      rw [List.filter_filter]
      refine List.filter_congr fun s _ => ?_
      cases hs : high s with
      | false => simp
      | true => simp [hdisj s hs]
    have hmid : (ss.filter fun s => !low s).filter (fun s => !high s) =
        ss.filter fun s => !low s && !high s := by
      rw [List.filter_filter]
      refine List.filter_congr fun s _ => ?_
      rw [Bool.and_comm]
    rw [heq, hmid] at hhigh
    rw [List.append_assoc]
    exact (List.Perm.append_left _ hhigh).trans hlow
  refine hperm _ _ r.solutionList fun s hs => ?_
  cases hv : s.functionValue with
  | none => simp [isLower, hv]
  | some v =>
      simp only [isHigher, hv, Bool.and_eq_true, Bool.not_eq_true'] at hs
      simp only [isLower, hv]
      exact hs.1

theorem split_small [RealArith K] [CommonsMath K] {r : Region K}
    (h : ¬r.regionSettings.minSolutionsToSplit ≤ r.solutionList.length) :
    r.split = (r, .ok [[], []]) := by
  simp [split, h]

theorem split_large [RealArith K] [CommonsMath K] {r : Region K} (hr : r.Consistent)
    (hsize : r.regionSettings.minSolutionsToSplit ≤ r.solutionList.length) :
    ∃ kept, r.clear.addSolutionsCollection r.splitResult.middle = (kept, none) ∧
      r.split = (kept, .ok [r.splitResult.lower, r.splitResult.higher]) ∧ kept.Consistent ∧
      SameRegion r kept ∧ kept.solutionList = r.splitResult.middle ∧
      (kept.bestSolution = none → r.bestSolution = none) := by
  have hvalued : (r.solutionList.any fun s => s.functionValue.isNone) = false := by
    rw [List.any_eq_false]
    intro s hs
    simpa using (hr.storable s hs).functionValue_ne_none
  have hmiddle : ∀ s ∈ r.splitResult.middle, s.Storable r.clear.problem.dimension := by
    intro s hs
    exact hr.storable s (List.mem_filter.1 hs).1
  obtain ⟨kept, hadd, hkept, hlist, hsame, hbest⟩ :=
    addSolutionsCollection_storable hr.clear hmiddle
  refine ⟨kept, hadd, ?_, hkept, ?_, by simpa [clear] using hlist, fun hnone => (hbest.1 hnone).1⟩
  · simp [split, hsize, hvalued, hadd]
  · exact ⟨hsame.id, hsame.regionSettings, hsame.problem, hsame.analyser⟩

/-- A region in order splits without failing and keeps a region in order. -/
theorem split_consistent [RealArith K] [CommonsMath K] {r : Region K} (hr : r.Consistent) :
    ∃ kept lower higher, r.split = (kept, .ok [lower, higher]) ∧ kept.Consistent ∧
      SameRegion r kept ∧ (lower ++ higher ++ kept.solutionList).Perm r.solutionList ∧
      (kept.bestSolution = none → r.bestSolution = none) := by
  by_cases hsize : r.regionSettings.minSolutionsToSplit ≤ r.solutionList.length
  · obtain ⟨kept, -, hsplit, hkept, hsame, hlist, hbest⟩ := split_large hr hsize
    refine ⟨kept, r.splitResult.lower, r.splitResult.higher, hsplit, hkept, hsame, ?_, hbest⟩
    rw [hlist]
    exact r.splitResult_perm
  · exact ⟨r, [], [], split_small hsize, hr, SameRegion.refl r, by simp, fun hnone => hnone⟩

theorem addSolution_rows {r r' : Region K} {s : Solution K} (h : r.addSolution s = (r', none)) :
    r'.searchSpaceSummary.rows.map some =
      r.searchSpaceSummary.rows.map some ++ [s.toDoubleArray] := by
  unfold addSolution at h
  split at h
  · simp at h
  · split at h
    · simp at h
    next row hrow =>
      dsimp only at h
      split at h
      · simp at h
      next t ht =>
        obtain rfl : _ = r' := congrArg Prod.fst h
        unfold MultivariateSummaryStatistics.addValue at ht
        split at ht
        · obtain rfl : _ = t := Option.some.inj ht
          simp [hrow]
        · simp at ht

theorem addEach_rows {r r' : Region K} {ss : List (Solution K)} (h : r.addEach ss = (r', none)) :
    r'.searchSpaceSummary.rows.map some =
      r.searchSpaceSummary.rows.map some ++ ss.map Solution.toDoubleArray := by
  induction ss generalizing r with
  | nil =>
      obtain rfl : r = r' := congrArg Prod.fst h
      simp
  | cons s ss ih =>
      unfold addEach at h
      split at h
      · simp at h
      next r₁ hadd =>
        rw [ih h, addSolution_rows hadd, List.append_assoc, List.map_cons, List.singleton_append]

theorem addSolutionsCollection_eq [RealArith K] {r r' : Region K} {ss : List (Solution K)}
    (h : r.addSolutionsCollection ss = (r', none)) :
    ∃ r₁ best, r.addEach ss = (r₁, none) ∧ r₁.analyser.reduceBest r₁.solutionList = .ok best ∧
      r' = { r₁ with bestSolution := best.or r₁.bestSolution } := by
  unfold addSolutionsCollection at h
  split at h
  · simp at h
  next r₁ hadd =>
    split at h
    · simp at h
    next best hbest =>
      dsimp only at h
      split at h
      · simp at h
      · exact ⟨r₁, best, hadd, hbest, (congrArg Prod.fst h).symm⟩

theorem Consistent.getN_summary {r : Region K} (h : r.Consistent) :
    r.summary.getN = r.solutionList.length := by
  have hall : ∀ ss : List (Solution K), (∀ s ∈ ss, s.functionValue ≠ none) →
      (ss.filterMap Solution.functionValue).length = ss.length := by
    intro ss hss
    induction ss with
    | nil => rfl
    | cons s ss ih =>
        obtain ⟨v, hv⟩ := Option.ne_none_iff_exists'.1 (hss s List.mem_cons_self)
        have htail := ih fun t ht => hss t (List.mem_cons_of_mem s ht)
        simp [hv, htail]
  rw [SummaryStatistics.getN, h.summary_eq]
  exact hall r.solutionList fun s hs => (h.storable s hs).functionValue_ne_none

end Region

end DOptimas.Core
