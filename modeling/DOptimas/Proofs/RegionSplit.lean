import DOptimas.Actors.RegionInvariant
import DOptimas.Support.ExactStatistics
import DOptimas.Support.Rational
/-!
# Splitting a region

What `Region.split` keeps and hands out, and what a region that varies more than
the whole system announces.  A region that is too small to split hands out two
empty lists, which its actor takes for a split.
-/

namespace DOptimas.Proofs.RegionSplit

open DOptimas.Support DOptimas.Core DOptimas.Actors DOptimas.Actors.RegionActor

variable {K : Type} [RealArith K] [CommonsMath K]

/-! ## The partition -/

/-- `kept`, `lower` and `higher` partition the solutions of `r` around the mean,
and everything that `kept` reports is about what it keeps. -/
structure Partitioned (r kept : Region K) (lower higher : List (Solution K)) (mean std : K) :
    Prop where
  perm : (lower ++ higher ++ kept.solutionList).Perm r.solutionList
  lower_order : lower.Sublist r.solutionList
  higher_order : higher.Sublist r.solutionList
  kept_order : kept.solutionList.Sublist r.solutionList
  lower_value : ∀ s ∈ lower, ∃ v, s.functionValue = some v ∧ v < mean - std
  kept_value : ∀ s ∈ kept.solutionList,
    ∃ v, s.functionValue = some v ∧ mean - std ≤ v ∧ v ≤ mean + std
  higher_value : ∀ s ∈ higher, ∃ v, s.functionValue = some v ∧ mean + std < v
  kept_ne_nil : kept.solutionList ≠ []
  consistent : kept.Consistent
  stats_n : kept.stats.getN = kept.solutionList.length
  summary_n : kept.summary.getN = kept.solutionList.length
  rows : kept.searchSpaceSummary.rows.map some = kept.solutionList.map Solution.toDoubleArray
  best : r.analyser = .benchmark → ∃ best ∈ kept.solutionList, kept.bestSolution = some best ∧
    ∀ s ∈ kept.solutionList, ∀ v w, best.functionValue = some v → s.functionValue = some w → v ≤ w

variable {r : Region K} {mean std : K}

omit [CommonsMath K] in
theorem isLower_iff {s : Solution K} :
    Region.isLower (.fin mean) (.fin std) s = true ↔
      ∃ v, s.functionValue = some v ∧ v < mean - std := by
  cases hv : s.functionValue with
  | none => simp [Region.isLower, hv]
  | some v =>
      simp [Region.isLower, hv, JDouble.sub, JDouble.neg, JDouble.add, JDouble.lt, sub_eq_add_neg]

omit [CommonsMath K] in
theorem isHigher_iff {s : Solution K} (hstd : 0 ≤ std) :
    Region.isHigher (.fin mean) (.fin std) s = true ↔
      ∃ v, s.functionValue = some v ∧ mean + std < v := by
  cases hv : s.functionValue with
  | none => simp [Region.isHigher, hv]
  | some v =>
      have hdisjoint : mean + std < v → mean + -std ≤ v := fun h => by linarith
      simpa [Region.isHigher, hv, JDouble.sub, JDouble.neg, JDouble.add, JDouble.lt] using hdisjoint

omit [RealArith K] [CommonsMath K] in
theorem exists_solution_of_value {x : K} (hr : r.Consistent) (hx : x ∈ r.stats.values) :
    ∃ s ∈ r.solutionList, s.functionValue = some x := by
  rw [hr.stats_eq] at hx
  exact List.mem_filterMap.1 hx

omit [RealArith K] [CommonsMath K] in
theorem values_ne_nil (hr : r.Consistent) (hne : r.solutionList ≠ []) : r.stats.values ≠ [] := by
  obtain ⟨s, hs⟩ := List.exists_mem_of_ne_nil _ hne
  obtain ⟨v, hv⟩ := Option.ne_none_iff_exists'.1 (hr.storable s hs).functionValue_ne_none
  have hmem : v ∈ r.stats.values := by
    rw [hr.stats_eq]
    exact List.mem_filterMap.2 ⟨s, hs, hv⟩
  exact List.ne_nil_of_mem hmem

omit [CommonsMath K] in
/-- After the solutions of a benchmark region have been replaced, the best
solution is one of minimal value. -/
theorem best_of_addSolutionsCollection {r₀ kept : Region K} {ss : List (Solution K)}
    (h : r₀.addSolutionsCollection ss = (kept, none)) (hkept : kept.Consistent)
    (hne : kept.solutionList ≠ []) (hanalyser : kept.analyser = .benchmark) :
    ∃ best ∈ kept.solutionList, kept.bestSolution = some best ∧
      ∀ s ∈ kept.solutionList, ∀ v w, best.functionValue = some v → s.functionValue = some w →
        v ≤ w := by
  obtain ⟨r₁, found, -, hreduce, rfl⟩ := Region.addSolutionsCollection_eq h
  have hvalued : ∀ s ∈ r₁.solutionList, s.functionValue ≠ none := fun s hs =>
    (hkept.storable s hs).functionValue_ne_none
  obtain ⟨found', hfound, hempty⟩ := r₁.analyser.reduceBest_ok hvalued
  obtain rfl : found = found' := by simpa [hreduce] using hfound
  cases found with
  | none => exact absurd (hempty.1 rfl) hne
  | some best =>
      rw [show r₁.analyser = .benchmark from hanalyser] at hreduce
      obtain ⟨hmem, hmin⟩ := SolutionAnalyser.reduceBest_benchmark hreduce hvalued
      exact ⟨best, hmem, rfl, hmin⟩

omit [CommonsMath K] in
theorem rows_of_addSolutionsCollection {kept : Region K} {ss : List (Solution K)}
    (h : r.clear.addSolutionsCollection ss = (kept, none)) :
    kept.searchSpaceSummary.rows.map some = ss.map Solution.toDoubleArray := by
  obtain ⟨r₁, found, hadd, -, rfl⟩ := Region.addSolutionsCollection_eq h
  have hrows := Region.addEach_rows hadd
  simpa [Region.clear, MultivariateSummaryStatistics.clear, MultivariateSummaryStatistics.new]
    using hrows

/-- Splitting a region of sufficient size partitions its solutions around the
mean and keeps at least one of them. -/
theorem split_partitions [ExactStatistics K] (hr : r.Consistent) (hne : r.solutionList ≠ [])
    (hsize : r.regionSettings.minSolutionsToSplit ≤ r.solutionList.length) :
    ∃ mean std kept lower higher, CommonsMath.mean r.stats.values = .fin mean ∧
      CommonsMath.standardDeviation r.stats.values = .fin std ∧
      r.split = (kept, .ok [lower, higher]) ∧ Partitioned r kept lower higher mean std := by
  obtain ⟨mean, std, hmean, hstd, hnonneg, x, hx, hlow, hhigh⟩ :=
    exact_estimators (values_ne_nil hr hne)
  obtain ⟨kept, hadd, hsplit, hkept, hsame, hlist, -⟩ := Region.split_large hr hsize
  have hlower : ∀ s, s ∈ r.splitResult.lower ↔
      s ∈ r.solutionList ∧ ∃ v, s.functionValue = some v ∧ v < mean - std := by
    intro s
    rw [Region.splitResult, List.mem_filter, hmean, hstd, isLower_iff]
  have hhigher : ∀ s, s ∈ r.splitResult.higher ↔
      s ∈ r.solutionList ∧ ∃ v, s.functionValue = some v ∧ mean + std < v := by
    intro s
    rw [Region.splitResult, List.mem_filter, hmean, hstd, isHigher_iff hnonneg]
  have hmiddle : ∀ s v, s.functionValue = some v →
      (s ∈ r.splitResult.middle ↔ s ∈ r.solutionList ∧ mean - std ≤ v ∧ v ≤ mean + std) := by
    intro s v hv
    have hl : Region.isLower (.fin mean) (.fin std) s = true ↔ v < mean - std := by
      simp [isLower_iff, hv]
    have hh : Region.isHigher (.fin mean) (.fin std) s = true ↔ mean + std < v := by
      simp [isHigher_iff hnonneg, hv]
    rw [Region.splitResult, List.mem_filter, hmean, hstd, Bool.and_eq_true, Bool.not_eq_true',
      Bool.not_eq_true', ← Bool.not_eq_true, ← Bool.not_eq_true, hl, hh, not_lt, not_lt]
  have hkeptValue : ∀ s ∈ kept.solutionList,
      ∃ v, s.functionValue = some v ∧ mean - std ≤ v ∧ v ≤ mean + std := by
    intro s hs
    obtain ⟨v, hv⟩ := Option.ne_none_iff_exists'.1 (hkept.storable s hs).functionValue_ne_none
    rw [hlist] at hs
    exact ⟨v, hv, ((hmiddle s v hv).1 hs).2⟩
  have hkeptNe : kept.solutionList ≠ [] := by
    obtain ⟨s, hs, hv⟩ := exists_solution_of_value hr hx
    rw [hlist]
    exact List.ne_nil_of_mem ((hmiddle s x hv).2 ⟨hs, hlow, hhigh⟩)
  have hstats : kept.stats.getN = kept.summary.getN := by
    rw [SummaryStatistics.getN, SummaryStatistics.getN, hkept.stats_eq, hkept.summary_eq]
  refine ⟨mean, std, kept, r.splitResult.lower, r.splitResult.higher, hmean, hstd, hsplit, ?_⟩
  exact
    { perm := by
        rw [hlist]
        exact r.splitResult_perm
      lower_order := List.filter_sublist
      higher_order := List.filter_sublist
      kept_order := by
        rw [hlist]
        exact List.filter_sublist
      lower_value := fun s hs => ((hlower s).1 hs).2
      kept_value := hkeptValue
      higher_value := fun s hs => ((hhigher s).1 hs).2
      kept_ne_nil := hkeptNe
      consistent := hkept
      stats_n := hstats.trans hkept.getN_summary
      summary_n := hkept.getN_summary
      rows := by
        rw [rows_of_addSolutionsCollection hadd, hlist]
      best := fun hbenchmark =>
        best_of_addSolutionsCollection hadd hkept hkeptNe (hsame.analyser.trans hbenchmark) }

section Example

def exampleProblem : Problem := ⟨1, 1, .benchmark⟩

noncomputable def realSolution (x : ℝ) : Solution ℝ :=
  { id := 0, agent := none, solutionsVector := [some x], functionValue := some x
    viable := true, changed := false }

noncomputable def realRegion : Region ℝ :=
  { (Region.new 0 exampleProblem ⟨1, 3⟩ : Region ℝ) with
    solutionList := [realSolution 0, realSolution 1, realSolution (-1)]
    stats := ⟨[0, 1, -1]⟩
    summary := ⟨[0, 1, -1]⟩
    searchSpaceSummary := ⟨1, [[0], [1], [-1]]⟩ }

theorem realRegion_consistent : realRegion.Consistent := by
  refine ⟨fun s hs => ?_, rfl, rfl, rfl⟩
  simp only [realRegion, List.mem_cons, List.not_mem_nil, or_false] at hs
  rcases hs with rfl | rfl | rfl <;> exact ⟨rfl, _, rfl, rfl⟩

theorem split_partitions_example :
    ∃ mean std kept lower higher, CommonsMath.mean realRegion.stats.values = .fin mean ∧
      CommonsMath.standardDeviation realRegion.stats.values = .fin std ∧
      realRegion.split = (kept, .ok [lower, higher]) ∧
      Partitioned realRegion kept lower higher mean std :=
  split_partitions realRegion_consistent (by simp [realRegion]) (by simp [realRegion, Region.new])

end Example

/-! ## What an unbalanced region announces -/

/-- A region of sufficient size splits; a smaller one asks for a merge. -/
structure SplitsOrAsks {n m : ℕ} (id : Fin n) (s : RegionActor K n m) (r : Region K) : Prop where
  splits : r.regionSettings.minSolutionsToSplit ≤ r.solutionList.length →
    ∃ leader kept lower higher, s.leader = some leader ∧
      (lower ++ higher ++ kept.solutionList).Perm r.solutionList ∧
      onInternalStimulus id s =
        .tell leader (self id) (.regionSplit id lower higher) (.ret () (stored s kept))
  asks : r.solutionList.length < r.regionSettings.minSolutionsToSplit →
    ∃ leader, s.leader = some leader ∧
      onInternalStimulus id s =
        .tell leader (self id) (.mergeRequest id Everybody r.summary r.searchSpaceSummary)
          (.ret () s)

variable {n m : ℕ} {id : Fin n} {s : RegionActor K n m} {leader : ActorRef n m}

variable (id) in
theorem onInternalStimulus_small (hunbalanced : Unbalanced s) (hr : s.region = some r)
    (hl : s.leader = some leader)
    (hsize : r.solutionList.length < r.regionSettings.minSolutionsToSplit) :
    ∃ next, onInternalStimulus id s = .tell leader (self id) (.regionSplit id [] []) next := by
  have hsplit := Region.split_small (not_le.2 hsize)
  rw [onInternalStimulus_split id hunbalanced hr hsplit]
  have hl' : ({ s with region := some r } : RegionActor K n m).leader = some leader := hl
  rw [announceSplit, Handler.bind_apply, tellLeader_some id hl', Process.tell_bind]
  exact ⟨_, rfl⟩

/-- An unbalanced region does what its size asks for exactly when it is large
enough to split and still knows its problem. -/
theorem splits_or_asks_iff (h : s.Sound) (hunbalanced : Unbalanced s) (hr : s.region = some r) :
    SplitsOrAsks id s r ↔
      r.regionSettings.minSolutionsToSplit ≤ r.solutionList.length ∧ s.problem ≠ none := by
  have hready := h.ready r hr
  obtain ⟨leader, hl⟩ := Option.ne_none_iff_exists'.1 hready.leader
  constructor
  · intro hannounces
    by_cases hsize : r.regionSettings.minSolutionsToSplit ≤ r.solutionList.length
    · refine ⟨hsize, fun hp => ?_⟩
      obtain ⟨leader, kept, lower, higher, -, -, hprocess⟩ := hannounces.splits hsize
      obtain ⟨kept', lower', higher', hfails⟩ := onInternalStimulus_no_problem id hunbalanced hr
        hready.consistent hl hp
      rw [hprocess] at hfails
      have hends := congrArg Process.outcome hfails
      simp at hends
    · obtain ⟨leader, -, hasks⟩ := hannounces.asks (not_le.1 hsize)
      obtain ⟨next, hsplits⟩ := onInternalStimulus_small id hunbalanced hr hl
        (not_le.1 hsize)
      rw [hasks] at hsplits
      have hsent := congrArg Process.sent hsplits
      simp at hsent
  · rintro ⟨hsize, hproblem⟩
    obtain ⟨p, hp⟩ := Option.ne_none_iff_exists'.1 hproblem
    obtain ⟨kept, lower, higher, -, -, -, hperm, -, hprocess⟩ :=
      onInternalStimulus_unbalanced id hunbalanced hr hready.consistent hl hp
    exact ⟨fun _ => ⟨leader, kept, lower, higher, hl, hperm, hprocess⟩,
      fun hsmall => absurd hsize (not_le.2 hsmall)⟩

section Example

def leaderRef : ActorRef 1 0 := .actor (.node 0)

def first : Fin 1 := ⟨0, Nat.zero_lt_one⟩

def exampleSolution (x : ℚ) : Solution ℚ :=
  { id := 0, agent := none, solutionsVector := [some x], functionValue := some x
    viable := true, changed := false }

def exampleSummary : StatisticalSummary ℚ := ⟨10, .fin 6, .fin 1⟩

def exampleState (settings : RegionSettings) : RegionActor ℚ 1 0 :=
  match (onCreate first leaderRef settings [exampleSolution 2, exampleSolution 10] 0 exampleProblem
    new).outcome with
  | .done _ s => { s with globalSummary := some exampleSummary }
  | _ => new

theorem exampleState_created (settings : RegionSettings) :
    (exampleState settings).Sound ∧ (exampleState settings).problem = some exampleProblem ∧
      ∃ r, (exampleState settings).region = some r ∧ r.regionSettings = settings ∧
        r.solutionList = [exampleSolution 2, exampleSolution 10] := by
  have hstorable : ∀ s ∈ [exampleSolution 2, exampleSolution 10],
      s.Storable exampleProblem.dimension := by
    intro s hs
    simp only [List.mem_cons, List.not_mem_nil, or_false] at hs
    rcases hs with rfl | rfl <;> exact ⟨rfl, _, rfl, rfl⟩
  have hne : [exampleSolution 2, exampleSolution 10] ≠ [] := by simp
  obtain ⟨r, -, hlist, -, hsettings, -, hprocess⟩ := onCreate_storable first leaderRef
    (s := (new : RegionActor ℚ 1 0)) settings 0 hstorable hne
  have hend := (sat_onCreate first leaderRef (p := exampleProblem) sound_new settings 0
    hne).segment.2
  unfold exampleState
  rw [hprocess] at hend ⊢
  obtain ⟨hsound, hproblem⟩ := hend
  exact ⟨⟨hsound.timer, hsound.ready, hsound.problem, hsound.saved, hsound.dissolved⟩, hproblem,
    r, rfl, hsettings, hlist⟩

def unbalancedRate (s : RegionActor ℚ 1 0) : Bool :=
  match s.region, s.globalSummary with
  | some r, some g => (variationRate g).lt (variationRate r.summary.toStatisticalSummary)
  | _, _ => false

theorem unbalanced_of_rate {s : RegionActor ℚ 1 0} (h : unbalancedRate s = true) :
    Unbalanced s := by
  unfold unbalancedRate at h
  split at h
  next r g hr hg => exact ⟨r, g, hr, hg, h⟩
  · simp at h

/-- A region of two solutions that splits from ten on announces a split of nothing. -/
theorem small_region_does_not_ask : ∃ (s : RegionActor ℚ 1 0) (r : Region ℚ), s.Sound ∧
    Unbalanced s ∧ s.region = some r ∧ s.problem ≠ none ∧ ¬SplitsOrAsks first s r := by
  obtain ⟨hsound, hproblem, r, hr, hsettings, hlist⟩ := exampleState_created ⟨1, 10⟩
  have hunbalanced : Unbalanced (exampleState ⟨1, 10⟩) := unbalanced_of_rate (by decide +kernel)
  refine ⟨exampleState ⟨1, 10⟩, r, hsound, hunbalanced, hr, by simp [hproblem],
    fun hannounces => ?_⟩
  have hsize : r.solutionList.length < r.regionSettings.minSolutionsToSplit := by
    simp [hsettings, hlist]
  obtain ⟨leader, hl, hasks⟩ := hannounces.asks hsize
  obtain ⟨next, hsplits⟩ := onInternalStimulus_small first hunbalanced hr hl hsize
  rw [hasks] at hsplits
  have hsent := congrArg Process.sent hsplits
  simp at hsent

theorem splits_or_asks_iff_example : ∃ r, (exampleState ⟨1, 2⟩).region = some r ∧
    (SplitsOrAsks first (exampleState ⟨1, 2⟩) r ↔
      r.regionSettings.minSolutionsToSplit ≤ r.solutionList.length ∧
        (exampleState ⟨1, 2⟩).problem ≠ none) := by
  obtain ⟨hsound, -, r, hr, -⟩ := exampleState_created ⟨1, 2⟩
  exact ⟨r, hr, splits_or_asks_iff hsound (unbalanced_of_rate (by decide +kernel)) hr⟩

end Example

end DOptimas.Proofs.RegionSplit
