import DOptimas.Core.QTable
import DOptimas.Support.ExactStatistics
/-!
# Bounds on the Q-table

Rewards lie within one of zero.  An update moves an entry half way to its reward
plus the discounted maximum, so `1 / (1 - gamma)` bounds every value: the interval
is the fixed point of the update, and all the other operations only keep values,
drop them or add a zero.
-/

namespace DOptimas.Proofs.QTableBounds

open DOptimas.Core DOptimas.Core.QLearningMemory DOptimas.Support

variable {K : Type} [RealArith K]

theorem sigmoid_bounds (h : ExpLaws K) (x : K) : -1 ≤ sigmoid x ∧ sigmoid x ≤ 1 := by
  have hexp : 0 < RealArith.exp (-x) := h.pos (-x)
  have hdenominator : 0 < 1 + RealArith.exp (-x) := by linarith
  have hnonneg : 0 ≤ 2 / (1 + RealArith.exp (-x)) := div_nonneg (by norm_num) hdenominator.le
  have hle : 2 / (1 + RealArith.exp (-x)) ≤ 2 := by
    rw [div_le_iff₀ hdenominator]
    linarith
  unfold sigmoid
  exact ⟨by linarith, by linarith⟩

theorem sigmoid_zero (h : ExpLaws K) : sigmoid (0 : K) = 0 := by
  unfold sigmoid
  rw [neg_zero, h.zero]
  norm_num

theorem reward_bounds (h : ExpLaws K) {memory : QLearningMemory K} {solution : Solution K}
    {r : K} (hr : memory.reward solution = .ok r) : -1 ≤ r ∧ r ≤ 1 := by
  unfold reward at hr
  split at hr
  · obtain rfl := Except.ok.inj hr
    exact ⟨by linarith [zero_le_one (α := K)], le_refl _⟩
  · split at hr
    · obtain rfl := Except.ok.inj hr
      exact sigmoid_bounds h _
    · cases hr

abbrev bound : K := 1 / (1 - gamma)

theorem bound_eq : (bound : K) = 5 := by
  unfold bound gamma
  norm_num

structure Bounded (table : List (ℤ × K)) : Prop where
  size : table.length ≤ maxRegions
  values : ∀ e ∈ table, -bound ≤ e.2 ∧ e.2 ≤ bound

theorem zero_bounds (h : ExpLaws K) : -bound ≤ sigmoid (0 : K) ∧ sigmoid (0 : K) ≤ bound := by
  rw [sigmoid_zero h, bound_eq]
  exact ⟨by norm_num, by norm_num⟩

theorem bounded_nil : Bounded ([] : List (ℤ × K)) where
  size := Nat.zero_le _
  values _ he := absurd he List.not_mem_nil

theorem Bounded.maxValueOf {table : List (ℤ × K)} (h : Bounded table) :
    -bound ≤ maxValueOf table ∧ maxValueOf table ≤ bound := by
  rcases maxValueOf_mem table with ⟨-, hzero⟩ | ⟨e, he, heq⟩
  · rw [hzero, bound_eq]
    exact ⟨by norm_num, by norm_num⟩
  · rw [heq]
    exact h.values e he

/-- The update keeps the bound: half the old value, half the reward, two fifths of
the maximum. -/
theorem updated_bounds {q r m : K} (hq : -bound ≤ q ∧ q ≤ bound) (hr : -1 ≤ r ∧ r ≤ 1)
    (hm : -bound ≤ m ∧ m ≤ bound) :
    -bound ≤ q + alpha * (r + gamma * m - q) ∧ q + alpha * (r + gamma * m - q) ≤ bound := by
  rw [bound_eq] at *
  have hupdate : q + alpha * (r + gamma * m - q) = q / 2 + r / 2 + 2 / 5 * m := by
    unfold alpha gamma
    ring
  rw [hupdate]
  exact ⟨by linarith [hq.1, hr.1, hm.1], by linarith [hq.2, hr.2, hm.2]⟩

section Operations

variable {memory : QLearningMemory K}

theorem initializeIds_bounded (h : ExpLaws K) (choices : List ℕ) (ids : List ℤ)
    (hempty : memory.isEmpty = true) :
    Bounded (memory.initializeIds choices ids).qTable := by
  have hnil : memory.qTable = [] := List.isEmpty_iff.1 hempty
  unfold initializeIds
  dsimp only
  rw [hnil]
  constructor
  · refine (length_foldl_put_le _ [] _).trans ?_
    rw [List.length_nil, Nat.zero_add]
    split
    next hlarge =>
      have hsome := (nextSample_isSome_iff choices ids maxRegions).2
        ⟨by decide, by exact_mod_cast hlarge.le⟩
      obtain ⟨sample, hsample⟩ := Option.isSome_iff_exists.1 hsome
      have hlength := (nextSample_drawn hsample).1
      rw [hsample, Option.getD_some]
      omega
    next hsmall => omega
  · intro e he
    rcases mem_foldl_put he with hmem | hvalue
    · exact absurd hmem List.not_mem_nil
    · rw [hvalue]
      exact zero_bounds h

theorem updateRegionIdsIn_bounded (h : ExpLaws K) (iteration : Iteration K) (ids : List ℤ)
    (hbounded : Bounded memory.qTable) :
    Bounded (memory.updateRegionIdsIn iteration ids).qTable := by
  rw [qTable_updateRegionIdsIn]
  constructor
  · exact List.length_take_le _ _
  · intro e he
    have hrenewed : e ∈ memory.renewed ids := sorted_perm.mem_iff.1 (List.mem_of_mem_take he)
    unfold renewed at hrenewed
    rcases mem_foldl_put hrenewed with hmem | hvalue
    · rw [foldl_remove] at hmem
      exact hbounded.values e (List.mem_of_mem_filter hmem)
    · rw [hvalue]
      exact zero_bounds h

theorem updateMemory_bounded (h : ExpLaws K) (iteration : Iteration K) (choices : List ℕ)
    (ids : List ℤ) (hbounded : Bounded memory.qTable) :
    Bounded (memory.updateMemory iteration choices ids).qTable := by
  unfold updateMemory
  split
  next hempty => exact initializeIds_bounded h choices ids hempty
  next => exact updateRegionIdsIn_bounded h iteration ids hbounded

theorem length_evicted {table : List (ℤ × K)} (hsize : table.length ≤ maxRegions) :
    (if maxRegions ≤ table.length then
      match minEntry table with
      | none => table
      | some e => remove table e.1
    else table).length < maxRegions := by
  split
  next hfull =>
    cases hmin : minEntry table with
    | none =>
        have hnil : table = [] := by
          by_contra hne
          obtain ⟨e, he⟩ := minEntry_ne_none hne
          rw [hmin] at he
          cases he
        rw [hnil, List.length_nil] at hfull
        exact absurd hfull (by decide)
    | some e =>
        have hmem := (minEntry_spec hmin).1
        have hlt : (remove table e.1).length < table.length := by
          unfold remove
          exact List.length_filter_lt_length_iff_exists.2 ⟨e, hmem, by simp⟩
        exact lt_of_lt_of_le hlt hsize
  next hroom => omega

theorem mem_evicted {table : List (ℤ × K)} {e : ℤ × K}
    (h : e ∈ (if maxRegions ≤ table.length then
      match minEntry table with
      | none => table
      | some e => remove table e.1
    else table)) : e ∈ table := by
  split at h
  · cases hmin : minEntry table with
    | none =>
        rw [hmin] at h
        exact h
    | some e' =>
        rw [hmin] at h
        exact List.mem_of_mem_filter h
  · exact h

theorem updateQTable_bounded (h : ExpLaws K) {memory' : QLearningMemory K} {regionId : ℤ}
    {solution : Solution K} (hbounded : Bounded memory.qTable)
    (hrun : memory.updateQTable regionId solution = .ok memory') : Bounded memory'.qTable := by
  unfold updateQTable at hrun
  cases hreward : memory.reward solution with
  | error e =>
      rw [hreward] at hrun
      cases hrun
  | ok r =>
      have hr := reward_bounds h hreward
      rw [hreward] at hrun
      dsimp only at hrun
      split at hrun
      · obtain rfl := Except.ok.inj hrun
        constructor
        · rw [List.length_map]
          exact hbounded.size
        · intro e he
          obtain ⟨e', he', rfl⟩ := List.mem_map.1 he
          split
          · exact updated_bounds (hbounded.values e' he') hr hbounded.maxValueOf
          · exact hbounded.values e' he'
      · obtain rfl := Except.ok.inj hrun
        constructor
        · have hlength := length_evicted hbounded.size
          exact (length_put_le _ regionId r).trans hlength
        · intro e he
          rcases mem_put he with hmem | hvalue
          · exact hbounded.values e (mem_evicted hmem)
          · rw [hvalue, bound_eq]
            exact ⟨by linarith [hr.1], by linarith [hr.2]⟩

theorem updateBestFoundSolution_qTable {memory' : QLearningMemory K} {solution : Solution K}
    (hrun : memory.updateBestFoundSolution solution = .ok memory') :
    memory'.qTable = memory.qTable := by
  unfold updateBestFoundSolution at hrun
  split at hrun
  · obtain rfl := Except.ok.inj hrun
    rfl
  · split at hrun
    · cases hrun
    · obtain rfl := Except.ok.inj hrun
      split
      · rfl
      · rfl

end Operations

/-- The calls that change the memory; a rehash changes the order of the entries only. -/
inductive Call (K : Type) where
  | updateMemory (iteration : Iteration K) (choices : List ℕ) (ids : List ℤ)
  | updateQTable (regionId : ℤ) (s : Solution K)
  | updateBestFoundSolution (solution : Solution K)
  | resetMemory
  | rehash (iteration : Iteration K)

/-- A call that throws does so before it changes anything. -/
def perform (memory : QLearningMemory K) : Call K → QLearningMemory K
  | .updateMemory iteration choices ids => memory.updateMemory iteration choices ids
  | .updateQTable regionId s => (memory.updateQTable regionId s).toOption.getD memory
  | .updateBestFoundSolution solution =>
      (memory.updateBestFoundSolution solution).toOption.getD memory
  | .resetMemory => memory.resetMemory
  | .rehash iteration => { memory with qTable := iteration.order memory.qTable }

theorem perform_bounded (h : ExpLaws K) {memory : QLearningMemory K}
    (hbounded : Bounded memory.qTable) (call : Call K) :
    Bounded (perform memory call).qTable := by
  cases call with
  | updateMemory iteration choices ids =>
      exact updateMemory_bounded h iteration choices ids hbounded
  | updateQTable regionId s =>
      rw [perform]
      cases hrun : memory.updateQTable regionId s with
      | ok memory' => exact updateQTable_bounded h hbounded hrun
      | error e => exact hbounded
  | updateBestFoundSolution solution =>
      rw [perform]
      cases hrun : memory.updateBestFoundSolution solution with
      | ok memory' =>
          have htable := updateBestFoundSolution_qTable hrun
          exact htable ▸ hbounded
      | error e => exact hbounded
  | resetMemory => exact bounded_nil
  | rehash iteration =>
      have hperm := iteration.perm memory.qTable
      constructor
      · exact hperm.length_eq.trans_le hbounded.size
      · intro e he
        exact hbounded.values e (hperm.mem_iff.1 he)

theorem calls_bounded (h : ExpLaws K) {memory : QLearningMemory K}
    (hbounded : Bounded memory.qTable) (calls : List (Call K)) :
    Bounded (calls.foldl perform memory).qTable := by
  induction calls generalizing memory with
  | nil => exact hbounded
  | cons call calls ih => exact ih (perform_bounded h hbounded call)

theorem Bounded.normalizeRewards {table : List (ℤ × K)} (h : Bounded table) {least e : ℤ × K}
    (hleast : minEntry table = some least) (he : e ∈ normalizeRewards table least.2) :
    1 ≤ e.2 ∧ e.2 ≤ 11 := by
  obtain ⟨hmem, hmin⟩ := minEntry_spec hleast
  obtain ⟨e', he', rfl⟩ := List.mem_map.1 he
  have hvalue := h.values e' he'
  have hlow := h.values least hmem
  have hle := hmin e' he'
  rw [bound_eq] at hvalue hlow
  dsimp only
  exact ⟨by linarith, by linarith [hvalue.2, hlow.1]⟩

/-- After any calls the table has at most ten entries, with values from minus five
to five, and the entries of the roulette lie between one and eleven. -/
theorem calls_within_bounds (h : ExpLaws K) (analyser : SolutionAnalyser)
    (calls : List (Call K)) :
    (calls.foldl perform (.new analyser)).qTable.length ≤ maxRegions ∧
      (1 / (1 - gamma) = (5 : K) ∧
        ∀ e ∈ (calls.foldl perform (.new analyser)).qTable, -5 ≤ e.2 ∧ e.2 ≤ 5) ∧
      ∀ least, minEntry (calls.foldl perform (.new analyser)).qTable = some least →
        ∀ e ∈ normalizeRewards (calls.foldl perform (.new analyser)).qTable least.2,
          1 ≤ e.2 ∧ e.2 ≤ 11 := by
  have hbounded := @calls_bounded K _ h (.new analyser) bounded_nil calls
  refine ⟨hbounded.size, ⟨bound_eq, fun e he => ?_⟩, fun least hleast e he => ?_⟩
  · have hvalue := hbounded.values e he
    rwa [bound_eq] at hvalue
  · exact hbounded.normalizeRewards hleast he

noncomputable def sample : Solution ℝ :=
  { id := 0, agent := none, solutionsVector := [some 1], functionValue := some 1, viable := true,
    changed := false }

noncomputable def sampleCalls : List (Call ℝ) :=
  [.updateMemory ⟨id, fun _ => List.Perm.refl _⟩ [] [1, 2], .updateQTable 3 sample,
    .updateBestFoundSolution sample, .updateQTable 3 sample]

/-- A solution found in a region that is not in the table yet, and one in a region that is. -/
theorem calls_within_bounds_example :
    (sampleCalls.foldl perform (.new .benchmark)).qTable.length ≤ maxRegions ∧
      ∀ e ∈ (sampleCalls.foldl perform (.new .benchmark)).qTable, -5 ≤ e.2 ∧ e.2 ≤ 5 := by
  have hbounds := calls_within_bounds expLaws_real .benchmark sampleCalls
  exact ⟨hbounds.1, hbounds.2.1.2⟩

end DOptimas.Proofs.QTableBounds
