import DOptimas.Core.Solution
import DOptimas.Support.Statistics
/-!
# The agent's memory of regions

A table from region ids to Q-values, listed in its iteration order, and the best
solution that the agent has found since its last reset.
-/

namespace DOptimas.Core

open DOptimas.Support

structure Draw (K : Type) [RealArith K] where
  value : K
  nonneg : 0 ≤ value
  lt_one : value < 1

def Draw.zero {K : Type} [RealArith K] : Draw K := ⟨0, le_refl 0, zero_lt_one⟩

structure QLearningMemory (K : Type) where
  bestFoundSolution : Option (Solution K)
  analyser : SolutionAnalyser
  qTable : List (ℤ × K)
  deriving DecidableEq

namespace QLearningMemory

variable {K : Type}

def new (analyser : SolutionAnalyser) : QLearningMemory K := ⟨none, analyser, []⟩

def maxRegions : ℕ := 10

/-- `Map.put`: an existing key keeps its place. -/
def put (table : List (ℤ × K)) (key : ℤ) (value : K) : List (ℤ × K) :=
  if table.any fun e => e.1 = key then
    table.map fun e => if e.1 = key then (key, value) else e
  else table ++ [(key, value)]

def remove (table : List (ℤ × K)) (key : ℤ) : List (ℤ × K) :=
  table.filter fun e => e.1 ≠ key

def isEmpty (memory : QLearningMemory K) : Bool := memory.qTable.isEmpty

def resetMemory (memory : QLearningMemory K) : QLearningMemory K :=
  { memory with bestFoundSolution := none, qTable := [] }

variable [RealArith K]

def alpha : K := 1 / 2

def gamma : K := 4 / 5

def sigmoid (x : K) : K := -1 + 2 / (1 + RealArith.exp (-x))

def initializeIds (memory : QLearningMemory K) (choices : List ℕ) (regionIds : List ℤ) :
    QLearningMemory K :=
  let ids :=
    if maxRegions < regionIds.length then
      (nextSample choices regionIds maxRegions).getD regionIds
    else regionIds
  { memory with qTable := ids.foldl (fun table id => put table id (sigmoid 0)) memory.qTable }

def updateRegionIds (memory : QLearningMemory K) (updatedIds : List ℤ) : QLearningMemory K :=
  let regionIds := memory.qTable.map Prod.fst
  let stay := updatedIds.filter fun id => regionIds.contains id
  let toRemove := regionIds.filter fun id => !stay.contains id
  let toAdd := updatedIds.filter fun id => !stay.contains id
  let removed := toRemove.foldl remove memory.qTable
  let added := toAdd.foldl (fun table id => put table id (sigmoid 0)) removed
  { memory with
    qTable := (added.mergeSort fun a b => decide (b.2 ≤ a.2)).take maxRegions }

def reward (memory : QLearningMemory K) (solution : Solution K) : Except Failure K :=
  match memory.bestFoundSolution with
  | none => .ok 1
  | some best =>
      match best.functionValue, solution.functionValue with
      | some b, some v => .ok (sigmoid (b - v))
      | _, _ => .error (.nullPointer .functionValue)

/-- `Comparator.compare`: solutions with equal vectors compare equal. -/
def compare (analyser : SolutionAnalyser) (left right : Solution K) : Except Failure ℤ :=
  if left.solutionsVector = right.solutionsVector then .ok 0
  else
    match left.functionValue, right.functionValue with
    | some l, some r => .ok (if analyser.keepsLeft l r then -1 else 1)
    | _, _ => .error (.nullPointer .functionValue)

def updateBestFoundSolution (memory : QLearningMemory K) (solution : Solution K) :
    Except Failure (QLearningMemory K) :=
  match memory.bestFoundSolution with
  | none => .ok { memory with bestFoundSolution := some solution }
  | some best =>
      match compare memory.analyser solution best with
      | .error e => .error e
      | .ok c =>
          .ok (if c < 0 then { memory with bestFoundSolution := some solution } else memory)

def minEntry : List (ℤ × K) → Option (ℤ × K)
  | [] => none
  | e :: es => some (es.foldl (fun a b => if b.2 < a.2 then b else a) e)

def maxValueOf : List (ℤ × K) → K
  | [] => 0
  | e :: es => es.foldl (fun a b => max a b.2) e.2

def updateQTable (memory : QLearningMemory K) (regionId : ℤ) (solution : Solution K) :
    Except Failure (QLearningMemory K) :=
  match memory.reward solution with
  | .error e => .error e
  | .ok reward =>
      let maxQ := maxValueOf memory.qTable
      if memory.qTable.any fun e => e.1 = regionId then
        .ok { memory with
          qTable := memory.qTable.map fun e =>
            if e.1 = regionId then (e.1, e.2 + alpha * (reward + gamma * maxQ - e.2)) else e }
      else
        let table :=
          if maxRegions ≤ memory.qTable.length then
            match minEntry memory.qTable with
            | none => memory.qTable
            | some e => remove memory.qTable e.1
          else memory.qTable
        .ok { memory with qTable := put table regionId reward }

/-- The roulette over accumulated shares: the first key whose share reaches the dice. -/
def spin (dice total : K) : K → List (ℤ × K) → Option ℤ
  | _, [] => none
  | acc, (id, q) :: es =>
      if dice ≤ acc + q / total then some id else spin dice total (acc + q / total) es

def normalizeRewards (table : List (ℤ × K)) (minReward : K) : List (ℤ × K) :=
  table.map fun e => (e.1, e.2 - minReward + 1)

def chooseRegion (memory : QLearningMemory K) (dice : Draw K) : Except Failure (Option ℤ) :=
  match minEntry memory.qTable with
  | none => .ok none
  | some e =>
      let rewards := normalizeRewards memory.qTable e.2
      let total := (rewards.map Prod.snd).sum
      if total = 0 then .ok none
      else
        match spin dice.value total 0 rewards with
        | some id => .ok (some id)
        | none => .error .indexOutOfBounds

theorem spin_ne_none (dice total acc : K) {table : List (ℤ × K)} (hne : table ≠ [])
    (h : dice ≤ acc + (table.map Prod.snd).sum / total) : spin dice total acc table ≠ none := by
  induction table generalizing acc with
  | nil => exact absurd rfl hne
  | cons e es ih =>
      rw [spin]
      split
      · simp
      next hacc =>
        by_cases hes : es = []
        · subst hes
          exact absurd (by simpa using h) hacc
        · refine ih _ hes ?_
          rw [List.map_cons, List.sum_cons, add_div, ← add_assoc] at h
          exact h

theorem chooseRegion_ok (memory : QLearningMemory K) (dice : Draw K) :
    ∃ region, memory.chooseRegion dice = .ok region := by
  unfold chooseRegion
  split
  · exact ⟨none, rfl⟩
  next e he =>
    dsimp only
    split
    · exact ⟨none, rfl⟩
    next htotal =>
      have hne : normalizeRewards memory.qTable e.2 ≠ [] := by
        intro hnil
        simp [hnil] at htotal
      have hspin := spin_ne_none dice.value
        ((normalizeRewards memory.qTable e.2).map Prod.snd).sum 0 hne (by
          rw [div_self htotal, zero_add]
          exact dice.lt_one.le)
      obtain ⟨id, hid⟩ := Option.ne_none_iff_exists'.1 hspin
      exact ⟨some id, by simp [hid]⟩

def Valued (memory : QLearningMemory K) : Prop :=
  ∀ best, memory.bestFoundSolution = some best → best.functionValue ≠ none

theorem updateQTable_ok {memory : QLearningMemory K} {solution : Solution K}
    (h : memory.Valued) (hs : solution.functionValue ≠ none) (regionId : ℤ) :
    ∃ memory', memory.updateQTable regionId solution = .ok memory' ∧
      memory'.bestFoundSolution = memory.bestFoundSolution := by
  obtain ⟨r, hr⟩ : ∃ r, memory.reward solution = .ok r := by
    unfold reward
    split
    · exact ⟨1, rfl⟩
    next best hbest =>
      obtain ⟨b, hb⟩ := Option.ne_none_iff_exists'.1 (h best hbest)
      obtain ⟨v, hv⟩ := Option.ne_none_iff_exists'.1 hs
      simp [hb, hv]
  unfold updateQTable
  rw [hr]
  dsimp only
  split
  · exact ⟨_, rfl, rfl⟩
  · exact ⟨_, rfl, rfl⟩

theorem updateBestFoundSolution_ok {memory : QLearningMemory K} {solution : Solution K}
    (h : memory.Valued) (hs : solution.functionValue ≠ none) :
    ∃ memory', memory.updateBestFoundSolution solution = .ok memory' ∧ memory'.Valued := by
  have hnew : ({ memory with bestFoundSolution := some solution } : QLearningMemory K).Valued :=
    fun best hbest => by rwa [← Option.some.inj hbest]
  unfold updateBestFoundSolution
  split
  · exact ⟨_, rfl, hnew⟩
  next best hbest =>
    obtain ⟨b, hb⟩ := Option.ne_none_iff_exists'.1 (h best hbest)
    obtain ⟨v, hv⟩ := Option.ne_none_iff_exists'.1 hs
    obtain ⟨c, hc⟩ : ∃ c, compare memory.analyser solution best = .ok c := by
      unfold compare
      split
      · exact ⟨0, rfl⟩
      · simp [hb, hv]
    rw [hc]
    refine ⟨_, rfl, ?_⟩
    split
    · exact hnew
    · exact h

end QLearningMemory

end DOptimas.Core
