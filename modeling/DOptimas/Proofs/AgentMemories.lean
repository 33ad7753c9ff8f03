import DOptimas.Actors.Custody
import DOptimas.Proofs.QTableBounds
import DOptimas.Proofs.RegionSafety
/-!
# The memories of the agents

Whatever an agent is sent, in whatever order, and however often it is restarted
from its journal: its Q-table stays a small map with bounded values.
-/

namespace DOptimas.Proofs.AgentMemories

open DOptimas.Support DOptimas.Core DOptimas.Actors
open DOptimas.Core.QLearningMemory (put remove maxRegions sigmoid)
open QTableBounds (Bounded)
open Custody (Empty Holds Learns Yields)

/-! ## Distinct keys -/

section Keys

variable {K : Type} {table : List (ℤ × K)}

theorem keys_put (table : List (ℤ × K)) (key : ℤ) (value : K) :
    (put table key value).map Prod.fst = table.map Prod.fst ∨
      key ∉ table.map Prod.fst ∧
        (put table key value).map Prod.fst = table.map Prod.fst ++ [key] := by
  by_cases hkey : QLearningMemory.HasKey table key
  · refine Or.inl ?_
    unfold put
    rw [if_pos (QLearningMemory.any_key_iff.2 hkey), List.map_map]
    refine List.map_congr_left fun e _ => ?_
    by_cases he : e.1 = key
    · simp [he]
    · simp [he]
  · refine Or.inr ⟨hkey, ?_⟩
    rw [QLearningMemory.put_of_not_hasKey hkey, List.map_append]
    rfl

theorem nodup_put (h : (table.map Prod.fst).Nodup) (key : ℤ) (value : K) :
    ((put table key value).map Prod.fst).Nodup := by
  rcases keys_put table key value with hsame | ⟨hkey, hnew⟩
  · rw [hsame]
    exact h
  · rw [hnew]
    refine h.append (List.nodup_singleton key) fun id hid hid' => ?_
    exact hkey (List.mem_singleton.1 hid' ▸ hid)

theorem nodup_remove (h : (table.map Prod.fst).Nodup) (key : ℤ) :
    ((remove table key).map Prod.fst).Nodup :=
  h.sublist (List.filter_sublist.map _)

theorem nodup_foldl_put (h : (table.map Prod.fst).Nodup) (ids : List ℤ) (value : K) :
    ((ids.foldl (fun table id => put table id value) table).map Prod.fst).Nodup := by
  induction ids generalizing table with
  | nil => exact h
  | cons id ids ih => exact ih (nodup_put h id value)

theorem nodup_foldl_remove (h : (table.map Prod.fst).Nodup) (ids : List ℤ) :
    ((ids.foldl remove table).map Prod.fst).Nodup := by
  induction ids generalizing table with
  | nil => exact h
  | cons id ids ih => exact ih (nodup_remove h id)

variable [RealArith K] {memory memory' : QLearningMemory K}

theorem nodup_updateRegionIds (h : (memory.qTable.map Prod.fst).Nodup) (ids : List ℤ) :
    ((memory.updateRegionIds ids).qTable.map Prod.fst).Nodup := by
  unfold QLearningMemory.updateRegionIds
  dsimp only
  refine List.Nodup.sublist ((List.take_sublist _ _).map _) ?_
  refine (((List.mergeSort_perm _ _).map _).nodup_iff).2 ?_
  exact nodup_foldl_put (nodup_foldl_remove h _) _ _

theorem nodup_updateQTable {region : ℤ} {s : Solution K} (h : (memory.qTable.map Prod.fst).Nodup)
    (hrun : memory.updateQTable region s = .ok memory') :
    (memory'.qTable.map Prod.fst).Nodup := by
  unfold QLearningMemory.updateQTable at hrun
  split at hrun
  · cases hrun
  · dsimp only at hrun
    split at hrun
    · obtain rfl := Except.ok.inj hrun
      dsimp only
      refine (congrArg List.Nodup ?_).mpr h
      rw [List.map_map]
      refine List.map_congr_left fun e _ => ?_
      by_cases he : e.1 = region
      · simp [he]
      · simp [he]
    · obtain rfl := Except.ok.inj hrun
      refine nodup_put ?_ _ _
      split
      · split
        · exact h
        · exact nodup_remove h _
      · exact h

end Keys

/-! ## The agents -/

section Agents

variable {K : Type} [RealArith K] [MetaHeuristics K]

structure Small (a : Agent K) : Prop where
  bounded : Bounded a.qLearningMemory.qTable
  nodup : (a.qLearningMemory.qTable.map Prod.fst).Nodup

theorem small_of_empty {a : Agent K} (h : a.qLearningMemory.qTable = []) : Small a := by
  constructor
  · rw [h]
    exact QTableBounds.bounded_nil
  · rw [h]
    exact List.nodup_nil

theorem Small.updateMemory (hexp : ExpLaws K) {a : Agent K} (h : Small a) (choices : List ℕ)
    (ids : List ℤ) : Small (a.updateMemory choices ids) where
  bounded := by
    rw [QLearningMemory.updateMemory_agent]
    exact QTableBounds.updateMemory_bounded hexp _ choices ids h.bounded
  nodup := by
    unfold Agent.updateMemory
    dsimp only
    split
    · exact nodup_foldl_put h.nodup _ _
    · exact nodup_updateRegionIds h.nodup ids

theorem Small.learn (hexp : ExpLaws K) {a a' : Agent K} {result : Option (List (Solution K))}
    {region : ℤ} {solutions : List (Solution K)} (h : Small a)
    (hlearn : a.learn result region = .ok (a', solutions)) : Small a' := by
  unfold Agent.learn at hlearn
  split at hlearn
  · cases hlearn
  · obtain ⟨rfl, -⟩ := Prod.mk.inj (Except.ok.inj hlearn)
    exact h
  · split at hlearn
    · cases hlearn
    next memory hq =>
      split at hlearn
      · cases hlearn
      next memory' hbest =>
        obtain ⟨rfl, -⟩ := Prod.mk.inj (Except.ok.inj hlearn)
        have hsame := QTableBounds.updateBestFoundSolution_qTable hbest
        constructor
        · change Bounded memory'.qTable
          rw [hsame]
          exact QTableBounds.updateQTable_bounded hexp h.bounded hq
        · change (memory'.qTable.map Prod.fst).Nodup
          rw [hsame]
          exact nodup_updateQTable h.nodup hq

theorem yields_true {N : MetaHeuristics.Memory K → AgentContext K → Prop}
    (hN : ∀ memory context, N memory context) (run : Run (MetaHeuristics.Memory K) K) :
    Yields (fun _ => True) N run := by
  induction run with
  | done result memory context => exact ⟨fun _ _ _ _ => trivial, hN _ _⟩
  | throws memory context => exact hN _ _
  | evaluateFunction x next ih => exact fun y => ih y

theorem learns_small (hexp : ExpLaws K) : Learns (K := K) (fun _ => True) Small where
  stamp _ _ _ := trivial
  new _ _ := small_of_empty rfl
  reset _ _ _ := small_of_empty rfl
  updateMemory _ choices ids h := h.updateMemory hexp choices ids
  run _ _ _ h _ := yields_true (fun _ _ => ⟨h.bounded, h.nodup⟩) _
  learn _ _ _ _ _ h _ hlearn := h.learn hexp hlearn
  best _ _ _ _ := trivial

omit [RealArith K] [MetaHeuristics K] in
theorem holds_true {n m : ℕ} (message : Message K n m) : Holds (fun _ => True) message := by
  cases message with
  | regionSplit i lower higher => exact ⟨fun _ _ => trivial, fun _ _ => trivial⟩
  | detailedAgentState state => exact fun _ _ => trivial
  | createRegion => exact fun _ _ => trivial
  | solutionResponse => exact fun _ _ => trivial
  | mergeResult => exact fun _ _ => trivial
  | solutionResult => exact fun _ _ => trivial
  | _ => trivial

variable [CommonsMath K] {n m : ℕ} {d : Deployment K}

/-- In every reachable state the Q-table of every agent, and the one in its journal, has at
most ten entries, under distinct ids, with values from minus five to five. -/
theorem run_bounds_memories (hexp : ExpLaws K) {c : Cluster n m d} (h : Empty c)
    (es : List (ClusterEvent K n m)) :
    Always Config.step (fun c : Cluster n m d =>
      ∀ j a, ((c.agent j).agent = some a ∨
          ∃ snapshot, (c.agent j).saved = some snapshot ∧ snapshot.agent = some a) →
        a.qLearningMemory.qTable.length ≤ maxRegions ∧
          (a.qLearningMemory.qTable.map Prod.fst).Nodup ∧
          ∀ e ∈ a.qLearningMemory.qTable, -5 ≤ e.2 ∧ e.2 ≤ 5) c es := by
  have hinjected : ∀ p, .inject p ∈ es → Holds (fun _ => True) p.message :=
    fun p _ => holds_true _
  refine (Custody.run_keeps (learns_small hexp) h hinjected).mono
    fun c ⟨_, _, hagent⟩ j a ha => ?_
  have hsmall : Small a := by
    rcases ha with ha | ⟨snapshot, hsaved, ha⟩
    · exact (hagent j).agent a ha
    · exact (hagent j).saved snapshot a hsaved ha
  refine ⟨hsmall.bounded.size, hsmall.nodup, fun e he => ?_⟩
  have hvalue := hsmall.bounded.values e he
  rwa [QTableBounds.bound_eq] at hvalue

end Agents

/-! ## An agent that learns of a region -/

section Example

instance : MetaHeuristics ℝ where
  Memory := Unit
  buildMetaHeuristic _ _ := ()
  configure _ _ memory := memory
  runMetaHeuristic memory solutions context _ := .done (some solutions) memory context

noncomputable def realDeployment : Deployment ℝ :=
  { settings := RegionSafety.exampleDeployment.settings
    suite := []
    evaluateFunction := fun _ x => x.head? }

noncomputable def realCluster : Cluster 1 1 realDeployment :=
  Cluster.start realDeployment (fun _ => .new realDeployment.settings) (fun _ => .new) (.new [] 1)

theorem empty_realCluster : Empty realCluster where
  toInitial := initial_start _ _ _
  agent _ := rfl

noncomputable def learningRun : List (ClusterEvent ℝ 1 1) :=
  let first : Fin 1 := ⟨0, Nat.one_pos⟩
  let agent : Ref (Address 1 1) := .actor (.agent first)
  let settings : AgentSettings ℝ :=
    { name := 0, metaHeuristicName := 0, lifetime := 1000, memoryTax := 1
      isConstructorMetaHeuristic := false, populationSize := none }
  let quiet : Choices ℝ := ⟨⟨fun _ => [], [], .fin⟩, .ioException⟩
  [.inject ⟨.client 0, agent, .actor (.client 0), .createAgent first (.actor (.node 0)) settings⟩,
    .deliver (.client 0) agent quiet,
    .inject ⟨.client 0, agent, .actor (.client 0), .updateGlobalSummary 0 none 5 [first]⟩,
    .deliver (.client 0) agent quiet]

theorem run_bounds_memories_example : ∃ c a, realCluster.run learningRun = some c ∧
    (c.agent 0).agent = some a ∧ a.qLearningMemory.qTable.map Prod.fst = [0] ∧
      ∀ e ∈ a.qLearningMemory.qTable, -5 ≤ e.2 ∧ e.2 ≤ 5 := by
  have hknown : (realCluster.run learningRun).map (fun c =>
      (c.agent 0).agent.map fun a => a.qLearningMemory.qTable.map Prod.fst) = some (some [0]) :=
    rfl
  obtain ⟨c, hrun, hc⟩ := Option.map_eq_some_iff.1 hknown
  obtain ⟨a, ha, hids⟩ := Option.map_eq_some_iff.1 hc
  have hbounds := (run_bounds_memories expLaws_real empty_realCluster learningRun).last hrun 0 a
    (Or.inl ha)
  exact ⟨c, a, hrun, ha, hids, hbounds.2.2⟩

end Example

end DOptimas.Proofs.AgentMemories
