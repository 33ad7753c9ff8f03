import DOptimas.Actors.Custody
import DOptimas.Proofs.ManagerTables
/-!
# Where solutions come from

What the runs of the metaheuristics and the environment make sure of holds of
every solution in the cluster, whatever the actors do with it.
-/

namespace DOptimas.Proofs.Provenance

open DOptimas.Support DOptimas.Core DOptimas.Actors
open Custody (Empty Holds Learns Yields)

section Runs

variable {K : Type} [RealArith K] [MetaHeuristics K] {P : Solution K → Prop}
  {M : MetaHeuristics.Memory K → Prop}

structure Bred (P : Solution K → Prop) (M : MetaHeuristics.Memory K → Prop) : Prop where
  stamp : ∀ (s : Solution K) j, P s → P { s with agent := some j }
  build : ∀ settings problem, M (MetaHeuristics.buildMetaHeuristic settings problem)
  configure : ∀ settings problem memory, M memory →
    M (MetaHeuristics.configure settings problem memory)
  run : ∀ memory solutions context draws, M memory → (∀ s ∈ solutions, P s) →
    Yields P (fun memory context => M memory ∧ ∀ s, context.bestSolution = some s → P s)
      (MetaHeuristics.runMetaHeuristic memory solutions context draws)

structure Remembers (P : Solution K → Prop) (M : MetaHeuristics.Memory K → Prop) (a : Agent K) :
    Prop where
  memory : M a.metaHeuristic
  context : ∀ s, a.context.bestSolution = some s → P s
  best : ∀ s, a.qLearningMemory.bestFoundSolution = some s → P s

theorem Yields.mono {N N' : MetaHeuristics.Memory K → AgentContext K → Prop}
    (hN : ∀ memory context, N memory context → N' memory context)
    {run : Run (MetaHeuristics.Memory K) K} (h : Yields P N run) : Yields P N' run := by
  induction run with
  | done result memory context => exact ⟨h.1, hN _ _ h.2⟩
  | throws memory context => exact hN _ _ h
  | evaluateFunction x next ih => exact fun y => ih y (h y)

omit [MetaHeuristics K] in
theorem updateQTable_bestFoundSolution {memory memory' : QLearningMemory K} {region : ℤ}
    {s : Solution K} (h : memory.updateQTable region s = .ok memory') :
    memory'.bestFoundSolution = memory.bestFoundSolution := by
  unfold QLearningMemory.updateQTable at h
  split at h
  · cases h
  · dsimp only at h
    split at h
    · obtain rfl := Except.ok.inj h
      rfl
    · obtain rfl := Except.ok.inj h
      rfl

omit [MetaHeuristics K] in
theorem updateBestFoundSolution_cases {memory memory' : QLearningMemory K} {s : Solution K}
    (h : memory.updateBestFoundSolution s = .ok memory') :
    memory' = memory ∨ memory'.bestFoundSolution = some s := by
  unfold QLearningMemory.updateBestFoundSolution at h
  split at h
  · obtain rfl := Except.ok.inj h
    exact Or.inr rfl
  · split at h
    · cases h
    · obtain rfl := Except.ok.inj h
      split
      · exact Or.inr rfl
      · exact Or.inl rfl

theorem Remembers.learn {a a' : Agent K} {result : Option (List (Solution K))} {region : ℤ}
    {solutions : List (Solution K)} (h : Remembers P M a) (hsolutions : ∀ s ∈ solutions, P s)
    (hlearn : a.learn result region = .ok (a', solutions)) : Remembers P M a' := by
  unfold Agent.learn at hlearn
  split at hlearn
  · cases hlearn
  · obtain ⟨rfl, -⟩ := Prod.mk.inj (Except.ok.inj hlearn)
    exact h
  next s ss =>
    split at hlearn
    · cases hlearn
    next memory hq =>
      split at hlearn
      · cases hlearn
      next memory' hbest =>
        obtain ⟨rfl, rfl⟩ := Prod.mk.inj (Except.ok.inj hlearn)
        refine ⟨h.memory, h.context, fun t ht => ?_⟩
        rcases updateBestFoundSolution_cases hbest with rfl | hs
        · exact h.best t (updateQTable_bestFoundSolution hq ▸ ht)
        · obtain rfl := Option.some.inj (hs.symm.trans ht)
          exact hsolutions s List.mem_cons_self

theorem Bred.learns (h : Bred P M) : Learns P (Remembers P M) where
  stamp := h.stamp
  new _ _ := ⟨h.build _ _, fun _ hnone => (by cases hnone), fun _ hnone => (by cases hnone)⟩
  reset _ _ ha :=
    ⟨h.configure _ _ _ ha.memory, fun _ hnone => (by cases hnone), fun _ hnone => (by cases hnone)⟩
  updateMemory a choices ids ha := by
    refine ⟨ha.memory, ha.context, fun s hs => ha.best s ?_⟩
    unfold Agent.updateMemory at hs
    dsimp only at hs
    split at hs
    · exact hs
    · exact hs
  run a solutions draws ha hsolutions :=
    Yields.mono (fun _ _ hN => ⟨hN.1, hN.2, ha.best⟩) (h.run _ _ _ draws ha.memory hsolutions)
  learn _ _ _ _ _ ha hsolutions hlearn := ha.learn hsolutions hlearn
  best _ s ha := ha.context s

variable [CommonsMath K] {n m : ℕ} {d : Deployment K}

/-- What holds of the solutions that runs return and that the environment sends, and does
not depend on the agent written on them, holds in every reachable state of every solution in
flight, in a region or its journal, and of the best solution that each region knows. -/
theorem run_keeps_provenance (hP : Bred P M) {c : Cluster n m d} (h : Empty c)
    {es : List (ClusterEvent K n m)} (hes : ∀ p, .inject p ∈ es → Holds P p.message) :
    Always Config.step (fun c : Cluster n m d =>
      (∀ p ∈ c.net, Holds P p.message) ∧
      ∀ i r, ((c.region i).region = some r ∨
          ∃ snapshot, (c.region i).saved = some snapshot ∧ snapshot.region = some r) →
        (∀ s ∈ r.solutionList, P s) ∧ ∀ s, r.bestSolution = some s → P s) c es := by
  refine (Custody.run_keeps hP.learns h hes).mono fun c ⟨hnet, hregion, _⟩ =>
    ⟨hnet, fun i r hr => ?_⟩
  have hstores : Custody.Stores P r := by
    rcases hr with hr | ⟨snapshot, hsaved, hr⟩
    · exact (hregion i).region r hr
    · exact (hregion i).saved snapshot r hsaved hr
  exact ⟨hstores.solutions, hstores.best⟩

end Runs

section Example

open RegionSafety (early exampleDeployment exampleSolution)
open ManagerTables (freshCluster freshRun)

abbrev Valued (s : Solution ℚ) : Prop := s.functionValue.isSome

theorem bred_valued : Bred Valued fun _ => True where
  stamp _ _ h := h
  build _ _ := trivial
  configure _ _ _ _ := trivial
  run memory solutions context draws _ h := by
    have hhead : ∀ s, solutions.head? = some s → Valued s := fun s hs =>
      h s (List.mem_of_mem_head? hs)
    match memory with
    | .identity => exact ⟨fun _ heq => Option.some.inj heq ▸ h, trivial, hhead⟩
    | .nsga2 => exact ⟨fun _ heq => (by cases heq), trivial, fun _ heq => (by cases heq)⟩
    | .origin =>
        intro y
        cases y with
        | none => exact ⟨trivial, fun _ heq => (by cases heq)⟩
        | some y =>
            refine ⟨fun ss heq s hs => ?_, trivial, fun s heq => ?_⟩
            · obtain rfl := Option.some.inj heq
              obtain rfl := List.mem_singleton.1 hs
              rfl
            · obtain rfl := Option.some.inj heq
              rfl

theorem empty_freshCluster : Empty freshCluster where
  toInitial := initial_start _ _ _
  agent _ := rfl

theorem run_keeps_provenance_example : ∃ c r, freshCluster.run freshRun = some c ∧
    (c.region early).region = some r ∧ r.solutionList ≠ [] ∧ ∀ s ∈ r.solutionList, Valued s := by
  have hregion : (freshCluster.run freshRun).map (fun c =>
      (c.region early).region.map fun r => r.solutionList.length) = some (some 1) := by
    decide +kernel
  obtain ⟨c, hrun, hc⟩ := Option.map_eq_some_iff.1 hregion
  obtain ⟨r, hr, hlength⟩ := Option.map_eq_some_iff.1 hc
  have hinjects : ∀ p, Event.inject p ∈ freshRun → Holds Valued p.message := by
    intro p hp
    simp only [freshRun, List.mem_cons, Event.inject.injEq, reduceCtorEq, List.not_mem_nil,
      or_false, false_or] at hp
    rcases hp with rfl | rfl
    · trivial
    · intro s hs
      obtain rfl := List.mem_singleton.1 hs
      rfl
  have hkeeps :=
    ((run_keeps_provenance bred_valued empty_freshCluster hinjects).last hrun).2 early r
    (Or.inl hr)
  refine ⟨c, r, hrun, hr, fun hnil => ?_, hkeeps.1⟩
  rw [hnil] at hlength
  cases hlength

end Example

end DOptimas.Proofs.Provenance
