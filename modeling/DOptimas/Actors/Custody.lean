import DOptimas.Actors.ClusterInvariant
import DOptimas.Support.Guarantee
/-!
# What the actors do with solutions

They store them, hand them out, split and merge them, and an agent writes its name
on those that its run has returned; no actor makes one.  So what runs and the
environment make sure of holds of every solution in the cluster, and what an
agent's own steps keep holds of every agent and its journal.
-/

namespace DOptimas.Actors.Custody

open DOptimas.Support DOptimas.Core Handler

variable {K : Type} {n m : ℕ}

/-! ## Messages and regions -/

def Holds (P : Solution K → Prop) : Message K n m → Prop
  | .createRegion _ _ solutions _ _ => ∀ s ∈ solutions, P s
  | .solutionResponse _ _ solutions => ∀ s ∈ solutions, P s
  | .mergeResult _ _ solutions => ∀ s ∈ solutions, P s
  | .solutionResult solutions => ∀ s ∈ solutions, P s
  | .regionSplit _ lower higher => (∀ s ∈ lower, P s) ∧ ∀ s ∈ higher, P s
  | .detailedAgentState state => ∀ s, state.bestSolution = some s → P s
  | _ => True

structure Stores (P : Solution K → Prop) (r : Region K) : Prop where
  solutions : ∀ s ∈ r.solutionList, P s
  best : ∀ s, r.bestSolution = some s → P s

section Region

variable {P : Solution K → Prop} {r : Region K}

theorem stores_new (id : ℕ) (problem : Problem) (settings : RegionSettings) :
    Stores P (Region.new id problem settings) :=
  ⟨fun _ hs => absurd hs List.not_mem_nil, fun _ hs => by cases hs⟩

theorem Stores.clear (h : Stores P r) : Stores P r.clear :=
  ⟨fun _ hs => absurd hs List.not_mem_nil, h.best⟩

theorem Stores.addSolution (h : Stores P r) {s : Solution K} (hs : P s) :
    Stores P (r.addSolution s).1 := by
  have hadded : ∀ t ∈ r.solutionList ++ [s], P t := by
    intro t ht
    rcases List.mem_append.1 ht with ht | ht
    · exact h.solutions t ht
    · rw [List.mem_singleton.1 ht]
      exact hs
  unfold Region.addSolution
  dsimp only
  split
  · exact ⟨hadded, h.best⟩
  · split
    · exact ⟨hadded, h.best⟩
    · split
      · exact ⟨hadded, h.best⟩
      · exact ⟨hadded, h.best⟩

/-- Also when one of the solutions makes it throw. -/
theorem Stores.addEach (h : Stores P r) {ss : List (Solution K)} (hss : ∀ s ∈ ss, P s) :
    Stores P (r.addEach ss).1 := by
  induction ss generalizing r with
  | nil => exact h
  | cons s ss ih =>
      have hadd := h.addSolution (hss s List.mem_cons_self)
      unfold Region.addEach
      split
      next r' e heq =>
        rw [heq] at hadd
        exact hadd
      next r' heq =>
        rw [heq] at hadd
        exact ih hadd fun t ht => hss t (List.mem_cons_of_mem s ht)

variable [RealArith K]

theorem getBestSolution_mem {a : SolutionAnalyser} {left right best : Solution K}
    (h : a.getBestSolution left right = .ok best) : best = left ∨ best = right := by
  unfold SolutionAnalyser.getBestSolution at h
  split at h
  · obtain rfl := Except.ok.inj h
    split
    · exact Or.inl rfl
    · exact Or.inr rfl
  · cases h

theorem reduceBest_mem {a : SolutionAnalyser} {ss : List (Solution K)} {best : Solution K}
    (h : a.reduceBest ss = .ok (some best)) : best ∈ ss := by
  have hgo : ∀ (ss : List (Solution K)) (b : Solution K),
      SolutionAnalyser.reduceBest.go a b ss = .ok (some best) → best ∈ b :: ss := by
    intro ss
    induction ss with
    | nil =>
        intro b hb
        obtain rfl : b = best := Option.some.inj (Except.ok.inj hb)
        exact List.mem_cons_self
    | cons s ss ih =>
        intro b hb
        rw [SolutionAnalyser.reduceBest.go] at hb
        split at hb
        · cases hb
        next b' hb' =>
          rcases List.mem_cons.1 (ih b' hb) with rfl | hmem
          · rcases getBestSolution_mem hb' with rfl | rfl
            · exact List.mem_cons_self
            · exact List.mem_cons_of_mem b List.mem_cons_self
          · exact List.mem_cons_of_mem b (List.mem_cons_of_mem s hmem)
  cases ss with
  | nil => cases Except.ok.inj h
  | cons s ss => exact hgo ss s h

theorem Stores.addSolutionsCollection (h : Stores P r) {ss : List (Solution K)}
    (hss : ∀ s ∈ ss, P s) : Stores P (r.addSolutionsCollection ss).1 := by
  have hadd := h.addEach hss
  unfold Region.addSolutionsCollection
  split
  next r' e heq =>
    rw [heq] at hadd
    exact hadd
  next r' heq =>
    rw [heq] at hadd
    dsimp only
    split
    · exact hadd
    next best hbest =>
      have hstored : Stores P { r' with bestSolution := best.or r'.bestSolution } := by
        refine ⟨hadd.solutions, fun s hs => ?_⟩
        rcases Option.or_eq_some_iff.1 hs with hsome | ⟨-, hold⟩
        · subst hsome
          exact hadd.solutions s (reduceBest_mem hbest)
        · exact hadd.best s hold
      split
      · exact hstored
      · exact hstored

theorem Stores.split [CommonsMath K] (h : Stores P r) :
    Stores P r.split.1 ∧
      ∀ lists, r.split.2 = .ok lists → ∀ list ∈ lists, ∀ s ∈ list, P s := by
  have hfilter : ∀ (p : Solution K → Bool), ∀ s ∈ r.solutionList.filter p, P s :=
    fun p s hs => h.solutions s (List.mem_of_mem_filter hs)
  have hmiddle : Stores P (r.clear.addSolutionsCollection r.splitResult.middle).1 :=
    h.clear.addSolutionsCollection (hfilter _)
  unfold Region.split
  split
  · split
    · exact ⟨h, fun lists hlists => by cases hlists⟩
    · split
      next kept e heq =>
        rw [heq] at hmiddle
        exact ⟨hmiddle, fun lists hlists => by cases hlists⟩
      next kept heq =>
        rw [heq] at hmiddle
        refine ⟨hmiddle, fun lists hlists list hlist => ?_⟩
        obtain rfl := Except.ok.inj hlists
        rcases List.mem_cons.1 hlist with rfl | hlist
        · exact hfilter _
        · obtain rfl := List.mem_singleton.1 hlist
          exact hfilter _
  · refine ⟨h, fun lists hlists list hlist s hs => ?_⟩
    obtain rfl := Except.ok.inj hlists
    rcases List.mem_cons.1 hlist with rfl | hlist
    · exact absurd hs List.not_mem_nil
    · obtain rfl := List.mem_singleton.1 hlist
      exact absurd hs List.not_mem_nil

end Region

/-! ## The region actor -/

namespace RegionActor

variable {P : Solution K → Prop}

def Journal (P : Solution K → Prop) (s : RegionActor K n m) : Prop :=
  ∀ snapshot r, s.saved = some snapshot → snapshot.region = some r → Stores P r

structure Keeps (P : Solution K → Prop) (s : RegionActor K n m) : Prop where
  region : ∀ r, s.region = some r → Stores P r
  saved : Journal P s

theorem keeps_new : Keeps P (.new : RegionActor K n m) where
  region _ h := by cases h
  saved _ _ h := by cases h

theorem Keeps.recover {s : RegionActor K n m} (h : Journal P s) : Keeps P s.recover := by
  unfold RegionActor.recover
  split
  · exact keeps_new
  next snapshot hs => exact ⟨fun r hr => h snapshot r hs hr, h⟩

theorem Keeps.of_eq {s t : RegionActor K n m} (h : Keeps P s) (hregion : t.region = s.region)
    (hsaved : t.saved = s.saved) : Keeps P t :=
  ⟨fun r hr => h.region r (hregion ▸ hr), fun snapshot r hs => h.saved snapshot r (hsaved ▸ hs)⟩

theorem Keeps.store {s : RegionActor K n m} (h : Keeps P s) {r : Region K} (hr : Stores P r) :
    Keeps P { s with region := some r } :=
  ⟨fun _ hr' => Option.some.inj hr' ▸ hr, h.saved⟩

/-- The messages satisfy `P`, no question is asked, and the journal is sound when it is needed. -/
def keepContract (P : Solution K → Prop) (n m : ℕ) :
    Contract Failure (RegionActor K n m) (ActorRef n m) (Message K n m) Unit :=
  Contract.plain (fun _ _ message => Holds P message) (fun _ _ _ => False) fun _ s => Journal P s

abbrev Preserves (P : Solution K → Prop) {α : Type} (x : Receive K n m (RegionActor K n m) α) :
    Prop :=
  Meets (keepContract P n m) (fun s _ => Keeps P s) x fun _ s _ => Keeps P s

theorem preserves_deref {α : Type} {e : Failure} {field : RegionActor K n m → Option α} :
    Preserves P (deref e field) :=
  meets_deref_const fun _ _ h => h.saved

theorem preserves_throw {α : Type} (e : Failure) :
    Preserves P (throw e : Receive K n m (RegionActor K n m) α) :=
  meets_throw_const fun _ _ h => h.saved

theorem preserves_tell {dst sender : ActorRef n m} {message : Message K n m}
    (h : Holds P message) : Preserves P (tell dst sender message) :=
  fun _ _ hs => ⟨h, hs⟩

theorem preserves_update {f : RegionActor K n m → RegionActor K n m}
    (hf : ∀ s, Keeps P s → Keeps P (f s)) : Preserves P (update f) :=
  fun s _ hs => hf s hs

theorem preserves_region {α : Type} {x : Region K → Receive K n m (RegionActor K n m) α}
    (h : ∀ r, Stores P r → Preserves P (x r)) :
    Preserves P (deref (.nullPointer .region) RegionActor.region >>= x) := by
  intro s g hs
  cases hr : s.region with
  | none =>
      rw [bind_apply, deref_none hr]
      exact hs.saved
  | some r =>
      rw [bind_apply, deref_some hr]
      exact h r (hs.region r hr) s g hs

theorem preserves_saveSnapshot :
    Preserves P (RegionActor.saveSnapshot : RegionActor.RegionReceive K n m) := by
  refine preserves_update fun s hs => ⟨hs.region, fun snapshot r hsaved hr => ?_⟩
  obtain rfl := Option.some.inj hsaved
  exact hs.region r hr

theorem preserves_problemToString :
    Preserves P (RegionActor.problemToString : RegionActor.RegionReceive K n m) :=
  preserves_deref.bind fun _ => meets_pure_const ()

theorem preserves_cancelTask :
    Preserves P (RegionActor.cancelTask : RegionActor.RegionReceive K n m) :=
  preserves_deref.bind fun _ => preserves_update fun _ hs => hs.of_eq rfl rfl

theorem preserves_tellLeader (id : Fin n) {message : Message K n m} (h : Holds P message) :
    Preserves P (RegionActor.tellLeader id message) :=
  preserves_deref.bind fun _ => preserves_tell h

theorem preserves_solutionState (solution : Solution K) :
    Preserves P (RegionActor.solutionState solution : RegionActor.RegionReceive K n m) := by
  unfold RegionActor.solutionState
  split
  · exact preserves_throw _
  · refine preserves_problemToString.bind fun _ => ?_
    split
    · exact preserves_throw _
    · exact meets_pure_const ()

theorem preserves_regionState :
    Preserves P (RegionActor.regionState : RegionActor.RegionReceive K n m) := by
  refine preserves_deref.bind fun r => preserves_problemToString.bind fun _ => ?_
  split
  · exact preserves_throw _
  · exact meets_pure_const ()

section Handlers

variable [RealArith K]

theorem preserves_addSolutions (id : Fin n) {solutions : List (Solution K)}
    (h : ∀ s ∈ solutions, P s) :
    Preserves P (RegionActor.addSolutions id solutions : RegionActor.RegionReceive K n m) := by
  refine preserves_region fun r hr => Meets.bind (Q := fun _ s _ => Keeps P s) ?_ fun _ =>
    preserves_saveSnapshot.bind fun _ =>
    Meets.bind (meets_forEach_const fun s _ => preserves_solutionState s) fun _ =>
    preserves_regionState.bind fun _ => preserves_deref.bind fun _ =>
    (preserves_tellLeader id (by trivial)).bind fun _ => preserves_problemToString
  refine Meets.bind (Q := fun _ s _ => Keeps P s)
    (preserves_update fun s hs => hs.store (hr.addSolutionsCollection h)) fun _ => ?_
  split
  · exact preserves_throw _
  · exact meets_pure_const ()

theorem preserves_onCreate (id : Fin n) (sender : ActorRef n m) (settings : RegionSettings)
    {solutions : List (Solution K)} (h : ∀ s ∈ solutions, P s) (time : ℕ) (problem : Problem) :
    Preserves P (RegionActor.onCreate id sender settings solutions time problem) := by
  refine Meets.bind (Q := fun _ s _ => Keeps P s) ?_ fun _ => preserves_saveSnapshot
  refine Meets.bind (Q := fun _ s _ => Keeps P s) (preserves_update fun s hs =>
    (hs.store (stores_new id.val problem settings)).of_eq rfl rfl) fun _ =>
    (preserves_addSolutions id h).bind fun _ => preserves_deref.bind fun r =>
    (preserves_tell (by trivial)).bind fun _ =>
    preserves_update fun _ hs => hs.of_eq rfl rfl

omit [RealArith K] in
theorem preserves_onSolutionRequest (id : Fin n) (choices : List ℕ) (sender : ActorRef n m)
    (receiverId counter : ℤ) :
    Preserves P (RegionActor.onSolutionRequest id choices sender receiverId counter :
      RegionActor.RegionReceive K n m) := by
  refine preserves_problemToString.bind fun _ => preserves_region fun r hr => ?_
  split
  · split
    · exact preserves_throw _
    next solutions hsample =>
      refine Meets.bind (preserves_tell (show Holds P (.solutionResponse _ _ solutions) from ?_))
        fun _ => preserves_problemToString
      exact fun s hs => hr.solutions s (mem_of_mem_nextSample hsample hs)
  · exact meets_pure_const ()

variable [CommonsMath K]

omit [RealArith K] [CommonsMath K] in
theorem preserves_announceSplit (id : Fin n) {lists : List (List (Solution K))}
    (h : ∀ list ∈ lists, ∀ s ∈ list, P s) :
    Preserves P (RegionActor.announceSplit id lists : RegionActor.RegionReceive K n m) := by
  match lists, h with
  | [], _ =>
      exact preserves_deref.bind fun _ => (preserves_tellLeader id (by trivial)).bind fun _ =>
        preserves_problemToString
  | [_], _ => exact preserves_throw _
  | lower :: higher :: _, h =>
      have hholds : Holds P (.regionSplit id lower higher : Message K n m) :=
        ⟨h lower List.mem_cons_self, h higher (List.mem_cons_of_mem lower List.mem_cons_self)⟩
      exact (preserves_tellLeader id hholds).bind fun _ => preserves_problemToString.bind
        fun _ => preserves_saveSnapshot

theorem preserves_onInternalStimulus (id : Fin n) :
    Preserves P (RegionActor.onInternalStimulus id : RegionActor.RegionReceive K n m) := by
  refine meets_get_bind fun s => ?_
  split
  · exact fun _ _ hs => hs.2
  · exact fun _ _ hs => hs.2
  next r summary hr hsummary =>
    rintro _ g ⟨rfl, hs⟩
    have hstores := (hs.region r hr).split
    refine (show Preserves P _ from ?_) _ g hs
    split
    · refine Meets.bind (Q := fun _ s _ => Keeps P s)
        (preserves_update fun s hs => hs.store hstores.1) fun _ => ?_
      split
      · exact preserves_throw _
      next lists hlists => exact preserves_announceSplit id (hstores.2 lists hlists)
    · exact meets_pure_const ()

/-- A region keeps `P` of all that it holds, if what it receives has `P`. -/
theorem preserves_receive (id : Fin n) (choices : List ℕ) (sender : ActorRef n m)
    {message : Message K n m} (h : Holds P message) :
    Preserves P (RegionActor.receive id choices sender message) := by
  cases message with
  | createRegion j settings solutions time problem =>
      exact preserves_onCreate id sender settings h time problem
  | setLeader leader =>
      exact Meets.bind (Q := fun _ s _ => Keeps P s)
        (preserves_update fun _ hs => hs.of_eq rfl rfl) fun _ => preserves_saveSnapshot
  | solutionResponse j i solutions =>
      exact preserves_problemToString.bind fun _ => preserves_addSolutions id h
  | solutionRequest j i counter => exact preserves_onSolutionRequest id choices sender i counter
  | mergeRequest j i summary space =>
      refine preserves_problemToString.bind fun _ => preserves_deref.bind fun r =>
        preserves_deref.bind fun merged => Meets.bind (Q := fun _ s _ => Keeps P s) ?_ fun _ => ?_
      · unfold RegionActor.compareMeans
        split
        · exact meets_pure_const ()
        · exact preserves_throw _
      · split
        · exact (preserves_tell (by trivial)).bind fun _ =>
            preserves_problemToString
        · exact meets_pure_const ()
  | mergeResponse j i =>
      refine preserves_problemToString.bind fun _ => meets_get_bind fun s => ?_
      split
      · exact fun _ _ hs => hs.2
      next r hr =>
        rintro _ g ⟨rfl, hs⟩
        refine (show Preserves P _ from ?_) _ g hs
        refine Meets.bind (preserves_tell (hs.region r hr).solutions) fun _ => ?_
        refine (preserves_tellLeader id (by trivial)).bind fun _ => preserves_problemToString.bind
          fun _ => preserves_cancelTask.bind fun _ => Meets.bind (Q := fun _ s _ => Keeps P s)
          (preserves_update fun s hs => ?_) fun _ => preserves_saveSnapshot
        exact ⟨fun _ hnone => (by cases hnone), hs.saved⟩
  | mergeResult j i solutions =>
      exact preserves_problemToString.bind fun _ => preserves_addSolutions id h
  | internalStimulus => exact preserves_onInternalStimulus id
  | updateGlobalSummary j summary time ids =>
      exact preserves_problemToString.bind fun _ => preserves_update fun _ hs => hs.of_eq rfl rfl
  | stopSimulation =>
      exact preserves_cancelTask.bind fun _ => preserves_region fun r hr =>
        Meets.bind (Q := fun _ s _ => Keeps P s)
          (preserves_update fun s hs => (hs.store hr.clear).of_eq rfl rfl) fun _ =>
        preserves_tell (by trivial)
  | _ => exact meets_pure_const ()

end Handlers

end RegionActor

/-! ## The agent actor -/

section Agents

variable [RealArith K] [MetaHeuristics K]

/-- However its evaluations turn out, a run returns solutions with `P` and leaves what `N`
says of the memory and the context. -/
def Yields (P : Solution K → Prop) (N : MetaHeuristics.Memory K → AgentContext K → Prop) :
    Run (MetaHeuristics.Memory K) K → Prop
  | .done result memory context =>
      (∀ solutions, result = some solutions → ∀ s ∈ solutions, P s) ∧ N memory context
  | .throws memory context => N memory context
  | .evaluateFunction _ next => ∀ y, Yields P N (next y)

structure Learns (P : Solution K → Prop) (R : Agent K → Prop) : Prop where
  stamp : ∀ (s : Solution K) j, P s → P { s with agent := some j }
  new : ∀ problem settings, R (Agent.new problem settings)
  reset : ∀ a problem, R a → R (a.reset problem)
  updateMemory : ∀ a choices ids, R a → R (a.updateMemory choices ids)
  run : ∀ a solutions draws, R a → (∀ s ∈ solutions, P s) →
    Yields P (fun memory context => R { a with metaHeuristic := memory, context := context })
      (a.runAlgorithm solutions draws)
  learn : ∀ a result region a' solutions, R a → (∀ s ∈ solutions, P s) →
    a.learn result region = .ok (a', solutions) → R a'
  best : ∀ a s, R a → a.context.bestSolution = some s → P s

namespace AgentActor

variable {P : Solution K → Prop} {R : Agent K → Prop}

def Journal (R : Agent K → Prop) (s : AgentActor K n m) : Prop :=
  ∀ snapshot a, s.saved = some snapshot → snapshot.agent = some a → R a

structure Keeps (R : Agent K → Prop) (s : AgentActor K n m) : Prop where
  agent : ∀ a, s.agent = some a → R a
  saved : Journal R s

theorem keeps_new : Keeps R (.new : AgentActor K n m) where
  agent _ h := by cases h
  saved _ _ h := by cases h

theorem Keeps.recover {s : AgentActor K n m} (h : Journal R s) (j : Fin m) :
    Keeps R (s.recover j).1 := by
  unfold AgentActor.recover
  split
  · exact keeps_new
  next snapshot hs => exact ⟨fun a ha => h snapshot a hs ha, h⟩

theorem Keeps.of_eq {s t : AgentActor K n m} (h : Keeps R s) (hagent : t.agent = s.agent)
    (hsaved : t.saved = s.saved) : Keeps R t :=
  ⟨fun a ha => h.agent a (hagent ▸ ha), fun snapshot a hs => h.saved snapshot a (hsaved ▸ hs)⟩

theorem Keeps.set {s : AgentActor K n m} (h : Keeps R s) {a : Agent K} (ha : R a) :
    Keeps R { s with agent := some a } :=
  ⟨fun _ ha' => Option.some.inj ha' ▸ ha, h.saved⟩

def keepContract (P : Solution K → Prop) (R : Agent K → Prop) (n m : ℕ) :
    Contract Failure (AgentActor K n m) (ActorRef n m) (Message K n m) Unit :=
  Contract.plain (fun _ _ message => Holds P message)
    (fun s _ message => Keeps R s ∧ Holds P message) fun _ s => Journal R s

abbrev Preserves (P : Solution K → Prop) (R : Agent K → Prop) {α : Type}
    (x : AgentActor.AgentReceive K n m α) : Prop :=
  Meets (keepContract P R n m) (fun s _ => Keeps R s) x fun _ s _ => Keeps R s

theorem preserves_deref {α : Type} {e : Failure} {field : AgentActor K n m → Option α} :
    Preserves P R (deref e field) :=
  meets_deref_const fun _ _ h => h.saved

theorem preserves_throw {α : Type} (e : Failure) :
    Preserves P R (throw e : AgentActor.AgentReceive K n m α) :=
  meets_throw_const fun _ _ h => h.saved

theorem preserves_tell {dst sender : ActorRef n m} {message : Message K n m}
    (h : Holds P message) : Preserves P R (tell dst sender message) :=
  fun _ _ hs => ⟨h, hs⟩

theorem preserves_update {f : AgentActor K n m → AgentActor K n m}
    (hf : ∀ s, Keeps R s → Keeps R (f s)) : Preserves P R (update f) :=
  fun s _ hs => hf s hs

theorem preserves_setAgent {a : Agent K} (h : R a) :
    Preserves P R (AgentActor.setAgent a : AgentActor.AgentReceive K n m Unit) :=
  preserves_update fun _ hs => hs.set h

theorem meets_getAgent {α : Type} {x : Agent K → AgentActor.AgentReceive K n m α}
    {Q : α → AgentActor K n m → Unit → Prop}
    (h : ∀ a, R a →
      Meets (keepContract P R n m) (fun s _ => Keeps R s) (x a) Q) :
    Meets (keepContract P R n m) (fun s _ => Keeps R s) (AgentActor.getAgent >>= x) Q := by
  intro s g hs
  unfold AgentActor.getAgent
  cases ha : s.agent with
  | none =>
      rw [bind_apply, deref_none ha]
      exact hs.saved
  | some a =>
      rw [bind_apply, deref_some ha]
      exact h a (hs.agent a ha) s g hs

theorem preserves_saveSnapshot :
    Preserves P R (AgentActor.saveSnapshot : AgentActor.AgentReceive K n m Unit) := by
  refine preserves_update fun s hs => ⟨hs.agent, fun snapshot a hsaved ha => ?_⟩
  obtain rfl := Option.some.inj hsaved
  exact hs.agent a ha

theorem preserves_problemToString :
    Preserves P R (AgentActor.problemToString : AgentActor.AgentReceive K n m Unit) := by
  refine meets_getAgent fun a _ => ?_
  split
  · exact preserves_throw _
  · exact meets_pure_const ()

theorem preserves_cancelTask :
    Preserves P R (AgentActor.cancelTask : AgentActor.AgentReceive K n m Unit) :=
  preserves_deref.bind fun _ => preserves_update fun _ hs => hs.of_eq rfl rfl

/-- By induction on the run, whose questions carry no solutions. -/
theorem meets_runAlgorithm {N : MetaHeuristics.Memory K → AgentContext K → Prop}
    {run : Run (MetaHeuristics.Memory K) K} (h : Yields P N run) :
    Meets (keepContract P R n m) (fun s _ => Keeps R s) (AgentActor.runAlgorithm run)
      fun (result, memory, context) s _ => Keeps R s ∧
        (∀ solutions, result = some solutions → ∀ t ∈ solutions, P t) ∧ N memory context := by
  induction run with
  | done result memory context => exact fun _ _ hs => ⟨hs, h⟩
  | throws memory context =>
      refine fun _ _ hs => ⟨hs, fun solutions hsolutions t ht => ?_, h⟩
      obtain rfl := Option.some.inj hsolutions
      exact absurd ht List.not_mem_nil
  | evaluateFunction x next ih =>
      exact fun s g hs => ⟨⟨hs, trivial⟩, fun r _ => ih _ (h _) s g hs⟩

variable (hR : Learns P R)
include hR

theorem meets_processMetaHeuristic (draws : List (Draw K)) (region : ℤ)
    {solutions : List (Solution K)} (h : ∀ s ∈ solutions, P s) :
    Meets (keepContract P R n m) (fun s _ => Keeps R s)
      (AgentActor.processMetaHeuristic draws solutions region :
        AgentActor.AgentReceive K n m (List (Solution K)))
      fun result s _ => Keeps R s ∧ ∀ t ∈ result, P t := by
  refine meets_getAgent fun a ha => ?_
  refine Meets.bind (meets_runAlgorithm (hR.run a _ draws ha h)) ?_
  rintro ⟨result, memory, context⟩ s g ⟨hs, hresult, hran⟩
  refine (show Meets (keepContract P R n m) (fun s _ => Keeps R s) _ _ from ?_) s g hs
  refine Meets.bind (preserves_setAgent hran) fun _ => ?_
  split
  · exact meets_throw_const fun _ _ h => h.saved
  next a' result' hlearn =>
    have hlist := hresult result' (Agent.problem_learn hlearn).2
    refine Meets.bind (preserves_setAgent (hR.learn _ _ _ _ _ hran hlist hlearn)) fun _ => ?_
    exact fun _ _ hs => ⟨hs, hlist⟩

theorem preserves_processSolutionList (j : Fin m) (draws : List (Draw K)) (region : ℤ)
    {solutions : List (Solution K)} (h : ∀ s ∈ solutions, P s) :
    Preserves P R (AgentActor.processSolutionList j draws region solutions :
      AgentActor.AgentReceive K n m Unit) := by
  refine Meets.bind (meets_processMetaHeuristic hR draws region h) fun result => ?_
  rintro s g ⟨hs, hresult⟩
  have hstamped : ∀ t ∈ result.map fun t => ({ t with agent := some j.val } : Solution K), P t := by
    intro t ht
    obtain ⟨t', ht', rfl⟩ := List.mem_map.1 ht
    exact hR.stamp t' _ (hresult t' ht')
  refine (show Preserves P R _ from ?_) s g hs
  exact Meets.bind (meets_forEach_const fun _ _ => preserves_problemToString) fun _ =>
    preserves_problemToString.bind fun _ => preserves_saveSnapshot.bind fun _ =>
    preserves_deref.bind fun _ => preserves_tell hstamped

omit hR in
theorem preserves_requestSolutions (j : Fin m) (a : Agent K) (region : Option ℤ) :
    Preserves P R (AgentActor.requestSolutions j a region :
      AgentActor.AgentReceive K n m Unit) := by
  cases region with
  | none => exact preserves_deref.bind fun _ => preserves_tell (by trivial)
  | some region =>
      exact Meets.bind (preserves_tell (by trivial)) fun _ => preserves_problemToString

omit hR in
theorem preserves_requestByMemory (j : Fin m) (a : Agent K) (draws : List (Draw K)) :
    Preserves P R (AgentActor.requestByMemory j a draws : AgentActor.AgentReceive K n m Unit) := by
  match draws with
  | [] => exact fun _ _ _ => trivial
  | [_] => exact fun _ _ _ => trivial
  | draw :: dice :: rest =>
      change Preserves P R (AgentActor.requestChosen j a (a.chooseRegion draw dice))
      cases a.chooseRegion draw dice with
      | error e => exact preserves_throw _
      | ok region => exact preserves_requestSolutions j a region

/-- An agent keeps `P` of all that it remembers and sends, if what it receives has `P`. -/
theorem preserves_receive (settings : Problem) (cooperation : Bool) (j : Fin m)
    (oracle : Oracle K) (sender : ActorRef n m) {message : Message K n m} (h : Holds P message) :
    Preserves P R (AgentActor.receive settings cooperation j oracle sender message) := by
  cases message with
  | solutionRequest i k counter =>
      refine preserves_problemToString.bind fun _ => meets_getAgent fun a _ => ?_
      split
      · exact preserves_tell fun s hs => absurd hs List.not_mem_nil
      · exact meets_pure_const ()
  | solutionResponse i k solutions =>
      exact preserves_problemToString.bind fun _ => preserves_processSolutionList hR j _ _ h
  | createAgent i leader agentSettings =>
      refine Meets.bind (Q := fun _ s _ => Keeps R s) (preserves_update fun s hs => ?_) fun _ =>
        Meets.bind (preserves_tell (by trivial)) fun _ => preserves_saveSnapshot
      exact (hs.set (hR.new settings agentSettings)).of_eq rfl rfl
  | internalStimulus =>
      refine meets_get_const fun s => ?_
      split
      · exact meets_pure_const ()
      · split
        · exact meets_pure_const ()
        · split
          · exact preserves_processSolutionList hR j _ _ fun s hs => absurd hs List.not_mem_nil
          · split
            · exact meets_pure_const ()
            · exact preserves_requestByMemory j _ _
  | updateGlobalSummary i summary time ids =>
      refine Meets.bind (Q := fun _ s _ => Keeps R s)
        (preserves_update fun _ hs => hs.of_eq rfl rfl) fun _ => meets_getAgent fun a ha => ?_
      refine Meets.bind (preserves_setAgent (hR.updateMemory _ _ _ ha)) fun _ =>
        meets_get_const fun s => ?_
      split
      · exact preserves_cancelTask
      · exact meets_pure_const ()
  | startSimulation problem =>
      refine meets_getAgent fun a ha => ?_
      have hreset : R ((problem.map a.reset).getD a) := by
        cases problem with
        | none => exact ha
        | some p => exact hR.reset a p ha
      exact Meets.bind (preserves_setAgent hreset) fun _ =>
        preserves_update fun _ hs => hs.of_eq rfl rfl
  | stopSimulation =>
      exact preserves_cancelTask.bind fun _ => Meets.bind (Q := fun _ s _ => Keeps R s)
        (preserves_update fun _ hs => hs.of_eq rfl rfl) fun _ => preserves_tell (by trivial)
  | getState =>
      refine meets_get_bind fun s => ?_
      split
      · exact fun _ _ hs => ⟨trivial, hs.2⟩
      next a ha =>
        rintro _ g ⟨rfl, hs⟩
        exact ⟨fun t ht => hR.best a t (hs.agent a ha) ht, hs⟩
  | _ => exact meets_pure_const ()

end AgentActor

end Agents

/-! ## The manager -/

namespace SimulationActor

variable {P : Solution K → Prop} {k : ℕ}

abbrev Says (P : Solution K → Prop) {α : Type} (x : SimulationActor.SimulationReceive K n m α) :
    Prop :=
  SendsOnly (fun _ _ message => Holds P message) (fun _ message => Holds P message) x

theorem stopping_holds : SimulationActor.Stopping (K := K) (n := n) (m := m)
    (fun _ _ message => Holds P message) (fun _ message => Holds P message) k where
  summary _ _ _ _ _ := trivial
  stopped _ _ := trivial
  question _ := trivial

theorem says_announceLeader {i : ℕ} (table : Fin i → Option (ActorRef n m)) :
    Says P (SimulationActor.announceLeader k table) := by
  refine .forEach fun id _ => ?_
  split
  · exact .pure
  · exact .tell trivial

theorem says_onLeaderChanged (leader : Option ℕ) :
    Says P (SimulationActor.onLeaderChanged k leader :
      SimulationActor.SimulationReceive K n m Unit) := by
  unfold SimulationActor.onLeaderChanged
  split
  · exact .update _
  · split
    · refine .bind (.update _) fun _ => .bind .get fun s => ?_
      split
      · exact .bind (says_announceLeader _) fun _ => says_announceLeader _
      · exact .pure
    · exact .update _

theorem says_onStartSimulation (sender : ActorRef n m) (problem : Option Problem) :
    Says P (SimulationActor.onStartSimulation k sender problem :
      SimulationActor.SimulationReceive K n m Unit) := by
  refine .bind (.update _) fun _ => .bind .get fun s => .bind (.forEach fun id _ => ?_) fun _ =>
    .bind (.update _) fun _ => .tell trivial
  split
  · exact .pure
  · exact .tell trivial

variable [RealArith K] [CommonsMath K] {settings : SimulationSettings}

theorem says_sendToRegion (round : K → JDouble K) (draws : List (Draw K)) (senderId : ℤ)
    {solutions : List (Solution K)} (h : ∀ s ∈ solutions, P s) :
    Says P (SimulationActor.sendToRegion k round draws senderId solutions :
      SimulationActor.SimulationReceive K n m Unit) := by
  refine .bind (fun s _ _ => ?_) fun id => .bind .deref fun region => .tell h
  unfold SimulationActor.selectRegion
  split <;> trivial

theorem says_placeHalf (round : K → JDouble K) (draws : List (Draw K))
    {solutions fallback : List (Solution K)} (h : ∀ s ∈ solutions, P s)
    (hfallback : ∀ s ∈ fallback, P s) :
    Says P (SimulationActor.placeHalf settings k round draws solutions fallback :
      SimulationActor.SimulationReceive K n m Unit) := by
  unfold SimulationActor.placeHalf
  split
  · exact .pure
  · refine .bind SimulationActor.sends_nextRegionId fun id => ?_
    split
    · exact .bind .get fun _ => .tell h
    · exact says_sendToRegion _ _ _ hfallback

theorem says_onSolutionResult (oracle : Oracle K) {solutions : List (Solution K)}
    (h : ∀ s ∈ solutions, P s) :
    Says P (SimulationActor.onSolutionResult settings k oracle solutions :
      SimulationActor.SimulationReceive K n m Unit) := by
  unfold SimulationActor.onSolutionResult
  split
  · exact .pure
  · refine .bind .get fun s => ?_
    split
    · refine .bind SimulationActor.sends_nextRegionId fun id => ?_
      split
      · exact .pure
      · exact .bind .get fun _ => .tell h
    · exact says_sendToRegion _ _ _ h

/-- A manager passes on solutions with `P` only, if what it receives has `P`. -/
theorem says_receive (oracle : Oracle K) (sender : ActorRef n m) {message : Message K n m}
    (h : Holds P message) :
    Says P (SimulationActor.receive settings k oracle sender message) := by
  cases message with
  | leaderChanged leader => exact says_onLeaderChanged leader
  | leaderResolved leader => exact .update _
  | agentRegister id ref =>
      exact SimulationActor.sends_onAgentRegister sender id ref fun _ => trivial
  | agentRelease id => exact .update _
  | regionRegister id stats =>
      exact SimulationActor.sends_onRegionRegister stopping_holds sender id stats fun _ => trivial
  | solutionResult solutions => exact says_onSolutionResult oracle h
  | solutionRequest i j counter =>
      exact SimulationActor.sends_forwardToRegions sender _ _ fun _ => trivial
  | regionSplit i lower higher =>
      exact .bind (says_placeHalf _ _ h.1 h.2) fun _ => says_placeHalf _ _ h.2 h.2
  | mergeRequest i j summary space =>
      exact SimulationActor.sends_forwardToRegions sender _ _ fun _ => trivial
  | regionRelease id => exact SimulationActor.sends_onRegionRelease stopping_holds id
  | updateRegionSummary id summary =>
      exact SimulationActor.sends_updateRegionSummary stopping_holds id summary
  | startSimulation problem => exact says_onStartSimulation sender problem
  | stopSimulation =>
      exact SimulationActor.sends_onStopSimulation stopping_holds sender fun _ => trivial
  | getState => exact .bind .get fun _ => .tell trivial
  | terminate => exact fun _ _ _ => trivial
  | _ => exact .pure

end SimulationActor

/-! ## The cluster -/

section Cluster

variable [RealArith K] [CommonsMath K] [MetaHeuristics K] {d : Deployment K}
  {P : Solution K → Prop} {R : Agent K → Prop}

/-- Regions keep solutions with `P`, agents keep `R`, and no other solutions are sent. -/
def keepers (P : Solution K → Prop) (R : Agent K → Prop) (n m : ℕ)
    (d : Deployment K) : Guarantee (cluster n m d) where
  idle
    | .region _, s => RegionActor.Keeps P s
    | .agent _, s => AgentActor.Keeps R s
    | _, _ => True
  blocked
    | .region _, _, _ => False
    | .agent _, s, _ => AgentActor.Keeps R s
    | _, _, _ => True
  message _ _ _ message := Holds P message

theorem keepers_kept (hR : Learns P R) : (keepers P R n m d).Kept := by
  intro a choices src sender message s hmessage hs
  cases a with
  | node k =>
      exact Guarantee.ends_of_sends (G := keepers P R n m d) (a := .node k)
        (SimulationActor.says_receive choices.toOracle sender hmessage) (fun _ => trivial)
        (fun _ _ _ hm => ⟨trivial, fun _ => hm⟩) (fun _ _ hout => absurd hout List.not_mem_nil) s
  | region i =>
      refine Process.Sat.imp ?_ ?_ ?_ ?_ ?_
        (RegionActor.preserves_receive i choices.choices sender hmessage s () hs)
      · exact fun _ h => h
      · exact fun _ _ _ h => h.elim
      · exact fun _ _ _ _ => trivial
      · exact fun _ _ h =>
          ⟨RegionActor.Keeps.recover h, fun _ hout => absurd hout List.not_mem_nil⟩
      · exact fun _ => trivial
  | agent j =>
      refine Process.Sat.imp ?_ ?_ ?_ ?_ ?_ (AgentActor.preserves_receive hR d.settings.problem
        d.settings.hasCooperation j choices.toOracle sender hmessage s () hs)
      · exact fun _ h => h
      · exact fun _ _ _ h => ⟨h.1, fun _ => h.2⟩
      · exact fun _ _ _ _ => trivial
      · intro _ s h
        refine ⟨AgentActor.Keeps.recover h j, fun out hout => ?_⟩
        change out ∈ (AgentActor.recover j s).2 at hout
        unfold AgentActor.recover at hout
        split at hout
        · exact absurd hout List.not_mem_nil
        · obtain ⟨leader, -, rfl⟩ := List.mem_map.1 hout
          trivial
      · exact fun _ => trivial
  | benchmark =>
      exact Guarantee.ends_of_sends (G := keepers P R n m d) (a := .benchmark)
        (Q := fun _ _ => False)
        (BenchmarkActor.sends_receive ⟨trivial, trivial, fun _ => trivial, fun _ _ => trivial⟩
          d.evaluateFunction choices.extraction sender message) (fun _ => trivial)
        (fun _ _ _ hm => hm.elim) (fun _ _ hout => absurd hout List.not_mem_nil) s
  | main =>
      exact Guarantee.ends_of_sends (G := keepers P R n m d) (a := .main) (Q := fun _ _ => False)
        (sends_mainReceive d.settings (fun _ => trivial) (fun _ => trivial) message)
        (fun _ => trivial) (fun _ _ _ hm => hm.elim)
        (fun _ _ hout => absurd hout List.not_mem_nil) s
  | client c => trivial
  | stray id => trivial

structure Empty (c : Cluster n m d) : Prop extends Initial c where
  agent : ∀ j, c.agent j = .new

theorem Empty.holds {c : Cluster n m d} (h : Empty c) : (keepers P R n m d).Holds c where
  idle a _ := by
    cases a with
    | region i =>
        change RegionActor.Keeps P (c.region i)
        rw [h.region i]
        exact RegionActor.keeps_new
    | agent j =>
        change AgentActor.Keeps R (c.agent j)
        rw [h.agent j]
        exact AgentActor.keeps_new
    | _ => trivial
  waiting a q next hwait := by
    rw [h.waiting a] at hwait
    cases hwait
  net p hp := by
    rw [h.net] at hp
    cases hp

/-- Whatever is sent and in whatever order it is delivered. -/
theorem run_keeps (hR : Learns P R) {c : Cluster n m d} (h : Empty c)
    {es : List (ClusterEvent K n m)} (hes : ∀ p, .inject p ∈ es → Holds P p.message) :
    Always Config.step (fun c : Cluster n m d => (∀ p ∈ c.net, Holds P p.message) ∧
      (∀ i, RegionActor.Keeps P (c.region i)) ∧ ∀ j, AgentActor.Keeps R (c.agent j)) c es := by
  have hinjects : ∀ e ∈ es, e.Injects (keepers P R n m d).message := by
    intro e he
    cases e with
    | inject p => exact hes p he
    | deliver src dst choices => trivial
    | expire a => trivial
  refine (h.holds.always (keepers_kept hR) hinjects).mono fun c hc =>
    ⟨hc.net, fun i => ?_, fun j => ?_⟩
  · cases hwait : c.waiting (.region i) with
    | none => exact hc.idle _ hwait
    | some q => exact (hc.waiting _ q.1 q.2 hwait).1.elim
  · cases hwait : c.waiting (.agent j) with
    | none => exact hc.idle _ hwait
    | some q => exact (hc.waiting _ q.1 q.2 hwait).1

end Cluster

end DOptimas.Actors.Custody
