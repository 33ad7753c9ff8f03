import DOptimas.Actors.ClusterInvariant
import DOptimas.Core.SampleHeuristics
/-!
# Missing fields of a region actor

When a handler of a region actor finds a region, a problem, a timer or a best
solution missing.  A region that has not been created, has merged itself away or
has been restarted lacks some of them, while its id stays known to others.
-/

namespace DOptimas.Proofs.RegionSafety

open DOptimas.Support DOptimas.Core DOptimas.Actors DOptimas.Actors.RegionActor Handler

variable {K : Type} {n m : ℕ}

/-- The null pointers about the fields that `CreateRegion` fills in. -/
def MissingField : Failure → Prop
  | .nullPointer .region => True
  | .nullPointer .problem => True
  | .nullPointer .timer => True
  | .nullPointer .bestSolution => True
  | _ => False

theorem BadSolution.not_missingField {e : Failure} (h : e.BadSolution) : ¬MissingField e := by
  unfold Failure.BadSolution at h
  split at h <;> simp_all [MissingField]

def FailsOnField {σ : Type} (p : Process Failure σ (ActorRef n m) (Message K n m) Unit) : Prop :=
  ∃ e t, p.outcome = .failed e t ∧ MissingField e

section Shapes

variable {σ : Type} {s : σ} {e : Failure}

theorem not_failsOnField_ret :
    ¬FailsOnField (.ret () s : Process Failure σ (ActorRef n m) (Message K n m) Unit) := by
  simp [FailsOnField]

theorem failsOnField_fail :
    FailsOnField (.fail e s : Process Failure σ (ActorRef n m) (Message K n m) Unit) ↔
      MissingField e := by
  simp [FailsOnField]

theorem failsOnField_tell (dst sender : ActorRef n m) (message : Message K n m)
    (p : Process Failure σ (ActorRef n m) (Message K n m) Unit) :
    FailsOnField (.tell dst sender message p) ↔ FailsOnField p := Iff.rfl

end Shapes

/-- The fields that the handler of a message needs are there. -/
def Prepared [RealArith K] [CommonsMath K] (s : RegionActor K n m) : Message K n m → Prop
  | .solutionRequest _ _ _ => s.problem ≠ none ∧ s.region ≠ none
  | .solutionResponse _ _ _ => s.problem ≠ none ∧ s.region ≠ none
  | .mergeRequest _ _ _ _ => s.problem ≠ none ∧ s.region ≠ none
  | .mergeResult _ _ _ => s.problem ≠ none ∧ s.region ≠ none
  | .mergeResponse _ _ => s.problem ≠ none
  | .updateGlobalSummary _ _ _ _ => s.problem ≠ none
  | .stopSimulation => s.internalTask ≠ none ∧ s.region ≠ none
  | .internalStimulus => Unbalanced s → s.problem ≠ none
  | _ => True

section Handlers

variable (id : Fin n) (sender : ActorRef n m) {s : RegionActor K n m} (h : Sound s)
include h

theorem fails_addSolutions_iff [RealArith K] (solutions : List (Solution K)) :
    FailsOnField ((do problemToString; addSolutions id solutions : RegionReceive K n m) s) ↔
      ¬(s.problem ≠ none ∧ s.region ≠ none) := by
  cases hp : s.problem with
  | none =>
      simp [bind_apply, problemToString_none hp, failsOnField_fail, MissingField]
  | some p =>
      simp only [bind_apply, problemToString_some hp, Process.ret_bind]
      cases hr : s.region with
      | none => simp [addSolutions_missing id hr, failsOnField_fail, MissingField]
      | some r =>
          have hready := h.ready r hr
          obtain ⟨leader, hl⟩ := Option.ne_none_iff_exists'.1 hready.leader
          refine iff_of_false ?_ (by simp)
          by_cases hss : ∀ t ∈ solutions, t.Storable r.problem.dimension
          · obtain ⟨r', -, -, -, -, hprocess⟩ := addSolutions_storable id hp hl hr
              hready.consistent hss (Or.inl hready.best)
            rw [hprocess]
            exact not_failsOnField_ret
          · obtain ⟨e, s', hprocess, hbad, -⟩ := addSolutions_not_storable id hr
              hready.consistent hss
            rw [hprocess, failsOnField_fail]
            exact BadSolution.not_missingField hbad

omit h in
theorem not_fails_onCreate [RealArith K] (settings : RegionSettings)
    {solutions : List (Solution K)} (hne : solutions ≠ []) (time : ℕ) (p : Problem) :
    ¬FailsOnField (onCreate id sender settings solutions time p s) := by
  by_cases hss : ∀ t ∈ solutions, t.Storable p.dimension
  · obtain ⟨r, -, -, -, -, -, hprocess⟩ := onCreate_storable id sender (s := s) settings time hss
      hne
    rw [hprocess]
    exact not_failsOnField_ret
  · obtain ⟨e, s', hprocess, hbad, -⟩ := onCreate_not_storable id sender (s := s) settings time hss
    rw [hprocess, failsOnField_fail]
    exact BadSolution.not_missingField hbad

omit h in
theorem fails_onSolutionRequest_iff (choices : List ℕ) (receiverId counter : ℤ) :
    FailsOnField (onSolutionRequest id choices sender receiverId counter s) ↔
      ¬(s.problem ≠ none ∧ s.region ≠ none) := by
  cases hp : s.problem with
  | none =>
      simp [onSolutionRequest, problemToString_none hp, failsOnField_fail, MissingField]
  | some p =>
      cases hr : s.region with
      | none =>
          simp [onSolutionRequest, problemToString_some hp, deref_none hr, failsOnField_fail,
            MissingField]
      | some r =>
          refine iff_of_false ?_ (by simp)
          rcases onSolutionRequest_some id sender hp hr choices receiverId counter with
            hprocess | hprocess | ⟨solutions, -, hprocess⟩
          · rw [hprocess]
            exact not_failsOnField_ret
          · rw [hprocess, failsOnField_fail]
            exact fun hmissing => hmissing
          · rw [hprocess]
            exact not_failsOnField_ret

omit h in
theorem fails_onMergeRequest_iff [RealArith K] [CommonsMath K] (senderId : Fin n)
    (summary : SummaryStatistics K) (space : MultivariateSummaryStatistics K) :
    FailsOnField (onMergeRequest id sender senderId summary space s) ↔
      ¬(s.problem ≠ none ∧ s.region ≠ none) := by
  cases hp : s.problem with
  | none =>
      simp [onMergeRequest, problemToString_none hp, failsOnField_fail, MissingField]
  | some p =>
      cases hr : s.region with
      | none =>
          simp [onMergeRequest, problemToString_some hp, deref_none hr, failsOnField_fail,
            MissingField]
      | some r =>
          refine iff_of_false ?_ (by simp)
          rcases onMergeRequest_some id sender hp hr senderId summary space with
            hprocess | ⟨-, hprocess⟩ | hprocess
          · rw [hprocess]
            exact not_failsOnField_ret
          · rw [hprocess, failsOnField_fail]
            exact fun hmissing => hmissing
          · rw [hprocess]
            exact not_failsOnField_ret

theorem fails_onMergeResponse_iff (senderId : Fin n) :
    FailsOnField (onMergeResponse id sender senderId s) ↔ ¬s.problem ≠ none := by
  cases hp : s.problem with
  | none =>
      simp [onMergeResponse, problemToString_none hp, failsOnField_fail, MissingField]
  | some p =>
      refine iff_of_false ?_ (by simp)
      cases hr : s.region with
      | none =>
          rw [onMergeResponse_dissolved id sender hp hr]
          exact not_failsOnField_ret
      | some r =>
          obtain ⟨leader, hl⟩ := Option.ne_none_iff_exists'.1 (h.ready r hr).leader
          obtain ⟨t, ht⟩ := Option.ne_none_iff_exists'.1 (h.timer (by simp [hp]))
          rw [onMergeResponse_some id sender hp hr hl ht]
          exact not_failsOnField_ret

omit h in
theorem fails_onStopSimulation_iff :
    FailsOnField (onStopSimulation id sender s) ↔
      ¬(s.internalTask ≠ none ∧ s.region ≠ none) := by
  cases ht : s.internalTask with
  | none => simp [onStopSimulation_no_timer id sender ht, failsOnField_fail, MissingField]
  | some t =>
      cases hr : s.region with
      | none => simp [onStopSimulation_no_region id sender ht hr, failsOnField_fail, MissingField]
      | some r =>
          rw [onStopSimulation_some id sender ht hr, failsOnField_tell]
          exact iff_of_false not_failsOnField_ret (by simp)

omit h in
theorem fails_onUpdateGlobalSummary_iff (summary : Option (StatisticalSummary K)) (time : ℕ) :
    FailsOnField (onUpdateGlobalSummary summary time s) ↔ ¬s.problem ≠ none := by
  cases hp : s.problem with
  | none => simp [onUpdateGlobalSummary_none hp, failsOnField_fail, MissingField]
  | some p =>
      rw [onUpdateGlobalSummary_some hp]
      exact iff_of_false not_failsOnField_ret (by simp)

theorem fails_onInternalStimulus_iff [RealArith K] [CommonsMath K] :
    FailsOnField (onInternalStimulus id s) ↔ ¬(Unbalanced s → s.problem ≠ none) := by
  by_cases hu : Unbalanced s
  · have ⟨r, g, hr, _, _⟩ := hu
    have hready := h.ready r hr
    obtain ⟨leader, hl⟩ := Option.ne_none_iff_exists'.1 hready.leader
    cases hp : s.problem with
    | none =>
        obtain ⟨kept, lower, higher, hprocess⟩ := onInternalStimulus_no_problem id hu hr
          hready.consistent hl hp
        rw [hprocess, failsOnField_tell, failsOnField_fail]
        simp [hu, MissingField]
    | some p =>
        obtain ⟨kept, lower, higher, -, -, -, -, -, hprocess⟩ :=
          onInternalStimulus_unbalanced id hu hr hready.consistent hl hp
        rw [hprocess, failsOnField_tell]
        exact iff_of_false not_failsOnField_ret (by simp)
  · rw [onInternalStimulus_balanced id hu]
    exact iff_of_false not_failsOnField_ret (by simp [hu])

/-- A handler throws on a missing field exactly when a field it needs is missing. -/
theorem fails_receive_iff [RealArith K] [CommonsMath K] (choices : List ℕ)
    {message : Message K n m} (hcreate : Creating message) :
    FailsOnField (receive id choices sender message s) ↔ ¬Prepared s message := by
  cases message with
  | createRegion i settings solutions time p =>
      exact iff_of_false (not_fails_onCreate id sender settings hcreate time p) (by simp [Prepared])
  | solutionResponse i j solutions => exact fails_addSolutions_iff id h solutions
  | mergeResult i j solutions => exact fails_addSolutions_iff id h solutions
  | solutionRequest i j counter => exact fails_onSolutionRequest_iff id sender choices j counter
  | mergeRequest i j summary space => exact fails_onMergeRequest_iff id sender i summary space
  | mergeResponse i j => exact fails_onMergeResponse_iff id sender h i
  | internalStimulus => exact fails_onInternalStimulus_iff id h
  | updateGlobalSummary i summary time ids => exact fails_onUpdateGlobalSummary_iff summary time
  | stopSimulation => exact fails_onStopSimulation_iff id sender
  | _ => exact iff_of_false not_failsOnField_ret (by simp [Prepared])

end Handlers

/-! ## Runs of the cluster -/

section Runs

variable [RealArith K] [CommonsMath K] [MetaHeuristics K] {d : Deployment K}

def FieldFailure (c : Cluster n m d) : ClusterEvent K n m → Prop
  | .deliver src (.actor (.region i)) choices =>
      ∃ p rest, take src (.actor (.region i)) c.net = some (p, rest) ∧
        FailsOnField (receive i choices.choices p.sender p.message (c.region i))
  | _ => False

/-- The message that the event delivers to a region finds it prepared. -/
def DeliveredPrepared (c : Cluster n m d) : ClusterEvent K n m → Prop
  | .deliver src (.actor (.region i)) _ =>
      ∀ p rest, take src (.actor (.region i)) c.net = some (p, rest) →
        Prepared (c.region i) p.message
  | _ => True

theorem not_fieldFailure_iff {c : Cluster n m d} (h : Sane c) (e : ClusterEvent K n m) :
    ¬FieldFailure c e ↔ DeliveredPrepared c e := by
  have hregion : ∀ src (i : Fin n) (choices : Choices K),
      ¬FieldFailure c (.deliver src (.actor (.region i)) choices) ↔
        DeliveredPrepared c (.deliver src (.actor (.region i)) choices) := by
    intro src i choices
    have hfails : ∀ p rest, take src (.actor (.region i)) c.net = some (p, rest) →
        (FailsOnField (receive i choices.choices p.sender p.message (c.region i)) ↔
          ¬Prepared (c.region i) p.message) := fun p rest htake =>
      fails_receive_iff i p.sender (h.sound i) choices.choices
        (h.wired.net p (mem_take htake)).creating
    constructor
    · intro hnone p rest htake
      by_contra hnot
      exact hnone ⟨p, rest, htake, (hfails p rest htake).2 hnot⟩
    · rintro hprepared ⟨p, rest, htake, hfail⟩
      exact (hfails p rest htake).1 hfail (hprepared p rest htake)
  cases e with
  | deliver src dst choices =>
      cases dst with
      | promise a k => simp [FieldFailure, DeliveredPrepared]
      | actor a =>
          cases a with
          | region i => exact hregion src i choices
          | _ => simp [FieldFailure, DeliveredPrepared]
  | _ => simp [FieldFailure, DeliveredPrepared]

/-- Along any run of the cluster no region handler throws on a missing field
exactly when every message reaches its region while the fields it needs are set. -/
theorem run_free_of_field_failures_iff {c : Cluster n m d} {es : List (ClusterEvent K n m)}
    (hinit : Initial c) (hext : ∀ e ∈ es, ExternalEvent e) :
    Guarded Config.step (fun c e => ¬FieldFailure c e) c es ↔
      Guarded Config.step DeliveredPrepared c es :=
  guarded_congr (fun _ _ _ h he _ => Sane.step h he) (fun _ e h _ => not_fieldFailure_iff h e)
    hinit.sane hext

end Runs

section Example

def agent : Fin 1 := ⟨0, Nat.zero_lt_one⟩

def early : Fin 2 := ⟨0, Nat.two_pos⟩

def late : Fin 2 := ⟨1, Nat.one_lt_two⟩

def exampleProblem : Problem := ⟨1, 1, .benchmark⟩

def exampleSettings : AgentSettings ℚ :=
  { name := 0, metaHeuristicName := 0, lifetime := 1000, memoryTax := 1
    isConstructorMetaHeuristic := false, populationSize := some 1 }

def exampleDeployment : Deployment ℚ :=
  { settings :=
      { region := ⟨2, 10⟩, problem := exampleProblem, benchmark := true, executionTime := 0
        hasCooperation := true }
    suite := []
    evaluateFunction := fun _ x => x.head? }

def leader : Ref (Address 2 1) := .actor (.node 0)

def exampleCluster : Cluster 2 1 exampleDeployment :=
  Cluster.start exampleDeployment
    (fun _ =>
      { (SimulationActor.new exampleDeployment.settings : SimulationActor ℚ 2 1) with
        nodes := [leader], agents := fun _ => some (.actor (.agent agent)), amILeader := true
        leader := some leader, agentsIds := [], agentsUsedIds := [agent] })
    (fun _ =>
      { (AgentActor.new : AgentActor ℚ 2 1) with
        agent := some ((Agent.new exampleProblem exampleSettings).reset exampleProblem)
        leader := some leader, lifetime := 1000, internalTask := some .scheduled
        agentStarted := true })
    (.new [] 1)

def exampleSolution (x : ℚ) : Solution ℚ :=
  { id := 0, agent := some 0, solutionsVector := [some x], functionValue := some x
    viable := true, changed := false }

def quiet : Choices ℚ := ⟨⟨fun _ => [], [], .fin⟩, .ioException⟩

def draw : Draw ℚ := sampleDraw

def result (x : ℚ) : List (ClusterEvent ℚ 2 1) :=
  [.inject ⟨.agent agent, leader, .actor (.agent agent), .solutionResult [exampleSolution x]⟩,
    .deliver (.agent agent) leader quiet]

/-- The leader allocates both region ids.  Region 0 is created and its first
report makes the leader announce the ids 0 and 1 to the agent, whose request to
region 1 overtakes the creation of region 1. -/
def exampleRun : List (ClusterEvent ℚ 2 1) :=
  result 1 ++ [.deliver (.node 0) (.actor (.region early)) quiet] ++ result 2 ++
    [.deliver (.region early) leader quiet,
     .deliver (.node 0) (.actor (.agent agent)) quiet,
     .inject ⟨.client 0, .actor (.agent agent), .actor (.client 0), .internalStimulus⟩,
     .deliver (.client 0) (.actor (.agent agent)) { quiet with draws := fun _ => [draw, draw] }]

def request : ClusterEvent ℚ 2 1 := .deliver (.agent agent) (.actor (.region late)) quiet

def requestFailure (c : Cluster 2 1 exampleDeployment) : Option Failure :=
  (take (.agent agent) (.actor (.region late)) c.net).bind fun q =>
    match (receive late [] q.1.sender q.1.message (c.region late)).outcome with
    | .failed e _ => some e
    | _ => none

theorem exampleRun_external : ∀ e ∈ exampleRun ++ [request], ExternalEvent e := by
  simp [exampleRun, result, request, ExternalEvent, External]

theorem requestFailure_fieldFailure {c : Cluster 2 1 exampleDeployment}
    (h : requestFailure c = some (.nullPointer .problem)) : FieldFailure c request := by
  obtain ⟨q, htake, hfail⟩ := Option.bind_eq_some_iff.1 h
  refine ⟨q.1, q.2, htake, ?_⟩
  split at hfail
  next e t hout =>
    obtain rfl : e = .nullPointer .problem := by simpa using hfail
    exact ⟨_, t, hout, trivial⟩
  · simp at hfail

/-- The request reaches region 1 before its creation and finds no problem. -/
theorem request_before_creation_fails :
    Initial exampleCluster ∧ (∀ e ∈ exampleRun ++ [request], ExternalEvent e) ∧
      ¬Guarded Config.step (fun c e => ¬FieldFailure c e) exampleCluster
        (exampleRun ++ [request]) := by
  refine ⟨initial_start _ _ _, exampleRun_external, fun hguard => ?_⟩
  have hrun : (exampleCluster.run exampleRun).map requestFailure =
      some (some (.nullPointer .problem)) := by decide +kernel
  obtain ⟨c, hc, hfail⟩ := Option.map_eq_some_iff.1 hrun
  exact hguard.of_run exampleRun hc (requestFailure_fieldFailure hfail)

theorem run_free_of_field_failures_iff_example :
    Guarded Config.step (fun c e => ¬FieldFailure c e) exampleCluster (exampleRun ++ [request]) ↔
      Guarded Config.step DeliveredPrepared exampleCluster (exampleRun ++ [request]) :=
  run_free_of_field_failures_iff (initial_start _ _ _) exampleRun_external

end Example

end DOptimas.Proofs.RegionSafety
