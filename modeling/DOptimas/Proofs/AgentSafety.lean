import DOptimas.Actors.AgentActor
import DOptimas.Core.SampleHeuristics
import DOptimas.Support.Contract
import DOptimas.Support.Runs
/-!
# The order of an agent's messages

An agent is followed through an arbitrary sequence of messages together with the
problem of the last `StartSimulation`.  Its handlers share fields that different
messages fill in, so the order decides whether one of them throws and whether
the agent still has its problem.
-/

namespace DOptimas.Proofs.AgentSafety

open DOptimas.Support DOptimas.Core DOptimas.Actors DOptimas.Actors.AgentActor Handler

variable {K : Type} [RealArith K] [MetaHeuristics K] {n m : ℕ}

/-- A message with all that its handler is given: the sender, the draws, and the
answers to the questions of the run it may start. -/
structure Input (K : Type) [RealArith K] (n m : ℕ) where
  oracle : Oracle K
  sender : ActorRef n m
  message : Message K n m
  answers : List (Option (Message K n m))

/-- An agent actor with the problem of the last `StartSimulation` it has handled. -/
structure Tracked (K : Type) (n m : ℕ) [RealArith K] [MetaHeuristics K] where
  actor : AgentActor K n m
  current : Option Problem

def currentAfter (current : Option Problem) : Message K n m → Option Problem
  | .startSimulation (some p) => some p
  | _ => current

section Runs

variable (settings : Problem) (hasCooperation : Bool) (id : Fin m)

def handled (s : AgentActor K n m) (i : Input K n m) :
    Outcome Failure (AgentActor K n m) (ActorRef n m) (Message K n m) Unit :=
  (receive settings hasCooperation id i.oracle i.sender i.message s).complete i.answers

/-- A handler that throws restarts the actor from its snapshot; one whose answers
run out goes on waiting. -/
def step (t : Tracked K n m) (i : Input K n m) : Option (Tracked K n m) :=
  match handled settings hasCooperation id t.actor i with
  | .done _ s => some ⟨s, currentAfter t.current i.message⟩
  | .failed _ s => some ⟨(recover id s).1, t.current⟩
  | _ => none

def FieldFailure (t : Tracked K n m) (i : Input K n m) : Prop :=
  ∃ e s, handled settings hasCooperation id t.actor i = .failed e s ∧
    (e = .nullPointer .timer ∨ e = .nullPointer .agentProblem ∨ e = .nullPointer .result)

end Runs

def start : Tracked K n m := ⟨.new, none⟩

/-- The agent has the problem that the last `StartSimulation` gave it. -/
def KeepsProblem (t : Tracked K n m) : Prop :=
  ∀ p, t.current = some p → ∃ a, t.actor.agent = some a ∧ a.problem = some p

def Listed : Message K n m → Prop
  | .createAgent _ _ _ => True
  | .startSimulation (some _) => True
  | .stopSimulation => True
  | .updateGlobalSummary _ _ _ _ => True
  | .internalStimulus => True
  | .getState => True
  | .solutionResponse _ _ _ => True
  | _ => False

/-- With these answers the run of the agent's metaheuristic returns no `null` and
no first solution without a value. -/
def Returns (s : AgentActor K n m) (i : Input K n m) (solutions : List (Solution K)) : Prop :=
  ∀ a, s.agent = some a → ∀ result,
    (a.runAlgorithm solutions (i.oracle.draws 0)).result (i.answers.map evaluation) = some result →
      Learnable result

/-- `CreateAgent` comes before the first `StartSimulation`, and whatever needs the
timer or the problem after it. -/
def Allowed (t : Tracked K n m) (i : Input K n m) : Prop :=
  match i.message with
  | .createAgent _ _ _ => t.current = none
  | .stopSimulation => t.current ≠ none
  | .updateGlobalSummary _ _ time _ => t.actor.lifetime < time → t.current ≠ none
  | .solutionResponse _ _ solutions => t.current ≠ none ∧ Returns t.actor i solutions
  | .internalStimulus => t.actor.agentStarted → Returns t.actor i []
  | _ => True

/-! ## The invariant of an allowed run -/

structure Held (t : Tracked K n m) : Prop where
  agent : ∃ a, t.actor.agent = some a ∧ a.problem = t.current ∧ a.qLearningMemory.Valued
  leader : t.actor.leader ≠ none
  timer : t.current ≠ none → t.actor.internalTask ≠ none
  started : t.actor.agentStarted → t.current ≠ none

/-- Handlers throw nothing; the ghost value is the list of answers still to come. -/
def quiet : Contract Failure (AgentActor K n m) (ActorRef n m) (Message K n m)
    (List (Option (Message K n m))) where
  sendOk _ _ := True
  sendNext g _ := g
  askOk _ _ _ _ := True
  answerOk g _ _ r := g.head? = some r
  answerNext g _ _ _ := g.tail
  failOk _ _ _ := False
  stuckOk := True

section Handlers

variable (id : Fin m) {s : AgentActor K n m} {current : Option Problem}
  {answers : List (Option (Message K n m))} {a : Agent K}

theorem getAgent_some (h : s.agent = some a) : getAgent s = .ret a s := by
  simp [getAgent, deref_some h]

theorem problemToString_some {p : Problem} (h : s.agent = some a) (hp : a.problem = some p) :
    problemToString s = .ret () s := by
  simp [problemToString, getAgent_some h, hp]

theorem cancelTask_some {t : Timer} (h : s.internalTask = some t) :
    cancelTask s = .ret () { s with internalTask := some .cancelled } := by
  simp [cancelTask, deref_some h]

theorem sat_runAlgorithm {P : Option (List (Solution K)) → Prop}
    {run : Run (MetaHeuristics.Memory K) K}
    (h : ∀ result, run.result (answers.map evaluation) = some result → P result) :
    (runAlgorithm run s).Sat quiet (fun r t _ => t = s ∧ P r.1) answers := by
  induction run generalizing answers with
  | done result memory context => exact ⟨rfl, h result (by simp [Run.result])⟩
  | throws memory context => exact ⟨rfl, h (some []) (by simp [Run.result])⟩
  | evaluateFunction x next ih =>
      refine ⟨trivial, fun r hr => ih _ fun result hresult => h result ?_⟩
      obtain ⟨rs, rfl⟩ : ∃ rs, answers = r :: rs := by
        cases answers with
        | nil => simp [quiet] at hr
        | cons r' rs => exact ⟨rs, by simpa [quiet] using hr⟩
      simpa [Run.result, quiet] using hresult

theorem forEach_problemToString {p : Problem} (h : s.agent = some a) (hp : a.problem = some p)
    (solutions : List (Solution K)) :
    forEach solutions (fun _ => problemToString) s = .ret () s := by
  induction solutions with
  | nil => rfl
  | cons t ts ih => simp [problemToString_some h hp, ih]

theorem broadcast_some {p : Problem} {leader : ActorRef n m} (h : s.agent = some a)
    (hp : a.problem = some p) (hl : s.leader = some leader) (result : List (Solution K)) :
    ∃ message, broadcast id result s = .tell leader (self id) message
      (.ret () { s with saved := some ⟨s.agent, s.leader⟩ }) := by
  have hl' : ({ s with saved := some ⟨s.agent, s.leader⟩ } : AgentActor K n m).leader =
      some leader := hl
  refine ⟨.solutionResult (result.map fun s => { s with agent := some id.val }), ?_⟩
  simp [broadcast, forEach_problemToString h hp, problemToString_some h hp, saveSnapshot,
    deref_some hl']

theorem sat_processSolutionList (h : Held ⟨s, current⟩) (hcurrent : current ≠ none)
    {draws : List (Draw K)} {solutions : List (Solution K)} (region : ℤ)
    (hreturns : ∀ a, s.agent = some a → ∀ result,
      (a.runAlgorithm solutions draws).result (answers.map evaluation) = some result →
        Learnable result) :
    (processSolutionList id draws region solutions s).Sat quiet
      (fun _ t _ => Held ⟨t, current⟩) answers := by
  obtain ⟨a, ha, hproblem, hvalued⟩ :
      ∃ a, s.agent = some a ∧ a.problem = current ∧ a.qLearningMemory.Valued := h.agent
  obtain ⟨p, hp⟩ := Option.ne_none_iff_exists'.1 hcurrent
  have hprocess : (processMetaHeuristic draws solutions region s).Sat quiet
      (fun _ t _ => Held ⟨t, current⟩) answers := by
    simp only [processMetaHeuristic, bind_apply, getAgent_some ha, Process.ret_bind]
    refine (sat_runAlgorithm (hreturns a ha)).bind ?_
    rintro ⟨result, memory, context⟩ t g ⟨rfl, hresult⟩
    obtain ⟨a', solutions', hlearn, hvalued'⟩ :=
      Agent.learn_ok (a := { a with metaHeuristic := memory, context := context }) region
        hvalued hresult
    have hproblem' := (Agent.problem_learn hlearn).1
    simp only [setAgent, bind_apply, update_apply, Process.ret_bind, hlearn]
    exact ⟨⟨a', rfl, hproblem'.trans hproblem, hvalued'⟩, h.leader, h.timer, h.started⟩
  refine hprocess.bind fun result t g ht => ?_
  obtain ⟨b, hb, hbproblem, -⟩ := ht.agent
  obtain ⟨leader, hl⟩ := Option.ne_none_iff_exists'.1 ht.leader
  obtain ⟨message, hbroadcast⟩ := broadcast_some id hb (hbproblem.trans hp) hl result
  rw [hbroadcast]
  exact ⟨trivial, ht.agent, ht.leader, ht.timer, ht.started⟩

theorem sat_requestByMemory (h : Held ⟨s, current⟩) (ha : s.agent = some a) {p : Problem}
    (hp : a.problem = some p) (draws : List (Draw K)) :
    (requestByMemory id a draws s).Sat quiet (fun _ t _ => Held ⟨t, current⟩) answers := by
  obtain ⟨leader, hl⟩ : ∃ leader, s.leader = some leader := Option.ne_none_iff_exists'.1 h.leader
  match draws with
  | [] => trivial
  | [_] => trivial
  | draw :: dice :: _ =>
      have hchoose : ∃ region, a.chooseRegion draw dice = .ok region := by
        unfold Agent.chooseRegion
        split
        · exact a.qLearningMemory.chooseRegion_ok dice
        · exact ⟨none, rfl⟩
      obtain ⟨region, hregion⟩ := hchoose
      change (requestChosen id a (a.chooseRegion draw dice) s).Sat _ _ _
      rw [hregion]
      cases region with
      | none =>
          simp only [requestChosen, requestSolutions, bind_apply, deref_some hl, Process.ret_bind,
            tell_apply]
          exact And.intro trivial h
      | some region =>
          simp only [requestChosen, requestSolutions, bind_apply, tell_apply, Process.tell_bind,
            Process.ret_bind, problemToString_some ha hp]
          exact And.intro trivial h

theorem sat_onInternalStimulus (h : Held ⟨s, current⟩) {oracle : Oracle K}
    (hreturns : s.agentStarted → ∀ a, s.agent = some a → ∀ result,
      (a.runAlgorithm [] (oracle.draws 0)).result (answers.map evaluation) = some result →
        Learnable result) :
    (onInternalStimulus id oracle s).Sat quiet (fun _ t _ => Held ⟨t, current⟩) answers := by
  obtain ⟨a, ha, hproblem, -⟩ :
      ∃ a, s.agent = some a ∧ a.problem = current ∧ a.qLearningMemory.Valued :=
    h.agent
  simp only [onInternalStimulus, bind_apply, get_apply, Process.ret_bind, ha]
  by_cases hstarted : s.agentStarted
  · have hcurrent := h.started hstarted
    obtain ⟨p, hp⟩ := Option.ne_none_iff_exists'.1 hcurrent
    simp only [hstarted, Bool.not_true, if_neg Bool.false_ne_true]
    split
    · exact sat_processSolutionList id h hcurrent Nobody (hreturns hstarted)
    · split
      · exact h
      · exact sat_requestByMemory id h ha (hproblem.trans hp) (oracle.draws 1)
  · simp only [hstarted, Bool.not_false, if_true]
    exact h

theorem sat_onUpdateGlobalSummary (h : Held ⟨s, current⟩) (choices : List ℕ)
    (summary : Option (StatisticalSummary K)) {time : ℕ} (regionIds : List (Fin n))
    (htime : s.lifetime < time → current ≠ none) :
    (onUpdateGlobalSummary choices summary time regionIds s).Sat quiet
      (fun _ t _ => Held ⟨t, current⟩) answers := by
  obtain ⟨a, ha, hproblem, hvalued⟩ :
      ∃ a, s.agent = some a ∧ a.problem = current ∧ a.qLearningMemory.Valued := h.agent
  let s₁ : AgentActor K n m :=
    { s with
      globalTime := time
      globalSolutions := (summary.map StatisticalSummary.n).getD s.globalSolutions }
  let s₂ : AgentActor K n m :=
    { s₁ with agent := some (a.updateMemory choices (regionIds.map fun id => (id.val : ℤ))) }
  have ha₁ : s₁.agent = some a := ha
  have hmemory : (a.updateMemory choices
      (regionIds.map fun id => (id.val : ℤ))).qLearningMemory.Valued := by
    unfold Agent.updateMemory
    dsimp only
    split
    · exact hvalued
    · exact hvalued
  have hheld : Held ⟨s₂, current⟩ :=
    ⟨⟨_, rfl, hproblem, hmemory⟩, h.leader, h.timer, h.started⟩
  have hupdate : onUpdateGlobalSummary choices summary time regionIds s =
      (if s.lifetime < time then cancelTask else pure ()) s₂ := by
    simp [onUpdateGlobalSummary, getAgent_some ha₁, setAgent, s₂, s₁]
  rw [hupdate]
  split
  next hlate =>
    obtain ⟨t, ht⟩ := Option.ne_none_iff_exists'.1 (h.timer (htime hlate))
    rw [cancelTask_some (s := s₂) ht]
    exact ⟨hheld.agent, hheld.leader, fun _ => by simp, hheld.started⟩
  · exact hheld

theorem sat_onCreateAgent (settings : Problem) (sender leader : ActorRef n m)
    (agentSettings : AgentSettings K) (hcurrent : current = none)
    (hstarted : s.agentStarted → current ≠ none) :
    (onCreateAgent settings id sender leader agentSettings s).Sat quiet
      (fun _ t _ => Held ⟨t, current⟩) answers := by
  refine ⟨trivial, ⟨_, rfl, ?_, ?_⟩, by simp, fun h => absurd hcurrent h, hstarted⟩
  · exact hcurrent.symm
  · intro best hbest
    simp [Agent.new, QLearningMemory.new] at hbest

end Handlers

variable {settings : Problem} {hasCooperation : Bool} {id : Fin m}

/-- An allowed message keeps the invariant and its handler does not throw. -/
theorem sat_receive {s : AgentActor K n m} {current : Option Problem} {i : Input K n m}
    (h : Held ⟨s, current⟩) (hlisted : Listed i.message) (hallowed : Allowed ⟨s, current⟩ i) :
    (receive settings hasCooperation id i.oracle i.sender i.message s).Sat quiet
      (fun _ t _ => Held ⟨t, currentAfter current i.message⟩) i.answers := by
  obtain ⟨oracle, sender, message, answers⟩ := i
  obtain ⟨a, ha, hproblem, hvalued⟩ :
      ∃ a, s.agent = some a ∧ a.problem = current ∧ a.qLearningMemory.Valued := h.agent
  cases message with
  | createAgent j leader agentSettings =>
      exact sat_onCreateAgent id settings sender leader agentSettings hallowed h.started
  | startSimulation problem =>
      cases problem with
      | none => exact hlisted.elim
      | some p =>
          simp only [receive, onStartSimulation, bind_apply, getAgent_some ha, Process.ret_bind,
            setAgent, update_apply, Option.map_some, Option.getD_some]
          refine ⟨⟨a.reset p, rfl, rfl, ?_⟩, h.leader, fun _ => by simp, fun _ => by
            simp [currentAfter]⟩
          intro best hbest
          simp [Agent.reset, QLearningMemory.resetMemory] at hbest
  | stopSimulation =>
      obtain ⟨t, ht⟩ := Option.ne_none_iff_exists'.1 (h.timer hallowed)
      simp only [receive, onStopSimulation, bind_apply, cancelTask_some ht, Process.ret_bind,
        update_apply, tell_apply]
      exact ⟨trivial, h.agent, h.leader, fun _ => by simp, by simp⟩
  | updateGlobalSummary j summary time regionIds =>
      exact sat_onUpdateGlobalSummary h oracle.choices summary regionIds hallowed
  | internalStimulus => exact sat_onInternalStimulus id h hallowed
  | getState =>
      simp only [receive, onGetState, bind_apply, get_apply, Process.ret_bind, ha, tell_apply]
      exact ⟨trivial, h⟩
  | solutionResponse senderId receiverId solutions =>
      obtain ⟨p, hp⟩ := Option.ne_none_iff_exists'.1 hallowed.1
      simp only [receive, onSolutionResponse, bind_apply,
        problemToString_some ha (hproblem.trans hp), Process.ret_bind]
      exact sat_processSolutionList id h hallowed.1 senderId hallowed.2
  | _ => exact hlisted.elim

variable (settings hasCooperation id) in
theorem allowed_step {t : Tracked K n m} {i : Input K n m}
    (hsat : (receive settings hasCooperation id i.oracle i.sender i.message t.actor).Sat quiet
      (fun _ s _ => Held ⟨s, currentAfter t.current i.message⟩) i.answers) :
    ¬FieldFailure settings hasCooperation id t i ∧
      ∀ t', step settings hasCooperation id t i = some t' → Held t' := by
  have hend := hsat.complete (fun _ _ => rfl) (fun _ _ _ _ => rfl) fun _ _ _ _ => rfl
  constructor
  · rintro ⟨e, s, hfailed, -⟩
    rw [show Process.complete _ _ = _ from hfailed] at hend
    exact hend.elim fun _ hno => hno
  · intro t' hstep
    unfold step handled at hstep
    split at hstep
    next u s hdone =>
      rw [hdone] at hend
      obtain rfl : _ = t' := by simpa using hstep
      exact hend.elim fun _ hheld => hheld
    next e s hfailed =>
      rw [hfailed] at hend
      exact hend.elim fun _ hno => hno.elim
    · simp at hstep

theorem Held.keepsProblem {t : Tracked K n m} (h : Held t) : KeepsProblem t := by
  intro p hp
  obtain ⟨a, ha, hproblem, -⟩ := h.agent
  exact ⟨a, ha, hproblem.trans hp⟩

/-- After `CreateAgent`, any allowed sequence of messages is handled without a
missing timer, problem or result list, and the agent keeps its problem. -/
theorem allowed_run_safe (create : Input K n m) (rest : List (Input K n m)) (leader : ActorRef n m)
    (agentSettings : AgentSettings K)
    (hcreate : create.message = .createAgent id leader agentSettings)
    (hlisted : ∀ i ∈ rest, Listed i.message)
    (hallowed : Guarded (step settings hasCooperation id) Allowed start (create :: rest)) :
    Guarded (step settings hasCooperation id)
        (fun t i => ¬FieldFailure settings hasCooperation id t i) start (create :: rest) ∧
      Always (step settings hasCooperation id) KeepsProblem start (create :: rest) := by
  obtain ⟨hfirst, hnext⟩ := allowed_step settings hasCooperation id (t := start) (i := create) (by
      rw [hcreate]
      exact sat_onCreateAgent id settings create.sender leader agentSettings rfl
        fun h => absurd h (by simp [start, AgentActor.new]))
  have hrest : ∀ t, step settings hasCooperation id start create = some t →
      Guarded (step settings hasCooperation id)
          (fun t i => ¬FieldFailure settings hasCooperation id t i) t rest ∧
        Always (step settings hasCooperation id) Held t rest := fun t ht =>
    Guarded.safe (fun _ _ hheld hl hg => allowed_step _ _ _ (sat_receive hheld hl hg)) (hnext t ht)
      hlisted (hallowed.2 t ht)
  refine ⟨⟨hfirst, fun t ht => (hrest t ht).1⟩, ?_, fun t ht => ?_⟩
  · simp [KeepsProblem, start]
  · exact (hrest t ht).2.mono fun _ => Held.keepsProblem

section Example

def exampleProblem : Problem := ⟨1, 1, .benchmark⟩

def exampleSettings : AgentSettings ℚ :=
  { name := 0, metaHeuristicName := 0, lifetime := 1000, memoryTax := 1
    isConstructorMetaHeuristic := false, populationSize := some 1 }

def fromLeader (message : Message ℚ 1 1) : Input ℚ 1 1 :=
  ⟨⟨fun _ => [], [], .fin⟩, .actor (.node 0), message, []⟩

def create : Input ℚ 1 1 :=
  fromLeader (.createAgent ⟨0, Nat.zero_lt_one⟩ (.actor (.node 0)) exampleSettings)

def failure (t : Tracked ℚ 1 1) (i : Input ℚ 1 1) : Option Failure :=
  match handled exampleProblem true 0 t.actor i with
  | .failed e _ => some e
  | _ => none

/-- The simulation is stopped through the API before it was ever started. -/
theorem stop_before_start_fails :
    ¬Guarded (step exampleProblem true 0)
      (fun t i => ¬FieldFailure exampleProblem true 0 t i) start
      [create, fromLeader .stopSimulation] := by
  intro hguard
  have hrun : (run (step exampleProblem true 0) start [create]).map
      (fun t => failure t (fromLeader .stopSimulation)) = some (some (.nullPointer .timer)) := by
    decide +kernel
  obtain ⟨t, ht, hfail⟩ := Option.map_eq_some_iff.1 hrun
  refine Guarded.of_run [create] hguard ht ?_
  unfold failure at hfail
  split at hfail
  next e s hfailed => exact ⟨e, s, hfailed, Or.inl (by simpa using hfail)⟩
  · simp at hfail

def exampleRun : List (Input ℚ 1 1) :=
  [create, fromLeader (.startSimulation (some exampleProblem)), fromLeader .stopSimulation]

theorem exampleRun_allowed :
    Guarded (step exampleProblem true 0) Allowed start (create :: exampleRun) := by
  have hcreated : (run (step exampleProblem true 0) start [create]).map Tracked.current =
      some none := by decide +kernel
  have hstarted : (run (step exampleProblem true 0) start
      [create, create, fromLeader (.startSimulation (some exampleProblem))]).map
        Tracked.current = some (some exampleProblem) := by decide +kernel
  refine ⟨rfl, fun t₁ h₁ => ⟨?_, fun t₂ h₂ => ⟨trivial, fun t₃ h₃ => ⟨?_, fun t₄ h₄ => trivial⟩⟩⟩⟩
  · change t₁.current = none
    simpa [run, h₁] using hcreated
  · change t₃.current ≠ none
    have hcurrent : t₃.current = some exampleProblem := by simpa [run, h₁, h₂, h₃] using hstarted
    simp [hcurrent]

theorem allowed_run_safe_example :
    Guarded (step exampleProblem true 0)
        (fun t i => ¬FieldFailure exampleProblem true 0 t i) start (create :: exampleRun) ∧
      Always (step exampleProblem true 0) KeepsProblem start (create :: exampleRun) :=
  allowed_run_safe create exampleRun (.actor (.node 0)) exampleSettings rfl
    (by simp [exampleRun, create, fromLeader, Listed]) exampleRun_allowed

end Example

end DOptimas.Proofs.AgentSafety
