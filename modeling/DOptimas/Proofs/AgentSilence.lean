import DOptimas.Proofs.AgentSafety
/-!
# The silence of a stopped agent

An agent is followed through an arbitrary sequence of messages together with
what made it fall silent.  A stop clears the flag that stimuli check, an expired
lifetime only cancels the timer, and responses check neither.
-/

namespace DOptimas.Proofs.AgentSilence

open DOptimas.Support DOptimas.Core DOptimas.Actors DOptimas.Actors.AgentActor Handler
open DOptimas.Proofs.AgentSafety (Input handled getAgent_some problemToString_some cancelTask_some)

variable {K : Type} [RealArith K] [MetaHeuristics K] {n m : ℕ}

/-- What the agent has been told since the last `StartSimulation`. -/
inductive Mode where
  | active
  /-- It has acknowledged `StopSimulation`. -/
  | stopped
  /-- It has handled a time beyond its lifetime. -/
  | expired
  deriving DecidableEq

structure Watched (K : Type) (n m : ℕ) [RealArith K] [MetaHeuristics K] where
  actor : AgentActor K n m
  mode : Mode

/-- The mode after a message has been handled by an agent of this lifetime. -/
def modeAfter (lifetime : ℕ) (mode : Mode) : Message K n m → Mode
  | .startSimulation _ => .active
  | .stopSimulation => .stopped
  | .updateGlobalSummary _ _ time _ =>
      if lifetime < time ∧ mode = .active then .expired else mode
  | _ => mode

def start : Watched K n m := ⟨.new, .active⟩

section Runs

variable (settings : Problem) (hasCooperation : Bool) (id : Fin m)

def step (w : Watched K n m) (i : Input K n m) : Option (Watched K n m) :=
  match handled settings hasCooperation id w.actor i with
  | .done _ s => some ⟨s, modeAfter w.actor.lifetime w.mode i.message⟩
  | .failed _ s => some ⟨(recover id s).1, w.mode⟩
  | _ => none

def sends (s : AgentActor K n m) (i : Input K n m) :
    List (Sending (ActorRef n m) (Message K n m)) :=
  (receive settings hasCooperation id i.oracle i.sender i.message s).said i.answers

end Runs

def IsStart : Message K n m → Prop
  | .startSimulation _ => True
  | _ => False

/-- A request for solutions, or a result of a run. -/
def Chatter : Message K n m → Prop
  | .solutionRequest _ _ _ => True
  | .solutionResult _ => True
  | _ => False

def qTable (s : AgentActor K n m) : Option (List (ℤ × K)) :=
  s.agent.map fun a => a.qLearningMemory.qTable

/-- The Q-table of `t` is the one of `s`, or what a new agent or the new region
ids make of it. -/
def Unlearned (settings : Problem) (choices : List ℕ) (s : AgentActor K n m)
    (message : Message K n m) (t : AgentActor K n m) : Prop :=
  qTable t = qTable s ∨
  match message with
  | .createAgent _ _ agentSettings =>
      qTable t = some (Agent.new settings agentSettings).qLearningMemory.qTable
  | .updateGlobalSummary _ _ _ ids =>
      qTable t = s.agent.map fun a =>
        (a.updateMemory choices (ids.map fun id => (id.val : ℤ))).qLearningMemory.qTable
  | _ => False

section Runs

variable (settings : Problem) (hasCooperation : Bool) (id : Fin m)

/-- Between a stop and the next start a message makes the agent neither ask for
solutions nor hand any out, and no run changes its Q-table. -/
def Silent (w : Watched K n m) (i : Input K n m) : Prop :=
  w.mode ≠ .active → ¬IsStart i.message →
    (∀ x ∈ sends settings hasCooperation id w.actor i, ¬Chatter x.message) ∧
    match handled settings hasCooperation id w.actor i with
    | .done _ t => Unlearned settings i.oracle.choices w.actor i.message t
    | .failed _ t => Unlearned settings i.oracle.choices w.actor i.message t
    | _ => True

end Runs

/-- A silent agent with a problem handles no response, and an expired one that is
still started no stimulus on which it would act. -/
def Calm (w : Watched K n m) (i : Input K n m) : Prop :=
  w.mode ≠ .active → ∀ a, w.actor.agent = some a →
    match i.message with
    | .solutionResponse _ _ _ => a.problem = none
    | .internalStimulus => w.mode = .expired → w.actor.agentStarted = true →
        a.agentSettings.isConstructorMetaHeuristic = false ∧
          (w.actor.globalSolutions : ℤ) < a.solutionsCount
    | _ => True

/-! ## One message -/

def silence (settings : Problem) (choices : List ℕ) (s : AgentActor K n m)
    (message : Message K n m) :
    Contract Failure (AgentActor K n m) (ActorRef n m) (Message K n m) Unit :=
  Contract.plain (fun _ _ m => ¬Chatter m) (fun _ _ _ => False)
    fun _ t => Unlearned settings choices s message t

def Resting (settings : Problem) (choices : List ℕ) (s : AgentActor K n m)
    (message : Message K n m) (t : AgentActor K n m) : Prop :=
  Unlearned settings choices s message t ∧ (t.agentStarted = true → s.agentStarted = true)

section Handlers

variable {settings : Problem} {hasCooperation : Bool} {id : Fin m} {choices : List ℕ}
  {s : AgentActor K n m} {message : Message K n m}

theorem Unlearned.refl : Unlearned settings choices s message s := Or.inl rfl

theorem Resting.refl : Resting settings choices s message s := ⟨Unlearned.refl, fun h => h⟩

theorem getAgent_none (h : s.agent = none) : getAgent s = .fail (.nullPointer .agent) s := by
  simp [getAgent, deref_none h]

theorem problemToString_none (h : ∀ a, s.agent = some a → a.problem = none) :
    ∃ e, problemToString s = .fail e s := by
  cases ha : s.agent with
  | none => exact ⟨.nullPointer .agent, by simp [problemToString, getAgent_none ha]⟩
  | some a =>
      exact ⟨.nullPointer .agentProblem, by simp [problemToString, getAgent_some ha, h a ha]⟩

theorem silent_solutionRequest (sender : ActorRef n m) (senderId : ℤ) :
    (onSolutionRequest hasCooperation id sender senderId s).Sat (silence settings choices s message)
      (fun _ t _ => Resting settings choices s message t) () := by
  by_cases hnone : ∀ a, s.agent = some a → a.problem = none
  · obtain ⟨e, hfail⟩ := problemToString_none hnone
    rw [onSolutionRequest, bind_apply, hfail]
    exact Unlearned.refl
  · obtain ⟨a, ha, hproblem⟩ : ∃ a, s.agent = some a ∧ a.problem ≠ none := by
      simpa using hnone
    obtain ⟨p, hp⟩ := Option.ne_none_iff_exists'.1 hproblem
    rw [onSolutionRequest, bind_apply, problemToString_some ha hp, Process.ret_bind, bind_apply,
      getAgent_some ha, Process.ret_bind]
    split
    · exact ⟨not_false, Resting.refl⟩
    · exact Resting.refl

theorem silent_solutionResponse (h : ∀ a, s.agent = some a → a.problem = none)
    (draws : List (Draw K))
    (senderId : ℤ) (solutions : List (Solution K)) :
    (onSolutionResponse id draws senderId solutions s).Sat (silence settings choices s message)
      (fun _ t _ => Resting settings choices s message t) () := by
  obtain ⟨e, hfail⟩ := problemToString_none h
  rw [onSolutionResponse, bind_apply, hfail]
  exact Unlearned.refl

theorem silent_createAgent (sender leader : ActorRef n m) (receiverId : Fin m)
    (agentSettings : AgentSettings K) :
    (onCreateAgent settings id sender leader agentSettings s).Sat
      (silence settings choices s (.createAgent receiverId leader agentSettings))
      (fun _ t _ => Resting settings choices s (.createAgent receiverId leader agentSettings) t)
      () :=
  ⟨not_false, Or.inr rfl, fun h => h⟩

theorem silent_internalStimulus (oracle : Oracle K)
    (h : ∀ a, s.agent = some a → s.agentStarted = true →
      a.agentSettings.isConstructorMetaHeuristic = false ∧
        (s.globalSolutions : ℤ) < a.solutionsCount) :
    (onInternalStimulus id oracle s).Sat (silence settings choices s message)
      (fun _ t _ => Resting settings choices s message t) () := by
  have hret : onInternalStimulus id oracle s = .ret () s := by
    cases ha : s.agent with
    | none => simp [onInternalStimulus, ha]
    | some a =>
        cases hstarted : s.agentStarted with
        | false => simp [onInternalStimulus, ha, hstarted]
        | true =>
            obtain ⟨hconstructor, hfew⟩ := h a ha hstarted
            simp [onInternalStimulus, ha, hstarted, hconstructor, hfew]
  rw [hret]
  exact Resting.refl

theorem silent_updateGlobalSummary (receiverId : ℕ) (summary : Option (StatisticalSummary K))
    (time : ℕ) (ids : List (Fin n)) :
    (onUpdateGlobalSummary choices summary time ids s).Sat
      (silence settings choices s (.updateGlobalSummary receiverId summary time ids))
      (fun _ t _ => Resting settings choices s (.updateGlobalSummary receiverId summary time ids) t)
      () := by
  let t : AgentActor K n m :=
    { s with
      globalTime := time
      globalSolutions := (summary.map StatisticalSummary.n).getD s.globalSolutions }
  cases ha : s.agent with
  | none =>
      have ht : t.agent = none := ha
      rw [onUpdateGlobalSummary, bind_apply, update_apply, Process.ret_bind, bind_apply,
        show getAgent { s with globalTime := time, globalSolutions := _ } = _ from getAgent_none ht]
      exact Or.inl rfl
  | some a =>
      have ht : t.agent = some a := ha
      let u : AgentActor K n m :=
        { t with agent := some (a.updateMemory choices (ids.map fun id => (id.val : ℤ))) }
      have hupdated : Unlearned settings choices s
          (.updateGlobalSummary receiverId summary time ids)
          u := by
        refine Or.inr ?_
        rw [ha]
        rfl
      rw [onUpdateGlobalSummary, bind_apply, update_apply, Process.ret_bind, bind_apply,
        show getAgent { s with globalTime := time, globalSolutions := _ } = _ from getAgent_some ht,
        Process.ret_bind, bind_apply, setAgent, update_apply, Process.ret_bind, bind_apply,
        get_apply, Process.ret_bind]
      change Process.Sat _ _ () ((if u.lifetime < time then cancelTask else pure ()) u)
      split
      · cases htask : u.internalTask with
        | none =>
            rw [cancelTask, bind_apply, deref_none htask]
            exact hupdated
        | some timer =>
            rw [cancelTask_some htask]
            exact ⟨hupdated, fun h => h⟩
      · exact ⟨hupdated, fun h => h⟩

variable (settings id choices s message) in
theorem silent_stopSimulation (sender : ActorRef n m) :
    (onStopSimulation id sender s).Sat (silence settings choices s message)
      (fun _ t _ => Unlearned settings choices s message t ∧ t.agentStarted = false) () := by
  cases htask : s.internalTask with
  | none =>
      rw [onStopSimulation, bind_apply, cancelTask, bind_apply, deref_none htask]
      exact Unlearned.refl
  | some timer =>
      rw [onStopSimulation, bind_apply, cancelTask_some htask]
      exact ⟨not_false, Or.inl rfl, rfl⟩

theorem silent_getState (sender : ActorRef n m) :
    (onGetState id sender s).Sat (silence settings choices s message)
      (fun _ t _ => Resting settings choices s message t) () := by
  cases ha : s.agent with
  | none =>
      simp only [onGetState, bind_apply, get_apply, Process.ret_bind, ha, tell_apply]
      exact ⟨not_false, Resting.refl⟩
  | some a =>
      simp only [onGetState, bind_apply, get_apply, Process.ret_bind, ha, tell_apply]
      exact ⟨not_false, Resting.refl⟩

theorem silent_receive {i : Input K n m} (hstart : ¬IsStart i.message)
    (hresponse : ∀ senderId receiverId solutions,
      i.message = .solutionResponse senderId receiverId solutions →
        ∀ a, s.agent = some a → a.problem = none)
    (hstimulus : i.message = .internalStimulus → ∀ a, s.agent = some a → s.agentStarted = true →
      a.agentSettings.isConstructorMetaHeuristic = false ∧
        (s.globalSolutions : ℤ) < a.solutionsCount) :
    (receive settings hasCooperation id i.oracle i.sender i.message s).Sat
      (silence settings i.oracle.choices s i.message)
      (fun _ t _ => Resting settings i.oracle.choices s i.message t) () := by
  cases hmessage : i.message with
  | solutionRequest senderId receiverId counter => exact silent_solutionRequest i.sender senderId
  | solutionResponse senderId receiverId solutions =>
      exact silent_solutionResponse (hresponse _ _ _ hmessage) _ senderId solutions
  | createAgent receiverId leader agentSettings =>
      exact silent_createAgent i.sender leader receiverId agentSettings
  | internalStimulus => exact silent_internalStimulus i.oracle (hstimulus hmessage)
  | updateGlobalSummary receiverId summary time ids =>
      exact silent_updateGlobalSummary receiverId summary time ids
  | startSimulation problem =>
      rw [hmessage] at hstart
      exact absurd trivial hstart
  | stopSimulation =>
      exact (silent_stopSimulation _ _ _ _ _ i.sender).mono fun _ t _ h =>
        ⟨h.1, fun hstarted => absurd hstarted (by simp [h.2])⟩
  | getState => exact silent_getState i.sender
  | _ => exact Resting.refl

end Handlers

/-! ## Runs -/

theorem agentStarted_recover (id : Fin m) (s : AgentActor K n m) :
    (recover id s).1.agentStarted = false := by
  unfold recover
  split <;> rfl

def Rested (w : Watched K n m) : Prop := w.mode = .stopped → w.actor.agentStarted = false

section Runs

variable {settings : Problem} {hasCooperation : Bool} {id : Fin m} {w w' : Watched K n m}
  {i : Input K n m}

theorem step_cases (h : step settings hasCooperation id w i = some w') :
    (∃ t, handled settings hasCooperation id w.actor i = .done () t ∧
      w' = ⟨t, modeAfter w.actor.lifetime w.mode i.message⟩) ∨
    ∃ e t, handled settings hasCooperation id w.actor i = .failed e t ∧
      w' = ⟨(recover id t).1, w.mode⟩ := by
  unfold step at h
  split at h
  next t hdone => exact Or.inl ⟨t, hdone, (Option.some.inj h).symm⟩
  next e t hfailed => exact Or.inr ⟨e, t, hfailed, (Option.some.inj h).symm⟩
  · simp at h

/-- Whatever the mode, an acknowledged stop leaves the agent not started. -/
theorem stopped_of_done {t : AgentActor K n m} (hmessage : i.message = .stopSimulation)
    (hdone : handled settings hasCooperation id w.actor i = .done () t) :
    t.agentStarted = false := by
  have hsat := silent_stopSimulation settings id i.oracle.choices w.actor i.message i.sender
  have hend := Contract.plain_complete hsat i.answers
  have hhandled : (onStopSimulation id i.sender w.actor).complete i.answers = .done () t := by
    rw [← hdone, handled, hmessage, receive]
  rw [hhandled] at hend
  exact hend.2

omit [RealArith K] [MetaHeuristics K] in
theorem modeAfter_stopped {lifetime : ℕ} {mode : Mode} {message : Message K n m}
    (h : modeAfter lifetime mode message = .stopped) :
    message = .stopSimulation ∨ mode = .stopped ∧ ¬IsStart message := by
  cases message with
  | stopSimulation => exact Or.inl rfl
  | startSimulation problem => simp [modeAfter] at h
  | updateGlobalSummary receiverId summary time ids =>
      simp only [modeAfter] at h
      split at h
      · simp at h
      · exact Or.inr ⟨h, not_false⟩
  | _ => exact Or.inr ⟨h, not_false⟩

variable (settings hasCooperation id) in
theorem silent_of_calm (hrested : Rested w) (hcalm : Calm w i) (hmode : w.mode ≠ .active)
    (hstart : ¬IsStart i.message) :
    (receive settings hasCooperation id i.oracle i.sender i.message w.actor).Sat
      (silence settings i.oracle.choices w.actor i.message)
      (fun _ t _ => Resting settings i.oracle.choices w.actor i.message t) () := by
  have hall := hcalm hmode
  refine silent_receive hstart (fun _ _ _ hmessage a ha => ?_) fun hmessage a ha hstarted => ?_
  · have hproblem := hall a ha
    rw [hmessage] at hproblem
    exact hproblem
  · have hfew := hall a ha
    rw [hmessage] at hfew
    cases hcurrent : w.mode with
    | active => exact absurd hcurrent hmode
    | stopped => exact absurd hstarted (by simp [hrested hcurrent])
    | expired => exact hfew hcurrent hstarted

theorem silent_step (hrested : Rested w) (hcalm : Calm w i) :
    Silent settings hasCooperation id w i ∧
      ∀ w', step settings hasCooperation id w i = some w' → Rested w' := by
  constructor
  · intro hmode hstart
    have hsat := silent_of_calm settings hasCooperation id hrested hcalm hmode hstart
    have hend := Contract.plain_complete hsat i.answers
    refine ⟨Contract.plain_said hsat i.answers, ?_⟩
    unfold handled
    split
    next t hdone =>
      rw [hdone] at hend
      exact hend.1
    next e t hfailed =>
      rw [hfailed] at hend
      exact hend
    · trivial
  · intro w' hstep hstopped
    rcases step_cases hstep with ⟨t, hdone, rfl⟩ | ⟨e, t, -, rfl⟩
    · rcases modeAfter_stopped hstopped with hmessage | ⟨hmode, hstart⟩
      · exact stopped_of_done hmessage hdone
      · have hsat := silent_of_calm settings hasCooperation id hrested hcalm (by simp [hmode])
          hstart
        have hend := Contract.plain_complete hsat i.answers
        rw [show Process.complete _ _ = _ from hdone] at hend
        cases hstarted : t.agentStarted with
        | false => rfl
        | true =>
            have hbefore := hend.2 hstarted
            rw [hrested hmode] at hbefore
            exact hbefore.symm
    · exact agentStarted_recover id t

/-- In every run of calm messages a stopped or expired agent is silent until it is
started again. -/
theorem calm_run_silent (is : List (Input K n m))
    (hcalm : Guarded (step settings hasCooperation id) Calm start is) :
    Guarded (step settings hasCooperation id) (Silent settings hasCooperation id) start is := by
  have hinit : Rested (start : Watched K n m) := by
    intro hmode
    simp [start] at hmode
  exact (Guarded.safe (E := fun _ => True) (fun w i hrested _ hcalm => silent_step hrested hcalm)
    hinit (fun _ _ => trivial) hcalm).1

end Runs

section Example

def exampleProblem : Problem := ⟨1, 1, .benchmark⟩

def exampleSettings : AgentSettings ℚ :=
  { name := 0, metaHeuristicName := 0, lifetime := 1000, memoryTax := 1
    isConstructorMetaHeuristic := false, populationSize := some 1 }

def exampleSolution : Solution ℚ :=
  { id := 0, agent := none, solutionsVector := [some 1], functionValue := some 1
    viable := true, changed := false }

def fromNode (message : Message ℚ 1 1) : Input ℚ 1 1 :=
  ⟨⟨fun _ => [], [], .fin⟩, .actor (.node 0), message, []⟩

def stoppedRun : List (Input ℚ 1 1) :=
  [fromNode (.createAgent ⟨0, Nat.zero_lt_one⟩ (.actor (.node 0)) exampleSettings),
   fromNode (.startSimulation (some exampleProblem)), fromNode .stopSimulation]

def lateResponse : Input ℚ 1 1 := fromNode (.solutionResponse 0 0 [exampleSolution])

def chatters (s : AgentActor ℚ 1 1) (i : Input ℚ 1 1) : Bool :=
  (sends exampleProblem true ⟨0, Nat.zero_lt_one⟩ s i).any fun x =>
    match x.message with
    | .solutionRequest _ _ _ => true
    | .solutionResult _ => true
    | _ => false

/-- A response that arrives after the stop makes the agent hand out a result. -/
theorem late_response_breaks_silence :
    ¬Guarded (step exampleProblem true 0) (Silent exampleProblem true 0) start
      (stoppedRun ++ [lateResponse]) := by
  intro hsilent
  have hrun : (run (step exampleProblem true 0) start stoppedRun).map
      (fun w => (w.mode, chatters w.actor lateResponse)) = some (.stopped, true) := by
    decide +kernel
  obtain ⟨w, hw, hknown⟩ := Option.map_eq_some_iff.1 hrun
  obtain ⟨hmode, hchatters⟩ : w.mode = .stopped ∧ chatters w.actor lateResponse = true := by
    simpa using hknown
  obtain ⟨hquiet, -⟩ := hsilent.of_run stoppedRun hw (by simp [hmode]) id
  obtain ⟨x, hx, hresult⟩ := List.any_eq_true.1 hchatters
  refine hquiet x hx ?_
  split at hresult
  next hmessage =>
    rw [hmessage]
    trivial
  next hmessage =>
    rw [hmessage]
    trivial
  · simp at hresult

theorem stoppedRun_calm :
    Guarded (step exampleProblem true 0) Calm start
      (stoppedRun ++ [fromNode .internalStimulus]) := by
  have hrun : (run (step exampleProblem true 0) start stoppedRun).map Watched.mode =
      some .stopped := by decide +kernel
  refine ⟨fun _ _ _ => trivial, fun w₁ h₁ => ⟨fun _ _ _ => trivial, fun w₂ h₂ =>
    ⟨fun _ _ _ => trivial, fun w₃ h₃ => ⟨fun _ a _ hexpired => ?_, fun _ _ => trivial⟩⟩⟩⟩
  simp only [stoppedRun, run, h₁, h₂, h₃, Option.bind_some, Option.map_some,
    Option.some.injEq] at hrun
  exact absurd (hrun.symm.trans hexpired) (by simp)

theorem calm_run_silent_example :
    Guarded (step exampleProblem true 0) (Silent exampleProblem true 0) start
      (stoppedRun ++ [fromNode .internalStimulus]) :=
  calm_run_silent _ stoppedRun_calm

end Example

end DOptimas.Proofs.AgentSilence
