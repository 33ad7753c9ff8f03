import DOptimas.Actors.Messages
/-!
# The agent actor

`CreateAgent` builds the agent, `StartSimulation` gives it its problem and its
timer; the other handlers assume that both have happened.
-/

namespace DOptimas.Actors

open DOptimas.Support DOptimas.Core

structure AgentActorSnapshot (K : Type) (n m : ℕ) [RealArith K] [MetaHeuristics K] where
  agent : Option (Agent K)
  leader : Option (ActorRef n m)

structure AgentActor (K : Type) (n m : ℕ) [RealArith K] [MetaHeuristics K] where
  agent : Option (Agent K)
  leader : Option (ActorRef n m)
  lifetime : ℕ
  globalTime : ℕ
  startTime : ℕ
  globalSolutions : ℕ
  internalTask : Option Timer
  agentStarted : Bool
  /-- The last snapshot in the journal. -/
  saved : Option (AgentActorSnapshot K n m)

namespace AgentActor

variable {K : Type} [RealArith K] [MetaHeuristics K] {n m : ℕ}

def new : AgentActor K n m :=
  { agent := none
    leader := none
    lifetime := 0
    globalTime := 0
    startTime := 0
    globalSolutions := 0
    internalTask := none
    agentStarted := false
    saved := none }

def self (id : Fin m) : ActorRef n m := .actor (.agent id)

/-- `createReceiveRecover`: the new incarnation registers with its leader again. -/
def recover (id : Fin m) (s : AgentActor K n m) :
    AgentActor K n m × List (Sending (ActorRef n m) (Message K n m)) :=
  match s.saved with
  | none => (new, [])
  | some snapshot =>
      ({ (new : AgentActor K n m) with
          agent := snapshot.agent
          leader := snapshot.leader
          lifetime := (snapshot.agent.map fun a => a.agentSettings.lifetime).getD 0
          saved := s.saved },
        snapshot.leader.toList.map fun leader => ⟨leader, self id, .agentRegister id (self id)⟩)

open Handler

abbrev AgentReceive (K : Type) (n m : ℕ) [RealArith K] [MetaHeuristics K] (α : Type) : Type :=
  Receive K n m (AgentActor K n m) α

def saveSnapshot : AgentReceive K n m Unit :=
  update fun s => { s with saved := some ⟨s.agent, s.leader⟩ }

def getAgent : AgentReceive K n m (Agent K) := deref (.nullPointer .agent) agent

def setAgent (a : Agent K) : AgentReceive K n m Unit := update fun s => { s with agent := some a }

def problemToString : AgentReceive K n m Unit := do
  let a ← getAgent
  match a.problem with
  | none => throw (.nullPointer .agentProblem)
  | some _ => pure ()

def cancelTask : AgentReceive K n m Unit := do
  let _ ← deref (.nullPointer .timer) internalTask
  update fun s => { s with internalTask := some .cancelled }

/-- The method reference `agent::reset` dereferences the agent even when the
message carries no problem. -/
def onStartSimulation (problem : Option Problem) : AgentReceive K n m Unit := do
  let a ← getAgent
  setAgent ((problem.map a.reset).getD a)
  update fun s =>
    { s with
      agentStarted := true
      startTime := s.globalTime
      globalSolutions := 0
      internalTask := some .scheduled }

def onStopSimulation (id : Fin m) (sender : ActorRef n m) : AgentReceive K n m Unit := do
  cancelTask
  update fun s => { s with agentStarted := false }
  tell sender (self id) (.simulationStopped [])

/-- `initialize` and the rest of `onCreateAgent`. -/
def onCreateAgent (settings : Problem) (id : Fin m) (sender leader : ActorRef n m)
    (agentSettings : AgentSettings K) : AgentReceive K n m Unit := do
  update fun s =>
    { s with
      leader := some leader
      agent := some (Agent.new settings agentSettings)
      lifetime := agentSettings.lifetime }
  tell sender (self id) (.agentRegister id (self id))
  saveSnapshot

/-- The value in the benchmark's answer; a missing answer, an empty one and one
of another kind all reach the metaheuristic as an exception. -/
def evaluation : Option (Message K n m) → Option K
  | some (.evaluateResult y) => y
  | _ => none

/-- Run a metaheuristic, asking the benchmark for each value it needs.  An
exception ends the run with no solutions. -/
def runAlgorithm : Run (MetaHeuristics.Memory K) K →
    AgentReceive K n m
      (Option (List (Solution K)) × MetaHeuristics.Memory K × AgentContext K)
  | .done result memory context => pure (result, memory, context)
  | .throws memory context => pure (some [], memory, context)
  | .evaluateFunction x next => fun s =>
      .ask s (.actor .benchmark) (.evaluate x) fun answer =>
        runAlgorithm (next (evaluation answer)) s

def processMetaHeuristic (draws : List (Draw K)) (solutions : List (Solution K))
    (regionId : ℤ) : AgentReceive K n m (List (Solution K)) := do
  let a ← getAgent
  let (result, memory, context) ← runAlgorithm (a.runAlgorithm solutions draws)
  let a := { a with metaHeuristic := memory, context := context }
  setAgent a
  match a.learn result regionId with
  | .error e => throw e
  | .ok (a, result) => do
      setAgent a
      pure result

/-- The rest of `processSolutionList`; the first record of each solution and the
record of the memory name the agent's problem. -/
def broadcast (id : Fin m) (result : List (Solution K)) : AgentReceive K n m Unit := do
  forEach result fun _ => problemToString
  problemToString
  saveSnapshot
  let leader ← deref (.nullPointer .leader) leader
  tell leader (self id)
    (.solutionResult (result.map fun s => { s with agent := some id.val }))

def processSolutionList (id : Fin m) (draws : List (Draw K)) (region : ℤ)
    (solutions : List (Solution K)) : AgentReceive K n m Unit := do
  let result ← processMetaHeuristic draws solutions region
  broadcast id result

/-- The deprecated `onSolutionRequest`, which answers with no solutions. -/
def onSolutionRequest (hasCooperation : Bool) (id : Fin m) (sender : ActorRef n m)
    (senderId : ℤ) : AgentReceive K n m Unit := do
  problemToString
  let a ← getAgent
  if a.agentSettings.isConstructorMetaHeuristic || hasCooperation then
    tell sender (self id) (.solutionResponse id senderId [])
  else pure ()

def onSolutionResponse (id : Fin m) (draws : List (Draw K)) (senderId : ℤ)
    (solutions : List (Solution K)) : AgentReceive K n m Unit := do
  problemToString
  processSolutionList id draws senderId solutions

/-- Ask a remembered region for solutions, or all of them through the leader. -/
def requestSolutions (id : Fin m) (a : Agent K) : Option ℤ → AgentReceive K n m Unit
  | some region => do
      tell (.actor (regionEntity region)) (self id)
        (.solutionRequest id region a.solutionsCount)
      problemToString
  | none => do
      let leader ← deref (.nullPointer .leader) leader
      tell leader (self id) (.solutionRequest id Nobody a.solutionsCount)

def requestChosen (id : Fin m) (a : Agent K) :
    Except Failure (Option ℤ) → AgentReceive K n m Unit
  | .error e => throw e
  | .ok region => requestSolutions id a region

def requestByMemory (id : Fin m) (a : Agent K) : List (Draw K) → AgentReceive K n m Unit
  | draw :: dice :: _ => requestChosen id a (a.chooseRegion draw dice)
  | _ => fun _ => .stuck

def onInternalStimulus (id : Fin m) (oracle : Oracle K) : AgentReceive K n m Unit := do
  let s ← get
  match s.agent with
  | none => pure ()
  | some a =>
      if !s.agentStarted then pure ()
      else if a.agentSettings.isConstructorMetaHeuristic then
        processSolutionList id (oracle.draws 0) Nobody []
      else if (s.globalSolutions : ℤ) < a.solutionsCount then pure ()
      else requestByMemory id a (oracle.draws 1)

def onGetState (id : Fin m) (sender : ActorRef n m) : AgentReceive K n m Unit := do
  let s ← get
  match s.agent with
  | none => tell sender (self id) .statusFailure
  | some a =>
      tell sender (self id)
        (.detailedAgentState
          { lifetime := s.lifetime
            startTime := s.startTime
            currentTime := s.globalTime
            completeExecutions := a.context.invocations
            requiredSolutions := a.solutionsCount
            heuristic := a.agentSettings.metaHeuristicName
            memoryTax := a.agentSettings.memoryTax
            bestSolution := a.context.bestSolution
            qTable := a.qLearningMemory.qTable })

def onUpdateGlobalSummary (choices : List ℕ) (summary : Option (StatisticalSummary K))
    (time : ℕ) (regionIds : List (Fin n)) : AgentReceive K n m Unit := do
  update fun s =>
    { s with
      globalTime := time
      globalSolutions := (summary.map StatisticalSummary.n).getD s.globalSolutions }
  let a ← getAgent
  setAgent (a.updateMemory choices (regionIds.map fun id => (id.val : ℤ)))
  if (← get).lifetime < time then cancelTask else pure ()

/-- `createReceive`.  `SetLeader` is not among the messages it matches. -/
def receive (settings : Problem) (hasCooperation : Bool) (id : Fin m) (oracle : Oracle K)
    (sender : ActorRef n m) : Message K n m → AgentReceive K n m Unit
  | .solutionRequest senderId _ _ => onSolutionRequest hasCooperation id sender senderId
  | .solutionResponse senderId _ solutions =>
      onSolutionResponse id (oracle.draws 0) senderId solutions
  | .createAgent _ leader agentSettings =>
      onCreateAgent settings id sender leader agentSettings
  | .internalStimulus => onInternalStimulus id oracle
  | .updateGlobalSummary _ summary time regionIds =>
      onUpdateGlobalSummary oracle.choices summary time regionIds
  | .startSimulation problem => onStartSimulation problem
  | .stopSimulation => onStopSimulation id sender
  | .getState => onGetState id sender
  | _ => pure ()

end AgentActor

end DOptimas.Actors
