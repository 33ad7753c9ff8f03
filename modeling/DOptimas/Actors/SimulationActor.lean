import DOptimas.Util.RegionSelector
/-!
# The simulation manager

Every cluster node runs one manager; the leading one owns the pool of region
ids, hands solutions out to regions and keeps the global statistics.  Stopping
the simulation asks every agent and every region in turn and waits for each
answer; a region's answer is its release, which advances the clock, and the
clock may stop the simulation again from inside the first stop.
-/

namespace DOptimas.Actors

open DOptimas.Support DOptimas.Core DOptimas.Util

structure SimulationSettings where
  region : RegionSettings
  /-- The problem built from the settings. -/
  problem : Problem
  benchmark : Bool
  executionTime : ℤ
  hasCooperation : Bool
  /-- Whether the logger of the managers writes debug output. -/
  isDebugEnabled : Bool := false
  deriving DecidableEq

structure SimulationActor (K : Type) (n m : ℕ) where
  nodes : List (ActorRef n m)
  agents : Fin m → Option (ActorRef n m)
  regions : Fin n → Option (ActorRef n m)
  amILeader : Bool
  leader : Option (ActorRef n m)
  simulationStarted : Bool
  status : Status
  regionsIds : List (Fin n)
  agentsIds : List (Fin m)
  regionUsedIds : List (Fin n)
  agentsUsedIds : List (Fin m)
  regionsSummary : Fin n → Option (SummaryStatistics K)
  globalStatistics : Option (StatisticalSummary K)
  problem : Problem
  time : ℕ

namespace SimulationActor

variable {K : Type} {n m : ℕ}

def new [CommonsMath K] (settings : SimulationSettings) : SimulationActor K n m :=
  { nodes := []
    agents := fun _ => none
    regions := fun _ => none
    amILeader := false
    leader := none
    simulationStarted := false
    status := .stopped
    regionsIds := List.finRange n
    agentsIds := List.finRange m
    regionUsedIds := []
    agentsUsedIds := []
    regionsSummary := fun _ => none
    globalStatistics := some (SummaryStatistics.new : SummaryStatistics K).toStatisticalSummary
    problem := settings.problem
    time := 0 }

open Handler

abbrev SimulationReceive (K : Type) (n m : ℕ) (α : Type) : Type :=
  Receive K n m (SimulationActor K n m) α

def self (k : ℕ) : ActorRef n m := .actor (.node k)

def regionsStats (s : SimulationActor K n m) : List (SummaryStatistics K) :=
  (List.finRange n).filterMap s.regionsSummary

/-- The count that `state()` reports for the global statistics. -/
def globalN (s : SimulationActor K n m) : ℕ :=
  (s.globalStatistics.map StatisticalSummary.n).getD 0

/-! ## The pool of region ids -/

/-- `nextId(regionsIds)` followed by the move to the used ids. -/
def nextRegionId : SimulationReceive K n m (Option (Fin n)) := do
  match (← get).regionsIds with
  | [] => pure none
  | id :: ids => do
      update fun s =>
        { s with regionsIds := ids, regionUsedIds := s.regionUsedIds ++ [id] }
      pure (some id)

def releaseId (id : Fin n) : SimulationReceive K n m Unit :=
  update fun s =>
    { s with regionsIds := s.regionsIds ++ [id], regionUsedIds := s.regionUsedIds.erase id }

/-- `regions[id] = null; regionsSummary[id] = null`. -/
def forgetRegion (id : Fin n) : SimulationReceive K n m Unit :=
  update fun s =>
    { s with
      regions := Function.update s.regions id none
      regionsSummary := Function.update s.regionsSummary id none }

def resetRegionsData [CommonsMath K] : SimulationReceive K n m Unit := do
  forEach (List.finRange n) fun id => do
    match (← get).regions id with
    | none => pure ()
    | some _ => releaseId id
  update fun s => { s with globalStatistics := aggregate s.regionsStats, time := 0 }

/-! ## The clock and the global statistics -/

def updateRegions (k : ℕ) : SimulationReceive K n m Unit := do
  let s ← get
  forEach s.regionUsedIds fun id =>
    match s.regions id with
    | none => pure ()
    | some region =>
        tell region (self k)
          (.updateGlobalSummary id s.globalStatistics s.time s.regionUsedIds)

def updateAgents (k : ℕ) : SimulationReceive K n m Unit := do
  let s ← get
  forEach s.agentsUsedIds fun id =>
    match s.agents id with
    | none => pure ()
    | some agent =>
        tell agent (self k)
          (.updateGlobalSummary id s.globalStatistics s.time s.regionUsedIds)

/-- `increaseTime`, where `stop` is what `stopAgentsAndRegions` does. -/
def increaseTime [CommonsMath K] (settings : SimulationSettings) (k : ℕ)
    (stop : SimulationReceive K n m Unit) : SimulationReceive K n m Unit := do
  update fun s => { s with time := s.time + 1 }
  if !settings.benchmark ∧ settings.executionTime ≤ (← get).time then do
    stop
    resetRegionsData
    update fun s => { s with simulationStarted := false, status := .finished }
    tell (.actor .main) (self k) (.simulationStopped (← get).nodes)
  else pure ()

/-- The debug output of `calculateGlobalParameters` reads the aggregate, which is
null when no summary is left. -/
def logStatistics (settings : SimulationSettings) : SimulationReceive K n m Unit :=
  if settings.isDebugEnabled then do
    let _ ← deref (.nullPointer .globalStatistics) SimulationActor.globalStatistics
  else pure ()

def calculateGlobalParameters [CommonsMath K] (settings : SimulationSettings) (k : ℕ)
    (stop : SimulationReceive K n m Unit) : SimulationReceive K n m Unit := do
  increaseTime settings k stop
  update fun s => { s with globalStatistics := aggregate s.regionsStats }
  updateRegions k
  updateAgents k
  logStatistics settings

def onRegionRelease [CommonsMath K] (settings : SimulationSettings) (k : ℕ)
    (stop : SimulationReceive K n m Unit) (id : Fin n) : SimulationReceive K n m Unit := do
  releaseId id
  forgetRegion id
  calculateGlobalParameters settings k stop

/-! ## Stopping -/

/-- `Patterns.ask(..).join()`. -/
def askStop (target : ActorRef n m) : SimulationReceive K n m (Message K n m) := do
  match ← ask target .stopSimulation with
  | none => throw .askTimeout
  | some answer => pure answer

def stopAgents : SimulationReceive K n m Unit :=
  forEach (List.finRange m) fun id => do
    match (← get).agents id with
    | none => pure ()
    | some agent => do
        let _ ← askStop agent

/-- The regions part of `stopAgentsAndRegions`, with the handling of a release. -/
def stopRegions (release : Fin n → SimulationReceive K n m Unit) : SimulationReceive K n m Unit :=
  forEach (List.finRange n) fun id => do
    match (← get).regions id with
    | none => pure ()
    | some region => do
        match ← askStop region with
        | .regionRelease senderId => release senderId
        | _ => pure ()

/-- `stopAgentsAndRegions`.  A release may start it again from inside; the
argument bounds the nesting. -/
def stopAgentsAndRegions [CommonsMath K] (settings : SimulationSettings) (k : ℕ) :
    ℕ → SimulationReceive K n m Unit
  | 0 => fun _ => .stuck
  | depth + 1 => do
      stopAgents
      stopRegions (onRegionRelease settings k (stopAgentsAndRegions settings k depth))

/-- Each nested stop starts after one more region has been forgotten. -/
def stopAll [CommonsMath K] (settings : SimulationSettings) (k : ℕ) :
    SimulationReceive K n m Unit :=
  stopAgentsAndRegions settings k (n + 2)

def onStopSimulation [CommonsMath K] (settings : SimulationSettings) (k : ℕ)
    (sender : ActorRef n m) : SimulationReceive K n m Unit := do
  let s ← get
  if s.amILeader then do
    stopAll settings k
    resetRegionsData
    update fun s => { s with simulationStarted := false, status := .stopped }
    tell sender (self k) (.simulationStopped (← get).nodes)
  else
    match s.leader with
    | none => pure ()
    | some leader => tell leader sender .stopSimulation

def onStartSimulation (k : ℕ) (sender : ActorRef n m) (problem : Option Problem) :
    SimulationReceive K n m Unit := do
  update fun s => { s with status := .started, problem := problem.getD s.problem }
  let s ← get
  forEach (List.finRange m) fun id =>
    match s.agents id with
    | none => pure ()
    | some agent => tell agent (self k) (.startSimulation (some s.problem))
  update fun s => { s with simulationStarted := true }
  tell sender (self k) .simulationStarted

/-! ## Solutions -/

def createRegion (settings : SimulationSettings) (k : ℕ) (id : Fin n)
    (solutions : List (Solution K)) : SimulationReceive K n m Unit := do
  let s ← get
  tell (.actor (.region id)) (self k)
    (.createRegion id settings.region solutions s.time s.problem)

def selectRegion [RealArith K] [CommonsMath K] (round : K → JDouble K) (draws : List (Draw K)) :
    SimulationReceive K n m (Fin n) := fun s =>
  match RegionSelector.selectRegion round ⟨s.regionUsedIds, s.regions, s.regionsSummary⟩ draws with
  | .chosen id => .ret id s
  | .indexOutOfBounds => .fail .indexOutOfBounds s
  | .exhausted => .stuck

/-- Draw a region and tell it to take the solutions. -/
def sendToRegion [RealArith K] [CommonsMath K] (k : ℕ) (round : K → JDouble K)
    (draws : List (Draw K)) (senderId : ℤ) (solutions : List (Solution K)) :
    SimulationReceive K n m Unit := do
  let id ← selectRegion round draws
  let region ← deref (.nullPointer .actorRef) fun s => s.regions id
  tell region (self k) (.solutionResponse senderId id solutions)

def onSolutionResult [RealArith K] [CommonsMath K] (settings : SimulationSettings) (k : ℕ)
    (oracle : Oracle K) (solutions : List (Solution K)) : SimulationReceive K n m Unit := do
  if solutions.isEmpty then pure ()
  else if ((← get).regionUsedIds.length : ℤ) < settings.region.minRegions then
    match ← nextRegionId with
    | none => pure ()
    | some id => createRegion settings k id solutions
  else sendToRegion k oracle.round (oracle.draws 0) 0 solutions

/-- One half of `onRegionSplit`: create a region with `solutions`, or without a
free id send `fallback` to a region that the roulette chooses. -/
def placeHalf [RealArith K] [CommonsMath K] (settings : SimulationSettings) (k : ℕ)
    (round : K → JDouble K) (draws : List (Draw K)) (solutions fallback : List (Solution K)) :
    SimulationReceive K n m Unit := do
  if solutions.isEmpty then pure ()
  else
    match ← nextRegionId with
    | some id => createRegion settings k id solutions
    | none => sendToRegion k round draws Nobody fallback

/-- Without a free id both halves send the higher solutions. -/
def onRegionSplit [RealArith K] [CommonsMath K] (settings : SimulationSettings) (k : ℕ)
    (oracle : Oracle K) (lower higher : List (Solution K)) : SimulationReceive K n m Unit := do
  placeHalf settings k oracle.round (oracle.draws 0) lower higher
  placeHalf settings k oracle.round (oracle.draws 1) higher higher

/-- Forward a message to the registered regions that `keep` allows. -/
def forwardToRegions (sender : ActorRef n m) (message : Message K n m)
    (keep : ActorRef n m → Bool) : SimulationReceive K n m Unit := do
  let s ← get
  forEach (List.finRange n) fun id =>
    match s.regions id with
    | none => pure ()
    | some region => if keep region then tell region sender message else pure ()

def onSolutionRequest (sender : ActorRef n m) (request : Message K n m) :
    SimulationReceive K n m Unit :=
  forwardToRegions sender request fun _ => true

def onMergeRequest (sender : ActorRef n m) (request : Message K n m) :
    SimulationReceive K n m Unit :=
  forwardToRegions sender request fun region => region ≠ sender

/-! ## Registration -/

def forwardToAllNodes (k : ℕ) (sender : ActorRef n m) (message : Message K n m) :
    SimulationReceive K n m Unit := do
  let s ← get
  forEach s.nodes fun node => if node = self k then pure () else tell node sender message

def onRegionRegister [CommonsMath K] (settings : SimulationSettings) (k : ℕ)
    (sender : ActorRef n m) (id : Fin n) (stats : SummaryStatistics K) :
    SimulationReceive K n m Unit := do
  update fun s =>
    { s with
      regions := Function.update s.regions id (some sender)
      regionsSummary := Function.update s.regionsSummary id (some stats) }
  calculateGlobalParameters settings k (stopAll settings k)
  updateRegions k
  updateAgents k
  if (← get).amILeader then forwardToAllNodes k sender (.regionRegister id stats) else pure ()

def onUpdateRegionSummary [CommonsMath K] (settings : SimulationSettings) (k : ℕ) (id : Fin n)
    (summary : SummaryStatistics K) : SimulationReceive K n m Unit := do
  update fun s => { s with regionsSummary := Function.update s.regionsSummary id (some summary) }
  calculateGlobalParameters settings k (stopAll settings k)

def onAgentRegister (k : ℕ) (sender : ActorRef n m) (id : Fin m) (ref : ActorRef n m) :
    SimulationReceive K n m Unit := do
  update fun s => { s with agents := Function.update s.agents id (some ref) }
  if (← get).amILeader then forwardToAllNodes k sender (.agentRegister id ref) else pure ()

def onAgentRelease (id : Fin m) : SimulationReceive K n m Unit :=
  update fun s =>
    { s with
      agents := Function.update s.agents id none
      agentsUsedIds := s.agentsUsedIds.erase id
      agentsIds := s.agentsIds ++ [id] }

/-! ## Leadership -/

/-- `agent.tell(new SetLeader(self()), self())` for every entity of a table. -/
def announceLeader {i : ℕ} (k : ℕ) (table : Fin i → Option (ActorRef n m)) :
    SimulationReceive K n m Unit :=
  forEach (List.finRange i) fun id =>
    match table id with
    | none => pure ()
    | some entity => tell entity (self k) (.setLeader (self k))

/-- `onLeaderChanged`.  On a node that does not lead, the new leader's reference
is resolved later, outside the handler; see `onLeaderResolved`. -/
def onLeaderChanged (k : ℕ) : Option ℕ → SimulationReceive K n m Unit
  | none => update fun s => { s with amILeader := false, leader := none }
  | some leader =>
      if leader = k then do
        update fun s => { s with amILeader := true, leader := some (self k) }
        let s ← get
        if s.simulationStarted then do
          announceLeader k s.agents
          announceLeader k s.regions
        else pure ()
      else update fun s => { s with amILeader := false }

/-- The future of `resolveOne` has completed. -/
def onLeaderResolved (leader : ActorRef n m) : SimulationReceive K n m Unit :=
  update fun s => { s with leader := some leader }

def onGetState (k : ℕ) (sender : ActorRef n m) : SimulationReceive K n m Unit := do
  let s ← get
  tell sender (self k)
    (.simulationState
      { status := s.status
        problem := s.problem
        time := s.time
        globalStatistics := s.globalStatistics
        agents := (List.finRange m).filterMap s.agents
        regions := (List.finRange n).filterMap s.regions
        regionsSummary :=
          (List.finRange n).filterMap fun id => (s.regionsSummary id).map fun t => (id, t) })

/-- `createReceive`. -/
def receive [RealArith K] [CommonsMath K] (settings : SimulationSettings) (k : ℕ)
    (oracle : Oracle K) (sender : ActorRef n m) : Message K n m → SimulationReceive K n m Unit
  | .leaderChanged leader => onLeaderChanged k leader
  | .leaderResolved leader => onLeaderResolved leader
  | .agentRegister id ref => onAgentRegister k sender id ref
  | .agentRelease id => onAgentRelease id
  | .regionRegister id stats => onRegionRegister settings k sender id stats
  | .solutionResult solutions => onSolutionResult settings k oracle solutions
  | .solutionRequest senderId receiverId counter =>
      onSolutionRequest sender (.solutionRequest senderId receiverId counter)
  | .regionSplit _ lower higher => onRegionSplit settings k oracle lower higher
  | .mergeRequest senderId receiverId summary space =>
      onMergeRequest sender (.mergeRequest senderId receiverId summary space)
  | .regionRelease id => onRegionRelease settings k (stopAll settings k) id
  | .updateRegionSummary id summary => onUpdateRegionSummary settings k id summary
  | .startSimulation problem => onStartSimulation k sender problem
  | .stopSimulation => onStopSimulation settings k sender
  | .getState => onGetState k sender
  | .terminate => fun _ => .stuck
  | _ => pure ()

end SimulationActor

end DOptimas.Actors
