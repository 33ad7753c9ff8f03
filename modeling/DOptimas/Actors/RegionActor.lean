import DOptimas.Actors.Messages
/-!
# The region actor

Every handler reads a different subset of the fields that `CreateRegion` fills
in.  The actor is persistent: a handler that throws restarts it from the last
snapshot it saved, which holds the region, the leader and the global summary.
-/

namespace DOptimas.Actors

open DOptimas.Support DOptimas.Core

structure RegionActorSnapshot (K : Type) (n m : ℕ) where
  region : Option (Region K)
  leader : Option (ActorRef n m)
  globalSummary : Option (StatisticalSummary K)
  deriving DecidableEq

structure RegionActor (K : Type) (n m : ℕ) where
  problem : Option Problem
  region : Option (Region K)
  leader : Option (ActorRef n m)
  globalSummary : Option (StatisticalSummary K)
  internalTask : Option Timer
  time : ℕ
  regionStarted : Bool
  /-- The last snapshot in the journal. -/
  saved : Option (RegionActorSnapshot K n m)
  deriving DecidableEq

namespace RegionActor

variable {K : Type} {n m : ℕ}

def new : RegionActor K n m :=
  { problem := none
    region := none
    leader := none
    globalSummary := none
    internalTask := none
    time := 0
    regionStarted := false
    saved := none }

/-- `createReceiveRecover`, run by every new incarnation. -/
def recover (s : RegionActor K n m) : RegionActor K n m :=
  match s.saved with
  | none => new
  | some snapshot =>
      { (new : RegionActor K n m) with
        region := snapshot.region
        leader := snapshot.leader
        globalSummary := snapshot.globalSummary
        saved := s.saved }

def snapshot (s : RegionActor K n m) : RegionActorSnapshot K n m :=
  ⟨s.region, s.leader, s.globalSummary⟩

open Handler

abbrev RegionReceive (K : Type) (n m : ℕ) : Type := Receive K n m (RegionActor K n m) Unit

def self (id : Fin n) : ActorRef n m := .actor (.region id)

def saveSnapshot : RegionReceive K n m := update fun s => { s with saved := some s.snapshot }

def problemToString : RegionReceive K n m := do
  let _ ← deref (.nullPointer .problem) problem

def cancelTask : RegionReceive K n m := do
  let _ ← deref (.nullPointer .timer) internalTask
  update fun s => { s with internalTask := some .cancelled }

def tellLeader (id : Fin n) (message : Message K n m) : RegionReceive K n m := do
  let leader ← deref (.nullPointer .leader) leader
  tell leader (self id) message

def solutionState (solution : Solution K) : RegionReceive K n m :=
  match solution.toDoubleArray with
  | none => throw (.nullPointer .element)
  | some _ => do
      problemToString
      match solution.functionValue with
      | none => throw (.nullPointer .functionValue)
      | some _ => pure ()

def regionState : RegionReceive K n m := do
  let region ← deref (.nullPointer .region) region
  problemToString
  match region.bestSolution with
  | none => throw (.nullPointer .bestSolution)
  | some _ => pure ()

/-- `region.addSolutionsCollection`, which may leave the region half-way. -/
def collect [RealArith K] (region : Region K) (solutions : List (Solution K)) :
    RegionReceive K n m := do
  update fun s => { s with region := some (region.addSolutionsCollection solutions).1 }
  match (region.addSolutionsCollection solutions).2 with
  | some e => throw e
  | none => pure ()

/-- The report that closes `addSolutions`. -/
def reportSummary (id : Fin n) : RegionReceive K n m := do
  let region ← deref (.nullPointer .region) region
  tellLeader id (.updateRegionSummary id region.summary)
  problemToString

def addSolutions [RealArith K] (id : Fin n) (solutions : List (Solution K)) :
    RegionReceive K n m := do
  let region ← deref (.nullPointer .region) region
  collect region solutions
  saveSnapshot
  forEach solutions solutionState
  regionState
  reportSummary id

/-- `initialize`. -/
def initializeRegion [RealArith K] (id : Fin n) (sender : ActorRef n m)
    (settings : RegionSettings) (initialSolutions : List (Solution K)) (time : ℕ)
    (problem : Problem) : RegionReceive K n m := do
  update fun s =>
    { s with
      problem := some problem
      time := time
      region := some (Region.new id problem settings)
      leader := some sender }
  addSolutions id initialSolutions
  let region ← deref (.nullPointer .region) region
  tell sender (self id) (.regionRegister id region.summary)
  update fun s => { s with internalTask := some .scheduled, regionStarted := true }

def onCreate [RealArith K] (id : Fin n) (sender : ActorRef n m) (settings : RegionSettings)
    (initialSolutions : List (Solution K)) (time : ℕ) (problem : Problem) :
    RegionReceive K n m := do
  initializeRegion id sender settings initialSolutions time problem
  saveSnapshot

def onLeaderChanged (sender : ActorRef n m) : RegionReceive K n m := do
  update fun s => { s with leader := some sender }
  saveSnapshot

def onStopSimulation (id : Fin n) (sender : ActorRef n m) : RegionReceive K n m := do
  cancelTask
  let region ← deref (.nullPointer .region) region
  update fun s => { s with region := some region.clear, regionStarted := false }
  tell sender (self id) (.regionRelease id)

def onUpdateGlobalSummary (summary : Option (StatisticalSummary K)) (time : ℕ) :
    RegionReceive K n m := do
  problemToString
  update fun s => { s with globalSummary := summary, time := time }

def onSolutionRequest (id : Fin n) (choices : List ℕ) (sender : ActorRef n m)
    (receiverId counter : ℤ) : RegionReceive K n m := do
  problemToString
  let region ← deref (.nullPointer .region) region
  if counter < region.solutionList.length then
    match region.getRandomSolutions choices counter with
    | none => throw .sampleSize
    | some solutions => do
        tell sender (self id) (.solutionResponse id receiverId solutions)
        problemToString
  else pure ()

def onSolutionResponse [RealArith K] (id : Fin n) (solutions : List (Solution K)) :
    RegionReceive K n m := do
  problemToString
  addSolutions id solutions

/-- `EuclideanDistance.compute`, of which the handler uses that it returns. -/
def compareMeans [CommonsMath K] (left right : MultivariateSummaryStatistics K) :
    RegionReceive K n m :=
  if left.getMean.length = right.getMean.length then pure () else throw .dimensionMismatch

def onMergeRequest [RealArith K] [CommonsMath K] (id : Fin n) (sender : ActorRef n m)
    (senderId : Fin n) (summary : SummaryStatistics K)
    (searchSpaceSummary : MultivariateSummaryStatistics K) : RegionReceive K n m := do
  problemToString
  let region ← deref (.nullPointer .region) region
  let merged ← deref (.nullPointer .summary) fun _ => aggregate [region.summary, summary]
  compareMeans region.searchSpaceSummary searchSpaceSummary
  if (variationRate merged).lt (variationRate region.summary.toStatisticalSummary) then do
    tell sender (self id) (.mergeResponse id senderId)
    problemToString
  else pure ()

def stopRegion : RegionReceive K n m := do
  cancelTask
  update fun s => { s with region := none, globalSummary := none }
  saveSnapshot

def onMergeResponse (id : Fin n) (sender : ActorRef n m) (senderId : Fin n) :
    RegionReceive K n m := do
  problemToString
  match (← get).region with
  | none => pure ()
  | some region => do
      tell sender (self id) (.mergeResult id senderId region.solutionList)
      tellLeader id (.regionRelease id)
      problemToString
      stopRegion

def onMergeResult [RealArith K] (id : Fin n) (solutions : List (Solution K)) :
    RegionReceive K n m := do
  problemToString
  addSolutions id solutions

/-- The two messages that an unbalanced region can send, by the result of its split. -/
def announceSplit (id : Fin n) : List (List (Solution K)) → RegionReceive K n m
  | [] => do
      let region ← deref (.nullPointer .region) region
      tellLeader id (.mergeRequest id Everybody region.summary region.searchSpaceSummary)
      problemToString
  | [_] => throw .indexOutOfBounds
  | lower :: higher :: _ => do
      tellLeader id (.regionSplit id lower higher)
      problemToString
      saveSnapshot

def onInternalStimulus [RealArith K] [CommonsMath K] (id : Fin n) : RegionReceive K n m := do
  let s ← get
  match s.region, s.globalSummary with
  | none, _ => pure ()
  | some _, none => pure ()
  | some region, some globalSummary =>
      if (variationRate globalSummary).lt
          (variationRate region.summary.toStatisticalSummary) then do
        update fun s => { s with region := some region.split.1 }
        match region.split.2 with
        | .error e => throw e
        | .ok lists => announceSplit id lists
      else pure ()

/-- `createReceive`. -/
def receive [RealArith K] [CommonsMath K] (id : Fin n) (choices : List ℕ)
    (sender : ActorRef n m) : Message K n m → RegionReceive K n m
  | .createRegion _ settings solutions time problem =>
      onCreate id sender settings solutions time problem
  | .setLeader _ => onLeaderChanged sender
  | .solutionResponse _ _ solutions => onSolutionResponse id solutions
  | .solutionRequest _ receiverId counter =>
      onSolutionRequest id choices sender receiverId counter
  | .mergeRequest senderId _ summary searchSpaceSummary =>
      onMergeRequest id sender senderId summary searchSpaceSummary
  | .mergeResponse senderId _ => onMergeResponse id sender senderId
  | .mergeResult _ _ solutions => onMergeResult id solutions
  | .internalStimulus => onInternalStimulus id
  | .updateGlobalSummary _ summary time _ => onUpdateGlobalSummary summary time
  | .stopSimulation => onStopSimulation id sender
  | _ => pure ()

end RegionActor

end DOptimas.Actors
