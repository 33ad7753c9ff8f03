import DOptimas.Core.Agent
import DOptimas.Core.Region
import DOptimas.Support.System
/-!
# Messages

The addresses of the actors and the messages they exchange.  A region or agent
id that comes from the pools of the settings is a `Fin`; an id that a message
merely carries is an integer, since `Nobody` and `Everybody` may stand there.
A summary in a message is the copy that serialization between two JVMs makes of
it: a region and a manager in one JVM would share the region's own object.
-/

namespace DOptimas.Actors

open DOptimas.Support DOptimas.Core

inductive Address (n m : ℕ) where
  /-- The simulation manager of a cluster node. -/
  | node (k : ℕ)
  | region (i : Fin n)
  | agent (j : Fin m)
  | benchmark
  | main
  /-- A caller of the API. -/
  | client (c : ℕ)
  /-- A sharded entity whose id is not a region id. -/
  | stray (id : ℤ)
  deriving DecidableEq

abbrev ActorRef (n m : ℕ) : Type := Ref (Address n m)

def regionEntity {n m : ℕ} (id : ℤ) : Address n m :=
  if h : 0 ≤ id ∧ id.toNat < n then .region ⟨id.toNat, h.2⟩ else .stray id

@[simp] theorem regionEntity_coe {n m : ℕ} (i : Fin n) :
    (regionEntity (i.val : ℤ) : Address n m) = .region i := by
  simp [regionEntity]

def Nobody : ℤ := -2147483648

def Everybody : ℤ := -0x3f3f3f3f

structure DetailedAgentState (K : Type) where
  lifetime : ℕ
  startTime : ℕ
  currentTime : ℕ
  completeExecutions : ℕ
  requiredSolutions : ℤ
  heuristic : ℕ
  memoryTax : K
  bestSolution : Option (Solution K)
  qTable : List (ℤ × K)

inductive Status where
  | stopped
  | ready
  | started
  | finished
  deriving DecidableEq

structure SimulationState (K : Type) (n m : ℕ) where
  status : Status
  problem : Problem
  time : ℕ
  globalStatistics : Option (StatisticalSummary K)
  agents : List (ActorRef n m)
  regions : List (ActorRef n m)
  regionsSummary : List (Fin n × SummaryStatistics K)

inductive Message (K : Type) (n m : ℕ) where
  | setLeader (leader : ActorRef n m)
  | agentRegister (senderId : Fin m) (sender : ActorRef n m)
  | agentRelease (senderId : Fin m)
  | createAgent (receiverId : Fin m) (leader : ActorRef n m) (settings : AgentSettings K)
  | regionRegister (senderId : Fin n) (stats : SummaryStatistics K)
  | createRegion (receiverId : Fin n) (settings : RegionSettings)
      (initialSolutions : List (Solution K)) (time : ℕ) (problem : Problem)
  | regionRelease (senderId : Fin n)
  | solutionRequest (senderId receiverId counter : ℤ)
  | solutionResponse (senderId receiverId : ℤ) (solutions : List (Solution K))
  | updateRegionSummary (senderId : Fin n) (summary : SummaryStatistics K)
  | updateGlobalSummary (receiverId : ℕ) (summary : Option (StatisticalSummary K)) (time : ℕ)
      (regionIds : List (Fin n))
  | mergeRequest (senderId : Fin n) (receiverId : ℤ) (summary : SummaryStatistics K)
      (searchSpaceSummary : MultivariateSummaryStatistics K)
  | mergeResponse (senderId receiverId : Fin n)
  | mergeResult (senderId receiverId : Fin n) (solutions : List (Solution K))
  | solutionResult (solutions : List (Solution K))
  | regionSplit (senderId : Fin n) (lower higher : List (Solution K))
  | evaluate (x : List K)
  | evaluateResult (y : Option K)
  | startSimulation (problem : Option Problem)
  | simulationStarted
  | simulationReady
  | stopSimulation
  | simulationStopped (nodes : List (ActorRef n m))
  | getState
  | simulationState (state : SimulationState K n m)
  | detailedAgentState (state : DetailedAgentState K)
  | statusFailure
  | terminate
  | internalStimulus
  /-- The cluster's `LeaderChanged` event with the leader's node, if there is one. -/
  | leaderChanged (leader : Option ℕ)
  /-- The leader's reference, which another thread assigns to the manager that has
  asked for it.  No handler reads the field after it has waited. -/
  | leaderResolved (leader : ActorRef n m)

namespace Message

variable {K : Type} {n m : ℕ}

def carried : Message K n m → List (Solution K)
  | createRegion _ _ solutions _ _ => solutions
  | solutionResponse _ _ solutions => solutions
  | mergeResult _ _ solutions => solutions
  | solutionResult solutions => solutions
  | regionSplit _ lower higher => lower ++ higher
  | _ => []

end Message

/-- What chance and the machine decide while one message is handled: the draws of
each random generator that the handler creates, the positions that a sample picks,
and the double that stands for the exact result of an operation. -/
structure Oracle (K : Type) [RealArith K] where
  draws : ℕ → List (Draw K)
  choices : List ℕ
  round : K → JDouble K

/-- What an entity keeps of its scheduled `InternalStimulus`. -/
inductive Timer where
  | scheduled
  | cancelled
  deriving DecidableEq

abbrev Receive (K : Type) (n m : ℕ) (σ α : Type) : Type :=
  Handler Failure σ (ActorRef n m) (Message K n m) α

end DOptimas.Actors
