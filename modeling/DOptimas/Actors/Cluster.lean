import DOptimas.Actors.AgentActor
import DOptimas.Actors.BenchmarkActor
import DOptimas.Actors.RegionActor
import DOptimas.Actors.SimulationActor
import DOptimas.Support.Runs
/-!
# The cluster

The simulation managers, regions, agents and the benchmark as one actor system.
Timers, API callers and cluster events are messages that the environment injects.
-/

namespace DOptimas.Actors

open DOptimas.Support DOptimas.Core

structure Deployment (K : Type) where
  settings : SimulationSettings
  suite : List Fetch
  evaluateFunction : Problem → List K → Option K

/-- What chance and the file system decide during one delivery. -/
structure Choices (K : Type) [RealArith K] extends Oracle K where
  extraction : Extraction

variable {K : Type} [RealArith K] [CommonsMath K] [MetaHeuristics K]

abbrev ActorState (K : Type) [RealArith K] [MetaHeuristics K] (n m : ℕ) : Address n m → Type
  | .node _ => SimulationActor K n m
  | .region _ => RegionActor K n m
  | .agent _ => AgentActor K n m
  | .benchmark => BenchmarkActor
  | .main => Unit
  | .client _ => Unit
  | .stray _ => Unit

/-- `MainActor`: it starts a ready simulation and terminates the nodes of a
finished one. -/
def mainReceive {n m : ℕ} (settings : SimulationSettings) :
    Message K n m → Receive K n m Unit Unit
  | .simulationReady =>
      Handler.tell (if settings.benchmark then .actor .benchmark else .actor (.node 0))
        (.actor .main) (.startSimulation none)
  | .simulationStopped nodes =>
      Handler.forEach nodes fun node => Handler.tell node (.actor .main) .terminate
  | _ => pure ()

def actorReceive {n m : ℕ} (d : Deployment K) (choices : Choices K) (sender : ActorRef n m)
    (message : Message K n m) : (a : Address n m) → Receive K n m (ActorState K n m a) Unit
  | .node k => SimulationActor.receive d.settings k choices.toOracle sender message
  | .region i => RegionActor.receive i choices.choices sender message
  | .agent j =>
      AgentActor.receive d.settings.problem d.settings.hasCooperation j choices.toOracle sender
        message
  | .benchmark => BenchmarkActor.receive d.evaluateFunction choices.extraction sender message
  | .main => mainReceive d.settings message
  | .client _ => pure ()
  | .stray _ => pure ()

/-- Supervision: a manager starts from its constructor, an entity from its last
snapshot. -/
def actorRestart {n m : ℕ} (d : Deployment K) :
    (a : Address n m) → ActorState K n m a →
      ActorState K n m a × List (Sending (ActorRef n m) (Message K n m))
  | .node _, _ => (SimulationActor.new d.settings, [])
  | .region _, s => (RegionActor.recover s, [])
  | .agent j, s => AgentActor.recover j s
  | .benchmark, s => (BenchmarkActor.restart d.suite s, [])
  | .main, s => (s, [])
  | .client _, s => (s, [])
  | .stray _, s => (s, [])

abbrev cluster (n m : ℕ) (d : Deployment K) :
    Behaviour Failure (Address n m) (Message K n m) (Choices K) where
  State := ActorState K n m
  receive a choices sender message := actorReceive d choices sender message a
  restart a s := actorRestart d a s

abbrev Cluster (n m : ℕ) (d : Deployment K) : Type := Config (cluster n m d)

abbrev ClusterEvent (K : Type) [RealArith K] (n m : ℕ) : Type :=
  Event (Address n m) (Message K n m) (Choices K)

namespace Cluster

variable {n m : ℕ} {d : Deployment K}

def start (d : Deployment K) (nodes : ℕ → SimulationActor K n m)
    (agents : Fin m → AgentActor K n m) (benchmark : BenchmarkActor) : Cluster n m d where
  state
    | .node k => nodes k
    | .region _ => .new
    | .agent j => agents j
    | .benchmark => benchmark
    | .main => ()
    | .client _ => ()
    | .stray _ => ()
  waiting _ := none
  asked _ := 0
  net := []

def run (c : Cluster n m d) (es : List (ClusterEvent K n m)) : Option (Cluster n m d) :=
  Support.run Config.step c es

def node (c : Cluster n m d) (k : ℕ) : SimulationActor K n m := c.state (.node k)

def region (c : Cluster n m d) (i : Fin n) : RegionActor K n m := c.state (.region i)

def agent (c : Cluster n m d) (j : Fin m) : AgentActor K n m := c.state (.agent j)

def benchmark (c : Cluster n m d) : BenchmarkActor := c.state .benchmark

end Cluster

end DOptimas.Actors
