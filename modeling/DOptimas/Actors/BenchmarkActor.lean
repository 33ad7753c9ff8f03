import DOptimas.Actors.Messages
/-!
# The benchmark actor

It fetches the problems of a suite one after the other, evaluates vectors on the
current one up to a budget, and extracts the results between two problems.
Fetching, evaluating and extracting are native or external; what they return is
the environment's choice.
-/

namespace DOptimas.Actors

open DOptimas.Support DOptimas.Core

inductive Fetch where
  | problem (p : Problem)
  /-- The native suite is exhausted. -/
  | null
  | throws
  deriving DecidableEq

/-- How `extractData` ends.  Its `run` exits the process once every extractor
has written its file. -/
inductive Extraction where
  | exit
  | ioException
  | throws
  deriving DecidableEq

structure BenchmarkActor where
  benchmarkProblem : Option Problem
  /-- What the suite still has to offer, `null` for ever after its end. -/
  suite : List Fetch
  evaluations : ℕ
  evaluationsBudget : ℤ
  runningSimulation : Bool
  problemCounter : ℕ
  /-- The suite and the observer have been finalized. -/
  finalized : Bool
  deriving DecidableEq

namespace BenchmarkActor

variable {K : Type} {n m : ℕ}

def new (suite : List Fetch) (evaluationsBudget : ℤ) : BenchmarkActor :=
  { benchmarkProblem := none
    suite
    evaluations := 0
    evaluationsBudget
    runningSimulation := false
    problemCounter := 0
    finalized := false }

/-- A restart keeps the constructor's arguments and opens the suite again. -/
def restart (suite : List Fetch) (s : BenchmarkActor) : BenchmarkActor :=
  new suite s.evaluationsBudget

def self : ActorRef n m := .actor .benchmark

def simulationActor : ActorRef n m := .actor (.node 0)

open Handler

abbrev BenchmarkReceive (K : Type) (n m : ℕ) : Type := Receive K n m BenchmarkActor Unit

def stopBenchmark : BenchmarkReceive K n m := update fun s => { s with finalized := true }

/-- The end of the suite and a failed fetch: finalize and ask the parent to terminate. -/
def terminate : BenchmarkReceive K n m := do
  stopBenchmark
  tell (.actor .main) self .terminate

/-- The problem that a failed fetch leaves in place is the previous one. -/
def nextProblem : BenchmarkReceive K n m := do
  let s ← get
  update fun s => { s with suite := s.suite.tail }
  match s.suite.headD .null with
  | .problem p =>
      update fun s =>
        { s with
          benchmarkProblem := some p
          evaluations := 0
          problemCounter := s.problemCounter + 1 }
  | .null => do
      update fun s => { s with benchmarkProblem := none }
      terminate
      update fun s => { s with problemCounter := s.problemCounter + 1 }
  | .throws => terminate

def checkStopCondition : BenchmarkReceive K n m := do
  let s ← get
  if (s.evaluations : ℤ) = s.evaluationsBudget then do
    tell simulationActor self .stopSimulation
    update fun s => { s with runningSimulation := false }
  else pure ()

/-- `cocoEvaluateFunction` may throw; the exception is logged and the request
stays unanswered. -/
def handleEvaluate (evaluateFunction : Problem → List K → Option K) (sender : ActorRef n m)
    (x : List K) : BenchmarkReceive K n m := do
  let s ← get
  if !s.runningSimulation then tell sender self (.evaluateResult none)
  else
    match s.benchmarkProblem.bind fun p => evaluateFunction p x with
    | none => pure ()
    | some y => do
        tell sender self (.evaluateResult (some y))
        update fun s => { s with evaluations := s.evaluations + 1 }
        checkStopCondition

def startSimulation : BenchmarkReceive K n m := do
  let s ← get
  if !s.runningSimulation then do
    update fun s => { s with runningSimulation := true, evaluations := 0 }
    tell simulationActor self (.startSimulation s.benchmarkProblem)
  else pure ()

def startBenchmark : BenchmarkReceive K n m := do
  nextProblem
  match (← get).benchmarkProblem with
  | none => pure ()
  | some _ => startSimulation

/-- The path of the extracted files names the current problem. -/
def extractData (extraction : Extraction) : BenchmarkReceive K n m := do
  let _ ← deref (.nullPointer .problem) benchmarkProblem
  match extraction with
  | .exit => fun _ => .stuck
  | .ioException => pure ()
  | .throws => throw .extraction

def handleSimulationEnd (extraction : Extraction) : BenchmarkReceive K n m := do
  extractData extraction
  nextProblem
  startSimulation

/-- `createReceive`. -/
def receive (evaluateFunction : Problem → List K → Option K) (extraction : Extraction)
    (sender : ActorRef n m) : Message K n m → BenchmarkReceive K n m
  | .evaluate x => handleEvaluate evaluateFunction sender x
  | .startSimulation _ => startBenchmark
  | .simulationStopped _ => handleSimulationEnd extraction
  | _ => pure ()

end BenchmarkActor

end DOptimas.Actors
