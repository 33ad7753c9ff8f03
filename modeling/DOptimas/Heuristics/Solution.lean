import DOptimas.Core.QLearningMemory
import DOptimas.Support.Program
/-!
# Solution objects

What a metaheuristic works on: solutions as objects that it shares, clones and
changes in place, the agent's context that counts evaluations, and the source of
its random draws.  A reference is the position of an object among all solutions
built so far.  The draws, the answers of the objective function and the clock
are fixed with the world, so that a run is a function of it.
-/

namespace DOptimas.Heuristics

open DOptimas.Support
open DOptimas.Core (SolutionAnalyser Draw)

/-- The exceptions of a run; `unfinished` ends a loop whose fuel is used up. -/
inductive Exception where
  | nullPointer
  | classCast
  | indexOutOfBounds
  | illegalArgument
  | illegalState
  | numberIsTooLarge
  | notStrictlyPositive
  | numberFormat
  | objectiveFunctionEvaluation
  | unfinished
  deriving DecidableEq

/-- Thrown by the code, where `unfinished` stands for a loop that has not returned. -/
def Exception.Thrown (e : Exception) : Prop :=
  e ≠ unfinished

/-- An element of a solution's vector.  Function and partition elements do not
override `equals`, so each carries the identity of its object. -/
inductive Element (K : Type) where
  | function (identity : ℕ) (value : K)
  | binaryPartitionNumber (identity : ℕ) (present : Bool)
  | vehicleRoutingTimeWindow (city : ℤ)
  deriving DecidableEq

namespace Element

variable {K : Type} [RealArith K]

def toDoubleValue : Element K → K
  | function _ value => value
  | binaryPartitionNumber _ present => if present then 1 else 0
  | vehicleRoutingTimeWindow city => city

end Element

inductive ProblemName where
  | benchmark
  | function
  | binaryPartitionNumber
  | vehicleRoutingTimeWindow
  | knapsack01
  deriving DecidableEq

/-- What a method of a solution class gives, and how many times it called the
problem's `evaluateFunction` for it. -/
structure Answer (α : Type) where
  evaluations : ℕ
  outcome : Except Exception α

/-- A problem with the methods of its solution class.  The first argument of an
objective function is the number of evaluations before it. -/
structure Problem (K : Type) where
  id : ℕ
  name : ProblemName
  dimension : ℕ
  nullInit : Bool
  analyser : SolutionAnalyser
  max : Bool
  /-- The function value that `initialize` stores. -/
  initialValue : K
  /-- `Double.parseDouble` of that value's text. -/
  parsedInitialValue : Except Exception K
  /-- The interval of a real coordinate. -/
  domain : ℕ → Except Exception (K × K)
  objectiveFunction : ℕ → List (Option (Element K)) → Answer K
  /-- The flag that the method leaves, and how it ends. -/
  checkViability : List (Option (Element K)) → Bool × Except Exception Unit
  adaptiveFunctionValue : ℕ → List (Option (Element K)) → Element K → Answer (Option K)

structure Solution (K : Type) where
  id : ℕ
  problem : Problem K
  solutionsVector : List (Option (Element K))
  functionValue : Option K
  viable : Bool
  changed : Bool

abbrev Ref := ℕ

structure World (K : Type) [RealArith K] where
  solutions : List (Solution K)
  nextId : ℕ
  nextIdentity : ℕ
  /-- The calls of `evaluateFunction` made so far. -/
  evaluations : ℕ
  /-- The agent's context. -/
  invocations : ℕ
  bestSolution : Option Ref
  uniforms : ℕ → Draw K
  choices : ℕ → ℕ
  clock : ℕ → K

abbrev Program (K : Type) [RealArith K] := EStateM Exception (World K)

/-- The context of an agent is known by its analyser; `none` is `null`. -/
abbrev Context := Option SolutionAnalyser

section Random

variable {K : Type} [RealArith K] {α : Type}

def nextDouble : Program K K :=
  modifyGet fun w => ((w.uniforms 0).value, { w with uniforms := fun n => w.uniforms (n + 1) })

def nextChoice : Program K ℕ :=
  modifyGet fun w => (w.choices 0, { w with choices := fun n => w.choices (n + 1) })

/-- The stop watch's time, read anew at every call. -/
def getTime : Program K K :=
  modifyGet fun w => (w.clock 0, { w with clock := fun n => w.clock (n + 1) })

def nextUniform (lower upper : K) : Program K K := do
  if upper ≤ lower then throw .numberIsTooLarge
  let u ← nextDouble
  return lower + u * (upper - lower)

/-- Both ends can be drawn. -/
def nextInt (lower upper : ℤ) : Program K ℤ := do
  if upper < lower then throw .numberIsTooLarge
  let c ← nextChoice
  return lower + c % (upper - lower + 1)

/-- Elements from distinct positions, in the order drawn. -/
def pick : ℕ → List α → Program K (List α)
  | 0, _ => return []
  | k + 1, xs => do
      let c ← nextChoice
      match xs[c % xs.length]? with
      | none => throw .indexOutOfBounds
      | some x => return x :: (← pick k (xs.eraseIdx (c % xs.length)))

def nextSample (xs : List α) (k : ℤ) : Program K (List α) := do
  if xs.length < k then throw .numberIsTooLarge
  if k ≤ 0 then throw .notStrictlyPositive
  pick k.toNat xs

end Random

variable {K : Type} [RealArith K]

def nonNull {α : Type} : Option α → Program K α
  | some a => return a
  | none => throw .nullPointer

def nth {α : Type} (xs : List α) (i : ℕ) : Program K α :=
  match xs[i]? with
  | some x => return x
  | none => throw .indexOutOfBounds

def orThrow {α : Type} : Except Exception α → Program K α
  | .ok a => return a
  | .error e => throw e

def randomUUID : Program K ℕ :=
  modifyGet fun w => (w.nextId, { w with nextId := w.nextId + 1 })

def newFunctionSolutionElement (value : K) : Program K (Element K) :=
  modifyGet fun w =>
    (.function w.nextIdentity value, { w with nextIdentity := w.nextIdentity + 1 })

def deref (r : Ref) : Program K (Solution K) := do
  nonNull (← get).solutions[r]?

def assign (r : Ref) (f : Solution K → Solution K) : Program K Unit :=
  modify fun w => { w with solutions := w.solutions.modify r f }

def allocate (s : Solution K) : Program K Ref :=
  modifyGet fun w => (w.solutions.length, { w with solutions := w.solutions ++ [s] })

def buildSolution (problem : Problem K) : Program K Ref := do
  let id ← randomUUID
  allocate
    { id, problem
      solutionsVector := if problem.nullInit then List.replicate problem.dimension none else []
      functionValue := some problem.initialValue
      viable := false
      changed := false }

/-- The copy constructor: the clone is not viable until it is calculated anew. -/
def clone (r : Ref) : Program K Ref := do
  let another ← deref r
  let id ← randomUUID
  allocate { another with id, viable := false }

def getBestSolution (a : SolutionAnalyser) (left right : Ref) : Program K Ref := do
  let l ← nonNull (← deref left).functionValue
  let r ← nonNull (← deref right).functionValue
  return if a.keepsLeft l r then left else right

/-- `stream().reduce(analyser::getBestSolution)`. -/
def findBestSolution (a : SolutionAnalyser) : List Ref → Program K (Option Ref)
  | [] => return none
  | r :: rs => do return some (← rs.foldlM (getBestSolution a) r)

def equals (left right : Ref) : Program K Bool := do
  return left = right || (← deref left).solutionsVector = (← deref right).solutionsVector

def compare (a : SolutionAnalyser) (left right : Ref) : Program K ℤ := do
  if ← equals left right then
    return 0
  let best ← getBestSolution a left right
  return if best = left then -1 else 1

/-- `AgentContext.accept`: the first solution is cloned, later ones are kept as they are. -/
def accept (a : SolutionAnalyser) (solution : Ref) : Program K Unit := do
  modify fun w => { w with invocations := w.invocations + 1 }
  match (← get).bestSolution with
  | none =>
      let best ← clone solution
      modify fun w => { w with bestSolution := some best }
  | some best =>
      let best ← getBestSolution a best solution
      modify fun w => { w with bestSolution := some best }

/-- The calls of `evaluateFunction` are counted before the answer is looked at. -/
def answered {α : Type} (answer : Answer α) : Program K α := do
  modify fun w => { w with evaluations := w.evaluations + answer.evaluations }
  orThrow answer.outcome

def calculate (context : Context) (r : Ref) : Program K Unit := do
  let s ← deref r
  let value ← answered (s.problem.objectiveFunction (← get).evaluations s.solutionsVector)
  assign r fun s => { s with functionValue := some value }
  let (viable, ending) := s.problem.checkViability s.solutionsVector
  assign r fun s => { s with viable }
  orThrow ending
  assign r fun s => { s with changed := false }
  match context with
  | some a => accept a r
  | none => return

def evaluate (context : Context) (r : Ref) : Program K (Option K) := do
  if (← deref r).changed then
    calculate context r
  return (← deref r).functionValue

def isViable (context : Context) (r : Ref) : Program K Bool := do
  if (← deref r).changed then
    calculate context r
  return (← deref r).viable

def getFunctionValue (r : Ref) : Program K (Option K) := do
  return (← deref r).functionValue

def adaptiveFunctionValue (r : Ref) (value : Element K) : Program K (Option K) := do
  let s ← deref r
  answered (s.problem.adaptiveFunctionValue (← get).evaluations s.solutionsVector value)

def setElement (r : Ref) (index : ℕ) (value : Element K) : Program K Unit := do
  let s ← deref r
  if s.problem.dimension ≤ index then throw .illegalArgument
  if s.solutionsVector.length ≤ index then throw .indexOutOfBounds
  assign r fun s =>
    { s with solutionsVector := s.solutionsVector.set index (some value), changed := true }

def addElement (r : Ref) (element : Element K) : Program K Unit := do
  let s ← deref r
  if s.problem.dimension ≤ s.solutionsVector.length then throw .illegalArgument
  assign r fun s =>
    { s with solutionsVector := s.solutionsVector ++ [some element], changed := true }

/-- `addElement(index, value)`: the guard counts empty slots, the last slot is dropped. -/
def addElementAt (r : Ref) (index : ℕ) (value : Option (Element K)) : Program K Unit := do
  let s ← deref r
  let emptyPositions := s.solutionsVector.countP Option.isNone
  if emptyPositions = 0 then throw .illegalState
  if s.solutionsVector.length < index then throw .indexOutOfBounds
  assign r fun s =>
    { s with
      solutionsVector := (s.solutionsVector.insertIdx index value).dropLast
      changed := true }

/-- The rest moves up, and the last slot becomes empty. -/
def removeElementShifting (r : Ref) (index : ℕ) : Program K Unit := do
  let s ← deref r
  if s.problem.dimension ≤ index then throw .illegalArgument
  if s.solutionsVector.length ≤ index then throw .indexOutOfBounds
  assign r fun s =>
    { s with solutionsVector := s.solutionsVector.eraseIdx index ++ [none], changed := true }

def getDoubleValue (r : Ref) (index : ℕ) : Program K K := do
  let vector := (← deref r).solutionsVector
  if vector.isEmpty then throw .illegalState
  if vector.length < index then throw .illegalArgument
  return (← nonNull (← nth vector index)).toDoubleValue

/-- A vector that is too long is cut to one element less than the dimension. -/
def setSolutionsVector (r : Ref) (vector : List (Option (Element K))) : Program K Unit := do
  let s ← deref r
  if s.problem.dimension < vector.length then
    if s.problem.dimension = 0 then throw .illegalArgument
    assign r fun s =>
      { s with solutionsVector := vector.take (s.problem.dimension - 1), changed := true }
  else
    assign r fun s => { s with solutionsVector := vector, changed := true }

def copyValues (solutions : List Ref) : Program K (List Ref) := solutions.mapM clone

end DOptimas.Heuristics
