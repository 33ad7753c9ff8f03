import DOptimas.Heuristics.Solution
/-!
# The parts a metaheuristic is configured with

Stop conditions, modifiers of solutions and of collections, local searches,
candidate lists and temperatures, and the parameters that name them.  A name
that no class answers to leaves a `null` part behind.
-/

namespace DOptimas.Heuristics

open DOptimas.Support
open DOptimas.Core (SolutionAnalyser)

/-- A parameter that names a class: absent, naming none, or naming one. -/
inductive Configured (α : Type) where
  | missing
  | unknown
  | named (a : α)

/-- The part built from a name, `null` where there is no such class. -/
def Configured.build {α : Type} : Configured α → Option α
  | named a => some a
  | _ => none

/-- The part built from `get(key).toString()`. -/
def Configured.buildNamed {K : Type} [RealArith K] {α : Type} :
    Configured α → Program K (Option α)
  | missing => throw .nullPointer
  | c => return c.build

inductive StopCondition where
  | maxIterations
  | maxIterationsWithoutImprove
  | time
  | mix
  | f0

structure CollectionParameters (K : Type) where
  probC : Option K
  scaleFactor : Option K
  c1 : Option K
  c2 : Option K

inductive ModifiesSolutionCollections where
  | chooseRandomK
  | binaryCrossover
  | deBenchmarkProblemSum
  | deFunctionProblemSum
  | psoVelocityCalcBenchmarkProblem
  | psoVelocityCalcFunctionProblem
  | psoPositionCalcBenchmarkProblem
  | psoPositionCalcFunctionProblem

structure SolutionModifier (K : Type) [RealArith K] where
  modify : Ref → ℤ → Program K Ref

structure CandidatesList (K : Type) [RealArith K] where
  getCandidates : Program K (List (Element K))

inductive LocalSearchName where
  | random
  | firstImprove
  | betterNeighborhood

/-- `Math.log` is a parameter. -/
inductive Temperature (K : Type) where
  | sa
  | iterations (log : K → K)

structure MetaHeuristicParameters (K : Type) [RealArith K] extends CollectionParameters K where
  maxIterations : Option ℤ
  maxIterationsWI : Option ℤ
  maxNumberOfIterationsTemperature : Option ℤ
  time : Option K
  alpha : Option K
  stopConditionName : Configured StopCondition
  populationSize : Option ℤ
  parentsSize : Option ℤ
  crossoverTax : Option K
  mutationTax : Option K
  /-- The parameters `C` and `F` of differential evolution. -/
  crossProbability : Option K
  differentialFactor : Option K
  sum : Configured ModifiesSolutionCollections
  velocity : Configured ModifiesSolutionCollections
  position : Configured ModifiesSolutionCollections
  initialVelocity : Configured (Problem K → Option (CandidatesList K))
  candidatesListName : Configured (Problem K → Option (CandidatesList K))
  localSearchName : Configured LocalSearchName
  localSearchNeighbor : Configured (SolutionModifier K)
  localSearchIterations : Option ℤ
  disturbLevel : Option ℤ
  initialDisturbLevel : Option ℤ
  disturbThreshold : Option ℤ
  temperatureName : Configured (Temperature K)

/-- The names under `solutionManipulation`.  The neighbour's class is looked up
under the type of the problem followed by the name. -/
structure SolutionManipulation (K : Type) [RealArith K] where
  parentsChoice : Configured ModifiesSolutionCollections
  crossover : Configured ModifiesSolutionCollections
  mutation : Configured (SolutionModifier K)
  nextPopulationChoice : Configured ModifiesSolutionCollections
  chooseInitialSolution : Configured ModifiesSolutionCollections
  disturb : Configured (SolutionModifier K)
  neighbor : Configured (Problem K → Option (SolutionModifier K))

def increment (n : ℤ) : ℤ := if n = 2147483647 then -2147483648 else n + 1

section StopConditions

variable {K : Type} [RealArith K]

/-- The mixed condition compares an iteration limit with a field never assigned,
and looks at one parameter only. -/
def StopCondition.isSatisfied (stopTime : K) (iterations iterationsWI : ℤ)
    (parameters : MetaHeuristicParameters K) : StopCondition → Program K Bool
  | maxIterations =>
      match parameters.maxIterations with
      | some limit => return decide (limit < iterations)
      | none => return false
  | maxIterationsWithoutImprove =>
      match parameters.maxIterationsWI with
      | some limit => return decide (limit < iterationsWI)
      | none => return false
  | time =>
      match parameters.time with
      | some limit => return decide (limit < stopTime)
      | none => return false
  | mix =>
      match parameters.maxIterations, parameters.maxIterationsWI, parameters.time with
      | some _, _, _ => throw .nullPointer
      | none, some limit, _ => return decide (limit < iterationsWI)
      | none, none, some limit => return decide (limit < stopTime)
      | none, none, none => return false
  | f0 => return false

/-- `stopCondition.isSatisfied(f0, getStopWatch().getTime(), ..)`, where the part
may be `null`. -/
def isSatisfied (stopCondition : Option StopCondition) (iterations iterationsWI : ℤ)
    (parameters : MetaHeuristicParameters K) : Program K Bool := do
  let stopTime ← getTime
  (← nonNull stopCondition).isSatisfied stopTime iterations iterationsWI parameters

end StopConditions

section Collections

variable {K : Type} [RealArith K]

def subList {α : Type} (xs : List α) (lower upper : ℤ) : Program K (List α) := do
  if lower < 0 then throw .indexOutOfBounds
  if xs.length < upper then throw .indexOutOfBounds
  if upper < lower then throw .illegalArgument
  return (xs.drop lower.toNat).take (upper - lower).toNat

def chooseRandomK (solutionsList : List Ref) (solutionsCount : Option ℤ) :
    Program K (List Ref) := do
  nextSample solutionsList (← nonNull solutionsCount)

def binaryCrossover (problem : Problem K) (solutionsList : List Ref) : Program K (List Ref) := do
  let cut ← nextInt 0 problem.dimension
  let father1 := (← deref (← nth solutionsList 0)).solutionsVector
  let father2 := (← deref (← nth solutionsList 1)).solutionsVector
  let elements ← (List.range problem.dimension).mapM fun i => do
    let e1 ← nth father1 i
    let e2 ← nth father2 i
    return if i < cut then (e1, e2) else (e2, e1)
  let s1 ← buildSolution problem
  let s2 ← buildSolution problem
  setSolutionsVector s1 (elements.map Prod.fst)
  setSolutionsVector s2 (elements.map Prod.snd)
  return [s1, s2]

/-- A coordinate of the trial vector: the differential formula, clamped, or the
coordinate of the vector to be replaced. -/
def trialElement (problem : Problem K) (probC scaleFactor : K) (delta : ℤ) (s r1 r2 r3 : Ref)
    (j : ℕ) : Program K (Element K) := do
  if (← nextUniform 0 1) < probC || (j : ℤ) = delta then
    let x1 ← getDoubleValue r1 j
    let x2 ← getDoubleValue r2 j
    let x3 ← getDoubleValue r3 j
    let e := x1 + scaleFactor * (x2 - x3)
    let (lower, upper) ← orThrow (problem.domain j)
    let e := if e < lower then lower else e
    let e := if upper < e then upper else e
    newFunctionSolutionElement e
  else
    newFunctionSolutionElement (← getDoubleValue s j)

def differentialSum (name : ProblemName) (problem : Problem K) (solutionsList : List Ref)
    (parameters : CollectionParameters K) : Program K (List Ref) := do
  if problem.name ≠ name then throw .classCast
  let s ← nth solutionsList 0
  let r1 ← nth solutionsList 1
  let r2 ← nth solutionsList 2
  let r3 ← nth solutionsList 3
  let delta ← nextInt 0 problem.dimension
  let probC ← nonNull parameters.probC
  let scaleFactor ← nonNull parameters.scaleFactor
  let solution ← buildSolution problem
  (List.range problem.dimension).forM fun j => do
    addElement solution (← trialElement problem probC scaleFactor delta s r1 r2 r3 j)
  return [solution]

def deBenchmarkProblemSum : Problem K → List Ref → CollectionParameters K → Program K (List Ref) :=
  differentialSum .benchmark

def deFunctionProblemSum : Problem K → List Ref → CollectionParameters K → Program K (List Ref) :=
  differentialSum .function

def velocityElement (c1 c2 : K) (velocity particle particleBest globalBest : Ref) (j : ℕ) :
    Program K (Element K) := do
  let v ← getDoubleValue velocity j
  let u1 ← nextUniform 0 1
  let best ← getDoubleValue particleBest j
  let x ← getDoubleValue particle j
  let u2 ← nextUniform 0 1
  let global ← getDoubleValue globalBest j
  newFunctionSolutionElement (v + c1 * u1 * (best - x) + c2 * u2 * (global - x))

def velocityCalc (name : ProblemName) (problem : Problem K) (solutionsList : List Ref)
    (parameters : CollectionParameters K) (solutionsCount : ℤ) : Program K (List Ref) := do
  let velocities ← subList solutionsList 0 solutionsCount
  let particles ← subList solutionsList solutionsCount (2 * solutionsCount)
  let particlesBest ← subList solutionsList (solutionsCount * 2) (solutionsCount * 3)
  let globalBest ← nth solutionsList (solutionsCount * 3).toNat
  let c1 ← nonNull parameters.c1
  let c2 ← nonNull parameters.c2
  (List.range solutionsCount.toNat).mapM fun i => do
    if problem.name ≠ name then throw .classCast
    let solution ← buildSolution problem
    let velocity ← nth velocities i
    let particle ← nth particles i
    let particleBest ← nth particlesBest i
    (List.range problem.dimension).forM fun j => do
      addElement solution (← velocityElement c1 c2 velocity particle particleBest globalBest j)
    return solution

def psoVelocityCalcBenchmarkProblem :
    Problem K → List Ref → CollectionParameters K → ℤ → Program K (List Ref) :=
  velocityCalc .benchmark

def psoVelocityCalcFunctionProblem :
    Problem K → List Ref → CollectionParameters K → ℤ → Program K (List Ref) :=
  velocityCalc .function

def positionCalc (name : ProblemName) (problem : Problem K) (solutionsList : List Ref)
    (solutionsCount : ℤ) : Program K (List Ref) := do
  let velocities ← subList solutionsList 0 solutionsCount
  let particles ← subList solutionsList solutionsCount (2 * solutionsCount)
  (List.range solutionsCount.toNat).mapM fun i => do
    if problem.name ≠ name then throw .classCast
    let solution ← buildSolution problem
    let particle ← nth particles i
    let velocity ← nth velocities i
    (List.range problem.dimension).forM fun j => do
      let x ← getDoubleValue particle j
      let v ← getDoubleValue velocity j
      addElement solution (← newFunctionSolutionElement (x + v))
    return solution

def psoPositionCalcBenchmarkProblem : Problem K → List Ref → ℤ → Program K (List Ref) :=
  positionCalc .benchmark

def psoPositionCalcFunctionProblem : Problem K → List Ref → ℤ → Program K (List Ref) :=
  positionCalc .function

def ModifiesSolutionCollections.modify (problem : Problem K) (solutionsList : List Ref)
    (parameters : CollectionParameters K) (solutionsCount : Option ℤ) :
    ModifiesSolutionCollections → Program K (List Ref)
  | chooseRandomK => Heuristics.chooseRandomK solutionsList solutionsCount
  | binaryCrossover => Heuristics.binaryCrossover problem solutionsList
  | deBenchmarkProblemSum => Heuristics.deBenchmarkProblemSum problem solutionsList parameters
  | deFunctionProblemSum => Heuristics.deFunctionProblemSum problem solutionsList parameters
  | psoVelocityCalcBenchmarkProblem => do
      Heuristics.psoVelocityCalcBenchmarkProblem problem solutionsList parameters
        (← nonNull solutionsCount)
  | psoVelocityCalcFunctionProblem => do
      Heuristics.psoVelocityCalcFunctionProblem problem solutionsList parameters
        (← nonNull solutionsCount)
  | psoPositionCalcBenchmarkProblem => do
      Heuristics.psoPositionCalcBenchmarkProblem problem solutionsList (← nonNull solutionsCount)
  | psoPositionCalcFunctionProblem => do
      Heuristics.psoPositionCalcFunctionProblem problem solutionsList (← nonNull solutionsCount)

def modifyCollection (m : Option ModifiesSolutionCollections) (problem : Problem K)
    (solutionsList : List Ref) (parameters : CollectionParameters K) (solutionsCount : Option ℤ) :
    Program K (List Ref) := do
  (← nonNull m).modify problem solutionsList parameters solutionsCount

end Collections

section LocalSearches

variable {K : Type} [RealArith K]

def modifySolution (m : Option (SolutionModifier K)) (solution : Ref) (motionsCount : ℤ) :
    Program K Ref := do
  (← nonNull m).modify solution motionsCount

structure LocalSearch (K : Type) [RealArith K] where
  name : LocalSearchName
  neighbor : Option (SolutionModifier K)
  iterationsLocalSearchCount : ℤ

/-- Without a neighbour's name the constructor fails, which leaves `null`. -/
def buildLocalSearch (parameters : MetaHeuristicParameters K) : Option (LocalSearch K) :=
  match parameters.localSearchName, parameters.localSearchNeighbor with
  | .named _, .missing => none
  | .named name, neighbor =>
      some
        { name, neighbor := neighbor.build
          iterationsLocalSearchCount := parameters.localSearchIterations.getD 0 }
  | _, _ => none

def randomLocalSearch (problem : Problem K) (neighbor : Option (SolutionModifier K))
    (iterationsLocalSearchCount : ℤ) (solution : Ref) (context : Context) : Program K Ref := do
  let bestSolution ← clone solution
  let _ ← evaluate context bestSolution
  let currentSolution ← clone bestSolution
  let (bestSolution, _) ← (List.range iterationsLocalSearchCount.toNat).foldlM
    (fun (bestSolution, currentSolution) _ => do
      let neighborSolution ← modifySolution neighbor currentSolution 1
      let _ ← evaluate context neighborSolution
      if ← isViable context neighborSolution then
        let bestSolution ← getBestSolution problem.analyser neighborSolution bestSolution
        return (bestSolution, bestSolution)
      else
        return (bestSolution, currentSolution))
    (bestSolution, currentSolution)
  return bestSolution

/-- The list of neighbours is never filled. -/
def firstImproveLocalSearch (problem : Problem K) (solution : Ref) : Program K Ref := do
  let _ ← buildSolution problem
  let bestSolution ← clone solution
  let _ ← clone solution
  let _ ← clone bestSolution
  return bestSolution

def betterNeighborhoodLocalSearch (problem : Problem K) (solution : Ref) (context : Context) :
    Program K Ref := do
  let _ ← buildSolution problem
  let bestSolution ← clone solution
  let _ ← evaluate context bestSolution
  let _ ← clone solution
  let _ ← clone bestSolution
  return bestSolution

def LocalSearch.search (localSearch : LocalSearch K) (problem : Problem K) (solution : Ref)
    (context : Context) : Program K Ref :=
  match localSearch.name with
  | .random =>
      randomLocalSearch problem localSearch.neighbor localSearch.iterationsLocalSearchCount
        solution context
  | .firstImprove => firstImproveLocalSearch problem solution
  | .betterNeighborhood => betterNeighborhoodLocalSearch problem solution context

end LocalSearches

section Temperatures

variable {K : Type} [RealArith K]

def scale (a : K) : JDouble K → JDouble K
  | .fin x => .fin (a * x)
  | .nan => .nan
  | .posInf => if a = 0 then .nan else if 0 < a then .posInf else .negInf
  | .negInf => if a = 0 then .nan else if 0 < a then .negInf else .posInf

/-- The neighbourhood that would be sampled is empty; what remains is a constant,
or a multiple of the value that `initialize` stores. -/
def Temperature.initialTemperature (problem : Problem K) : Temperature K → Program K (JDouble K)
  | sa => do
      let _ ← buildSolution problem
      return .fin 1
  | iterations _ => do
      let _ ← buildSolution problem
      let _ ← buildSolution problem
      let t0 ← orThrow problem.parsedInitialValue
      let t0 := (11 / 10) * t0
      return if RealArith.maxValue < t0 then .posInf else .fin t0

def Temperature.update (alpha : K) (initial current : JDouble K) (iteration : ℤ) :
    Temperature K → JDouble K
  | sa => scale alpha current
  | iterations log => .div initial (.fin (log (1 + iteration)))

end Temperatures

end DOptimas.Heuristics
