import DOptimas.Heuristics.Components
/-!
# Differential evolution, genetic algorithm and particle swarm

The three metaheuristics that work on a population.  Each has a part that only
its configuration assigns, and fields that its runs assign and that outlive them;
`configureMetaHeuristic` is given those fields that it does not assign itself.
-/

namespace DOptimas.Heuristics

open DOptimas.Support
open DOptimas.Core (SolutionAnalyser)

/-- Code of an object with the fields `F`. -/
abbrev Method (F K : Type) [RealArith K] := EStateM Exception (F × World K)

section Fields

variable {F K : Type} [RealArith K]

def fields : Method F K F := do
  return (← get).1

def setFields (f : F → F) : Method F K Unit :=
  modify fun s => (f s.1, s.2)

def call {α : Type} (p : Program K α) : Method F K α := onState p

end Fields

structure DE (K : Type) [RealArith K] where
  problem : Problem K
  metaHeuristicParameters : MetaHeuristicParameters K
  stopCondition : Option StopCondition
  solutionAnalyser : SolutionAnalyser
  probC : K
  scaleFactor : K
  deSum : Option ModifiesSolutionCollections

namespace DE

variable {K : Type} [RealArith K]

structure Fields where
  population : List Ref
  bestSolution : Option Ref

def configureMetaHeuristic (parameters : MetaHeuristicParameters K) (problem : Problem K) :
    Program K (DE K) := do
  let stopCondition ← parameters.stopConditionName.buildNamed
  let _ ← nonNull parameters.populationSize
  let probC ← orThrow (parameters.crossProbability.elim (.error .classCast) .ok)
  let scaleFactor ← orThrow (parameters.differentialFactor.elim (.error .classCast) .ok)
  let deSum ← parameters.sum.buildNamed
  pure
    { problem, metaHeuristicParameters := parameters, stopCondition
      solutionAnalyser := problem.analyser
      probC, scaleFactor, deSum }

/-- The trial for position `i`.  With four solutions or more, the donors exclude it. -/
def offspring (this : DE K) (popSize : ℕ) (context : Context) (i : ℕ) :
    Method Fields K Ref := do
  let population := (← fields).population
  let otherSolutions := if 4 ≤ popSize then population.eraseIdx i else population
  let sample ← call (nextSample otherSolutions 3)
  let r1 ← call (nth sample 0)
  let r2 ← call (nth sample 1)
  let r3 ← call (nth sample 2)
  let s ← call (nth population i)
  let parameters : CollectionParameters K :=
    { probC := some this.probC, scaleFactor := some this.scaleFactor, c1 := none, c2 := none }
  let result ← call (modifyCollection this.deSum this.problem [s, r1, r2, r3] parameters (some 1))
  let solution ← call (nth result 0)
  let _ ← call (evaluate context solution)
  return solution

/-- Which solution goes on at position `i`; `iterationWI` restarts where the best
one improves. -/
def select (this : DE K) (offspring : List Ref) (context : Context) (state : List Ref × ℤ)
    (i : ℕ) : Method Fields K (List Ref × ℤ) := do
  let (nextPopulation, iterationWI) := state
  let offspringSolution ← call (nth offspring i)
  let current ← call (nth (← fields).population i)
  let nextSolution ←
    if !(← call (isViable context offspringSolution)) then pure current
    else do
      if (← call (compare this.solutionAnalyser offspringSolution current)) < 0 then
        pure offspringSolution
      else pure current
  let bestSolution ← call (nonNull (← fields).bestSolution)
  if (← call (compare this.solutionAnalyser nextSolution bestSolution)) < 0 then
    let _ ← call (evaluate context nextSolution)
    setFields fun f => { f with bestSolution := some nextSolution }
    return (nextPopulation ++ [nextSolution], 0)
  else
    return (nextPopulation ++ [nextSolution], iterationWI)

def generation (this : DE K) (popSize : ℕ) (context : Context) (counters : ℤ × ℤ) :
    Method Fields K (ℤ × ℤ) := do
  let iteration := increment counters.1
  let iterationWI := increment counters.2
  let offspring ← (List.range popSize).mapM (offspring this popSize context)
  let (nextPopulation, iterationWI) ←
    (List.range popSize).foldlM (select this offspring context) ([], iterationWI)
  setFields fun f => { f with population := nextPopulation }
  return (iteration, iterationWI)

def goesOn (this : DE K) (counters : ℤ × ℤ) : Method Fields K Bool := do
  return !(← call (isSatisfied this.stopCondition counters.1 counters.2
    this.metaHeuristicParameters))

def runMetaHeuristic (this : DE K) (fuel : ℕ) (externalSolution : List Ref)
    (context : Context) : Method Fields K (Option (List Ref)) := do
  setFields fun f => { f with population := externalSolution }
  match externalSolution with
  | [] => return some []
  | first :: _ =>
      setFields fun f => { f with bestSolution := some first }
      let _ ← repeatWhile .unfinished (goesOn this)
        (generation this externalSolution.length context) fuel (0, 0)
      return some [← call (nonNull (← fields).bestSolution)]

end DE

structure GA (K : Type) [RealArith K] where
  problem : Problem K
  metaHeuristicParameters : MetaHeuristicParameters K
  stopCondition : Option StopCondition
  solutionAnalyser : SolutionAnalyser
  populationSize : Option ℤ
  numParents : Option ℤ
  mutationTax : Option K
  crossoverTax : Option K
  selection : Option ModifiesSolutionCollections
  reproduction : Option ModifiesSolutionCollections
  nextPopulationSelector : Option ModifiesSolutionCollections
  mutation : Option (SolutionModifier K)

namespace GA

variable {K : Type} [RealArith K]

structure Fields where
  population : List Ref
  nextPopulationPool : List Ref
  bestIterationSolution : Ref

def configureMetaHeuristic (parameters : MetaHeuristicParameters K)
    (manipulation : SolutionManipulation K) (problem : Problem K) :
    Program K (GA K × Fields) := do
  let nextPopulationChoice :=
    match manipulation.nextPopulationChoice with
    | .missing => manipulation.chooseInitialSolution
    | c => c
  let _ ← manipulation.chooseInitialSolution.buildNamed
  let bestIterationSolution ← buildSolution problem
  let this : GA K :=
    { problem, metaHeuristicParameters := parameters
      stopCondition := parameters.stopConditionName.build
      solutionAnalyser := problem.analyser
      populationSize := parameters.populationSize
      numParents := parameters.parentsSize
      mutationTax := parameters.mutationTax
      crossoverTax := parameters.crossoverTax
      selection := manipulation.parentsChoice.build
      reproduction := manipulation.crossover.build
      nextPopulationSelector := nextPopulationChoice.build
      mutation := manipulation.mutation.build }
  return (this, { population := [], nextPopulationPool := [], bestIterationSolution })

def parentsChoice (this : GA K) : Method Fields K (List Ref) := do
  let chosen ← call (modifyCollection this.selection this.problem (← fields).population
    this.metaHeuristicParameters.toCollectionParameters this.numParents)
  call (copyValues chosen)

def crossover (this : GA K) (parents : List Ref) : Program K (List Ref) := do
  let offsprings ← modifyCollection this.reproduction this.problem parents
    this.metaHeuristicParameters.toCollectionParameters (some 2)
  copyValues offsprings

def nextPopulation (this : GA K) (pool : List Ref) : Program K (List Ref) := do
  let chosen ← modifyCollection this.nextPopulationSelector this.problem pool
    this.metaHeuristicParameters.toCollectionParameters this.populationSize
  copyValues chosen

/-- An offspring, perhaps mutated, joins the pool when it is viable. -/
def addToPool (this : GA K) (context : Context) (offspringCounter : ℤ) (offspring : Ref) :
    Method Fields K ℤ := do
  let mutationChance ← call nextDouble
  let mutated ←
    if mutationChance < (← call (nonNull this.mutationTax)) then
      call (modifySolution this.mutation offspring 1)
    else pure offspring
  let _ ← call (evaluate context mutated)
  if ← call (isViable context mutated) then
    setFields fun f => { f with nextPopulationPool := f.nextPopulationPool ++ [mutated] }
    return increment offspringCounter
  else
    return offspringCounter

def breed (this : GA K) (context : Context) (offspringCounter : ℤ) : Method Fields K ℤ := do
  let parents ← call (copyValues (← parentsChoice this))
  let crossoverChance ← call nextDouble
  if crossoverChance < (← call (nonNull this.crossoverTax)) then
    let offsprings ← call (copyValues (← call (crossover this parents)))
    offsprings.foldlM (addToPool this context) offspringCounter
  else
    return offspringCounter

def lacksOffspring (this : GA K) (offspringCounter : ℤ) : Method Fields K Bool := do
  return decide (offspringCounter < (← call (nonNull this.populationSize)))

def generation (this : GA K) (fuel : ℕ) (context : Context) (counters : ℤ × ℤ) :
    Method Fields K (ℤ × ℤ) := do
  setFields fun f => { f with nextPopulationPool := [] }
  let _ ← repeatWhile .unfinished (lacksOffspring this) (breed this context) fuel 0
  let bestSolutionOptional ←
    call (findBestSolution this.solutionAnalyser (← fields).nextPopulationPool)
  let iterationsWithoutImprovement ←
    match bestSolutionOptional with
    | some best => do
        setFields fun f => { f with bestIterationSolution := best }
        pure (-1)
    | none => pure counters.2
  setFields fun f => { f with population := [] }
  let chosen ← call (nextPopulation this (← fields).nextPopulationPool)
  let population ← call (copyValues chosen)
  setFields fun f => { f with population }
  return (increment counters.1, increment iterationsWithoutImprovement)

def goesOn (this : GA K) (counters : ℤ × ℤ) : Method Fields K Bool := do
  return !(← call (isSatisfied this.stopCondition counters.1 counters.2
    this.metaHeuristicParameters))

def geneticAlgorithm (this : GA K) (fuel : ℕ) (context : Context) : Method Fields K Unit := do
  let _ ← repeatWhile .unfinished (goesOn this) (generation this fuel context) fuel (0, 0)

def consider (this : GA K) (context : Context) (solution : Ref) : Method Fields K Unit := do
  let _ ← call (evaluate context solution)
  let best ← call (getBestSolution this.solutionAnalyser (← fields).bestIterationSolution
    solution)
  setFields fun f => { f with bestIterationSolution := best }

def runMetaHeuristic (this : GA K) (fuel : ℕ) (externalSolution : List Ref)
    (context : Context) : Method Fields K (Option (List Ref)) := do
  if externalSolution.length < (← call (nonNull this.populationSize)) then
    return some []
  let population ← call (copyValues externalSolution)
  setFields fun f => { f with population }
  let first ← call (nth population 0)
  setFields fun f => { f with bestIterationSolution := first }
  let _ ← call (evaluate context first)
  population.forM (consider this context)
  geneticAlgorithm this fuel context
  return some [(← fields).bestIterationSolution]

end GA

/-- The analyser is the one that the constructor built for its problem. -/
structure PSO (K : Type) [RealArith K] where
  problem : Problem K
  metaHeuristicParameters : MetaHeuristicParameters K
  stopCondition : Option StopCondition
  solutionAnalyser : SolutionAnalyser
  populationSize : ℤ
  velocityModifiers : Option ModifiesSolutionCollections
  positionModifiers : Option ModifiesSolutionCollections
  velocitiesCandidateList : Option (CandidatesList K)

namespace PSO

variable {K : Type} [RealArith K]

structure Fields where
  particles : List Ref
  particleBest : List Ref
  velocity : List Ref
  globalBest : Option Ref

/-- Neither the analyser nor a field is assigned. -/
def configureMetaHeuristic (parameters : MetaHeuristicParameters K) (problem : Problem K)
    (solutionAnalyser : SolutionAnalyser) : Program K (PSO K) := do
  let populationSize ← nonNull parameters.populationSize
  let velocityModifiers ← parameters.velocity.buildNamed
  let positionModifiers ← parameters.position.buildNamed
  let velocitiesCandidateList ← parameters.initialVelocity.buildNamed
  let stopCondition ← parameters.stopConditionName.buildNamed
  pure
    { problem, metaHeuristicParameters := parameters, stopCondition, solutionAnalyser
      populationSize, velocityModifiers, positionModifiers
      velocitiesCandidateList := velocitiesCandidateList.bind fun build => build problem }

def evaluateAll (context : Context) (solutions : List Ref) : Program K Unit :=
  solutions.forM fun solution => do
    let _ ← evaluate context solution

def initVelocities (this : PSO K) : Program K (List Ref) :=
  (List.range this.populationSize.toNat).mapM fun _ => do
    let candidates ← (← nonNull this.velocitiesCandidateList).getCandidates
    let solution ← buildSolution this.problem
    candidates.forM (addElement solution)
    return solution

def updateGlobalBest (this : PSO K) (best : Ref) : Method Fields K Unit := do
  match (← fields).globalBest with
  | none => setFields fun f => { f with globalBest := some best }
  | some globalBest =>
      let globalBest ← call (getBestSolution this.solutionAnalyser best globalBest)
      setFields fun f => { f with globalBest := some globalBest }

def updateParticle (this : PSO K) (i : ℕ) : Method Fields K Unit := do
  let f ← fields
  let best ← call (getBestSolution this.solutionAnalyser (← call (nth f.particleBest i))
    (← call (nth f.particles i)))
  setFields fun f => { f with particleBest := f.particleBest.set i best }
  updateGlobalBest this best

def updateParticleBest (this : PSO K) : Method Fields K Unit := do
  if (← fields).particleBest.isEmpty then
    setFields fun f => { f with particleBest := f.particles }
  else
    (List.range this.populationSize.toNat).forM (updateParticle this)

def findGlobalBest (this : PSO K) : Method Fields K Unit := do
  match ← call (findBestSolution this.solutionAnalyser (← fields).particleBest) with
  | none => return
  | some populationBest => updateGlobalBest this populationBest

def adopt (offspringParticles : List Ref) (context : Context) (i : ℕ) :
    Method Fields K Ref := do
  let offspring ← call (nth offspringParticles i)
  if ← call (isViable context offspring) then pure offspring
  else call (nth (← fields).particles i)

def iterate (this : PSO K) (context : Context) (iteration : ℤ) : Method Fields K ℤ := do
  updateParticleBest this
  let f ← fields
  let globalBest ← call (nonNull f.globalBest)
  let parameters := this.metaHeuristicParameters.toCollectionParameters
  let velocity ← call (modifyCollection this.velocityModifiers this.problem
    (f.velocity ++ f.particles ++ f.particleBest ++ [globalBest]) parameters
    (some this.populationSize))
  setFields fun f => { f with velocity }
  let offspringParticles ← call (modifyCollection this.positionModifiers this.problem
    (velocity ++ f.particleBest) parameters (some this.populationSize))
  call (evaluateAll context offspringParticles)
  let nextParticles ←
    (List.range this.populationSize.toNat).mapM (adopt offspringParticles context)
  setFields fun f => { f with particles := nextParticles }
  return increment iteration

/-- The time is never read. -/
def goesOn (this : PSO K) (iteration : ℤ) : Method Fields K Bool := do
  let stopCondition ← call (nonNull this.stopCondition)
  return !(← call (stopCondition.isSatisfied 0 iteration 0 this.metaHeuristicParameters))

def runMetaHeuristic (this : PSO K) (fuel : ℕ) (externalSolution : List Ref)
    (context : Context) : Method Fields K (Option (List Ref)) := do
  setFields fun f => { f with particles := externalSolution }
  call (evaluateAll context externalSolution)
  setFields fun f => { f with particleBest := externalSolution }
  findGlobalBest this
  let _ ← call (nonNull (← fields).globalBest)
  let velocity ← call (initVelocities this)
  setFields fun f => { f with velocity }
  let _ ← repeatWhile .unfinished (goesOn this) (iterate this context) fuel 0
  findGlobalBest this
  return some [← call (nonNull (← fields).globalBest)]

end PSO

end DOptimas.Heuristics
