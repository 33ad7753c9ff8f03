import DOptimas.Heuristics.PopulationHeuristics
/-!
# GRASP, iterated local search and simulated annealing

The three metaheuristics that follow one solution.
-/

namespace DOptimas.Heuristics

open DOptimas.Support
open DOptimas.Core (SolutionAnalyser)

structure GRASP (K : Type) [RealArith K] where
  problem : Problem K
  metaHeuristicParameters : MetaHeuristicParameters K
  stopCondition : Option StopCondition
  solutionAnalyser : SolutionAnalyser
  alpha : Option K
  candidatesList : Option (CandidatesList K)
  localSearch : Option (LocalSearch K)

namespace GRASP

variable {K : Type} [RealArith K]

def configureMetaHeuristic (parameters : MetaHeuristicParameters K) (problem : Problem K) :
    GRASP K :=
  { problem, metaHeuristicParameters := parameters
    stopCondition := parameters.stopConditionName.build
    solutionAnalyser := problem.analyser
    alpha := parameters.alpha
    candidatesList := parameters.candidatesListName.build.bind fun build => build problem
    localSearch := buildLocalSearch parameters }

/-- A candidate with a value is asked for it twice; of equal candidates the first
one's value stays. -/
def adaptiveFunctionValues (solution : Ref) (candidates : List (Element K)) :
    Program K (List (Element K × K)) := do
  let values ← candidates.foldlM
    (fun values element => do
      match ← adaptiveFunctionValue solution element with
      | none => return values
      | some _ =>
          let value ← nonNull (← adaptiveFunctionValue solution element)
          if values.any fun entry => entry.1 = element then
            return values
          else
            return values ++ [(element, value)])
    []
  -- the map's order depends on identities that the program does not choose
  pick values.length values

def maxValue (a : SolutionAnalyser) : List K → Option K
  | [] => none
  | v :: vs => some (vs.foldl (fun x y => if 0 ≤ a.compareFunctionValue x y then x else y) v)

def minValue (a : SolutionAnalyser) : List K → Option K
  | [] => none
  | v :: vs => some (vs.foldl (fun x y => if a.compareFunctionValue x y ≤ 0 then x else y) v)

/-- One element more, and the candidates left; none are left after a `break`. -/
def construct (this : GRASP K) (solution : Ref) (candidates : List (Element K)) :
    Program K (List (Element K)) := do
  let values ← adaptiveFunctionValues solution candidates
  match maxValue this.solutionAnalyser (values.map Prod.snd),
      minValue this.solutionAnalyser (values.map Prod.snd) with
  | some gtMax, some gtMin =>
      let alpha ← nonNull this.alpha
      let restricted :=
        (values.filter fun entry => entry.2 ≤ gtMin + alpha * (gtMax - gtMin)).map Prod.fst
      if restricted.isEmpty then
        return []
      let index ← nextInt 0 (restricted.length - 1)
      let element ← nth restricted index.toNat
      addElement solution element
      return candidates.erase element
  | _, _ => return []

def construcao (this : GRASP K) (fuel : ℕ) : Program K Ref := do
  let solution ← buildSolution this.problem
  let candidates ← (← nonNull this.candidatesList).getCandidates
  let _ ← repeatWhile .unfinished (fun candidates => pure !candidates.isEmpty)
    (construct this solution) fuel candidates
  return solution

/-- The best solution and the iterations, in all and without improvement. -/
structure State where
  solution : Ref
  iteracoes : ℤ
  iteracoesSM : ℤ

def iterate (this : GRASP K) (fuel : ℕ) (context : Context) (state : State) :
    Program K State := do
  let solucaoConstrucao ← construcao this fuel
  let localSearch ← nonNull this.localSearch
  let solucaoBuscaLocal ← localSearch.search this.problem solucaoConstrucao context
  if ← isViable context solucaoBuscaLocal then
    let _ ← evaluate context solucaoBuscaLocal
    let solution ← getBestSolution this.solutionAnalyser solucaoBuscaLocal state.solution
    if solution = solucaoBuscaLocal then
      let _ ← evaluate context solution
      return ⟨solution, increment state.iteracoes, increment (-1)⟩
    else
      return ⟨solution, increment state.iteracoes, increment state.iteracoesSM⟩
  else
    return ⟨state.solution, increment state.iteracoes, increment state.iteracoesSM⟩

def goesOn (this : GRASP K) (state : State) : Program K Bool := do
  return !(← isSatisfied this.stopCondition state.iteracoes state.iteracoesSM
    this.metaHeuristicParameters)

def internalExecutionGRASP (this : GRASP K) (fuel : ℕ) (context : Context) :
    Program K Ref := do
  let solution ← buildSolution this.problem
  let state ← repeatWhile .unfinished (goesOn this) (iterate this fuel context) fuel
    ⟨solution, 0, 0⟩
  return state.solution

/-- The input list is not looked at. -/
def runMetaHeuristic (this : GRASP K) (fuel : ℕ) (_externalSolution : List Ref)
    (context : Context) : Program K (Option (List Ref)) := do
  return some [← internalExecutionGRASP this fuel context]

end GRASP

structure ILS (K : Type) [RealArith K] where
  problem : Problem K
  metaHeuristicParameters : MetaHeuristicParameters K
  stopCondition : Option StopCondition
  solutionAnalyser : SolutionAnalyser
  disturbLevel : ℤ
  localSearch : Option (LocalSearch K)
  modifiesSolutionCollections : Option ModifiesSolutionCollections
  solutionDisturb : Option (SolutionModifier K)

namespace ILS

variable {K : Type} [RealArith K]

structure Fields where
  currentSolution : Ref
  bestSolution : Option Ref

def configureMetaHeuristic (parameters : MetaHeuristicParameters K)
    (manipulation : SolutionManipulation K) (problem : Problem K) (bestSolution : Option Ref) :
    Program K (ILS K × Fields) := do
  let currentSolution ← buildSolution problem
  let this : ILS K :=
    { problem, metaHeuristicParameters := parameters
      stopCondition := parameters.stopConditionName.build
      solutionAnalyser := problem.analyser
      disturbLevel := parameters.disturbLevel.getD 0
      localSearch := buildLocalSearch parameters
      modifiesSolutionCollections := manipulation.chooseInitialSolution.build
      solutionDisturb := manipulation.disturb.build }
  return (this, { currentSolution, bestSolution })

structure State where
  nivel : ℤ
  nivelAux : ℤ
  iteracoes : ℤ
  iteracoesSM : ℤ

def search (this : ILS K) (solution : Ref) (context : Context) : Program K Ref := do
  (← nonNull this.localSearch).search this.problem solution context

/-- The level of disturbance after an iteration. -/
def raise (disturbLevel disturbThreshold initialDisturbLevel : ℤ) (state : State) : State :=
  if state.nivel < disturbLevel then
    if state.nivelAux < disturbThreshold then
      { state with nivelAux := increment state.nivelAux }
    else
      { state with
        nivel := increment state.nivel, nivelAux := 0
        iteracoesSM := increment state.iteracoesSM }
  else
    { state with
      nivel := initialDisturbLevel, nivelAux := 0
      iteracoesSM := increment state.iteracoesSM }

def iterate (this : ILS K) (context : Context) (state : State) : Method Fields K State := do
  let initialDisturbLevel := this.metaHeuristicParameters.initialDisturbLevel.getD 2
  let disturbThreshold := this.metaHeuristicParameters.disturbThreshold.getD 6
  let novaSolucao ← call (clone (← fields).currentSolution)
  let perturbedSolution ← call (modifySolution this.solutionDisturb novaSolucao state.nivel)
  let localSearchSolution ← call (search this perturbedSolution context)
  let _ ← call (evaluate context localSearchSolution)
  let state ←
    if ← call (isViable context localSearchSolution) then do
      let best ← call (nonNull (← fields).bestSolution)
      let best ← call (getBestSolution this.solutionAnalyser localSearchSolution best)
      setFields fun f => { f with bestSolution := some best }
      if ← call (equals best localSearchSolution) then do
        setFields fun f => { f with currentSolution := localSearchSolution }
        pure { state with nivel := initialDisturbLevel, nivelAux := -1, iteracoesSM := -1 }
      else pure state
    else pure state
  let state := raise this.disturbLevel disturbThreshold initialDisturbLevel state
  return { state with iteracoes := increment state.iteracoes }

def goesOn (this : ILS K) (state : State) : Method Fields K Bool := do
  return !(← call (isSatisfied this.stopCondition state.iteracoes state.iteracoesSM
    this.metaHeuristicParameters))

def metodoILS (this : ILS K) (fuel : ℕ) (context : Context) : Method Fields K Ref := do
  let best ← call (nonNull (← fields).bestSolution)
  setFields fun f => { f with currentSolution := best }
  let initialDisturbLevel := this.metaHeuristicParameters.initialDisturbLevel.getD 2
  let _ ← repeatWhile .unfinished (goesOn this) (iterate this context) fuel
    ⟨initialDisturbLevel, 0, 0, 0⟩
  call (nonNull (← fields).bestSolution)

def runMetaHeuristic (this : ILS K) (fuel : ℕ) (externalSolution : List Ref)
    (context : Context) : Method Fields K (Option (List Ref)) := do
  if externalSolution.isEmpty then
    return some []
  let chosen ← call (modifyCollection this.modifiesSolutionCollections this.problem
    externalSolution this.metaHeuristicParameters.toCollectionParameters (some 1))
  let currentSolution ← call (nth chosen 0)
  setFields fun f => { f with currentSolution }
  let bestSolution ← call (search this currentSolution context)
  setFields fun f => { f with bestSolution := some bestSolution }
  let bestSolution ← metodoILS this fuel context
  setFields fun f => { f with bestSolution := some bestSolution }
  return some [bestSolution]

end ILS

structure SA (K : Type) [RealArith K] where
  problem : Problem K
  metaHeuristicParameters : MetaHeuristicParameters K
  stopCondition : Option StopCondition
  solutionAnalyser : SolutionAnalyser
  temperatureMaxIterations : ℤ
  alpha : K
  temperatureSA : Option (Temperature K)
  solutionModifier : Option (SolutionModifier K)

namespace SA

variable {K : Type} [RealArith K]

structure Fields where
  currentSolution : Ref
  bestSolution : Option Ref

def configureMetaHeuristic (parameters : MetaHeuristicParameters K)
    (manipulation : SolutionManipulation K) (problem : Problem K) (bestSolution : Option Ref) :
    Program K (SA K × Fields) := do
  let alpha ← orThrow (parameters.alpha.elim (.error .classCast) .ok)
  let currentSolution ← buildSolution problem
  let this : SA K :=
    { problem, metaHeuristicParameters := parameters
      stopCondition := parameters.stopConditionName.build
      solutionAnalyser := problem.analyser
      temperatureMaxIterations := parameters.maxNumberOfIterationsTemperature.getD 0
      alpha
      temperatureSA := parameters.temperatureName.build
      solutionModifier := manipulation.neighbor.build.bind fun build => build problem }
  return (this, { currentSolution, bestSolution })

structure State (K : Type) where
  temperature : JDouble K
  temperatureIt : ℤ
  it : ℤ
  noImproveIt : ℤ

def exp : JDouble K → JDouble K
  | .fin x => .fin (RealArith.exp x)
  | .posInf => .posInf
  | .negInf => .fin 0
  | .nan => .nan

/-- The difference of the values changes its sign in a maximization. -/
def calculateDeltaValue (max : Bool) (neighborsValue currentValue : K) (T : JDouble K) :
    JDouble K :=
  let diff := neighborsValue - currentValue
  let diff := if max then -diff else diff
  exp (.div (.fin (-diff)) T)

/-- Whether a neighbour that is not better takes over. -/
def accepts (this : SA K) (neighborsSolution : Ref) (temperature : JDouble K) :
    Method Fields K Bool := do
  let valX ← call nextDouble
  let neighborsValue ← call (nonNull (← call (getFunctionValue neighborsSolution)))
  let currentValue ← call (nonNull (← call (getFunctionValue (← fields).currentSolution)))
  let expTemp := calculateDeltaValue this.problem.max neighborsValue currentValue temperature
  return JDouble.lt (.fin valX) expTemp

/-- One neighbour; what it gives is the number of iterations without improvement. -/
def tryNeighbor (this : SA K) (context : Context) (temperature : JDouble K)
    (noImproveIt : ℤ) : Method Fields K ℤ := do
  let current := (← fields).currentSolution
  let neighborsSolution ← call (modifySolution this.solutionModifier current 1)
  let _ ← call (evaluate context neighborsSolution)
  if ← call (isViable context neighborsSolution) then
    if (← call (compare this.solutionAnalyser neighborsSolution current)) < 0 then
      setFields fun f => { f with currentSolution := neighborsSolution }
      let best ← call (nonNull (← fields).bestSolution)
      let newBest ← call (getBestSolution this.solutionAnalyser best neighborsSolution)
      if ← call (equals newBest best) then
        return increment noImproveIt
      else
        setFields fun f => { f with bestSolution := some newBest }
        return 0
    else
      if ← accepts this neighborsSolution temperature then
        setFields fun f => { f with currentSolution := neighborsSolution }
      return increment noImproveIt
  else
    return increment noImproveIt

def goesOn (this : SA K) (state : State K) : Method Fields K Bool := do
  let _ ← call (getFunctionValue (← fields).currentSolution)
  return !(← call (isSatisfied this.stopCondition state.it state.noImproveIt
    this.metaHeuristicParameters))

def goesOnAtTemperature (this : SA K) (state : State K) : Method Fields K Bool := do
  if state.temperatureIt < this.temperatureMaxIterations then
    goesOn this state
  else
    return false

def step (this : SA K) (context : Context) (state : State K) : Method Fields K (State K) := do
  let noImproveIt ← tryNeighbor this context state.temperature state.noImproveIt
  pure
    { state with
      temperatureIt := increment state.temperatureIt, it := increment state.it, noImproveIt }

def cool (this : SA K) (fuel : ℕ) (context : Context) (temperatureSA : Temperature K)
    (initial : JDouble K) (state : State K) : Method Fields K (State K) := do
  let state ← repeatWhile .unfinished (goesOnAtTemperature this) (step this context) fuel state
  let temperature := temperatureSA.update this.alpha initial state.temperature state.it
  return { state with temperature, temperatureIt := 0 }

def methodSA (this : SA K) (fuel : ℕ) (initialSolution : Ref) (context : Context) :
    Method Fields K Unit := do
  let temperatureSA ← call (nonNull this.temperatureSA)
  let temperature ← call (temperatureSA.initialTemperature this.problem)
  let currentSolution ← call (clone initialSolution)
  setFields fun f => { f with currentSolution }
  let _ ← repeatWhile .unfinished (goesOn this)
    (cool this fuel context temperatureSA temperature) fuel ⟨temperature, 0, 0, 0⟩

/-- Without a solution to start from it returns `null`. -/
def runMetaHeuristic (this : SA K) (fuel : ℕ) (externalSolution : List Ref)
    (context : Context) : Method Fields K (Option (List Ref)) := do
  match externalSolution with
  | [] => return none
  | first :: _ =>
      setFields fun f => { f with currentSolution := first }
      let best ← call (clone first)
      setFields fun f => { f with bestSolution := some best }
      methodSA this fuel first context
      return some [← call (nonNull (← fields).bestSolution)]

end SA

end DOptimas.Heuristics
