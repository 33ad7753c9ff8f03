import DOptimas.Heuristics.MetaHeuristic
/-!
# Benchmark problems

A problem of the benchmark suite asks the benchmark's actor for the value of a
vector.  Its solutions, the random modifier and the candidate lists that can be
built for it.
-/

namespace DOptimas.Heuristics

open DOptimas.Support

structure BenchmarkProblem (K : Type) where
  id : ℕ
  dimension : ℕ
  lowerBounds : List K
  upperBounds : List K
  numberOfConstraints : ℕ
  /-- `evaluateFunction`, which fails without a value or without an answer. -/
  evaluator : ℕ → List K → Except Exception K
  evaluateConstraint : List K → Except Exception Unit

namespace BenchmarkProblem

variable {K : Type} [RealArith K]

def evaluateFunction (p : BenchmarkProblem K) (evaluations : ℕ) (x : List K) : Answer K :=
  ⟨1, p.evaluator evaluations x⟩

/-- `toDoubleArray`, which fails on a missing element. -/
def toDoubleArray : List (Option (Element K)) → Except Exception (List K)
  | [] => .ok []
  | none :: _ => .error .nullPointer
  | some e :: es => (toDoubleArray es).map (e.toDoubleValue :: ·)

def objectiveFunction (p : BenchmarkProblem K) (evaluations : ℕ)
    (vector : List (Option (Element K))) : Answer K :=
  match toDoubleArray vector with
  | .error e => ⟨0, .error e⟩
  | .ok x => p.evaluateFunction evaluations x

def withinBounds (p : BenchmarkProblem K) (viable : Bool) (i : ℕ) (v : K) :
    Except Exception Bool :=
  if !viable then .ok false
  else
    match p.lowerBounds[i]? with
    | none => .error .indexOutOfBounds
    | some lower =>
        if v < lower then .ok false
        else
          match p.upperBounds[i]? with
          | none => .error .indexOutOfBounds
          | some upper => .ok (decide (v ≤ upper))

def checkElements (p : BenchmarkProblem K) :
    Bool → ℕ → List (Option (Element K)) → Bool × Except Exception Unit
  | viable, _, [] => (viable, .ok ())
  | viable, _, none :: _ => (viable, .error .nullPointer)
  | viable, i, some e :: es =>
      match p.withinBounds viable i e.toDoubleValue with
      | .error failure => (viable, .error failure)
      | .ok viable => p.checkElements viable (i + 1) es

def checkViability (p : BenchmarkProblem K) (vector : List (Option (Element K))) :
    Bool × Except Exception Unit :=
  if vector.length < p.dimension then (false, .ok ())
  else
    match p.checkElements true 0 vector with
    | (viable, .error e) => (viable, .error e)
    | (viable, .ok _) =>
        if p.numberOfConstraints = 0 then (viable, .ok ())
        else
          match toDoubleArray vector with
          | .error e => (viable, .error e)
          | .ok [] => (viable, .error .illegalArgument)
          | .ok x => (viable, p.evaluateConstraint x)

/-- The value of the vector so far with the element next and zeros after it. -/
def adaptiveFunctionValue (p : BenchmarkProblem K) (evaluations : ℕ)
    (vector : List (Option (Element K))) (value : Element K) : Answer (Option K) :=
  if vector.length = p.dimension then ⟨0, .ok none⟩
  else
    match toDoubleArray (vector.take (p.dimension + 1)) with
    | .error e => ⟨0, .error e⟩
    | .ok x =>
        if p.dimension < vector.length then ⟨0, .error .indexOutOfBounds⟩
        else
          let elements :=
            x ++ value.toDoubleValue :: List.replicate (p.dimension - vector.length - 1) 0
          let answer := p.evaluateFunction evaluations elements
          ⟨answer.evaluations, answer.outcome.map some⟩

def domain (p : BenchmarkProblem K) (j : ℕ) : Except Exception (K × K) :=
  match p.lowerBounds[j]?, p.upperBounds[j]? with
  | some lower, some upper => .ok (lower, upper)
  | _, _ => .error .indexOutOfBounds

def toProblem (p : BenchmarkProblem K) : Problem K :=
  { id := p.id
    name := .benchmark
    dimension := p.dimension
    nullInit := false
    analyser := .benchmark
    max := false
    initialValue := RealArith.maxValue
    parsedInitialValue := .error .numberFormat
    domain := p.domain
    objectiveFunction := p.objectiveFunction
    checkViability := p.checkViability
    adaptiveFunctionValue := p.adaptiveFunctionValue }

def benchmarkCandidatesList (p : BenchmarkProblem K) : CandidatesList K where
  getCandidates := do
    let elements ← (List.range p.dimension).mapM fun i => do
      let (minValue, maxValue) ← orThrow (p.domain i)
      (List.range 10).mapM fun _ => do
        newFunctionSolutionElement (← nextUniform minValue maxValue)
    return elements.flatten

def psoBenchmarkCandidatesList (p : BenchmarkProblem K) : CandidatesList K where
  getCandidates :=
    (List.range p.dimension).mapM fun _ => do
      newFunctionSolutionElement (← nextUniform (-1) 1)

end BenchmarkProblem

section Modifiers

variable {K : Type} [RealArith K]

def signOf (n : ℤ) : K := if n % 2 = 0 then 1 else -1

def getDeviation (problem : Problem K) (value variation : K) (variable_ : ℕ) : Program K K := do
  let (lowerLimit, upperLimit) ← orThrow (problem.domain variable_)
  let deviation ←
    if upperLimit < variation + value then do
      let n ← nextInt 0 1
      let u ← nextDouble
      pure (signOf n * (upperLimit - value) * u)
    else pure variation
  if variation + value < lowerLimit then do
    let n ← nextInt 0 1
    let u ← nextDouble
    pure (signOf n * (value - lowerLimit) * u)
  else pure deviation

/-- `BenchmarkPerformsMotion.movement` with one position. -/
def benchmarkPerformsMotion (solution : Ref) (positionIndex : ℕ) (value : Element K) :
    Program K Ref := do
  let result ← clone solution
  if positionIndex < (← deref result).solutionsVector.length then
    setElement result positionIndex value
  return result

def benchmarkRandomMotion (solution : Ref) (step : K) (state : Ref × K) : Program K (Ref × K) := do
  let problem := (← deref solution).problem
  let index ← nextInt 0 ((problem.dimension : ℤ) - 1)
  let sign ← nextInt 1 2
  let u ← nextUniform 0 1
  let variacao := signOf sign * u * step
  let value := state.2 + (← getDeviation problem state.2 variacao index.toNat)
  let result ← benchmarkPerformsMotion state.1 index.toNat (← newFunctionSolutionElement value)
  return (result, value)

/-- The modifier reads its step when it is used. -/
def benchmarkRandomSolutionModifier (step : Option K) : SolutionModifier K where
  modify solution motionsCount := do
    let step ← nonNull step
    let (result, _) ← (List.range motionsCount.toNat).foldlM
      (fun state _ => benchmarkRandomMotion solution step state) (solution, 0)
    return result

/-- A class of modifiers, as it acts on a benchmark solution: all but one expect
solutions of another class. -/
inductive BenchmarkModifier (K : Type) where
  | benchmarkRandom (step : Option K)
  | otherSolutionClass

def BenchmarkModifier.toSolutionModifier : BenchmarkModifier K → SolutionModifier K
  | benchmarkRandom step => benchmarkRandomSolutionModifier step
  | otherSolutionClass => ⟨fun _ _ => throw .classCast⟩

end Modifiers

end DOptimas.Heuristics
