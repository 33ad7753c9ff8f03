import DOptimas.Heuristics.Benchmark
/-!
# Function problems

A problem that knows its function.  `max` is a setting that the problem's own
methods do not read.
-/

namespace DOptimas.Heuristics

open DOptimas.Support

structure FunctionProblem (K : Type) where
  id : ℕ
  max : Bool
  dimension : ℕ
  step : K
  initialPoint : List K
  domain : List (K × K)
  /-- `getFunctionValueOnPoint`, which fails on a point that is too short. -/
  function : List K → Except Exception K

namespace FunctionProblem

variable {K : Type} [RealArith K]

def getValue : Option (Element K) → Except Exception K
  | none => .error .nullPointer
  | some (.function _ x) => .ok x
  | some _ => .error .classCast

def objectiveFunction (p : FunctionProblem K) (vector : List (Option (Element K))) :
    Except Exception K := do
  p.function (← vector.mapM getValue)

def bounds (p : FunctionProblem K) (variable_ : ℕ) : Except Exception (K × K) :=
  match p.domain[variable_]? with
  | some limits => .ok limits
  | none => .error .indexOutOfBounds

def checkElements (p : FunctionProblem K) (vector : List (Option (Element K))) :
    ℕ → ℕ → Bool × Except Exception Unit
  | 0, _ => (true, .ok ())
  | count + 1, i =>
      match vector[i]? with
      | none => (true, .error .indexOutOfBounds)
      | some element =>
          match p.bounds i, getValue element with
          | .error e, _ => (true, .error e)
          | _, .error e => (true, .error e)
          | .ok (lower, upper), .ok x =>
              if lower ≤ x ∧ x ≤ upper then p.checkElements vector count (i + 1)
              else (false, .ok ())

def checkViability (p : FunctionProblem K) (vector : List (Option (Element K))) :
    Bool × Except Exception Unit :=
  p.checkElements vector p.dimension 0

/-- The function at the initial point with the vector and the element in its front. -/
def adaptiveFunctionValue (p : FunctionProblem K) (vector : List (Option (Element K)))
    (value : Element K) : Except Exception (Option K) := do
  if vector.length = p.dimension then
    return none
  let (lower, upper) ← p.bounds vector.length
  let x ← getValue (some value)
  if x < lower ∨ upper < x then
    return none
  let front ← vector.mapM getValue
  if p.initialPoint.length ≤ vector.length then
    .error .indexOutOfBounds
  else
    return some (← p.function (front ++ x :: p.initialPoint.drop (vector.length + 1)))

def toProblem (p : FunctionProblem K) : Problem K :=
  { id := p.id
    name := .function
    dimension := p.dimension
    nullInit := false
    analyser := .function
    max := p.max
    initialValue := RealArith.maxValue
    parsedInitialValue := .ok RealArith.maxValue
    domain := p.bounds
    objectiveFunction := fun _ vector => ⟨0, p.objectiveFunction vector⟩
    checkViability := p.checkViability
    adaptiveFunctionValue := fun _ vector value => ⟨0, p.adaptiveFunctionValue vector value⟩ }

def functionCandidatesList (p : FunctionProblem K) : CandidatesList K where
  getCandidates := do
    let elements ← (List.range p.dimension).mapM fun i => do
      let (minValue, maxValue) ← orThrow (p.bounds i)
      (List.range 10).mapM fun _ => do
        newFunctionSolutionElement (← nextUniform minValue maxValue)
    return elements.flatten

def psoFunctionCandidatesList (p : FunctionProblem K) : CandidatesList K where
  getCandidates :=
    (List.range p.dimension).mapM fun _ => do
      newFunctionSolutionElement (← nextUniform (-1) 1)

end FunctionProblem

/-- A class of modifiers, as it acts on a solution of a function problem.  The second
asks a list of parameters for its element that is never given one. -/
inductive RealModifier where
  | realRandom
  | realPosition
  | otherSolutionClass

def RealModifier.toSolutionModifier {K : Type} [RealArith K] (p : FunctionProblem K) :
    RealModifier → SolutionModifier K
  | realRandom => benchmarkRandomSolutionModifier (some p.step)
  | realPosition =>
      ⟨fun solution _ => do
        let _ ← buildSolution p.toProblem
        if p.dimension = 0 then
          return solution
        let vector := (← deref solution).solutionsVector
        let _ ← orThrow (FunctionProblem.getValue (← nth vector 0))
        let _ ← nextInt 0 1
        let _ ← nextDouble
        let _ ← clone solution
        let _ ← clone solution
        throw .nullPointer⟩
  | otherSolutionClass => ⟨fun _ _ => throw .classCast⟩

end DOptimas.Heuristics
