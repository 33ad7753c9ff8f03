import DOptimas.Heuristics.Benchmark
import DOptimas.Proofs.Isolation
import DOptimas.Support.Rational
/-!
# Resetting an agent to another problem

What a run after a reset still knows of the runs before it, and of the problem
that the agent was built for.  Five of the six metaheuristics assign every field
that a run reads before it is read; particle swarm keeps its analyser and never
forgets its best particle, and the agent's context keeps its analyser too.
-/

namespace DOptimas.Proofs.ProblemReset

open DOptimas.Support DOptimas.Heuristics
open DOptimas.Core (SolutionAnalyser)

variable {K : Type} [RealArith K]

/-- Two metaheuristics of one class and configuration, the second of which remembers
no best particle. -/
inductive Alike : MetaHeuristic K → MetaHeuristic K → Prop where
  | de (this : DE K) (f g : DE.Fields) : Alike (.de this f) (.de this g)
  | ga (this : GA K) (pool : List Ref) (f g : GA.Fields) (hf : f.nextPopulationPool = pool)
      (hg : g.nextPopulationPool = pool) : Alike (.ga this f) (.ga this g)
  | grasp (this : GRASP K) : Alike (.grasp this) (.grasp this)
  | ils (this : ILS K) (f g : ILS.Fields) : Alike (.ils this f) (.ils this g)
  | pso (this : PSO K) (f g : PSO.Fields) (hg : g.globalBest = none) :
      Alike (.pso this f) (.pso this g)
  | sa (this : SA K) (f g : SA.Fields) : Alike (.sa this f) (.sa this g)

section Configuration

variable (parameters : MetaHeuristicParameters K) (manipulation : SolutionManipulation K)
  (p : Problem K)

end Configuration

/-! ## What stays through a life -/

section Life

variable {settings : AgentSettings K} {problem p : Problem K} {m : MetaHeuristic K} {w : World K}

end Life

section Runs

variable {this : DE K} {fuel : ℕ} {solutionList : List Ref} {context : Context} {w : World K}

end Runs

theorem Alike.mayReturn {m f : MetaHeuristic K} (h : Alike m f) :
    ∀ r solutionList, f.mayReturn solutionList r → r ∈ solutionList := by
  intro r solutionList hr
  cases h with
  | de this f g => exact hr
  | ga this pool f g hf hg => exact hr.elim
  | grasp this => exact hr.elim
  | ils this f g => exact hr.elim
  | pso this f g hg =>
      rcases hr with hr | hr
      · exact hr
      · rw [hg] at hr
        cases hr
  | sa this f g => exact hr.elim

section Example

def constantProblem (id : ℕ) (y : ℚ) : BenchmarkProblem ℚ :=
  { id, dimension := 1, lowerBounds := [-1], upperBounds := [1], numberOfConstraints := 0
    evaluator := fun _ _ => .ok y
    evaluateConstraint := fun _ => .ok () }

def easy : BenchmarkProblem ℚ := constantProblem 0 0

def hard : BenchmarkProblem ℚ := constantProblem 1 1

def exampleSettings (metaHeuristicName : MetaHeuristicName) : AgentSettings ℚ :=
  { metaHeuristicName
    metaHeuristicParameters :=
      { probC := none, scaleFactor := none, c1 := some 1, c2 := some 1
        maxIterations := some 0, maxIterationsWI := none
        maxNumberOfIterationsTemperature := none, time := none, alpha := none
        stopConditionName := .named .maxIterations
        populationSize := some 1, parentsSize := none, crossoverTax := none, mutationTax := none
        crossProbability := some 1, differentialFactor := some 1
        sum := .named .deBenchmarkProblemSum
        velocity := .named .psoVelocityCalcBenchmarkProblem
        position := .named .psoPositionCalcBenchmarkProblem
        initialVelocity := .named fun _ => some easy.psoBenchmarkCandidatesList
        candidatesListName := .missing, localSearchName := .missing
        localSearchNeighbor := .missing, localSearchIterations := none, disturbLevel := none
        initialDisturbLevel := none, disturbThreshold := none, temperatureName := .missing }
    solutionManipulation :=
      { parentsChoice := .missing, crossover := .missing, mutation := .missing
        nextPopulationChoice := .missing, chooseInitialSolution := .missing, disturb := .missing
        neighbor := .missing } }

def received (id : ℕ) (p : BenchmarkProblem ℚ) : Solution ℚ :=
  { id, problem := p.toProblem, solutionsVector := [some (.function id 0)]
    functionValue := some RealArith.maxValue, viable := false, changed := true }

def exampleWorld : World ℚ :=
  { solutions := [received 0 easy, received 1 hard], nextId := 2, nextIdentity := 2
    evaluations := 0, invocations := 0, bestSolution := none
    uniforms := fun _ => .zero, choices := fun _ => 0, clock := fun _ => 0 }

def returned {α σ : Type} : EStateM.Result Exception σ α → Option (α × σ)
  | .ok a s => some (a, s)
  | .error _ _ => none

end Example

end DOptimas.Proofs.ProblemReset
