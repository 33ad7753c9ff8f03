import DOptimas.Core.QLearningMemory
/-!
# Agents and their metaheuristic runs

An agent runs a metaheuristic on a list of solutions and learns which regions
its good results came from.  A run is a program that may ask for function values
while it goes; what it computes between two evaluations is the parameter
`MetaHeuristics`.
-/

namespace DOptimas.Core

open DOptimas.Support

structure AgentSettings (K : Type) where
  name : ℕ
  metaHeuristicName : ℕ
  lifetime : ℕ
  memoryTax : K
  isConstructorMetaHeuristic : Bool
  /-- The parameter under the population-size key, when it is configured. -/
  populationSize : Option ℤ
  deriving DecidableEq

/-- `AgentContext`: what a run reports about its evaluations. -/
structure AgentContext (K : Type) where
  invocations : ℕ
  bestSolution : Option (Solution K)
  deriving DecidableEq

def AgentContext.resetContext {K : Type} : AgentContext K := ⟨0, none⟩

/-- A metaheuristic at work: it returns a list (or `null`), throws, or asks for
the value of a vector, where a failed evaluation reaches it as `none`. -/
inductive Run (H K : Type) : Type where
  | done (result : Option (List (Solution K))) (memory : H) (context : AgentContext K)
  | throws (memory : H) (context : AgentContext K)
  | evaluateFunction (x : List K) (next : Option K → Run H K)

/-- What a run returns when its evaluations give these values, one after the other.
An exception ends it with no solutions. -/
def Run.result {H K : Type} : List (Option K) → Run H K → Option (Option (List (Solution K)))
  | _, .done result _ _ => some result
  | _, .throws _ _ => some (some [])
  | [], .evaluateFunction _ _ => none
  | y :: ys, .evaluateFunction _ next => (next y).result ys

/-- A list whose first solution, if there is one, has a value. -/
def Learnable {K : Type} : Option (List (Solution K)) → Prop
  | none => False
  | some solutions => ∀ s ∈ solutions.head?, s.functionValue ≠ none

/-- The metaheuristics that the settings can name, with the state that an
instance keeps between runs. -/
class MetaHeuristics (K : Type) [RealArith K] where
  Memory : Type
  buildMetaHeuristic : AgentSettings K → Problem → Memory
  /-- `setProblem` followed by `configureMetaHeuristic`. -/
  configure : AgentSettings K → Problem → Memory → Memory
  runMetaHeuristic : Memory → List (Solution K) → AgentContext K → List (Draw K) → Run Memory K

structure Agent (K : Type) [RealArith K] [MetaHeuristics K] where
  agentSettings : AgentSettings K
  metaHeuristic : MetaHeuristics.Memory K
  qLearningMemory : QLearningMemory K
  solutionsCount : ℤ
  memoryTax : K
  context : AgentContext K
  problem : Option Problem

namespace Agent

variable {K : Type} [RealArith K] [MetaHeuristics K]

/-- The constructor.  The problem it builds its metaheuristic on is not stored. -/
def new (settingsProblem : Problem) (agentSettings : AgentSettings K) : Agent K :=
  { agentSettings
    metaHeuristic := MetaHeuristics.buildMetaHeuristic agentSettings settingsProblem
    qLearningMemory := .new settingsProblem.analyser
    solutionsCount := agentSettings.populationSize.getD 1
    memoryTax := agentSettings.memoryTax
    context := .resetContext
    problem := none }

def reset (a : Agent K) (problem : Problem) : Agent K :=
  { a with
    problem := some problem
    metaHeuristic := MetaHeuristics.configure a.agentSettings problem a.metaHeuristic
    qLearningMemory := a.qLearningMemory.resetMemory
    context := .resetContext }

def updateMemory (a : Agent K) (choices : List ℕ) (ids : List ℤ) : Agent K :=
  { a with
    qLearningMemory :=
      if a.qLearningMemory.isEmpty then a.qLearningMemory.initializeIds choices ids
      else a.qLearningMemory.updateRegionIds ids }

/-- The first draw decides whether the memory is used, the second is its dice. -/
def chooseRegion (a : Agent K) (draw dice : Draw K) : Except Failure (Option ℤ) :=
  if draw.value < a.memoryTax then a.qLearningMemory.chooseRegion dice else .ok none

def runAlgorithm (a : Agent K) (solutions : List (Solution K)) (draws : List (Draw K)) :
    Run (MetaHeuristics.Memory K) K :=
  MetaHeuristics.runMetaHeuristic a.metaHeuristic solutions .resetContext draws

/-- The rest of `processMetaHeuristic`, once the run has returned `result`. -/
def learn (a : Agent K) (result : Option (List (Solution K))) (regionId : ℤ) :
    Except Failure (Agent K × List (Solution K)) :=
  match result with
  | none => .error (.nullPointer .result)
  | some [] => .ok (a, [])
  | some (s :: ss) =>
      match a.qLearningMemory.updateQTable regionId s with
      | .error e => .error e
      | .ok memory =>
          match memory.updateBestFoundSolution s with
          | .error e => .error e
          | .ok memory => .ok ({ a with qLearningMemory := memory }, s :: ss)

@[simp] theorem problem_new (p : Problem) (settings : AgentSettings K) :
    (new p settings).problem = none := rfl

@[simp] theorem problem_reset (a : Agent K) (p : Problem) :
    (a.reset p).problem = some p := rfl

@[simp] theorem problem_updateMemory (a : Agent K) (choices : List ℕ) (ids : List ℤ) :
    (a.updateMemory choices ids).problem = a.problem := rfl

theorem problem_learn {a a' : Agent K} {result : Option (List (Solution K))} {regionId : ℤ}
    {solutions : List (Solution K)} (h : a.learn result regionId = .ok (a', solutions)) :
    a'.problem = a.problem ∧ result = some solutions := by
  unfold learn at h
  split at h
  · simp at h
  · obtain ⟨rfl, rfl⟩ : a = a' ∧ [] = solutions := by simpa using h
    exact ⟨rfl, rfl⟩
  next s ss =>
    split at h
    · simp at h
    next memory hq =>
      split at h
      · simp at h
      next memory' hbest =>
        obtain ⟨rfl, rfl⟩ : { a with qLearningMemory := memory' } = a' ∧ s :: ss = solutions := by
          simpa using h
        exact ⟨rfl, rfl⟩

theorem learn_ok {a : Agent K} {result : Option (List (Solution K))} (regionId : ℤ)
    (h : a.qLearningMemory.Valued) (hresult : Learnable result) :
    ∃ a' solutions, a.learn result regionId = .ok (a', solutions) ∧
      a'.qLearningMemory.Valued := by
  match result, hresult with
  | some [], _ => exact ⟨a, [], rfl, h⟩
  | some (s :: ss), hresult =>
      have hs : s.functionValue ≠ none := hresult s rfl
      obtain ⟨memory, hq, hsame⟩ := QLearningMemory.updateQTable_ok h hs regionId
      have hvalued : memory.Valued := fun best hbest => h best (hsame ▸ hbest)
      obtain ⟨memory', hbest, hvalued'⟩ := QLearningMemory.updateBestFoundSolution_ok hvalued hs
      exact ⟨{ a with qLearningMemory := memory' }, s :: ss, by simp [learn, hq, hbest], hvalued'⟩

end Agent

end DOptimas.Core
