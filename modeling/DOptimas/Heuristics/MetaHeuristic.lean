import DOptimas.Heuristics.TrajectoryHeuristics
/-!
# The agent's metaheuristic

The six supported metaheuristics behind one interface, and what an agent does
with its own: it builds one with its settings, hands it another problem, and
runs it on a list of solutions with a context that counts from zero.
-/

namespace DOptimas.Heuristics

open DOptimas.Support
open DOptimas.Core (SolutionAnalyser)

inductive MetaHeuristicName where
  | DE
  | GA
  | GRASP
  | ILS
  | PSO
  | SA
  deriving DecidableEq

structure AgentSettings (K : Type) [RealArith K] where
  metaHeuristicName : MetaHeuristicName
  metaHeuristicParameters : MetaHeuristicParameters K
  solutionManipulation : SolutionManipulation K

inductive MetaHeuristic (K : Type) [RealArith K] where
  | de (this : DE K) (fields : DE.Fields)
  | ga (this : GA K) (fields : GA.Fields)
  | grasp (this : GRASP K)
  | ils (this : ILS K) (fields : ILS.Fields)
  | pso (this : PSO K) (fields : PSO.Fields)
  | sa (this : SA K) (fields : SA.Fields)

namespace MetaHeuristic

variable {K : Type} [RealArith K]

def name : MetaHeuristic K → MetaHeuristicName
  | de _ _ => .DE
  | ga _ _ => .GA
  | grasp _ => .GRASP
  | ils _ _ => .ILS
  | pso _ _ => .PSO
  | sa _ _ => .SA

/-- The constructor of the named class on a problem, and its first configuration. -/
def buildMetaHeuristic (settings : AgentSettings K) (problem : Problem K) :
    Program K (MetaHeuristic K) := do
  let parameters := settings.metaHeuristicParameters
  let manipulation := settings.solutionManipulation
  match settings.metaHeuristicName with
  | .DE =>
      let this ← DE.configureMetaHeuristic parameters problem
      return de this { population := [], bestSolution := none }
  | .GA =>
      let (this, fields) ← GA.configureMetaHeuristic parameters manipulation problem
      return ga this fields
  | .GRASP => return grasp (GRASP.configureMetaHeuristic parameters problem)
  | .ILS =>
      let (this, fields) ← ILS.configureMetaHeuristic parameters manipulation problem none
      return ils this fields
  | .PSO =>
      let this ← PSO.configureMetaHeuristic parameters problem problem.analyser
      return pso this { particles := [], particleBest := [], velocity := [], globalBest := none }
  | .SA =>
      let (this, fields) ← SA.configureMetaHeuristic parameters manipulation problem none
      return sa this fields

/-- `setProblem` and `configureMetaHeuristic`. -/
def configure (settings : AgentSettings K) (problem : Problem K) (m : MetaHeuristic K) :
    Program K (MetaHeuristic K) := do
  let parameters := settings.metaHeuristicParameters
  let manipulation := settings.solutionManipulation
  match m with
  | de _ fields =>
      let this ← DE.configureMetaHeuristic parameters problem
      return de this fields
  | ga _ _ =>
      let (this, fields) ← GA.configureMetaHeuristic parameters manipulation problem
      return ga this fields
  | grasp _ => return grasp (GRASP.configureMetaHeuristic parameters problem)
  | ils _ fields =>
      let (this, fields) ←
        ILS.configureMetaHeuristic parameters manipulation problem fields.bestSolution
      return ils this fields
  | pso old fields =>
      let this ← PSO.configureMetaHeuristic parameters problem old.solutionAnalyser
      return pso this fields
  | sa _ fields =>
      let (this, fields) ←
        SA.configureMetaHeuristic parameters manipulation problem fields.bestSolution
      return sa this fields

def ofClass {F : Type} (wrap : F → MetaHeuristic K) (fields : F)
    (run : Method F K (Option (List Ref))) (w : World K) :
    EStateM.Result Exception (MetaHeuristic K × World K) (Option (List Ref)) :=
  match run (fields, w) with
  | .ok a s => .ok a (wrap s.1, s.2)
  | .error e s => .error e (wrap s.1, s.2)

def runMetaHeuristic (fuel : ℕ) (externalSolution : List Ref) (context : Context) :
    Method (MetaHeuristic K) K (Option (List Ref)) := fun s =>
  match s.1 with
  | de this fields =>
      ofClass (de this) fields (this.runMetaHeuristic fuel externalSolution context) s.2
  | ga this fields =>
      ofClass (ga this) fields (this.runMetaHeuristic fuel externalSolution context) s.2
  | grasp this => call (this.runMetaHeuristic fuel externalSolution context) s
  | ils this fields =>
      ofClass (ils this) fields (this.runMetaHeuristic fuel externalSolution context) s.2
  | pso this fields =>
      ofClass (pso this) fields (this.runMetaHeuristic fuel externalSolution context) s.2
  | sa this fields =>
      ofClass (sa this) fields (this.runMetaHeuristic fuel externalSolution context) s.2

def resetContext : Program K Unit :=
  modify fun w => { w with invocations := 0, bestSolution := none }

/-- The run of `Agent.processMetaHeuristic`, before its exceptions are caught. -/
def processMetaHeuristic (fuel : ℕ) (solutionList : List Ref) (context : Context) :
    Method (MetaHeuristic K) K (Option (List Ref)) := do
  call resetContext
  runMetaHeuristic fuel solutionList context

end MetaHeuristic

end DOptimas.Heuristics
