import DOptimas.Heuristics.EachSolution
import DOptimas.Heuristics.WholeRuns
import DOptimas.Proofs.AnnealingBest
/-!
# Cached values

A solution remembers the value of its vector and whether it is viable, and a flag
says that the vector has changed since.  Every writer of a vector sets the flag,
so what is cached without it belongs to the vector.
-/

namespace DOptimas.Proofs.CoherentCaches

open DOptimas.Support DOptimas.Heuristics

variable {K : Type} [RealArith K]

def initialVector (problem : Problem K) : List (Option (Element K)) :=
  if problem.nullInit then List.replicate problem.dimension none else []

/-- The value is the initial one of an untouched solution, or one that the objective
function has given for this vector. -/
def OwnValue (s : Solution K) : Prop :=
  s.solutionsVector = initialVector s.problem ∧ s.functionValue = some s.problem.initialValue ∨
    ∃ calls x, (s.problem.objectiveFunction calls s.solutionsVector).outcome = .ok x ∧
      s.functionValue = some x

/-- What is cached belongs to the vector. -/
structure Coherent (s : Solution K) : Prop where
  value : s.changed = false → OwnValue s
  viable : s.changed = false → s.viable = true →
    s.problem.checkViability s.solutionsVector = (true, .ok ())

omit [RealArith K] in
theorem coherent_of_changed {s : Solution K} (h : s.changed = true) : Coherent s where
  value hpending := nomatch h.symm.trans hpending
  viable hpending := nomatch h.symm.trans hpending

omit [RealArith K] in
theorem coherent_built (problem : Problem K) (id : ℕ) : Coherent (Solution.built problem id) where
  value _ := Or.inl ⟨rfl, rfl⟩
  viable _ hviable := nomatch hviable

omit [RealArith K] in
theorem coherent_lasts : Lasts (K := K) Coherent where
  clone _ _ h := { value := h.value, viable := fun _ hviable => nomatch hviable }
  calculated _ calls x _ hx hending :=
    { value := fun _ => Or.inr ⟨calls, x, hx, rfl⟩
      viable := fun _ hviable => Prod.ext hviable hending }

/-- In a run of any of the six, whatever is drawn and whoever owns the solutions it is
given, every solution's cache belongs to its vector whenever no change is pending. -/
theorem process_keeps_coherent {p : NumericProblem K} (m : MetaHeuristic K)
    (hm : m.Uses p.parts) {w : World K} (hw : ∀ s ∈ w.solutions, Coherent s) (context : Context)
    (fuel : ℕ) (solutionList : List Ref) {result : Option (List Ref)}
    {s : MetaHeuristic K × World K}
    (hrun : MetaHeuristic.processMetaHeuristic fuel solutionList context (m, w) =
      .ok result s) : ∀ t ∈ s.2.solutions, Coherent t := by
  have hkeeps := coherent_lasts.keeps (coherent_built p.parts.problem)
    (fun _ _ _ => coherent_of_changed rfl) context
  have hstart : Each Coherent { w with invocations := 0, bestSolution := none } := hw
  exact (MetaHeuristic.keeps_process m hm p.parts_keep hkeeps
    (fun _ => coherent_lasts.calculates context) (fun _ _ r e _ h => each_adaptive h r e) hstart
    fuel solutionList result s hrun).2

section Example

open AnnealingBest (slope descent descentWorld)
open DifferentialEvolution (returns of_returns)

theorem coherent_descentWorld : ∀ s ∈ descentWorld.solutions, Coherent s := by
  intro s hs
  obtain rfl := List.mem_singleton.1 hs
  constructor
  · exact fun _ => Or.inr ⟨0, 1, by rfl, rfl⟩
  · exact fun _ _ => by rfl

theorem process_keeps_coherent_example : ∃ r s t,
    MetaHeuristic.processMetaHeuristic 3 [0] none (.sa descent ⟨0, none⟩, descentWorld) =
      .ok (some [r]) s ∧
    s.2.solutions[r]? = some t ∧ t.changed = false ∧ OwnValue t := by
  obtain ⟨r, s, hrun, hcheck⟩ := of_returns
    (c := fun r s => (s.2.solutions[r]?).any fun t => !t.changed)
    (show returns _ (MetaHeuristic.processMetaHeuristic 3 [0] none
      (.sa descent ⟨0, none⟩, descentWorld)) = true by decide +kernel)
  obtain ⟨t, ht, hpending⟩ := (Option.any_eq_true ..).1 hcheck
  have hchanged : t.changed = false := by simpa using hpending
  have hcoherent := process_keeps_coherent (p := .function slope) (.sa descent ⟨0, none⟩)
    ⟨rfl, some .realRandom, rfl⟩ coherent_descentWorld none 3 [0] hrun
  exact ⟨r, s, t, hrun, ht, hchanged, (hcoherent t (List.mem_of_getElem? ht)).value hchanged⟩

end Example

end DOptimas.Proofs.CoherentCaches
