import DOptimas.Heuristics.Mutation
import DOptimas.Proofs.DifferentialEvolution
/-!
# Solutions with the value of their vectors

Where the function of a problem is deterministic, every evaluated solution has the
value of its vector, and one that was found viable has a viable vector.
-/

namespace DOptimas.Proofs.SoundSolutions

open DOptimas.Support DOptimas.Heuristics
open DOptimas.Core (SolutionAnalyser)
open DifferentialEvolution (Computes Carries value_of)

variable {K : Type} [RealArith K]

def valueAt (p : FunctionProblem K) (vector : List (Option (Element K))) : K :=
  match p.objectiveFunction vector with
  | .ok x => x
  | .error _ => 0

theorem computes_valueAt (p : FunctionProblem K) : Computes p.toProblem (valueAt p) := by
  intro calls vector x hx
  have hvalue : p.objectiveFunction vector = .ok x := hx
  simp [valueAt, hvalue]

/-- A solution of the problem with the value of its vector, which is viable. -/
def Sound (problem : Problem K) (f : List (Option (Element K)) → K) (s : Solution K) : Prop :=
  s.problem = problem ∧ Carries f s ∧ (problem.checkViability s.solutionsVector).1 = true

def Valued (problem : Problem K) (f : List (Option (Element K)) → K) (s : Solution K) : Prop :=
  s.problem = problem ∧ Carries f s ∧
    (s.viable = true → (problem.checkViability s.solutionsVector).1 = true)

section Solutions

variable {f : List (Option (Element K)) → K} {w : World K} {r : Ref}

omit [RealArith K] in
theorem establishes_valued {problem : Problem K} (hf : Computes problem f) :
    Establishes problem (fun _ => True) (Valued problem f) := by
  intro s calls x hproblem hvector hx
  refine ⟨hproblem, hf.establishes s calls x hproblem hvector hx, fun hv => ?_⟩
  rw [← hproblem]
  exact hv

theorem Valued.sound {problem : Problem K} (h : Evaluated (Valued problem f) w r)
    (hv : Viable w r) : Evaluated (Sound problem f) w r := by
  obtain ⟨s, hs, hchanged, hproblem, hvalue, himp⟩ := h
  obtain ⟨t, ht, hviable⟩ := hv
  obtain rfl : s = t := Option.some.inj (hs.symm.trans ht)
  exact ⟨s, hs, hchanged, hproblem, hvalue, himp hviable⟩

theorem Sound.valued {problem : Problem K} (h : Evaluated (Sound problem f) w r) :
    Evaluated (Valued problem f) w r :=
  h.mono fun _ ⟨hproblem, hvalue, hviable⟩ => ⟨hproblem, hvalue, fun _ => hviable⟩

theorem Sound.stands {problem : Problem K} (h : Evaluated (Sound problem f) w r) :
    Stands problem (fun _ => True) w r := by
  obtain ⟨s, hs, -, hproblem, -, -⟩ := h
  exact ⟨s, hs, hproblem, trivial⟩

theorem value_eq_of_vectorOf {P Q : Solution K → Prop} {left right : Ref}
    (hP : ∀ s, P s → Carries f s) (hQ : ∀ s, Q s → Carries f s)
    (hl : Evaluated P w left) (hr : Evaluated Q w right)
    (h : w.vectorOf left = w.vectorOf right) : w.value left = w.value right := by
  obtain ⟨s, hs, -, hp⟩ := hl
  obtain ⟨t, ht, -, hq⟩ := hr
  rw [World.vectorOf, World.vectorOf, hs, ht] at h
  have hsame : s.solutionsVector = t.solutionsVector := Option.some.inj h
  rw [value_of hs (hP s hp), value_of ht (hQ t hq), hsame]

omit [RealArith K] in
theorem sound_tame (problem : Problem K) (f : List (Option (Element K)) → K) :
    Tame (Sound problem f) :=
  fun _ _ h => h

omit [RealArith K] in
theorem valued_tame (problem : Problem K) (f : List (Option (Element K)) → K) :
    Tame (Valued problem f) :=
  fun _ _ ⟨hproblem, hvalue, _⟩ => ⟨hproblem, hvalue, fun h => nomatch h⟩

end Solutions

end DOptimas.Proofs.SoundSolutions
