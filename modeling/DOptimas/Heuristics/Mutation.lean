import DOptimas.Heuristics.Breeding
import DOptimas.Heuristics.Function
import DOptimas.Support.Loops
/-!
# Mutations of solutions with coordinates

A motion clones what it changes, so a mutation leaves its argument as it was and
gives a clone with at most one coordinate of it replaced at each motion.
-/

namespace DOptimas.Heuristics

open DOptimas.Support

variable {K : Type} [RealArith K]

section Motions

variable {w : World K}

theorem ends_setElement (r : Ref) (i : ℕ) (e : Element K) :
    Ends (setElement r i e) w fun _ w' => ∃ s, w.solutions[r]? = some s ∧
      w'.solutions = w.solutions.set r
        { s with solutionsVector := s.solutionsVector.set i (some e), changed := true } := by
  unfold setElement
  refine (ends_deref r).bind ?_
  rintro s w ⟨hs, rfl⟩
  dsimp only
  split
  · exact (Ends.throws _).bind fun _ _ h => h
  · split
    · exact (Ends.throws _).bind fun _ _ h => h
    · exact .modifies ⟨s, hs, modify_eq_set hs _⟩

theorem ends_benchmarkPerformsMotion (r : Ref) (i : ℕ) (e : Element K) :
    Ends (benchmarkPerformsMotion r i e) w fun r' w' => r' = w.solutions.length ∧
      ∃ s t, w.solutions[r]? = some s ∧ w'.solutions = w.solutions ++ [t] ∧
        t.problem = s.problem ∧ t.viable = false ∧
        (t.solutionsVector = s.solutionsVector ∨
          t.solutionsVector = s.solutionsVector.set i (some e)) ∧
        (t.changed = false → ∃ id, t = { s with id, viable := false }) := by
  unfold benchmarkPerformsMotion
  refine (ends_clone r).bind ?_
  rintro _ w₁ ⟨rfl, s, id, hs, hw₁⟩
  have hclone : w₁.solutions[w.solutions.length]? = some { s with id, viable := false } := by
    rw [hw₁, List.getElem?_append_right le_rfl, Nat.sub_self]
    rfl
  refine (ends_deref _).bind ?_
  rintro c w₁ ⟨-, rfl⟩
  split
  · refine (ends_setElement _ i e).bind ?_
    rintro - w₂ ⟨t, ht, hw₂⟩
    obtain rfl : { s with id, viable := false } = t := Option.some.inj (hclone.symm.trans ht)
    refine .ret ⟨rfl, s, { s with
      id, viable := false
      solutionsVector := s.solutionsVector.set i (some e), changed := true }, hs, ?_, rfl, rfl,
      Or.inr rfl, fun h => nomatch h⟩
    rw [hw₂, hw₁, List.set_append_right _ _ le_rfl, Nat.sub_self]
    rfl
  · exact .ret ⟨rfl, s, _, hs, hw₁, rfl, rfl, Or.inl rfl, fun _ => ⟨id, rfl⟩⟩

theorem ends_getDeviation (problem : Problem K) (value variation : K) (i : ℕ) :
    Ends (getDeviation problem value variation i) w fun _ w' => w'.solutions = w.solutions := by
  have hdraws := draws_solutions w
  have hlower : ∀ (deviation lower : K) {w' : World K}, w'.solutions = w.solutions →
      Ends (if variation + value < lower then do
          let n ← nextInt 0 1
          let u ← nextDouble
          pure (signOf n * (value - lower) * u)
        else pure deviation) w' fun _ w'' => w''.solutions = w.solutions := by
    intro deviation lower w' hw'
    split
    · refine (hdraws.nextInt hw' 0 1).bind fun n w₁ hw₁ => ?_
      exact (hdraws.nextDouble hw₁).bind fun u w₂ hw₂ => .ret hw₂
    · exact .ret hw'
  unfold getDeviation
  refine (ends_orThrow _).bind ?_
  rintro ⟨lower, upper⟩ w ⟨-, rfl⟩
  dsimp only
  split
  · refine (hdraws.nextInt rfl 0 1).bind fun n w₁ hw₁ => ?_
    refine (hdraws.nextDouble hw₁).bind fun u w₂ hw₂ => ?_
    exact hlower _ lower hw₂
  · exact hlower variation lower rfl

/-- A motion from `r` gives a new solution with one coordinate of it replaced. -/
theorem ends_benchmarkRandomMotion (solution : Ref) (step : K) (state : Ref × K) :
    Ends (benchmarkRandomMotion solution step state) w fun state' w' =>
      state'.1 = w.solutions.length ∧ ∃ s t, w.solutions[state.1]? = some s ∧
        w'.solutions = w.solutions ++ [t] ∧ t.problem = s.problem ∧ t.viable = false ∧
        (t.solutionsVector = s.solutionsVector ∨
          ∃ i e, t.solutionsVector = s.solutionsVector.set i (some e)) ∧
        (t.changed = false → ∃ id, t = { s with id, viable := false }) := by
  unfold benchmarkRandomMotion
  have hdraws := draws_solutions w
  refine (ends_deref solution).bind ?_
  rintro s w ⟨-, rfl⟩
  refine (hdraws.nextInt rfl _ _).bind fun index w₁ hw₁ => ?_
  refine (hdraws.nextInt hw₁ 1 2).bind fun sign w₂ hw₂ => ?_
  refine (hdraws.nextUniform hw₂ 0 1).bind fun u w₃ hw₃ => ?_
  refine (ends_getDeviation _ _ _ _).bind fun deviation w₄ hw₄ => ?_
  rw [hw₃] at hw₄
  refine (hdraws.newFunctionSolutionElement hw₄ _).bind fun e w₅ hw₅ => ?_
  refine (ends_benchmarkPerformsMotion _ _ _).bind ?_
  rintro r' w' ⟨rfl, s, t, hs, hw', hproblem, hviable, hvector, hsame⟩
  rw [hw₅] at hs hw'
  refine .ret ⟨congrArg List.length hw₅, s, t, hs, hw', hproblem, hviable, ?_, hsame⟩
  exact hvector.imp_right fun h => ⟨_, _, h⟩

end Motions

def SetClosed (V : List (Option (Element K)) → Prop) : Prop :=
  ∀ vector i e, V vector → V (vector.set i (some e))

/-- A modifier changes no solution and finds nothing viable: it gives its argument or a
new solution of the same shape. -/
def SolutionModifier.Varies (m : SolutionModifier K) (problem : Problem K)
    (V : List (Option (Element K)) → Prop) : Prop :=
  ∀ (w : World K) (r : Ref) (n : ℤ), Stands problem V w r →
    Ends (m.modify r n) w fun r' w' => w.Grows (fun _ => False) w' ∧
      (r' = r ∨ w.solutions.length ≤ r' ∧ Fresh problem V w' r' ∧ r' < w'.solutions.length)

theorem SolutionModifier.Varies.mutates {m : SolutionModifier K} {problem : Problem K}
    {V : List (Option (Element K)) → Prop} (h : m.Varies problem V) : m.Mutates problem V := by
  intro w r n hfresh hlt
  refine (h w r n (hfresh.1.stands hlt)).mono ?_
  rintro r' w' ⟨hgrows, rfl | ⟨hnew, hfresh', -⟩⟩
  · exact ⟨hgrows.any _, hgrows.viable_before, hgrows.fresh hfresh hlt id, Or.inl rfl⟩
  · exact ⟨hgrows.any _, hgrows.viable_before, hfresh', Or.inr hnew⟩

theorem benchmarkRandomSolutionModifier_varies (step : Option K) (problem : Problem K)
    {V : List (Option (Element K)) → Prop} (hV : SetClosed V) :
    (benchmarkRandomSolutionModifier step).Varies problem V := by
  intro w r n hstands
  unfold benchmarkRandomSolutionModifier
  refine (ends_nonNull step).bind ?_
  rintro step w ⟨-, rfl⟩
  refine Ends.bind (Q := fun state w' => (w.Grows (fun _ => False) w' ∧
      w.solutions.length ≤ w'.solutions.length) ∧ Stands problem V w' state.1 ∧
      (state.1 = r ∨ w.solutions.length ≤ state.1 ∧ ¬Viable w' state.1))
    (.foldlM ⟨⟨.refl _ _, le_rfl⟩, hstands, Or.inl rfl⟩ ?_) ?_
  · rintro - - state w₁ ⟨⟨hgrows, hlength⟩, hstands₁, -⟩
    refine (ends_benchmarkRandomMotion r step state).mono ?_
    rintro ⟨r', value⟩ w₂ ⟨rfl, s, t, hs, hw₂, hproblem, hviable, hvector, -⟩
    obtain ⟨hsproblem, hsvector⟩ := hstands₁.shaped s hs
    have hlength₂ : w₂.solutions.length = w₁.solutions.length + 1 := by simp [hw₂]
    have hobject : w₂.solutions[w₁.solutions.length]? = some t := by simp [hw₂]
    have happend : w₁.Grows (fun _ => False) w₂ :=
      grows_of_append hw₂ (by simpa using hviable) _
    refine ⟨⟨hgrows.trans happend, by omega⟩, ⟨t, hobject, hproblem.trans hsproblem, ?_⟩,
      Or.inr ⟨hlength, ?_⟩⟩
    · rcases hvector with hsame | ⟨i, e, hset⟩
      · rw [hsame]
        exact hsvector
      · rw [hset]
        exact hV _ i e hsvector
    · rintro ⟨u, hu, hv⟩
      obtain rfl : t = u := Option.some.inj (hobject.symm.trans hu)
      simp [hviable] at hv
  · rintro state w₁ ⟨⟨hgrows, -⟩, hstands₁, hsame | ⟨hnew, hnot⟩⟩
    · exact .ret ⟨hgrows, Or.inl hsame⟩
    · exact .ret ⟨hgrows, Or.inr ⟨hnew, ⟨hstands₁.shaped, hnot⟩, hstands₁.lt⟩⟩

theorem BenchmarkModifier.varies (m : BenchmarkModifier K) (problem : Problem K)
    {V : List (Option (Element K)) → Prop} (hV : SetClosed V) :
    m.toSolutionModifier.Varies problem V := by
  cases m with
  | benchmarkRandom step => exact benchmarkRandomSolutionModifier_varies step problem hV
  | otherSolutionClass => exact fun _ _ _ _ => .throws _

theorem BenchmarkModifier.mutates (m : BenchmarkModifier K) (problem : Problem K)
    {V : List (Option (Element K)) → Prop} (hV : SetClosed V) :
    m.toSolutionModifier.Mutates problem V :=
  (m.varies problem hV).mutates

/-- Where there are coordinates the second modifier always throws. -/
theorem RealModifier.varies (p : FunctionProblem K) (m : RealModifier) :
    (m.toSolutionModifier p).Varies p.toProblem fun _ => True := by
  cases m with
  | realRandom => exact benchmarkRandomSolutionModifier_varies _ _ fun _ _ _ _ => trivial
  | realPosition =>
      intro w r n hstands
      show Ends (do
        let _ ← buildSolution p.toProblem
        if p.dimension = 0 then
          return r
        _) w _
      refine (ends_buildSolution p.toProblem).bind ?_
      rintro _ w₁ ⟨rfl, id, hw₁⟩
      split
      · refine .ret ⟨grows_of_append hw₁ ?_ _, Or.inl rfl⟩
        intro t ht
        rw [List.mem_singleton.1 ht]
        rfl
      · refine Ends.after fun s w₂ => ?_
        dsimp only
        refine Ends.after fun e w₃ => Ends.after fun x w₄ => Ends.after fun n w₅ => ?_
        refine Ends.after fun u w₆ => Ends.after fun c w₇ => Ends.after fun d w₈ => ?_
        exact .throws _
  | otherSolutionClass => exact fun _ _ _ _ => .throws _

end DOptimas.Heuristics
