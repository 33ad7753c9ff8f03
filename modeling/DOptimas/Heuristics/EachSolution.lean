import DOptimas.Heuristics.Heap
import DOptimas.Heuristics.PopulationRuns
/-!
# A property of every solution

What holds of a new solution, of a copy of a solution that has it and of a solution
that is calculated holds of every solution of a run that changes no vector, and of
every run if a changed vector does not matter to it.
-/

namespace DOptimas.Heuristics

open DOptimas.Support
open DOptimas.Core (SolutionAnalyser)

variable {K : Type} [RealArith K]

def Each (P : Solution K → Prop) (w : World K) : Prop := ∀ s ∈ w.solutions, P s

/-- Copies have `P`, and so do calculated solutions. -/
structure Lasts (P : Solution K → Prop) : Prop where
  clone : ∀ (s : Solution K) (id : ℕ), P s → P { s with id, viable := false }
  calculated : ∀ (s : Solution K) calls x, P s →
    (s.problem.objectiveFunction calls s.solutionsVector).outcome = .ok x →
    (s.problem.checkViability s.solutionsVector).2 = .ok () → P (s.calculated x)

section Worlds

variable {P : Solution K → Prop} {w w' : World K}

theorem Each.of_eq (h : Each P w) (hsolutions : w'.solutions = w.solutions) : Each P w' := by
  unfold Each
  rw [hsolutions]
  exact h

theorem Each.append (h : Each P w) {s : Solution K} (hs : P s)
    (hsolutions : w'.solutions = w.solutions ++ [s]) : Each P w' := by
  intro t ht
  rw [hsolutions] at ht
  rcases List.mem_append.1 ht with ht | ht
  · exact h t ht
  · rw [List.mem_singleton.1 ht]
    exact hs

theorem Each.set (h : Each P w) {r : Ref} {s : Solution K} (hs : P s)
    (hsolutions : w'.solutions = w.solutions.set r s) : Each P w' := by
  intro t ht
  rw [hsolutions] at ht
  rcases List.mem_or_eq_of_mem_set ht with ht | rfl
  · exact h t ht
  · exact hs

theorem Each.modify (h : Each P w) (r : Ref) {f : Solution K → Solution K}
    (hf : ∀ s, P s → P (f s)) : Each P { w with solutions := w.solutions.modify r f } := by
  intro s hs
  obtain ⟨t, ht, rfl | rfl⟩ := mem_modify hs
  · exact h _ ht
  · exact hf t (h t ht)

theorem each_buildSolution (h : Each P w) {problem : Problem K}
    (hbuilt : ∀ id, P (Solution.built problem id)) :
    Ends (buildSolution problem) w fun _ => Each P :=
  (ends_buildSolution problem).mono fun _ _ ⟨_, id, hw'⟩ => h.append (hbuilt id) hw'

theorem each_adaptive (h : Each P w) (r : Ref) (e : Element K) :
    Ends (adaptiveFunctionValue r e) w fun _ => Each P := by
  unfold adaptiveFunctionValue
  refine (ends_deref r).bind ?_
  rintro s v ⟨-, hv⟩
  subst v
  refine (Ends.reads (Q := fun v w' => v = w ∧ w' = w) ⟨rfl, rfl⟩).bind ?_
  rintro v v' ⟨hv, hv'⟩
  subst v v'
  exact (ends_answered _).mono fun _ _ ⟨_, hw'⟩ => h.of_eq hw'

variable (hP : Lasts P)
include hP

theorem each_clone (h : Each P w) (r : Ref) : Ends (clone r) w fun _ => Each P := by
  refine (ends_clone r).mono ?_
  rintro r' w' ⟨-, s, id, hs, hw'⟩
  exact h.append (hP.clone s id (h s (List.mem_of_getElem? hs))) hw'

theorem each_accept (h : Each P w) (a : SolutionAnalyser) (r : Ref) :
    Ends (accept a r) w fun _ => Each P := by
  unfold accept
  refine Ends.bind (Q := fun _ => Each P) (.modifies (h.of_eq rfl)) fun _ w₁ hw₁ => ?_
  refine (Ends.reads (Q := fun v w' => v = w₁ ∧ w' = w₁) ⟨rfl, rfl⟩).bind ?_
  rintro v _ ⟨rfl, rfl⟩
  split
  · exact (each_clone hP hw₁ r).bind fun best w₂ hw₂ => .modifies (hw₂.of_eq rfl)
  · refine (ends_getBestSolution a _ r).bind ?_
    rintro best v ⟨-, hv⟩
    subst v
    exact .modifies (hw₁.of_eq rfl)

theorem each_calculate (h : Each P w) (context : Context) (r : Ref) :
    Ends (calculate context r) w fun _ => Each P := by
  unfold calculate
  refine (ends_deref r).bind ?_
  rintro s v ⟨hs, hv⟩
  subst v
  refine (Ends.reads (Q := fun v w' => v = w ∧ w' = w) ⟨rfl, rfl⟩).bind ?_
  rintro v v' ⟨hv, hv'⟩
  subst v v'
  refine (ends_answered _).bind fun x w₁ ⟨hx, hw₁⟩ => ?_
  refine (ends_assign r _).bind fun _ w₂ hw₂ => (ends_assign r _).bind fun _ w₃ hw₃ => ?_
  refine (ends_orThrow _).bind ?_
  rintro ⟨⟩ v ⟨hending, hv⟩
  subst v
  refine (ends_assign r _).bind fun _ w₄ hw₄ => ?_
  have hset : w₄.solutions = w.solutions.set r (s.calculated x) := by
    rw [hw₄, hw₃, hw₂, hw₁, List.modify_modify_eq, List.modify_modify_eq, modify_eq_set hs]
    rfl
  have hcalculated := hP.calculated s _ x (h s (List.mem_of_getElem? hs)) hx hending
  cases context with
  | some a => exact each_accept hP (h.set hcalculated hset) a r
  | none => exact .ret (h.set hcalculated hset)

theorem Lasts.observes {problem : Problem K} (hbuilt : ∀ id, P (Solution.built problem id))
    (context : Context) : Observes (Each P) (fun _ => True) problem context where
  draw _ _ _ _ _ h := h.of_eq rfl
  build _ h := (each_buildSolution h hbuilt).mono fun _ _ hw => ⟨trivial, hw⟩
  clone _ r h := (each_clone hP h r).mono fun _ _ hw => ⟨trivial, hw⟩
  calculate _ r _ h := each_calculate hP h context r

theorem Lasts.keeps {problem : Problem K} (hbuilt : ∀ id, P (Solution.built problem id))
    (hchanged : ∀ (s : Solution K) vector, P s →
      P { s with solutionsVector := vector, changed := true }) (context : Context) :
    Keeps (Each P) (fun _ => True) problem context where
  draw _ _ _ _ _ h := h.of_eq rfl
  vector _ r _ _ h := h.modify r fun s hs => hchanged s _ hs
  build := (hP.observes hbuilt context).build
  clone := (hP.observes hbuilt context).clone
  calculate := (hP.observes hbuilt context).calculate

theorem Lasts.calculates (context : Context) : CalculatesAny (Each P) context :=
  fun _ r _ _ _ h => each_calculate hP h context r

end Worlds

end DOptimas.Heuristics
