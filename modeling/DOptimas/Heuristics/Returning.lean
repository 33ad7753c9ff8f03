import DOptimas.Heuristics.Rules
import DOptimas.Heuristics.Heap
import DOptimas.Support.Totality
/-!
# When the primitives return

The conditions under which a primitive does not throw, with what it returns.
-/

namespace DOptimas.Heuristics

open DOptimas.Support

variable {K : Type} [RealArith K] {α : Type} {w : World K}

theorem returns_deref {r : Ref} {s : Solution K} (h : w.solutions[r]? = some s) :
    Returns (deref r) w fun t w' => t = s ∧ w' = w :=
  ⟨s, w, deref_eq h, rfl, rfl⟩

theorem nth_eq {xs : List α} {i : ℕ} (h : i < xs.length) :
    (nth xs i : Program K α) w = .ok xs[i] w := by
  unfold nth
  rw [List.getElem?_eq_getElem h]
  rfl

theorem nextUniform_unit :
    (nextUniform 0 1 : Program K K) w =
      .ok (w.uniforms 0).value { w with uniforms := fun n => w.uniforms (n + 1) } := by
  unfold nextUniform
  rw [if_neg (not_le.2 zero_lt_one)]
  show EStateM.Result.ok (0 + (w.uniforms 0).value * (1 - 0)) _ = _
  rw [zero_add, sub_zero, mul_one]

theorem nextInt_eq {lower upper : ℤ} (h : lower ≤ upper) :
    (nextInt lower upper : Program K ℤ) w =
      .ok (lower + (w.choices 0 : ℤ) % (upper - lower + 1))
        { w with choices := fun n => w.choices (n + 1) } := by
  unfold nextInt
  rw [if_neg (by omega)]
  rfl

theorem returns_nonNull {x : Option α} {a : α} (h : x = some a) :
    Returns (nonNull x : Program K α) w fun b w' => b = a ∧ w' = w := by
  rw [h]
  exact .ret ⟨rfl, rfl⟩

theorem returns_nth {xs : List α} {i : ℕ} (h : i < xs.length) :
    Returns (nth xs i : Program K α) w fun a w' => a ∈ xs ∧ w' = w := by
  unfold nth
  rw [List.getElem?_eq_getElem h]
  exact .ret ⟨List.getElem_mem h, rfl⟩

theorem returns_nextChoice : Returns (nextChoice : Program K ℕ) w fun _ w' =>
    w'.solutions = w.solutions :=
  .changes rfl

theorem returns_nextInt {lower upper : ℤ} (h : lower ≤ upper) :
    Returns (nextInt lower upper : Program K ℤ) w fun i w' =>
      lower ≤ i ∧ i ≤ upper ∧ w'.solutions = w.solutions := by
  unfold nextInt
  rw [if_neg (by omega)]
  show Returns (nextChoice >>= fun c : ℕ =>
    (pure (lower + (c : ℤ) % (upper - lower + 1)) : Program K ℤ)) w _
  apply returns_nextChoice.bind
  intro c w' hw'
  have hnonneg := Int.emod_nonneg (c : ℤ) (show upper - lower + 1 ≠ 0 by omega)
  have hlt := Int.emod_lt_of_pos (c : ℤ) (show 0 < upper - lower + 1 by omega)
  exact .ret ⟨by omega, by omega, hw'⟩

theorem returns_pick {k : ℕ} {xs : List α} (h : k ≤ xs.length) :
    Returns (pick k xs : Program K (List α)) w fun ys w' =>
      ys.length = k ∧ (∀ y ∈ ys, y ∈ xs) ∧ w'.solutions = w.solutions := by
  induction k generalizing xs w with
  | zero => exact .ret ⟨rfl, by simp, rfl⟩
  | succ k ih =>
      unfold pick
      apply returns_nextChoice.bind
      intro c w₁ hw₁
      have hlt : c % xs.length < xs.length := Nat.mod_lt c (by omega)
      rw [List.getElem?_eq_getElem hlt]
      have hlength : k ≤ (xs.eraseIdx (c % xs.length)).length := by
        rw [List.length_eraseIdx_of_lt hlt]
        omega
      apply (ih hlength).bind
      rintro ys w₂ ⟨hys, hmem, hw₂⟩
      refine .ret ⟨by rw [List.length_cons, hys], ?_, hw₂.trans hw₁⟩
      intro y hy
      rcases List.mem_cons.1 hy with rfl | hy
      · exact List.getElem_mem hlt
      · exact List.mem_of_mem_eraseIdx (hmem y hy)

theorem returns_buildSolution (problem : Problem K) :
    Returns (buildSolution problem) w fun r w' => r = w.solutions.length ∧
      ∃ id, w'.solutions = w.solutions ++ [Solution.built problem id] :=
  ⟨_, _, rfl, ends_buildSolution problem _ _ rfl⟩

theorem returns_clone {r : Ref} {s : Solution K} (hs : w.solutions[r]? = some s) :
    Returns (clone r) w fun r' w' => r' = w.solutions.length ∧
      ∃ id, w'.solutions = w.solutions ++ [{ s with id, viable := false }] := by
  unfold clone
  apply Returns.after (deref_eq hs)
  exact ⟨_, _, rfl, rfl, _, rfl⟩

theorem set_last (xs : List α) (x y : α) : (xs ++ [x]).set xs.length y = xs ++ [y] := by
  rw [List.set_append_right _ _ (le_refl _), Nat.sub_self]
  rfl

theorem assign_eq {r : Ref} {s : Solution K} (hs : w.solutions[r]? = some s)
    (f : Solution K → Solution K) :
    assign r f w = .ok () { w with solutions := w.solutions.set r (f s) } := by
  rw [← modify_eq_set hs]
  rfl

theorem addElement_eq {r : Ref} {s : Solution K} (hs : w.solutions[r]? = some s)
    (hroom : s.solutionsVector.length < s.problem.dimension) (e : Element K) :
    addElement r e w = .ok ()
      { w with
        solutions := w.solutions.set r
          { s with solutionsVector := s.solutionsVector ++ [some e], changed := true } } := by
  unfold addElement
  rw [bind_of_ok (deref_eq hs), if_neg (by omega)]
  exact assign_eq hs _

theorem setElement_eq {r : Ref} {s : Solution K} (hs : w.solutions[r]? = some s) {i : ℕ}
    (hdimension : i < s.problem.dimension) (hi : i < s.solutionsVector.length) (e : Element K) :
    setElement r i e w = .ok ()
      { w with
        solutions := w.solutions.set r
          { s with solutionsVector := s.solutionsVector.set i (some e), changed := true } } := by
  unfold setElement
  rw [bind_of_ok (deref_eq hs), if_neg (by omega), if_neg (by omega)]
  exact assign_eq hs _

theorem returns_addElement {r : Ref} {s : Solution K} (hs : w.solutions[r]? = some s)
    (hroom : s.solutionsVector.length < s.problem.dimension) (e : Element K) :
    Returns (addElement r e) w fun _ w' => w'.solutions = w.solutions.set r
      { s with solutionsVector := s.solutionsVector ++ [some e], changed := true } :=
  ⟨_, _, addElement_eq hs hroom e, rfl⟩

theorem returns_adaptive {r : Ref} {s : Solution K} {e : Element K} {value : Option K}
    (hs : w.solutions[r]? = some s)
    (hvalue : ∀ calls,
      (s.problem.adaptiveFunctionValue calls s.solutionsVector e).outcome = .ok value) :
    Returns (adaptiveFunctionValue r e) w fun value' w' =>
      value' = value ∧ w'.solutions = w.solutions := by
  unfold adaptiveFunctionValue
  apply Returns.after (deref_eq hs)
  apply Returns.after (get_state w)
  unfold answered
  apply Returns.bind (Q := fun _ v => v.solutions = w.solutions) (.modifies rfl)
  intro _ w₁ hw₁
  rw [hvalue]
  exact .ret ⟨rfl, hw₁⟩

end DOptimas.Heuristics
