import DOptimas.Heuristics.RouteMotions
import DOptimas.Heuristics.Returning
import DOptimas.Support.Rational
import Mathlib.Data.List.ReduceOption
/-!
# Inserting into a vector

The guard of `addElement` asks for an empty slot anywhere, and the body drops the
last slot.  Nothing is lost exactly where the last slot is empty and the new
element is not put behind it; removing with a shift leaves the vector that way.
-/

namespace DOptimas.Proofs.SlotInsertion

open DOptimas.Heuristics DOptimas.Support

section Slots

variable {α : Type} {xs : List (Option α)} {x : α}

/-- The slots hold the elements from before in their order, with one more among them. -/
structure Inserted (before after : List (Option α)) (value : α) : Prop where
  size : after.length = before.length
  elements : ∃ left right, before.reduceOption = left ++ right ∧
    after.reduceOption = left ++ value :: right

theorem insertIdx_eq {β : Type} {ys : List β} {i : ℕ} (h : i ≤ ys.length) (y : β) :
    ys.insertIdx i y = ys.take i ++ y :: ys.drop i := by
  induction ys generalizing i with
  | nil =>
      obtain rfl : i = 0 := by simpa using h
      rfl
  | cons z ys ih =>
      cases i with
      | zero => rfl
      | succ i =>
          have hi : i ≤ ys.length := by simpa using h
          rw [List.insertIdx_succ_cons, ih hi, List.take_succ_cons, List.drop_succ_cons,
            List.cons_append]

theorem dropLast_insertIdx {β : Type} {front : List β} {i : ℕ} (h : i ≤ front.length) (last y : β) :
    ((front ++ [last]).insertIdx i y).dropLast = front.insertIdx i y := by
  have hi : i ≤ (front ++ [last]).length := by
    rw [List.length_append]
    omega
  rw [insertIdx_eq hi, insertIdx_eq h, List.take_append_of_le_length h,
    List.drop_append_of_le_length h, ← List.cons_append, ← List.append_assoc,
    List.dropLast_concat]

theorem dropLast_insertIdx_length {β : Type} (ys : List β) (y : β) :
    (ys.insertIdx ys.length y).dropLast = ys := by
  rw [List.insertIdx_length_self, List.dropLast_concat]

theorem inserted_front {front : List (Option α)} {i : ℕ} (h : i ≤ front.length) (x : α) :
    Inserted (front ++ [none]) (front.insertIdx i (some x)) x where
  size := by rw [List.length_insertIdx_of_le_length h, List.length_append, List.length_singleton]
  elements := by
    refine ⟨(front.take i).reduceOption, (front.drop i).reduceOption, ?_, ?_⟩
    · rw [← List.reduceOption_append, List.take_append_drop, List.reduceOption_append]
      exact List.append_nil _
    · rw [insertIdx_eq h, List.reduceOption_append, List.reduceOption_cons_of_some]

theorem Inserted.length {before after : List (Option α)} (h : Inserted before after x) :
    after.reduceOption.length = before.reduceOption.length + 1 := by
  obtain ⟨left, right, hbefore, hafter⟩ := h.elements
  rw [hbefore, hafter, List.length_append, List.length_append, List.length_cons]
  omega

/-- Nothing is lost: exactly where the last slot is empty and stays behind the element. -/
theorem inserted_iff {i : ℕ} (hnull : none ∈ xs) (hi : i ≤ xs.length) :
    Inserted xs ((xs.insertIdx i (some x)).dropLast) x ↔
      i < xs.length ∧ xs.getLast? = some none := by
  obtain hnil | ⟨front, last, rfl⟩ := List.eq_nil_or_concat' xs
  · rw [hnil] at hnull
    exact absurd hnull List.not_mem_nil
  rw [List.length_append, List.length_singleton] at hi ⊢
  rw [List.getLast?_concat, Option.some_inj]
  by_cases hlt : i < front.length + 1
  · rw [dropLast_insertIdx (by omega)]
    constructor
    · intro h
      refine ⟨hlt, ?_⟩
      cases last with
      | none => rfl
      | some y =>
          have hlength := h.length
          rw [insertIdx_eq (by omega), List.reduceOption_append, List.reduceOption_cons_of_some,
            List.length_append, List.length_cons] at hlength
          have hsplit : front.reduceOption.length =
              (front.take i).reduceOption.length + (front.drop i).reduceOption.length := by
            rw [← List.length_append, ← List.reduceOption_append, List.take_append_drop]
          rw [List.reduceOption_append, List.length_append, List.reduceOption_singleton] at hlength
          simp only [Option.toList_some, List.length_singleton] at hlength
          omega
    · rintro ⟨-, rfl⟩
      exact inserted_front (by omega) x
  · have hend : i = (front ++ [last]).length := by
      rw [List.length_append, List.length_singleton]
      omega
    rw [hend, dropLast_insertIdx_length]
    constructor
    · intro h
      have hlength := h.length
      omega
    · rintro ⟨hlt', -⟩
      rw [List.length_append, List.length_singleton] at hlt'
      omega

theorem changed_perm {β : Type} {ys : List (Option β)} {i j : ℕ} (hi : i < ys.length)
    (hj : j < ys.length) :
    (((ys.eraseIdx i ++ [none]).insertIdx j ys[i]).dropLast).Perm ys := by
  have hlength : (ys.eraseIdx i).length = ys.length - 1 := List.length_eraseIdx_of_lt hi
  rw [dropLast_insertIdx (by omega)]
  have hinsert := List.perm_insertIdx ys[i] (ys.eraseIdx i) (show j ≤ _ by omega)
  exact hinsert.trans (List.getElem_cons_eraseIdx_perm hi)

end Slots

section Programs

variable {K : Type} [RealArith K] {w : World K} {r : Ref} {s : Solution K}

theorem natural_eq (i : ℕ) : (natural i : Program K ℕ) w = .ok i w := rfl

theorem returns_addElementAt (hs : w.solutions[r]? = some s) (hnull : none ∈ s.solutionsVector)
    {i : ℕ} (hi : i ≤ s.solutionsVector.length) (value : Option (Element K)) :
    Returns (addElementAt r i value) w fun _ w' => w'.solutions = w.solutions.set r
      { s with
        solutionsVector := (s.solutionsVector.insertIdx i value).dropLast
        changed := true } := by
  have hcount : s.solutionsVector.countP Option.isNone ≠ 0 := by
    intro hzero
    exact List.countP_eq_zero.1 hzero none hnull rfl
  unfold addElementAt
  apply (returns_deref hs).bind
  rintro _ _ ⟨rfl, rfl⟩
  rw [if_neg hcount, if_neg (by omega)]
  exact .modifies (modify_eq_set hs _)

/-- On a full vector `addElement` throws at once. -/
theorem addElementAt_full (hs : w.solutions[r]? = some s) (hfull : none ∉ s.solutionsVector)
    (i : ℕ) (value : Option (Element K)) :
    addElementAt r i value w = .error .illegalState w := by
  have hcount : s.solutionsVector.countP Option.isNone = 0 := by
    rw [List.countP_eq_zero]
    intro e he hnone
    rw [Option.isNone_iff_eq_none] at hnone
    exact hfull (hnone ▸ he)
  unfold addElementAt
  rw [bind_of_ok (deref_eq hs)]
  dsimp only
  rw [if_pos hcount]
  rfl

theorem returns_removeElementShifting (hs : w.solutions[r]? = some s) {i : ℕ}
    (hi : i < s.solutionsVector.length) (hdimension : i < s.problem.dimension) :
    Returns (removeElementShifting r i) w fun _ w' => w'.solutions = w.solutions.set r
      { s with solutionsVector := s.solutionsVector.eraseIdx i ++ [none], changed := true } := by
  unfold removeElementShifting
  apply (returns_deref hs).bind
  rintro _ _ ⟨rfl, rfl⟩
  rw [if_neg (by omega), if_neg (by omega)]
  exact .modifies (modify_eq_set hs _)

theorem returns_change (hs : w.solutions[r]? = some s) {i j : ℕ}
    (hi : i < s.solutionsVector.length) (hj : j < s.solutionsVector.length)
    (hdimension : i < s.problem.dimension) :
    Returns (VRTWChangePerformsMotion.movement r (some [(i : ℤ), (j : ℤ)])) w fun moved w' =>
      ∃ s', w'.solutions = w.solutions ++ [s'] ∧ moved = w.solutions.length ∧
        s'.solutionsVector.Perm s.solutionsVector := by
  unfold VRTWChangePerformsMotion.movement
  apply Returns.after (deref_eq hs)
  apply Returns.after (natural_eq i)
  apply Returns.after (nth_eq hi)
  apply (returns_clone hs).bind
  rintro moved w₁ ⟨rfl, id, hw₁⟩
  have hmoved : w₁.solutions[w.solutions.length]? = some { s with id, viable := false } := by
    rw [hw₁, List.getElem?_concat_length]
  apply Returns.after (natural_eq i)
  apply (returns_removeElementShifting hmoved hi hdimension).bind
  rintro _ w₂ hw₂
  rw [hw₁, set_last] at hw₂
  have hshifted := congrArg (fun solutions => solutions[w.solutions.length]?) hw₂
  dsimp only at hshifted
  rw [List.getElem?_concat_length] at hshifted
  have hroom : j ≤ (s.solutionsVector.eraseIdx i ++ [none]).length := by
    rw [List.length_append, List.length_eraseIdx_of_lt hi, List.length_singleton]
    omega
  apply Returns.after (natural_eq j)
  apply (returns_addElementAt hshifted (by simp) hroom s.solutionsVector[i]).bind
  rintro _ w₃ hw₃
  rw [hw₂, set_last] at hw₃
  exact .ret ⟨_, hw₃, rfl, changed_perm hi hj⟩

/-- With an empty slot, inserting returns with a vector of the same size, and nothing is
lost exactly if the last slot was empty and the element does not go behind it.  Without an
empty slot it throws at once.  A change motion always rearranges a clone. -/
theorem addElement_keeps_iff (hs : w.solutions[r]? = some s) :
    (∀ (i : ℕ) (value : Element K), none ∈ s.solutionsVector → i ≤ s.solutionsVector.length →
      ∃ w' s', addElementAt r i (some value) w = .ok () w' ∧ w'.solutions[r]? = some s' ∧
        s'.solutionsVector.length = s.solutionsVector.length ∧
        (Inserted s.solutionsVector s'.solutionsVector value ↔
          i < s.solutionsVector.length ∧ s.solutionsVector.getLast? = some none)) ∧
    (∀ (i : ℕ) (value : Element K), none ∉ s.solutionsVector →
      addElementAt r i (some value) w = .error .illegalState w) ∧
    ∀ i j : ℕ, i < s.solutionsVector.length → j < s.solutionsVector.length →
      i < s.problem.dimension →
      ∃ moved w' s', VRTWChangePerformsMotion.movement r (some [(i : ℤ), (j : ℤ)]) w =
          .ok moved w' ∧ w'.solutions[moved]? = some s' ∧
        s'.solutionsVector.Perm s.solutionsVector ∧
        ∀ t < w.solutions.length, w'.solutions[t]? = w.solutions[t]? := by
  refine ⟨fun i value hnull hi => ?_, fun i value hfull => ?_, fun i j hi hj hdimension => ?_⟩
  · obtain ⟨_, w', hrun, hw'⟩ := returns_addElementAt hs hnull hi (some value)
    have hlt : r < w.solutions.length := (List.getElem?_eq_some_iff.1 hs).1
    refine ⟨w', _, hrun, by rw [hw', List.getElem?_set_self hlt], ?_, inserted_iff hnull hi⟩
    dsimp only
    rw [List.length_dropLast, List.length_insertIdx_of_le_length hi, Nat.add_sub_cancel]
  · exact addElementAt_full hs hfull i (some value)
  · obtain ⟨moved, w', hrun, s', hw', rfl, hperm⟩ := returns_change hs hi hj hdimension
    refine ⟨_, w', s', hrun, ?_, hperm, fun t ht => ?_⟩
    · rw [hw', List.getElem?_concat_length]
    · rw [hw', List.getElem?_append_left ht]

end Programs

section Example

def trip : Problem ℚ :=
  { id := 0, name := .vehicleRoutingTimeWindow, dimension := 2, nullInit := false
    analyser := .vehicleRoutingTimeWindow, max := false, initialValue := 0
    parsedInitialValue := .ok 0, domain := fun _ => .error .classCast
    objectiveFunction := fun _ _ => ⟨0, .ok 0⟩
    checkViability := fun _ => (true, .ok ())
    adaptiveFunctionValue := fun _ _ _ => ⟨0, .ok none⟩ }

def removed : Solution ℚ :=
  { id := 0, problem := trip, solutionsVector := [none, some (.vehicleRoutingTimeWindow 2)]
    functionValue := some 0, viable := false, changed := true }

def removedWorld : World ℚ :=
  { solutions := [removed], nextId := 1, nextIdentity := 0, evaluations := 0, invocations := 0
    bestSolution := none, uniforms := fun _ => .zero, choices := fun n => n, clock := fun _ => 0 }

/-- The change motion on the two slots. -/
theorem addElement_keeps_iff_example :
    ∃ moved w' s', VRTWChangePerformsMotion.movement 0 (some [((1 : ℕ) : ℤ), ((0 : ℕ) : ℤ)])
        removedWorld = .ok moved w' ∧ w'.solutions[moved]? = some s' ∧
      s'.solutionsVector.Perm [none, some (.vehicleRoutingTimeWindow 2)] := by
  have hkeeps := addElement_keeps_iff (w := removedWorld) (r := 0) (s := removed) rfl
  obtain ⟨moved, w', s', hrun, hs', hperm, -⟩ :=
    hkeeps.2.2 1 0 (by decide) (by decide) (by decide)
  exact ⟨moved, w', s', hrun, hs', hperm⟩

/-- In front of an empty slot that is not the last, the last city is lost. -/
theorem addElement_loses :
    ∃ w' s', addElementAt 0 0 (some (.vehicleRoutingTimeWindow 1)) removedWorld = .ok () w' ∧
      w'.solutions[0]? = some s' ∧
      s'.solutionsVector = [some (.vehicleRoutingTimeWindow 1), none] ∧
      ¬Inserted removed.solutionsVector s'.solutionsVector (.vehicleRoutingTimeWindow 1) := by
  refine ⟨_, _, rfl, rfl, rfl, fun h => ?_⟩
  have hlength := h.length
  exact absurd hlength (by decide)

end Example

end DOptimas.Proofs.SlotInsertion
