import DOptimas.Heuristics.BinaryPartition
import DOptimas.Support.Rational
import Mathlib.Tactic.Linarith
/-!
# The imbalance of a partition

The objective function compares the selected weights with all the weights instead
of with the others, so it gives the sum of the weights that are not selected.
-/

namespace DOptimas.Proofs.Imbalance

open DOptimas.Heuristics DOptimas.Heuristics.BinaryPartitionNumberProblem DOptimas.Support

def selectedSum : List ℤ → List Bool → ℤ
  | w :: ws, true :: bs => w + selectedSum ws bs
  | _ :: ws, false :: bs => selectedSum ws bs
  | _, _ => 0

def unselectedSum (ws : List ℤ) (bs : List Bool) : ℤ := selectedSum ws (bs.map (!·))

section Sums

variable {ws : List ℤ} {bs : List Bool}

theorem selected_add_unselected (h : bs.length = ws.length) :
    selectedSum ws bs + unselectedSum ws bs = ws.sum := by
  induction ws generalizing bs with
  | nil =>
      obtain rfl := List.length_eq_zero_iff.1 h
      rfl
  | cons w ws ih =>
      cases bs with
      | nil => cases h
      | cons b bs =>
          have hrest := @ih bs (by simpa using h)
          rw [List.sum_cons]
          unfold unselectedSum at hrest ⊢
          cases b with
          | true =>
              rw [List.map_cons, Bool.not_true, selectedSum, selectedSum]
              omega
          | false =>
              rw [List.map_cons, Bool.not_false, selectedSum, selectedSum]
              omega

theorem selectedSum_nonneg (h : ∀ w ∈ ws, 0 < w) (bs : List Bool) : 0 ≤ selectedSum ws bs := by
  induction ws generalizing bs with
  | nil =>
      cases bs with
      | nil => exact le_refl 0
      | cons b bs => exact le_refl 0
  | cons w ws ih =>
      have hw : 0 < w := h w List.mem_cons_self
      have hws : ∀ w ∈ ws, 0 < w := fun w hw => h w (List.mem_cons_of_mem _ hw)
      cases bs with
      | nil => exact le_refl 0
      | cons b bs =>
          have hrest := ih hws bs
          cases b with
          | true =>
              rw [selectedSum]
              omega
          | false => exact hrest

end Sums

theorem toInt32_eq {n : ℤ} (hlow : -2147483648 ≤ n) (hhigh : n ≤ 2147483647) : toInt32 n = n := by
  unfold toInt32
  exact Int.bmod_eq_of_le (by norm_num; omega) (by norm_num; omega)

variable {K : Type}

def vectorOf (chosen : List (ℕ × Bool)) : List (Option (Element K)) :=
  chosen.map fun e => some (.binaryPartitionNumber e.1 e.2)

section Loop

variable {p : BinaryPartitionNumberProblem}

/-- While the sums fit, the loop adds the selected weights. -/
theorem partition_eq {sum : ℤ} {i : ℕ} {chosen : List (ℕ × Bool)}
    (hpos : ∀ w ∈ p.weights, 0 < w) (hlength : chosen.length = (p.weights.drop i).length)
    (hsum : 0 ≤ sum) (hfits : sum + (p.weights.drop i).sum ≤ 2147483647) :
    p.partition sum i (vectorOf (K := K) chosen) =
      .ok (sum + selectedSum (p.weights.drop i) (chosen.map Prod.snd)) := by
  induction chosen generalizing sum i with
  | nil =>
      have hnil : p.weights.drop i = [] := List.length_eq_zero_iff.1 hlength.symm
      rw [hnil]
      exact congrArg Except.ok (add_zero sum).symm
  | cons e chosen ih =>
      have hlt : i < p.weights.length := by
        rw [List.length_cons, List.length_drop] at hlength
        omega
      have hdrop : p.weights.drop i = p.weights[i] :: p.weights.drop (i + 1) :=
        List.drop_eq_getElem_cons hlt
      have hw : 0 < p.weights[i] := hpos _ (List.getElem_mem hlt)
      have hrest : chosen.length = (p.weights.drop (i + 1)).length := by
        rw [hdrop, List.length_cons, List.length_cons] at hlength
        omega
      have htail : 0 ≤ (p.weights.drop (i + 1)).sum :=
        List.sum_nonneg fun w hw => (hpos w (List.mem_of_mem_drop hw)).le
      rw [hdrop, List.sum_cons] at hfits
      rw [hdrop, List.map_cons]
      obtain ⟨identity, present⟩ := e
      show p.partition sum i (some (.binaryPartitionNumber identity present) :: vectorOf chosen) = _
      cases present with
      | false =>
          rw [partition, isPresent, selectedSum]
          exact ih hrest hsum (by omega)
      | true =>
          have hint : toInt32 (sum + p.weights[i]) = sum + p.weights[i] :=
            toInt32_eq (by omega) (by omega)
          rw [partition, isPresent, selectedSum]
          dsimp only
          rw [List.getElem?_eq_getElem hlt]
          dsimp only
          rw [hint, ih hrest (by omega) (by omega), add_assoc]

theorem getWeightSum_eq (hpos : ∀ w ∈ p.weights, 0 < w) (hfits : p.weights.sum ≤ 2147483647) :
    p.getWeightSum = p.weights.sum := by
  have hfold : ∀ (ws : List ℤ) (sum : ℤ), (∀ w ∈ ws, 0 < w) → 0 ≤ sum →
      sum + ws.sum ≤ 2147483647 → ws.foldl (fun sum w => toInt32 (sum + w)) sum = sum + ws.sum := by
    intro ws
    induction ws with
    | nil =>
        intro sum _ _ _
        rw [List.foldl_nil, List.sum_nil, add_zero]
    | cons w ws ih =>
        intro sum hpos hsum hfits
        have hw : 0 < w := hpos w List.mem_cons_self
        have hws : ∀ w ∈ ws, 0 < w := fun w hw => hpos w (List.mem_cons_of_mem _ hw)
        have htail : 0 ≤ ws.sum := List.sum_nonneg fun w hw => (hws w hw).le
        rw [List.sum_cons] at hfits
        have hint : toInt32 (sum + w) = sum + w := toInt32_eq (by omega) (by omega)
        rw [List.foldl_cons, hint, ih (sum + w) hws (by omega) (by omega), List.sum_cons, add_assoc]
  unfold getWeightSum
  cases hweights : p.weights with
  | nil => rfl
  | cons w ws =>
      rw [hweights, List.sum_cons] at hfits
      have hw : 0 < w := hpos w (hweights ▸ List.mem_cons_self)
      have hws : ∀ v ∈ ws, 0 < v := fun v hv => hpos v (hweights ▸ List.mem_cons_of_mem _ hv)
      rw [List.sum_cons]
      exact hfold ws w hws hw.le hfits

/-- Weights and a selection for each, with sums that fit an `int`. -/
structure Full (p : BinaryPartitionNumberProblem) (chosen : List (ℕ × Bool)) : Prop where
  positive : ∀ w ∈ p.weights, 0 < w
  fits : p.weights.sum ≤ 2147483647
  dimension : p.dimension = p.weights.length
  length : chosen.length = p.weights.length

variable {chosen : List (ℕ × Bool)}

abbrev selectedOf (p : BinaryPartitionNumberProblem) (chosen : List (ℕ × Bool)) : ℤ :=
  selectedSum p.weights (chosen.map Prod.snd)

abbrev unselectedOf (p : BinaryPartitionNumberProblem) (chosen : List (ℕ × Bool)) : ℤ :=
  unselectedSum p.weights (chosen.map Prod.snd)

theorem Full.partition (h : Full p chosen) :
    p.partition 0 0 (vectorOf (K := K) chosen) = .ok (selectedOf p chosen) := by
  have hloop := @partition_eq K p 0 0 chosen h.positive h.length
    (le_refl 0) (by simpa using h.fits)
  rwa [List.drop_zero, zero_add] at hloop

theorem Full.sum (h : Full p chosen) :
    selectedOf p chosen + unselectedOf p chosen = p.weights.sum :=
  selected_add_unselected (by rw [List.length_map, h.length])

theorem Full.objectiveFunction (h : Full p chosen) :
    p.objectiveFunction (vectorOf (K := K) chosen) = .ok (unselectedOf p chosen) := by
  have hsum := h.sum
  have hselected : 0 ≤ selectedOf p chosen := selectedSum_nonneg h.positive _
  have hunselected : 0 ≤ unselectedOf p chosen := selectedSum_nonneg h.positive _
  have hfits := h.fits
  unfold BinaryPartitionNumberProblem.objectiveFunction
  rw [h.partition, getWeightSum_eq h.positive h.fits]
  show Except.ok (absInt32 (toInt32 (selectedOf p chosen - p.weights.sum))) = _
  rw [toInt32_eq (by omega) (by omega), absInt32]
  split
  · rw [toInt32_eq (by omega) (by omega)]
    exact congrArg Except.ok (by omega)
  · exact congrArg Except.ok (by omega)

theorem Full.adaptiveFunctionValue {front : List (ℕ × Bool)} {identity : ℕ} {present : Bool}
    (h : Full p (front ++ [(identity, present)])) :
    p.adaptiveFunctionValue (vectorOf (K := K) front) (.binaryPartitionNumber identity present) =
      .ok (some (unselectedOf p (front ++ [(identity, present)]))) := by
  have hsum := h.sum
  have hselected : 0 ≤ selectedOf p (front ++ [(identity, present)]) :=
    selectedSum_nonneg h.positive _
  have hunselected : 0 ≤ unselectedOf p (front ++ [(identity, present)]) :=
    selectedSum_nonneg h.positive _
  have hfits := h.fits
  have hroom : (vectorOf (K := K) front).length ≠ p.dimension := by
    have hlength := h.length
    rw [List.length_append, List.length_singleton] at hlength
    rw [vectorOf, List.length_map, h.dimension]
    omega
  have hvector : vectorOf (K := K) front ++ [some (.binaryPartitionNumber identity present)] =
      vectorOf (front ++ [(identity, present)]) := by
    unfold vectorOf
    rw [List.map_append]
    rfl
  unfold BinaryPartitionNumberProblem.adaptiveFunctionValue
  rw [if_neg hroom, hvector, h.partition, getWeightSum_eq h.positive h.fits]
  show Except.ok (some (absInt32 (toInt32 (p.weights.sum -
    selectedOf p (front ++ [(identity, present)]))))) = _
  rw [toInt32_eq (by omega) (by omega), absInt32, if_neg (by omega)]
  exact congrArg (fun n => Except.ok (some n)) (by omega)

def complement (chosen : List (ℕ × Bool)) : List (ℕ × Bool) := chosen.map fun e => (e.1, !e.2)

theorem map_complement (chosen : List (ℕ × Bool)) :
    (complement chosen).map Prod.snd = (chosen.map Prod.snd).map (!·) := by
  unfold complement
  rw [List.map_map, List.map_map]
  rfl

theorem Full.complement (h : Full p chosen) : Full p (complement chosen) where
  positive := h.positive
  fits := h.fits
  dimension := h.dimension
  length := by rw [Imbalance.complement, List.length_map, h.length]

theorem unselectedOf_complement (p : BinaryPartitionNumberProblem) (chosen : List (ℕ × Bool)) :
    unselectedOf p (Imbalance.complement chosen) = selectedOf p chosen := by
  have hnot : ((chosen.map Prod.snd).map (!·)).map (!·) = chosen.map Prod.snd := by
    rw [List.map_map]
    exact (List.map_congr_left fun b _ => Bool.not_not b).trans (List.map_id _)
  unfold unselectedOf unselectedSum selectedOf
  rw [map_complement, hnot]

/-- The objective is the imbalance where nothing is selected, or twice as much as not; it
agrees with that of the complement on balanced partitions only, and is zero where
everything is selected.  The adaptive value agrees with it on every last element. -/
theorem objective_imbalance_iff (K : Type) (h : Full p chosen) :
    (p.objectiveFunction (vectorOf (K := K) chosen) =
        .ok |selectedOf p chosen - unselectedOf p chosen| ↔
      selectedOf p chosen = 0 ∨ selectedOf p chosen = 2 * unselectedOf p chosen) ∧
    (p.objectiveFunction (vectorOf (K := K) (Imbalance.complement chosen)) =
        p.objectiveFunction (vectorOf (K := K) chosen) ↔
      selectedOf p chosen = unselectedOf p chosen) ∧
    ((p.objectiveFunction (vectorOf (K := K) chosen) = .ok 0 ↔
        selectedOf p chosen = unselectedOf p chosen) ↔
      p.weights = [] ∨
        unselectedOf p chosen ≠ 0 ∧ selectedOf p chosen ≠ unselectedOf p chosen) ∧
    ∀ (front : List (ℕ × Bool)) (identity : ℕ) (present : Bool),
      chosen = front ++ [(identity, present)] →
      p.adaptiveFunctionValue (vectorOf (K := K) front) (.binaryPartitionNumber identity present) =
        (p.objectiveFunction (vectorOf (K := K) chosen)).map some := by
  have hselected : 0 ≤ selectedOf p chosen := selectedSum_nonneg h.positive _
  have hunselected : 0 ≤ unselectedOf p chosen := selectedSum_nonneg h.positive _
  have hsum := h.sum
  rw [h.complement.objectiveFunction, h.objectiveFunction, unselectedOf_complement,
    Except.ok.injEq, Except.ok.injEq, Except.ok.injEq]
  refine ⟨?_, Iff.rfl, ?_, ?_⟩
  · constructor
    · intro heq
      rcases abs_choice (selectedOf p chosen - unselectedOf p chosen) with habs | habs
      · rw [habs] at heq
        omega
      · rw [habs] at heq
        omega
    · rintro (hzero | htwice)
      · rw [hzero, zero_sub, abs_neg, abs_of_nonneg hunselected]
      · rw [htwice, two_mul, add_sub_cancel_right, abs_of_nonneg hunselected]
  · have hempty : p.weights = [] ↔ p.weights.sum = 0 := by
      constructor
      · intro hnil
        rw [hnil]
        rfl
      · intro hzero
        by_contra hne
        exact absurd hzero (List.sum_pos p.weights h.positive hne).ne'
    rw [hempty, ← hsum]
    constructor
    · intro hiff
      by_cases hzero : unselectedOf p chosen = 0
      · have hbalanced := hiff.1 hzero
        exact Or.inl (by omega)
      · exact Or.inr ⟨hzero, fun hbalanced => hzero (hiff.2 hbalanced)⟩
    · rintro (hzero | ⟨hsome, hunbalanced⟩)
      · constructor
        · intro _
          omega
        · intro _
          omega
      · exact ⟨fun hzero => absurd hzero hsome, fun hbalanced => absurd hbalanced hunbalanced⟩
  · rintro front identity present rfl
    rw [h.adaptiveFunctionValue]
    rfl

end Loop

section Example

/-- Three weights of which the last two balance the first. -/
def scale : BinaryPartitionNumberProblem :=
  { id := 0, max := false, dimension := 3, partitions := 2, weights := [3, 1, 2], upperLimit := 6 }

theorem full_scale (first second third : Bool) :
    Full scale [(0, first), (1, second), (2, third)] :=
  ⟨by decide, by decide, rfl, rfl⟩

/-- Twice as much is selected as not, and the last element is valued alike. -/
theorem objective_imbalance_iff_example :
    scale.objectiveFunction (vectorOf (K := ℚ) [(0, true), (1, true), (2, false)]) = .ok 2 ∧
      scale.adaptiveFunctionValue (vectorOf (K := ℚ) [(0, true), (1, true)])
        (.binaryPartitionNumber 2 false) = .ok (some 2) := by
  obtain ⟨himbalance, -, -, hadaptive⟩ := objective_imbalance_iff ℚ (full_scale true true false)
  have hvalue := himbalance.2 (Or.inr rfl)
  have hlast := hadaptive [(0, true), (1, true)] 2 false rfl
  rw [hvalue] at hlast
  exact ⟨hvalue, hlast⟩

/-- The balanced partition has the objective three, and so do others. -/
theorem balanced_is_not_zero :
    selectedOf scale [(0, true), (1, false), (2, false)] =
        unselectedOf scale [(0, true), (1, false), (2, false)] ∧
      scale.objectiveFunction (vectorOf (K := ℚ) [(0, true), (1, false), (2, false)]) = .ok 3 ∧
      scale.objectiveFunction (vectorOf (K := ℚ) [(0, true), (1, true), (2, true)]) = .ok 0 := by
  decide +kernel

end Example

end DOptimas.Proofs.Imbalance
