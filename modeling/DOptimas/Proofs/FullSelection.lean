import DOptimas.Heuristics.PartitionMotions
import DOptimas.Proofs.Imbalance
import DOptimas.Proofs.RouteConstruction
import DOptimas.Proofs.DifferentialEvolution
/-!
# GRASP on number partitioning

An element that selects has a smaller adaptive value than one that does not, and all
elements of a kind have the same one.  Below one, the greediness lets only selecting
elements through, so that every construction selects all weights.  That has the value
zero, but it is no partition.
-/

namespace DOptimas.Proofs.FullSelection

open DOptimas.Support DOptimas.Heuristics
open DOptimas.Core (SolutionAnalyser)
open DOptimas.Heuristics.BinaryPartitionNumberProblem (isPresent newElement)
open DOptimas.Proofs.Imbalance (toInt32_eq getWeightSum_eq)
open DOptimas.Proofs.RouteConstruction (begins construcao_eq)

/-- A positive weight for each position, with sums that fit an `int`. -/
structure Weighed (p : BinaryPartitionNumberProblem) : Prop where
  positive : ∀ w ∈ p.weights, 0 < w
  fits : p.weights.sum ≤ 2147483647
  dimension : p.dimension = p.weights.length
  nonempty : 1 ≤ p.dimension

/-! ## Sums -/

section Sums

variable {K : Type} {p : BinaryPartitionNumberProblem}

def unselected (p : BinaryPartitionNumberProblem) (n : ℕ) : ℤ :=
  p.weights.sum - (p.weights.take n).sum

theorem sum_drop_nonneg (h : Weighed p) (i : ℕ) : 0 ≤ (p.weights.drop i).sum := by
  apply List.sum_nonneg
  intro w hw
  exact (h.positive w (List.mem_of_mem_drop hw)).le

theorem unselected_eq (p : BinaryPartitionNumberProblem) (n : ℕ) :
    unselected p n = (p.weights.drop n).sum := by
  have hsplit := congrArg List.sum (List.take_append_drop n p.weights)
  rw [List.sum_append] at hsplit
  unfold unselected
  omega

theorem unselected_bounds (h : Weighed p) (n : ℕ) :
    0 ≤ unselected p n ∧ unselected p n ≤ 2147483647 := by
  have htake : 0 ≤ (p.weights.take n).sum := by
    apply List.sum_nonneg
    intro w hw
    exact (h.positive w (List.mem_of_mem_take hw)).le
  have hdrop := sum_drop_nonneg h n
  have hfits := h.fits
  rw [← unselected_eq] at hdrop
  unfold unselected at hdrop ⊢
  omega

theorem unselected_succ_lt (h : Weighed p) {n : ℕ} (hn : n < p.dimension) :
    unselected p (n + 1) < unselected p n := by
  have hlt : n < p.weights.length := by
    rw [← h.dimension]
    exact hn
  have hw : 0 < p.weights[n] := h.positive _ (List.getElem_mem hlt)
  unfold unselected
  rw [List.sum_take_succ p.weights n hlt]
  omega

theorem unselected_dimension (h : Weighed p) : unselected p p.dimension = 0 := by
  unfold unselected
  rw [h.dimension, List.take_length, sub_self]

/-- The loop gives a sum of weights from position `i` on, whatever the vector. -/
theorem partition_bounds (h : Weighed p) {sum result : ℤ} {i : ℕ}
    {vector : List (Option (Element K))} (hsum : 0 ≤ sum)
    (hfits : sum + (p.weights.drop i).sum ≤ 2147483647)
    (hpartition : p.partition sum i vector = .ok result) :
    sum ≤ result ∧ result ≤ sum + (p.weights.drop i).sum := by
  induction vector generalizing sum i with
  | nil =>
      have hrest := sum_drop_nonneg h i
      cases hpartition
      omega
  | cons e vector ih =>
      have hrest := sum_drop_nonneg h (i + 1)
      rw [BinaryPartitionNumberProblem.partition] at hpartition
      cases hpresent : isPresent e with
      | error _ =>
          rw [hpresent] at hpartition
          cases hpartition
      | ok present =>
          rw [hpresent] at hpartition
          have htail : (p.weights.drop (i + 1)).sum ≤ (p.weights.drop i).sum := by
            by_cases hlt : i < p.weights.length
            · have hw : 0 < p.weights[i] := h.positive _ (List.getElem_mem hlt)
              rw [List.drop_eq_getElem_cons hlt, List.sum_cons]
              omega
            · rw [List.drop_of_length_le (by omega), List.drop_of_length_le (by omega)]
          cases present with
          | false =>
              have hbounds := ih hsum (by omega) hpartition
              omega
          | true =>
              dsimp only at hpartition
              cases hweight : p.weights[i]? with
              | none =>
                  rw [hweight] at hpartition
                  cases hpartition
              | some w =>
                  rw [hweight] at hpartition
                  obtain ⟨hlt, rfl⟩ := List.getElem?_eq_some_iff.1 hweight
                  have hw : 0 < p.weights[i] := h.positive _ (List.getElem_mem hlt)
                  rw [List.drop_eq_getElem_cons hlt, List.sum_cons] at hfits ⊢
                  dsimp only at hpartition
                  rw [toInt32_eq (by omega) (by omega)] at hpartition
                  have hbounds := ih (by omega) (by omega) hpartition
                  omega

/-- No vector has a value below zero. -/
theorem objectiveFunction_nonneg (h : Weighed p) {vector : List (Option (Element K))} {value : ℤ}
    (hvalue : p.objectiveFunction vector = .ok value) : 0 ≤ value := by
  have hfits := h.fits
  unfold BinaryPartitionNumberProblem.objectiveFunction at hvalue
  cases hpartition : p.partition 0 0 vector with
  | error _ =>
      rw [hpartition] at hvalue
      cases hvalue
  | ok result =>
      rw [hpartition] at hvalue
      have hbounds := partition_bounds h (le_refl 0) (by simpa using h.fits) hpartition
      rw [List.drop_zero, zero_add] at hbounds
      rw [getWeightSum_eq h.positive h.fits] at hvalue
      cases hvalue
      rw [toInt32_eq (by omega) (by omega)]
      unfold absInt32
      split
      · rw [toInt32_eq (by omega) (by omega)]
        omega
      · omega

def selected (identities : List ℕ) : List (Option (Element K)) :=
  identities.map fun identity => some (.binaryPartitionNumber identity true)

theorem length_selected (identities : List ℕ) :
    (selected (K := K) identities).length = identities.length := List.length_map _

theorem partition_selected (h : Weighed p) {sum : ℤ} {i : ℕ} {identities : List ℕ}
    (rest : List (Option (Element K))) (hsum : 0 ≤ sum)
    (hfits : sum + (p.weights.drop i).sum ≤ 2147483647)
    (hlength : i + identities.length ≤ p.weights.length) :
    p.partition sum i (selected identities ++ rest) =
      p.partition (sum + ((p.weights.drop i).take identities.length).sum)
        (i + identities.length) rest := by
  induction identities generalizing sum i with
  | nil => simp [selected]
  | cons identity identities ih =>
      rw [List.length_cons] at hlength
      have hlt : i < p.weights.length := by omega
      have hw : 0 < p.weights[i] := h.positive _ (List.getElem_mem hlt)
      have hrest := sum_drop_nonneg h (i + 1)
      rw [List.drop_eq_getElem_cons hlt, List.sum_cons] at hfits
      show p.partition sum i
        (some (.binaryPartitionNumber identity true) :: (selected identities ++ rest)) = _
      rw [BinaryPartitionNumberProblem.partition, isPresent]
      dsimp only
      rw [List.getElem?_eq_getElem hlt]
      dsimp only
      rw [toInt32_eq (by omega) (by omega), ih (by omega) (by omega) (by omega),
        List.drop_eq_getElem_cons hlt, List.length_cons, List.take_succ_cons, List.sum_cons,
        add_assoc, Nat.add_assoc, Nat.add_comm 1]

theorem partition_front (h : Weighed p) {identities : List ℕ}
    (rest : List (Option (Element K))) (hlength : identities.length ≤ p.dimension) :
    p.partition 0 0 (selected identities ++ rest) =
      p.partition (p.weights.sum - unselected p identities.length) identities.length rest := by
  rw [h.dimension] at hlength
  have hfits := h.fits
  have hfront := @partition_selected K p h 0 0 identities rest (le_refl 0)
    (by rwa [List.drop_zero, zero_add]) (by omega)
  rw [hfront, List.drop_zero, zero_add, zero_add, unselected, sub_sub_cancel]

theorem distance_eq (h : Weighed p) (n : ℕ) :
    absInt32 (toInt32 (p.getWeightSum - (p.weights.sum - unselected p n))) = unselected p n ∧
      absInt32 (toInt32 (p.weights.sum - unselected p n - p.getWeightSum)) = unselected p n := by
  have hbounds := unselected_bounds h n
  rw [getWeightSum_eq h.positive h.fits, sub_sub_cancel, sub_sub_cancel_left,
    toInt32_eq (by omega) (by omega), toInt32_eq (by omega) (by omega)]
  unfold absInt32
  constructor
  · rw [if_neg (by omega)]
  · split
    · rw [neg_neg, toInt32_eq (by omega) (by omega)]
    · omega

theorem adaptiveFunctionValue_selected (h : Weighed p) {identities : List ℕ}
    (hlength : identities.length < p.dimension) (identity : ℕ) (present : Bool) :
    p.adaptiveFunctionValue (selected (K := K) identities)
        (.binaryPartitionNumber identity present) =
      .ok (some (unselected p (if present then identities.length + 1 else identities.length))) := by
  have hlt : identities.length < p.weights.length := by
    rw [← h.dimension]
    exact hlength
  unfold BinaryPartitionNumberProblem.adaptiveFunctionValue
  rw [length_selected, if_neg (by omega), partition_front h _ hlength.le]
  cases present with
  | false =>
      show Except.ok (some _) = _
      rw [(distance_eq h identities.length).1]
      rfl
  | true =>
      have hbounds := unselected_bounds h (identities.length + 1)
      have hsum : p.weights.sum - unselected p identities.length + p.weights[identities.length] =
          p.weights.sum - unselected p (identities.length + 1) := by
        unfold unselected
        rw [List.sum_take_succ p.weights identities.length hlt]
        omega
      have hfits := h.fits
      rw [BinaryPartitionNumberProblem.partition, isPresent]
      dsimp only
      rw [List.getElem?_eq_getElem hlt]
      dsimp only
      have htake : 0 ≤ p.weights.sum - unselected p (identities.length + 1) := by
        unfold unselected
        rw [sub_sub_cancel]
        apply List.sum_nonneg
        intro w hw
        exact (h.positive w (List.mem_of_mem_take hw)).le
      rw [hsum, toInt32_eq (by omega) (by omega)]
      show Except.ok (some _) = _
      rw [(distance_eq h (identities.length + 1)).1]
      rfl

theorem adaptiveFunctionValue_full {identities : List ℕ}
    (hlength : identities.length = p.dimension) (e : Element K) :
    p.adaptiveFunctionValue (selected identities) e = .ok none := by
  unfold BinaryPartitionNumberProblem.adaptiveFunctionValue
  rw [length_selected, if_pos hlength]
  rfl

theorem objectiveFunction_full (h : Weighed p) {identities : List ℕ}
    (hlength : identities.length = p.dimension) :
    p.objectiveFunction (selected (K := K) identities) = .ok 0 := by
  have hfront := partition_front h ([] : List (Option (Element K))) hlength.le
  rw [List.append_nil] at hfront
  unfold BinaryPartitionNumberProblem.objectiveFunction
  rw [hfront, BinaryPartitionNumberProblem.partition]
  show Except.ok _ = _
  rw [(distance_eq h identities.length).2, hlength, unselected_dimension h]

theorem checkViability_selected (identities : List ℕ) :
    BinaryPartitionNumberProblem.checkViability (selected (K := K) identities) =
      (false, .ok ()) := by
  have hpresent : (selected (K := K) identities).mapM isPresent =
      .ok (List.replicate identities.length true) := by
    induction identities with
    | nil => rfl
    | cons identity identities ih =>
        show (some (.binaryPartitionNumber identity true) ::
          selected (K := K) identities).mapM isPresent = _
        rw [List.mapM_cons, ih]
        rfl
  unfold BinaryPartitionNumberProblem.checkViability
  rw [hpresent, length_selected]
  simp

end Sums

/-! ## Restricted candidates -/

section Restricted

variable {K : Type} [RealArith K] {p : BinaryPartitionNumberProblem}

def isChosen : Element K → Bool
  | .binaryPartitionNumber _ present => present
  | _ => false

def Dealt (e : Element K) : Prop := ∃ identity present, e = .binaryPartitionNumber identity present

def adaptiveValue (p : BinaryPartitionNumberProblem) (n : ℕ) (e : Element K) : K :=
  ((unselected p (if isChosen e then n + 1 else n) : ℤ) : K)

theorem adaptiveValue_of_chosen {n : ℕ} {e : Element K} (he : isChosen e = true) :
    adaptiveValue p n e = ((unselected p (n + 1) : ℤ) : K) := by
  rw [adaptiveValue, if_pos he]

theorem adaptiveValue_of_not_chosen {n : ℕ} {e : Element K} (he : isChosen e = false) :
    adaptiveValue p n e = ((unselected p n : ℤ) : K) := by
  rw [adaptiveValue, he]
  rfl

theorem adaptiveValue_le (h : Weighed p) {n : ℕ} (hn : n < p.dimension) (e : Element K) :
    adaptiveValue p n e ≤ ((unselected p n : ℤ) : K) := by
  cases he : isChosen e with
  | false => exact le_of_eq (adaptiveValue_of_not_chosen he)
  | true =>
      rw [adaptiveValue_of_chosen he]
      exact Int.cast_le.2 (unselected_succ_lt h hn).le

theorem maxValue_mem {a : SolutionAnalyser} {values : List K} {gtMax : K}
    (h : GRASP.maxValue a values = some gtMax) : gtMax ∈ values := by
  cases values with
  | nil => cases h
  | cons v vs =>
      have hmem := select_mem (fun x y => decide (0 ≤ a.compareFunctionValue x y)) v vs
      unfold select at hmem
      simp only [decide_eq_true_eq] at hmem
      rwa [← Option.some.inj h]

theorem minValue_le {values : List K} {gtMin : K}
    (h : GRASP.minValue .binaryPartitionNumber values = some gtMin) {v : K} (hv : v ∈ values) :
    gtMin ≤ v := by
  cases values with
  | nil => cases h
  | cons u us =>
      have hkeeps : ∀ x y : K,
          decide (SolutionAnalyser.binaryPartitionNumber.compareFunctionValue x y ≤ 0) = true →
            x ≤ y := by
        intro x y hle
        by_contra hlt
        have hgt : y < x := not_le.1 hlt
        simp [SolutionAnalyser.compareFunctionValue, hgt.ne', hgt.not_gt] at hle
      have htakes : ∀ x y : K,
          decide (SolutionAnalyser.binaryPartitionNumber.compareFunctionValue x y ≤ 0) = false →
            y ≤ x + 0 := by
        intro x y hnot
        by_contra hlt
        have hgt : x < y := by simpa using hlt
        simp [SolutionAnalyser.compareFunctionValue, hgt.ne, hgt] at hnot
      have hleast := select_le_add (le_refl (0 : K)) hkeeps htakes u us hv
      unfold select at hleast
      simp only [decide_eq_true_eq, mul_zero, add_zero] at hleast
      rwa [← Option.some.inj h]

/-- With a greediness below one, only elements that select are let through. -/
theorem chosen_of_restricted (h : Weighed p) {n : ℕ} (hn : n < p.dimension) {alpha : K}
    (hnonneg : 0 ≤ alpha) (hlt : alpha < 1) {values : List (Element K × K)}
    (hvalues : ∀ entry ∈ values, entry.2 = adaptiveValue p n entry.1)
    (hsome : ∃ entry ∈ values, isChosen entry.1 = true) {gtMax gtMin : K}
    (hmax : GRASP.maxValue .binaryPartitionNumber (values.map Prod.snd) = some gtMax)
    (hmin : GRASP.minValue .binaryPartitionNumber (values.map Prod.snd) = some gtMin)
    {entry : Element K × K} (hentry : entry ∈ values)
    (hle : entry.2 ≤ gtMin + alpha * (gtMax - gtMin)) : isChosen entry.1 = true := by
  obtain ⟨least, hleast, hchosen⟩ := hsome
  by_contra hnot
  have hvalue : entry.2 = ((unselected p n : ℤ) : K) := by
    rw [hvalues entry hentry, adaptiveValue_of_not_chosen (Bool.eq_false_iff.2 hnot)]
  have hbelow : gtMin < ((unselected p n : ℤ) : K) := by
    have hfound := minValue_le hmin (List.mem_map_of_mem hleast)
    rw [hvalues least hleast, adaptiveValue_of_chosen hchosen] at hfound
    exact hfound.trans_lt (Int.cast_lt.2 (unselected_succ_lt h hn))
  have habove : gtMax ≤ ((unselected p n : ℤ) : K) := by
    obtain ⟨greatest, hgreatest, heq⟩ := List.mem_map.1 (maxValue_mem hmax)
    rw [← heq, hvalues greatest hgreatest]
    exact adaptiveValue_le h hn greatest.1
  have hstep : alpha * (gtMax - gtMin) < ((unselected p n : ℤ) : K) - gtMin := by
    calc alpha * (gtMax - gtMin)
        _ ≤ alpha * (((unselected p n : ℤ) : K) - gtMin) := by
          apply mul_le_mul_of_nonneg_left _ hnonneg
          linarith
        _ < 1 * (((unselected p n : ℤ) : K) - gtMin) := by
          apply mul_lt_mul_of_pos_right hlt
          linarith
        _ = ((unselected p n : ℤ) : K) - gtMin := one_mul _
  linarith

end Restricted

/-! ## The construction -/

section Construction

variable {K : Type} [RealArith K] {p : BinaryPartitionNumberProblem} {alpha : K} {this : GRASP K}
  {solution : Ref} {identities : List ℕ} {candidates : List (Element K)} {s : Solution K}
  {w w₀ w' : World K}

/-- GRASP deals the candidates of the problem with a greediness below one, and improves with
a modifier of partitions. -/
structure Partitions (this : GRASP K) (p : BinaryPartitionNumberProblem) (alpha : K) : Prop where
  problem : this.problem = p.toProblem
  analyser : this.solutionAnalyser = .binaryPartitionNumber
  candidatesList : this.candidatesList = some p.binaryPartitionCandidatesList
  greediness : this.alpha = some alpha
  nonneg : 0 ≤ alpha
  lt_one : alpha < 1
  neighbor : ∀ l m, this.localSearch = some l → l.neighbor = some m →
    ∃ fuel, ∃ v : PartitionModifier, m = v.toSolutionModifier fuel

structure Selects (p : BinaryPartitionNumberProblem) (identities : List ℕ) (s : Solution K) :
    Prop where
  problem : s.problem = p.toProblem
  vector : s.solutionsVector = selected identities
  viable : s.viable = false
  changed : identities ≠ [] → s.changed = true

theorem Selects.adaptive (h : Weighed p) (hs : Selects p identities s)
    (hlength : identities.length < p.dimension) {e : Element K} (he : Dealt e) (calls : ℕ) :
    (s.problem.adaptiveFunctionValue calls s.solutionsVector e).outcome =
      .ok (some (adaptiveValue p identities.length e)) := by
  obtain ⟨identity, present, rfl⟩ := he
  rw [hs.problem, hs.vector]
  show ((p.adaptiveFunctionValue (selected (K := K) identities)
    (.binaryPartitionNumber identity present)).map _) = _
  rw [adaptiveFunctionValue_selected h hlength]
  rfl

theorem Selects.adaptive_full (hs : Selects p identities s)
    (hlength : identities.length = p.dimension) (e : Element K) (calls : ℕ) :
    (s.problem.adaptiveFunctionValue calls s.solutionsVector e).outcome = .ok none := by
  rw [hs.problem, hs.vector]
  show ((p.adaptiveFunctionValue (selected identities) e).map _) = _
  rw [adaptiveFunctionValue_full hlength]
  rfl

theorem returns_values (h : Weighed p) (hsolution : w.solutions[solution]? = some s)
    (hs : Selects p identities s) (hlength : identities.length < p.dimension)
    (hdealt : ∀ e ∈ candidates, Dealt e) :
    Returns (GRASP.adaptiveFunctionValues solution candidates) w fun values w' =>
      w'.solutions = w.solutions ∧
      (∀ entry ∈ values,
        entry.1 ∈ candidates ∧ entry.2 = adaptiveValue p identities.length entry.1) ∧
      ∀ e ∈ candidates, ∃ entry ∈ values, entry.1 = e := by
  unfold GRASP.adaptiveFunctionValues
  refine Returns.bind (Returns.foldlM candidates (I := fun before values w' =>
      w'.solutions = w.solutions ∧
      (∀ entry ∈ values,
        entry.1 ∈ candidates ∧ entry.2 = adaptiveValue p identities.length entry.1) ∧
      ∀ e ∈ before, ∃ entry ∈ values, entry.1 = e) ?_ ?_) ?_
  · exact ⟨rfl, by simp, by simp⟩
  · intro before e he values w₁ h₁
    obtain ⟨hw₁, hentries, hbefore⟩ := h₁
    apply (returns_adaptive (hw₁ ▸ hsolution) (hs.adaptive h hlength (hdealt e he))).bind
    intro value w₂ h₂
    obtain ⟨rfl, hw₂⟩ := h₂
    have hsolution₂ : w₂.solutions[solution]? = some s := by
      rw [hw₂, hw₁]
      exact hsolution
    apply (returns_adaptive hsolution₂ (hs.adaptive h hlength (hdealt e he))).bind
    intro value w₃ h₃
    obtain ⟨rfl, hw₃⟩ := h₃
    apply (returns_nonNull rfl).bind
    intro x w₄ h₄
    obtain ⟨rfl, rfl⟩ := h₄
    have hw := hw₃.trans (hw₂.trans hw₁)
    split
    next hany =>
      refine .ret ⟨hw, hentries, ?_⟩
      intro e' he'
      rcases List.mem_append.1 he' with he' | he'
      · exact hbefore e' he'
      · obtain ⟨entry, hentry, heq⟩ := List.any_eq_true.1 hany
        rw [List.mem_singleton.1 he']
        exact ⟨entry, hentry, of_decide_eq_true heq⟩
    next =>
      refine .ret ⟨hw, ?_, ?_⟩
      · intro entry hentry
        rcases List.mem_append.1 hentry with hentry | hentry
        · exact hentries entry hentry
        · rw [List.mem_singleton.1 hentry]
          exact ⟨he, rfl⟩
      · intro e' he'
        rcases List.mem_append.1 he' with he' | he'
        · obtain ⟨entry, hentry, heq⟩ := hbefore e' he'
          exact ⟨entry, List.mem_append_left _ hentry, heq⟩
        · rw [List.mem_singleton.1 he']
          exact ⟨_, List.mem_append_right _ (List.mem_singleton_self _), rfl⟩
  · intro values w₁ h₁
    obtain ⟨hw₁, hentries, hall⟩ := h₁
    apply ((returns_pick le_rfl).and_ends
      ((draws_solutions w).pick hw₁ values.length values)).mono
    intro picked w₂ h₂
    obtain ⟨⟨hlength', hmem, -⟩, ⟨-, hdrawn⟩, hw₂⟩ := h₂
    refine ⟨hw₂, fun entry hentry => hentries entry (hmem entry hentry), ?_⟩
    intro e he
    obtain ⟨entry, hentry, heq⟩ := hall e he
    exact ⟨entry, hdrawn.mem_of_length hlength'.ge hentry, heq⟩

theorem returns_values_full (hsolution : w.solutions[solution]? = some s)
    (hs : Selects p identities s) (hlength : identities.length = p.dimension)
    (candidates : List (Element K)) :
    Returns (GRASP.adaptiveFunctionValues solution candidates) w fun values w' =>
      w'.solutions = w.solutions ∧ values = [] := by
  unfold GRASP.adaptiveFunctionValues
  refine Returns.bind (Returns.foldlM candidates (I := fun _ values w' =>
    w'.solutions = w.solutions ∧ values = []) ⟨rfl, rfl⟩ ?_) ?_
  · intro before e he values w₁ h₁
    obtain ⟨hw₁, rfl⟩ := h₁
    apply (returns_adaptive (hw₁ ▸ hsolution) (hs.adaptive_full hlength e)).bind
    intro value w₂ h₂
    obtain ⟨rfl, hw₂⟩ := h₂
    exact .ret ⟨hw₂.trans hw₁, rfl⟩
  · intro values w₁ h₁
    obtain ⟨hw₁, rfl⟩ := h₁
    exact .ret ⟨hw₁, rfl⟩

/-- Where the construction of a solution that is new since `w₀` stands: the candidates that
select are as many as positions are left. -/
structure Stage (p : BinaryPartitionNumberProblem) (w₀ : World K) (solution : Ref)
    (identities : List ℕ) (candidates : List (Element K)) (w : World K) : Prop where
  grows : w₀.Grows (fun _ => False) w
  new : w₀.solutions.length ≤ solution
  selects : ∃ s, w.solutions[solution]? = some s ∧ Selects p identities s
  dealt : ∀ e ∈ candidates, Dealt e
  count : candidates ≠ [] → identities.length + candidates.countP isChosen = p.dimension
  full : candidates = [] → identities.length = p.dimension

theorem grows_set {S : Ref → Prop} (h : w₀.Grows S w) (hnew : w₀.solutions.length ≤ solution)
    (hs : s.viable = false) (hw' : w'.solutions = w.solutions.set solution s) :
    w₀.Grows S w' := by
  constructor
  · intro r t ht hchanged
    obtain ⟨hlt, -⟩ := List.getElem?_eq_some_iff.1 ht
    rw [hw', List.getElem?_set_ne (by omega)]
    exact h.kept r t ht hchanged
  · intro r t ht hviable
    by_cases hr : solution = r
    · have hlt : r < w.solutions.length := by
        have hsome := (List.getElem?_eq_some_iff.1 ht).1
        rwa [hw', List.length_set] at hsome
      rw [hw', hr, List.getElem?_set_self hlt] at ht
      rw [← Option.some.inj ht, hs] at hviable
      cases hviable
    · rw [hw', List.getElem?_set_ne hr] at ht
      exact h.viable r t ht hviable

theorem returns_construct (h : Weighed p) (hthis : Partitions this p alpha)
    (hstage : Stage p w₀ solution identities candidates w) (hne : candidates ≠ []) :
    Returns (GRASP.construct this solution candidates) w fun candidates' w' =>
      (∃ identities', Stage p w₀ solution identities' candidates' w') ∧
        candidates'.length < candidates.length := by
  obtain ⟨s, hsolution, hs⟩ := hstage.selects
  have hcount := hstage.count hne
  unfold GRASP.construct
  rw [hthis.analyser]
  by_cases hfull : identities.length = p.dimension
  · apply (returns_values_full hsolution hs hfull candidates).bind
    intro values w₁ h₁
    obtain ⟨hw₁, rfl⟩ := h₁
    refine .ret ⟨⟨identities, ?_⟩, List.length_pos_of_ne_nil hne⟩
    exact
      { grows := hstage.grows.trans (.of_eq _ hw₁)
        new := hstage.new
        selects := ⟨s, hw₁ ▸ hsolution, hs⟩
        dealt := by simp
        count := fun hnil => absurd rfl hnil
        full := fun _ => hfull }
  have hroom : identities.length < p.dimension := by omega
  apply (returns_values h hsolution hs hroom hstage.dealt).bind
  intro values w₁ h₁
  obtain ⟨hw₁, hentries, hall⟩ := h₁
  have hchosen : ∃ entry ∈ values, isChosen entry.1 = true := by
    obtain ⟨e, he, hchosen⟩ := List.countP_pos_iff.1 (show 0 < candidates.countP isChosen by omega)
    obtain ⟨entry, hentry, rfl⟩ := hall e he
    exact ⟨entry, hentry, hchosen⟩
  have hvalues : values ≠ [] := by
    obtain ⟨entry, hentry, -⟩ := hchosen
    exact List.ne_nil_of_mem hentry
  have hrestricted := RouteConstruction.restricted_ne_nil .binaryPartitionNumber hthis.nonneg
    hvalues
  obtain ⟨gtMax, gtMin, hmax, hmin, heq⟩ := RouteConstruction.restricted_eq hrestricted
  rw [heq] at hrestricted
  rw [hmax, hmin]
  apply (returns_nonNull hthis.greediness).bind
  intro alpha' w₂ h₂
  obtain ⟨rfl, rfl⟩ := h₂
  dsimp only
  rw [if_neg (by simpa using hrestricted)]
  have hpos := List.length_pos_of_ne_nil hrestricted
  apply (returns_nextInt (by omega)).bind
  intro index w₃ h₃
  obtain ⟨hlower, hupper, hw₃⟩ := h₃
  apply (returns_nth (by omega)).bind
  intro e w₄ h₄
  obtain ⟨he, rfl⟩ := h₄
  obtain ⟨entry, hentry, rfl⟩ := List.mem_map.1 he
  obtain ⟨hmem, hle⟩ := List.mem_filter.1 hentry
  have hpicked : isChosen entry.1 = true :=
    chosen_of_restricted h hroom hthis.nonneg hthis.lt_one (fun e he => (hentries e he).2) hchosen
      hmax hmin hmem (of_decide_eq_true hle)
  have hcandidate : entry.1 ∈ candidates := (hentries entry hmem).1
  obtain ⟨identity, present, hdealt⟩ := hstage.dealt entry.1 hcandidate
  have hpresent : present = true := by
    rw [hdealt] at hpicked
    exact hpicked
  have hsolution₃ : w₄.solutions[solution]? = some s := by
    rw [hw₃, hw₁]
    exact hsolution
  have hspace : s.solutionsVector.length < s.problem.dimension := by
    rw [hs.vector, hs.problem, length_selected]
    exact hroom
  apply (returns_addElement hsolution₃ hspace entry.1).bind
  intro _ w₅ hw₅
  have herase : (candidates.erase entry.1).countP isChosen + 1 = candidates.countP isChosen := by
    have hcountPos : 0 < candidates.countP isChosen := by omega
    rw [List.countP_erase, if_pos ⟨hcandidate, hpicked⟩]
    omega
  have hlength : (identities ++ [identity]).length + (candidates.erase entry.1).countP isChosen =
      p.dimension := by
    rw [List.length_append, List.length_singleton]
    omega
  have hgrown : Selects p (identities ++ [identity])
      { s with solutionsVector := s.solutionsVector ++ [some entry.1], changed := true } := by
    refine ⟨hs.problem, ?_, hs.viable, fun _ => rfl⟩
    unfold selected
    rw [hs.vector, hdealt, hpresent, List.map_append]
    rfl
  have hgrows : w₀.Grows (fun _ => False) w₄ :=
    hstage.grows.trans ((World.Grows.of_eq _ hw₁).trans (.of_eq _ hw₃))
  refine .ret ⟨⟨identities ++ [identity], ?_⟩, ?_⟩
  · exact
      { grows := grows_set hgrows hstage.new hgrown.viable hw₅
        new := hstage.new
        selects := by
          refine ⟨_, ?_, hgrown⟩
          rw [hw₅, List.getElem?_set_self (List.getElem?_eq_some_iff.1 hsolution₃).1]
        dealt := fun e he => hstage.dealt e (List.mem_of_mem_erase he)
        count := fun _ => hlength
        full := fun hnil => by
          rw [hnil, List.countP_nil, add_zero] at hlength
          exact hlength }
  · rw [List.length_erase_of_mem hcandidate]
    have hcandidates := List.length_pos_of_ne_nil hne
    omega

/-! ## Whole constructions -/

theorem countP_even (n : ℕ) : (List.range (2 * n)).countP (fun i => decide (i % 2 = 0)) = n := by
  induction n with
  | zero => rfl
  | succ n ih =>
      rw [Nat.mul_succ, List.range_succ, List.range_succ, List.countP_append, List.countP_append,
        ih, List.countP_singleton, List.countP_singleton, if_pos (by simp), if_neg (by simp)]

theorem returns_newElements (c : ℕ → Bool) (is : List ℕ) :
    Returns (is.mapM fun i => newElement (c i)) w fun candidates w' =>
      w'.solutions = w.solutions ∧ (∀ e ∈ candidates, Dealt e) ∧
        candidates.length = is.length ∧ candidates.countP isChosen = is.countP c := by
  induction is generalizing w with
  | nil => exact .ret ⟨rfl, by simp, rfl, rfl⟩
  | cons i is ih =>
      rw [List.mapM_cons]
      have hnew : Returns (newElement (K := K) (c i)) w fun e w' =>
          w'.solutions = w.solutions ∧ Dealt e ∧ isChosen e = c i :=
        .changes ⟨rfl, ⟨_, _, rfl⟩, rfl⟩
      apply hnew.bind
      intro e w₁ h₁
      obtain ⟨hw₁, hdealt, hchosen⟩ := h₁
      apply ih.bind
      intro candidates w₂ h₂
      obtain ⟨hw₂, hrest, hlength, hcount⟩ := h₂
      refine .ret ⟨hw₂.trans hw₁, ?_, ?_, ?_⟩
      · intro e' he'
        rcases List.mem_cons.1 he' with rfl | he'
        · exact hdealt
        · exact hrest e' he'
      · rw [List.length_cons, List.length_cons, hlength]
      · rw [List.countP_cons, List.countP_cons, hcount, hchosen]

theorem returns_getCandidates (h : Weighed p) :
    Returns (p.binaryPartitionCandidatesList (K := K)).getCandidates w fun candidates w' =>
      w'.solutions = w.solutions ∧ (∀ e ∈ candidates, Dealt e) ∧
        candidates.length = 2 * p.dimension ∧ candidates.countP isChosen = p.dimension := by
  apply (returns_newElements (fun i => decide (i % 2 = 0)) _).mono
  intro candidates w' hdealt
  rwa [List.length_range, countP_even, ← h.dimension] at hdealt

theorem Stage.start (h : Weighed p) {id : ℕ}
    (hbuilt : w.solutions = w₀.solutions ++ [Solution.built p.toProblem id])
    (hw' : w'.solutions = w.solutions) (hdealt : ∀ e ∈ candidates, Dealt e)
    (hlength : candidates.length = 2 * p.dimension)
    (hcount : candidates.countP isChosen = p.dimension) :
    Stage p w₀ w₀.solutions.length [] candidates w' := by
  have hdimension := h.nonempty
  have hsolutions := hw'.trans hbuilt
  exact
    { grows := grows_of_append hsolutions (fun t ht => by rw [List.mem_singleton.1 ht]; rfl) _
      new := le_refl _
      selects := by
        refine ⟨Solution.built p.toProblem id, ?_, rfl, rfl, rfl, fun hne => absurd rfl hne⟩
        rw [hsolutions, List.getElem?_concat_length]
      dealt := hdealt
      count := fun _ => by rw [List.length_nil, zero_add, hcount]
      full := fun hnil => by
        rw [hnil, List.length_nil] at hlength
        omega }

def SelectsAll (p : BinaryPartitionNumberProblem) (w₀ : World K) (r : Ref) (w : World K) : Prop :=
  w₀.Grows (fun _ => False) w ∧ ∃ identities s, identities.length = p.dimension ∧
    w.solutions[r]? = some s ∧ Selects p identities s

theorem Stage.selectsAll (h : Stage p w₀ solution identities [] w) :
    SelectsAll p w₀ solution w := by
  obtain ⟨s, hsolution, hs⟩ := h.selects
  exact ⟨h.grows, identities, s, h.full rfl, hsolution, hs⟩

theorem returns_begins (h : Weighed p) (hthis : Partitions this p alpha) :
    Returns (begins this) w fun start w' =>
      start.2.length = 2 * p.dimension ∧ Stage p w start.1 [] start.2 w' := by
  unfold begins
  rw [hthis.problem]
  apply (returns_buildSolution _).bind
  intro solution w₁ h₁
  obtain ⟨rfl, id, hw₁⟩ := h₁
  apply (returns_nonNull hthis.candidatesList).bind
  intro c w₂ h₂
  obtain ⟨rfl, rfl⟩ := h₂
  apply (returns_getCandidates h).bind
  intro candidates w₃ h₃
  obtain ⟨hw₃, hdealt, hlength, hcount⟩ := h₃
  exact .ret ⟨hlength, .start h hw₁ hw₃ hdealt hlength hcount⟩

theorem returns_construcao (h : Weighed p) (hthis : Partitions this p alpha) {fuel : ℕ}
    (hfuel : 2 * p.dimension < fuel) :
    Returns (GRASP.construcao this fuel) w fun r w' => SelectsAll p w r w' := by
  rw [construcao_eq]
  apply (returns_begins h hthis).bind
  intro start w₁ h₁
  obtain ⟨solution, candidates⟩ := start
  obtain ⟨hlength, hstage⟩ := h₁
  refine Returns.bind (Returns.repeatWhile (m := List.length)
    (I := fun candidates w' => ∃ identities, Stage p w solution identities candidates w')
    (S := fun _ w' => SelectsAll p w solution w') ?_ ⟨[], hstage⟩ (hlength.trans_lt hfuel))
    fun _ _ hall => .ret hall
  intro candidates w' hturn
  obtain ⟨identities, hstage⟩ := hturn
  refine .ret ?_
  split
  next hgoes => exact returns_construct h hthis hstage (by simpa using hgoes)
  next hstops =>
    obtain rfl : candidates = [] := by simpa using hstops
    exact hstage.selectsAll

theorem ends_construcao (h : Weighed p) (hthis : Partitions this p alpha) (fuel : ℕ) :
    Ends (GRASP.construcao this fuel) w fun r w' => SelectsAll p w r w' := by
  rw [construcao_eq]
  refine (returns_begins h hthis).ends.bind ?_
  intro start w₁ h₁
  obtain ⟨solution, candidates⟩ := start
  obtain ⟨-, hstage⟩ := h₁
  refine Ends.bind (Ends.repeatWhile_turns
    (I := fun candidates w' => ∃ identities, Stage p w solution identities candidates w')
    (T := fun _ w' => SelectsAll p w solution w') ?_ ⟨[], hstage⟩) fun _ _ hall => .ret hall
  intro candidates w' hturn
  obtain ⟨identities, hstage⟩ := hturn
  refine .ret ?_
  split
  next hgoes =>
    exact (returns_construct h hthis hstage (by simpa using hgoes)).ends.mono
      fun _ _ hturn => hturn.1
  next hstops =>
    obtain rfl : candidates = [] := by simpa using hstops
    exact hstage.selectsAll

/-- Below the greediness one a construction ends, and it selects every weight.  That has
the value zero, and it is not viable. -/
theorem construcao_selects_all (h : Weighed p) (hthis : Partitions this p alpha) (w : World K)
    {fuel : ℕ} (hfuel : 2 * p.dimension < fuel) :
    ∃ r w' s, GRASP.construcao this fuel w = .ok r w' ∧ w'.solutions[r]? = some s ∧
      s.solutionsVector.length = p.dimension ∧
      (∀ e ∈ s.solutionsVector, isPresent e = .ok true) ∧
      p.objectiveFunction s.solutionsVector = .ok 0 ∧
      (BinaryPartitionNumberProblem.checkViability s.solutionsVector).1 = false := by
  obtain ⟨r, w', hrun, -, identities, s, hlength, hs, hselects⟩ :=
    returns_construcao h hthis hfuel (w := w)
  refine ⟨r, w', s, hrun, hs, ?_⟩
  rw [hselects.vector, length_selected, objectiveFunction_full h hlength, checkViability_selected]
  refine ⟨hlength, ?_, rfl, rfl⟩
  intro e he
  obtain ⟨identity, -, rfl⟩ := List.mem_map.1 he
  rfl

end Construction

section Example

open RouteConstruction (exampleConstruction emptyWorld)

def threeWeights : BinaryPartitionNumberProblem :=
  { id := 0, max := false, dimension := 3, partitions := 2, weights := [2, 1, 3], upperLimit := 6 }

theorem weighed_threeWeights : Weighed threeWeights where
  positive := by decide
  fits := by decide
  dimension := rfl
  nonempty := by decide

def examplePartition : GRASP ℚ :=
  { exampleConstruction with
    problem := threeWeights.toProblem
    solutionAnalyser := .binaryPartitionNumber
    candidatesList := some threeWeights.binaryPartitionCandidatesList
    localSearch := some
      { name := .random
        neighbor := some (PartitionModifier.binaryPartitionRandomChange.toSolutionModifier 0)
        iterationsLocalSearchCount := 1 } }

theorem examplePartition_partitions : Partitions examplePartition threeWeights (1 / 2) where
  problem := rfl
  analyser := rfl
  candidatesList := rfl
  greediness := rfl
  nonneg := by norm_num
  lt_one := by norm_num
  neighbor _ m hl hm := by
    cases hl
    exact ⟨0, .binaryPartitionRandomChange, (Option.some.inj hm).symm⟩

theorem construcao_selects_all_example : ∃ r w' s,
    GRASP.construcao examplePartition 7 emptyWorld = .ok r w' ∧ w'.solutions[r]? = some s ∧
      s.solutionsVector.length = 3 ∧
      (∀ e ∈ s.solutionsVector, isPresent e = .ok true) ∧
      threeWeights.objectiveFunction s.solutionsVector = .ok 0 ∧
      (BinaryPartitionNumberProblem.checkViability s.solutionsVector).1 = false :=
  construcao_selects_all weighed_threeWeights examplePartition_partitions emptyWorld (by decide)

end Example

end DOptimas.Proofs.FullSelection
