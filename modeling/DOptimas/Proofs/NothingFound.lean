import DOptimas.Proofs.FullSelection
/-!
# GRASP finds no partition

The local search starts from all weights and keeps them, as no neighbour has a value
below zero.  They are no partition, so that a run gives back the empty solution that it
began with.
-/

namespace DOptimas.Proofs.NothingFound

open DOptimas.Support DOptimas.Heuristics
open DOptimas.Core (SolutionAnalyser)
open FullSelection

variable {K : Type} [RealArith K] {p : BinaryPartitionNumberProblem} {context : Context}
  {w w₀ w' : World K} {r : Ref}

/-! ## All weights -/

section Hopeless

def AllSelected (p : BinaryPartitionNumberProblem) (vector : List (Option (Element K))) : Prop :=
  ∃ identities, identities.length = p.dimension ∧ vector = selected identities

/-- All weights are selected; where that was found out, the value is zero. -/
structure Hopeless (p : BinaryPartitionNumberProblem) (s : Solution K) : Prop where
  problem : s.problem = p.toProblem
  vector : AllSelected p s.solutionsVector
  viable : s.viable = false
  value : s.changed = false → s.functionValue = some 0

def Hangs (p : BinaryPartitionNumberProblem) (w : World K) (r : Ref) : Prop :=
  ∃ s, w.solutions[r]? = some s ∧ Hopeless p s

theorem hopeless_tame (p : BinaryPartitionNumberProblem) : Tame (Hopeless (K := K) p) :=
  fun _ _ h => ⟨h.problem, h.vector, rfl, h.value⟩

theorem Hangs.of_evaluated (h : Evaluated (Hopeless p) w r) : Hangs p w r := by
  obtain ⟨s, hs, -, hhopeless⟩ := h
  exact ⟨s, hs, hhopeless⟩

theorem Hangs.grown (h : Hangs p w r) (hgrows : w.Grows (fun _ => False) w') : Hangs p w' r := by
  obtain ⟨s, hs, hhopeless⟩ := h
  exact ⟨s, hgrows.kept r s hs fun hfalse => hfalse.elim, hhopeless⟩

theorem Hangs.shaped (h : Hangs p w r) : Shaped p.toProblem (AllSelected p) w r := by
  obtain ⟨s, hs, hhopeless⟩ := h
  intro t ht
  obtain rfl : s = t := Option.some.inj (hs.symm.trans ht)
  exact ⟨hhopeless.problem, hhopeless.vector⟩

theorem hangs_of_selectsAll (h : Weighed p) (hall : SelectsAll p w₀ r w) : Hangs p w r := by
  obtain ⟨-, identities, s, hlength, hs, hselects⟩ := hall
  have hpositive := h.nonempty
  have hchanged : s.changed = true := by
    apply hselects.changed
    apply List.ne_nil_of_length_pos
    omega
  refine ⟨s, hs, hselects.problem, ⟨identities, hlength, hselects.vector⟩, hselects.viable, ?_⟩
  intro hnot
  rw [hchanged] at hnot
  cases hnot

theorem establishes_hopeless (h : Weighed p) :
    Establishes (K := K) p.toProblem (AllSelected p) (Hopeless p) := by
  intro s calls x hproblem hvector hx
  obtain ⟨identities, hlength, heq⟩ := hvector
  have hvalue : (p.objectiveFunction (selected (K := K) identities)).map (fun v => (v : K)) =
      .ok x := by
    rw [← heq]
    exact hx
  rw [objectiveFunction_full h hlength] at hvalue
  have hzero : ((0 : ℤ) : K) = x := Except.ok.inj hvalue
  refine ⟨hproblem, ⟨identities, hlength, heq⟩, ?_, ?_⟩
  · show (s.problem.checkViability s.solutionsVector).1 = false
    rw [hproblem, heq]
    show (BinaryPartitionNumberProblem.checkViability (selected identities)).1 = false
    rw [checkViability_selected]
  · intro _
    show some x = some 0
    rw [← hzero, Int.cast_zero]

theorem establishes_nonneg (h : Weighed p) :
    Establishes (K := K) p.toProblem (fun _ => True)
      (fun s => ∃ x, s.functionValue = some x ∧ 0 ≤ x) := by
  intro s calls x _ _ hx
  have hvalue : (p.objectiveFunction s.solutionsVector).map (fun v => (v : K)) = .ok x := hx
  cases hobjective : p.objectiveFunction s.solutionsVector with
  | error _ =>
      rw [hobjective] at hvalue
      cases hvalue
  | ok value =>
      rw [hobjective] at hvalue
      have hnonneg := objectiveFunction_nonneg h hobjective
      have hcast : (value : K) = x := Except.ok.inj hvalue
      exact ⟨x, rfl, hcast ▸ Int.cast_nonneg hnonneg⟩

theorem ends_clone_copy (r : Ref) :
    Ends (clone r) w fun r' w' => r' = w.solutions.length ∧ w.Grows (fun _ => False) w' ∧
      ∃ s id, w.solutions[r]? = some s ∧
        w'.solutions[r']? = some { s with id, viable := false } := by
  refine (ends_clone r).mono ?_
  intro r' w' h
  obtain ⟨rfl, s, id, hs, hw'⟩ := h
  refine ⟨rfl, grows_of_append hw' (by simp) _, s, id, hs, ?_⟩
  rw [hw', List.getElem?_concat_length]

theorem ends_buildSolution_grows (problem : Problem K) :
    Ends (buildSolution problem) w fun r w' => w.Grows (fun _ => False) w' ∧
      ∃ id, w'.solutions[r]? = some (Solution.built problem id) := by
  refine (ends_buildSolution problem).mono ?_
  intro r w' h
  obtain ⟨rfl, id, hw'⟩ := h
  refine ⟨grows_of_append hw' (fun t ht => by rw [List.mem_singleton.1 ht]; rfl) _, id, ?_⟩
  rw [hw', List.getElem?_concat_length]

theorem ends_clone_hangs (h : Hangs p w r) :
    Ends (clone r) w fun r' w' => w.Grows (fun _ => False) w' ∧ Hangs p w' r' := by
  refine (ends_clone_copy r).mono ?_
  intro r' w' hclone
  obtain ⟨-, hgrows, s, id, hs, hcopy⟩ := hclone
  obtain ⟨t, ht, hhopeless⟩ := h
  obtain rfl : s = t := Option.some.inj (hs.symm.trans ht)
  exact ⟨hgrows, _, hcopy, hopeless_tame p s id hhopeless⟩

theorem ends_evaluate_hangs (h : Weighed p) (hr : Hangs p w r) :
    Ends (evaluate context r) w fun _ w' =>
      w.Grows (fun _ => True) w' ∧ Evaluated (Hopeless p) w' r := by
  refine (ends_evaluate context r).mono ?_
  intro value w' hevaluate
  obtain ⟨s, hs, ⟨hchanged, -, rfl⟩ | ⟨hchanged, x, -, hcalculates⟩⟩ := hevaluate
  · obtain ⟨t, ht, hhopeless⟩ := hr
    obtain rfl : s = t := Option.some.inj (hs.symm.trans ht)
    exact ⟨.refl _ _, s, hs, hchanged, hhopeless⟩
  · exact ⟨(hcalculates.grows hs hchanged).mono fun _ _ => trivial,
      hcalculates.evaluated (establishes_hopeless h) hr.shaped⟩

theorem ends_isViable_hangs (h : Weighed p) (hr : Hangs p w r) :
    Ends (isViable context r) w fun viable w' =>
      viable = false ∧ w.Grows (fun _ => True) w' := by
  have hshaped := hr.shaped
  obtain ⟨s, hs, hhopeless⟩ := hr
  unfold isViable
  refine (ends_deref r).bind ?_
  intro t w₁ h₁
  obtain ⟨ht, rfl⟩ := h₁
  obtain rfl : s = t := Option.some.inj (hs.symm.trans ht)
  split
  next hchanged =>
    refine (ends_calculate context r).bind ?_
    intro _ w₂ h₂
    obtain ⟨x, hcalculates⟩ := h₂
    obtain ⟨u, hu, -, hfound⟩ := hcalculates.evaluated (establishes_hopeless h) hshaped
    refine (ends_deref r).bind ?_
    intro v w₃ h₃
    obtain ⟨hv, rfl⟩ := h₃
    obtain rfl : u = v := Option.some.inj (hu.symm.trans hv)
    exact .ret ⟨hfound.viable, (hcalculates.grows hs hchanged).mono fun _ _ => trivial⟩
  next =>
    refine (ends_deref r).bind ?_
    intro v w₃ h₃
    obtain ⟨hv, rfl⟩ := h₃
    obtain rfl : s = v := Option.some.inj (hs.symm.trans hv)
    exact .ret ⟨hhopeless.viable, .refl _ _⟩

end Hopeless

/-! ## The motions -/

section Motions

variable {problem : Problem K} {S : Ref → Prop}

def Moves (p : BinaryPartitionNumberProblem) (m : SolutionModifier K) : Prop :=
  ∀ (w : World K) (r : Ref), Shaped p.toProblem (fun _ => True) w r →
    Ends (m.modify r 1) w fun r' w' =>
      w.Grows (fun _ => True) w' ∧ Fresh p.toProblem (fun _ => True) w' r'

theorem shaped_of_eq (h : Shaped problem (fun _ => True) w r)
    (hsolutions : w'.solutions = w.solutions) : Shaped problem (fun _ => True) w' r := by
  unfold Shaped
  rw [hsolutions]
  exact h

theorem ends_clone_fresh (h : Shaped problem (fun _ => True) w r) :
    Ends (clone r) w fun r' w' => r' = w.solutions.length ∧ w.Grows (fun _ => False) w' ∧
      Fresh problem (fun _ => True) w' r' := by
  refine (ends_clone_copy r).mono ?_
  intro r' w' hclone
  obtain ⟨hr', hgrows, s, id, hs, hcopy⟩ := hclone
  refine ⟨hr', hgrows, ?_, ?_⟩
  · intro t ht
    rw [hcopy] at ht
    obtain rfl := Option.some.inj ht
    exact h s hs
  · intro hviable
    obtain ⟨t, ht, hv⟩ := hviable
    rw [hcopy] at ht
    obtain rfl := Option.some.inj ht
    cases hv

theorem ends_setElement_fresh (hgrows : w₀.Grows S w) (hnew : w₀.solutions.length ≤ r)
    (h : Fresh problem (fun _ => True) w r) (i : ℕ) (e : Element K) :
    Ends (setElement r i e) w fun _ w' =>
      w₀.Grows S w' ∧ Fresh problem (fun _ => True) w' r := by
  unfold setElement
  refine (ends_deref r).bind ?_
  intro s w₁ h₁
  obtain ⟨hs, rfl⟩ := h₁
  have hviable : s.viable = false := by
    apply Bool.eq_false_iff.2
    intro hv
    exact h.2 ⟨s, hs, hv⟩
  have hchanged : ∀ t, (w₁.solutions.modify r fun s =>
      { s with solutionsVector := s.solutionsVector.set i (some e), changed := true })[r]? =
        some t → t.problem = s.problem ∧ t.viable = s.viable := by
    intro t ht
    rw [List.getElem?_modify_eq, hs] at ht
    obtain rfl := Option.some.inj ht
    exact ⟨rfl, rfl⟩
  dsimp only
  split
  · exact (Ends.throws _).bind fun _ _ hw => hw
  · split
    · exact (Ends.throws _).bind fun _ _ hw => hw
    · refine .modifies ⟨?_, ?_, ?_⟩
      · exact grows_set hgrows hnew (by exact hviable) (modify_eq_set hs _)
      · intro t ht
        exact ⟨(hchanged t ht).1.trans (h.1 s hs).1, trivial⟩
      · intro hnow
        obtain ⟨t, ht, hv⟩ := hnow
        rw [(hchanged t ht).2, hviable] at hv
        cases hv

theorem ends_change (h : Shaped problem (fun _ => True) w r) (solution : Ref) :
    Ends (BinaryPartitionRandomChangeSolutionModifier.motion solution r) w fun r' w' =>
      w.Grows (fun _ => True) w' ∧ Fresh problem (fun _ => True) w' r' := by
  unfold BinaryPartitionRandomChangeSolutionModifier.motion
    BinaryPartitionChangePerformsMotion.movement
  refine (ends_deref solution).bind ?_
  intro s v hv
  obtain ⟨-, rfl⟩ := hv
  refine ((draws_solutions v).nextInt rfl _ _).bind ?_
  intro index w₁ hw₁
  have hgrows₁ : v.Grows (fun _ => True) w₁ := .of_eq _ hw₁
  have hlength : w₁.solutions.length = v.solutions.length := congrArg List.length hw₁
  refine (ends_deref r).bind ?_
  intro s w₂ h₂
  obtain ⟨-, rfl⟩ := h₂
  refine (ends_nth _ _).bind ?_
  intro value w₃ h₃
  obtain ⟨-, rfl⟩ := h₃
  refine (ends_clone_fresh (shaped_of_eq h hw₁)).bind ?_
  intro moved w₄ h₄
  obtain ⟨rfl, hgrows₄, hfresh⟩ := h₄
  refine (ends_orThrow _).bind ?_
  intro present w₅ h₅
  obtain ⟨-, rfl⟩ := h₅
  refine Ends.bind (Q := fun _ w' => w'.solutions = w₅.solutions) (.changes rfl) ?_
  intro e w₆ hw₆
  have hgrows₆ : v.Grows (fun _ => True) w₆ :=
    hgrows₁.trans ((hgrows₄.any _).trans (.of_eq _ hw₆))
  have hfresh₆ : Fresh problem (fun _ => True) w₆ w₃.solutions.length := by
    rw [Fresh, Shaped, Viable, hw₆]
    exact hfresh
  refine (ends_setElement_fresh hgrows₆ hlength.ge hfresh₆ _ e).bind ?_
  intro _ w₇ h₇
  exact .ret h₇

theorem ends_nextBinomial (n : ℕ) (h : w.solutions = w₀.solutions) :
    Ends (nextBinomial n) w fun _ w' => w'.solutions = w₀.solutions := by
  unfold nextBinomial
  split
  · exact (Ends.throws _).bind fun _ _ hw => hw
  · refine ((draws_solutions w₀).nextDouble h).bind ?_
    intro _ w₁ hw₁
    exact .ret hw₁

theorem ends_swap (h : Shaped problem (fun _ => True) w r) (fuel : ℕ) (solution : Ref) :
    Ends (BinaryPartitionRandomSwapSolutionModifier.motion fuel solution r) w fun r' w' =>
      w.Grows (fun _ => True) w' ∧ Fresh problem (fun _ => True) w' r' := by
  unfold BinaryPartitionRandomSwapSolutionModifier.motion
    BinaryPartitionRandomSwapSolutionModifier.drawIndexes
  refine Ends.bind (Q := fun _ w' => w'.solutions = w.solutions) ?_ ?_
  · refine (ends_deref solution).bind ?_
    intro s v hv
    obtain ⟨-, rfl⟩ := hv
    refine ((draws_solutions v).nextInt rfl _ _).bind ?_
    intro index1 w₁ hw₁
    refine (ends_nextBinomial _ hw₁).bind ?_
    intro index2 w₂ hw₂
    refine Ends.bind (Q := fun _ w' => w'.solutions = v.solutions) ?_ fun _ _ hw => .ret hw
    exact .repeatWhile (I := fun _ (w' : World K) => w'.solutions = v.solutions)
      (fun _ _ hw => .ret hw)
      (fun _ _ hw => ends_nextBinomial _ hw) hw₂
  · intro _ w₁ hw₁
    unfold BinaryPartitionSwapPerformsMotion.movement
    refine (ends_clone_fresh (shaped_of_eq h hw₁)).mono ?_
    intro moved w₂ h₂
    obtain ⟨-, hgrows, hfresh⟩ := h₂
    exact ⟨(World.Grows.of_eq _ hw₁).trans (hgrows.any _), hfresh⟩

theorem modifier_moves (fuel : ℕ) (m : PartitionModifier) :
    Moves p (m.toSolutionModifier (K := K) fuel) := by
  intro w r h
  cases m with
  | binaryPartitionRandomChange =>
      show Ends ((List.range 1).foldlM
        (fun result _ => BinaryPartitionRandomChangeSolutionModifier.motion r result) r) w _
      refine (ends_change h r).bind ?_
      intro r' w' hmoved
      exact .ret hmoved
  | binaryPartitionRandomSwap =>
      show Ends ((List.range 1).foldlM
        (fun result _ => BinaryPartitionRandomSwapSolutionModifier.motion fuel r result) r) w _
      refine (ends_swap h fuel r).bind ?_
      intro r' w' hmoved
      exact .ret hmoved
  | otherSolutionClass => exact .throws _

end Motions

/-! ## The local search -/

section Search

/-- No neighbour takes the place of all weights. -/
theorem ends_getBestSolution_hangs {nb best : Ref}
    (hnb : Evaluated (fun s => ∃ x, s.functionValue = some x ∧ 0 ≤ x) w nb)
    (hbest : Evaluated (Hopeless p) w best) :
    Ends (getBestSolution .binaryPartitionNumber nb best) w fun chosen w' =>
      chosen = best ∧ w' = w := by
  obtain ⟨s, hs, -, x, hx, hnonneg⟩ := hnb
  obtain ⟨t, ht, hchanged, hhopeless⟩ := hbest
  have hzero := hhopeless.value hchanged
  refine (ends_getBestSolution _ nb best).mono ?_
  intro chosen w' hchosen
  obtain ⟨⟨x', y, hx', hy, rfl⟩, rfl⟩ := hchosen
  rw [World.valueOf, hs, Option.bind_some, hx] at hx'
  rw [World.valueOf, ht, Option.bind_some, hzero] at hy
  obtain rfl := Option.some.inj hx'
  obtain rfl := Option.some.inj hy
  have hnot : ¬SolutionAnalyser.binaryPartitionNumber.keepsLeft x 0 := by
    rw [SolutionAnalyser.keepsLeft_binaryPartitionNumber]
    exact not_lt.2 hnonneg
  exact ⟨if_neg hnot, rfl⟩

theorem ends_randomLocalSearch (h : Weighed p) {neighbor : Option (SolutionModifier K)}
    (hneighbor : ∀ m, neighbor = some m → Moves p m) (hr : Hangs p w r) (n : ℤ) :
    Ends (randomLocalSearch p.toProblem neighbor n r context) w fun best w' =>
      w.Grows (fun _ => True) w' ∧ Hangs p w' best := by
  unfold randomLocalSearch
  refine (ends_clone_hangs hr).bind ?_
  intro best w₁ h₁
  obtain ⟨hgrows₁, hcopy⟩ := h₁
  refine (ends_evaluate_hangs h hcopy).bind ?_
  intro _ w₂ h₂
  obtain ⟨hgrows₂, hbest⟩ := h₂
  refine (ends_clone_tame (hopeless_tame p) hbest).bind ?_
  intro current w₃ h₃
  obtain ⟨hgrows₃, -, hcurrent, -, -⟩ := h₃
  refine Ends.bind (Q := fun state w' => state.1 = best ∧ w₂.Grows (fun _ => True) w' ∧
    Evaluated (Hopeless p) w' state.2) (.foldlM ⟨rfl, hgrows₃.any _, hcurrent⟩ ?_) ?_
  · intro _ _ state w₄ h₄
    obtain ⟨best', current⟩ := state
    obtain ⟨hsame, hgrows₄, hcurrent⟩ := h₄
    dsimp only at hsame hcurrent ⊢
    subst hsame
    unfold modifySolution
    refine Ends.bind (Q := fun nb w' => w₄.Grows (fun _ => True) w' ∧
      Fresh p.toProblem (fun _ => True) w' nb) ?_ ?_
    · refine (ends_nonNull neighbor).bind ?_
      intro m w₅ h₅
      obtain ⟨hm, rfl⟩ := h₅
      apply hneighbor m hm
      intro t ht
      exact ⟨((Hangs.of_evaluated hcurrent).shaped t ht).1, trivial⟩
    intro nb w₅ h₅
    obtain ⟨hgrows₅, hfresh⟩ := h₅
    refine (ends_evaluate_judged (establishes_nonneg h) (Or.inr hfresh)).bind ?_
    intro _ w₆ h₆
    obtain ⟨hgrows₆, hjudged⟩ := h₆
    have hgrows : w₄.Grows (fun _ => True) w₆ :=
      hgrows₅.trans (hgrows₆.mono fun _ _ => trivial)
    refine (ends_isViable_again hjudged).bind ?_
    intro viable w₇ h₇
    obtain ⟨hviable, rfl⟩ := h₇
    split
    next hflag =>
      have hkept := (hgrows₄.trans hgrows).evaluated hbest
      refine (ends_getBestSolution_hangs (hjudged.evaluated (hviable.1 hflag)) hkept).bind ?_
      intro chosen w₈ h₈
      obtain ⟨rfl, rfl⟩ := h₈
      exact .ret ⟨rfl, hgrows₄.trans hgrows, hkept⟩
    next => exact .ret ⟨rfl, hgrows₄.trans hgrows, hgrows.evaluated hcurrent⟩
  · intro state w₄ h₄
    obtain ⟨best', current⟩ := state
    obtain ⟨hsame, hgrows₄, -⟩ := h₄
    dsimp only at hsame ⊢
    subst hsame
    exact .ret ⟨(hgrows₁.any _).trans (hgrows₂.trans hgrows₄),
      .of_evaluated (hgrows₄.evaluated hbest)⟩

theorem ends_search (h : Weighed p) {localSearch : LocalSearch K}
    (hneighbor : ∀ m, localSearch.neighbor = some m → Moves p m) (hr : Hangs p w r) :
    Ends (localSearch.search p.toProblem r context) w fun found w' =>
      w.Grows (fun _ => True) w' ∧ Hangs p w' found := by
  unfold LocalSearch.search
  split
  next => exact ends_randomLocalSearch h hneighbor hr _
  next =>
    unfold firstImproveLocalSearch
    refine (ends_buildSolution_grows _).bind ?_
    intro _ w₁ h₁
    obtain ⟨hgrows₁, -⟩ := h₁
    refine (ends_clone_hangs (hr.grown hgrows₁)).bind ?_
    intro best w₂ h₂
    obtain ⟨hgrows₂, hbest⟩ := h₂
    refine (ends_clone_copy r).bind ?_
    intro _ w₃ h₃
    obtain ⟨-, hgrows₃, -⟩ := h₃
    refine (ends_clone_copy best).bind ?_
    intro _ w₄ h₄
    obtain ⟨-, hgrows₄, -⟩ := h₄
    have hgrows := hgrows₃.trans hgrows₄
    exact .ret ⟨(hgrows₁.trans (hgrows₂.trans hgrows)).any _, hbest.grown hgrows⟩
  next =>
    unfold betterNeighborhoodLocalSearch
    refine (ends_buildSolution_grows _).bind ?_
    intro _ w₁ h₁
    obtain ⟨hgrows₁, -⟩ := h₁
    refine (ends_clone_hangs (hr.grown hgrows₁)).bind ?_
    intro best w₂ h₂
    obtain ⟨hgrows₂, hcopy⟩ := h₂
    refine (ends_evaluate_hangs h hcopy).bind ?_
    intro _ w₃ h₃
    obtain ⟨hgrows₃, hbest⟩ := h₃
    refine (ends_clone_copy r).bind ?_
    intro _ w₄ h₄
    obtain ⟨-, hgrows₄, -⟩ := h₄
    refine (ends_clone_copy best).bind ?_
    intro _ w₅ h₅
    obtain ⟨-, hgrows₅, -⟩ := h₅
    have hgrows := (hgrows₄.trans hgrows₅).any fun _ => True
    exact .ret ⟨((hgrows₁.trans hgrows₂).any _).trans (hgrows₃.trans hgrows),
      .of_evaluated (hgrows.evaluated hbest)⟩

end Search

/-! ## Runs -/

section Runs

variable {this : GRASP K} {alpha : K}

theorem ends_iterate (h : Weighed p) (hthis : Partitions this p alpha) (fuel : ℕ)
    (state : GRASP.State) :
    Ends (GRASP.iterate this fuel context state) w fun state' w' =>
      state'.solution = state.solution ∧ w.Grows (fun _ => True) w' := by
  unfold GRASP.iterate
  refine (ends_construcao h hthis fuel).bind ?_
  intro start w₁ hall
  refine (ends_nonNull _).bind ?_
  intro l w₂ h₂
  obtain ⟨hl, rfl⟩ := h₂
  have hneighbor : ∀ m, l.neighbor = some m → Moves p m := by
    intro m hm
    obtain ⟨fuel', v, rfl⟩ := hthis.neighbor l m hl hm
    exact modifier_moves fuel' v
  rw [hthis.problem]
  refine (ends_search h hneighbor (hangs_of_selectsAll h hall)).bind ?_
  intro found w₃ h₃
  obtain ⟨hgrows₃, hfound⟩ := h₃
  refine (ends_isViable_hangs h hfound).bind ?_
  intro viable w₄ h₄
  obtain ⟨rfl, hgrows₄⟩ := h₄
  exact .ret ⟨rfl, (hall.1.any _).trans (hgrows₃.trans hgrows₄)⟩

theorem ends_internalExecutionGRASP (h : Weighed p) (hthis : Partitions this p alpha)
    (fuel : ℕ) :
    Ends (GRASP.internalExecutionGRASP this fuel context) w fun r w' =>
      ∃ id, w'.solutions[r]? = some (Solution.built p.toProblem id) := by
  unfold GRASP.internalExecutionGRASP
  rw [hthis.problem]
  refine (ends_buildSolution_grows _).bind ?_
  intro solution w₁ h₁
  obtain ⟨-, id, hsolution⟩ := h₁
  refine Ends.bind (Q := fun state w' =>
    state.solution = solution ∧ w₁.Grows (fun _ => True) w') ?_ ?_
  · refine .repeatWhile (I := fun (state : GRASP.State) w' =>
      state.solution = solution ∧ w₁.Grows (fun _ => True) w') ?_ ?_ ⟨rfl, .refl _ _⟩
    · intro state w₂ h₂
      obtain ⟨hsame, hgrows⟩ := h₂
      unfold GRASP.goesOn
      refine ((draws_solutions w₂).isSatisfied rfl _ _ _ _).bind ?_
      intro _ w₃ hw₃
      exact .ret ⟨hsame, hgrows.trans (.of_eq _ hw₃)⟩
    · intro state w₂ h₂
      obtain ⟨hsame, hgrows⟩ := h₂
      refine (ends_iterate h hthis fuel state).mono ?_
      intro state' w₃ h₃
      obtain ⟨hkept, hgrows₃⟩ := h₃
      exact ⟨hkept.trans hsame, hgrows.trans hgrows₃⟩
  · intro state w₂ h₂
    obtain ⟨hsame, hgrows⟩ := h₂
    refine .ret ⟨id, ?_⟩
    rw [hsame]
    exact hgrows.kept solution _ hsolution fun _ => rfl

/-- Whatever is drawn and however long it runs, GRASP with a greediness below one returns
the empty solution that it began with, which still has the value that it was built with. -/
theorem run_finds_nothing (h : Weighed p) (hthis : Partitions this p alpha) (context : Context)
    (fuel : ℕ) (solutionList : List Ref) {result : Option (List Ref)}
    {s : MetaHeuristic K × World K}
    (hrun : MetaHeuristic.processMetaHeuristic fuel solutionList context (.grasp this, w) =
      .ok result s) :
    ∃ r t, result = some [r] ∧ s.2.solutions[r]? = some t ∧ t.solutionsVector = [] ∧
      t.functionValue = some 2147483647 ∧ t.viable = false := by
  have hends : Ends (MetaHeuristic.processMetaHeuristic fuel solutionList context)
      (.grasp this, w) fun result s => ∃ r id, result = some [r] ∧
        s.2.solutions[r]? = some (Solution.built p.toProblem id) := by
    unfold MetaHeuristic.processMetaHeuristic
    refine ends_call (Q := fun _ _ => True) (fun _ _ _ => trivial) ?_
    intro _ w₁ _
    refine Ends.onState (S := fun result (s : MetaHeuristic K × World K) =>
      ∃ r id, result = some [r] ∧ s.2.solutions[r]? = some (Solution.built p.toProblem id)) ?_
    unfold GRASP.runMetaHeuristic
    refine (ends_internalExecutionGRASP h hthis fuel).bind ?_
    intro r w₂ h₂
    obtain ⟨id, hr⟩ := h₂
    exact .ret ⟨r, id, rfl, hr⟩
  obtain ⟨r, id, hresult, hr⟩ := hends result s hrun
  exact ⟨r, _, hresult, hr, rfl, rfl, rfl⟩

end Runs

section Example

open RouteConstruction (emptyWorld)
open DifferentialEvolution (returns of_returns)

theorem run_finds_nothing_example : ∃ r s t,
    MetaHeuristic.processMetaHeuristic 7 [] (some .binaryPartitionNumber)
      (.grasp examplePartition, emptyWorld) = .ok (some [r]) s ∧
    s.2.solutions[r]? = some t ∧ t.solutionsVector = [] ∧ t.functionValue = some 2147483647 ∧
    t.viable = false := by
  obtain ⟨r, s, hrun, -⟩ := of_returns (c := fun _ _ => true)
    (show returns _ (MetaHeuristic.processMetaHeuristic 7 [] (some .binaryPartitionNumber)
      (.grasp examplePartition, emptyWorld)) = true by decide +kernel)
  obtain ⟨r', t, hresult, ht, hnothing⟩ := run_finds_nothing weighed_threeWeights
    examplePartition_partitions (some .binaryPartitionNumber) 7 [] hrun
  obtain rfl : r = r' := by simpa using hresult
  exact ⟨r, s, t, hrun, ht, hnothing⟩

end Example

end DOptimas.Proofs.NothingFound
