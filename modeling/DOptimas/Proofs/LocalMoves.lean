import DOptimas.Heuristics.Coordinates
import DOptimas.Core.SampleHeuristics
/-!
# Random moves of real coordinates

A motion adds a deviation to a value that the modifier accumulates from zero, not
to the coordinate that it replaces.  A deviation that would leave the interval is
replaced by a random part of the distance to the bound, with a random sign: the
wrong sign moves away from the bound, and may leave the interval on the other side.
-/

namespace DOptimas.Proofs.LocalMoves

open DOptimas.Heuristics DOptimas.Support

variable {K : Type} [RealArith K]

/-! ## The deviation -/

section Deviation

/-- What `getDeviation` gives for the draws of its sign and its part. -/
def deviationOf (limits : K × K) (value variation : K) (n : ℤ) (part : K) : K :=
  if limits.2 < variation + value then signOf n * (limits.2 - value) * part
  else if variation + value < limits.1 then signOf n * (value - limits.1) * part
  else variation

/-- A corrected deviation goes towards the bound, or not further than the other one. -/
structure Fits (limits : K × K) (value variation : K) (n : ℤ) (part : K) : Prop where
  upper : limits.2 < variation + value →
    n % 2 = 0 ∨ (limits.2 - value) * part ≤ value - limits.1
  lower : variation + value < limits.1 →
    n % 2 ≠ 0 ∨ (value - limits.1) * part ≤ limits.2 - value

variable {limits : K × K} {value variation part : K} {n : ℤ}

theorem part_le {distance : K} (hdistance : 0 ≤ distance) (hpart : 0 ≤ part) (hlt : part < 1) :
    0 ≤ distance * part ∧ distance * part ≤ distance :=
  ⟨mul_nonneg hdistance hpart, mul_le_of_le_one_right hdistance hlt.le⟩

theorem signOf_mul (n : ℤ) (distance part : K) :
    n % 2 = 0 ∧ signOf n * distance * part = distance * part ∨
      n % 2 ≠ 0 ∧ signOf n * distance * part = -(distance * part) := by
  unfold signOf
  by_cases hn : n % 2 = 0
  · exact Or.inl ⟨hn, by rw [if_pos hn, one_mul]⟩
  · exact Or.inr ⟨hn, by rw [if_neg hn, neg_one_mul, neg_mul]⟩

/-- The value stays in the interval exactly where the correction fits. -/
theorem deviationOf_fits (hlow : limits.1 ≤ value) (hhigh : value ≤ limits.2) (hpart : 0 ≤ part)
    (hlt : part < 1) :
    (limits.1 ≤ value + deviationOf limits value variation n part ∧
        value + deviationOf limits value variation n part ≤ limits.2) ↔
      Fits limits value variation n part := by
  have hup := part_le (sub_nonneg.2 hhigh) hpart hlt
  have hdown := part_le (sub_nonneg.2 hlow) hpart hlt
  unfold deviationOf
  by_cases hover : limits.2 < variation + value
  · have hnot : ¬variation + value < limits.1 := by
      intro hunder
      linarith
    rw [if_pos hover]
    rcases signOf_mul n (limits.2 - value) part with ⟨hn, heq⟩ | ⟨hn, heq⟩
    · rw [heq]
      constructor
      · intro _
        exact ⟨fun _ => Or.inl hn, fun hunder => absurd hunder hnot⟩
      · intro _
        exact ⟨by linarith, by linarith⟩
    · rw [heq]
      constructor
      · rintro ⟨hlow', -⟩
        exact ⟨fun _ => Or.inr (by linarith), fun hunder => absurd hunder hnot⟩
      · intro hfits
        have hle := (hfits.upper hover).resolve_left hn
        exact ⟨by linarith, by linarith⟩
  · rw [if_neg hover]
    by_cases hunder : variation + value < limits.1
    · rw [if_pos hunder]
      rcases signOf_mul n (value - limits.1) part with ⟨hn, heq⟩ | ⟨hn, heq⟩
      · rw [heq]
        constructor
        · rintro ⟨-, hhigh'⟩
          exact ⟨fun hover' => absurd hover' hover, fun _ => Or.inr (by linarith)⟩
        · intro hfits
          have hle := (hfits.lower hunder).resolve_left (not_not.2 hn)
          exact ⟨by linarith, by linarith⟩
      · rw [heq]
        constructor
        · intro _
          exact ⟨fun hover' => absurd hover' hover, fun _ => Or.inl hn⟩
        · intro _
          exact ⟨by linarith, by linarith⟩
    · rw [if_neg hunder]
      constructor
      · intro _
        exact ⟨fun hover' => absurd hover' hover, fun hunder' => absurd hunder' hunder⟩
      · intro _
        exact ⟨by linarith [not_lt.1 hunder], by linarith [not_lt.1 hover]⟩

theorem abs_deviationOf_le (hlow : limits.1 ≤ value) (hhigh : value ≤ limits.2) (hpart : 0 ≤ part)
    (hlt : part < 1) : |deviationOf limits value variation n part| ≤ |variation| := by
  have hsigned : ∀ {distance : K}, 0 ≤ distance → distance ≤ |variation| →
      |signOf n * distance * part| ≤ |variation| := by
    intro distance hdistance hle
    have hpart' := part_le hdistance hpart hlt
    rcases signOf_mul n distance part with ⟨-, heq⟩ | ⟨-, heq⟩
    · rw [heq, abs_of_nonneg hpart'.1]
      exact hpart'.2.trans hle
    · rw [heq, abs_neg, abs_of_nonneg hpart'.1]
      exact hpart'.2.trans hle
  unfold deviationOf
  split
  next hover =>
    apply hsigned (sub_nonneg.2 hhigh)
    exact (sub_le_iff_le_add.2 hover.le).trans (le_abs_self variation)
  next =>
    split
    next hunder =>
      apply hsigned (sub_nonneg.2 hlow)
      have hle : value - limits.1 ≤ -variation := by linarith
      exact hle.trans (neg_le_abs variation)
    next => exact le_refl _

theorem getDeviation_eq {w : World K} {problem : Problem K} {j : ℕ}
    (hdomain : problem.domain j = .ok limits) (hle : limits.1 ≤ limits.2) :
    Returns (getDeviation problem value variation j) w fun deviation w' =>
      deviation = deviationOf limits value variation ((w.choices 0 : ℤ) % 2) (w.uniforms 0).value ∧
        w'.solutions = w.solutions := by
  have hdraw : (nextInt 0 1 : Program K ℤ) w =
      .ok ((w.choices 0 : ℤ) % 2) { w with choices := fun n => w.choices (n + 1) } := by
    rw [nextInt_eq (by omega), zero_add, sub_zero]
    rfl
  unfold getDeviation deviationOf
  rw [hdomain]
  apply Returns.after rfl
  dsimp only
  by_cases hover : limits.2 < variation + value
  · have hnot : ¬variation + value < limits.1 := by
      intro hunder
      linarith
    rw [if_pos hover, if_pos hover]
    apply Returns.after hdraw
    apply Returns.after rfl
    apply Returns.after rfl
    rw [if_neg hnot]
    exact .ret ⟨rfl, rfl⟩
  · rw [if_neg hover, if_neg hover]
    apply Returns.after rfl
    by_cases hunder : variation + value < limits.1
    · rw [if_pos hunder, if_pos hunder]
      apply Returns.after hdraw
      apply Returns.after rfl
      exact .ret ⟨rfl, rfl⟩
    · rw [if_neg hunder, if_neg hunder]
      exact .ret ⟨rfl, rfl⟩

end Deviation

/-! ## One motion -/

section Motion

variable {w : World K} {name : ProblemName} {problem : Problem K} {limits : ℕ → K × K}
  {step : K} {solution r : Ref} {x : ℕ → K} {value : K}

def Belongs (problem : Problem K) (w : World K) (r : Ref) : Prop :=
  ∃ s, w.solutions[r]? = some s ∧ s.problem = problem

def indexOf (w : World K) (dimension : ℕ) : ℕ := w.choices 0 % dimension

def variationOf (w : World K) (step : K) : K :=
  signOf (1 + (w.choices 1 : ℤ) % 2) * (w.uniforms 0).value * step

abbrev FitsNext (limits : ℕ → K × K) (step : K) (dimension : ℕ) (value : K) (w : World K) :
    Prop :=
  Fits (limits (indexOf w dimension)) value (variationOf w step) ((w.choices 2 : ℤ) % 2)
    (w.uniforms 1).value

def nextValue (limits : ℕ → K × K) (step : K) (dimension : ℕ) (value : K) (w : World K) : K :=
  value + deviationOf (limits (indexOf w dimension)) value (variationOf w step)
    ((w.choices 2 : ℤ) % 2) (w.uniforms 1).value

theorem abs_variationOf_le (hstep : 0 ≤ step) (w : World K) : |variationOf w step| ≤ step := by
  have hpart := part_le hstep (w.uniforms 0).nonneg (w.uniforms 0).lt_one
  unfold variationOf
  rw [mul_assoc, mul_comm (w.uniforms 0).value step, ← mul_assoc]
  rcases signOf_mul (1 + (w.choices 1 : ℤ) % 2) step (w.uniforms 0).value with ⟨-, heq⟩ | ⟨-, heq⟩
  · rw [heq, abs_of_nonneg hpart.1]
    exact hpart.2
  · rw [heq, abs_neg, abs_of_nonneg hpart.1]
    exact hpart.2

/-- A motion with a position inside the vector replaces that coordinate of a clone. -/
theorem returns_benchmarkPerformsMotion {s : Solution K} (hs : w.solutions[r]? = some s) {i : ℕ}
    (hdimension : i < s.problem.dimension) (hi : i < s.solutionsVector.length) (e : Element K) :
    Returns (benchmarkPerformsMotion r i e) w fun r' w' => r' = w.solutions.length ∧
      ∃ t, w'.solutions = w.solutions ++ [t] ∧ t.problem = s.problem ∧
        t.solutionsVector = s.solutionsVector.set i (some e) := by
  unfold benchmarkPerformsMotion
  apply (returns_clone hs).bind
  rintro _ w₁ ⟨rfl, id, hw₁⟩
  have hclone : w₁.solutions[w.solutions.length]? = some { s with id, viable := false } := by
    rw [hw₁, List.getElem?_concat_length]
  apply Returns.after (deref_eq hclone)
  dsimp only
  rw [if_pos hi]
  apply Returns.after (setElement_eq hclone hdimension hi e)
  exact .ret ⟨rfl, { s with
    id, viable := false
    solutionsVector := s.solutionsVector.set i (some e), changed := true },
    by rw [hw₁, set_last], rfl, rfl⟩

theorem returns_benchmarkRandomMotion (h : RealProblem name problem limits)
    (hsolution : Belongs problem w solution) (hr : Belongs problem w r)
    (hx : Coordinates problem.dimension w r x) (hdimension : 0 < problem.dimension) :
    Returns (benchmarkRandomMotion solution step (r, value)) w fun state w' =>
      state = (w.solutions.length, nextValue limits step problem.dimension value w) ∧
        Belongs problem w' w.solutions.length ∧
        (∃ t, w'.solutions = w.solutions ++ [t]) ∧
        Coordinates problem.dimension w' w.solutions.length
          (Function.update x (indexOf w problem.dimension)
            (nextValue limits step problem.dimension value w)) := by
  obtain ⟨s, hs, rfl⟩ := hsolution
  obtain ⟨t, ht, hproblem⟩ := hr
  obtain ⟨t', ht', hlength, hvalues⟩ := hx
  obtain rfl : t = t' := Option.some.inj (ht.symm.trans ht')
  have hindex : indexOf w s.problem.dimension < s.problem.dimension := Nat.mod_lt _ hdimension
  have hdraw : (nextInt 0 ((s.problem.dimension : ℤ) - 1) : Program K ℤ) w =
      .ok (indexOf w s.problem.dimension : ℤ)
        { w with choices := fun n => w.choices (n + 1) } := by
    have hsize : (s.problem.dimension : ℤ) - 1 - 0 + 1 = s.problem.dimension := by omega
    rw [nextInt_eq (by omega), zero_add, hsize]
    rfl
  unfold benchmarkRandomMotion
  apply Returns.after (deref_eq hs)
  apply Returns.after hdraw
  apply Returns.after (nextInt_eq (by omega))
  apply Returns.after nextUniform_unit
  apply (getDeviation_eq (h.domain_eq hindex) (h.le hindex)).bind
  rintro deviation w₁ ⟨hdeviation, hw₁⟩
  have hvalue : value + deviation = nextValue limits step s.problem.dimension value w := by
    rw [hdeviation]
    rfl
  have hobject : ({ w₁ with nextIdentity := w₁.nextIdentity + 1 } : World K).solutions[r]? =
      some t := (congrArg (fun solutions => solutions[r]?) hw₁).trans ht
  apply Returns.after rfl
  apply (returns_benchmarkPerformsMotion hobject (by rw [hproblem]; exact hindex)
    (by rw [hlength]; exact hindex) _).bind
  rintro _ w₂ ⟨rfl, t₂, hw₂, hproblem₂, hvector⟩
  rw [Int.toNat_natCast] at hvector
  have hbase : ({ w₁ with nextIdentity := w₁.nextIdentity + 1 } : World K).solutions =
      w.solutions := hw₁
  rw [hbase] at hw₂ ⊢
  have ht₂ : w₂.solutions[w.solutions.length]? = some t₂ := by
    rw [hw₂, List.getElem?_concat_length]
  refine .ret ⟨congrArg (Prod.mk _) hvalue, ⟨t₂, ht₂, hproblem₂.trans hproblem⟩, ⟨t₂, hw₂⟩, t₂, ht₂,
    ?_, fun j hj => ?_⟩
  · rw [hvector, List.length_set, hlength]
  · rw [hvector]
    by_cases hj' : j = indexOf w s.problem.dimension
    · rw [hj', Function.update_self]
      exact ⟨_, List.getElem?_set_self (by rw [hlength]; exact hindex), hvalue⟩
    · rw [Function.update_of_ne hj', List.getElem?_set_ne (Ne.symm hj')]
      exact hvalues j hj

theorem benchmarkRandomMotion_throws (hsolution : Belongs problem w solution)
    (hdimension : problem.dimension = 0) (state : Ref × K) :
    benchmarkRandomMotion solution step state w = .error .numberIsTooLarge w := by
  obtain ⟨s, hs, rfl⟩ := hsolution
  have hdraw : (nextInt 0 ((s.problem.dimension : ℤ) - 1) : Program K ℤ) w =
      .error .numberIsTooLarge w := by
    unfold nextInt
    rw [if_pos (by omega)]
    rfl
  unfold benchmarkRandomMotion
  rw [bind_of_ok (deref_eq hs), bind_of_error hdraw]

end Motion

/-! ## All motions of a modifier -/

section Motions

variable {w : World K} {name : ProblemName} {problem : Problem K} {limits : ℕ → K × K}
  {step : K} {solution r : Ref} {x : ℕ → K}

def motions (solution : Ref) (step : K) (k : ℕ) : Program K (Ref × K) :=
  (List.range k).foldlM (fun state _ => benchmarkRandomMotion solution step state) (solution, 0)

theorem motions_succ (solution : Ref) (step : K) (k : ℕ) :
    motions solution step (k + 1) =
      motions solution step k >>= benchmarkRandomMotion solution step := by
  unfold motions
  rw [List.range_succ, List.foldlM_append]
  refine congrArg _ (funext fun state => ?_)
  rw [List.foldlM_cons]
  exact bind_pure _

def InBox (problem : Problem K) (limits : ℕ → K × K) (w : World K) (r : Ref) : Prop :=
  Belongs problem w r ∧ ∃ x, Coordinates problem.dimension w r x ∧
    ∀ j < problem.dimension, (limits j).1 ≤ x j ∧ x j ≤ (limits j).2

/-- The accumulated value is that of the coordinate to be replaced, and the correction
of its deviation fits. -/
def Meets (problem : Problem K) (limits : ℕ → K × K) (step : K) (state : Ref × K)
    (w : World K) : Prop :=
  (∃ x, Coordinates problem.dimension w state.1 x ∧ state.2 = x (indexOf w problem.dimension)) ∧
    FitsNext limits step problem.dimension state.2 w

/-- One coordinate changes, inside its interval and by no more than a step. -/
def Local (problem : Problem K) (limits : ℕ → K × K) (step : K) (w : World K) (r : Ref)
    (w' : World K) (r' : Ref) : Prop :=
  ∃ x j y, j < problem.dimension ∧ Coordinates problem.dimension w r x ∧
    Coordinates problem.dimension w' r' (Function.update x j y) ∧
    ((limits j).1 ≤ y ∧ y ≤ (limits j).2) ∧ |y - x j| ≤ step

/-- What one motion from a vector in the box does, where the accumulated value is the
coordinate's: it stays within a step, and in the box exactly where the correction fits. -/
theorem motion_of_current (h : RealProblem name problem limits) (hstep : 0 ≤ step)
    (hsolution : Belongs problem w solution) {value : K} (hbox : InBox problem limits w r)
    (hcurrent : ∃ x, Coordinates problem.dimension w r x ∧
      value = x (indexOf w problem.dimension)) {state : Ref × K} {w' : World K}
    (hrun : benchmarkRandomMotion solution step (r, value) w = .ok state w') :
    (∃ t, w'.solutions = w.solutions ++ [t]) ∧ Belongs problem w' state.1 ∧
      (InBox problem limits w' state.1 ↔ FitsNext limits step problem.dimension value w) ∧
      (FitsNext limits step problem.dimension value w →
        Local problem limits step w r w' state.1) := by
  have hdimension : 0 < problem.dimension := by
    by_contra hzero
    rw [benchmarkRandomMotion_throws hsolution (by omega)] at hrun
    cases hrun
  obtain ⟨hr, y, hy, hbounds⟩ := hbox
  obtain ⟨x, hx, rfl⟩ := hcurrent
  obtain ⟨state', w'', hrun', hstate, hbelongs, happend, hnext⟩ :=
    @returns_benchmarkRandomMotion K _ _ _ _ _ step _ _ _ (x (indexOf w problem.dimension)) h
      hsolution hr hx hdimension
  rw [hrun] at hrun'
  cases hrun'
  have hindex : indexOf w problem.dimension < problem.dimension := Nat.mod_lt _ hdimension
  have hbounds' : ∀ j < problem.dimension, (limits j).1 ≤ x j ∧ x j ≤ (limits j).2 := by
    intro j hj
    rw [hx.unique hy hj]
    exact hbounds j hj
  have hat := hbounds' _ hindex
  have hfits := @deviationOf_fits K _ _ _ (variationOf w step) _ ((w.choices 2 : ℤ) % 2)
    hat.1 hat.2 (w.uniforms 1).nonneg (w.uniforms 1).lt_one
  have hreference : state.1 = w.solutions.length := by rw [hstate]
  rw [← hreference] at hbelongs hnext
  refine ⟨happend, hbelongs, ⟨?_, fun hfit => ⟨hbelongs, _, hnext, fun j hj => ?_⟩⟩, fun hfit => ?_⟩
  · rintro ⟨-, z, hz, hzbounds⟩
    have hnew := hzbounds _ hindex
    rw [← hnext.unique hz hindex, Function.update_self] at hnew
    exact hfits.1 hnew
  · by_cases hj' : j = indexOf w problem.dimension
    · rw [hj', Function.update_self]
      exact hfits.2 hfit
    · rw [Function.update_of_ne hj']
      exact hbounds' j hj
  · refine ⟨x, _, _, hindex, hx, hnext, hfits.2 hfit, ?_⟩
    have hdistance := @abs_deviationOf_le K _ _ _ (variationOf w step) _
      ((w.choices 2 : ℤ) % 2) hat.1 hat.2 (w.uniforms 1).nonneg (w.uniforms 1).lt_one
    unfold nextValue
    rw [add_sub_cancel_left]
    exact hdistance.trans (abs_variationOf_le hstep w)

theorem belongs_of_append {w' : World K} (h : Belongs problem w r)
    (happend : ∃ t, w'.solutions = w.solutions ++ [t]) : Belongs problem w' r := by
  obtain ⟨s, hs, hproblem⟩ := h
  obtain ⟨t, hw'⟩ := happend
  refine ⟨s, ?_, hproblem⟩
  rw [hw', List.getElem?_append_left (List.getElem?_eq_some_iff.1 hs).1]
  exact hs

theorem inBox_of_meets (h : RealProblem name problem limits) (hstep : 0 ≤ step)
    (hbox : InBox problem limits w solution) {n : ℕ}
    (hmeets : ∀ k < n, ∀ state₁ w₁, motions solution step k w = .ok state₁ w₁ →
      Meets problem limits step state₁ w₁) :
    ∀ k ≤ n, ∀ state₁ w₁, motions solution step k w = .ok state₁ w₁ →
      Belongs problem w₁ solution ∧ InBox problem limits w₁ state₁.1 := by
  intro k
  induction k with
  | zero =>
      intro _ state₁ w₁ hrun
      cases hrun
      exact ⟨hbox.1, hbox⟩
  | succ k ih =>
      intro hk state₂ w₂ hrun
      rw [motions_succ] at hrun
      cases hfirst : motions solution step k w with
      | error e w₁ =>
          rw [bind_of_error hfirst] at hrun
          cases hrun
      | ok state₁ w₁ =>
          rw [bind_of_ok hfirst] at hrun
          obtain ⟨hsolution, hinside⟩ := ih (by omega) state₁ w₁ hfirst
          obtain ⟨hcurrent, hfits⟩ := hmeets k (by omega) state₁ w₁ hfirst
          obtain ⟨happend, -, hiff, -⟩ :=
            motion_of_current h hstep hsolution hinside hcurrent hrun
          exact ⟨belongs_of_append hsolution happend, hiff.2 hfits⟩

/-- A deviation leaves the interval exactly where its correction does not fit, and so does
a motion that accumulates from the value of the coordinate it replaces.  In every run whose
motions do so with corrections that fit, each motion changes one coordinate, inside its
interval and by no more than a step, and the result lies in the box. -/
theorem motions_local (h : RealProblem name problem limits) (hstep : 0 ≤ step)
    (hbox : InBox problem limits w solution) :
    (∀ j < problem.dimension, ∀ value variation : K, (limits j).1 ≤ value →
      value ≤ (limits j).2 → ∀ w : World K, ∃ deviation w',
        getDeviation problem value variation j w = .ok deviation w' ∧
        ((limits j).1 ≤ value + deviation ∧ value + deviation ≤ (limits j).2 ↔
          Fits (limits j) value variation ((w.choices 0 : ℤ) % 2) (w.uniforms 0).value)) ∧
    (∀ motionsCount : ℤ,
      (∀ k < motionsCount.toNat, ∀ state₁ w₁, motions solution step k w = .ok state₁ w₁ →
        Meets problem limits step state₁ w₁) →
      (∀ k < motionsCount.toNat, ∀ state₁ w₁ state₂ w₂,
        motions solution step k w = .ok state₁ w₁ →
        benchmarkRandomMotion solution step state₁ w₁ = .ok state₂ w₂ →
          Local problem limits step w₁ state₁.1 w₂ state₂.1) ∧
      ∀ r w', (benchmarkRandomSolutionModifier (some step)).modify solution motionsCount w =
        .ok r w' → InBox problem limits w' r) ∧
    ∀ (w₁ : World K) (r : Ref) (value : K), Belongs problem w₁ solution →
      InBox problem limits w₁ r →
      (∃ x, Coordinates problem.dimension w₁ r x ∧ value = x (indexOf w₁ problem.dimension)) →
      ∀ state₂ w₂, benchmarkRandomMotion solution step (r, value) w₁ = .ok state₂ w₂ →
        (InBox problem limits w₂ state₂.1 ↔ FitsNext limits step problem.dimension value w₁) := by
  refine ⟨fun j hj value variation hlow hhigh w => ?_, fun motionsCount hmeets => ?_, ?_⟩
  · obtain ⟨deviation, w', hrun, rfl, -⟩ :=
      @getDeviation_eq K _ _ value variation w _ _ (h.domain_eq hj) (h.le hj)
    exact ⟨_, w', hrun, deviationOf_fits hlow hhigh (w.uniforms 0).nonneg (w.uniforms 0).lt_one⟩
  · have hinside := inBox_of_meets h hstep hbox hmeets
    constructor
    · intro k hk state₁ w₁ state₂ w₂ hrun hmotion
      obtain ⟨hsolution, hbefore⟩ := hinside k hk.le state₁ w₁ hrun
      obtain ⟨hcurrent, hfits⟩ := hmeets k hk state₁ w₁ hrun
      exact (motion_of_current h hstep hsolution hbefore hcurrent hmotion).2.2.2 hfits
    · intro r w' hmodify
      have hrun : (motions solution step motionsCount.toNat >>= fun state =>
          (pure state.1 : Program K Ref)) w = .ok r w' := hmodify
      cases hlast : motions solution step motionsCount.toNat w with
      | error e w₁ =>
          rw [bind_of_error hlast] at hrun
          cases hrun
      | ok state₁ w₁ =>
          rw [bind_of_ok hlast] at hrun
          cases hrun
          exact (hinside _ (le_refl _) state₁ _ hlast).2
  · intro w₁ r value hsolution hbefore hcurrent state₂ w₂ hmotion
    exact (motion_of_current h hstep hsolution hbefore hcurrent hmotion).2.2.1

end Motions

section Example

def interval (lower upper : ℚ) : FunctionProblem ℚ :=
  { id := 0, max := false, dimension := 1, step := 1 / 2, initialPoint := [lower]
    domain := [(lower, upper)], function := fun point => .ok point.sum }

theorem realProblem_interval {lower upper : ℚ} (h : lower ≤ upper) :
    RealProblem .function (interval lower upper).toProblem fun _ => (lower, upper) :=
  .function (interval lower upper) _ (by
    intro j hj
    obtain rfl : j = 0 := by
      have hj' : j < 1 := hj
      omega
    exact ⟨rfl, h⟩)

def intervalWorld (lower upper x : ℚ) : World ℚ :=
  { solutions := [{ id := 0, problem := (interval lower upper).toProblem
                    solutionsVector := [some (.function 0 x)], functionValue := some x
                    viable := true, changed := false }]
    nextId := 1, nextIdentity := 1, evaluations := 0, invocations := 0, bestSolution := none
    uniforms := fun _ => Core.sampleDraw, choices := fun _ => 0, clock := fun _ => 0 }

theorem coordinates_interval (lower upper x : ℚ) :
    Coordinates 1 (intervalWorld lower upper x) 0 fun _ => x := by
  refine ⟨_, rfl, rfl, fun j hj => ⟨.function 0 x, ?_, rfl⟩⟩
  obtain rfl : j = 0 := by omega
  rfl

theorem inBox_interval {lower upper x : ℚ} (hlow : lower ≤ x) (hhigh : x ≤ upper) :
    InBox (interval lower upper).toProblem (fun _ => (lower, upper)) (intervalWorld lower upper x)
      0 :=
  ⟨⟨_, rfl, rfl⟩, fun _ => x, coordinates_interval lower upper x, fun _ _ => ⟨hlow, hhigh⟩⟩

/-- From zero the first motion is local. -/
theorem motions_local_example :
    ∃ r w', (RealModifier.realRandom.toSolutionModifier (interval (-1) 1)).modify 0 1
        (intervalWorld (-1) 1 0) = .ok r w' ∧
      InBox (interval (-1) 1).toProblem (fun _ => (-1, 1)) w' r := by
  have hinterval := realProblem_interval (show (-1 : ℚ) ≤ 1 by norm_num)
  have hbox := @inBox_interval (-1) 1 0 (by norm_num) (by norm_num)
  have hlocal := @motions_local ℚ _ _ _ _ _ (1 / 2) _ hinterval (by norm_num) hbox
  obtain ⟨state, w', hrun, -⟩ :=
    @returns_benchmarkRandomMotion ℚ _ _ _ _ _ (1 / 2) _ _ _ 0 hinterval hbox.1 hbox.1
      (coordinates_interval (-1) 1 0) Nat.zero_lt_one
  have hmotions : motions 0 (1 / 2 : ℚ) 1 (intervalWorld (-1) 1 0) = .ok state w' := by
    rw [motions_succ]
    exact (bind_of_ok rfl).trans hrun
  have hmodify : (RealModifier.realRandom.toSolutionModifier (interval (-1) 1)).modify 0 1
      (intervalWorld (-1) 1 0) = .ok state.1 w' := (bind_of_ok hmotions).trans rfl
  refine ⟨state.1, w', hmodify, (hlocal.2.1 1 ?_).2 _ _ hmodify⟩
  intro k hk state₁ w₁ hrun
  obtain rfl : k = 0 := by
    have hk' : k < 1 := hk
    omega
  cases hrun
  refine ⟨⟨fun _ => 0, coordinates_interval (-1) 1 0, rfl⟩, ⟨?_, ?_⟩⟩
  · decide +kernel
  · decide +kernel

/-- In an interval without zero the first motion leaves the box. -/
theorem motion_leaves_box :
    ∃ r w', (RealModifier.realRandom.toSolutionModifier (interval 2 4)).modify 0 1
        (intervalWorld 2 4 3) = .ok r w' ∧ Coordinates 1 w' r (fun _ => -3 / 2) ∧
      ¬InBox (interval 2 4).toProblem (fun _ => (2, 4)) w' r := by
  obtain ⟨state, w', hrun, hstate, -, -, hnext⟩ :=
    @returns_benchmarkRandomMotion ℚ _ _ _ _ _ (1 / 2) _ _ _ 0
      (realProblem_interval (show (2 : ℚ) ≤ 4 by norm_num))
      (inBox_interval (show (2 : ℚ) ≤ 3 by norm_num) (by norm_num)).1
      (inBox_interval (show (2 : ℚ) ≤ 3 by norm_num) (by norm_num)).1
      (coordinates_interval 2 4 3) Nat.zero_lt_one
  have hmotions : motions 0 (1 / 2 : ℚ) 1 (intervalWorld 2 4 3) = .ok state w' := by
    rw [motions_succ]
    exact (bind_of_ok rfl).trans hrun
  have hcoordinates : Coordinates 1 w' state.1 fun _ => -3 / 2 := by
    rw [show state.1 = 1 from congrArg Prod.fst hstate]
    obtain ⟨s, hs, hlength, hvalues⟩ := hnext
    refine ⟨s, hs, hlength, fun j hj => ?_⟩
    obtain ⟨e, he, hvalue⟩ := hvalues j hj
    obtain rfl : j = 0 := by omega
    exact ⟨e, he, hvalue.trans (by decide +kernel)⟩
  refine ⟨state.1, w', (bind_of_ok hmotions).trans rfl, hcoordinates, ?_⟩
  rintro ⟨-, x, hx, hbounds⟩
  have hsame : (-3 / 2 : ℚ) = x 0 := hcoordinates.unique hx Nat.zero_lt_one
  have hlow : (2 : ℚ) ≤ x 0 := (hbounds 0 Nat.zero_lt_one).1
  rw [← hsame] at hlow
  exact absurd hlow (by norm_num)

end Example

end DOptimas.Proofs.LocalMoves
