import DOptimas.Heuristics.Coordinates
import DOptimas.Core.SampleHeuristics
/-!
# The trial vector of differential evolution

Each coordinate is clamped or copied, and which of the two is decided by the drawn
index and one coin for each coordinate.  The index is drawn up to the dimension
itself, which is no coordinate: with that draw it forces nothing.
-/

namespace DOptimas.Proofs.TrialVector

open DOptimas.Heuristics DOptimas.Support

variable {K : Type} [RealArith K]

section Draws

def deltaOf (w : World K) (dimension : ℕ) : ℤ := (w.choices 0 : ℤ) % (dimension + 1)

def coin (w : World K) (j : ℕ) : K := (w.uniforms j).value

abbrev Differs (w : World K) (dimension : ℕ) (probC : K) (j : ℕ) : Prop :=
  coin w j < probC ∨ (j : ℤ) = deltaOf w dimension

theorem deltaOf_bounds (w : World K) (dimension : ℕ) :
    0 ≤ deltaOf w dimension ∧ deltaOf w dimension ≤ dimension := by
  unfold deltaOf
  have hnonneg := Int.emod_nonneg (w.choices 0 : ℤ) (show (dimension : ℤ) + 1 ≠ 0 by omega)
  have hlt := Int.emod_lt_of_pos (w.choices 0 : ℤ) (show 0 < (dimension : ℤ) + 1 by omega)
  exact ⟨hnonneg, by omega⟩

/-- The drawn index forces a coordinate unless it is the dimension. -/
theorem exists_differs_iff (w : World K) (dimension : ℕ) (probC : K) :
    (∃ j < dimension, Differs w dimension probC j) ↔
      deltaOf w dimension ≠ dimension ∨ ∃ j < dimension, coin w j < probC := by
  have hbounds := deltaOf_bounds w dimension
  constructor
  · rintro ⟨j, hj, hcoin | hdelta⟩
    · exact Or.inr ⟨j, hj, hcoin⟩
    · exact Or.inl (by omega)
  · rintro (hdelta | ⟨j, hj, hcoin⟩)
    · exact ⟨(deltaOf w dimension).toNat, by omega, Or.inr (by omega)⟩
    · exact ⟨j, hj, Or.inl hcoin⟩

end Draws

def clamp (limits : K × K) (e : K) : K :=
  let e := if e < limits.1 then limits.1 else e
  if limits.2 < e then limits.2 else e

theorem clamp_bounds {limits : K × K} (h : limits.1 ≤ limits.2) (e : K) :
    limits.1 ≤ clamp limits e ∧ clamp limits e ≤ limits.2 := by
  unfold clamp
  dsimp only
  by_cases hlow : e < limits.1
  · rw [if_pos hlow, if_neg (not_lt.2 h)]
    exact ⟨le_refl _, h⟩
  · rw [if_neg hlow]
    by_cases hhigh : limits.2 < e
    · rw [if_pos hhigh]
      exact ⟨h, le_refl _⟩
    · rw [if_neg hhigh]
      exact ⟨not_lt.1 hlow, not_lt.1 hhigh⟩

def trialValue (w : World K) (dimension : ℕ) (probC scaleFactor : K) (limits : ℕ → K × K)
    (x x1 x2 x3 : ℕ → K) (j : ℕ) : K :=
  if Differs w dimension probC j then clamp (limits j) (x1 j + scaleFactor * (x2 j - x3 j))
  else x j

section Steps

variable {w w' : World K} {problem : Problem K} {dimension j : ℕ} {probC scaleFactor : K}
  {delta : ℤ} {s r1 r2 r3 : Ref} {x x1 x2 x3 : ℕ → K} {limits : K × K}

theorem returns_trialElement (hs : Coordinates dimension w s x)
    (h1 : Coordinates dimension w r1 x1) (h2 : Coordinates dimension w r2 x2)
    (h3 : Coordinates dimension w r3 x3) (hj : j < dimension)
    (hdomain : problem.domain j = .ok limits) :
    Returns (trialElement problem probC scaleFactor delta s r1 r2 r3 j) w fun e w' =>
      e.toDoubleValue =
        (if coin w 0 < probC ∨ (j : ℤ) = delta then
          clamp limits (x1 j + scaleFactor * (x2 j - x3 j)) else x j) ∧
      w'.solutions = w.solutions ∧ w'.uniforms = fun n => w.uniforms (n + 1) := by
  unfold trialElement
  apply Returns.after nextUniform_unit
  have hkeep : ∀ {r : Ref} {x : ℕ → K}, Coordinates dimension w r x →
      Coordinates dimension { w with uniforms := fun n => w.uniforms (n + 1) } r x := id
  by_cases hdiffers : coin w 0 < probC ∨ (j : ℤ) = delta
  · have hcond : (decide ((w.uniforms 0).value < probC) || decide ((j : ℤ) = delta)) = true := by
      rw [Bool.or_eq_true, decide_eq_true_iff, decide_eq_true_iff]
      exact hdiffers
    rw [if_pos hcond, if_pos hdiffers]
    apply Returns.after (getDoubleValue_eq (hkeep h1) hj)
    apply Returns.after (getDoubleValue_eq (hkeep h2) hj)
    apply Returns.after (getDoubleValue_eq (hkeep h3) hj)
    rw [hdomain]
    exact ⟨_, _, rfl, rfl, rfl, rfl⟩
  · have hcond : ¬(decide ((w.uniforms 0).value < probC) || decide ((j : ℤ) = delta)) = true := by
      rw [Bool.or_eq_true, decide_eq_true_iff, decide_eq_true_iff]
      exact hdiffers
    rw [if_neg hcond, if_neg hdiffers]
    apply Returns.after (getDoubleValue_eq (hkeep hs) hj)
    exact ⟨_, _, rfl, rfl, rfl, rfl⟩

end Steps

section Runs

variable {w : World K} {name : ProblemName} {problem : Problem K} {limits : ℕ → K × K}
  {parameters : CollectionParameters K} {probC scaleFactor : K} {s r1 r2 r3 : Ref}
  {x x1 x2 x3 : ℕ → K}

/-- The solution under construction holds the first coordinates of the trial vector. -/
def Holds (problem : Problem K) (trial : ℕ → K) (base : List (Solution K)) (i : ℕ)
    (w : World K) : Prop :=
  ∃ t, w.solutions = base ++ [t] ∧ t.problem = problem ∧ t.solutionsVector.length = i ∧
    ∀ j < i, ∃ e, t.solutionsVector[j]? = some (some e) ∧ e.toDoubleValue = trial j

theorem returns_addCoordinate {trial : ℕ → K} {base : List (Solution K)} {i : ℕ} {e : Element K}
    (h : Holds problem trial base i w) (hi : i < problem.dimension)
    (he : e.toDoubleValue = trial i) :
    Returns (addElement base.length e) w fun _ w' =>
      Holds problem trial base (i + 1) w' ∧ w'.uniforms = w.uniforms := by
  obtain ⟨t, hw, hproblem, hlength, hvalues⟩ := h
  have ht : w.solutions[base.length]? = some t := by rw [hw, List.getElem?_concat_length]
  refine ⟨_, _, addElement_eq ht (by rw [hproblem, hlength]; exact hi) e, ?_, rfl⟩
  refine ⟨{ t with solutionsVector := t.solutionsVector ++ [some e], changed := true },
    by rw [hw, set_last], hproblem, ?_, fun j hj => ?_⟩
  · rw [List.length_append, hlength, List.length_singleton]
  · by_cases hlast : j = i
    · refine ⟨e, ?_, hlast ▸ he⟩
      rw [hlast, ← hlength, List.getElem?_concat_length]
    · obtain ⟨e', he', hvalue⟩ := hvalues j (by omega)
      refine ⟨e', ?_, hvalue⟩
      rw [List.getElem?_append_left (by omega), he']

/-- The sum returns one new solution with the coordinates of the trial vector. -/
theorem returns_differentialSum (h : RealProblem name problem limits)
    (hs : Coordinates problem.dimension w s x) (h1 : Coordinates problem.dimension w r1 x1)
    (h2 : Coordinates problem.dimension w r2 x2) (h3 : Coordinates problem.dimension w r3 x3)
    (hprobC : parameters.probC = some probC)
    (hscaleFactor : parameters.scaleFactor = some scaleFactor) :
    Returns (differentialSum name problem [s, r1, r2, r3] parameters) w fun trials w' =>
      trials = [w.solutions.length] ∧
        Holds problem (trialValue w problem.dimension probC scaleFactor limits x x1 x2 x3)
          w.solutions problem.dimension w' := by
  unfold differentialSum
  rw [if_neg (not_not.2 h.name_eq)]
  apply Returns.after rfl
  apply Returns.after rfl
  apply Returns.after rfl
  apply Returns.after rfl
  apply Returns.after (nextInt_eq (by omega))
  rw [hprobC, hscaleFactor]
  apply Returns.after rfl
  apply Returns.after rfl
  apply Returns.after rfl
  have hdelta : (0 : ℤ) + (w.choices 0 : ℤ) % ((problem.dimension : ℤ) - 0 + 1) =
      deltaOf w problem.dimension := by
    rw [zero_add, sub_zero]
    rfl
  rw [hdelta]
  have hbuilt : (if problem.nullInit then List.replicate problem.dimension none
      else [] : List (Option (Element K))) = [] := by
    rw [h.nullInit_eq]
    rfl
  have hloop := fun w₁ => Returns.forM_idx (s := w₁) (List.range problem.dimension)
    (f := fun j => do
      addElement w.solutions.length
        (← trialElement problem probC scaleFactor (deltaOf w problem.dimension) s r1 r2 r3 j))
    (I := fun i w' => Holds problem
      (trialValue w problem.dimension probC scaleFactor limits x x1 x2 x3) w.solutions i w' ∧
        w'.uniforms = fun n => w.uniforms (n + i))
  apply (hloop _ ?_ ?_).bind
  · rintro _ w' ⟨hholds, -⟩
    rw [List.length_range] at hholds
    exact .ret ⟨rfl, hholds⟩
  · exact ⟨⟨_, rfl, rfl, by rw [hbuilt]; rfl, fun j hj => absurd hj (Nat.not_lt_zero j)⟩, rfl⟩
  · rintro i j hij w' ⟨hholds, huniforms⟩
    obtain ⟨hi, rfl⟩ := List.getElem?_eq_some_iff.1 hij
    rw [List.getElem_range]
    rw [List.length_range] at hi
    obtain ⟨t, hw', -⟩ := id hholds
    have hcoin : coin w' 0 = coin w i := by
      unfold coin
      rw [huniforms]
      exact congrArg (fun n => (w.uniforms n).value) (Nat.zero_add i)
    apply (returns_trialElement (hs.of_append hw') (h1.of_append hw') (h2.of_append hw')
      (h3.of_append hw') hi (h.domain_eq hi)).bind
    rintro e w'' ⟨he, hsolutions, huniforms'⟩
    rw [hcoin] at he
    have hholds' : Holds problem
        (trialValue w problem.dimension probC scaleFactor limits x x1 x2 x3) w.solutions i w'' := by
      unfold Holds
      rw [hsolutions]
      exact hholds
    apply (returns_addCoordinate hholds' hi he).mono
    rintro _ w₃ ⟨hnext, hsame⟩
    refine ⟨hnext, ?_⟩
    rw [hsame, huniforms', huniforms]
    funext n
    exact congrArg w.uniforms (by omega)

/-- The trial is a new solution of full dimension, each coordinate of which is copied or
clamped, and lies in the box where the copied vector does; no other solution changes.  Some
coordinate takes the formula unless the index is drawn as the dimension and no coin falls. -/
theorem trial_differs_iff (h : RealProblem name problem limits)
    (hs : Coordinates problem.dimension w s x) (h1 : Coordinates problem.dimension w r1 x1)
    (h2 : Coordinates problem.dimension w r2 x2) (h3 : Coordinates problem.dimension w r3 x3)
    (hprobC : parameters.probC = some probC)
    (hscaleFactor : parameters.scaleFactor = some scaleFactor) :
    (∃ w' y, differentialSum name problem [s, r1, r2, r3] parameters w =
        .ok [w.solutions.length] w' ∧
      Coordinates problem.dimension w' w.solutions.length y ∧
      (∀ j < problem.dimension,
        (Differs w problem.dimension probC j →
          y j = clamp (limits j) (x1 j + scaleFactor * (x2 j - x3 j))) ∧
        (¬Differs w problem.dimension probC j → y j = x j)) ∧
      ((∀ j < problem.dimension, (limits j).1 ≤ x j ∧ x j ≤ (limits j).2) →
        ∀ j < problem.dimension, (limits j).1 ≤ y j ∧ y j ≤ (limits j).2) ∧
      ∀ r < w.solutions.length, w'.solutions[r]? = w.solutions[r]?) ∧
    ((∃ j < problem.dimension, Differs w problem.dimension probC j) ↔
      deltaOf w problem.dimension ≠ problem.dimension ∨
        ∃ j < problem.dimension, coin w j < probC) := by
  refine ⟨?_, exists_differs_iff w problem.dimension probC⟩
  obtain ⟨trials, w', hrun, rfl, t, hw', -, hlength, hvalues⟩ :=
    returns_differentialSum h hs h1 h2 h3 hprobC hscaleFactor
  refine ⟨w', trialValue w problem.dimension probC scaleFactor limits x x1 x2 x3, hrun,
    ⟨t, by rw [hw', List.getElem?_concat_length], hlength, hvalues⟩, fun j hj => ?_,
    fun hbox j hj => ?_, fun r hr => by rw [hw', List.getElem?_append_left hr]⟩
  · exact ⟨fun hdiffers => if_pos hdiffers, fun hsame => if_neg hsame⟩
  · unfold trialValue
    by_cases hdiffers : Differs w problem.dimension probC j
    · rw [if_pos hdiffers]
      exact clamp_bounds (h.le hj) _
    · rw [if_neg hdiffers]
      exact hbox j hj

end Runs

section Example

def segment : FunctionProblem ℚ :=
  { id := 0, max := false, dimension := 1, step := 1, initialPoint := [0], domain := [(-1, 1)]
    function := fun point => .ok point.sum }

theorem realProblem_segment : RealProblem .function segment.toProblem fun _ => (-1, 1) :=
  .function segment _ (by
    intro j hj
    obtain rfl : j = 0 := by
      have hj' : j < 1 := hj
      omega
    exact ⟨rfl, by norm_num⟩)

def point (identity : ℕ) (x : ℚ) : Solution ℚ :=
  { id := identity, problem := segment.toProblem
    solutionsVector := [some (.function identity x)], functionValue := some x, viable := true
    changed := false }

def parentsWorld (choice : ℕ) : World ℚ :=
  { solutions := [point 0 0, point 1 (1 / 2), point 2 1, point 3 (1 / 4)]
    nextId := 4, nextIdentity := 4, evaluations := 0, invocations := 0, bestSolution := none
    uniforms := fun _ => Core.sampleDraw, choices := fun _ => choice, clock := fun _ => 0 }

def halves : CollectionParameters ℚ :=
  { probC := some (1 / 2), scaleFactor := some (1 / 2), c1 := none, c2 := none }

theorem coordinates_point {choice r : ℕ} {x : ℚ}
    (h : (parentsWorld choice).solutions[r]? = some (point r x)) :
    Coordinates segment.toProblem.dimension (parentsWorld choice) r fun _ => x := by
  refine ⟨point r x, h, rfl, fun j hj => ⟨.function r x, ?_, rfl⟩⟩
  obtain rfl : j = 0 := by
    have hj' : j < 1 := hj
    omega
  rfl

/-- With index zero the only coordinate takes the formula. -/
theorem trial_differs_iff_example :
    ∃ w' y, deFunctionProblemSum segment.toProblem [0, 1, 2, 3] halves (parentsWorld 0) =
        .ok [4] w' ∧ Coordinates 1 w' 4 y ∧ y 0 = 7 / 8 := by
  have htrial := trial_differs_iff realProblem_segment (w := parentsWorld 0)
    (coordinates_point (r := 0) rfl) (coordinates_point (r := 1) rfl)
    (coordinates_point (r := 2) rfl) (coordinates_point (r := 3) rfl)
    (show halves.probC = some _ from rfl) rfl
  obtain ⟨⟨w', y, hrun, hy, hvalues, -⟩, -⟩ := htrial
  refine ⟨w', y, hrun, hy, ?_⟩
  rw [(hvalues 0 Nat.zero_lt_one).1 (by decide +kernel)]
  decide +kernel

/-- With index one, which is no coordinate, the trial is a copy. -/
theorem trial_copies :
    ∃ w', deFunctionProblemSum segment.toProblem [0, 1, 2, 3] halves (parentsWorld 1) =
        .ok [4] w' ∧ Coordinates 1 w' 4 (fun _ => 0) ∧
      ¬∃ j < 1, Differs (parentsWorld 1) 1 (1 / 2 : ℚ) j := by
  obtain ⟨trials, w', hrun, rfl, t, hw', -, hlength, hvalues⟩ :=
    returns_differentialSum realProblem_segment (w := parentsWorld 1)
      (coordinates_point (r := 0) rfl) (coordinates_point (r := 1) rfl)
      (coordinates_point (r := 2) rfl) (coordinates_point (r := 3) rfl)
    (show halves.probC = some _ from rfl) rfl
  refine ⟨w', hrun, ⟨t, by rw [hw']; rfl, hlength, fun j hj => ?_⟩, by decide +kernel⟩
  obtain rfl : j = 0 := by omega
  obtain ⟨e, he, hvalue⟩ := hvalues 0 Nat.zero_lt_one
  exact ⟨e, he, hvalue.trans (by decide +kernel)⟩

end Example

end DOptimas.Proofs.TrialVector
