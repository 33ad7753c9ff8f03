import DOptimas.Heuristics.Heap
/-!
# Velocities and positions, coordinate by coordinate

The operands of the swarm's two formulas travel in one list, block behind block.
The rules here say which coordinates of which operands make a new one.
-/

namespace DOptimas.Heuristics

open DOptimas.Support

variable {K : Type} [RealArith K]

def Solution.coordinate (s : Solution K) (j : ℕ) : Option K :=
  (s.solutionsVector[j]?).join.map Element.toDoubleValue

def World.coordinate (w : World K) (r : Ref) (j : ℕ) : Option K :=
  (w.solutions[r]?).bind fun s => s.coordinate j

section Primitives

variable {w : World K}

theorem World.coordinate_eq {w' : World K} {r : Ref} (h : w'.solutions[r]? = w.solutions[r]?)
    (j : ℕ) : w'.coordinate r j = w.coordinate r j := by
  rw [World.coordinate, World.coordinate, h]

theorem ends_coordinate (r : Ref) (j : ℕ) :
    Ends (getDoubleValue r j) w fun x w' => w.coordinate r j = some x ∧ w' = w := by
  refine (ends_getDoubleValue r j).mono ?_
  rintro x w' ⟨⟨s, e, hs, he, rfl⟩, rfl⟩
  exact ⟨by simp [World.coordinate, Solution.coordinate, hs, he], rfl⟩

theorem ends_unit :
    Ends (nextUniform (0 : K) 1) w fun u w' => (0 ≤ u ∧ u ≤ 1) ∧ w'.solutions = w.solutions := by
  unfold nextUniform
  rw [if_neg (not_le.2 zero_lt_one)]
  refine Ends.bind (Q := fun u w' => (0 ≤ u ∧ u ≤ 1) ∧ w'.solutions = w.solutions)
    (.changes ⟨⟨(w.uniforms 0).nonneg, (w.uniforms 0).lt_one.le⟩, rfl⟩) ?_
  intro u w' h
  exact .ret (by simpa using h)

theorem ends_newFunctionSolutionElement (x : K) :
    Ends (newFunctionSolutionElement x) w fun e w' =>
      e.toDoubleValue = x ∧ w'.solutions = w.solutions :=
  .changes ⟨rfl, rfl⟩

def Adds (r : Ref) (t : Solution K) (e : Element K) (w w' : World K) : Prop :=
  t.solutionsVector.length < t.problem.dimension ∧ w'.solutions = w.solutions.set r
    { t with solutionsVector := t.solutionsVector ++ [some e], changed := true }

theorem ends_addElement {r : Ref} {t : Solution K} (ht : w.solutions[r]? = some t)
    (e : Element K) : Ends (addElement r e) w fun _ w' => Adds r t e w w' := by
  unfold addElement
  refine (ends_deref r).bind ?_
  rintro s w ⟨hs, rfl⟩
  obtain rfl : t = s := Option.some.inj (ht.symm.trans hs)
  split
  · exact (Ends.throws _).bind fun _ _ h => h
  next hlt => exact .modifies ⟨not_le.1 hlt, modify_eq_set hs _⟩

end Primitives

section Filling

variable {w w₁ : World K} {problem : Problem K}

structure Filled (problem : Problem K) (Q : ℕ → K → Prop) (t : Solution K) : Prop where
  same : t.problem = problem
  viable : t.viable = false
  length : t.solutionsVector.length = problem.dimension
  coordinate : ∀ j < problem.dimension, ∃ x, t.coordinate j = some x ∧ Q j x

theorem Filled.mono {Q R : ℕ → K → Prop} {t : Solution K} (h : Filled problem Q t)
    (himp : ∀ j < problem.dimension, ∀ x, Q j x → R j x) : Filled problem R t := by
  refine ⟨h.same, h.viable, h.length, fun j hj => ?_⟩
  obtain ⟨x, hx, hq⟩ := h.coordinate j hj
  exact ⟨x, hx, himp j hj x hq⟩

structure Filling (w : World K) (s : Solution K) (Q : ℕ → K → Prop) (n : ℕ) (w' : World K)
    (t : Solution K) (elements : List (Element K)) : Prop where
  solutions : w'.solutions = w.solutions ++ [t]
  problem : t.problem = s.problem
  viable : t.viable = s.viable
  vector : t.solutionsVector = s.solutionsVector ++ elements.map some
  length : elements.length = n
  fits : n = 0 ∨ s.solutionsVector.length + n ≤ s.problem.dimension
  values : ∀ (j : ℕ) (e : Element K), elements[j]? = some e → Q j e.toDoubleValue

theorem Filling.next {s t : Solution K} {Q : ℕ → K → Prop} {n : ℕ} {w' w'' : World K}
    {elements : List (Element K)} {e : Element K} (h : Filling w s Q n w' t elements)
    (hadds : Adds w.solutions.length t e w' w'') (he : Q n e.toDoubleValue) :
    Filling w s Q (n + 1) w''
      { t with solutionsVector := t.solutionsVector ++ [some e], changed := true }
      (elements ++ [e]) := by
  obtain ⟨hlt, hw''⟩ := hadds
  refine ⟨?_, h.problem, h.viable, ?_, by simp [h.length], Or.inr ?_, fun j e' he' => ?_⟩
  · rw [hw'', h.solutions, List.set_append_right _ _ le_rfl, Nat.sub_self]
    rfl
  · rw [h.vector]
    simp
  · rw [h.vector, h.problem, List.length_append, List.length_map, h.length] at hlt
    omega
  · by_cases hj : j < elements.length
    · rw [List.getElem?_append_left hj] at he'
      exact h.values j e' he'
    · rw [List.getElem?_append_right (not_lt.1 hj)] at he'
      have hzero : j - elements.length < 1 := (List.getElem?_eq_some_iff.1 he').1
      obtain rfl := List.mem_singleton.1 (List.mem_of_getElem? he')
      have hjn : j = n := by
        rw [← h.length]
        omega
      exact hjn ▸ he

theorem ends_fill {id : ℕ} (hbuilt : w₁.solutions = w.solutions ++ [Solution.built problem id])
    {step : ℕ → Program K Unit} {Q : ℕ → K → Prop}
    (hstep : ∀ j < problem.dimension, ∀ w', (∀ r < w.solutions.length,
        w'.solutions[r]? = w.solutions[r]?) → ∀ t, w'.solutions[w.solutions.length]? = some t →
      Ends (step j) w' fun _ w'' =>
        ∃ e, Q j e.toDoubleValue ∧ Adds w.solutions.length t e w' w'') :
    Ends ((List.range problem.dimension).forM step) w₁ fun _ w' =>
      ∃ t, w'.solutions = w.solutions ++ [t] ∧ Filled problem Q t := by
  refine (Ends.forM_idx (List.range problem.dimension) (I := fun n w' => ∃ t elements,
    Filling w (Solution.built problem id) Q n w' t elements)
    ⟨_, [], hbuilt, rfl, rfl, by simp, rfl, Or.inl rfl, by simp⟩ ?_).mono ?_
  · rintro n a ha w' ⟨t, elements, hfilling⟩
    obtain ⟨hlt, rfl⟩ := List.getElem?_eq_some_iff.1 ha
    rw [List.getElem_range]
    rw [List.length_range] at hlt
    refine (hstep n hlt w' (fun r hr => ?_) t ?_).mono ?_
    · rw [hfilling.solutions, List.getElem?_append_left hr]
    · rw [hfilling.solutions, List.getElem?_append_right le_rfl, Nat.sub_self]
      rfl
    · rintro - w'' ⟨e, he, hadds⟩
      exact ⟨_, _, hfilling.next hadds he⟩
  · rintro - w' ⟨t, elements, hfilling⟩
    have hlength := hfilling.length
    rw [List.length_range] at hlength
    have hempty : (Solution.built problem id).solutionsVector = [] := by
      have hfits := hfilling.fits
      rw [List.length_range] at hfits
      apply List.eq_nil_of_length_eq_zero
      rcases hfits with hzero | hfits
      · simp [Solution.built, hzero]
      · have hdimension : (Solution.built problem id).problem.dimension = problem.dimension := rfl
        omega
    have hvector := hfilling.vector
    rw [hempty, List.nil_append] at hvector
    refine ⟨t, hfilling.solutions, hfilling.problem, hfilling.viable, ?_, fun j hj => ?_⟩
    · rw [hvector, List.length_map, hlength]
    · have hj' : j < elements.length := by rwa [hlength]
      refine ⟨elements[j].toDoubleValue, ?_,
        hfilling.values j _ (List.getElem?_eq_getElem hj')⟩
      simp [Solution.coordinate, hvector, hj']

end Filling

/-! ## The two formulas -/

section Formulas

variable {w : World K} {problem : Problem K}

/-- `x` is what the velocity formula makes of coordinate `j` of the operands. -/
def VelocityOf (w : World K) (c1 c2 : K) (velocity particle best global : Ref) (j : ℕ) (x : K) :
    Prop :=
  ∃ v b y g u1 u2, w.coordinate velocity j = some v ∧ w.coordinate best j = some b ∧
    w.coordinate particle j = some y ∧ w.coordinate global j = some g ∧ (0 ≤ u1 ∧ u1 ≤ 1) ∧
    (0 ≤ u2 ∧ u2 ≤ 1) ∧ x = v + c1 * u1 * (b - y) + c2 * u2 * (g - y)

def SumOf (w : World K) (particle velocity : Ref) (j : ℕ) (x : K) : Prop :=
  ∃ y v, w.coordinate particle j = some y ∧ w.coordinate velocity j = some v ∧ x = y + v

theorem ends_velocityElement (c1 c2 : K) (velocity particle best global : Ref) (j : ℕ) :
    Ends (velocityElement c1 c2 velocity particle best global j) w fun e w' =>
      VelocityOf w c1 c2 velocity particle best global j e.toDoubleValue ∧
        w'.solutions = w.solutions := by
  unfold velocityElement
  refine (ends_coordinate velocity j).bind ?_
  rintro v w ⟨hv, rfl⟩
  refine ends_unit.bind ?_
  rintro u1 w₁ ⟨hu1, hw₁⟩
  refine (ends_coordinate best j).bind ?_
  rintro b w₁ ⟨hb, rfl⟩
  refine (ends_coordinate particle j).bind ?_
  rintro y w₁ ⟨hy, rfl⟩
  refine ends_unit.bind ?_
  rintro u2 w₂ ⟨hu2, hw₂⟩
  refine (ends_coordinate global j).bind ?_
  rintro g w₂ ⟨hg, rfl⟩
  refine (ends_newFunctionSolutionElement _).mono ?_
  rintro e w' ⟨he, hw'⟩
  have hsame₁ : ∀ r, w₁.coordinate r j = w.coordinate r j := fun r =>
    World.coordinate_eq (by rw [hw₁]) j
  have hsame₂ : ∀ r, w₂.coordinate r j = w.coordinate r j := fun r =>
    World.coordinate_eq (by rw [hw₂, hw₁]) j
  rw [hsame₁] at hb hy
  rw [hsame₂] at hg
  exact ⟨⟨v, b, y, g, u1, u2, hv, hb, hy, hg, hu1, hu2, he⟩, by rw [hw', hw₂, hw₁]⟩

theorem VelocityOf.of_eq {w' : World K} {c1 c2 x : K} {velocity particle best global : Ref}
    {j : ℕ} (h : VelocityOf w' c1 c2 velocity particle best global j x)
    (hsame : ∀ r ∈ [velocity, particle, best, global], w'.coordinate r j = w.coordinate r j) :
    VelocityOf w c1 c2 velocity particle best global j x := by
  obtain ⟨v, b, y, g, u1, u2, hv, hb, hy, hg, hrest⟩ := h
  rw [hsame _ (by simp)] at hv hb hy hg
  exact ⟨v, b, y, g, u1, u2, hv, hb, hy, hg, hrest⟩

theorem SumOf.of_eq {w' : World K} {x : K} {particle velocity : Ref} {j : ℕ}
    (h : SumOf w' particle velocity j x)
    (hsame : ∀ r ∈ [particle, velocity], w'.coordinate r j = w.coordinate r j) :
    SumOf w particle velocity j x := by
  obtain ⟨y, v, hy, hv, hx⟩ := h
  rw [hsame _ (by simp)] at hy hv
  exact ⟨y, v, hy, hv, hx⟩

theorem block_eq {α : Type} {xs block b a : List α} {lower upper : ℤ}
    (hxs : xs = b ++ (block ++ a)) (hlower : lower.toNat = b.length)
    (hupper : (upper - lower).toNat = block.length) :
    (xs.drop lower.toNat).take (upper - lower).toNat = block := by
  rw [hxs, List.drop_left' hlower.symm, List.take_left' hupper.symm]

theorem ends_velocityCalc {name : ProblemName} {velocities particles bests : List Ref}
    {global : Ref} {n : ℕ} {parameters : CollectionParameters K} (hv : velocities.length = n)
    (hp : particles.length = n) (hb : bests.length = n)
    (hold : ∀ r ∈ velocities ++ particles ++ bests ++ [global], r < w.solutions.length) :
    Ends (velocityCalc name problem (velocities ++ particles ++ bests ++ [global]) parameters n) w
      fun rs w' => ∃ c1 c2, parameters.c1 = some c1 ∧ parameters.c2 = some c2 ∧ ∃ new,
        w'.solutions = w.solutions ++ new ∧ new.length = n ∧
        rs = List.range' w.solutions.length n ∧ ∀ (i : ℕ) (t : Solution K), new[i]? = some t →
          ∃ v x b, velocities[i]? = some v ∧ particles[i]? = some x ∧ bests[i]? = some b ∧
            Filled problem (VelocityOf w c1 c2 v x b global) t := by
  have hblocks : velocities ++ particles ++ bests ++ [global] =
      velocities ++ (particles ++ (bests ++ [global])) := by simp
  unfold velocityCalc
  refine (ends_subList _ 0 n).bind ?_
  rintro vs w ⟨hvs, rfl⟩
  obtain rfl : vs = velocities :=
    hvs.trans (block_eq (b := []) hblocks rfl (by omega))
  refine (ends_subList _ n (2 * n)).bind ?_
  rintro ps w ⟨hps, rfl⟩
  obtain rfl : ps = particles := hps.trans (block_eq hblocks (by omega) (by omega))
  refine (ends_subList _ (n * 2) (n * 3)).bind ?_
  rintro bs w ⟨hbs, rfl⟩
  obtain rfl : bs = bests := hbs.trans (block_eq (List.append_assoc _ _ _)
    (by rw [List.length_append]; omega) (by omega))
  refine (ends_nth _ _).bind ?_
  rintro g w ⟨hg, rfl⟩
  obtain rfl : g = global := by
    rw [List.getElem?_append_right (by simp only [List.length_append]; omega)] at hg
    exact List.mem_singleton.1 (List.mem_of_getElem? hg)
  refine (ends_nonNull _).bind ?_
  rintro c1 w ⟨hc1, rfl⟩
  refine (ends_nonNull _).bind ?_
  rintro c2 w ⟨hc2, rfl⟩
  refine (ends_appends (Q := fun i _ t => ∃ v x b, vs[i]? = some v ∧ ps[i]? = some x ∧
    bs[i]? = some b ∧ Filled problem (VelocityOf w c1 c2 v x b g) t) ?_).mono ?_
  · intro i a ha w₁ before hw₁
    obtain ⟨hi, rfl⟩ := List.getElem?_eq_some_iff.1 ha
    rw [List.getElem_range]
    dsimp only
    split
    · exact (Ends.throws _).bind fun _ _ h => h
    · refine (ends_buildSolution problem).bind ?_
      rintro _ w₂ ⟨rfl, id, hw₂⟩
      refine (ends_nth vs i).bind ?_
      rintro v w₂ ⟨hvi, rfl⟩
      refine (ends_nth ps i).bind ?_
      rintro x w₂ ⟨hxi, rfl⟩
      refine (ends_nth bs i).bind ?_
      rintro b w₂ ⟨hbi, rfl⟩
      have hvalid : ∀ r ∈ [v, x, b, g], r < w.solutions.length := by
        intro r hr
        apply hold
        simp only [List.mem_cons, List.not_mem_nil, or_false] at hr
        rcases hr with rfl | rfl | rfl | rfl
        · simp [List.mem_of_getElem? hvi]
        · simp [List.mem_of_getElem? hxi]
        · simp [List.mem_of_getElem? hbi]
        · simp
      refine (ends_fill hw₂ (Q := VelocityOf w c1 c2 v x b g) ?_).bind ?_
      · intro j hj w₃ hsame t ht
        refine (ends_velocityElement c1 c2 v x b g j).bind ?_
        rintro e w₄ ⟨he, hw₄⟩
        refine (ends_addElement (by rw [hw₄]; exact ht) e).mono ?_
        rintro - w₅ hadds
        refine ⟨e, he.of_eq fun r hr => ?_, hadds.1, by rw [hadds.2, hw₄]⟩
        have hlt := hvalid r hr
        have hlt₁ : r < w₁.solutions.length := by
          rw [hw₁, List.length_append]
          exact Nat.lt_add_right _ hlt
        apply World.coordinate_eq
        rw [hsame r hlt₁, hw₁, List.getElem?_append_left hlt]
      · rintro - w₃ ⟨t, hw₃, hfilled⟩
        exact .ret ⟨rfl, t, hw₃, v, x, b, hvi, hxi, hbi, hfilled⟩
  · rintro rs w' ⟨new, hw', hnew, hrs, hall⟩
    have htoNat : (List.range (n : ℤ).toNat).length = n := by simp
    rw [htoNat] at hnew hrs
    exact ⟨c1, c2, hc1, hc2, new, hw', hnew, hrs, hall⟩

theorem ends_positionCalc {name : ProblemName} {velocities particles : List Ref} {n : ℕ}
    (hv : velocities.length = n) (hp : particles.length = n)
    (hold : ∀ r ∈ velocities ++ particles, r < w.solutions.length) :
    Ends (positionCalc name problem (velocities ++ particles) n) w fun rs w' => ∃ new,
      w'.solutions = w.solutions ++ new ∧ new.length = n ∧
      rs = List.range' w.solutions.length n ∧ ∀ (i : ℕ) (t : Solution K), new[i]? = some t →
        ∃ v x, velocities[i]? = some v ∧ particles[i]? = some x ∧
          Filled problem (SumOf w x v) t := by
  unfold positionCalc
  refine (ends_subList _ 0 n).bind ?_
  rintro vs w ⟨hvs, rfl⟩
  obtain rfl : vs = velocities :=
    hvs.trans (block_eq (b := []) rfl rfl (by omega))
  refine (ends_subList _ n (2 * n)).bind ?_
  rintro ps w ⟨hps, rfl⟩
  obtain rfl : ps = particles := hps.trans (block_eq (a := [])
    (by rw [List.append_nil]) (by omega) (by omega))
  refine (ends_appends (Q := fun i _ t => ∃ v x, vs[i]? = some v ∧ ps[i]? = some x ∧
    Filled problem (SumOf w x v) t) ?_).mono ?_
  · intro i a ha w₁ before hw₁
    obtain ⟨hi, rfl⟩ := List.getElem?_eq_some_iff.1 ha
    rw [List.getElem_range]
    dsimp only
    split
    · exact (Ends.throws _).bind fun _ _ h => h
    · refine (ends_buildSolution problem).bind ?_
      rintro _ w₂ ⟨rfl, id, hw₂⟩
      refine (ends_nth ps i).bind ?_
      rintro x w₂ ⟨hxi, rfl⟩
      refine (ends_nth vs i).bind ?_
      rintro v w₂ ⟨hvi, rfl⟩
      have hvalid : ∀ r ∈ [x, v], r < w.solutions.length := by
        intro r hr
        apply hold
        rcases List.mem_pair.1 hr with rfl | rfl
        · simp [List.mem_of_getElem? hxi]
        · simp [List.mem_of_getElem? hvi]
      refine (ends_fill hw₂ (Q := SumOf w x v) ?_).bind ?_
      · intro j hj w₃ hsame t ht
        refine (ends_coordinate x j).bind ?_
        rintro y w₃ ⟨hy, rfl⟩
        refine (ends_coordinate v j).bind ?_
        rintro z w₃ ⟨hz, rfl⟩
        refine (ends_newFunctionSolutionElement _).bind ?_
        rintro e w₄ ⟨he, hw₄⟩
        refine (ends_addElement (by rw [hw₄]; exact ht) e).mono ?_
        rintro - w₅ hadds
        have hsum : SumOf w₃ x v j e.toDoubleValue := ⟨y, z, hy, hz, he⟩
        refine ⟨e, hsum.of_eq fun r hr => ?_, hadds.1, by rw [hadds.2, hw₄]⟩
        have hlt := hvalid r hr
        have hlt₁ : r < w₁.solutions.length := by
          rw [hw₁, List.length_append]
          exact Nat.lt_add_right _ hlt
        apply World.coordinate_eq
        rw [hsame r hlt₁, hw₁, List.getElem?_append_left hlt]
      · rintro - w₃ ⟨t, hw₃, hfilled⟩
        exact .ret ⟨rfl, t, hw₃, v, x, hvi, hxi, hfilled⟩
  · rintro rs w' ⟨new, hw', hnew, hrs, hall⟩
    have htoNat : (List.range (n : ℤ).toNat).length = n := by simp
    rw [htoNat] at hnew hrs
    exact ⟨new, hw', hnew, hrs, hall⟩

end Formulas

end DOptimas.Heuristics
