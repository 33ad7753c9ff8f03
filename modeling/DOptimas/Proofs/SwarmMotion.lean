import DOptimas.Proofs.SwarmBest
/-!
# Particles move from their best position

The velocity of a particle follows the reference rule.  The next position is then
made from the particle's best position and not from where the particle is, so the
rule holds exactly where the two agree.
-/

namespace DOptimas.Proofs.SwarmMotion

open DOptimas.Support DOptimas.Heuristics

variable {K : Type} [RealArith K]

/-- The swarm is configured with its own two formulas. -/
structure Standard (this : PSO K) : Prop where
  velocity : this.velocityModifiers = some .psoVelocityCalcBenchmarkProblem ∨
    this.velocityModifiers = some .psoVelocityCalcFunctionProblem
  position : this.positionModifiers = some .psoPositionCalcBenchmarkProblem ∨
    this.positionModifiers = some .psoPositionCalcFunctionProblem
  candidates : ∀ c, this.velocitiesCandidateList = some c → c.Draws

section Iteration

variable {this : PSO K} {context : Context} {fuel : ℕ} {externalSolution : List Ref}
  {fields fields₁ fields' : PSO.Fields} {g g' : Ref} {offspring : List Ref}
  {w w₁ w₂ w' : World K} {n : ℕ}

theorem Standard.velocityCalc (h : Standard this) : ∃ name, ∀ rs parameters,
    modifyCollection this.velocityModifiers this.problem rs parameters (some n) =
      velocityCalc name this.problem rs parameters n := by
  rcases h.velocity with hm | hm
  · exact ⟨.benchmark, fun rs parameters => by rw [hm]; rfl⟩
  · exact ⟨.function, fun rs parameters => by rw [hm]; rfl⟩

theorem Standard.positionCalc (h : Standard this) : ∃ name, ∀ rs parameters,
    modifyCollection this.positionModifiers this.problem rs parameters (some n) =
      positionCalc name this.problem rs n := by
  rcases h.position with hm | hm
  · exact ⟨.benchmark, fun rs parameters => by rw [hm]; rfl⟩
  · exact ⟨.function, fun rs parameters => by rw [hm]; rfl⟩

structure Aligned (n : ℕ) (fields : PSO.Fields) (w : World K) (g : Ref) : Prop where
  velocity : fields.velocity.length = n
  particles : fields.particles.length = n
  particleBest : fields.particleBest.length = n
  globalBest : fields.globalBest = some g
  valid : ∀ r ∈ fields.velocity ++ fields.particles ++ fields.particleBest ++ [g],
    r < w.solutions.length

/-- The velocity `v'` by the reference rule, the candidate `c` that is made from the best
position `b`, and the position `x'` in which the particle is then. -/
structure Moves (problem : Problem K) (c1 c2 : K) (w : World K) (g x v b v' c x' : Ref) : Prop where
  velocity : ∀ j < problem.dimension, ∃ y, w.coordinate v' j = some y ∧
    VelocityOf w c1 c2 v x b g j y
  candidate : ∀ j < problem.dimension, ∃ y, w.coordinate c j = some y ∧ SumOf w b v' j y
  adopted : Viable w c ∧ x' = c ∨ ¬Viable w c ∧ x' = x

/-- The candidate is the sum of position and velocity if and only if the particle is at
its best position. -/
theorem Moves.sum_iff {problem : Problem K} {c1 c2 : K} {x v b v' c x' : Ref}
    (h : Moves problem c1 c2 w g x v b v' c x') :
    (∀ j < problem.dimension, ∃ y, w.coordinate c j = some y ∧ SumOf w x v' j y) ↔
      ∀ j < problem.dimension, w.coordinate b j = w.coordinate x j := by
  constructor
  · intro hsum j hj
    obtain ⟨y, hy, yx, yv, hx, hv, rfl⟩ := hsum j hj
    obtain ⟨z, hz, zb, zv, hb, hv', rfl⟩ := h.candidate j hj
    obtain rfl : yv = zv := Option.some.inj (hv.symm.trans hv')
    have heq : yx + yv = zb + yv := Option.some.inj (hy.symm.trans hz)
    rw [hb, hx, add_right_cancel heq]
  · intro heq j hj
    obtain ⟨y, hy, yb, yv, hb, hv, hsum⟩ := h.candidate j hj
    exact ⟨y, hy, yb, yv, by rw [← heq j hj, hb], hv, hsum⟩

theorem coordinate_of_append {new : List (Solution K)}
    (h : w'.solutions = w.solutions ++ new) {r : Ref} (hr : r < w.solutions.length) (j : ℕ) :
    w'.coordinate r j = w.coordinate r j := by
  apply World.coordinate_eq
  rw [h, List.getElem?_append_left hr]

theorem coordinate_of_new {new : List (Solution K)} (h : w'.solutions = w.solutions ++ new)
    {i : ℕ} {t : Solution K} (ht : new[i]? = some t) (j : ℕ) :
    w'.coordinate (w.solutions.length + i) j = t.coordinate j := by
  have hobject : w'.solutions[w.solutions.length + i]? = some t := by
    rw [h, List.getElem?_append_right (Nat.le_add_right _ _), Nat.add_sub_cancel_left, ht]
  rw [World.coordinate, hobject]
  rfl

theorem lt_of_range' {a n r : ℕ} (h : r ∈ List.range' a n) : r < a + n := by
  rw [List.mem_range'_1] at h
  exact h.2

theorem getElem?_range'_lt {a n i : ℕ} (h : i < n) : (List.range' a n)[i]? = some (a + i) := by
  rw [List.getElem?_range' h, Nat.one_mul]

structure Makes (this : PSO K) (n : ℕ) (fields fields₁ fields' : PSO.Fields) (g' : Ref)
    (offspring : List Ref) (c1 c2 : K) (w w₁ w₂ : World K) (new new₂ : List (Solution K)) :
    Prop where
  world₁ : w₁.solutions = w.solutions ++ new
  world₂ : w₂.solutions = w₁.solutions ++ new₂
  length₁ : new.length = n
  length₂ : new₂.length = n
  velocity : fields'.velocity = List.range' w.solutions.length n
  offspring : offspring = List.range' w₁.solutions.length n
  velocities : ∀ (i : ℕ) (t : Solution K), new[i]? = some t → ∃ v x b,
    fields.velocity[i]? = some v ∧ fields.particles[i]? = some x ∧
    fields₁.particleBest[i]? = some b ∧
    Filled this.problem (VelocityOf w c1 c2 v x b g') t
  positions : ∀ (i : ℕ) (t : Solution K), new₂[i]? = some t → ∃ v b,
    fields'.velocity[i]? = some v ∧ fields₁.particleBest[i]? = some b ∧
    Filled this.problem (SumOf w₁ b v) t

theorem Aligned.updated (h : Aligned n fields w g)
    (hupdated : PSO.Updated this w fields g fields.particles.length fields₁ g') :
    Aligned n fields₁ w g' := by
  have hfields := hupdated.same
  have hold : ∀ r, (r ∈ fields.particleBest ∨ r ∈ fields.particles) → r < w.solutions.length := by
    intro r hr
    apply h.valid r
    rcases hr with hr | hr <;> simp [hr]
  have hvelocity : fields₁.velocity = fields.velocity := by rw [hfields]
  have hparticles : fields₁.particles = fields.particles := by rw [hfields]
  refine ⟨by rw [hvelocity, h.velocity], by rw [hparticles, h.particles],
    by rw [hupdated.length, h.particleBest], by rw [hfields], fun r hr => ?_⟩
  rw [hvelocity, hparticles] at hr
  simp only [List.mem_append, List.mem_singleton] at hr
  rcases hr with ((hr | hr) | hr) | rfl
  · apply h.valid r
    simp [hr]
  · exact hold r (Or.inr hr)
  · exact hold r (hupdated.mem r hr)
  · rcases hupdated.global with rfl | hr
    · apply h.valid
      simp
    · exact hold r hr

theorem makes_of_iterated (hstandard : Standard this) (hn : (n : ℤ) = this.populationSize)
    (h : Aligned n fields w g)
    (hiterated : PSO.Iterated this fields fields₁ fields' g g' offspring w w₁ w₂ w') :
    ∃ c1 c2, this.metaHeuristicParameters.c1 = some c1 ∧
      this.metaHeuristicParameters.c2 = some c2 ∧ ∃ new new₂,
        Makes this n fields fields₁ fields' g' offspring c1 c2 w w₁ w₂ new new₂ := by
  have h₁ := h.updated hiterated.updated
  have hfields := hiterated.updated.same
  have hvelocity := hiterated.velocity
  have hposition := hiterated.position
  rw [← hn] at hvelocity hposition
  obtain ⟨name, hname⟩ := hstandard.velocityCalc (n := n)
  obtain ⟨name₂, hname₂⟩ := hstandard.positionCalc (n := n)
  rw [hname] at hvelocity
  rw [hname₂] at hposition
  have hvalid : ∀ r ∈ fields.velocity ++ fields.particles ++ fields₁.particleBest ++ [g'],
      r < w.solutions.length := by
    have hvalid₁ := h₁.valid
    rw [hfields] at hvalid₁
    exact hvalid₁
  obtain ⟨c1, c2, hc1, hc2, new, hw₁, hnew, hrange, hvelocities⟩ :=
    ends_velocityCalc h.velocity h.particles h₁.particleBest hvalid _ _ hvelocity
  have hlonger : w₁.solutions.length = w.solutions.length + n := by
    rw [hw₁, List.length_append, hnew]
  have hvelocityLength : fields'.velocity.length = n := by rw [hrange, List.length_range']
  obtain ⟨new₂, hw₂, hnew₂, hrange₂, hpositions⟩ :=
    ends_positionCalc hvelocityLength h₁.particleBest (fun r hr => by
      rw [hlonger]
      rcases List.mem_append.1 hr with hr | hr
      · rw [hrange] at hr
        exact lt_of_range' hr
      · apply Nat.lt_add_right
        apply h₁.valid r
        simp [hr]) _ _ hposition
  exact ⟨c1, c2, hc1, hc2, new, new₂, hw₁, hw₂, hnew, hnew₂, hrange, hrange₂, hvelocities,
    hpositions⟩

/-- What holds of particle `i` after an iteration. -/
def MovesAt (problem : Problem K) (c1 c2 : K) (fields fields₁ fields' : PSO.Fields) (g' : Ref)
    (offspring : List Ref) (w' : World K) (i : ℕ) : Prop :=
  ∃ x v b v' c x', fields.particles[i]? = some x ∧ fields.velocity[i]? = some v ∧
    fields₁.particleBest[i]? = some b ∧ fields'.velocity[i]? = some v' ∧
    offspring[i]? = some c ∧ fields'.particles[i]? = some x' ∧
    Moves problem c1 c2 w' g' x v b v' c x'

theorem aligned_of_makes {c1 c2 : K} {new new₂ : List (Solution K)}
    (hn : (n : ℤ) = this.populationSize) (h₁ : Aligned n fields₁ w g')
    (hiterated : PSO.Iterated this fields fields₁ fields' g g' offspring w w₁ w₂ w')
    (hmakes : Makes this n fields fields₁ fields' g' offspring c1 c2 w w₁ w₂ new new₂) :
    Aligned n fields' w' g' := by
  have hsame := hiterated.same
  have hbest : fields'.particleBest = fields₁.particleBest := by rw [hsame]
  have hparticles : fields₁.particles = fields.particles := by rw [hiterated.updated.same]
  have hlonger : w₁.solutions.length = w.solutions.length + n := by
    rw [hmakes.world₁, List.length_append, hmakes.length₁]
  have hlonger₂ : w₂.solutions.length = w₁.solutions.length + n := by
    rw [hmakes.world₂, List.length_append, hmakes.length₂]
  have hlonger' := hiterated.evaluates.length
  have hold : ∀ r < w.solutions.length, r < w'.solutions.length := fun r hr =>
    Nat.lt_of_lt_of_le hr (by omega)
  refine ⟨by rw [hmakes.velocity, List.length_range'], ?_, by rw [hbest, h₁.particleBest],
    by rw [hsame, h₁.globalBest], fun r hr => ?_⟩
  · rw [hiterated.length, ← hn]
    rfl
  · rw [hbest] at hr
    simp only [List.mem_append, List.mem_singleton] at hr
    rcases hr with ((hr | hr) | hr) | rfl
    · rw [hmakes.velocity] at hr
      exact Nat.lt_of_lt_of_le (lt_of_range' hr) (by omega)
    · obtain ⟨i, hi⟩ := List.getElem?_of_mem hr
      obtain ⟨o, ho, ⟨-, rfl⟩ | ⟨-, hx⟩⟩ := hiterated.adopts i r hi
      · have hmem := List.mem_of_getElem? ho
        rw [hmakes.offspring] at hmem
        exact Nat.lt_of_lt_of_le (lt_of_range' hmem) (by omega)
      · have hmem := List.mem_of_getElem? hx
        rw [← hparticles] at hmem
        apply hold r (h₁.valid r _)
        simp [hmem]
    · apply hold r (h₁.valid r _)
      simp [hr]
    · apply hold r (h₁.valid r _)
      simp

theorem movesAt_of_makes {c1 c2 : K} {new new₂ : List (Solution K)}
    (hn : (n : ℤ) = this.populationSize) (h : Aligned n fields w g)
    (hiterated : PSO.Iterated this fields fields₁ fields' g g' offspring w w₁ w₂ w')
    (hmakes : Makes this n fields fields₁ fields' g' offspring c1 c2 w w₁ w₂ new new₂) {i : ℕ}
    (hi : i < n) :
    MovesAt this.problem c1 c2 fields fields₁ fields' g' offspring w' i := by
  have h₁ := h.updated hiterated.updated
  have hevaluates := hiterated.evaluates
  have hlonger₂ : w₂.solutions.length = w₁.solutions.length + n := by
    rw [hmakes.world₂, List.length_append, hmakes.length₂]
  have hlonger : w₁.solutions.length = w.solutions.length + n := by
    rw [hmakes.world₁, List.length_append, hmakes.length₁]
  -- the coordinates stay from where a solution is made to the end of the iteration
  have hsame₁ : ∀ r < w₁.solutions.length, ∀ j, w₁.coordinate r j = w'.coordinate r j := by
    intro r hr j
    rw [hevaluates.coordinate r (by omega) j, coordinate_of_append hmakes.world₂ hr]
  have hsame : ∀ r < w.solutions.length, ∀ j, w.coordinate r j = w'.coordinate r j := by
    intro r hr j
    rw [← hsame₁ r (by omega) j, coordinate_of_append hmakes.world₁ hr]
  obtain ⟨t, ht⟩ : ∃ t, new[i]? = some t :=
    ⟨_, List.getElem?_eq_getElem (by rw [hmakes.length₁]; exact hi)⟩
  obtain ⟨u, hu⟩ : ∃ u, new₂[i]? = some u :=
    ⟨_, List.getElem?_eq_getElem (by rw [hmakes.length₂]; exact hi)⟩
  obtain ⟨v, x, b, hv, hx, hb, hfilled⟩ := hmakes.velocities i t ht
  obtain ⟨v', b', hv', hb', hfilled'⟩ := hmakes.positions i u hu
  obtain rfl : b = b' := Option.some.inj (hb.symm.trans hb')
  have hvmade := hv'
  rw [hmakes.velocity, getElem?_range'_lt hi] at hvmade
  obtain rfl := Option.some.inj hvmade
  have hcmade : offspring[i]? = some (w₁.solutions.length + i) := by
    rw [hmakes.offspring, getElem?_range'_lt hi]
  obtain ⟨x', hx'⟩ : ∃ x', fields'.particles[i]? = some x' := by
    refine ⟨_, List.getElem?_eq_getElem ?_⟩
    rw [hiterated.length, ← hn]
    exact hi
  have hparticles : fields₁.particles = fields.particles := by rw [hiterated.updated.same]
  have hvelocity : fields₁.velocity = fields.velocity := by rw [hiterated.updated.same]
  have hvalid : ∀ r ∈ [v, x, b, g'], r < w.solutions.length := by
    intro r hr
    apply h₁.valid
    rw [hvelocity, hparticles]
    simp only [List.mem_cons, List.not_mem_nil, or_false] at hr
    rcases hr with rfl | rfl | rfl | rfl
    · simp [List.mem_of_getElem? hv]
    · simp [List.mem_of_getElem? hx]
    · simp [List.mem_of_getElem? hb]
    · simp
  refine ⟨x, v, b, _, _, x', hx, hv, hb, hv', hcmade, hx', ?_, ?_, ?_⟩
  · intro j hj
    obtain ⟨y, hy, hrule⟩ := hfilled.coordinate j hj
    refine ⟨y, ?_, hrule.of_eq fun r hr => hsame r (hvalid r hr) j⟩
    rw [← hsame₁ _ (by omega) j, coordinate_of_new hmakes.world₁ ht, hy]
  · intro j hj
    obtain ⟨y, hy, hrule⟩ := hfilled'.coordinate j hj
    refine ⟨y, ?_, hrule.of_eq fun r hr => hsame₁ r ?_ j⟩
    · rw [hevaluates.coordinate _ (by omega) j, coordinate_of_new hmakes.world₂ hu, hy]
    · rcases List.mem_pair.1 hr with rfl | rfl
      · exact Nat.lt_of_lt_of_le (hvalid r (by simp)) (by omega)
      · omega
  · obtain ⟨o, ho, hadopts⟩ := hiterated.adopts i x' hx'
    obtain rfl := Option.some.inj (hcmade.symm.trans ho)
    refine hadopts.imp_right fun ⟨hnot, hold⟩ => ⟨hnot, ?_⟩
    exact Option.some.inj (hold.symm.trans hx)

/-- The candidate of particle `i` is its position plus its new velocity. -/
def PositionRule (problem : Problem K) (fields fields' : PSO.Fields) (offspring : List Ref)
    (w' : World K) (i : ℕ) : Prop :=
  ∃ x v' c, fields.particles[i]? = some x ∧ fields'.velocity[i]? = some v' ∧
    offspring[i]? = some c ∧
    ∀ j < problem.dimension, ∃ y, w'.coordinate c j = some y ∧ SumOf w' x v' j y

/-- Where the analyser keeps the best position of particle `i`, the particle is there. -/
def AtBest (this : PSO K) (fields : PSO.Fields) (w : World K) (i : ℕ) : Prop :=
  ∀ b x, fields.particleBest[i]? = some b → fields.particles[i]? = some x →
    w.keeps this.solutionAnalyser b x = true →
      ∀ j < this.problem.dimension, w.coordinate b j = w.coordinate x j

/-- The sum follows the reference rule exactly for the particles at their best position. -/
theorem positionRule_iff {c1 c2 : K} (h : Aligned n fields w g)
    (hupdated : PSO.Updated this w fields g fields.particles.length fields₁ g')
    (hsame : ∀ r < w.solutions.length, ∀ j, w'.coordinate r j = w.coordinate r j) {i : ℕ}
    (hmoves : MovesAt this.problem c1 c2 fields fields₁ fields' g' offspring w' i) :
    PositionRule this.problem fields fields' offspring w' i ↔ AtBest this fields w i := by
  obtain ⟨x, v, b, v', c, x', hx, hv, hb, hv', hc, hx', hmoves⟩ := hmoves
  have hi : i < n := by
    rw [← h.particles]
    exact (List.getElem?_eq_some_iff.1 hx).1
  obtain ⟨b₀, hb₀⟩ : ∃ b₀, fields.particleBest[i]? = some b₀ :=
    ⟨_, List.getElem?_eq_getElem (by rw [h.particleBest]; exact hi)⟩
  have hchosen := hupdated.chosen i b₀ x (by rw [h.particles]; exact hi) hb₀ hx
  rw [hb] at hchosen
  have hbeq := Option.some.inj hchosen
  have hold : ∀ r, (r = b₀ ∨ r = x) → ∀ j, w'.coordinate r j = w.coordinate r j := by
    intro r hr
    apply hsame r (h.valid r _)
    rcases hr with rfl | rfl
    · simp [List.mem_of_getElem? hb₀]
    · simp [List.mem_of_getElem? hx]
  have hrule : PositionRule this.problem fields fields' offspring w' i ↔
      ∀ j < this.problem.dimension, ∃ y, w'.coordinate c j = some y ∧ SumOf w' x v' j y := by
    refine ⟨?_, fun hall => ⟨x, v', c, hx, hv', hc, hall⟩⟩
    rintro ⟨y, u, d, hy, hu, hd, hall⟩
    obtain rfl := Option.some.inj (hx.symm.trans hy)
    obtain rfl := Option.some.inj (hv'.symm.trans hu)
    obtain rfl := Option.some.inj (hc.symm.trans hd)
    exact hall
  rw [hrule, hmoves.sum_iff]
  constructor
  · intro heq b₁ y hb₁ hy hkeeps j hj
    obtain rfl := Option.some.inj (hb₀.symm.trans hb₁)
    obtain rfl := Option.some.inj (hx.symm.trans hy)
    rw [if_pos hkeeps] at hbeq
    have hj' := heq j hj
    rw [hbeq, hold _ (Or.inl rfl), hold _ (Or.inr rfl)] at hj'
    exact hj'
  · intro hbest j hj
    by_cases hkeeps : w.keeps this.solutionAnalyser b₀ x = true
    · rw [if_pos hkeeps] at hbeq
      rw [hbeq, hold _ (Or.inl rfl), hold _ (Or.inr rfl)]
      exact hbest b₀ x hb₀ hx hkeeps j hj
    · rw [if_neg hkeeps] at hbeq
      rw [hbeq]

theorem aligned_of_prepared (hvalid : ∀ g, fields.globalBest = some g → g < w₁.solutions.length)
    (hsize : externalSolution.length = this.populationSize)
    (h : PSO.Prepared this externalSolution fields w₁ fields' w) :
    ∃ g, Aligned externalSolution.length fields' w g := by
  have hlt : ∀ r ∈ externalSolution, r < w.solutions.length := by
    intro r hr
    obtain ⟨s, hs, -⟩ := h.known r hr
    exact (List.getElem?_eq_some_iff.1 hs).1
  obtain ⟨g, hg, hwhere⟩ := h.global
  refine ⟨g, ?_, by rw [h.particles], by rw [h.particleBest], hg, fun r hr => ?_⟩
  · rw [h.velocity.1]
    omega
  · rw [h.particles, h.particleBest] at hr
    simp only [List.mem_append, List.mem_singleton] at hr
    rcases hr with ((hr | hr) | hr) | rfl
    · exact h.velocity.2 r hr
    · exact hlt r hr
    · exact hlt r hr
    · rcases hwhere with ⟨hmem, -⟩ | hold
      · exact hlt r hmem
      · exact Nat.lt_of_lt_of_le (hvalid r hold) h.length

theorem loop_moves (hstandard : Standard this) (hn : (n : ℤ) = this.populationSize)
    (h : Aligned n fields w g) {k k' : ℤ} {s : PSO.Fields × World K}
    (hdone : PSO.iterate this context k (fields, w) = .ok k' s) :
    ∃ c1 c2 fields₁ g' offspring w₁ w₂,
      this.metaHeuristicParameters.c1 = some c1 ∧ this.metaHeuristicParameters.c2 = some c2 ∧
      PSO.Iterated this fields fields₁ s.1 g g' offspring w w₁ w₂ s.2 ∧ Aligned n s.1 s.2 g' ∧
      ∀ i < n, MovesAt this.problem c1 c2 fields fields₁ s.1 g' offspring s.2 i ∧
        (PositionRule this.problem fields s.1 offspring s.2 i ↔ AtBest this fields w i) := by
  have hlength : fields.particleBest.length = fields.particles.length := by
    rw [h.particleBest, h.particles]
  have hsize : fields.particles.length = this.populationSize.toNat := by
    rw [h.particles]
    omega
  obtain ⟨fields₁, g', offspring, w₁, w₂, hiterated⟩ :=
    PSO.ends_iterate h.globalBest hlength hsize k _ _ hdone
  obtain ⟨c1, c2, hc1, hc2, new, new₂, hmakes⟩ := makes_of_iterated hstandard hn h hiterated
  have hsame : ∀ r < w.solutions.length, ∀ j, s.2.coordinate r j = w.coordinate r j := by
    intro r hr j
    have hr₁ : r < w₁.solutions.length := by
      rw [hmakes.world₁, List.length_append]
      exact Nat.lt_add_right _ hr
    have hr₂ : r < w₂.solutions.length := by
      rw [hmakes.world₂, List.length_append]
      exact Nat.lt_add_right _ hr₁
    rw [hiterated.evaluates.coordinate r hr₂, coordinate_of_append hmakes.world₂ hr₁,
      coordinate_of_append hmakes.world₁ hr]
  refine ⟨c1, c2, fields₁, g', offspring, w₁, w₂, hc1, hc2, hiterated,
    aligned_of_makes hn (h.updated hiterated.updated) hiterated hmakes, fun i hi => ?_⟩
  have hmoves := movesAt_of_makes hn h hiterated hmakes hi
  exact ⟨hmoves, positionRule_iff h hiterated.updated hsame hmoves⟩

theorem visits_aligned (hstandard : Standard this) (hn : (n : ℤ) = this.populationSize)
    (h : Aligned n fields w g) {k k' : ℤ} {s : PSO.Fields × World K}
    (hvisits : Visits (PSO.goesOn this) (PSO.iterate this context) k (fields, w) k' s) :
    ∃ g', Aligned n s.1 s.2 g' := by
  refine hvisits.keeps (I := fun _ s => ∃ g', Aligned n s.1 s.2 g') ⟨g, h⟩ ?_
  rintro b b' ⟨fields₁, w₁⟩ s' s'' ⟨g₁, haligned⟩ hgoes hdone
  obtain rfl : s' = (fields₁, w₁) := PSO.ends_goesOn b _ _ hgoes
  obtain ⟨-, -, -, g', -, -, -, -, -, -, hnext, -⟩ := loop_moves hstandard hn haligned hdone
  exact ⟨g', hnext⟩

/-- In every iteration of a run the velocities follow the reference rule, every block is
read at one index for one particle, and a particle moves to its candidate exactly if that
is viable.  The candidate is position plus velocity if and only if the particle is at its
best position. -/
theorem run_moves (context : Context) (fields : PSO.Fields) (w : World K)
    (hstandard : Standard this) (hsize : externalSolution.length = this.populationSize)
    (hvalid : ∀ g, fields.globalBest = some g → g < w.solutions.length) :
    ∀ s₀, PSO.prepare this externalSolution context (fields, w) = .ok () s₀ →
      ∀ k s s' k' s'',
        Visits (PSO.goesOn this) (PSO.iterate this context) 0 s₀ k s →
        PSO.goesOn this k s = .ok true s' → PSO.iterate this context k s' = .ok k' s'' →
          ∃ c1 c2 g fields₁ g' offspring w₁ w₂,
            this.metaHeuristicParameters.c1 = some c1 ∧
            this.metaHeuristicParameters.c2 = some c2 ∧
            PSO.Iterated this s.1 fields₁ s''.1 g g' offspring s.2 w₁ w₂ s''.2 ∧
            ∀ i < externalSolution.length,
              MovesAt this.problem c1 c2 s.1 fields₁ s''.1 g' offspring s''.2 i ∧
              (PositionRule this.problem s.1 s''.1 offspring s''.2 i ↔ AtBest this s.1 s.2 i) := by
  rintro ⟨fields₀, w₀⟩ hprepare k ⟨fieldsₖ, wₖ⟩ s' k' s'' hvisits hgoes hdone
  obtain ⟨g₀, hstart⟩ := aligned_of_prepared hvalid hsize
    (PSO.ends_prepare hstandard.candidates _ _ _ hprepare)
  obtain ⟨g, hhead⟩ := visits_aligned hstandard hsize hstart hvisits
  obtain rfl : s' = (fieldsₖ, wₖ) := PSO.ends_goesOn k _ _ hgoes
  obtain ⟨c1, c2, fields₁, g', offspring, w₁, w₂, hc1, hc2, hiterated, -, hall⟩ :=
    loop_moves hstandard hsize hhead hdone
  exact ⟨c1, c2, g, fields₁, g', offspring, w₁, w₂, hc1, hc2, hiterated, hall⟩

end Iteration

section Example

open DifferentialEvolution (bowl)
open SwarmBest (exampleSwarm swarmParameters swarmWorld psoBenchmarkCandidatesList_draws)

def movingSwarm : PSO ℚ :=
  { exampleSwarm with
    metaHeuristicParameters := { swarmParameters with maxIterations := some 1 } }

theorem movingSwarm_standard : Standard movingSwarm := by
  refine ⟨Or.inl rfl, Or.inl rfl, fun c hc => ?_⟩
  obtain rfl : bowl.psoBenchmarkCandidatesList = c := Option.some.inj hc
  exact psoBenchmarkCandidatesList_draws bowl

def ends {ε σ α : Type} (c : α → σ → Bool) : EStateM.Result ε σ α → Bool
  | .ok a s => c a s
  | .error _ _ => false

theorem of_ends {ε σ α : Type} {c : α → σ → Bool} {run : EStateM.Result ε σ α}
    (h : ends c run = true) : ∃ a s, run = .ok a s ∧ c a s = true := by
  unfold ends at h
  split at h
  next a s => exact ⟨a, s, rfl, h⟩
  next => cases h

def turns (c : PSO.Fields × World ℚ → Bool) (k : ℤ) (s : PSO.Fields × World ℚ) : Bool :=
  ends (fun goes s' => goes && ends (fun k' s'' => decide (k' = k + 1) && c s'')
    (PSO.iterate movingSwarm (some .benchmark) k s')) (PSO.goesOn movingSwarm k s)

theorem of_turns {c : PSO.Fields × World ℚ → Bool} {k : ℤ} {s : PSO.Fields × World ℚ}
    (h : turns c k s = true) : ∃ s' s'', PSO.goesOn movingSwarm k s = .ok true s' ∧
      PSO.iterate movingSwarm (some .benchmark) k s' = .ok (k + 1) s'' ∧ c s'' = true := by
  obtain ⟨goes, s', hgoes, h⟩ := of_ends h
  obtain ⟨rfl, h⟩ := Bool.and_eq_true_iff.1 h
  obtain ⟨k', s'', hdone, h⟩ := of_ends h
  obtain ⟨hk, hc⟩ := Bool.and_eq_true_iff.1 h
  obtain rfl := of_decide_eq_true hk
  exact ⟨s', s'', hgoes, hdone, hc⟩

def moved (s₁ s₂ : PSO.Fields × World ℚ) : Bool :=
  decide (s₁.1.particles = [6] ∧ s₂.1.velocity = [8] ∧ s₂.1.particles = [9] ∧
    s₂.2.coordinate 6 0 = some (-1 / 4) ∧ s₂.2.coordinate 8 0 = some (-1 / 4) ∧
    s₂.2.coordinate 9 0 = some 0)

/-- In the second iteration the particle is at -1/4 with the velocity -1/4, and moves from
there to 0: its best position is 1/4. -/
theorem particle_moves_from_best : ∃ s₀ s₁ s₁' s₂ x v' x',
    PSO.prepare movingSwarm [3] (some .benchmark) (⟨[], [], [], none⟩, swarmWorld) = .ok () s₀ ∧
    Visits (PSO.goesOn movingSwarm) (PSO.iterate movingSwarm (some .benchmark)) 0 s₀ 1 s₁ ∧
    PSO.goesOn movingSwarm 1 s₁ = .ok true s₁' ∧
    PSO.iterate movingSwarm (some .benchmark) 1 s₁' = .ok 2 s₂ ∧
    s₁.1.particles = [x] ∧ s₂.1.velocity = [v'] ∧ s₂.1.particles = [x'] ∧ x' ≠ x ∧
    s₂.2.coordinate x 0 = some (-1 / 4) ∧ s₂.2.coordinate v' 0 = some (-1 / 4) ∧
    s₂.2.coordinate x' 0 = some 0 := by
  obtain ⟨_, s₀, hprepare, h₀⟩ := of_ends
    (c := fun _ s₀ => turns (fun s₁ => turns (moved s₁) 1 s₁) 0 s₀)
    (show ends _ (PSO.prepare movingSwarm [3] (some .benchmark)
      (⟨[], [], [], none⟩, swarmWorld)) = true by decide +kernel)
  obtain ⟨s₀', s₁, hgoes, hdone, h₁⟩ := of_turns h₀
  obtain ⟨s₁', s₂, hgoes', hdone', h₂⟩ := of_turns h₁
  obtain ⟨hparticles, hvelocity, hnext, hx, hv, hx'⟩ := of_decide_eq_true h₂
  exact ⟨s₀, s₁, s₁', s₂, 6, 8, 9, hprepare, .next .start hgoes hdone, hgoes', hdone',
    hparticles, hvelocity, hnext, by decide, hx, hv, hx'⟩

theorem run_moves_example : ∃ s₀ s₀' s₁ g fields₁ g' offspring w₁ w₂,
    PSO.prepare movingSwarm [3] (some .benchmark) (⟨[], [], [], none⟩, swarmWorld) = .ok () s₀ ∧
    PSO.goesOn movingSwarm 0 s₀ = .ok true s₀' ∧
    PSO.iterate movingSwarm (some .benchmark) 0 s₀' = .ok 1 s₁ ∧
    PSO.Iterated movingSwarm s₀.1 fields₁ s₁.1 g g' offspring s₀.2 w₁ w₂ s₁.2 ∧
    MovesAt bowl.toProblem 1 1 s₀.1 fields₁ s₁.1 g' offspring s₁.2 0 ∧
    (PositionRule bowl.toProblem s₀.1 s₁.1 offspring s₁.2 0 ↔ AtBest movingSwarm s₀.1 s₀.2 0) := by
  obtain ⟨_, s₀, hprepare, h₀⟩ := of_ends (c := fun _ s₀ => turns (fun _ => true) 0 s₀)
    (show ends _ (PSO.prepare movingSwarm [3] (some .benchmark)
      (⟨[], [], [], none⟩, swarmWorld)) = true by decide +kernel)
  obtain ⟨s₀', s₁, hgoes, hdone, -⟩ := of_turns h₀
  obtain ⟨c1, c2, g, fields₁, g', offspring, w₁, w₂, hc1, hc2, hiterated, hall⟩ :=
    run_moves (some .benchmark) ⟨[], [], [], none⟩ swarmWorld movingSwarm_standard
      (show (([3] : List Ref).length : ℤ) = movingSwarm.populationSize from rfl)
      (fun g hg => by cases hg) s₀ hprepare 0 s₀ s₀' 1 s₁ .start hgoes hdone
  obtain rfl : 1 = c1 := Option.some.inj hc1
  obtain rfl : 1 = c2 := Option.some.inj hc2
  exact ⟨s₀, s₀', s₁, g, fields₁, g', offspring, w₁, w₂, hprepare, hgoes, hdone, hiterated,
    hall 0 Nat.zero_lt_one⟩

end Example

end DOptimas.Proofs.SwarmMotion
