import DOptimas.Heuristics.Motion
/-!
# One iteration of the particle swarm

The best positions are updated when an iteration begins, and the particles move
when it ends.  A particle takes its new position where that is viable.
-/

namespace DOptimas.Heuristics

open DOptimas.Support
open DOptimas.Core (SolutionAnalyser)

variable {K : Type} [RealArith K]

theorem eq_of_range {n i a : ℕ} (h : (List.range n)[i]? = some a) : a = i ∧ i < n := by
  obtain ⟨hlt, ha⟩ := List.getElem?_eq_some_iff.1 h
  rw [List.length_range] at hlt
  rw [List.getElem_range] at ha
  exact ⟨ha.symm, hlt⟩

abbrev Known (w : World K) (r : Ref) : Prop := Evaluated (fun _ => True) w r

section Evaluations

variable {w : World K} {context : Context}

/-- What evaluations of solutions in `S` leave: the others, and all coordinates. -/
structure Evaluates (S : Ref → Prop) (w w' : World K) : Prop where
  grows : w.Grows S w'
  length : w.solutions.length ≤ w'.solutions.length
  coordinate : ∀ r < w.solutions.length, ∀ j, w'.coordinate r j = w.coordinate r j

theorem Evaluates.refl (S : Ref → Prop) (w : World K) : Evaluates S w w :=
  ⟨.refl S w, le_rfl, fun _ _ _ => rfl⟩

theorem Evaluates.trans {S T : Ref → Prop} {w' w'' : World K} (h : Evaluates S w w')
    (h' : Evaluates T w' w'') (himp : ∀ r, T r → S r) : Evaluates S w w'' := by
  refine ⟨h.grows.trans (h'.grows.mono himp), h.length.trans h'.length, fun r hr j => ?_⟩
  rw [h'.coordinate r (Nat.lt_of_lt_of_le hr h.length), h.coordinate r hr]

theorem ends_evaluate_known (r : Ref) :
    Ends (evaluate context r) w fun _ w' => Evaluates (· = r) w w' ∧ Known w' r := by
  refine (ends_evaluate context r).mono ?_
  rintro value w' ⟨s, hs, ⟨hchanged, -, rfl⟩ | ⟨hchanged, x, -, hcalculates⟩⟩
  · exact ⟨.refl _ _, s, hs, hchanged, trivial⟩
  · have hgrows := hcalculates.grows hs hchanged
    obtain ⟨t, -, clones, ht, -, -, hw', -⟩ := hcalculates
    obtain rfl : s = t := Option.some.inj (hs.symm.trans ht)
    obtain ⟨hlt, -⟩ := List.getElem?_eq_some_iff.1 hs
    have hobject : w'.solutions[r]? = some (s.calculated x) := by
      rw [hw', List.getElem?_append_left (by simpa using hlt), List.getElem?_set_self hlt]
    refine ⟨⟨hgrows, ?_, fun r' hr' j => ?_⟩, s.calculated x, hobject, rfl,
      trivial⟩
    · rw [hw', List.length_append, List.length_set]
      exact Nat.le_add_right _ _
    · by_cases hrr : r' = r
      · rw [hrr, World.coordinate, World.coordinate, hobject, hs]
        rfl
      · apply World.coordinate_eq
        rw [hw', List.getElem?_append_left (by simpa using hr'),
          List.getElem?_set_ne (Ne.symm hrr)]

theorem ends_evaluateAll (rs : List Ref) :
    Ends (PSO.evaluateAll context rs) w fun _ w' =>
      Evaluates (· ∈ rs) w w' ∧ ∀ r ∈ rs, Known w' r := by
  unfold PSO.evaluateAll
  refine (Ends.forM_idx rs (I := fun i w' => Evaluates (· ∈ rs) w w' ∧
    ∀ r ∈ rs.take i, Known w' r) ⟨.refl _ _, by simp⟩ ?_).mono ?_
  · rintro i r hr w₁ ⟨hevaluates, htaken⟩
    refine (ends_evaluate_known r).bind ?_
    rintro - w₂ ⟨hevaluates', hknown⟩
    refine .ret ⟨hevaluates.trans hevaluates' fun t ht => ht ▸ List.mem_of_getElem? hr,
      fun t ht => ?_⟩
    rw [List.take_add_one, hr] at ht
    rcases List.mem_append.1 ht with ht | ht
    · exact hevaluates'.grows.evaluated (htaken t ht)
    · obtain rfl : t = r := by simpa using ht
      exact hknown
  · rintro - w' ⟨hevaluates, htaken⟩
    rw [List.take_length] at htaken
    exact ⟨hevaluates, htaken⟩

end Evaluations

def CandidatesList.Draws (c : CandidatesList K) : Prop :=
  ∀ w : World K, Ends c.getCandidates w fun _ w' => w'.solutions = w.solutions

namespace PSO

section Updates

variable {this : PSO K} {fields : Fields} {w : World K}

theorem ends_updateGlobalBest (best : Ref) :
    Ends (updateGlobalBest this best) (fields, w) fun _ s => s.2 = w ∧ ∃ g,
      s.1 = { fields with globalBest := some g } ∧ (g = best ∨ fields.globalBest = some g) ∧
      (this.solutionAnalyser = .benchmark → w.value g ≤ w.value best ∧
        ∀ g₀, fields.globalBest = some g₀ → w.value g ≤ w.value g₀) := by
  unfold updateGlobalBest
  refine ends_fields ?_
  cases hglobal : fields.globalBest with
  | none => exact .modifies ⟨rfl, best, rfl, Or.inl rfl, fun _ => ⟨le_rfl, by simp⟩⟩
  | some g =>
      refine ends_call (ends_getBestSolution_min _ best g) ?_
      rintro g' w ⟨rfl, hchoice, hmin⟩
      refine .modifies ⟨rfl, g', rfl, hchoice.imp_right fun h => by rw [h], fun hanalyser => ?_⟩
      exact ⟨(hmin hanalyser).1, fun g₀ hg₀ => Option.some.inj hg₀ ▸ (hmin hanalyser).2⟩

theorem ends_updateParticle (i : ℕ) :
    Ends (updateParticle this i) (fields, w) fun _ s => s.2 = w ∧ ∃ b x best g,
      fields.particleBest[i]? = some b ∧ fields.particles[i]? = some x ∧
      s.1 = { fields with
        particleBest := fields.particleBest.set i best, globalBest := some g } ∧
      best = (if w.keeps this.solutionAnalyser b x then b else x) ∧
      (g = best ∨ fields.globalBest = some g) ∧
      (this.solutionAnalyser = .benchmark → w.value best ≤ w.value x ∧
        w.value g ≤ w.value best ∧ ∀ g₀, fields.globalBest = some g₀ → w.value g ≤ w.value g₀) := by
  unfold updateParticle
  refine ends_fields ?_
  refine ends_call (ends_nth fields.particleBest i) ?_
  rintro b w ⟨hb, rfl⟩
  refine ends_call (ends_nth fields.particles i) ?_
  rintro x w ⟨hx, rfl⟩
  refine ends_call (ends_getBestSolution_keeps _ b x) ?_
  rintro best w ⟨rfl, hchoice, hmin⟩
  refine ends_setFields ?_
  refine (ends_updateGlobalBest best).mono ?_
  rintro - ⟨fields', w'⟩ ⟨rfl, g, rfl, hglobal, hle⟩
  exact ⟨rfl, b, x, best, g, hb, hx, rfl, hchoice, hglobal,
    fun hanalyser => ⟨(hmin hanalyser).2, hle hanalyser⟩⟩

structure Updated (this : PSO K) (w : World K) (fields : Fields) (g : Ref) (i : ℕ)
    (fields' : Fields) (g' : Ref) : Prop where
  same : fields' = { fields with
    particleBest := fields'.particleBest, globalBest := some g' }
  length : fields'.particleBest.length = fields.particleBest.length
  mem : ∀ r ∈ fields'.particleBest, r ∈ fields.particleBest ∨ r ∈ fields.particles
  chosen : ∀ (k : ℕ) (b x : Ref), k < i → fields.particleBest[k]? = some b →
    fields.particles[k]? = some x →
      fields'.particleBest[k]? = some (if w.keeps this.solutionAnalyser b x then b else x)
  rest : ∀ k, i ≤ k → fields'.particleBest[k]? = fields.particleBest[k]?
  global : g' = g ∨ g' ∈ fields.particleBest ∨ g' ∈ fields.particles
  least : this.solutionAnalyser = .benchmark →
    (∀ r ∈ fields.particleBest, w.value g ≤ w.value r) → w.value g' ≤ w.value g ∧
      (∀ r ∈ fields'.particleBest, w.value g' ≤ w.value r) ∧
      ∀ x ∈ fields.particles.take i, w.value g' ≤ w.value x

theorem Updated.next {g g' g'' b x best : Ref} {i : ℕ} {fields' : Fields}
    (h : Updated this w fields g i fields' g') (hb : fields'.particleBest[i]? = some b)
    (hx : fields'.particles[i]? = some x)
    (hbest : best = if w.keeps this.solutionAnalyser b x then b else x)
    (hglobal : g'' = best ∨ fields'.globalBest = some g'')
    (hle : this.solutionAnalyser = .benchmark → w.value best ≤ w.value x ∧
      w.value g'' ≤ w.value best ∧
      ∀ g₀, fields'.globalBest = some g₀ → w.value g'' ≤ w.value g₀) :
    Updated this w fields g (i + 1)
      { fields' with particleBest := fields'.particleBest.set i best, globalBest := some g'' }
      g'' := by
  have hfields := h.same
  have hparticles : fields'.particles = fields.particles := by rw [hfields]
  have hglobal' : fields'.globalBest = some g' := by rw [hfields]
  rw [hparticles] at hx
  have hmem : best ∈ fields.particleBest ∨ best ∈ fields.particles := by
    rcases hbest ▸ ite_eq_or _ b x with hchoice | hchoice
    · rw [hchoice]
      exact h.mem b (List.mem_of_getElem? hb)
    · rw [hchoice]
      exact Or.inr (List.mem_of_getElem? hx)
  have hlt : i < fields'.particleBest.length := (List.getElem?_eq_some_iff.1 hb).1
  refine ⟨by rw [hfields], by rw [← h.length]; simp, fun r hr => ?_, fun k c y hk hc hy => ?_,
    fun k hk => ?_, ?_, fun hanalyser hall => ?_⟩
  · rcases List.mem_or_eq_of_mem_set hr with hold | rfl
    · exact h.mem r hold
    · exact hmem
  · rcases Nat.lt_succ_iff_lt_or_eq.1 hk with hk | rfl
    · rw [List.getElem?_set_ne (Nat.ne_of_gt hk)]
      exact h.chosen k c y hk hc hy
    · rw [h.rest k le_rfl, hc] at hb
      rw [List.getElem?_set_self hlt, hbest, Option.some.inj hb, Option.some.inj (hy.symm.trans hx)]
  · rw [List.getElem?_set_ne (Nat.ne_of_lt hk)]
    exact h.rest k (Nat.le_of_succ_le hk)
  · rcases hglobal with rfl | hold
    · exact Or.inr hmem
    · obtain rfl : g' = g'' := Option.some.inj (hglobal'.symm.trans hold)
      exact h.global
  · obtain ⟨hg, hbests, htaken⟩ := h.least hanalyser hall
    obtain ⟨hxle, hgbest, hgold⟩ := hle hanalyser
    have hold := hgold g' hglobal'
    refine ⟨hold.trans hg, fun r hr => ?_, fun y hy => ?_⟩
    · rcases List.mem_or_eq_of_mem_set hr with hmem | rfl
      · exact hold.trans (hbests r hmem)
      · exact hgbest
    · rw [List.take_add_one, hx] at hy
      rcases List.mem_append.1 hy with hy | hy
      · exact hold.trans (htaken y hy)
      · obtain rfl : y = x := by simpa using hy
        exact hgbest.trans hxle

/-- Every best position is updated, and with each of them the global best. -/
theorem ends_updateParticleBest {g : Ref} (hglobal : fields.globalBest = some g)
    (hlength : fields.particleBest.length = fields.particles.length)
    (hsize : fields.particles.length = this.populationSize.toNat) :
    Ends (updateParticleBest this) (fields, w) fun _ s => s.2 = w ∧ ∃ g',
      Updated this w fields g fields.particles.length s.1 g' := by
  unfold updateParticleBest
  refine ends_fields ?_
  have hstart : Updated this w fields g 0 fields g :=
    ⟨by rw [← hglobal], rfl, fun r hr => Or.inl hr, by simp, fun _ _ => rfl, Or.inl rfl,
      fun _ hall =>
      ⟨le_rfl, hall, by simp⟩⟩
  cases hempty : fields.particleBest.isEmpty with
  | true =>
      have hnil : fields.particleBest = [] := List.isEmpty_iff.1 hempty
      have hnone : fields.particles = [] := by
        rw [hnil] at hlength
        exact List.eq_nil_of_length_eq_zero hlength.symm
      have hsame : { fields with particleBest := fields.particles } = fields := by
        cases fields
        dsimp only at hnil hnone
        rw [hnil, hnone]
      refine .modifies ⟨rfl, g, ?_⟩
      show Updated this w fields g fields.particles.length
        { fields with particleBest := fields.particles } g
      rw [hsame, hnone]
      exact hstart
  | false =>
      have hall := Ends.forM_idx (List.range this.populationSize.toNat)
        (I := fun i (s : Fields × World K) => s.2 = w ∧ ∃ g', Updated this w fields g i s.1 g')
        (s := (fields, w)) (f := updateParticle this) ⟨rfl, g, hstart⟩ ?_
      · rw [List.length_range] at hall
        rw [if_neg Bool.false_ne_true, hsize]
        exact hall
      · rintro i a ha ⟨fields', w'⟩ ⟨rfl, g', hupdated⟩
        obtain ⟨rfl, -⟩ := eq_of_range ha
        refine (ends_updateParticle a).mono ?_
        rintro - ⟨fields'', w''⟩ ⟨rfl, b, x, best, g'', hb, hx, rfl, hchoice, hglobal', hle⟩
        exact ⟨rfl, g'', hupdated.next hb hx hchoice hglobal' hle⟩

/-- The best of the best positions takes part in the choice of the global best. -/
theorem ends_findGlobalBest :
    Ends (findGlobalBest this) (fields, w) fun _ s => s.2 = w ∧
      (fields.particleBest = [] ∧ s.1 = fields ∨ ∃ b g, b ∈ fields.particleBest ∧
        s.1 = { fields with globalBest := some g } ∧ (g = b ∨ fields.globalBest = some g) ∧
        (this.solutionAnalyser = .benchmark → (∀ r ∈ fields.particleBest, w.value g ≤ w.value r) ∧
          ∀ g₀, fields.globalBest = some g₀ → w.value g ≤ w.value g₀)) := by
  unfold findGlobalBest
  refine ends_fields ?_
  have hfind := (ends_findBestSolution (w := w) this.solutionAnalyser fields.particleBest).and
    (R := fun best _ => this.solutionAnalyser = .benchmark → ∀ b, best = some b →
      ∀ r ∈ fields.particleBest, w.value b ≤ w.value r) ?_
  · refine ends_call hfind ?_
    rintro best w ⟨⟨hmem, hnone, rfl⟩, hmin⟩
    cases best with
    | none => exact .ret ⟨rfl, Or.inl ⟨hnone rfl, rfl⟩⟩
    | some b =>
        refine (ends_updateGlobalBest b).mono ?_
        rintro - ⟨fields', w'⟩ ⟨rfl, g, rfl, hchoice, hle⟩
        refine ⟨rfl, Or.inr ⟨b, g, hmem b rfl, rfl, hchoice, fun hanalyser => ?_⟩⟩
        obtain ⟨hgb, hold⟩ := hle hanalyser
        exact ⟨fun r hr => hgb.trans (hmin hanalyser b rfl r hr), hold⟩
  · intro best w' hrun hanalyser
    rw [hanalyser] at hrun
    exact (ends_findBestSolution_min _ _ _ hrun).1

end Updates

/-! ## The turn of the loop -/

section Turn

variable {this : PSO K} {context : Context} {fields : Fields} {w : World K}

def Adopts (w : World K) (offspring particles next : List Ref) : Prop :=
  ∀ (i : ℕ) (r : Ref), next[i]? = some r → ∃ o, offspring[i]? = some o ∧
    (Viable w o ∧ r = o ∨ ¬Viable w o ∧ particles[i]? = some r)

theorem ends_adopt {offspring : List Ref} (hknown : ∀ o ∈ offspring, Known w o) (n : ℕ) :
    Ends ((List.range n).mapM (adopt offspring context)) (fields, w) fun next s =>
      s = (fields, w) ∧ next.length = n ∧ Adopts w offspring fields.particles next := by
  refine (Ends.mapM_idx (I := fun next s => s = (fields, w) ∧
    Adopts w offspring fields.particles next) ⟨rfl, fun i r hr => by simp at hr⟩ ?_).mono ?_
  · rintro i a ha next s hlength ⟨rfl, hnext⟩
    obtain ⟨rfl, -⟩ := eq_of_range ha
    have hadds : ∀ r o, offspring[a]? = some o →
        (Viable w o ∧ r = o ∨ ¬Viable w o ∧ fields.particles[a]? = some r) →
        Adopts w offspring fields.particles (next ++ [r]) := by
      intro r o ho hr k t ht
      by_cases hk : k < next.length
      · rw [List.getElem?_append_left hk] at ht
        exact hnext k t ht
      · rw [List.getElem?_append_right (not_lt.1 hk)] at ht
        obtain rfl := List.mem_singleton.1 (List.mem_of_getElem? ht)
        have hzero : k - next.length < 1 := (List.getElem?_eq_some_iff.1 ht).1
        obtain rfl : k = a := by omega
        exact ⟨o, ho, hr⟩
    unfold adopt
    refine ends_call (ends_nth offspring a) ?_
    rintro o w ⟨ho, rfl⟩
    refine ends_call (ends_isViable_again (hknown o (List.mem_of_getElem? ho))) ?_
    rintro viable w ⟨hviable, rfl⟩
    split
    next h => exact .ret ⟨rfl, hadds o o ho (Or.inl ⟨hviable.1 h, rfl⟩)⟩
    next h =>
      refine ends_fields (Ends.onState ((ends_nth fields.particles a).mono ?_))
      rintro x w ⟨hx, rfl⟩
      exact ⟨rfl, hadds x o ho (Or.inr ⟨fun hv => h (hviable.2 hv), hx⟩)⟩
  · rintro next s ⟨hlength, hs, hnext⟩
    exact ⟨hs, by simpa using hlength, hnext⟩

/-- An iteration by way of the fields `fields₁`, the world `w₁` after the velocities and
the world `w₂` after the offspring. -/
structure Iterated (this : PSO K) (fields fields₁ fields' : Fields) (g g' : Ref)
    (offspring : List Ref) (w w₁ w₂ w' : World K) : Prop where
  best : updateParticleBest this (fields, w) = .ok () (fields₁, w)
  updated : Updated this w fields g fields.particles.length fields₁ g'
  velocity : modifyCollection this.velocityModifiers this.problem
    (fields.velocity ++ fields.particles ++ fields₁.particleBest ++ [g'])
    this.metaHeuristicParameters.toCollectionParameters (some this.populationSize) w =
      .ok fields'.velocity w₁
  position : modifyCollection this.positionModifiers this.problem
    (fields'.velocity ++ fields₁.particleBest)
    this.metaHeuristicParameters.toCollectionParameters (some this.populationSize) w₁ =
      .ok offspring w₂
  evaluates : Evaluates (· ∈ offspring) w₂ w'
  known : ∀ o ∈ offspring, Known w' o
  same : fields' = { fields₁ with
    velocity := fields'.velocity, particles := fields'.particles }
  length : fields'.particles.length = this.populationSize.toNat
  adopts : Adopts w' offspring fields.particles fields'.particles

theorem ends_iterate {g : Ref} (hglobal : fields.globalBest = some g)
    (hlength : fields.particleBest.length = fields.particles.length)
    (hsize : fields.particles.length = this.populationSize.toNat) (iteration : ℤ) :
    Ends (iterate this context iteration) (fields, w) fun _ s => ∃ fields₁ g' offspring w₁ w₂,
      Iterated this fields fields₁ s.1 g g' offspring w w₁ w₂ s.2 := by
  unfold iterate
  refine Ends.bind (Q := fun _ s => updateParticleBest this (fields, w) = .ok () s ∧ s.2 = w ∧
    ∃ g', Updated this w fields g fields.particles.length s.1 g')
    (fun _ s h => ⟨h, ends_updateParticleBest hglobal hlength hsize _ s h⟩) ?_
  rintro - ⟨fields₁, w⟩ ⟨hbest, rfl, g', hupdated⟩
  dsimp only at hbest hupdated
  have hfields := hupdated.same
  have hparticles : fields₁.particles = fields.particles := by rw [hfields]
  have hvelocity : fields₁.velocity = fields.velocity := by rw [hfields]
  have hglobal' : fields₁.globalBest = some g' := by rw [hfields]
  refine ends_fields ?_
  rw [hglobal', hparticles, hvelocity]
  refine ends_call (ends_nonNull (some g')) ?_
  rintro g'' w ⟨hg, rfl⟩
  obtain rfl : g' = g'' := Option.some.inj hg
  refine ends_call (fun velocity w₁ h => h) ?_
  intro velocity w₁ hvelocities
  refine ends_setFields (ends_call (fun offspring w₂ h => h) ?_)
  intro offspring w₂ hpositions
  refine ends_call (ends_evaluateAll offspring) ?_
  rintro - w' ⟨hevaluates, hknown⟩
  refine (ends_adopt hknown _).bind ?_
  rintro next s ⟨rfl, hnext, hadopts⟩
  refine ends_setFields (.ret ⟨fields₁, g', offspring, w₁, w₂, hbest, hupdated, hvelocities,
    hpositions, hevaluates, hknown, rfl, hnext, ?_⟩)
  rw [← hparticles]
  exact hadopts

theorem ends_goesOn (iteration : ℤ) :
    Ends (goesOn this iteration) (fields, w) fun _ s => s = (fields, w) := by
  unfold goesOn
  refine ends_call (ends_nonNull this.stopCondition) ?_
  rintro stop w ⟨-, rfl⟩
  refine ends_call (ends_stop stop _ _ _ _) ?_
  rintro satisfied w rfl
  exact .ret rfl

end Turn

/-! ## The start of a run -/

section Start

variable {this : PSO K} {context : Context} {fields : Fields} {w : World K} {fuel : ℕ}

theorem ends_addCandidates {w₁ : World K} {s : Solution K} (elements : List (Element K))
    (hw₁ : w₁.solutions = w.solutions ++ [s]) (hs : s.viable = false) :
    Ends (elements.forM (addElement w.solutions.length)) w₁ fun _ w' =>
      ∃ t, w'.solutions = w.solutions ++ [t] ∧ t.viable = false := by
  refine Ends.forM
    (I := fun (w' : World K) => ∃ t, w'.solutions = w.solutions ++ [t] ∧ t.viable = false)
    ⟨s, hw₁, hs⟩ ?_
  rintro e - w₂ ⟨t, hw₂, ht⟩
  have hlast : w₂.solutions[w.solutions.length]? = some t := by simp [hw₂]
  refine (ends_addElement hlast e).mono ?_
  rintro - w₃ ⟨-, hw₃⟩
  refine ⟨{ t with solutionsVector := t.solutionsVector ++ [some e], changed := true }, ?_, ht⟩
  rw [hw₃, hw₂, List.set_append_right _ _ le_rfl, Nat.sub_self]
  rfl

theorem ends_initVelocities (hdraws : ∀ c, this.velocitiesCandidateList = some c → c.Draws) :
    Ends (initVelocities this) w fun vs w' => ∃ new : List (Solution K),
      w'.solutions = w.solutions ++ new ∧ (∀ t ∈ new, t.viable = false) ∧
      new.length = this.populationSize.toNat ∧
      vs = List.range' w.solutions.length this.populationSize.toNat := by
  unfold initVelocities
  refine (ends_appends (Q := fun _ _ t => t.viable = false) ?_).mono ?_
  · rintro i a - w₁ before -
    refine (ends_nonNull this.velocitiesCandidateList).bind ?_
    rintro c w₁ ⟨hc, rfl⟩
    refine (hdraws c hc w₁).bind ?_
    intro candidates w₂ hw₂
    refine (ends_buildSolution this.problem).bind ?_
    rintro _ w₃ ⟨rfl, id, hw₃⟩
    refine (ends_addCandidates candidates hw₃ rfl).bind ?_
    rintro - w₄ ⟨t, hw₄, ht⟩
    exact .ret ⟨by rw [hw₂], t, by rw [hw₄, hw₂], ht⟩
  · rintro vs w' ⟨new, hw', hnew, hvs, hall⟩
    rw [List.length_range] at hnew hvs
    refine ⟨new, hw', fun t ht => ?_, hnew, hvs⟩
    obtain ⟨i, hi⟩ := List.getElem?_of_mem ht
    exact hall i t hi

def prepare (this : PSO K) (externalSolution : List Ref) (context : Context) :
    Method Fields K Unit := do
  setFields fun f => { f with particles := externalSolution }
  call (evaluateAll context externalSolution)
  setFields fun f => { f with particleBest := externalSolution }
  findGlobalBest this
  let _ ← call (nonNull (← Heuristics.fields).globalBest)
  let velocity ← call (initVelocities this)
  setFields fun f => { f with velocity }

theorem runMetaHeuristic_eq (this : PSO K) (fuel : ℕ) (externalSolution : List Ref)
    (context : Context) :
    runMetaHeuristic this fuel externalSolution context = do
      prepare this externalSolution context
      let _ ← repeatWhile .unfinished (goesOn this) (iterate this context) fuel 0
      findGlobalBest this
      return some [← call (nonNull (← Heuristics.fields).globalBest)] := by
  unfold runMetaHeuristic prepare
  simp only [bind_assoc]

structure Prepared (this : PSO K) (externalSolution : List Ref) (fields₀ : Fields)
    (w₀ : World K) (fields : Fields) (w : World K) : Prop where
  length : w₀.solutions.length ≤ w.solutions.length
  particles : fields.particles = externalSolution
  particleBest : fields.particleBest = externalSolution
  velocity : fields.velocity.length = this.populationSize.toNat ∧
    ∀ v ∈ fields.velocity, v < w.solutions.length
  known : ∀ r ∈ externalSolution, Known w r
  global : ∃ g, fields.globalBest = some g ∧
    (g ∈ externalSolution ∧ (this.solutionAnalyser = .benchmark →
      ∀ r ∈ externalSolution, w.value g ≤ w.value r) ∨ fields₀.globalBest = some g)

theorem ends_prepare (hdraws : ∀ c, this.velocitiesCandidateList = some c → c.Draws)
    (externalSolution : List Ref) :
    Ends (prepare this externalSolution context) (fields, w) fun _ s =>
      Prepared this externalSolution fields w s.1 s.2 := by
  unfold prepare
  refine ends_setFields (ends_call (ends_evaluateAll externalSolution) ?_)
  rintro - w₁ ⟨hevaluates, hknown⟩
  refine ends_setFields (ends_findGlobalBest.bind ?_)
  rintro - ⟨fields₁, w₁⟩ ⟨rfl, hfound⟩
  dsimp only at hfound hknown hevaluates
  refine ends_fields (ends_call (ends_nonNull fields₁.globalBest) ?_)
  rintro g w₁ ⟨hg, rfl⟩
  refine ends_call (ends_initVelocities hdraws) ?_
  rintro velocity w₂ ⟨new, hw₂, hnew, hlength, rfl⟩
  have hgrows : w₁.Grows (fun _ => False) w₂ := grows_of_append hw₂ hnew _
  have hvelocity : ∀ v ∈ List.range' w₁.solutions.length this.populationSize.toNat,
      v < w₂.solutions.length := by
    intro v hv
    rw [List.mem_range'_1] at hv
    rw [hw₂, List.length_append, hlength]
    exact hv.2
  have hlonger : w.solutions.length ≤ w₂.solutions.length := by
    rw [hw₂, List.length_append]
    exact Nat.le_add_right_of_le hevaluates.length
  refine .modifies ?_
  have hknown₂ : ∀ r ∈ externalSolution, Known w₂ r := fun r hr => hgrows.evaluated (hknown r hr)
  rcases hfound with ⟨-, rfl⟩ | ⟨b, g', hb, rfl, hchoice, hle⟩
  · exact ⟨hlonger, rfl, rfl, ⟨List.length_range', hvelocity⟩, hknown₂, g, hg, Or.inr hg⟩
  · obtain rfl : g' = g := Option.some.inj hg
    refine ⟨hlonger, rfl, rfl, ⟨List.length_range', hvelocity⟩, hknown₂, g', rfl, ?_⟩
    rcases hchoice with rfl | hold
    · refine Or.inl ⟨hb, fun hanalyser r hr => ?_⟩
      rw [hgrows.value_eq (hknown g' hb), hgrows.value_eq (hknown r hr)]
      exact (hle hanalyser).1 r hr
    · exact Or.inr hold

theorem ends_run (externalSolution : List Ref) :
    Ends (runMetaHeuristic this fuel externalSolution context) (fields, w) fun result s =>
      ∃ s₀ last iteration g, prepare this externalSolution context (fields, w) = .ok () s₀ ∧
        Visits (goesOn this) (iterate this context) 0 s₀ iteration last ∧
        goesOn this iteration last = .ok false last ∧ findGlobalBest this last = .ok () s ∧
        s.1.globalBest = some g ∧ result = some [g] := by
  rw [runMetaHeuristic_eq]
  refine Ends.bind (Q := fun _ s => prepare this externalSolution context (fields, w) = .ok () s)
    (fun _ _ h => h) ?_
  intro _ s₀ hprepare
  refine Ends.bind (fun iteration s h => visits_of_repeatWhile h) ?_
  rintro iteration last' ⟨⟨fields₁, w₁⟩, hvisits, hgoes⟩
  obtain rfl : last' = (fields₁, w₁) := ends_goesOn iteration _ _ hgoes
  refine Ends.bind (Q := fun _ s => findGlobalBest this (fields₁, w₁) = .ok () s)
    (fun _ _ h => h) ?_
  rintro - ⟨fields₂, w₂⟩ hfind
  refine ends_fields (ends_call (ends_nonNull fields₂.globalBest) ?_)
  rintro g w₂ ⟨hg, rfl⟩
  exact .ret ⟨s₀, _, iteration, g, hprepare, hvisits, hgoes, hfind, hg, rfl⟩

end Start

end PSO

end DOptimas.Heuristics
