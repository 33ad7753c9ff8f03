import DOptimas.Heuristics.Swarm
import DOptimas.Proofs.DifferentialEvolution
/-!
# The swarm does not look at its last positions

The global best is compared with the particles when an iteration begins.  Those
that move into the last positions are compared with nothing any more, so the run
returns the best of all positions but these.
-/

namespace DOptimas.Proofs.SwarmBest

open DOptimas.Support DOptimas.Heuristics
open DOptimas.Core (SolutionAnalyser)

variable {K : Type} [RealArith K]

section Run

variable {this : PSO K} {context : Context} {fuel : ℕ} {externalSolution : List Ref}
  {fields fields₁ fields' : PSO.Fields} {g g' : Ref} {offspring : List Ref}
  {w w₁ w₂ w' : World K}

structure Head (this : PSO K) (fields : PSO.Fields) (w : World K) (g : Ref) : Prop where
  size : fields.particles.length = this.populationSize.toNat
  length : fields.particleBest.length = fields.particles.length
  particles : ∀ x ∈ fields.particles, Known w x
  particleBest : ∀ r ∈ fields.particleBest, Known w r
  globalBest : fields.globalBest = some g
  known : Known w g
  least : ∀ r ∈ fields.particleBest, w.value g ≤ w.value r

theorem kept_of_iterated
    (h : PSO.Iterated this fields fields₁ fields' g g' offspring w w₁ w₂ w') {r : Ref}
    (hr : Known w r) : Known w' r ∧ w'.value r = w.value r := by
  obtain ⟨hgrows₁, -⟩ := ends_modifyCollection _ _ _ _ _ _ _ h.velocity
  obtain ⟨hgrows₂, -⟩ := ends_modifyCollection _ _ _ _ _ _ _ h.position
  have hgrows : w.Grows (· ∈ offspring) w' :=
    ((hgrows₁.trans hgrows₂).any _).trans h.evaluates.grows
  exact ⟨hgrows.evaluated hr, hgrows.value_eq hr⟩

/-- After an iteration the global best is at least as good as before, and as every
position in which the iteration began. -/
theorem Head.next (hanalyser : this.solutionAnalyser = .benchmark) (h : Head this fields w g)
    (hiterated : PSO.Iterated this fields fields₁ fields' g g' offspring w w₁ w₂ w') :
    Head this fields' w' g' ∧ w'.value g' ≤ w'.value g ∧
      ∀ x ∈ fields.particles, w'.value g' ≤ w'.value x := by
  have hupdated := hiterated.updated
  have hbest : fields'.particleBest = fields₁.particleBest := by rw [hiterated.same]
  have hglobal : fields'.globalBest = some g' := by rw [hiterated.same, hupdated.same]
  have hknown₁ : ∀ r, (r ∈ fields.particleBest ∨ r ∈ fields.particles) → Known w r :=
    fun r hr => hr.elim (h.particleBest r) (h.particles r)
  have hg' : Known w g' := by
    rcases hupdated.global with rfl | hmem
    · exact h.known
    · exact hknown₁ g' hmem
  have hvalue : ∀ {r}, Known w r → w'.value r = w.value r :=
    fun hr => (kept_of_iterated hiterated hr).2
  obtain ⟨hle, hbests, htaken⟩ := hupdated.least hanalyser h.least
  rw [List.take_length] at htaken
  refine ⟨⟨hiterated.length, ?_, fun x hx => ?_, fun r hr => ?_, hglobal,
    (kept_of_iterated hiterated hg').1, fun r hr => ?_⟩, ?_, fun x hx => ?_⟩
  · rw [hbest, hupdated.length, h.length, h.size, hiterated.length]
  · obtain ⟨i, hi⟩ := List.getElem?_of_mem hx
    obtain ⟨o, ho, ⟨-, rfl⟩ | ⟨-, hold⟩⟩ := hiterated.adopts i x hi
    · exact hiterated.known x (List.mem_of_getElem? ho)
    · exact (kept_of_iterated hiterated (h.particles x (List.mem_of_getElem? hold))).1
  · rw [hbest] at hr
    exact (kept_of_iterated hiterated (hknown₁ r (hupdated.mem r hr))).1
  · rw [hbest] at hr
    rw [hvalue hg', hvalue (hknown₁ r (hupdated.mem r hr))]
    exact hbests r hr
  · rw [hvalue hg', hvalue h.known]
    exact hle
  · rw [hvalue hg', hvalue (h.particles x hx)]
    exact htaken x hx

theorem loop_turn (hanalyser : this.solutionAnalyser = .benchmark) (h : Head this fields w g)
    {k k' : ℤ} {s' s'' : PSO.Fields × World K}
    (hgoes : PSO.goesOn this k (fields, w) = .ok true s')
    (hdone : PSO.iterate this context k s' = .ok k' s'') :
    ∃ g', Head this s''.1 s''.2 g' ∧ s''.2.value g' ≤ s''.2.value g ∧
      (∀ x ∈ fields.particles, s''.2.value g' ≤ s''.2.value x) ∧
      ∀ r, Known w r → Known s''.2 r ∧ s''.2.value r = w.value r := by
  obtain rfl : s' = (fields, w) := PSO.ends_goesOn k _ _ hgoes
  obtain ⟨fields₁, g', offspring, w₁, w₂, hiterated⟩ :=
    PSO.ends_iterate h.globalBest h.length h.size k _ _ hdone
  obtain ⟨hnext, hle, hparticles⟩ := h.next hanalyser hiterated
  exact ⟨g', hnext, hle, hparticles, fun r hr => kept_of_iterated hiterated hr⟩

/-- From where the loop stands to where it comes: the global best is at least as good as
every position that was left behind. -/
theorem visits_covers (hanalyser : this.solutionAnalyser = .benchmark)
    (h : Head this fields w g) {k k' : ℤ} {s : PSO.Fields × World K}
    (hvisits : Visits (PSO.goesOn this) (PSO.iterate this context) k (fields, w) k' s) :
    ∃ g', Head this s.1 s.2 g' ∧ ((k', s) = (k, (fields, w)) ∨
      ∀ x ∈ fields.particles, Known s.2 x ∧ s.2.value g' ≤ s.2.value x) := by
  refine hvisits.keeps (I := fun k' s => ∃ g', Head this s.1 s.2 g' ∧
    ((k', s) = (k, (fields, w)) ∨
      ∀ x ∈ fields.particles, Known s.2 x ∧ s.2.value g' ≤ s.2.value x))
    ⟨g, h, Or.inl rfl⟩ ?_
  rintro b b' ⟨fields₁, w₁⟩ s' s'' ⟨g₁, hhead, hwhere⟩ hgoes hdone
  obtain ⟨g', hnext, hle, hparticles, hkept⟩ := loop_turn hanalyser hhead hgoes hdone
  refine ⟨g', hnext, Or.inr fun x hx => ?_⟩
  rcases hwhere with heq | hcovers
  · obtain ⟨rfl, hs⟩ := Prod.mk.inj heq
    obtain ⟨rfl, rfl⟩ := Prod.mk.inj hs
    exact ⟨(hkept x (h.particles x hx)).1, hparticles x hx⟩
  · obtain ⟨hknown, hcovered⟩ := hcovers x hx
    obtain ⟨hknown', hvalue⟩ := hkept x hknown
    refine ⟨hknown', hle.trans ?_⟩
    rw [hvalue, (hkept g₁ hhead.known).2]
    exact hcovered

theorem head_of_prepared (hanalyser : this.solutionAnalyser = .benchmark)
    (hfresh : fields.globalBest = none) (hsize : externalSolution.length = this.populationSize)
    (h : PSO.Prepared this externalSolution fields w₁ fields' w) : ∃ g, Head this fields' w g := by
  obtain ⟨g, hg, ⟨hmem, hleast⟩ | hold⟩ := h.global
  · refine ⟨g, ?_, by rw [h.particleBest, h.particles], fun x hx => ?_, fun r hr => ?_, hg,
      h.known g hmem, fun r hr => ?_⟩
    · rw [h.particles]
      omega
    · rw [h.particles] at hx
      exact h.known x hx
    · rw [h.particleBest] at hr
      exact h.known r hr
    · rw [h.particleBest] at hr
      exact hleast hanalyser r hr
  · rw [hfresh] at hold
    cases hold

theorem value_of_findGlobalBest (hanalyser : this.solutionAnalyser = .benchmark)
    (h : Head this fields w g) {s : PSO.Fields × World K} {r : Ref}
    (hfind : PSO.findGlobalBest this (fields, w) = .ok () s) (hr : s.1.globalBest = some r) :
    s.2 = w ∧ w.value r = w.value g := by
  obtain ⟨hw, ⟨-, hsame⟩ | ⟨b, r', hb, hfields, hchoice, hle⟩⟩ :=
    PSO.ends_findGlobalBest _ _ hfind
  · rw [hsame, h.globalBest] at hr
    exact ⟨hw, by rw [Option.some.inj hr]⟩
  · rw [hfields] at hr
    obtain rfl : r' = r := Option.some.inj hr
    refine ⟨hw, le_antisymm ((hle hanalyser).2 g h.globalBest) ?_⟩
    rcases hchoice with rfl | hold
    · exact h.least r' hb
    · rw [h.globalBest] at hold
      rw [Option.some.inj hold]

/-- The first run of a swarm returns a solution that is at least as good as every
position that a particle has left, and as every position at all if and only if the
global best is at least as good as the particles when the loop ends. -/
theorem run_best_iff (fuel : ℕ) (context : Context) (fields : PSO.Fields) (w : World K)
    (hanalyser : this.solutionAnalyser = .benchmark) (hfresh : fields.globalBest = none)
    (hdraws : ∀ c, this.velocitiesCandidateList = some c → c.Draws)
    (hsize : externalSolution.length = this.populationSize) :
    ∀ result s, PSO.runMetaHeuristic this fuel externalSolution context (fields, w) =
        .ok result s →
      ∃ s₀ last iteration r,
        PSO.prepare this externalSolution context (fields, w) = .ok () s₀ ∧
        Visits (PSO.goesOn this) (PSO.iterate this context) 0 s₀ iteration last ∧
        PSO.goesOn this iteration last = .ok false last ∧ result = some [r] ∧
        (∀ k t t', Visits (PSO.goesOn this) (PSO.iterate this context) 0 s₀ k t →
          PSO.goesOn this k t = .ok true t' → ∀ x ∈ t.1.particles, s.2.value r ≤ s.2.value x) ∧
        ((∀ k t, Visits (PSO.goesOn this) (PSO.iterate this context) 0 s₀ k t →
          ∀ x ∈ t.1.particles, s.2.value r ≤ s.2.value x) ↔
        ∀ g, last.1.globalBest = some g → ∀ x ∈ last.1.particles,
          last.2.value g ≤ last.2.value x) := by
  intro result s hrun
  obtain ⟨⟨fields₀, w₀⟩, ⟨fields₁, w₁⟩, iteration, r, hprepare, hvisits, hgoes, hfind, hr,
    hresult⟩ := PSO.ends_run externalSolution _ _ hrun
  obtain ⟨g₀, hstart⟩ :=
    head_of_prepared hanalyser hfresh hsize (PSO.ends_prepare hdraws _ _ _ hprepare)
  obtain ⟨g, hlast, -⟩ := visits_covers hanalyser hstart hvisits
  obtain ⟨hs, hvalue⟩ := value_of_findGlobalBest hanalyser hlast hfind hr
  -- every other place of the loop lies before its last one
  have hleft : ∀ k t, Visits (PSO.goesOn this) (PSO.iterate this context) 0 (fields₀, w₀) k t →
      (iteration, (fields₁, w₁)) = (k, t) ∨ ∀ x ∈ t.1.particles, w₁.value r ≤ w₁.value x := by
    rintro k ⟨fieldsₜ, wₜ⟩ hvisited
    obtain ⟨gₜ, hhead, -⟩ := visits_covers hanalyser hstart hvisited
    obtain ⟨g', hlast', heq | hcovers⟩ :=
      visits_covers hanalyser hhead (hvisits.to_last hgoes hvisited)
    · exact Or.inl heq
    · obtain rfl : g = g' := Option.some.inj (hlast.globalBest.symm.trans hlast'.globalBest)
      refine Or.inr fun x hx => ?_
      rw [hvalue]
      exact (hcovers x hx).2
  refine ⟨_, _, iteration, r, hprepare, hvisits, hgoes, hresult, ?_, ?_, ?_⟩
  · intro k t t' hvisited hon x hx
    rw [hs]
    rcases hleft k t hvisited with heq | hcovers
    · obtain ⟨rfl, rfl⟩ := Prod.mk.inj heq
      rw [hgoes] at hon
      cases hon
    · exact hcovers x hx
  · intro hall g' hg' x hx
    obtain rfl : g = g' := Option.some.inj (hlast.globalBest.symm.trans hg')
    have hle := hall iteration _ hvisits x hx
    rw [hs, hvalue] at hle
    exact hle
  · intro hend k t hvisited x hx
    rw [hs]
    rcases hleft k t hvisited with heq | hcovers
    · obtain ⟨rfl, rfl⟩ := Prod.mk.inj heq
      rw [hvalue]
      exact hend g hlast.globalBest x hx
    · exact hcovers x hx

end Run

section Example

open DifferentialEvolution (bowl exampleWorld exampleParameters returns of_returns)

theorem psoBenchmarkCandidatesList_draws (p : BenchmarkProblem K) :
    p.psoBenchmarkCandidatesList.Draws := by
  intro w
  have hdraws := draws_solutions w
  refine .mapM rfl fun i _ xs w₁ hw₁ => ?_
  exact (hdraws.nextUniform hw₁ _ _).bind fun u w₂ hw₂ =>
    hdraws.newFunctionSolutionElement hw₂ _

def swarmParameters : MetaHeuristicParameters ℚ :=
  { exampleParameters with c1 := some 1, c2 := some 1, populationSize := some 1 }

def exampleSwarm : PSO ℚ :=
  { problem := bowl.toProblem, metaHeuristicParameters := swarmParameters
    stopCondition := some .maxIterations, solutionAnalyser := .benchmark, populationSize := 1
    velocityModifiers := some .psoVelocityCalcBenchmarkProblem
    positionModifiers := some .psoPositionCalcBenchmarkProblem
    velocitiesCandidateList := some bowl.psoBenchmarkCandidatesList }

def swarmWorld : World ℚ :=
  { exampleWorld with uniforms := fun _ => ⟨1 / 4, by norm_num, by norm_num⟩ }

/-- The only particle moves from 1 to 1/2 in the only iteration, and the run returns 1. -/
theorem run_misses_last : ∃ r s,
    PSO.runMetaHeuristic exampleSwarm 2 [0] (some .benchmark) (⟨[], [], [], none⟩, swarmWorld) =
      .ok (some [r]) s ∧
    ∃ x ∈ s.1.particles, x ≠ 0 ∧ s.2.value x < s.2.value r := by
  obtain ⟨r, s, hrun, hcheck⟩ := of_returns
    (c := fun r s => s.1.particles.any fun x =>
      decide (x ≠ 0 ∧ s.2.value x < s.2.value r))
    (show returns _ (PSO.runMetaHeuristic exampleSwarm 2 [0] (some .benchmark)
      (⟨[], [], [], none⟩, swarmWorld)) = true by decide +kernel)
  obtain ⟨x, hx, hlt⟩ := List.any_eq_true.1 hcheck
  exact ⟨r, s, hrun, x, hx, of_decide_eq_true hlt⟩

theorem run_best_iff_example : ∃ r s s₀ last iteration,
    PSO.runMetaHeuristic exampleSwarm 2 [0] (some .benchmark) (⟨[], [], [], none⟩, swarmWorld) =
      .ok (some [r]) s ∧
    Visits (PSO.goesOn exampleSwarm) (PSO.iterate exampleSwarm (some .benchmark)) 0 s₀
      iteration last ∧
    ((∀ k t, Visits (PSO.goesOn exampleSwarm) (PSO.iterate exampleSwarm (some .benchmark)) 0 s₀
        k t → ∀ x ∈ t.1.particles, s.2.value r ≤ s.2.value x) ↔
      ∀ g, last.1.globalBest = some g → ∀ x ∈ last.1.particles,
        last.2.value g ≤ last.2.value x) := by
  obtain ⟨r, s, hrun, -⟩ := of_returns (c := fun _ _ => true)
    (show returns _ (PSO.runMetaHeuristic exampleSwarm 2 [0] (some .benchmark)
      (⟨[], [], [], none⟩, swarmWorld)) = true by decide +kernel)
  have hdraws : ∀ c, exampleSwarm.velocitiesCandidateList = some c → c.Draws := by
    intro c hc
    obtain rfl : bowl.psoBenchmarkCandidatesList = c := Option.some.inj hc
    exact psoBenchmarkCandidatesList_draws bowl
  obtain ⟨s₀, last, iteration, r', -, hvisits, -, hresult, -, hiff⟩ :=
    run_best_iff 2 (some .benchmark) ⟨[], [], [], none⟩ swarmWorld
      (show exampleSwarm.solutionAnalyser = .benchmark from rfl) rfl hdraws
      (show (([0] : List Ref).length : ℤ) = exampleSwarm.populationSize from rfl) _ _ hrun
  obtain rfl : r = r' := by simpa using hresult
  exact ⟨r, s, s₀, last, iteration, hrun, hvisits, hiff⟩

end Example

end DOptimas.Proofs.SwarmBest
