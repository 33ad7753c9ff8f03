import DOptimas.Heuristics.Invariants
/-!
# Runs of the population heuristics

What the primitives keep, a run of each metaheuristic keeps.  The genetic
algorithm calculates and returns solutions that it cloned or built itself;
differential evolution and particle swarm also calculate and return those that
they are given.
-/

namespace DOptimas.Heuristics

open DOptimas.Support

variable {K : Type} [RealArith K]

abbrev ModifiesIfThere (I : World K → Prop) (own : Ref → Prop) (m : Option (SolutionModifier K)) :
    Prop :=
  ∀ m', m = some m' → ModifiesOwn I own m'

def ListsIfThere (I : World K → Prop) (c : Option (CandidatesList K)) : Prop :=
  ∀ c', c = some c' → ∀ w, I w → Ends c'.getCandidates w fun _ => I

def Gives (own : Ref → Prop) (result : Option (List Ref)) : Prop :=
  ∀ rs, result = some rs → ∀ r ∈ rs, own r

def CalculatesAny (I : World K → Prop) (context : Context) : Prop :=
  ∀ w r s, w.solutions[r]? = some s → s.changed = true → I w →
    Ends (calculate context r) w fun _ => I

section Parts

variable {I : World K → Prop} {own : Ref → Prop} {w : World K} {problem : Problem K}
  {context : Context}

theorem Keeps.modifySolution {m : Option (SolutionModifier K)} (hm : ModifiesIfThere I own m)
    (hw : I w) {r : Ref} (hr : own r) (n : ℤ) :
    Ends (Heuristics.modifySolution m r n) w fun r' w' => own r' ∧ I w' := by
  unfold Heuristics.modifySolution
  refine (ends_nonNull m).bind ?_
  rintro m' w ⟨hm', rfl⟩
  exact hm m' hm' w r n hw hr

theorem CalculatesAny.evaluate (h : CalculatesAny I context) (hw : I w) (r : Ref) :
    Ends (Heuristics.evaluate context r) w fun _ => I := by
  unfold Heuristics.evaluate
  refine (ends_deref r).bind ?_
  rintro s w ⟨hs, rfl⟩
  split
  next hchanged =>
    refine (h w r s hs hchanged hw).bind fun _ w hw => ?_
    exact (ends_deref r).bind fun _ _ ⟨_, heq⟩ => .ret (heq ▸ hw)
  · exact (ends_deref r).bind fun _ _ ⟨_, heq⟩ => .ret (heq ▸ hw)

theorem CalculatesAny.isViable (h : CalculatesAny I context) (hw : I w) (r : Ref) :
    Ends (Heuristics.isViable context r) w fun _ => I := by
  unfold Heuristics.isViable
  refine (ends_deref r).bind ?_
  rintro s w ⟨hs, rfl⟩
  split
  next hchanged =>
    refine (h w r s hs hchanged hw).bind fun _ w hw => ?_
    exact (ends_deref r).bind fun _ _ ⟨_, heq⟩ => .ret (heq ▸ hw)
  · exact (ends_deref r).bind fun _ _ ⟨_, heq⟩ => .ret (heq ▸ hw)

theorem gives_one {r : Ref} (hr : own r) : Gives own (some [r]) := by
  intro rs hrs x hx
  cases hrs
  rw [List.mem_singleton.1 hx]
  exact hr

theorem gives_nil (own : Ref → Prop) : Gives own (some []) := by
  intro rs hrs x hx
  cases hrs
  cases hx

end Parts

/-! ## Differential evolution -/

namespace DE

variable {this : DE K} {context : Context} {I : World K → Prop} {own known : Ref → Prop}
  {fields : Fields} {w : World K}

structure Knows (known : Ref → Prop) (fields : Fields) : Prop where
  population : ∀ r ∈ fields.population, known r
  best : ∀ best, fields.bestSolution = some best → known best

variable (h : Keeps I own this.problem context) (hany : CalculatesAny I context)
  (hown : ∀ r, own r → known r)
include h hany hown

theorem keeps_offspring (hknows : Knows known fields) (hw : I w) (n i : ℕ) :
    Ends (offspring this n context i) (fields, w) fun trial s =>
      s.1 = fields ∧ known trial ∧ I s.2 := by
  unfold offspring
  refine ends_fields ?_
  dsimp only
  refine ends_call (h.nextSample hw _ 3) ?_
  rintro sample w ⟨⟨-, hdrawn⟩, hw⟩
  have hsample : ∀ r ∈ sample, known r := by
    intro r hr
    have hmem := hdrawn.mem hr
    split at hmem
    · exact hknows.population r (List.mem_of_mem_eraseIdx hmem)
    · exact hknows.population r hmem
  refine ends_call (ends_nth sample 0) ?_
  rintro r1 w ⟨h1, rfl⟩
  refine ends_call (ends_nth sample 1) ?_
  rintro r2 w ⟨h2, rfl⟩
  refine ends_call (ends_nth sample 2) ?_
  rintro r3 w ⟨h3, rfl⟩
  refine ends_call (ends_nth fields.population i) ?_
  rintro s w ⟨hs, rfl⟩
  refine ends_call (h.modifyCollection hw this.deSum _ _ _) ?_
  rintro result w ⟨hresult, hw⟩
  refine ends_call (ends_nth result 0) ?_
  rintro trial w ⟨htrial, rfl⟩
  have hknown : known trial := by
    rcases hresult trial (List.mem_of_getElem? htrial) with hnew | hold
    · exact hown trial hnew
    · simp only [List.mem_cons, List.not_mem_nil, or_false] at hold
      rcases hold with rfl | rfl | rfl | rfl
      · exact hknows.population _ (List.mem_of_getElem? hs)
      · exact hsample _ (List.mem_of_getElem? h1)
      · exact hsample _ (List.mem_of_getElem? h2)
      · exact hsample _ (List.mem_of_getElem? h3)
  exact ends_call (hany.evaluate hw trial) fun _ w hw => .ret ⟨rfl, hknown, hw⟩

omit h hown in
theorem keeps_select (hknows : Knows known fields) (hw : I w) {offspring : List Ref}
    (hoffspring : ∀ r ∈ offspring, known r) {state : List Ref × ℤ}
    (hstate : ∀ r ∈ state.1, known r) (i : ℕ) :
    Ends (select this offspring context state i) (fields, w) fun state s =>
      (∀ r ∈ state.1, known r) ∧ Knows known s.1 ∧ I s.2 := by
  have hjoin : ∀ next, known next → ∀ r ∈ state.1 ++ [next], known r := by
    intro next hnext r hr
    rcases List.mem_append.1 hr with hr | hr
    · exact hstate r hr
    · rw [List.mem_singleton.1 hr]
      exact hnext
  have hbest : ∀ (w : World K) (next : Ref), known next → I w →
      Ends (do
        let bestSolution ← call (nonNull (← DOptimas.Heuristics.fields).bestSolution)
        if (← call (compare this.solutionAnalyser next bestSolution)) < 0 then
          let _ ← call (evaluate context next)
          setFields fun f => { f with bestSolution := some next }
          return (state.1 ++ [next], 0)
        else
          return (state.1 ++ [next], state.2)) (fields, w) fun state s =>
            (∀ r ∈ state.1, known r) ∧ Knows known s.1 ∧ I s.2 := by
    intro w next hnext hw
    refine ends_fields ?_
    refine ends_call (ends_nonNull _) ?_
    rintro best w ⟨-, rfl⟩
    refine ends_call (ends_compare_precedes _ next best) ?_
    rintro c w ⟨-, rfl⟩
    split
    · refine ends_call (hany.evaluate hw next) fun _ w hw => ends_setFields (.ret ?_)
      exact ⟨hjoin next hnext, ⟨hknows.population, fun b hb => Option.some.inj hb ▸ hnext⟩, hw⟩
    · exact .ret ⟨hjoin next hnext, hknows, hw⟩
  unfold select
  dsimp only
  refine ends_call (ends_nth offspring i) ?_
  rintro trial w ⟨htrial, rfl⟩
  refine ends_fields ?_
  refine ends_call (ends_nth fields.population i) ?_
  rintro current w ⟨hcurrent, rfl⟩
  have hnew := hoffspring trial (List.mem_of_getElem? htrial)
  have hold := hknows.population current (List.mem_of_getElem? hcurrent)
  refine ends_call (hany.isViable hw trial) ?_
  intro viable w hw
  cases viable with
  | false => exact hbest w current hold hw
  | true =>
      refine ends_call (ends_compare_precedes _ trial current) ?_
      rintro c w ⟨-, rfl⟩
      split
      · exact hbest w trial hnew hw
      · exact hbest w current hold hw

theorem keeps_generation (hknows : Knows known fields) (hw : I w) (n : ℕ) (counters : ℤ × ℤ) :
    Ends (generation this n context counters) (fields, w) fun _ s => Knows known s.1 ∧ I s.2 := by
  unfold generation
  refine Ends.bind (Q := fun trials (s : Fields × World K) =>
    (∀ r ∈ trials, known r) ∧ Knows known s.1 ∧ I s.2) ?_ ?_
  · refine .mapM (I := fun trials (s : Fields × World K) =>
      (∀ r ∈ trials, known r) ∧ Knows known s.1 ∧ I s.2) ⟨by simp, hknows, hw⟩ ?_
    rintro i - trials ⟨fields, w⟩ ⟨htrials, hknows, hw⟩
    refine (keeps_offspring h hany hown hknows hw n i).mono fun trial s ⟨hs, htrial, hw⟩ => ?_
    refine ⟨fun r hr => ?_, hs ▸ hknows, hw⟩
    rcases List.mem_append.1 hr with hr | hr
    · exact htrials r hr
    · rw [List.mem_singleton.1 hr]
      exact htrial
  rintro offspring ⟨fields, w⟩ ⟨hoffspring, hknows, hw⟩
  refine Ends.bind (Q := fun (state : List Ref × ℤ) (s : Fields × World K) =>
    (∀ r ∈ state.1, known r) ∧ Knows known s.1 ∧ I s.2) ?_ ?_
  · refine .foldlM (I := fun (state : List Ref × ℤ) (s : Fields × World K) =>
      (∀ r ∈ state.1, known r) ∧ Knows known s.1 ∧ I s.2) ⟨by simp, hknows, hw⟩ ?_
    rintro i - state ⟨fields, w⟩ ⟨hstate, hknows, hw⟩
    exact keeps_select hany hknows hw hoffspring hstate i
  rintro ⟨next, wi⟩ ⟨fields, w⟩ ⟨hnext, hknows, hw⟩
  exact ends_setFields (.ret ⟨⟨hnext, hknows.best⟩, hw⟩)

theorem keeps_run {externalSolution : List Ref} (hgiven : ∀ r ∈ externalSolution, known r)
    (hw : I w) (fuel : ℕ) :
    Ends (runMetaHeuristic this fuel externalSolution context) (fields, w) fun result s =>
      Gives known result ∧ I s.2 := by
  unfold runMetaHeuristic
  refine ends_setFields ?_
  cases externalSolution with
  | nil => exact .ret ⟨gives_nil known, hw⟩
  | cons first rest =>
      refine ends_setFields ?_
      refine Ends.bind (Q := fun _ (s : Fields × World K) => Knows known s.1 ∧ I s.2) ?_ ?_
      · refine .repeatWhile (I := fun _ (s : Fields × World K) => Knows known s.1 ∧ I s.2) ?_ ?_
          ⟨⟨hgiven, fun b hb => Option.some.inj hb ▸ hgiven first List.mem_cons_self⟩, hw⟩
        · rintro counters ⟨fields, w⟩ ⟨hknows, hw⟩
          exact ends_call (h.isSatisfied hw _ _ _ _) fun _ w hw => .ret ⟨hknows, hw⟩
        · rintro counters ⟨fields, w⟩ ⟨hknows, hw⟩
          exact keeps_generation h hany hown hknows hw _ counters
      · rintro counters ⟨fields, w⟩ ⟨hknows, hw⟩
        refine ends_fields ?_
        refine ends_call (ends_nonNull _) ?_
        rintro best w ⟨hbest, rfl⟩
        exact .ret ⟨gives_one (hknows.best best hbest), hw⟩

end DE

/-! ## The genetic algorithm -/

namespace GA

variable {this : GA K} {context : Context} {I : World K → Prop} {own : Ref → Prop}
  {fields : Fields} {w : World K}

structure Owns (own : Ref → Prop) (fields : Fields) : Prop where
  population : ∀ r ∈ fields.population, own r
  best : own fields.bestIterationSolution

structure Breeds (own : Ref → Prop) (fields : Fields) : Prop extends Owns own fields where
  pool : ∀ r ∈ fields.nextPopulationPool, own r

variable (h : Keeps I own this.problem context) (hm : ModifiesIfThere I own this.mutation)
include h

theorem keeps_parentsChoice (hw : I w) :
    Ends (parentsChoice this) (fields, w) fun parents s =>
      s.1 = fields ∧ (∀ r ∈ parents, own r) ∧ I s.2 := by
  unfold parentsChoice
  refine ends_fields ?_
  refine ends_call (h.modifyCollection hw this.selection _ _ _) ?_
  rintro chosen w ⟨-, hw⟩
  exact Ends.onState ((h.copyValues hw chosen).mono fun parents w hparents => ⟨rfl, hparents⟩)

theorem keeps_crossover (hw : I w) (parents : List Ref) :
    Ends (crossover this parents) w fun offsprings w => (∀ r ∈ offsprings, own r) ∧ I w := by
  unfold crossover
  refine (h.modifyCollection hw this.reproduction _ _ _).bind ?_
  rintro offsprings w ⟨-, hw⟩
  exact h.copyValues hw offsprings

theorem keeps_nextPopulation (hw : I w) (pool : List Ref) :
    Ends (nextPopulation this pool) w fun chosen w => (∀ r ∈ chosen, own r) ∧ I w := by
  unfold nextPopulation
  refine (h.modifyCollection hw this.nextPopulationSelector _ _ _).bind ?_
  rintro chosen w ⟨-, hw⟩
  exact h.copyValues hw chosen

include hm

theorem keeps_addToPool (hbreeds : Breeds own fields) (hw : I w) {offspring : Ref}
    (hoffspring : own offspring) (counter : ℤ) :
    Ends (addToPool this context counter offspring) (fields, w) fun _ s =>
      Breeds own s.1 ∧ I s.2 := by
  have hjudge : ∀ (w : World K) (mutated : Ref), own mutated → I w →
      Ends (do
        let _ ← call (evaluate context mutated)
        if ← call (isViable context mutated) then
          setFields fun f => { f with nextPopulationPool := f.nextPopulationPool ++ [mutated] }
          return increment counter
        else
          return counter) (fields, w) fun _ s => Breeds own s.1 ∧ I s.2 := by
    intro w mutated hmutated hw
    refine ends_call (h.evaluate hw hmutated) fun _ w hw => ?_
    refine ends_call (h.isViable hw hmutated) fun viable w hw => ?_
    split
    · refine ends_setFields (.ret ⟨⟨⟨hbreeds.population, hbreeds.best⟩, fun r hr => ?_⟩, hw⟩)
      rcases List.mem_append.1 hr with hr | hr
      · exact hbreeds.pool r hr
      · rw [List.mem_singleton.1 hr]
        exact hmutated
    · exact .ret ⟨hbreeds, hw⟩
  unfold addToPool
  refine ends_call (h.nextDouble hw) fun chance w hw => ?_
  refine ends_call (ends_nonNull this.mutationTax) ?_
  rintro tax w ⟨-, rfl⟩
  split
  · refine ends_call (Keeps.modifySolution hm hw hoffspring 1) ?_
    rintro mutated w ⟨hmutated, hw⟩
    exact hjudge w mutated hmutated hw
  · exact hjudge w offspring hoffspring hw

theorem keeps_breed (hbreeds : Breeds own fields) (hw : I w) (counter : ℤ) :
    Ends (breed this context counter) (fields, w) fun _ s => Breeds own s.1 ∧ I s.2 := by
  unfold breed
  refine (keeps_parentsChoice h hw).bind ?_
  rintro chosen ⟨fields, w⟩ ⟨rfl, -, hw⟩
  refine ends_call (h.copyValues hw chosen) ?_
  rintro parents w ⟨-, hw⟩
  refine ends_call (h.nextDouble hw) fun chance w hw => ?_
  refine ends_call (ends_nonNull this.crossoverTax) ?_
  rintro tax w ⟨-, rfl⟩
  split
  · refine ends_call (keeps_crossover h hw parents) ?_
    rintro children w ⟨-, hw⟩
    refine ends_call (h.copyValues hw children) ?_
    rintro offsprings w ⟨hoffsprings, hw⟩
    refine .foldlM (I := fun _ (s : Fields × World K) => Breeds own s.1 ∧ I s.2) ⟨hbreeds, hw⟩ ?_
    rintro offspring hoffspring counter ⟨fields, w⟩ ⟨hbreeds, hw⟩
    exact keeps_addToPool h hm hbreeds hw (hoffsprings offspring hoffspring) counter
  · exact .ret ⟨hbreeds, hw⟩

theorem keeps_generation (howns : Owns own fields) (hw : I w) (fuel : ℕ) (counters : ℤ × ℤ) :
    Ends (generation this fuel context counters) (fields, w) fun _ s => Owns own s.1 ∧ I s.2 := by
  have hrenew : ∀ (fields : Fields) (w : World K) (wi : ℤ), Owns own fields → I w →
      Ends (do
        setFields fun f => { f with population := [] }
        let chosen ← call (nextPopulation this (← DOptimas.Heuristics.fields).nextPopulationPool)
        let population ← call (copyValues chosen)
        setFields fun f => { f with population }
        return (increment counters.1, increment wi)) (fields, w) fun _ s =>
          Owns own s.1 ∧ I s.2 := by
    intro fields w wi howns hw
    refine ends_setFields ?_
    refine ends_fields ?_
    refine ends_call (keeps_nextPopulation h hw _) ?_
    rintro chosen w ⟨-, hw⟩
    refine ends_call (h.copyValues hw chosen) ?_
    rintro population w ⟨hpopulation, hw⟩
    exact ends_setFields (.ret ⟨⟨hpopulation, howns.best⟩, hw⟩)
  unfold generation
  refine ends_setFields ?_
  refine Ends.bind (Q := fun _ (s : Fields × World K) => Breeds own s.1 ∧ I s.2) ?_ ?_
  · refine .repeatWhile (I := fun _ (s : Fields × World K) => Breeds own s.1 ∧ I s.2) ?_ ?_
      ⟨⟨⟨howns.population, howns.best⟩, by simp⟩, hw⟩
    · rintro counter ⟨fields, w⟩ ⟨hbreeds, hw⟩
      unfold lacksOffspring
      refine ends_call (ends_nonNull _) ?_
      rintro size w ⟨-, rfl⟩
      exact .ret ⟨hbreeds, hw⟩
    · rintro counter ⟨fields, w⟩ ⟨hbreeds, hw⟩
      exact keeps_breed h hm hbreeds hw counter
  rintro - ⟨fields, w⟩ ⟨hbreeds, hw⟩
  refine ends_fields ?_
  refine ends_call (ends_findBestSolution _ _) ?_
  rintro best w ⟨hbest, -, rfl⟩
  cases best with
  | none => exact hrenew fields w _ hbreeds.toOwns hw
  | some best =>
      have hown : own best := hbreeds.pool best (hbest best rfl)
      exact ends_setFields (hrenew _ w _ ⟨hbreeds.population, hown⟩ hw)

omit hm in
theorem keeps_consider (howns : Owns own fields) (hw : I w) {solution : Ref}
    (hsolution : own solution) :
    Ends (consider this context solution) (fields, w) fun _ s => Owns own s.1 ∧ I s.2 := by
  unfold consider
  refine ends_call (h.evaluate hw hsolution) fun _ w hw => ?_
  refine ends_fields ?_
  refine ends_call (ends_getBestSolution_min _ _ _) ?_
  rintro best w ⟨rfl, hbest, -⟩
  have hown : own best := by
    rcases hbest with rfl | rfl
    · exact howns.best
    · exact hsolution
  exact .modifies ⟨⟨howns.population, hown⟩, hw⟩

theorem keeps_run (hw : I w) (fuel : ℕ) (externalSolution : List Ref) :
    Ends (runMetaHeuristic this fuel externalSolution context) (fields, w) fun result s =>
      Gives own result ∧ I s.2 := by
  unfold runMetaHeuristic
  refine ends_call (ends_nonNull _) ?_
  rintro size w ⟨-, rfl⟩
  split
  · exact .ret ⟨gives_nil own, hw⟩
  refine ends_call (h.copyValues hw externalSolution) ?_
  rintro population w ⟨hpopulation, hw⟩
  refine ends_setFields ?_
  refine ends_call (ends_nth population 0) ?_
  rintro first w ⟨hfirst, rfl⟩
  have hown : own first := hpopulation first (List.mem_of_getElem? hfirst)
  refine ends_setFields ?_
  refine ends_call (h.evaluate hw hown) fun _ w hw => ?_
  refine Ends.bind (Q := fun _ (s : Fields × World K) => Owns own s.1 ∧ I s.2) ?_ ?_
  · refine .forM (I := fun (s : Fields × World K) => Owns own s.1 ∧ I s.2)
      ⟨⟨hpopulation, hown⟩, hw⟩ ?_
    rintro solution hsolution ⟨fields, w⟩ ⟨howns, hw⟩
    exact keeps_consider h howns hw (hpopulation solution hsolution)
  rintro - ⟨fields, w⟩ ⟨howns, hw⟩
  refine Ends.bind (Q := fun _ (s : Fields × World K) => Owns own s.1 ∧ I s.2) ?_ ?_
  · unfold geneticAlgorithm
    refine Ends.bind (Q := fun _ (s : Fields × World K) => Owns own s.1 ∧ I s.2) ?_
      fun _ _ hs => .ret hs
    refine .repeatWhile (I := fun _ (s : Fields × World K) => Owns own s.1 ∧ I s.2) ?_ ?_
      ⟨howns, hw⟩
    · rintro counters ⟨fields, w⟩ ⟨howns, hw⟩
      exact ends_call (h.isSatisfied hw _ _ _ _) fun _ w hw => .ret ⟨howns, hw⟩
    · rintro counters ⟨fields, w⟩ ⟨howns, hw⟩
      exact keeps_generation h hm howns hw fuel counters
  rintro - ⟨fields, w⟩ ⟨howns, hw⟩
  exact ends_fields (.ret ⟨gives_one howns.best, hw⟩)

end GA

/-! ## Particle swarm -/

namespace PSO

variable {this : PSO K} {context : Context} {I : World K → Prop} {own known : Ref → Prop}
  {fields : Fields} {w : World K}

structure Knows (known : Ref → Prop) (fields : Fields) : Prop where
  particles : ∀ r ∈ fields.particles, known r
  particleBest : ∀ r ∈ fields.particleBest, known r
  globalBest : ∀ best, fields.globalBest = some best → known best

theorem Knows.setGlobalBest (h : Knows known fields) {best : Ref} (hbest : known best) :
    Knows known { fields with globalBest := some best } :=
  ⟨h.particles, h.particleBest, fun _ hb => Option.some.inj hb ▸ hbest⟩

theorem Knows.setParticleBest (h : Knows known fields) (i : ℕ) {best : Ref}
    (hbest : known best) :
    Knows known { fields with particleBest := fields.particleBest.set i best } := by
  refine ⟨h.particles, fun r hr => ?_, h.globalBest⟩
  rcases List.mem_or_eq_of_mem_set hr with hr | rfl
  · exact h.particleBest r hr
  · exact hbest

def Updates (I : World K → Prop) (known : Ref → Prop) (fields : Fields)
    (s : Fields × World K) : Prop :=
  Knows known s.1 ∧ s.1.velocity = fields.velocity ∧ I s.2

theorem keeps_updateGlobalBest (hknows : Knows known fields) (hw : I w) {best : Ref}
    (hbest : known best) :
    Ends (updateGlobalBest this best) (fields, w) fun _ => Updates I known fields := by
  unfold updateGlobalBest
  refine ends_fields ?_
  split
  · exact .modifies ⟨hknows.setGlobalBest hbest, rfl, hw⟩
  next globalBest hglobal =>
    refine ends_call (ends_getBestSolution_min _ best globalBest) ?_
    rintro b w ⟨rfl, hchoice, -⟩
    refine .modifies ⟨hknows.setGlobalBest ?_, rfl, hw⟩
    rcases hchoice with rfl | rfl
    · exact hbest
    · exact hknows.globalBest _ hglobal

theorem keeps_findGlobalBest (hknows : Knows known fields) (hw : I w) :
    Ends (findGlobalBest this) (fields, w) fun _ => Updates I known fields := by
  unfold findGlobalBest
  refine ends_fields ?_
  refine ends_call (ends_findBestSolution _ _) ?_
  rintro best w ⟨hbest, -, rfl⟩
  cases best with
  | none => exact .ret ⟨hknows, rfl, hw⟩
  | some best =>
      exact keeps_updateGlobalBest hknows hw (hknows.particleBest best (hbest best rfl))

theorem keeps_updateParticle (hknows : Knows known fields) (hw : I w) (i : ℕ) :
    Ends (updateParticle this i) (fields, w) fun _ => Updates I known fields := by
  unfold updateParticle
  refine ends_fields ?_
  refine ends_call (ends_nth _ i) ?_
  rintro old w ⟨hold, rfl⟩
  refine ends_call (ends_nth _ i) ?_
  rintro particle w ⟨hparticle, rfl⟩
  refine ends_call (ends_getBestSolution_min _ old particle) ?_
  rintro best w ⟨rfl, hchoice, -⟩
  have hbest : known best := by
    rcases hchoice with rfl | rfl
    · exact hknows.particleBest _ (List.mem_of_getElem? hold)
    · exact hknows.particles _ (List.mem_of_getElem? hparticle)
  exact ends_setFields (keeps_updateGlobalBest (hknows.setParticleBest i hbest) hw hbest)

theorem keeps_updateParticleBest (hknows : Knows known fields) (hw : I w) :
    Ends (updateParticleBest this) (fields, w) fun _ => Updates I known fields := by
  unfold updateParticleBest
  refine ends_fields ?_
  split
  · exact .modifies ⟨⟨hknows.particles, hknows.particles, hknows.globalBest⟩, rfl, hw⟩
  · refine .forM (I := Updates I known fields) ⟨hknows, rfl, hw⟩ ?_
    rintro i - ⟨fields', w⟩ ⟨hknows, hvelocity, hw⟩
    refine (keeps_updateParticle hknows hw i).mono fun _ s ⟨hknows, hsame, hw⟩ => ?_
    exact ⟨hknows, hsame.trans hvelocity, hw⟩

variable (h : Keeps I own this.problem context) (hany : CalculatesAny I context)
  (hown : ∀ r, own r → known r)

include hany in
theorem keeps_evaluateAll (hw : I w) (solutions : List Ref) :
    Ends (evaluateAll context solutions) w fun _ => I := by
  unfold evaluateAll
  refine .forM hw fun solution _ w hw => ?_
  exact (hany.evaluate hw solution).bind fun _ w hw => .ret hw

include h in
theorem keeps_initVelocities (hc : ListsIfThere I this.velocitiesCandidateList) (hw : I w) :
    Ends (initVelocities this) w fun rs w' => (∀ r ∈ rs, own r) ∧ I w' := by
  unfold initVelocities
  refine Builds.each hw fun i _ w hw => ?_
  refine (ends_nonNull _).bind ?_
  rintro c w ⟨hc', rfl⟩
  refine (hc c hc' w hw).bind fun candidates w hw => ?_
  refine (h.build w hw).bind fun solution w ⟨hsolution, hw⟩ => ?_
  refine Ends.bind (Q := fun _ => I) (.forM hw fun e _ w hw => ?_) fun _ w hw =>
    .ret ⟨hsolution, hw⟩
  exact h.addElement hw hsolution e

include h hany hown

theorem keeps_iterate (hknows : Knows known fields) (hvelocity : ∀ r ∈ fields.velocity, known r)
    (hw : I w) (iteration : ℤ) :
    Ends (iterate this context iteration) (fields, w) fun _ s =>
      Knows known s.1 ∧ (∀ r ∈ s.1.velocity, known r) ∧ I s.2 := by
  unfold iterate
  refine (keeps_updateParticleBest hknows hw).bind ?_
  rintro - ⟨fields', w⟩ ⟨hknows, hsame, hw⟩
  dsimp only at hsame
  rw [← hsame] at hvelocity
  refine ends_fields ?_
  refine ends_call (ends_nonNull _) ?_
  rintro globalBest w ⟨hglobal, rfl⟩
  refine ends_call (h.modifyCollection hw _ _ _ _) ?_
  rintro velocity w ⟨hnew, hw⟩
  have hvelocity : ∀ r ∈ velocity, known r := by
    intro r hr
    rcases hnew r hr with hnew | hold
    · exact hown r hnew
    simp only [List.mem_append, List.mem_singleton] at hold
    rcases hold with ((hr | hr) | hr) | rfl
    · exact hvelocity r hr
    · exact hknows.particles r hr
    · exact hknows.particleBest r hr
    · exact hknows.globalBest _ hglobal
  refine ends_setFields ?_
  refine ends_call (h.modifyCollection hw _ _ _ _) ?_
  rintro offspring w ⟨hoffspring, hw⟩
  have hoffspring : ∀ r ∈ offspring, known r := by
    intro r hr
    rcases hoffspring r hr with hnew | hold
    · exact hown r hnew
    rcases List.mem_append.1 hold with hr | hr
    · exact hvelocity r hr
    · exact hknows.particleBest r hr
  refine ends_call (keeps_evaluateAll hany hw offspring) ?_
  intro _ w hw
  have hmoved : Knows known { fields' with velocity } :=
    ⟨hknows.particles, hknows.particleBest, hknows.globalBest⟩
  refine Ends.bind (Q := fun next (s : Fields × World K) => (∀ r ∈ next, known r) ∧
    Knows known s.1 ∧ (∀ r ∈ s.1.velocity, known r) ∧ I s.2) ?_ ?_
  · refine .mapM (I := fun next (s : Fields × World K) => (∀ r ∈ next, known r) ∧
      Knows known s.1 ∧ (∀ r ∈ s.1.velocity, known r) ∧ I s.2) ⟨by simp, hmoved, hvelocity, hw⟩ ?_
    rintro i - next ⟨fields, w⟩ ⟨hnext, hrest⟩
    have hjoin : ∀ r, known r → ∀ x ∈ next ++ [r], known x := by
      intro r hr x hx
      rcases List.mem_append.1 hx with hx | hx
      · exact hnext x hx
      · rw [List.mem_singleton.1 hx]
        exact hr
    unfold adopt
    refine ends_call (ends_nth offspring i) ?_
    rintro r w ⟨hr, rfl⟩
    refine ends_call (hany.isViable hrest.2.2 r) fun viable w hw => ?_
    split
    · exact .ret ⟨hjoin r (hoffspring r (List.mem_of_getElem? hr)), hrest.1, hrest.2.1, hw⟩
    · refine ends_fields (Ends.onState ((ends_nth _ i).mono ?_))
      rintro current w ⟨hcurrent, rfl⟩
      exact ⟨hjoin current (hrest.1.particles current (List.mem_of_getElem? hcurrent)),
        hrest.1, hrest.2.1, hw⟩
  · rintro next ⟨fields, w⟩ ⟨hnext, hknows, hvelocity, hw⟩
    exact ends_setFields
      (.ret ⟨⟨hnext, hknows.particleBest, hknows.globalBest⟩, hvelocity, hw⟩)

theorem keeps_run (hc : ListsIfThere I this.velocitiesCandidateList)
    {externalSolution : List Ref} (hgiven : ∀ r ∈ externalSolution, known r)
    (hremembered : ∀ best, fields.globalBest = some best → known best) (hw : I w) (fuel : ℕ) :
    Ends (runMetaHeuristic this fuel externalSolution context) (fields, w) fun result s =>
      Gives known result ∧ I s.2 := by
  unfold runMetaHeuristic
  refine ends_setFields ?_
  refine ends_call (keeps_evaluateAll hany hw externalSolution) fun _ w hw => ?_
  refine ends_setFields ?_
  have hstart : Knows known
      { fields with particles := externalSolution, particleBest := externalSolution } :=
    ⟨hgiven, hgiven, hremembered⟩
  refine (keeps_findGlobalBest hstart hw).bind ?_
  rintro - ⟨fields, w⟩ ⟨hknows, -, hw⟩
  refine ends_fields ?_
  refine ends_call (ends_nonNull _) ?_
  rintro best w ⟨-, rfl⟩
  refine ends_call (keeps_initVelocities h hc hw) fun velocity w ⟨hnew, hw⟩ => ?_
  refine ends_setFields ?_
  refine Ends.bind (Q := fun _ (s : Fields × World K) => Knows known s.1 ∧ I s.2) ?_ ?_
  · refine Ends.mono (Q := fun _ (s : Fields × World K) =>
      Knows known s.1 ∧ (∀ r ∈ s.1.velocity, known r) ∧ I s.2) ?_ fun _ s hs => ⟨hs.1, hs.2.2⟩
    refine .repeatWhile (I := fun _ (s : Fields × World K) =>
      Knows known s.1 ∧ (∀ r ∈ s.1.velocity, known r) ∧ I s.2) ?_ ?_
      ⟨⟨hknows.particles, hknows.particleBest, hknows.globalBest⟩,
        fun r hr => hown r (hnew r hr), hw⟩
    · rintro iteration ⟨fields, w⟩ ⟨hknows, hvelocity, hw⟩
      unfold goesOn
      refine ends_call (ends_nonNull _) ?_
      rintro s w ⟨-, rfl⟩
      refine ends_call (ends_stop s _ _ _ _) ?_
      rintro stops w rfl
      exact .ret ⟨hknows, hvelocity, hw⟩
    · rintro iteration ⟨fields, w⟩ ⟨hknows, hvelocity, hw⟩
      exact keeps_iterate h hany hown hknows hvelocity hw iteration
  · rintro - ⟨fields, w⟩ ⟨hknows, hw⟩
    refine (keeps_findGlobalBest hknows hw).bind ?_
    rintro - ⟨fields, w⟩ ⟨hknows, -, hw⟩
    refine ends_fields ?_
    refine ends_call (ends_nonNull _) ?_
    rintro best w ⟨hbest, rfl⟩
    exact .ret ⟨gives_one (hknows.globalBest best hbest), hw⟩

end PSO

end DOptimas.Heuristics
