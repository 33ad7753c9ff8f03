import DOptimas.Heuristics.Heap
/-!
# One generation of the genetic algorithm

Parents and offspring are clones, so breeding touches nothing that was there
before.  Every solution that it finds viable joins the pool.
-/

namespace DOptimas.Heuristics

open DOptimas.Support
open DOptimas.Core (SolutionAnalyser)

variable {K : Type} [RealArith K]

/-- A mutation changes at most its argument, finds nothing viable, and gives its
argument or a new solution of the same shape. -/
def SolutionModifier.Mutates (m : SolutionModifier K) (problem : Problem K)
    (V : List (Option (Element K)) → Prop) : Prop :=
  ∀ (w : World K) (r : Ref) (n : ℤ), Fresh problem V w r → r < w.solutions.length →
    Ends (m.modify r n) w fun r' w' => w.Grows (· = r) w' ∧ (∀ t, Viable w' t → Viable w t) ∧
      Fresh problem V w' r' ∧ (r' = r ∨ w.solutions.length ≤ r')

def Assessed (problem : Problem K) (V : List (Option (Element K)) → Prop) (s : Solution K) :
    Prop :=
  (s.problem = problem ∧ V s.solutionsVector) ∧ s.functionValue ≠ none ∧
    s.viable = (problem.checkViability s.solutionsVector).1

omit [RealArith K] in
theorem establishes_assessed (problem : Problem K) (V : List (Option (Element K)) → Prop) :
    Establishes problem V (Assessed problem V) := by
  intro s calls x hproblem hvector _
  refine ⟨⟨hproblem, hvector⟩, by simp [Solution.calculated], ?_⟩
  simp [Solution.calculated, hproblem]

abbrev Settled (problem : Problem K) (V : List (Option (Element K)) → Prop) (w : World K)
    (r : Ref) : Prop :=
  Evaluated (fun s => s.problem = problem ∧ V s.solutionsVector) w r

theorem Settled.stands {problem : Problem K} {V : List (Option (Element K)) → Prop}
    {w : World K} {r : Ref} (h : Settled problem V w r) : Stands problem V w r := by
  obtain ⟨s, hs, -, hshape⟩ := h
  exact ⟨s, hs, hshape⟩

def ViableVector (problem : Problem K) (V : List (Option (Element K)) → Prop)
    (vector : List (Option (Element K))) : Prop :=
  V vector ∧ (problem.checkViability vector).1 = true

namespace GA

/-- From solutions with vectors in `V` the modifier gives such solutions, old or
new, in numbers allowed by `size`. -/
def Yields (this : GA K) (m : Option ModifiesSolutionCollections) (n : Option ℤ)
    (V : List (Option (Element K)) → Prop) (size : ℕ → Prop) : Prop :=
  ∀ (w : World K) solutions, (∀ r ∈ solutions, Stands this.problem V w r) →
    Ends (modifyCollection m this.problem solutions
      this.metaHeuristicParameters.toCollectionParameters n) w fun result w' =>
        w.Grows (fun _ => False) w' ∧ size result.length ∧
          ∀ r ∈ result, Shaped this.problem V w' r

/-- What the parts for breeding do with solutions that have vectors in `V`. -/
structure Parts (this : GA K) (V : List (Option (Element K)) → Prop) (litter : ℕ → Prop) :
    Prop where
  selects : Yields this this.selection this.numParents V fun _ => True
  crosses : Yields this this.reproduction (some 2) V litter
  mutates : ∀ m, this.mutation = some m → m.Mutates this.problem V

structure Bred (this : GA K) (V : List (Option (Element K)) → Prop) (fields₀ : Fields)
    (w₀ : World K) (fields : Fields) (w : World K) : Prop where
  same : fields = { fields₀ with nextPopulationPool := fields.nextPopulationPool }
  grows : w₀.Grows (fun r => w₀.solutions.length ≤ r) w
  pool : ∀ t ∈ fields.nextPopulationPool, Evaluated (Assessed this.problem V) w t ∧
    Viable w t ∧ w₀.solutions.length ≤ t
  viable : ∀ t, Viable w t → Viable w₀ t ∨ t ∈ fields.nextPopulationPool

section Breeding

variable {this : GA K} {V : List (Option (Element K)) → Prop} {litter : ℕ → Prop}
  {context : Context} {fields₀ fields : Fields} {w₀ w w' : World K}

theorem Bred.length_le (h : Bred this V fields₀ w₀ fields w) :
    w₀.solutions.length ≤ w.solutions.length :=
  h.grows.length_le fun _ hr hle => absurd hr (not_lt.2 hle)

theorem Bred.next {S : Ref → Prop} (h : Bred this V fields₀ w₀ fields w) (hg : w.Grows S w')
    (hS : ∀ r, S r → w₀.solutions.length ≤ r) (hviable : ∀ t, Viable w' t → Viable w t) :
    Bred this V fields₀ w₀ fields w' := by
  refine ⟨h.same, h.grows.trans (hg.mono hS), fun t ht => ?_,
    fun t ht => h.viable t (hviable t ht)⟩
  obtain ⟨hevaluated, hv, hnew⟩ := h.pool t ht
  exact ⟨hg.evaluated hevaluated, (hg.viable_iff hevaluated).2 hv, hnew⟩

theorem Bred.stands (h : Bred this V fields₀ w₀ fields w)
    (hpopulation : ∀ r ∈ fields₀.population, Stands this.problem V w₀ r) :
    ∀ r ∈ fields.population, Stands this.problem V w r := by
  intro r hr
  rw [h.same] at hr
  have hstands := hpopulation r hr
  exact h.grows.stands hstands (not_le.2 hstands.lt)

/-- The pool and its counter after at most `n` more solutions have joined. -/
def Gains (n : ℕ) (counter counter' : ℤ) (pool pool' : List Ref) : Prop :=
  ∃ added : List Ref, added.length ≤ n ∧ pool' = pool ++ added ∧
    counter' = increment^[added.length] counter

theorem Gains.zero (n : ℕ) (counter : ℤ) (pool : List Ref) : Gains n counter counter pool pool :=
  ⟨[], n.zero_le, (List.append_nil pool).symm, rfl⟩

theorem Gains.trans {m n : ℕ} {a b c : ℤ} {p q r : List Ref} (h : Gains m a b p q)
    (h' : Gains n b c q r) : Gains (m + n) a c p r := by
  obtain ⟨added, hm, rfl, rfl⟩ := h
  obtain ⟨added', hn, rfl, rfl⟩ := h'
  refine ⟨added ++ added', ?_, List.append_assoc _ _ _, ?_⟩
  · rw [List.length_append]
    omega
  · rw [List.length_append, Nat.add_comm, Function.iterate_add_apply]

theorem Bred.judged (h : Bred this V fields₀ w₀ fields w) {t : Ref}
    (hg : w.Grows (· = t) w') (ht : w₀.solutions.length ≤ t)
    (hjudged : Judged (Assessed this.problem V) w' t) (hnot : ¬Viable w' t) :
    Bred this V fields₀ w₀ fields w' := by
  refine ⟨h.same, h.grows.trans (hg.mono fun r hr => hr ▸ ht), fun s hs => ?_, fun s hs => ?_⟩
  · obtain ⟨hevaluated, hv, hnew⟩ := h.pool s hs
    exact ⟨hg.evaluated hevaluated, (hg.viable_iff hevaluated).2 hv, hnew⟩
  · rcases hg.viable_or hs with hold | rfl
    · exact h.viable s hold
    · exact absurd hs hnot

theorem Bred.joins (h : Bred this V fields₀ w₀ fields w) {t : Ref}
    (hg : w.Grows (· = t) w') (ht : w₀.solutions.length ≤ t)
    (hjudged : Judged (Assessed this.problem V) w' t) (hviable : Viable w' t) :
    Bred this V fields₀ w₀
      { fields with nextPopulationPool := fields.nextPopulationPool ++ [t] } w' := by
  refine ⟨?_, h.grows.trans (hg.mono fun r hr => hr ▸ ht), fun s hs => ?_, fun s hs => ?_⟩
  · rw [h.same]
  · rcases List.mem_append.1 hs with hs | hs
    · obtain ⟨hevaluated, hv, hnew⟩ := h.pool s hs
      exact ⟨hg.evaluated hevaluated, (hg.viable_iff hevaluated).2 hv, hnew⟩
    · rw [List.mem_singleton.1 hs]
      exact ⟨hjudged.evaluated hviable, hviable, ht⟩
  · rcases hg.viable_or hs with hold | rfl
    · exact (h.viable s hold).imp_right (List.mem_append_left _)
    · exact Or.inr (List.mem_append_right _ List.mem_cons_self)

/-- A solution that is judged joins the pool if and only if it is viable. -/
theorem ends_judge {counter : ℤ} {t : Ref} (hbred : Bred this V fields₀ w₀ fields w)
    (hfresh : Fresh this.problem V w t) (hnew : w₀.solutions.length ≤ t) :
    Ends (do
        let _ ← call (evaluate context t)
        if ← call (isViable context t) then
          setFields fun f => { f with nextPopulationPool := f.nextPopulationPool ++ [t] }
          return increment counter
        else
          return counter : Method Fields K ℤ) (fields, w) fun c s =>
      Bred this V fields₀ w₀ s.1 s.2 ∧ w.Grows (· = t) s.2 ∧
        Gains 1 counter c fields.nextPopulationPool s.1.nextPopulationPool := by
  refine ends_call (ends_evaluate_judged (establishes_assessed _ _) (Or.inr hfresh)) ?_
  rintro - w₁ ⟨hgrows, hjudged⟩
  refine ends_call (ends_isViable_again hjudged) ?_
  rintro viable w₁ ⟨hviable, rfl⟩
  split
  next h =>
    exact ends_setFields (.ret ⟨hbred.joins hgrows hnew hjudged (hviable.1 h), hgrows,
      [t], le_rfl, rfl, rfl⟩)
  next h =>
    have hnot : ¬Viable w₁ t := fun hv => h (hviable.2 hv)
    exact .ret ⟨hbred.judged hgrows hnew hjudged hnot, hgrows, .zero 1 _ _⟩

theorem ends_addToPool (hparts : Parts this V litter) {counter : ℤ} {offspring : Ref}
    (hbred : Bred this V fields₀ w₀ fields w) (hfresh : Fresh this.problem V w offspring)
    (hlt : offspring < w.solutions.length) (hnew : w₀.solutions.length ≤ offspring) :
    Ends (addToPool this context counter offspring) (fields, w) fun c s =>
      Bred this V fields₀ w₀ s.1 s.2 ∧
        w.Grows (fun t => t = offspring ∨ w.solutions.length ≤ t) s.2 ∧
        Gains 1 counter c fields.nextPopulationPool s.1.nextPopulationPool := by
  unfold addToPool
  refine ends_call ((draws_solutions w).nextDouble rfl) ?_
  intro chance w₁ hw₁
  refine ends_call (ends_nonNull this.mutationTax) ?_
  rintro tax w₁ ⟨-, rfl⟩
  have hdrawn : w.Grows (fun _ => False) w₁ := .of_eq _ hw₁
  have hbred₁ := hbred.next hdrawn (fun _ h => h.elim) hdrawn.viable_before
  have hfresh₁ := hdrawn.fresh hfresh hlt id
  have hlength : w₁.solutions.length = w.solutions.length := congrArg List.length hw₁
  split
  next =>
    unfold modifySolution
    have hmutated : Ends (nonNull this.mutation >>= fun m => m.modify offspring 1) w₁
        fun t w₂ => w₁.Grows (· = offspring) w₂ ∧ (∀ t, Viable w₂ t → Viable w₁ t) ∧
          Fresh this.problem V w₂ t ∧ (t = offspring ∨ w₁.solutions.length ≤ t) := by
      refine (ends_nonNull this.mutation).bind ?_
      rintro m w₁ ⟨hm, rfl⟩
      exact hparts.mutates m hm w₁ offspring 1 hfresh₁ (hlength.symm ▸ hlt)
    refine ends_call hmutated ?_
    rintro t w₂ ⟨hgrows, hviable, hfresh₂, ht⟩
    have hbred₂ := hbred₁.next hgrows (fun r hr => hr ▸ hnew) hviable
    have hnew₂ : w₀.solutions.length ≤ t := by
      rcases ht with rfl | ht
      · exact hnew
      · exact hbred₁.length_le.trans ht
    refine (ends_judge hbred₂ hfresh₂ hnew₂).mono ?_
    rintro c ⟨fields', w'⟩ ⟨hbred', hgrows', hgains⟩
    have hmutation : w.Grows (fun r => r = offspring ∨ w.solutions.length ≤ r) w₂ :=
      (hdrawn.any _).trans (hgrows.mono fun r hr => Or.inl hr)
    refine ⟨hbred', hmutation.trans (hgrows'.mono fun r hr => ?_), hgains⟩
    rw [hr, ← hlength]
    exact ht
  next =>
    refine (ends_judge hbred₁ hfresh₁ hnew).mono ?_
    rintro c ⟨fields', w'⟩ ⟨hbred', hgrows', hgains⟩
    exact ⟨hbred', (hdrawn.any _).trans (hgrows'.mono fun r hr => Or.inl hr), hgains⟩

theorem ends_addToPools (hparts : Parts this V litter) {counter : ℤ} {start n : ℕ}
    (hbred : Bred this V fields₀ w₀ fields w)
    (hfresh : ∀ t ∈ List.range' start n, Fresh this.problem V w t)
    (hlt : start + n ≤ w.solutions.length) (hnew : w₀.solutions.length ≤ start) :
    Ends ((List.range' start n).foldlM (addToPool this context) counter) (fields, w) fun c s =>
      Bred this V fields₀ w₀ s.1 s.2 ∧
        Gains n counter c fields.nextPopulationPool s.1.nextPopulationPool := by
  -- what is still to come is fresh
  have hfold := Ends.foldlM_idx (List.range' start n) (f := addToPool this context)
    (b := counter) (s := (fields, w)) (I := fun i c s => Bred this V fields₀ w₀ s.1 s.2 ∧
      (∀ t, start + i ≤ t → t < start + n →
        Fresh this.problem V s.2 t ∧ t < s.2.solutions.length) ∧
      Gains i counter c fields.nextPopulationPool s.1.nextPopulationPool)
    ⟨hbred, fun t ht hn => ⟨hfresh t (by rw [List.mem_range'_1]; omega), by dsimp only; omega⟩,
      .zero 0 _ _⟩ ?_
  · rw [List.length_range'] at hfold
    exact hfold.mono fun c s ⟨hbred', _, hgains⟩ => ⟨hbred', hgains⟩
  · rintro i t ht c ⟨fields', w'⟩ ⟨hbred', hfresh', hgains⟩
    obtain ⟨hi, rfl⟩ := List.getElem?_eq_some_iff.1 ht
    rw [List.length_range'] at hi
    rw [List.getElem_range', one_mul]
    obtain ⟨hfirst, hfirstlt⟩ := hfresh' (start + i) le_rfl (by omega)
    refine (ends_addToPool hparts hbred' hfirst hfirstlt (by omega)).mono ?_
    rintro c' ⟨fields'', w''⟩ ⟨hbred'', hgrows, hgains'⟩
    refine ⟨hbred'', fun t ht hn => ?_, hgains.trans hgains'⟩
    obtain ⟨hf, hflt⟩ := hfresh' t (by omega) hn
    have hapart : ¬(t = start + i ∨ w'.solutions.length ≤ t) := by
      dsimp only at hflt
      omega
    exact ⟨hgrows.fresh hf hflt hapart, hgrows.lt hflt hapart⟩

theorem ends_parentsChoice (hparts : Parts this V litter)
    (hpopulation : ∀ r ∈ fields.population, Stands this.problem V w r) :
    Ends (parentsChoice this) (fields, w) fun parents s =>
      s.1 = fields ∧ w.Grows (fun _ => False) s.2 ∧
        ∀ r ∈ parents, Stands this.problem V s.2 r := by
  unfold parentsChoice
  refine ends_fields ?_
  refine ends_call (hparts.selects w fields.population hpopulation) ?_
  rintro chosen w₁ ⟨hgrows, -, hchosen⟩
  refine Ends.onState ((ends_copyValues_stands hchosen).mono ?_)
  rintro parents w₂ ⟨hgrows', -, hparents⟩
  exact ⟨rfl, hgrows.trans hgrows', hparents⟩

theorem ends_crossover (hparts : Parts this V litter) {parents : List Ref}
    (hparents : ∀ r ∈ parents, Stands this.problem V w r) :
    Ends (crossover this parents) w fun offsprings w' => w.Grows (fun _ => False) w' ∧
      litter offsprings.length ∧ ∀ r ∈ offsprings, Stands this.problem V w' r := by
  unfold crossover
  refine (hparts.crosses w parents hparents).bind ?_
  rintro children w₁ ⟨hgrows, hlitter, hchildren⟩
  refine (ends_copyValues_stands hchildren).mono ?_
  rintro offsprings w₂ ⟨hgrows', hlength, hoffsprings⟩
  exact ⟨hgrows.trans hgrows', hlength ▸ hlitter, hoffsprings⟩

theorem ends_breed (hparts : Parts this V litter) {counter : ℤ}
    (hpopulation : ∀ r ∈ fields₀.population, Stands this.problem V w₀ r)
    (hbred : Bred this V fields₀ w₀ fields w) :
    Ends (breed this context counter) (fields, w) fun c s => Bred this V fields₀ w₀ s.1 s.2 ∧
      ∃ n, (n = 0 ∨ litter n) ∧
        Gains n counter c fields.nextPopulationPool s.1.nextPopulationPool := by
  unfold breed
  refine (ends_parentsChoice hparts (hbred.stands hpopulation)).bind ?_
  rintro chosen ⟨_, w₁⟩ ⟨rfl, hgrows₁, hchosen⟩
  dsimp only at hgrows₁ hchosen
  refine ends_call (ends_copyValues_stands fun r hr => (hchosen r hr).shaped) ?_
  rintro parents w₂ ⟨hgrows₂, -, hparents⟩
  refine ends_call ((draws_solutions w₂).nextDouble rfl) ?_
  intro chance w₃ hw₃
  refine ends_call (ends_nonNull this.crossoverTax) ?_
  rintro tax w₃ ⟨-, rfl⟩
  have hgrows : w.Grows (fun _ => False) w₃ :=
    (hgrows₁.trans hgrows₂).trans (.of_eq _ hw₃)
  split
  next =>
    have hdrawn : w₂.Grows (fun _ => False) w₃ := .of_eq _ hw₃
    refine ends_call (ends_crossover hparts fun r hr => hdrawn.stands (hparents r hr) id) ?_
    rintro children w₄ ⟨hgrows₄, hlitter, hchildren⟩
    refine ends_call (ends_copyValues_fresh fun r hr => (hchildren r hr).shaped) ?_
    rintro offsprings w₅ ⟨hgrows₅, rfl, hlength, hfresh⟩
    have hall := (hgrows.trans hgrows₄).trans hgrows₅
    have hbred' := hbred.next hall (fun _ h => h.elim) hall.viable_before
    have hnew := (hbred.next (hgrows.trans hgrows₄) (fun _ h => h.elim)
      (hgrows.trans hgrows₄).viable_before).length_le
    refine (ends_addToPools hparts hbred' hfresh hlength.ge hnew).mono ?_
    rintro c s ⟨hbred'', hgains⟩
    exact ⟨hbred'', children.length, Or.inr hlitter, hgains⟩
  next =>
    exact .ret ⟨hbred.next hgrows (fun _ h => h.elim) hgrows.viable_before, 0, Or.inl rfl,
      .zero 0 _ _⟩

theorem ends_lacksOffspring (counter : ℤ) :
    Ends (lacksOffspring this counter) (fields, w) fun lacks s => s = (fields, w) ∧
      ∃ size, this.populationSize = some size ∧ (lacks = true ↔ counter < size) := by
  unfold lacksOffspring
  refine ends_call (ends_nonNull this.populationSize) ?_
  rintro size w ⟨hsize, rfl⟩
  exact .ret ⟨rfl, size, hsize, decide_eq_true_iff⟩

theorem Bred.start (hpool : fields₀.nextPopulationPool = []) :
    Bred this V fields₀ w₀ fields₀ w₀ :=
  ⟨rfl, .refl _ _, by simp [hpool], fun _ ht => Or.inl ht⟩

theorem visits_bred (hparts : Parts this V litter)
    (hpopulation : ∀ r ∈ fields₀.population, Stands this.problem V w₀ r)
    (hpool : fields₀.nextPopulationPool = []) {counter : ℤ} {s : Fields × World K}
    (h : Visits (lacksOffspring this) (breed this context) 0 (fields₀, w₀) counter s) :
    Bred this V fields₀ w₀ s.1 s.2 := by
  refine h.keeps (I := fun _ s => Bred this V fields₀ w₀ s.1 s.2) (.start hpool) ?_
  rintro b b' ⟨fields₁, w₁⟩ s' s'' hbred hlacks hdone
  obtain ⟨rfl, -⟩ := ends_lacksOffspring b _ _ hlacks
  exact (ends_breed hparts hpopulation hbred _ _ hdone).1

end Breeding

section Generation

variable {this : GA K} {V : List (Option (Element K)) → Prop} {size litter : ℕ → Prop}
  {context : Context} {fuel : ℕ} {fields : Fields} {w : World K}

def breeding (this : GA K) (fuel : ℕ) (context : Context) : Method Fields K Unit := do
  setFields fun f => { f with nextPopulationPool := [] }
  let _ ← repeatWhile .unfinished (lacksOffspring this) (breed this context) fuel 0

def renewal (this : GA K) (counters : ℤ × ℤ) : Method Fields K (ℤ × ℤ) := do
  let bestSolutionOptional ←
    call (findBestSolution this.solutionAnalyser (← Heuristics.fields).nextPopulationPool)
  let iterationsWithoutImprovement ←
    match bestSolutionOptional with
    | some best => do
        setFields fun f => { f with bestIterationSolution := best }
        pure (-1)
    | none => pure counters.2
  setFields fun f => { f with population := [] }
  let chosen ← call (nextPopulation this (← Heuristics.fields).nextPopulationPool)
  let population ← call (copyValues chosen)
  setFields fun f => { f with population }
  return (increment counters.1, increment iterationsWithoutImprovement)

theorem generation_eq (this : GA K) (fuel : ℕ) (context : Context) (counters : ℤ × ℤ) :
    generation this fuel context counters =
      breeding this fuel context >>= fun _ => renewal this counters := by
  calc generation this fuel context counters
      = (do
          setFields fun f => { f with nextPopulationPool := [] }
          let _ ← repeatWhile .unfinished (lacksOffspring this) (breed this context) fuel 0
          renewal this counters) := rfl
    _ = breeding this fuel context >>= fun _ => renewal this counters := by
        simp only [breeding, bind_assoc, pure_bind]

def Fields.emptied (fields : Fields) : Fields := { fields with nextPopulationPool := [] }

theorem ends_breeding (hparts : Parts this V litter)
    (hpopulation : ∀ r ∈ fields.population, Stands this.problem V w r) :
    Ends (breeding this fuel context) (fields, w) fun _ s =>
      Bred this V fields.emptied w s.1 s.2 ∧ ∃ counter, Visits (lacksOffspring this)
        (breed this context) 0 (fields.emptied, w) counter s ∧
        lacksOffspring this counter s = .ok false s := by
  unfold breeding
  refine ends_setFields ?_
  refine Ends.bind (fun counter s' h => visits_of_repeatWhile h) ?_
  rintro counter s' ⟨⟨fields₁, w₁⟩, hvisits, hlacks⟩
  obtain ⟨rfl, -⟩ := ends_lacksOffspring counter _ _ hlacks
  have hemptied : ∀ r ∈ fields.emptied.population, Stands this.problem V w r := hpopulation
  exact .ret ⟨visits_bred hparts hemptied rfl hvisits, counter, hvisits, hlacks⟩

structure Renews (this : GA K) (V : List (Option (Element K)) → Prop) (size : ℕ → Prop)
    (fields fields' : Fields) (w w' : World K) : Prop where
  grows : w.Grows (fun _ => False) w'
  pool : fields'.nextPopulationPool = fields.nextPopulationPool
  best : fields.nextPopulationPool = [] ∧
      fields'.bestIterationSolution = fields.bestIterationSolution ∨
    fields'.bestIterationSolution ∈ fields.nextPopulationPool ∧
      (this.solutionAnalyser = .benchmark → ∀ t ∈ fields.nextPopulationPool,
        w.value fields'.bestIterationSolution ≤ w.value t)
  population : ∀ r ∈ fields'.population, Stands this.problem V w' r
  size : size fields'.population.length

theorem ends_nextPopulation (hnext : Yields this this.nextPopulationSelector this.populationSize
    V size) {pool : List Ref} (hpool : ∀ t ∈ pool, Stands this.problem V w t) :
    Ends (nextPopulation this pool) w fun chosen w' => w.Grows (fun _ => False) w' ∧
      size chosen.length ∧ ∀ r ∈ chosen, Stands this.problem V w' r := by
  unfold nextPopulation
  refine (hnext w pool hpool).bind ?_
  rintro chosen w₁ ⟨hgrows, hsize, hchosen⟩
  refine (ends_copyValues_stands hchosen).mono ?_
  rintro copies w₂ ⟨hgrows', hlength, hcopies⟩
  exact ⟨hgrows.trans hgrows', hlength ▸ hsize, hcopies⟩

theorem ends_repopulate (hnext : Yields this this.nextPopulationSelector this.populationSize V size)
    (hpool : ∀ t ∈ fields.nextPopulationPool, Stands this.problem V w t) (counters : ℤ × ℤ) :
    Ends (do
        setFields fun f => { f with population := [] }
        let chosen ← call (nextPopulation this (← Heuristics.fields).nextPopulationPool)
        let population ← call (copyValues chosen)
        setFields fun f => { f with population }
        return counters : Method Fields K (ℤ × ℤ)) (fields, w) fun _ s =>
      s.1 = { fields with population := s.1.population } ∧ w.Grows (fun _ => False) s.2 ∧
        size s.1.population.length ∧ ∀ r ∈ s.1.population, Stands this.problem V s.2 r := by
  refine ends_setFields (ends_fields ?_)
  refine ends_call (ends_nextPopulation hnext hpool) ?_
  rintro chosen w₁ ⟨hgrows, hsize, hchosen⟩
  refine ends_call (ends_copyValues_stands fun r hr => (hchosen r hr).shaped) ?_
  rintro population w₂ ⟨hgrows', hlength, hpopulation⟩
  exact ends_setFields (.ret ⟨rfl, hgrows.trans hgrows', hlength ▸ hsize, hpopulation⟩)

theorem ends_renewal (hnext : Yields this this.nextPopulationSelector this.populationSize V size)
    (hpool : ∀ t ∈ fields.nextPopulationPool, Stands this.problem V w t) (counters : ℤ × ℤ) :
    Ends (renewal this counters) (fields, w) fun _ s =>
      Renews this V size fields s.1 w s.2 := by
  unfold renewal
  refine ends_fields ?_
  have hfind := (ends_findBestSolution (w := w) this.solutionAnalyser
    fields.nextPopulationPool).and (R := fun best _ => this.solutionAnalyser = .benchmark →
      ∀ b, best = some b → ∀ t ∈ fields.nextPopulationPool, w.value b ≤ w.value t) ?_
  · refine ends_call hfind ?_
    rintro best w ⟨⟨hmem, hnone, rfl⟩, hmin⟩
    cases best with
    | none =>
        refine (ends_repopulate hnext hpool _).mono ?_
        rintro _ ⟨fields', w'⟩ ⟨hsame, hgrows, hsize, hpopulation⟩
        refine ⟨hgrows, by rw [hsame], Or.inl ⟨hnone rfl, by rw [hsame]⟩, hpopulation, hsize⟩
    | some b =>
        have hfields : ({ fields with bestIterationSolution := b } : Fields).nextPopulationPool =
            fields.nextPopulationPool := rfl
        refine ends_setFields ?_
        refine (ends_repopulate hnext (hfields ▸ hpool) _).mono ?_
        rintro _ ⟨fields', w'⟩ ⟨hsame, hgrows, hsize, hpopulation⟩
        refine ⟨hgrows, by rw [hsame], Or.inr ?_, hpopulation, hsize⟩
        rw [hsame]
        exact ⟨hmem b rfl, fun hanalyser => hmin hanalyser b rfl⟩
  · intro best w' hrun hanalyser
    rw [hanalyser] at hrun
    exact (ends_findBestSolution_min _ _ _ hrun).1

theorem ends_generation {W : List (Option (Element K)) → Prop} (hparts : Parts this V litter)
    (hpopulation : ∀ r ∈ fields.population, Stands this.problem V w r)
    (hnext : Yields this this.nextPopulationSelector this.populationSize W size)
    (hviable : ∀ vector, ViableVector this.problem V vector → W vector) (counters : ℤ × ℤ) :
    Ends (generation this fuel context counters) (fields, w) fun _ s => ∃ fields₁ w₁,
      breeding this fuel context (fields, w) = .ok () (fields₁, w₁) ∧
      Bred this V fields.emptied w fields₁ w₁ ∧ Renews this W size fields₁ s.1 w₁ s.2 := by
  rw [generation_eq]
  refine Ends.bind (Q := fun _ s => breeding this fuel context (fields, w) = .ok () s ∧
    Bred this V fields.emptied w s.1 s.2)
    (fun _ s h => ⟨h, (ends_breeding hparts hpopulation _ s h).1⟩) ?_
  rintro - ⟨fields₁, w₁⟩ ⟨hbreeding, hbred⟩
  refine (ends_renewal hnext (fun t ht => ?_) counters).mono
    fun _ s hrenews => ⟨fields₁, w₁, hbreeding, hbred, hrenews⟩
  obtain ⟨⟨t', ht', -, ⟨hproblem, hvector⟩, -, hflag⟩, ⟨t'', ht'', hv⟩, -⟩ := hbred.pool t ht
  obtain rfl : t' = t'' := Option.some.inj (ht'.symm.trans ht'')
  exact ⟨t', ht', hproblem, hviable _ ⟨hvector, hflag ▸ hv⟩⟩

theorem ends_goesOn (counters : ℤ × ℤ) :
    Ends (goesOn this counters) (fields, w) fun _ s =>
      s.1 = fields ∧ s.2.solutions = w.solutions := by
  unfold goesOn
  exact ends_call ((draws_solutions w).isSatisfied rfl _ _ _ _) fun _ _ hw => .ret ⟨rfl, hw⟩

end Generation

section Initial

variable {this : GA K} {V : List (Option (Element K)) → Prop} {context : Context} {fuel : ℕ}
  {fields : Fields} {w : World K}

def prepare (this : GA K) (externalSolution : List Ref) (context : Context) :
    Method Fields K Unit := do
  let population ← call (copyValues externalSolution)
  setFields fun f => { f with population }
  let first ← call (nth population 0)
  setFields fun f => { f with bestIterationSolution := first }
  let _ ← call (evaluate context first)
  population.forM (consider this context)

theorem runMetaHeuristic_eq (this : GA K) (fuel : ℕ) (externalSolution : List Ref)
    (context : Context) :
    runMetaHeuristic this fuel externalSolution context = do
      if externalSolution.length < (← call (nonNull this.populationSize)) then
        return some []
      prepare this externalSolution context
      geneticAlgorithm this fuel context
      return some [(← Heuristics.fields).bestIterationSolution] := by
  unfold runMetaHeuristic prepare
  simp only [bind_assoc]

theorem ends_consider {r : Ref} (hr : Stands this.problem V w r)
    (hbest : Evaluated (fun _ => True) w fields.bestIterationSolution) :
    Ends (consider this context r) (fields, w) fun _ s => ∃ best,
      s.1 = { fields with bestIterationSolution := best } ∧ w.Grows (· = r) s.2 ∧
      Settled this.problem V s.2 r ∧ (best = fields.bestIterationSolution ∨ best = r) ∧
      (this.solutionAnalyser = .benchmark →
        s.2.value best ≤ w.value fields.bestIterationSolution ∧
        s.2.value best ≤ s.2.value r) := by
  unfold consider
  refine ends_call (ends_evaluate_shaped hr.shaped) ?_
  rintro - w₁ ⟨hgrows, hsettled⟩
  refine ends_fields (ends_call (ends_getBestSolution_min _ _ r) ?_)
  rintro best w₁ ⟨rfl, hchoice, hmin⟩
  refine Ends.modifies ⟨best, rfl, hgrows, hsettled, hchoice, fun hanalyser => ?_⟩
  rw [← hgrows.value_eq hbest]
  exact hmin hanalyser

structure Prepared (this : GA K) (V : List (Option (Element K)) → Prop)
    (externalSolution : List Ref) (w₀ : World K) (fields : Fields) (w : World K) : Prop where
  population : fields.population = List.range' w₀.solutions.length externalSolution.length
  settled : ∀ r ∈ fields.population, Settled this.problem V w r
  best : fields.bestIterationSolution ∈ fields.population
  least : this.solutionAnalyser = .benchmark →
    ∀ r ∈ fields.population, w.value fields.bestIterationSolution ≤ w.value r
  grows : w₀.Grows (fun r => w₀.solutions.length ≤ r) w
  viable : ∀ t, Viable w t → Viable w₀ t ∨ t ∈ fields.population
  copies : ∀ (i : ℕ) (e : Ref), externalSolution[i]? = some e → Evaluated (fun _ => True) w₀ e →
    w.value (w₀.solutions.length + i) = w₀.value e

structure Considered (this : GA K) (V : List (Option (Element K)) → Prop) (fields₁ : Fields)
    (w₁ : World K) (i : ℕ) (fields : Fields) (w : World K) : Prop where
  same : fields = { fields₁ with bestIterationSolution := fields.bestIterationSolution }
  grows : w₁.Grows (· ∈ fields₁.population) w
  stands : ∀ r ∈ fields₁.population, Stands this.problem V w r
  best : fields.bestIterationSolution ∈ fields₁.population ∧
    Settled this.problem V w fields.bestIterationSolution
  settled : ∀ r ∈ fields₁.population.take i, Settled this.problem V w r ∧
    (this.solutionAnalyser = .benchmark → w.value fields.bestIterationSolution ≤ w.value r)

theorem ends_considerAll (fields₁ : Fields) {w₁ : World K}
    (hbest : fields₁.bestIterationSolution ∈ fields₁.population ∧
      Settled this.problem V w₁ fields₁.bestIterationSolution)
    (hstands : ∀ r ∈ fields₁.population, Stands this.problem V w₁ r) :
    Ends (fields₁.population.forM (consider this context)) (fields₁, w₁) fun _ s =>
      Considered this V fields₁ w₁ fields₁.population.length s.1 s.2 := by
  refine Ends.forM_idx _
    (I := fun i (s : Fields × World K) => Considered this V fields₁ w₁ i s.1 s.2)
    ⟨rfl, .refl _ _, hstands, hbest, by simp⟩ ?_
  rintro i r hr ⟨fields, w⟩ ⟨hsame, hgrows, hstands, ⟨hmem, hsettled⟩, htaken⟩
  dsimp only at hsame hgrows hstands hmem hsettled htaken
  have hrmem : r ∈ fields₁.population := List.mem_of_getElem? hr
  refine (ends_consider (hstands r hrmem) (hsettled.mono fun _ _ => trivial)).mono ?_
  rintro _ ⟨fields', w'⟩ ⟨best, rfl, hgrows', hr', hchoice, hle⟩
  dsimp only at hgrows' hr' hle
  have hbest' : best ∈ fields₁.population ∧ Settled this.problem V w' best := by
    rcases hchoice with rfl | rfl
    · exact ⟨hmem, hgrows'.evaluated hsettled⟩
    · exact ⟨hrmem, hr'⟩
  refine ⟨by rw [hsame], hgrows.trans (hgrows'.mono fun t ht => ht ▸ hrmem), fun t ht => ?_, hbest',
    fun t ht => ?_⟩
  · by_cases htr : t = r
    · rw [htr]
      exact hr'.stands
    · exact hgrows'.stands (hstands t ht) htr
  · rw [List.take_add_one, hr] at ht
    rcases List.mem_append.1 ht with ht | ht
    · obtain ⟨hsettled', hleast⟩ := htaken t ht
      refine ⟨hgrows'.evaluated hsettled', fun hanalyser => ?_⟩
      rw [hgrows'.value_eq hsettled']
      exact (hle hanalyser).1.trans (hleast hanalyser)
    · obtain rfl : t = r := by simpa using ht
      exact ⟨hr', fun hanalyser => (hle hanalyser).2⟩

theorem ends_prepare {externalSolution : List Ref}
    (hexternal : ∀ e ∈ externalSolution, Stands this.problem V w e) :
    Ends (prepare this externalSolution context) (fields, w) fun _ s =>
      Prepared this V externalSolution w s.1 s.2 := by
  unfold prepare
  refine ends_call ((ends_copyValues_fresh fun e he => (hexternal e he).shaped).and
    (ends_copyValues_values externalSolution)) ?_
  rintro population w₁ ⟨⟨hgrows₁, hcopies, hlength, hfresh⟩, hvalues⟩
  refine ends_setFields (ends_call (ends_nth population 0) ?_)
  rintro first w₁ ⟨hfirst, rfl⟩
  have hfirstmem : first ∈ population := List.mem_of_getElem? hfirst
  refine ends_setFields (ends_call (ends_evaluate_shaped (hfresh first hfirstmem).1) ?_)
  rintro - w₂ ⟨hgrows₂, hsettled⟩
  have hnew : ∀ r ∈ population, w.solutions.length ≤ r ∧ r < w₁.solutions.length := by
    intro r hr
    rw [hcopies, List.mem_range'_1] at hr
    rwa [hlength]
  have hstands : ∀ r ∈ population, Stands this.problem V w₂ r := by
    intro r hr
    by_cases hrf : r = first
    · rw [hrf]
      exact Settled.stands hsettled
    · exact hgrows₂.stands ((hfresh r hr).1.stands (hnew r hr).2) hrf
  refine (ends_considerAll { fields with population, bestIterationSolution := first }
    ⟨hfirstmem, hsettled⟩ hstands).mono ?_
  rintro - ⟨fields', w'⟩ ⟨hsame, hgrows₃, -, ⟨hbest, -⟩, htaken⟩
  dsimp only at hsame hgrows₃ hbest htaken
  rw [List.take_length] at htaken
  have hpopulation : fields'.population = population := by rw [hsame]
  have hgrows : w₁.Grows (· ∈ population) w' :=
    (hgrows₂.mono fun t ht => ht ▸ hfirstmem).trans hgrows₃
  refine ⟨hpopulation.trans hcopies, fun r hr => (htaken r (hpopulation ▸ hr)).1,
    hpopulation.symm ▸ hbest, fun hanalyser r hr => (htaken r (hpopulation ▸ hr)).2 hanalyser,
    (hgrows₁.any _).trans (hgrows.mono fun t ht => (hnew t ht).1), fun t ht => ?_,
    fun i e he hevaluated => ?_⟩
  · rw [hpopulation]
    exact (hgrows.viable_or ht).imp_left (hgrows₁.viable_before t)
  · obtain ⟨hcopy, hvalue⟩ := hvalues i e he hevaluated
    rw [hgrows.value_eq hcopy, hvalue]

/-- A run on a list that is long enough ends where its loop does. -/
theorem ends_run {size : ℤ} (hsize : this.populationSize = some size) {externalSolution : List Ref}
    (hlong : size ≤ externalSolution.length) :
    Ends (runMetaHeuristic this fuel externalSolution context) (fields, w) fun result s =>
      ∃ s₀ s₁ counters, prepare this externalSolution context (fields, w) = .ok () s₀ ∧
        Visits (goesOn this) (generation this fuel context) (0, 0) s₀ counters s₁ ∧
        goesOn this counters s₁ = .ok false s ∧ result = some [s.1.bestIterationSolution] := by
  rw [runMetaHeuristic_eq, hsize]
  refine ends_call (ends_nonNull (some size)) ?_
  rintro size' w ⟨hsize', rfl⟩
  obtain rfl : size = size' := Option.some.inj hsize'
  rw [if_neg (by omega)]
  refine Ends.bind (Q := fun _ s => prepare this externalSolution context (fields, w) = .ok () s)
    (fun _ _ h => h) ?_
  intro _ s₀ hprepare
  unfold geneticAlgorithm
  simp only [bind_assoc, pure_bind]
  refine Ends.bind (fun counters s h => visits_of_repeatWhile h) ?_
  rintro counters ⟨fields', w'⟩ ⟨s₁, hvisits, hgoes⟩
  refine ends_fields ?_
  exact .ret ⟨s₀, s₁, counters, hprepare, hvisits, hgoes, rfl⟩

end Initial

end GA

end DOptimas.Heuristics
