import DOptimas.Heuristics.Crossover
import DOptimas.Proofs.GeneticBest
/-!
# The population of the genetic algorithm

Every choice is made from a list that is long enough, and every population has the
configured size and viable vectors of full dimension.  What is returned has one
too, but it is a clone that is not flagged as viable where no generation was run.
-/

namespace DOptimas.Proofs.GeneticPopulation

open DOptimas.Support DOptimas.Heuristics

variable {K : Type} [RealArith K]

/-- A genetic algorithm that chooses at random and crosses over at one cut. -/
structure Plain (this : GA K) (parents size : ℤ) : Prop where
  numParents : this.numParents = some parents
  populationSize : this.populationSize = some size
  two_le : 2 ≤ parents
  parents_le : parents ≤ size
  size_lt : size < 2147483647
  selection : this.selection = some .chooseRandomK
  reproduction : this.reproduction = some .binaryCrossover
  nextPopulation : this.nextPopulationSelector = some .chooseRandomK
  mutation : ∀ m, this.mutation = some m → m.Mutates this.problem (FullDimension this.problem)

abbrev FullViable (problem : Problem K) : List (Option (Element K)) → Prop :=
  ViableVector problem (FullDimension problem)

section Parts

variable {this : GA K} {parents size : ℤ}

theorem Plain.parts (h : Plain this parents size) :
    GA.Parts this (FullDimension this.problem) (· = 2) := by
  refine ⟨fun w population hpopulation => ?_, ?_, h.mutation⟩
  · rw [h.selection]
    refine (GA.yields_chooseRandomK this _ _ w population hpopulation).mono ?_
    exact fun chosen w' ⟨hgrows, _, hchosen⟩ => ⟨hgrows, trivial, hchosen⟩
  · rw [h.reproduction]
    exact GA.yields_binaryCrossover this _

theorem Plain.next (h : Plain this parents size) :
    GA.Yields this this.nextPopulationSelector this.populationSize (FullViable this.problem)
      fun n => (n : ℤ) = size := by
  rw [h.nextPopulation, h.populationSize]
  intro w pool hpool
  refine (GA.yields_chooseRandomK this _ _ w pool hpool).mono ?_
  exact fun chosen w' ⟨hgrows, hlength, hchosen⟩ =>
    ⟨hgrows, (Option.some.inj hlength).symm, hchosen⟩

/-- The counter does not wrap while it is at most the largest `int`. -/
theorem increment_iterate (k : ℕ) {n : ℤ} (h : n + k ≤ 2147483647) :
    increment^[k] n = n + k := by
  induction k with
  | zero => simp
  | succ k ih =>
      rw [Function.iterate_succ_apply', ih (by push_cast at h; omega), increment, if_neg]
      · push_cast
        ring
      · push_cast at h
        omega

end Parts

section Breeding

variable {this : GA K} {parents size : ℤ} {context : Context} {fuel : ℕ}
  {fields : GA.Fields} {w : World K}

structure Breeds (this : GA K) (size : ℤ) (fields : GA.Fields) (w : World K) (counter : ℤ)
    (s : GA.Fields × World K) : Prop where
  bred : GA.Bred this (FullDimension this.problem) fields.emptied w s.1 s.2
  counter : counter = s.1.nextPopulationPool.length
  pool : (s.1.nextPopulationPool.length : ℤ) ≤ size + 1

theorem stands_full {r : Ref} (h : Stands this.problem (FullViable this.problem) w r) :
    Stands this.problem (FullDimension this.problem) w r := by
  obtain ⟨s, hs, hproblem, hvector⟩ := h
  exact ⟨s, hs, hproblem, hvector.1⟩

/-- Offspring come in pairs, and the loop stops as soon as there are enough. -/
theorem visits_breeds (h : Plain this parents size)
    (hpopulation : ∀ r ∈ fields.population, Stands this.problem (FullViable this.problem) w r)
    {counter : ℤ} {s : GA.Fields × World K}
    (hvisits : Visits (GA.lacksOffspring this) (GA.breed this context) 0 (fields.emptied, w)
      counter s) : Breeds this size fields w counter s := by
  have hsize := h.two_le.trans h.parents_le
  refine hvisits.keeps (I := Breeds this size fields w) ⟨.start rfl, rfl, ?_⟩ ?_
  · simp [GA.Fields.emptied]
    omega
  · rintro b b' ⟨fields₁, w₁⟩ s' ⟨fields₂, w₂⟩ hbreeds hlacks hdone
    obtain ⟨rfl, size', hsize', hlacking⟩ := GA.ends_lacksOffspring b _ _ hlacks
    obtain rfl : size = size' := Option.some.inj (h.populationSize.symm.trans hsize')
    have hlt : b < size := hlacking.1 rfl
    have hstands : ∀ r ∈ fields.emptied.population,
        Stands this.problem (FullDimension this.problem) w r :=
      fun r hr => stands_full (hpopulation r hr)
    obtain ⟨hbred, n, hn, added, hadded, hpool, hcounter⟩ :=
      GA.ends_breed h.parts hstands hbreeds.bred _ _ hdone
    dsimp only at hpool
    have hcount := hbreeds.counter
    have hlength : fields₂.nextPopulationPool.length =
        fields₁.nextPopulationPool.length + added.length := by rw [hpool, List.length_append]
    dsimp only at hcount
    have hle : added.length ≤ 2 := by omega
    have hsmall := h.size_lt
    refine ⟨hbred, ?_, ?_⟩
    · rw [hcounter, increment_iterate _ (by omega)]
      dsimp only
      omega
    · dsimp only
      omega

theorem ends_couple (h : Plain this parents size)
    (hpopulation : ∀ r ∈ fields.population,
      Stands this.problem (FullDimension this.problem) w r)
    {chosen couple : List Ref} {s : GA.Fields × World K} {w' : World K}
    (hchosen : GA.parentsChoice this (fields, w) = .ok chosen s)
    (hcouple : copyValues chosen s.2 = .ok couple w') :
    (couple.length : ℤ) = parents ∧
      ∀ r ∈ couple, Stands this.problem (FullDimension this.problem) w' r := by
  have hchoice : Ends (GA.parentsChoice this) (fields, w) fun chosen s =>
      (chosen.length : ℤ) = parents ∧
        ∀ r ∈ chosen, Stands this.problem (FullDimension this.problem) s.2 r := by
    unfold GA.parentsChoice
    refine ends_fields ?_
    rw [h.selection, h.numParents]
    refine ends_call (GA.yields_chooseRandomK this _ _ w fields.population hpopulation) ?_
    rintro picked w₁ ⟨-, hlength, hpicked⟩
    refine Ends.onState ((ends_copyValues_stands hpicked).mono ?_)
    rintro copies w₂ ⟨-, hcopies, hstands⟩
    exact ⟨by rw [hcopies, Option.some.inj hlength], hstands⟩
  obtain ⟨hlength, hstands⟩ := hchoice _ _ hchosen
  obtain ⟨-, hcopies, hfull⟩ :=
    ends_copyValues_stands (fun r hr => (hstands r hr).shaped) _ _ hcouple
  exact ⟨by rw [hcopies, hlength], hfull⟩

theorem enough_of_breeding (h : Plain this parents size)
    (hpopulation : ∀ r ∈ fields.population, Stands this.problem (FullViable this.problem) w r)
    {s : GA.Fields × World K} (hbreeding : GA.breeding this fuel context (fields, w) = .ok () s) :
    size ≤ s.1.nextPopulationPool.length := by
  obtain ⟨-, counter, hvisits, hlacks⟩ := GA.ends_breeding h.parts
    (fun r hr => stands_full (hpopulation r hr)) _ _ hbreeding
  have hbreeds := visits_breeds h hpopulation hvisits
  obtain ⟨-, size', hsize', hlacking⟩ := GA.ends_lacksOffspring counter _ _ hlacks
  obtain rfl : size = size' := Option.some.inj (h.populationSize.symm.trans hsize')
  rw [← hbreeds.counter]
  by_contra hlt
  exact Bool.false_ne_true (hlacking.2 (not_le.1 hlt))

end Breeding

section Run

variable {this : GA K} {parents size : ℤ} {context : Context} {fuel : ℕ}
  {externalSolution : List Ref} {fields : GA.Fields} {w₀ w w' : World K}

structure Head (this : GA K) (size : ℤ) (fields : GA.Fields) (w : World K) : Prop where
  population : ∀ r ∈ fields.population, Stands this.problem (FullViable this.problem) w r
  enough : size ≤ fields.population.length
  best : Settled this.problem (FullViable this.problem) w fields.bestIterationSolution

theorem Head.of_eq (h : Head this size fields w) (hw : w'.solutions = w.solutions) :
    Head this size fields w' := by
  refine ⟨fun r hr => ?_, h.enough, ?_⟩
  · obtain ⟨s, hs, hshape⟩ := h.population r hr
    exact ⟨s, hw.symm ▸ hs, hshape⟩
  · obtain ⟨s, hs, hshape⟩ := h.best
    exact ⟨s, hw.symm ▸ hs, hshape⟩

/-- A generation leaves a population of the configured size, and a best solution that
is flagged as viable. -/
theorem head_next (h : Plain this parents size) (hhead : Head this size fields w)
    {counters counters' : ℤ × ℤ} {s : GA.Fields × World K}
    (hdone : GA.generation this fuel context counters (fields, w) = .ok counters' s) :
    Head this size s.1 s.2 ∧ (s.1.population.length : ℤ) = size ∧
      Viable s.2 s.1.bestIterationSolution := by
  obtain ⟨fields₁, w₁, hbreeding, hbred, hrenews⟩ := GA.ends_generation h.parts
    (fun r hr => stands_full (hhead.population r hr)) h.next (fun _ hv => hv) counters _ _ hdone
  have henough := enough_of_breeding h hhead.population hbreeding
  have hpositive := h.two_le.trans h.parents_le
  rcases hrenews.best with ⟨hempty, -⟩ | ⟨hmem, -⟩
  · rw [hempty, List.length_nil] at henough
    omega
  · obtain ⟨hevaluated, hviable, -⟩ := hbred.pool _ hmem
    have hbest : Settled this.problem (FullViable this.problem) w₁
        s.1.bestIterationSolution := by
      obtain ⟨t, ht, hchanged, ⟨hproblem, hvector⟩, -, hflag⟩ := hevaluated
      obtain ⟨t', ht', hv⟩ := hviable
      obtain rfl : t = t' := Option.some.inj (ht.symm.trans ht')
      exact ⟨t, ht, hchanged, hproblem, hvector, hflag ▸ hv⟩
    exact ⟨⟨hrenews.population, hrenews.size.ge, hrenews.grows.evaluated hbest⟩, hrenews.size,
      (hrenews.grows.viable_iff hevaluated).2 hviable⟩

theorem visits_head (h : Plain this parents size) (hhead : Head this size fields w)
    {counters : ℤ × ℤ} {s : GA.Fields × World K}
    (hvisits : Visits (GA.goesOn this) (GA.generation this fuel context) (0, 0) (fields, w)
      counters s) :
    Head this size s.1 s.2 ∧ ((counters, s) = ((0, 0), (fields, w)) ∨
      (∃ s', GA.goesOn this (0, 0) (fields, w) = .ok true s') ∧
        Viable s.2 s.1.bestIterationSolution) := by
  refine hvisits.keeps (I := fun counters s => Head this size s.1 s.2 ∧
    ((counters, s) = ((0, 0), (fields, w)) ∨
      (∃ s', GA.goesOn this (0, 0) (fields, w) = .ok true s') ∧
        Viable s.2 s.1.bestIterationSolution)) ⟨hhead, Or.inl rfl⟩ ?_
  rintro b b' ⟨fields₁, w₁⟩ ⟨fields₂, w₂⟩ s'' ⟨hold, hstart⟩ hgoes hdone
  obtain ⟨rfl, hw⟩ : fields₂ = fields₁ ∧ w₂.solutions = w₁.solutions :=
    GA.ends_goesOn b _ _ hgoes
  obtain ⟨hnext, -, hviable⟩ := head_next h (hold.of_eq hw) hdone
  refine ⟨hnext, Or.inr ⟨?_, hviable⟩⟩
  rcases hstart with heq | ⟨hgoes', -⟩
  · obtain ⟨rfl, hs⟩ := Prod.mk.inj heq
    exact ⟨_, hs ▸ hgoes⟩
  · exact hgoes'

theorem head_of_prepared (hlong : size ≤ externalSolution.length)
    (h : GA.Prepared this (FullViable this.problem) externalSolution w₀ fields w) :
    Head this size fields w := by
  refine ⟨fun r hr => Settled.stands (h.settled r hr), ?_, h.settled _ h.best⟩
  rw [h.population, List.length_range']
  exact hlong

structure Sized (this : GA K) (parents size : ℤ) (fuel : ℕ) (context : Context)
    (s : GA.Fields × World K) : Prop where
  breeding : ∀ counter s₁, Visits (GA.lacksOffspring this) (GA.breed this context) 0
      (s.1.emptied, s.2) counter s₁ →
    parents ≤ s₁.1.population.length ∧ (s₁.1.nextPopulationPool.length : ℤ) ≤ size + 1 ∧
    ∀ chosen s₂ couple w₂, GA.parentsChoice this s₁ = .ok chosen s₂ →
      copyValues chosen s₂.2 = .ok couple w₂ → (couple.length : ℤ) = parents ∧
        ∀ r ∈ couple, Stands this.problem (FullDimension this.problem) w₂ r
  pool : ∀ s₁, GA.breeding this fuel context s = .ok () s₁ →
    size ≤ s₁.1.nextPopulationPool.length
  population : ∀ counters counters' s₁, GA.generation this fuel context counters s =
      .ok counters' s₁ → (s₁.1.population.length : ℤ) = size ∧
    ∀ r ∈ s₁.1.population, Stands this.problem (FullViable this.problem) s₁.2 r

theorem Head.sized (hhead : Head this size fields w) (h : Plain this parents size) :
    Sized this parents size fuel context (fields, w) := by
  refine ⟨fun counter s₁ hvisits => ?_, fun s₁ => enough_of_breeding h hhead.population,
    fun counters counters' s₁ hdone => ?_⟩
  · obtain ⟨fields₁, w₁⟩ := s₁
    have hbreeds := visits_breeds h hhead.population hvisits
    have hsame : fields₁.population = fields.population := by
      have hfields := congrArg GA.Fields.population hbreeds.bred.same
      exact hfields
    have henough := hhead.enough
    have hle := h.parents_le
    refine ⟨?_, hbreeds.pool, fun chosen s₂ couple w₂ hchosen hcouple => ?_⟩
    · dsimp only
      rw [hsame]
      omega
    · refine ends_couple h (hbreeds.bred.stands fun r hr => ?_) hchosen hcouple
      exact stands_full (hhead.population r hr)
  · obtain ⟨hnext, hsize, -⟩ := head_next h hhead hdone
    exact ⟨hsize, hnext.population⟩

/-- Sizes and vectors are as promised in every generation.  The solution returned has a
viable vector of full dimension, and is flagged as viable if and only if a generation
was run or the best initial individual was flagged. -/
theorem run_population (fuel : ℕ) (context : Context) (fields : GA.Fields)
    (h : Plain this parents size) (hlong : size ≤ externalSolution.length)
    (hexternal : ∀ e ∈ externalSolution, Stands this.problem (FullViable this.problem) w₀ e) :
    (∀ s₀ counters s s', GA.prepare this externalSolution context (fields, w₀) = .ok () s₀ →
      Visits (GA.goesOn this) (GA.generation this fuel context) (0, 0) s₀ counters s →
      GA.goesOn this counters s = .ok true s' → Sized this parents size fuel context s') ∧
    ∀ result s, GA.runMetaHeuristic this fuel externalSolution context (fields, w₀) =
        .ok result s →
      ∃ s₀ r, GA.prepare this externalSolution context (fields, w₀) = .ok () s₀ ∧
        result = some [r] ∧ Stands this.problem (FullViable this.problem) s.2 r ∧
        (Viable s.2 r ↔ (∃ s', GA.goesOn this (0, 0) s₀ = .ok true s') ∨
          Viable s₀.2 s₀.1.bestIterationSolution) := by
  have hstart : ∀ s₀, GA.prepare this externalSolution context (fields, w₀) = .ok () s₀ →
      Head this size s₀.1 s₀.2 :=
    fun s₀ hprepare => head_of_prepared hlong (GA.ends_prepare hexternal _ _ hprepare)
  constructor
  · rintro ⟨fields₀, w⟩ counters ⟨fields₁, w₁⟩ ⟨fields₂, w₂⟩ hprepare hvisits hgoes
    obtain ⟨rfl, hw⟩ : fields₂ = fields₁ ∧ w₂.solutions = w₁.solutions :=
      GA.ends_goesOn counters _ _ hgoes
    exact ((visits_head h (hstart _ hprepare) hvisits).1.of_eq hw).sized h
  · rintro result ⟨fields', w'⟩ hrun
    obtain ⟨⟨fields₀, w⟩, ⟨fields₁, w₁⟩, counters, hprepare, hvisits, hgoes, hresult⟩ :=
      GA.ends_run h.populationSize hlong _ _ hrun
    obtain ⟨rfl, hw⟩ : fields' = fields₁ ∧ w'.solutions = w₁.solutions :=
      GA.ends_goesOn counters _ _ hgoes
    obtain ⟨hhead, hwhere⟩ := visits_head h (hstart _ hprepare) hvisits
    refine ⟨(fields₀, w), _, hprepare, hresult, Settled.stands (hhead.of_eq hw).best, ?_⟩
    have hviable : Viable w' fields'.bestIterationSolution ↔
        Viable w₁ fields'.bestIterationSolution := by simp [Viable, hw]
    rw [hviable]
    rcases hwhere with heq | ⟨hgoes', hflag⟩
    · obtain ⟨rfl, hs⟩ := Prod.mk.inj heq
      obtain ⟨rfl, rfl⟩ := Prod.mk.inj hs
      refine ⟨Or.inr, fun hor => hor.resolve_left ?_⟩
      rintro ⟨s', hgoes'⟩
      rw [hgoes] at hgoes'
      cases hgoes'
    · exact ⟨fun _ => Or.inl hgoes', fun _ => hflag⟩

end Run

section Example

open DifferentialEvolution (bowl exampleWorld returns of_returns)
open GeneticBest (exampleGenetic)

def hastyGenetic : GA ℚ :=
  { exampleGenetic with
    metaHeuristicParameters := { exampleGenetic.metaHeuristicParameters with time := some 0 }
    stopCondition := some .time }

def lateWorld : World ℚ := { exampleWorld with clock := fun _ => 1 }

theorem viable_lateWorld : ∀ e ∈ [0, 1, 2, 3], Viable lateWorld e := by
  intro e he
  simp only [List.mem_cons, List.not_mem_nil, or_false] at he
  rcases he with rfl | rfl | rfl | rfl
  · exact ⟨_, rfl, rfl⟩
  · exact ⟨_, rfl, rfl⟩
  · exact ⟨_, rfl, rfl⟩
  · exact ⟨_, rfl, rfl⟩

def unviable (r : Ref) (s : GA.Fields × World ℚ) : Bool :=
  match isViable (some .benchmark) r s.2 with
  | .ok viable _ => !viable
  | .error _ _ => false

/-- Without a generation the solution returned is a clone of an evaluated one, and
`isViable` is false for it. -/
theorem run_returns_unviable : ∃ r s w',
    GA.runMetaHeuristic hastyGenetic 1 [0, 1, 2, 3] (some .benchmark)
      (⟨[], [], 0⟩, lateWorld) = .ok (some [r]) s ∧
    (∀ e ∈ [0, 1, 2, 3], Viable lateWorld e) ∧
    isViable (some .benchmark) r s.2 = .ok false w' := by
  obtain ⟨r, s, hrun, hcheck⟩ := of_returns
    (show returns unviable (GA.runMetaHeuristic hastyGenetic 1 [0, 1, 2, 3] (some .benchmark)
      (⟨[], [], 0⟩, lateWorld)) = true by decide +kernel)
  unfold unviable at hcheck
  split at hcheck
  next viable w' hviable =>
    obtain rfl : viable = false := by simpa using hcheck
    exact ⟨r, s, w', hrun, viable_lateWorld, hviable⟩
  next => cases hcheck

theorem exampleGenetic_plain : Plain exampleGenetic 2 2 where
  numParents := rfl
  populationSize := rfl
  two_le := le_rfl
  parents_le := le_rfl
  size_lt := by decide
  selection := rfl
  reproduction := rfl
  nextPopulation := rfl
  mutation _ hm := by cases hm

theorem exampleWorld_full : ∀ e ∈ [0, 1, 2, 3],
    Stands exampleGenetic.problem (FullViable exampleGenetic.problem) exampleWorld e := by
  have hfull : ∀ id x, (bowl.checkViability [some (.function id x)]).1 = true →
      FullViable exampleGenetic.problem [some (.function id x)] :=
    fun id x h => ⟨⟨rfl, by simp⟩, h⟩
  intro e he
  simp only [List.mem_cons, List.not_mem_nil, or_false] at he
  rcases he with rfl | rfl | rfl | rfl
  · exact ⟨_, rfl, rfl, hfull _ _ (by decide +kernel)⟩
  · exact ⟨_, rfl, rfl, hfull _ _ (by decide +kernel)⟩
  · exact ⟨_, rfl, rfl, hfull _ _ (by decide +kernel)⟩
  · exact ⟨_, rfl, rfl, hfull _ _ (by decide +kernel)⟩

/-- The run of the example has a generation, and returns a viable solution. -/
theorem run_population_example : ∃ s₀ r s,
    GA.prepare exampleGenetic [0, 1, 2, 3] (some .benchmark) (⟨[], [], 0⟩, exampleWorld) =
      .ok () s₀ ∧
    GA.runMetaHeuristic exampleGenetic 2 [0, 1, 2, 3] (some .benchmark)
      (⟨[], [], 0⟩, exampleWorld) = .ok (some [r]) s ∧
    (∀ counters s s', Visits (GA.goesOn exampleGenetic)
        (GA.generation exampleGenetic 2 (some .benchmark)) (0, 0) s₀ counters s →
      GA.goesOn exampleGenetic counters s = .ok true s' →
      Sized exampleGenetic 2 2 2 (some .benchmark) s') ∧
    Stands exampleGenetic.problem (FullViable exampleGenetic.problem) s.2 r := by
  have hpopulation := run_population 2 (some .benchmark) ⟨[], [], 0⟩ exampleGenetic_plain
    (show (2 : ℤ) ≤ ([0, 1, 2, 3] : List Ref).length by decide) exampleWorld_full
  obtain ⟨r, s, hrun, -⟩ := of_returns (c := fun _ _ => true)
    (show returns _ (GA.runMetaHeuristic exampleGenetic 2 [0, 1, 2, 3] (some .benchmark)
      (⟨[], [], 0⟩, exampleWorld)) = true by decide +kernel)
  obtain ⟨s₀, r', hprepare, hresult, hstands, -⟩ := hpopulation.2 _ _ hrun
  obtain rfl : r = r' := by simpa using hresult
  exact ⟨s₀, r, s, hprepare, hrun, fun counters s s' => hpopulation.1 s₀ counters s s' hprepare,
    hstands⟩

end Example

end DOptimas.Proofs.GeneticPopulation
