import DOptimas.Heuristics.Mutation
import DOptimas.Proofs.DifferentialEvolution
/-!
# The genetic algorithm forgets its best solution

After each generation the best of the pool takes the place of the best solution
found so far, better or not.  So the solution that is returned is at least as good
as all others if every pool has one that is at least as good as the best before.
-/

namespace DOptimas.Proofs.GeneticBest

open DOptimas.Support DOptimas.Heuristics
open DOptimas.Core (SolutionAnalyser)

variable {K : Type} [RealArith K]

structure ForBenchmark (this : GA K) (p : BenchmarkProblem K) : Prop where
  problem : this.problem = p.toProblem
  analyser : this.solutionAnalyser = .benchmark
  mutation : ∃ m : Option (BenchmarkModifier K),
    this.mutation = m.map BenchmarkModifier.toSolutionModifier

abbrev anyVector : List (Option (Element K)) → Prop := fun _ => True

section Parts

variable {this : GA K} {p : BenchmarkProblem K}

theorem yields_any (this : GA K) (m : Option ModifiesSolutionCollections) (n : Option ℤ) :
    GA.Yields this m n anyVector fun _ => True := by
  intro w solutions hsolutions
  refine (ends_modifyCollection m this.problem solutions _ n).mono ?_
  rintro result w' ⟨hgrows, hresult⟩
  refine ⟨hgrows, trivial, fun r hr => ?_⟩
  rcases hresult r hr with hmem | hfresh
  · exact (hgrows.stands (hsolutions r hmem) id).shaped
  · exact hfresh.1

theorem ForBenchmark.parts (h : ForBenchmark this p) :
    GA.Parts this anyVector fun _ => True := by
  refine ⟨yields_any this _ _, yields_any this _ _, fun m hm => ?_⟩
  obtain ⟨modifier, hmodifier⟩ := h.mutation
  rw [hmodifier] at hm
  obtain ⟨modifier, rfl, rfl⟩ := Option.map_eq_some_iff.1 hm
  exact modifier.mutates _ fun _ _ _ _ => trivial

end Parts

section Run

variable {this : GA K} {p : BenchmarkProblem K} {context : Context} {fuel : ℕ}
  {externalSolution : List Ref} {fields fields' fields₁ : GA.Fields} {w₀ w w' w₁ : World K}

structure Head (this : GA K) (externalSolution : List Ref) (w₀ : World K) (fields : GA.Fields)
    (w : World K) : Prop where
  population : ∀ r ∈ fields.population, Stands this.problem anyVector w r
  grows : w₀.Grows (fun r => w₀.solutions.length ≤ r) w
  initial : ∀ i < externalSolution.length,
    Evaluated (fun _ => True) w (w₀.solutions.length + i)
  copies : ∀ (i : ℕ) (e : Ref), externalSolution[i]? = some e → Evaluated (fun _ => True) w₀ e →
    w.value (w₀.solutions.length + i) = w₀.value e
  offspring : ∀ t, w₀.solutions.length + externalSolution.length ≤ t → Viable w t →
    Evaluated (fun _ => True) w t
  best : (∃ i < externalSolution.length,
      fields.bestIterationSolution = w₀.solutions.length + i) ∨
    w₀.solutions.length + externalSolution.length ≤ fields.bestIterationSolution ∧
      Viable w fields.bestIterationSolution

/-- The best solution is at least as good as every initial individual and every
viable offspring. -/
def Covers (externalSolution : List Ref) (w₀ : World K) (best : Ref) (w : World K) : Prop :=
  (∀ i < externalSolution.length, w.value best ≤ w.value (w₀.solutions.length + i)) ∧
    ∀ t, w₀.solutions.length + externalSolution.length ≤ t → Viable w t → w.value best ≤ w.value t

/-- The pool is empty or has a solution that is at least as good as the best one. -/
def Improves (fields : GA.Fields) (w : World K) : Prop :=
  fields.nextPopulationPool = [] ∨
    ∃ t ∈ fields.nextPopulationPool, w.value t ≤ w.value fields.bestIterationSolution

theorem Head.best_evaluated (h : Head this externalSolution w₀ fields w) :
    Evaluated (fun _ => True) w fields.bestIterationSolution := by
  rcases h.best with ⟨i, hi, hbest⟩ | ⟨hnew, hviable⟩
  · rw [hbest]
    exact h.initial i hi
  · exact h.offspring _ hnew hviable

theorem Head.length_le (h : Head this externalSolution w₀ fields w) :
    w₀.solutions.length ≤ w.solutions.length :=
  h.grows.length_le fun _ hr hle => absurd hr (not_lt.2 hle)

theorem Head.long (h : Head this externalSolution w₀ fields w) :
    w₀.solutions.length + externalSolution.length ≤ w.solutions.length := by
  rcases Nat.eq_zero_or_pos externalSolution.length with hzero | hpos
  · rw [hzero, Nat.add_zero]
    exact h.length_le
  · obtain ⟨s, hs, -⟩ := h.initial (externalSolution.length - 1) (by omega)
    have hlt := (List.getElem?_eq_some_iff.1 hs).1
    omega

theorem Head.of_eq (h : Head this externalSolution w₀ fields w)
    (hw : w'.solutions = w.solutions) : Head this externalSolution w₀ fields w' := by
  have hvalue : ∀ r, w'.value r = w.value r := fun r => by simp [World.value, World.valueOf, hw]
  have hevaluated : ∀ {P : Solution K → Prop} {r}, Evaluated P w r → Evaluated P w' r := by
    intro P r h
    rw [Evaluated, hw]
    exact h
  have hviable : ∀ {r}, Viable w' r ↔ Viable w r := by simp [Viable, hw]
  refine ⟨fun r hr => ?_, h.grows.trans (.of_eq _ hw), fun i hi => hevaluated (h.initial i hi),
    fun i e he hold => (hvalue _).trans (h.copies i e he hold),
    fun t ht hv => hevaluated (h.offspring t ht (hviable.1 hv)),
    h.best.imp_right fun hnew => ⟨hnew.1, hviable.2 hnew.2⟩⟩
  obtain ⟨s, hs, hshape⟩ := h.population r hr
  exact ⟨s, hw.symm ▸ hs, hshape⟩

theorem Covers.of_eq {best : Ref} (hw : w'.solutions = w.solutions) :
    Covers externalSolution w₀ best w' ↔ Covers externalSolution w₀ best w := by
  simp [Covers, Viable, World.value, World.valueOf, hw]

structure Turned (fields fields₁ : GA.Fields) (w w₁ w' : World K) : Prop where
  bred : w.Grows (fun r => w.solutions.length ≤ r) w₁
  grows : w.Grows (fun r => w.solutions.length ≤ r) w'
  renewed : w₁.Grows (fun _ => False) w'
  best : fields₁.bestIterationSolution = fields.bestIterationSolution
  pool : ∀ t ∈ fields₁.nextPopulationPool, w.solutions.length ≤ t ∧ Viable w₁ t ∧
    Evaluated (fun _ => True) w₁ t
  viable : ∀ t, Viable w' t → Viable w t ∨ t ∈ fields₁.nextPopulationPool

theorem turned (hbred : GA.Bred this anyVector fields.emptied w fields₁ w₁)
    (hrenews : GA.Renews this anyVector (fun _ => True) fields₁ fields' w₁ w') :
    Turned fields fields₁ w w₁ w' := by
  refine ⟨hbred.grows, hbred.grows.trans (hrenews.grows.any _), hrenews.grows, ?_, fun t ht => ?_,
    fun t ht => hbred.viable t (hrenews.grows.viable_before t ht)⟩
  · rw [hbred.same]
    rfl
  · obtain ⟨hevaluated, hviable, hnew⟩ := hbred.pool t ht
    exact ⟨hnew, hviable, hevaluated.mono fun _ _ => trivial⟩

theorem Head.next (h : Head this externalSolution w₀ fields w)
    (hturned : Turned fields fields₁ w w₁ w')
    (hrenews : GA.Renews this anyVector (fun _ => True) fields₁ fields' w₁ w') :
    Head this externalSolution w₀ fields' w' := by
  have hlong := h.long
  refine ⟨hrenews.population, h.grows.trans (hturned.grows.mono fun r hr => h.length_le.trans hr),
    fun i hi => hturned.grows.evaluated (h.initial i hi), fun i e he hold => ?_,
    fun t ht hv => ?_, ?_⟩
  · have hi : i < externalSolution.length := (List.getElem?_eq_some_iff.1 he).1
    rw [hturned.grows.value_eq (h.initial i hi)]
    exact h.copies i e he hold
  · rcases hturned.viable t hv with hold | hmem
    · exact hturned.grows.evaluated (h.offspring t ht hold)
    · exact hturned.renewed.evaluated (hturned.pool t hmem).2.2
  · rcases hrenews.best with ⟨-, hsame⟩ | ⟨hmem, -⟩
    · rw [hsame, hturned.best]
      exact h.best.imp_right fun ⟨hnew, hv⟩ =>
        ⟨hnew, (hturned.grows.viable_iff h.best_evaluated).2 hv⟩
    · obtain ⟨hnew, hv, hevaluated⟩ := hturned.pool _ hmem
      exact Or.inr ⟨hlong.trans hnew, (hturned.renewed.viable_iff hevaluated).2 hv⟩

/-- The best solution still covers everything if and only if the pool improves on the
one before. -/
theorem covers_next_iff (hanalyser : this.solutionAnalyser = .benchmark)
    (h : Head this externalSolution w₀ fields w) (hturned : Turned fields fields₁ w w₁ w')
    (hrenews : GA.Renews this anyVector (fun _ => True) fields₁ fields' w₁ w')
    (hcovers : Covers externalSolution w₀ fields.bestIterationSolution w) :
    Covers externalSolution w₀ fields'.bestIterationSolution w' ↔ Improves fields₁ w₁ := by
  have hbest : w'.value fields.bestIterationSolution = w.value fields.bestIterationSolution :=
    hturned.grows.value_eq h.best_evaluated
  have hbest₁ : w₁.value fields₁.bestIterationSolution = w.value fields.bestIterationSolution := by
    rw [hturned.best]
    exact hturned.bred.value_eq h.best_evaluated
  constructor
  · intro hcovers'
    rcases hrenews.best with ⟨hempty, -⟩ | ⟨hmem, -⟩
    · exact Or.inl hempty
    · refine Or.inr ⟨fields'.bestIterationSolution, hmem, ?_⟩
      rw [hbest₁, ← hturned.renewed.value_eq (hturned.pool _ hmem).2.2, ← hbest]
      rcases h.best with ⟨i, hi, heq⟩ | ⟨hnew, hv⟩
      · rw [heq]
        exact hcovers'.1 i hi
      · exact hcovers'.2 _ hnew ((hturned.grows.viable_iff h.best_evaluated).2 hv)
  · intro himproves
    -- the new best solution is at least as good as the old one, and as the pool
    have hle : w'.value fields'.bestIterationSolution ≤ w.value fields.bestIterationSolution ∧
        ∀ t ∈ fields₁.nextPopulationPool, w'.value fields'.bestIterationSolution ≤ w'.value t := by
      rcases hrenews.best with ⟨hempty, hsame⟩ | ⟨hmem, hleast⟩
      · rw [hsame, hturned.best, hbest, hempty]
        exact ⟨le_rfl, by simp⟩
      · have hvalue : ∀ t ∈ fields₁.nextPopulationPool, w'.value t = w₁.value t := fun t ht =>
          hturned.renewed.value_eq (hturned.pool t ht).2.2
        rw [hvalue _ hmem]
        refine ⟨?_, fun t ht => (hleast hanalyser t ht).trans (hvalue t ht).ge⟩
        rcases himproves with hempty | ⟨t, ht, hle⟩
        · rw [hempty] at hmem
          cases hmem
        · exact (hleast hanalyser t ht).trans (hle.trans hbest₁.le)
    refine ⟨fun i hi => ?_, fun t ht hv => ?_⟩
    · rw [hturned.grows.value_eq (h.initial i hi)]
      exact hle.1.trans (hcovers.1 i hi)
    · rcases hturned.viable t hv with hold | hmem
      · rw [hturned.grows.value_eq (h.offspring t ht hold)]
        exact hle.1.trans (hcovers.2 t ht hold)
      · exact hle.2 t hmem

/-- Every generation of the run fills a pool that improves on the best solution. -/
def Improving (this : GA K) (fuel : ℕ) (context : Context) (s₀ : GA.Fields × World K) : Prop :=
  ∀ counters s s' s₁ counters' s'', Visits (GA.goesOn this) (GA.generation this fuel context)
      (0, 0) s₀ counters s →
    GA.goesOn this counters s = .ok true s' → GA.breeding this fuel context s' = .ok () s₁ →
    GA.generation this fuel context counters s' = .ok counters' s'' → Improves s₁.1 s₁.2

theorem loop_turn (hga : ForBenchmark this p) (h : Head this externalSolution w₀ fields w)
    {counters counters' : ℤ × ℤ} {s' s'' : GA.Fields × World K}
    (hgoes : GA.goesOn this counters (fields, w) = .ok true s')
    (hdone : GA.generation this fuel context counters s' = .ok counters' s'') :
    ∃ s₁, GA.breeding this fuel context s' = .ok () s₁ ∧
      Head this externalSolution w₀ s''.1 s''.2 ∧
      (Covers externalSolution w₀ fields.bestIterationSolution w →
        (Covers externalSolution w₀ s''.1.bestIterationSolution s''.2 ↔ Improves s₁.1 s₁.2)) := by
  obtain ⟨fields', w'⟩ := s'
  obtain ⟨rfl, hw⟩ : fields' = fields ∧ w'.solutions = w.solutions :=
    GA.ends_goesOn counters _ _ hgoes
  have hhead := h.of_eq hw
  obtain ⟨fields₁, w₁, hbreeding, hbred, hrenews⟩ := GA.ends_generation hga.parts
    hhead.population (yields_any this _ _) (fun _ _ => trivial) counters _ _ hdone
  have hturned := turned hbred hrenews
  refine ⟨(fields₁, w₁), hbreeding, hhead.next hturned hrenews, fun hcovers => ?_⟩
  exact covers_next_iff hga.analyser hhead hturned hrenews ((Covers.of_eq hw).2 hcovers)

theorem visits_head (hga : ForBenchmark this p) (h : Head this externalSolution w₀ fields w)
    {counters : ℤ × ℤ} {s : GA.Fields × World K}
    (hvisits : Visits (GA.goesOn this) (GA.generation this fuel context) (0, 0) (fields, w)
      counters s) : Head this externalSolution w₀ s.1 s.2 := by
  refine hvisits.keeps (I := fun _ s => Head this externalSolution w₀ s.1 s.2) h ?_
  rintro b b' ⟨fields₁, w₁⟩ s' s'' hhead hgoes hdone
  obtain ⟨-, -, hnext, -⟩ := loop_turn hga hhead hgoes hdone
  exact hnext

/-- The best solution covers everything wherever the loop stands, if and only if every
pool improves on it. -/
theorem visits_covers_iff (hga : ForBenchmark this p)
    (h : Head this externalSolution w₀ fields w)
    (hcovers : Covers externalSolution w₀ fields.bestIterationSolution w) :
    (∀ counters s, Visits (GA.goesOn this) (GA.generation this fuel context) (0, 0) (fields, w)
      counters s → Covers externalSolution w₀ s.1.bestIterationSolution s.2) ↔
    Improving this fuel context (fields, w) := by
  constructor
  · intro hall counters s s' s₁ counters' s'' hvisits hgoes hbreeding hdone
    obtain ⟨s₂, hbreeding', -, hiff⟩ := loop_turn hga (visits_head hga h hvisits) hgoes hdone
    rw [hbreeding] at hbreeding'
    cases hbreeding'
    exact (hiff (hall _ _ hvisits)).1 (hall _ _ (hvisits.next hgoes hdone))
  · intro himproving counters s hvisits
    induction hvisits with
    | start => exact hcovers
    | next before hgoes hdone ih =>
        obtain ⟨s₁, hbreeding, -, hiff⟩ := loop_turn hga (visits_head hga h before) hgoes hdone
        exact (hiff ih).2 (himproving _ _ _ _ _ _ before hgoes hbreeding hdone)

theorem head_of_prepared (hga : ForBenchmark this p)
    (h : GA.Prepared this anyVector externalSolution w₀ fields w) :
    Head this externalSolution w₀ fields w ∧
      Covers externalSolution w₀ fields.bestIterationSolution w := by
  have hmem : ∀ i < externalSolution.length,
      w₀.solutions.length + i ∈ fields.population := by
    intro i hi
    rw [h.population, List.mem_range'_1]
    omega
  have hnone : ∀ t, w₀.solutions.length + externalSolution.length ≤ t → ¬Viable w t := by
    intro t ht hv
    rcases h.viable t hv with ⟨s, hs, -⟩ | hin
    · have hlt := (List.getElem?_eq_some_iff.1 hs).1
      omega
    · rw [h.population, List.mem_range'_1] at hin
      omega
  refine ⟨⟨fun r hr => Settled.stands (h.settled r hr), h.grows,
    fun i hi => (h.settled _ (hmem i hi)).mono fun _ _ => trivial, h.copies,
    fun t ht hv => absurd hv (hnone t ht), Or.inl ?_⟩,
    fun i hi => h.least hga.analyser _ (hmem i hi), fun t ht hv => absurd hv (hnone t ht)⟩
  have hbest := h.best
  rw [h.population, List.mem_range'_1] at hbest
  exact ⟨fields.bestIterationSolution - w₀.solutions.length, by omega,
    (Nat.add_sub_cancel' hbest.1).symm⟩

/-- A run returns a solution that is at least as good as every initial individual and
every viable offspring if each of its pools improves on the best solution before it. -/
theorem run_best_of_improving (fuel : ℕ) (context : Context) (fields : GA.Fields)
    (hga : ForBenchmark this p) {size : ℤ}
    (hsize : this.populationSize = some size) (hlong : size ≤ externalSolution.length)
    (hexternal : ∀ e ∈ externalSolution, Stands this.problem anyVector w₀ e) :
    (∀ s₀, GA.prepare this externalSolution context (fields, w₀) = .ok () s₀ →
      ((∀ counters s, Visits (GA.goesOn this) (GA.generation this fuel context) (0, 0) s₀
          counters s → Covers externalSolution w₀ s.1.bestIterationSolution s.2) ↔
        Improving this fuel context s₀)) ∧
    ∀ result s, GA.runMetaHeuristic this fuel externalSolution context (fields, w₀) =
        .ok result s →
      ∃ s₀ r, GA.prepare this externalSolution context (fields, w₀) = .ok () s₀ ∧
        result = some [r] ∧ (Improving this fuel context s₀ →
          Covers externalSolution w₀ r s.2 ∧ ∀ e ∈ externalSolution,
            Evaluated (fun _ => True) w₀ e → s.2.value r ≤ s.2.value e) := by
  have hstart : ∀ s₀, GA.prepare this externalSolution context (fields, w₀) = .ok () s₀ →
      Head this externalSolution w₀ s₀.1 s₀.2 ∧
        Covers externalSolution w₀ s₀.1.bestIterationSolution s₀.2 :=
    fun s₀ hprepare => head_of_prepared hga (GA.ends_prepare hexternal _ _ hprepare)
  constructor
  · rintro ⟨fields₀, w⟩ hprepare
    obtain ⟨hhead, hcovers⟩ := hstart _ hprepare
    exact visits_covers_iff hga hhead hcovers
  · rintro result ⟨fields', w'⟩ hrun
    obtain ⟨⟨fields₀, w⟩, ⟨fields₁, w₁⟩, counters, hprepare, hvisits, hgoes, hresult⟩ :=
      GA.ends_run hsize hlong _ _ hrun
    obtain ⟨hhead, hcovers⟩ := hstart _ hprepare
    obtain ⟨rfl, hw⟩ : fields' = fields₁ ∧ w'.solutions = w₁.solutions :=
      GA.ends_goesOn counters _ _ hgoes
    refine ⟨(fields₀, w), _, hprepare, hresult, fun himproving => ?_⟩
    have hend := (visits_head hga hhead hvisits).of_eq hw
    have hcovers' : Covers externalSolution w₀ fields'.bestIterationSolution w' :=
      (Covers.of_eq hw).2 ((visits_covers_iff hga hhead hcovers).2 himproving _ _ hvisits)
    refine ⟨hcovers', fun e he hevaluated => ?_⟩
    obtain ⟨i, hi⟩ := List.getElem?_of_mem he
    have hle := hcovers'.1 i (List.getElem?_eq_some_iff.1 hi).1
    rwa [hend.copies i e hi hevaluated, ← hend.grows.value_eq hevaluated] at hle

end Run

section Example

open DifferentialEvolution (bowl exampleWorld exampleParameters returns of_returns)

def geneticParameters : MetaHeuristicParameters ℚ :=
  { exampleParameters with
    populationSize := some 2, parentsSize := some 2, crossoverTax := some 1
    mutationTax := some 0 }

def exampleGenetic : GA ℚ :=
  { problem := bowl.toProblem, metaHeuristicParameters := geneticParameters
    stopCondition := some .maxIterations, solutionAnalyser := .benchmark
    populationSize := some 2, numParents := some 2, mutationTax := some 0
    crossoverTax := some 1, selection := some .chooseRandomK
    reproduction := some .binaryCrossover, nextPopulationSelector := some .chooseRandomK
    mutation := none }

theorem exampleGenetic_forBenchmark : ForBenchmark exampleGenetic bowl :=
  ⟨rfl, rfl, none, rfl⟩

theorem exampleWorld_stands :
    ∀ e ∈ [0, 1, 2, 3], Stands exampleGenetic.problem anyVector exampleWorld e := by
  intro e he
  simp only [List.mem_cons, List.not_mem_nil, or_false] at he
  rcases he with rfl | rfl | rfl | rfl
  · exact ⟨_, rfl, rfl, trivial⟩
  · exact ⟨_, rfl, rfl, trivial⟩
  · exact ⟨_, rfl, rfl, trivial⟩
  · exact ⟨_, rfl, rfl, trivial⟩

/-- The pool is bred from the two worst of the evaluated solutions with values 1, 1/4,
1/4 and 1/16, and takes the place of the best one. -/
theorem run_forgets_best : ∃ r s,
    GA.runMetaHeuristic exampleGenetic 2 [0, 1, 2, 3] (some .benchmark)
      (⟨[], [], 0⟩, exampleWorld) = .ok (some [r]) s ∧
    (∀ e ∈ [0, 1, 2, 3], Viable exampleWorld e) ∧ s.2.value 3 < s.2.value r ∧
    s.2.value 7 < s.2.value r := by
  obtain ⟨r, s, hrun, hcheck⟩ := of_returns
    (c := fun r s => decide (s.2.value 3 < s.2.value r ∧ s.2.value 7 < s.2.value r))
    (show returns _ (GA.runMetaHeuristic exampleGenetic 2 [0, 1, 2, 3] (some .benchmark)
      (⟨[], [], 0⟩, exampleWorld)) = true by decide +kernel)
  refine ⟨r, s, hrun, fun e he => ?_, of_decide_eq_true hcheck⟩
  simp only [List.mem_cons, List.not_mem_nil, or_false] at he
  rcases he with rfl | rfl | rfl | rfl
  · exact ⟨_, rfl, rfl⟩
  · exact ⟨_, rfl, rfl⟩
  · exact ⟨_, rfl, rfl⟩
  · exact ⟨_, rfl, rfl⟩

theorem run_best_of_improving_example : ∃ s₀ r s,
    GA.prepare exampleGenetic [0, 1, 2, 3] (some .benchmark) (⟨[], [], 0⟩, exampleWorld) =
      .ok () s₀ ∧
    GA.runMetaHeuristic exampleGenetic 2 [0, 1, 2, 3] (some .benchmark)
      (⟨[], [], 0⟩, exampleWorld) = .ok (some [r]) s ∧
    ((∀ counters s, Visits (GA.goesOn exampleGenetic)
        (GA.generation exampleGenetic 2 (some .benchmark)) (0, 0) s₀ counters s →
        Covers [0, 1, 2, 3] exampleWorld s.1.bestIterationSolution s.2) ↔
      Improving exampleGenetic 2 (some .benchmark) s₀) ∧
    (Improving exampleGenetic 2 (some .benchmark) s₀ →
      Covers [0, 1, 2, 3] exampleWorld r s.2) := by
  have hbest := run_best_of_improving 2 (some .benchmark) ⟨[], [], 0⟩
    exampleGenetic_forBenchmark rfl
    (show (2 : ℤ) ≤ ([0, 1, 2, 3] : List Ref).length by decide) exampleWorld_stands
  obtain ⟨r, s, hrun, -⟩ := of_returns (c := fun _ _ => true)
    (show returns _ (GA.runMetaHeuristic exampleGenetic 2 [0, 1, 2, 3] (some .benchmark)
      (⟨[], [], 0⟩, exampleWorld)) = true by decide +kernel)
  obtain ⟨s₀, r', hprepare, hresult, hcovers⟩ := hbest.2 _ _ hrun
  obtain rfl : r = r' := by simpa using hresult
  exact ⟨s₀, r, s, hprepare, hrun, hbest.1 s₀ hprepare, fun h => (hcovers h).1⟩

end Example

end DOptimas.Proofs.GeneticBest
