import DOptimas.Support.Loops
import DOptimas.Heuristics.Breeding
import DOptimas.Proofs.GeneticBest
import DOptimas.Proofs.Isolation
/-!
# The limit on iterations without improvement

Particle swarm passes the condition a zero, and the genetic algorithm starts its
counter anew in every generation that bred a solution, so neither of them is ever
stopped by the limit.  GRASP counts the iterations since its best solution last
changed.
-/

namespace DOptimas.Proofs.Stagnation

open DOptimas.Support DOptimas.Heuristics
open Exception (Thrown)
open Isolation (DistinctIds Preserves)

variable {K : Type} [RealArith K] {M : ℤ}

/-- Configured with a limit of `M` iterations without improvement. -/
structure Watches (M : ℤ) (stopCondition : Option StopCondition)
    (parameters : MetaHeuristicParameters K) : Prop where
  condition : stopCondition = some .maxIterationsWithoutImprove ∨
    stopCondition = some .mix ∧ parameters.maxIterations = none
  limit : parameters.maxIterationsWI = some M

section Condition

variable {stopCondition : Option StopCondition} {parameters : MetaHeuristicParameters K}

theorem Watches.answer (h : Watches M stopCondition parameters) :
    ∃ s, stopCondition = some s ∧ ∀ (time : K) (it wi : ℤ) (w : World K),
      s.isSatisfied time it wi parameters w = .ok (decide (M < wi)) w := by
  rcases h.condition with rfl | ⟨rfl, hnone⟩
  · refine ⟨_, rfl, fun time it wi w => ?_⟩
    simp only [StopCondition.isSatisfied, h.limit]
    rfl
  · refine ⟨_, rfl, fun time it wi w => ?_⟩
    simp only [StopCondition.isSatisfied, hnone, h.limit]
    rfl

theorem Watches.isSatisfied_eq (h : Watches M stopCondition parameters) (it wi : ℤ)
    (w : World K) : isSatisfied stopCondition it wi parameters w =
      .ok (decide (M < wi)) { w with clock := fun n => w.clock (n + 1) } := by
  obtain ⟨s, rfl, hanswer⟩ := h.answer
  exact hanswer _ it wi { w with clock := fun n => w.clock (n + 1) }

theorem Watches.ends_isSatisfied (h : Watches M stopCondition parameters) (it wi : ℤ)
    (w : World K) :
    Ends (isSatisfied stopCondition it wi parameters) w fun b _ => b = decide (M < wi) := by
  intro b w' hb
  rw [h.isSatisfied_eq] at hb
  cases hb
  rfl

end Condition

theorem after_call {F α β : Type} {p : Program K α} {g : α → Method F K β} {x : F} {w : World K}
    {S : β → F × World K → Prop} (hg : ∀ a w', Ends (g a) (x, w') S) :
    Ends (call p >>= g) (x, w) S :=
  ends_call (Q := fun _ _ => True) (fun _ _ _ => trivial) fun a w' _ => hg a w'

/-! ## Particle swarm -/

namespace PSO

open Heuristics.PSO

variable {this : PSO K} {context : Context}

theorem goesOn_true (h : Watches M this.stopCondition this.metaHeuristicParameters) (hM : 0 ≤ M)
    (iteration : ℤ) (s : Fields × World K) :
    Ends (goesOn this iteration) s fun go _ => go = true := by
  obtain ⟨fields, w⟩ := s
  obtain ⟨stop, hstop, hanswer⟩ := h.answer
  unfold goesOn
  rw [hstop]
  refine ends_call (ends_nonNull _) ?_
  rintro s w ⟨hs, rfl⟩
  cases hs
  refine ends_call (Q := fun b _ => b = decide (M < 0)) ?_ ?_
  · intro b w' hb
    rw [hanswer] at hb
    cases hb
    rfl
  · rintro _ w' rfl
    exact .ret (by simpa using hM)

theorem never_returns (h : Watches M this.stopCondition this.metaHeuristicParameters)
    (hM : 0 ≤ M) (fuel : ℕ) (externalSolution : List Ref) (s : Fields × World K) :
    Ends (runMetaHeuristic this fuel externalSolution context) s fun _ _ => False := by
  unfold runMetaHeuristic
  refine .after fun _ s => .after fun _ s => .after fun _ s => .after fun _ s =>
    .after fun f s => ?_
  refine .after fun _ s => .after fun velocity s => .after fun _ s => ?_
  refine Ends.bind (Q := fun _ _ => False) ?_ fun _ _ hfalse => hfalse.elim
  exact endless (I := fun _ _ => True)
    (fun iteration s _ => (goesOn_true h hM iteration s).mono fun _ _ hgo => ⟨hgo, trivial⟩)
    (fun _ _ _ _ _ _ => trivial) trivial

end PSO

/-! ## Genetic algorithm -/

namespace GA

open Heuristics.GA

variable {this : GA K} {context : Context} {fields : Fields} {w : World K}

def Pooled (counter : ℤ) (s : Fields × World K) : Prop :=
  0 < counter → s.1.nextPopulationPool ≠ []

theorem ends_addToPool {counter : ℤ} (h : Pooled counter (fields, w)) (offspring : Ref) :
    Ends (addToPool this context counter offspring) (fields, w) Pooled := by
  have hjudge : ∀ (w' : World K) (mutated : Ref), Ends (do
      let _ ← call (evaluate context mutated)
      if ← call (isViable context mutated) then
        setFields fun f => { f with nextPopulationPool := f.nextPopulationPool ++ [mutated] }
        return increment counter
      else
        return counter) (fields, w') Pooled := by
    intro w' mutated
    refine after_call fun _ w' => after_call fun viable w' => ?_
    split
    · refine ends_setFields (.ret ?_)
      intro _
      exact List.append_ne_nil_of_right_ne_nil _ (List.cons_ne_nil _ _)
    · exact .ret h
  unfold addToPool
  refine after_call fun chance w' => after_call fun tax w' => ?_
  split
  · exact after_call fun mutated w' => hjudge w' mutated
  · exact hjudge w' offspring

theorem ends_breed {counter : ℤ} (h : Pooled counter (fields, w)) :
    Ends (breed this context counter) (fields, w) Pooled := by
  unfold breed
  refine Ends.bind (Q := fun _ s => s.1 = fields) ?_ ?_
  · unfold parentsChoice
    exact ends_fields (after_call fun chosen w' => .onState fun _ _ _ => rfl)
  rintro chosen ⟨_, w'⟩ rfl
  refine after_call fun parents w' => after_call fun chance w' => after_call fun tax w' => ?_
  split
  · refine after_call fun children w' => after_call fun offsprings w' => ?_
    exact .foldlM h fun offspring _ counter s hs => ends_addToPool hs offspring
  · exact .ret h

theorem ends_breeding {size : ℤ} (hsize : this.populationSize = some size) (hpos : 1 ≤ size)
    (fuel : ℕ) (s : Fields × World K) :
    Ends (breeding this fuel context) s fun _ s' => s'.1.nextPopulationPool ≠ [] := by
  obtain ⟨fields, w⟩ := s
  unfold breeding
  refine ends_setFields (Ends.bind (Q := fun _ s' => s'.1.nextPopulationPool ≠ []) ?_
    fun _ _ hs => .ret hs)
  intro counter s' hloop
  obtain ⟨s, hvisits, hlacks⟩ := visits_of_repeatWhile hloop
  have hpooled : Pooled counter s := by
    refine hvisits.keeps (I := Pooled) (fun hzero => absurd hzero (lt_irrefl 0)) ?_
    rintro b b' ⟨fields, w⟩ s' s'' hb hgoes hdone
    obtain ⟨rfl, -⟩ := ends_lacksOffspring b _ _ hgoes
    exact ends_breed hb b' s'' hdone
  obtain ⟨rfl, size', hsize', hiff⟩ := ends_lacksOffspring counter _ _ hlacks
  obtain rfl : size = size' := Option.some.inj (hsize.symm.trans hsize')
  have hcounter : ¬counter < size := fun hlt => by simpa using hiff.2 hlt
  exact hpooled (by omega)

theorem ends_renewal (hpool : fields.nextPopulationPool ≠ []) (counters : ℤ × ℤ) :
    Ends (renewal this counters) (fields, w) fun counters' _ => counters'.2 = 0 := by
  unfold renewal
  refine ends_fields (ends_call (ends_findBestSolution _ _) ?_)
  rintro best w' ⟨-, hnone, rfl⟩
  cases best with
  | none => exact absurd (hnone rfl) hpool
  | some best =>
      refine ends_setFields (Ends.bind (Q := fun wi _ => wi = -1) (.ret rfl) ?_)
      rintro _ s rfl
      refine .after fun _ s => .after fun f s => .after fun chosen s => ?_
      exact .after fun population s => .after fun _ s => .ret rfl

theorem ends_generation {size : ℤ} (hsize : this.populationSize = some size) (hpos : 1 ≤ size)
    (fuel : ℕ) (counters : ℤ × ℤ) (s : Fields × World K) :
    Ends (generation this fuel context counters) s fun counters' _ => counters'.2 = 0 := by
  rw [generation_eq]
  exact (ends_breeding hsize hpos fuel s).bind fun _ s hpool => ends_renewal hpool counters

theorem never_returns (h : Watches M this.stopCondition this.metaHeuristicParameters)
    (hM : 0 ≤ M) {size : ℤ} (hsize : this.populationSize = some size) (hpos : 1 ≤ size)
    (fuel : ℕ) (externalSolution : List Ref) (s : Fields × World K) :
    Ends (runMetaHeuristic this fuel externalSolution context) s fun result _ =>
      externalSolution.length < size ∧ result = some [] := by
  obtain ⟨fields, w⟩ := s
  rw [runMetaHeuristic_eq]
  refine ends_call (ends_nonNull this.populationSize) ?_
  rintro size' w ⟨hsize', rfl⟩
  obtain rfl : size = size' := Option.some.inj (hsize.symm.trans hsize')
  split
  next hfew => exact .ret ⟨hfew, rfl⟩
  · refine .after fun _ s => Ends.bind (Q := fun _ _ => False) ?_ fun _ _ hfalse => hfalse.elim
    unfold geneticAlgorithm
    refine Ends.bind (Q := fun _ _ => False) ?_ fun _ _ hfalse => hfalse.elim
    refine endless (I := fun counters _ => counters.2 = 0) ?_ ?_ rfl
    · rintro counters ⟨fields, w⟩ hzero
      unfold goesOn
      refine ends_call (h.ends_isSatisfied counters.1 counters.2 w) ?_
      rintro _ w' rfl
      refine .ret ⟨?_, hzero⟩
      rw [hzero]
      simpa using hM
    · exact fun counters s _ => ends_generation hsize hpos fuel counters s

end GA

/-! ## The two that never stop -/

/-- Configured with that limit, and a population if it breeds one. -/
def Endless (M : ℤ) : MetaHeuristic K → Prop
  | .ga this _ => Watches M this.stopCondition this.metaHeuristicParameters ∧
      ∃ size, this.populationSize = some size ∧ 1 ≤ size
  | .pso this _ => Watches M this.stopCondition this.metaHeuristicParameters
  | _ => False

theorem returns_ofClass {F : Type} {wrap : F → MetaHeuristic K} {fields : F}
    {run : Method F K (Option (List Ref))} {w : World K} {Q : Option (List Ref) → Prop}
    (h : Ends run (fields, w) fun result _ => Q result) {result : Option (List Ref)}
    {s : MetaHeuristic K × World K}
    (hrun : MetaHeuristic.ofClass wrap fields run w = .ok result s) :
    Q result := by
  unfold MetaHeuristic.ofClass at hrun
  split at hrun
  next heq =>
    cases hrun
    exact h _ _ heq
  next => cases hrun

/-- A run that ends is one of the genetic algorithm on fewer solutions than its population,
of which it makes nothing. -/
theorem process_never_stops (hM : 0 ≤ M) {m : MetaHeuristic K} (hm : Endless M m)
    {context : Context} {fuel : ℕ} {solutionList : List Ref} {w : World K}
    {result : Option (List Ref)} {s : MetaHeuristic K × World K}
    (hrun : MetaHeuristic.processMetaHeuristic fuel solutionList context (m, w) =
      .ok result s) :
    result = some [] ∧ ∃ this fields size, m = .ga this fields ∧
      this.populationSize = some size ∧ solutionList.length < size := by
  have hends : Ends (MetaHeuristic.processMetaHeuristic fuel solutionList context) (m, w)
      fun result _ => result = some [] ∧ ∃ this fields size, m = .ga this fields ∧
        this.populationSize = some size ∧ solutionList.length < size := by
    unfold MetaHeuristic.processMetaHeuristic
    refine after_call fun _ w' result s hrun => ?_
    cases m with
    | ga this fields =>
        obtain ⟨hwatches, size, hsize, hpos⟩ := hm
        obtain ⟨hfew, hnone⟩ := returns_ofClass
          (GA.never_returns hwatches hM hsize hpos fuel solutionList (fields, w')) hrun
        exact ⟨hnone, this, fields, size, rfl, hsize, hfew⟩
    | pso this fields =>
        exact (returns_ofClass (PSO.never_returns hm hM fuel solutionList (fields, w')) hrun).elim
    | _ => exact hm.elim
  exact hends result s hrun

/-! ## GRASP -/

namespace GRASP

open Heuristics.GRASP

variable {p : AnyProblem K} {this : GRASP K} {context : Context} {fuel : ℕ} {w : World K}
  {state : State}

structure Standing (state : State) (w : World K) : Prop where
  ids : DistinctIds w
  there : state.solution < w.solutions.length

theorem preserves_self (h : DistinctIds w) : Preserves (fun _ _ => True) w w where
  ids := h
  kept _ s hs := ⟨s, hs, trivial⟩
  length_le := le_rfl

theorem calculatesAny_preserves (w₀ : World K) (context : Context) :
    CalculatesAny (Preserves (fun _ _ => True) w₀) context :=
  fun _ _ _ _ _ h => Isolation.preserves_calculate h context fun _ _ _ _ _ _ => trivial

/-- What an iteration does to the best solution and its counter. -/
structure Iterated (state : State) (w : World K) (state' : State) (w' : World K) : Prop where
  standing : Standing state' w'
  length_le : w.solutions.length ≤ w'.solutions.length
  counts : state'.solution = state.solution ∧ state'.iteracoesSM = increment state.iteracoesSM ∨
    w.solutions.length ≤ state'.solution ∧ state'.iteracoesSM = 0

/-- The counter grows, or there is a new best solution and it starts anew. -/
theorem ends_iterate (hm : (MetaHeuristic.grasp this).Uses p.parts) (h : Standing state w) :
    Ends (iterate this fuel context state) w (Iterated state w) := by
  have hkeeps := Isolation.preserves_keeps (fun _ _ => True) w this.problem context
  obtain ⟨hsearch, hconstruct⟩ := hm.partsKeep p.parts_keep
    (Isolation.preserves_keeps (fun _ _ => True) w p.parts.problem context)
    fun _ w' r e _ hw => Isolation.preserves_adaptive hw r e
  have hstays : ∀ {w' : World K} {it : ℤ}, Preserves (fun _ _ => True) w w' →
      Iterated state w ⟨state.solution, it, increment state.iteracoesSM⟩ w' :=
    fun hw => ⟨⟨hw.ids, h.there.trans_le hw.length_le⟩, hw.length_le, Or.inl ⟨rfl, rfl⟩⟩
  unfold iterate
  refine (hconstruct fuel w (preserves_self h.ids)).bind fun start w₁ ⟨_, hw₁⟩ => ?_
  refine (ends_nonNull _).bind ?_
  rintro l w₁ ⟨hl, rfl⟩
  refine (hkeeps.search hw₁ (hsearch l hl) start).bind fun found w₂ ⟨hfound, hw₂⟩ => ?_
  refine (hkeeps.isViable hw₂ hfound).bind fun viable w₃ hw₃ => ?_
  split
  · refine (hkeeps.evaluate hw₃ hfound).bind fun _ w₄ hw₄ => ?_
    refine (ends_getBestSolution _ found state.solution).bind ?_
    rintro best w₄ ⟨⟨x, y, hx, -, rfl⟩, rfl⟩
    have hplaced : found < w₄.solutions.length := by
      obtain ⟨s, hs, -⟩ := Option.bind_eq_some_iff.1 hx
      exact (List.getElem?_eq_some_iff.1 hs).1
    have hnew : found ≠ state.solution := (h.there.trans_le hfound).ne'
    split
    · rw [if_pos rfl]
      exact ((calculatesAny_preserves w₄ context).evaluate (preserves_self hw₄.ids) found).bind
        fun _ w₅ hw₅ => .ret ⟨⟨hw₅.ids, hplaced.trans_le hw₅.length_le⟩,
          hw₄.length_le.trans hw₅.length_le, Or.inr ⟨hfound, rfl⟩⟩
    · rw [if_neg hnew.symm]
      exact .ret (hstays hw₄)
  · exact .ret (hstays hw₃)

theorem goesOn_eq (h : Watches M this.stopCondition this.metaHeuristicParameters) (state : State)
    (w : World K) : goesOn this state w =
      .ok (decide (state.iteracoesSM ≤ M)) { w with clock := fun n => w.clock (n + 1) } := by
  unfold goesOn
  rw [bind_of_ok (h.isSatisfied_eq _ _ _)]
  change EStateM.Result.ok _ _ = _
  rw [← decide_not]
  simp only [not_lt]

theorem stops_iff (h : Watches M this.stopCondition this.metaHeuristicParameters) :
    Stops this.goesOn state w ↔ M < state.iteracoesSM := by
  constructor
  · rintro ⟨w', hstops⟩
    rw [goesOn_eq h] at hstops
    injection hstops with hle hw
    exact not_le.1 (of_decide_eq_false hle)
  · intro hlt
    have hstops := goesOn_eq h state w
    rw [decide_eq_false (not_le.2 hlt)] at hstops
    exact ⟨_, hstops⟩

theorem goes_on (h : Watches M this.stopCondition this.metaHeuristicParameters) {w' : World K}
    (hgoes : goesOn this state w = .ok true w') :
    state.iteracoesSM ≤ M ∧ w' = { w with clock := fun n => w.clock (n + 1) } := by
  rw [goesOn_eq h] at hgoes
  injection hgoes with hle hw
  exact ⟨of_decide_eq_true hle, hw.symm⟩

section Loop

variable (hm : (MetaHeuristic.grasp this).Uses p.parts)
  (h : Watches M this.stopCondition this.metaHeuristicParameters) (hM : M < 2147483647)
include hm h hM

theorem Standing.turn {state' : State} {w' w'' : World K} (hstanding : Standing state w)
    (hgoes : goesOn this state w = .ok true w')
    (hdone : iterate this fuel context state w' = .ok state' w'') :
    Standing state' w'' ∧ w.solutions.length ≤ w''.solutions.length ∧ state.iteracoesSM ≤ M ∧
      (state'.solution = state.solution ∧ state'.iteracoesSM = state.iteracoesSM + 1 ∨
        w.solutions.length ≤ state'.solution ∧ state'.iteracoesSM = 0) := by
  obtain ⟨hle, rfl⟩ := goes_on h hgoes
  have hasked : Standing state { w with clock := fun n => w.clock (n + 1) } :=
    ⟨⟨hstanding.ids.below, hstanding.ids.injective⟩, hstanding.there⟩
  have hturn := ends_iterate hm hasked state' w'' hdone
  have hcount : increment state.iteracoesSM = state.iteracoesSM + 1 := by
    unfold increment
    rw [if_neg (by omega)]
  refine ⟨hturn.standing, hturn.length_le, hle, ?_⟩
  rw [← hcount]
  exact hturn.counts

/-- From any place of the loop: the counter tells the turns since the best solution changed. -/
theorem turns_count (hstanding : Standing state w) {n : ℕ} {state' : State} {w' : World K}
    (hturns : Turns this.goesOn (this.iterate fuel context) state w n state' w') :
    Standing state' w' ∧ w.solutions.length ≤ w'.solutions.length ∧
      (state'.solution = state.solution ∧ state'.iteracoesSM = state.iteracoesSM + n ∨
        w.solutions.length ≤ state'.solution) := by
  refine hturns.keeps (I := fun n state' w' => Standing state' w' ∧
    w.solutions.length ≤ w'.solutions.length ∧
      (state'.solution = state.solution ∧ state'.iteracoesSM = state.iteracoesSM + n ∨
        w.solutions.length ≤ state'.solution)) ⟨hstanding, le_rfl, Or.inl ⟨rfl, by simp⟩⟩ ?_
  rintro n b b' v v' v'' ⟨hb, hlength, hcount⟩ hgoes hdone
  obtain ⟨hstanding', hlength', -, hturn⟩ := hb.turn hm h hM hgoes hdone
  refine ⟨hstanding', hlength.trans hlength', ?_⟩
  rcases hturn with ⟨hsame, hmore⟩ | ⟨hnew, -⟩
  · rw [hsame, hmore]
    refine hcount.imp (fun ⟨hsolution, hturns⟩ => ⟨hsolution, ?_⟩) id
    rw [hturns]
    push_cast
    ring
  · exact Or.inr (hlength.trans hnew)

theorem visits_count (hM₀ : 0 ≤ M) {solution : Ref} {w₀ : World K}
    (hstart : Standing ⟨solution, 0, 0⟩ w₀)
    (hvisits : Visits this.goesOn (this.iterate fuel context) ⟨solution, 0, 0⟩ w₀ state w) :
    Standing state w ∧ 0 ≤ state.iteracoesSM ∧ state.iteracoesSM ≤ M + 1 := by
  refine hvisits.keeps (I := fun state w => Standing state w ∧ 0 ≤ state.iteracoesSM ∧
    state.iteracoesSM ≤ M + 1) ⟨hstart, le_rfl, hM₀.trans (by omega)⟩ ?_
  rintro b b' v v' v'' ⟨hb, hnonneg, -⟩ hgoes hdone
  obtain ⟨hstanding, -, hle, hturn⟩ := hb.turn hm h hM hgoes hdone
  refine ⟨hstanding, ?_⟩
  rcases hturn with ⟨-, hmore⟩ | ⟨-, hzero⟩
  · omega
  · omega

end Loop

/-- The limit bounds stagnation: wherever the loop stands, it is over exactly when the counter
is above the limit, and within the turns that are left to it the loop ends, a turn does not
return, or the best solution is replaced. -/
theorem plateau_ends (hm : (MetaHeuristic.grasp this).Uses p.parts)
    (h : Watches M this.stopCondition this.metaHeuristicParameters) (hM₀ : 0 ≤ M)
    (hM : M < 2147483647) {solution : Ref} {w₀ : World K} (hids : DistinctIds w₀)
    (hthere : solution < w₀.solutions.length)
    (hvisits : Visits this.goesOn (this.iterate fuel context) ⟨solution, 0, 0⟩ w₀ state w) :
    0 ≤ state.iteracoesSM ∧ state.iteracoesSM ≤ M + 1 ∧
      (Stops this.goesOn state w ↔ M < state.iteracoesSM) ∧
      (EndsWithin Thrown this.goesOn (this.iterate fuel context) state w
          (M + 1 - state.iteracoesSM).toNat ∨
        ThrowsWithin (fun e => ¬Thrown e) this.goesOn (this.iterate fuel context) state w
          (M + 1 - state.iteracoesSM).toNat ∨
        ∃ n state' w', n ≤ (M + 1 - state.iteracoesSM).toNat ∧
          Turns this.goesOn (this.iterate fuel context) state w n state' w' ∧
          state'.solution ≠ state.solution) := by
  obtain ⟨hstanding, hnonneg, hle⟩ := visits_count hm h hM hM₀ ⟨hids, hthere⟩ hvisits
  refine ⟨hnonneg, hle, stops_iff h, ?_⟩
  rcases endsWithin_or_turns Thrown this.goesOn (this.iterate fuel context) state w
    (M + 1 - state.iteracoesSM).toNat with hends | hhangs | ⟨b, v, hturns⟩
  · exact Or.inl hends
  · exact Or.inr (Or.inl hhangs)
  · refine Or.inr (Or.inr ?_)
    cases hturns with
    | @next _ b' _ v' v'' _ before goes done =>
        refine ⟨_, b', v', le_rfl, before, ?_⟩
        have hbelow := (goes_on h goes).1
        rcases (turns_count hm h hM hstanding before).2.2 with ⟨-, hcount⟩ | hnew
        · omega
        · exact (hstanding.there.trans_le hnew).ne'

end GRASP

section Example

open DifferentialEvolution (bowl exampleParameters exampleWorld)
open GeneticBest (exampleGenetic)
open Isolation (distinctIds_exampleWorld)

def patientParameters : MetaHeuristicParameters ℚ :=
  { exampleParameters with maxIterations := none, maxIterationsWI := some 1 }

def patientGenetic : GA ℚ :=
  { exampleGenetic with
    stopCondition := some .maxIterationsWithoutImprove
    metaHeuristicParameters := patientParameters }

theorem process_never_stops_example : ∃ result s,
    MetaHeuristic.processMetaHeuristic 1 [0] none (.ga patientGenetic ⟨[], [], 0⟩, exampleWorld) =
      .ok result s ∧ result = some [] := by
  have hrun : ∃ s, MetaHeuristic.processMetaHeuristic 1 [0] none
      (.ga patientGenetic ⟨[], [], 0⟩, exampleWorld) = .ok (some []) s := ⟨_, rfl⟩
  obtain ⟨s, hrun⟩ := hrun
  have hstops := process_never_stops (M := 1) (by decide)
    (show Endless 1 (.ga patientGenetic ⟨[], [], 0⟩) from ⟨⟨Or.inl rfl, rfl⟩, 2, rfl, by decide⟩)
    hrun
  exact ⟨_, s, hrun, hstops.1⟩

def patientGRASP : GRASP ℚ :=
  { problem := bowl.toProblem
    metaHeuristicParameters := patientParameters
    stopCondition := some .mix, solutionAnalyser := .benchmark, alpha := some (1 / 2)
    candidatesList := some bowl.benchmarkCandidatesList
    localSearch := some
      ⟨.random, (some (BenchmarkModifier.benchmarkRandom (some 1))).map
        BenchmarkModifier.toSolutionModifier, 1⟩ }

theorem patientGRASP_uses :
    (MetaHeuristic.grasp patientGRASP).Uses
      (AnyProblem.numeric (.benchmark bowl)).parts := by
  refine ⟨rfl, Or.inr (Or.inl rfl), fun l hl => ?_⟩
  obtain rfl := Option.some.inj hl
  exact ⟨some (.benchmarkRandom (some 1)), rfl⟩

theorem plateau_ends_example :
    ¬Stops patientGRASP.goesOn ⟨0, 0, 0⟩ exampleWorld ∧
      (EndsWithin Thrown patientGRASP.goesOn (patientGRASP.iterate 100 none) ⟨0, 0, 0⟩
          exampleWorld 2 ∨
        ThrowsWithin (fun e => ¬Thrown e) patientGRASP.goesOn (patientGRASP.iterate 100 none)
          ⟨0, 0, 0⟩ exampleWorld 2 ∨
        ∃ n state w, n ≤ 2 ∧
          Turns patientGRASP.goesOn (patientGRASP.iterate 100 none) ⟨0, 0, 0⟩ exampleWorld n
            state w ∧ state.solution ≠ 0) := by
  have hvisits : Visits patientGRASP.goesOn (patientGRASP.iterate 100 none) ⟨0, 0, 0⟩ exampleWorld
      ⟨0, 0, 0⟩ exampleWorld := .start
  obtain ⟨-, -, hstops, hends⟩ := GRASP.plateau_ends (M := 1) patientGRASP_uses
    ⟨Or.inr ⟨rfl, rfl⟩, rfl⟩ (by decide) (by decide) distinctIds_exampleWorld (by decide) hvisits
  exact ⟨fun h => absurd (hstops.1 h) (by decide), hends⟩

end Example

end DOptimas.Proofs.Stagnation
