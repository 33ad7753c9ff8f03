import DOptimas.Heuristics.Function
import DOptimas.Heuristics.TrajectoryRuns
/-!
# Runs of any metaheuristic

The six metaheuristics under one rule, and the parts of benchmark and function
problems that it asks for.
-/

namespace DOptimas.Heuristics

open DOptimas.Support

variable {K : Type} [RealArith K]

/-! ## Any of the six -/

namespace MetaHeuristic

variable {I : World K → Prop} {own : Ref → Prop} {w : World K} {context : Context}

def problem : MetaHeuristic K → Problem K
  | de this _ => this.problem
  | ga this _ => this.problem
  | grasp this => this.problem
  | ils this _ => this.problem
  | pso this _ => this.problem
  | sa this _ => this.problem

def PartsKeep (I : World K → Prop) (own : Ref → Prop) : MetaHeuristic K → Prop
  | de _ _ => True
  | ga this _ => ModifiesIfThere I own this.mutation
  | grasp this =>
      (∀ l, this.localSearch = some l → ModifiesIfThere I own l.neighbor) ∧
        ∀ fuel w, I w → Ends (this.construcao fuel) w fun r w' => own r ∧ I w'
  | ils this _ =>
      (∀ l, this.localSearch = some l → ModifiesIfThere I own l.neighbor) ∧
        ModifiesIfThere I own this.solutionDisturb
  | pso this _ => ListsIfThere I this.velocitiesCandidateList
  | sa this _ => ModifiesIfThere I own this.solutionModifier

/-- Differential evolution and particle swarm return what they are given, and the best
particle is remembered from run to run. -/
def mayReturn (externalSolution : List Ref) : MetaHeuristic K → Ref → Prop
  | de _ _, r => r ∈ externalSolution
  | pso _ fields, r => r ∈ externalSolution ∨ fields.globalBest = some r
  | _, _ => False

def CalculatesGiven : MetaHeuristic K → Prop
  | de _ _ | pso _ _ => True
  | _ => False

theorem ends_ofClass {F : Type} {wrap : F → MetaHeuristic K} {fields : F}
    {run : Method F K (Option (List Ref))} {known : Ref → Prop}
    (h : Ends run (fields, w) fun result s => Gives known result ∧ I s.2)
    {result : Option (List Ref)} {s : MetaHeuristic K × World K}
    (hrun : ofClass wrap fields run w = .ok result s) : Gives known result ∧ I s.2 := by
  unfold ofClass at hrun
  split at hrun
  next t heq =>
    cases hrun
    exact h _ t heq
  next => cases hrun

/-- A run keeps what the primitives and the parts keep, and returns an own solution or one
that it may return. -/
theorem keeps_run (m : MetaHeuristic K) (h : Keeps I own m.problem context)
    (hany : m.CalculatesGiven → CalculatesAny I context) (hparts : m.PartsKeep I own) (hw : I w)
    (fuel : ℕ) (externalSolution : List Ref) :
    Ends (runMetaHeuristic fuel externalSolution context) (m, w) fun result s =>
      Gives (fun r => own r ∨ m.mayReturn externalSolution r) result ∧ I s.2 := by
  intro result s hrun
  have hown : ∀ {result : Option (List Ref)}, Gives own result →
      Gives (fun r => own r ∨ m.mayReturn externalSolution r) result :=
    fun hgives rs hrs r hr => Or.inl (hgives rs hrs r hr)
  cases m with
  | de this fields =>
      exact ends_ofClass (DE.keeps_run h (hany trivial)
        (show ∀ r, own r → own r ∨ r ∈ externalSolution from fun _ => Or.inl)
        (fun _ => Or.inr) hw fuel) hrun
  | ga this fields =>
      exact (ends_ofClass (GA.keeps_run h hparts hw fuel externalSolution) hrun).imp_left hown
  | grasp this =>
      have hends := GRASP.keeps_run h.toObserves hparts.1 (hparts.2 fuel) hw externalSolution
      refine Ends.onState (S := fun result s => Gives _ result ∧ I s.2) ?_ result s hrun
      exact hends.mono fun _ _ hend => hend.imp_left hown
  | ils this fields =>
      exact (ends_ofClass (ILS.keeps_run h hparts.1 hparts.2 hw fuel externalSolution)
        hrun).imp_left hown
  | pso this fields =>
      exact ends_ofClass (PSO.keeps_run h (hany trivial)
        (show ∀ r, own r → own r ∨ r ∈ externalSolution ∨ fields.globalBest = some r from
          fun _ => Or.inl) hparts (fun _ hr => Or.inr (Or.inl hr))
        (fun _ hr => Or.inr (Or.inr hr)) hw fuel) hrun
  | sa this fields =>
      exact (ends_ofClass (SA.keeps_run h hparts hw fuel externalSolution) hrun).imp_left hown

end MetaHeuristic

/-! ## The parts of benchmark and function problems -/

section Parts

variable {I : World K → Prop} {own : Ref → Prop} {problem : Problem K} {context : Context}
  {w : World K}

theorem Draws.getDeviation (h : Draws I) (hw : I w) (problem : Problem K) (value variation : K)
    (i : ℕ) : Ends (Heuristics.getDeviation problem value variation i) w fun _ => I := by
  have hlower : ∀ (deviation lower : K) {w : World K}, I w →
      Ends (if variation + value < lower then do
          let n ← Heuristics.nextInt 0 1
          let u ← Heuristics.nextDouble
          pure (signOf n * (value - lower) * u)
        else pure deviation) w fun _ => I := by
    intro deviation lower w hw
    split
    · refine (h.nextInt hw 0 1).bind fun n w hw => ?_
      exact (h.nextDouble hw).bind fun u w hw => .ret hw
    · exact .ret hw
  unfold Heuristics.getDeviation
  refine (ends_orThrow _).bind ?_
  rintro ⟨lower, upper⟩ w ⟨-, rfl⟩
  dsimp only
  split
  · refine (h.nextInt hw 0 1).bind fun n w hw => ?_
    refine (h.nextDouble hw).bind fun u w hw => ?_
    exact hlower _ lower hw
  · exact hlower variation lower hw

namespace Keeps

variable (h : Keeps I own problem context)
include h

theorem benchmarkRandomMotion (hw : I w) (solution : Ref) (step : K) (state : Ref × K) :
    Ends (Heuristics.benchmarkRandomMotion solution step state) w fun state' w' =>
      own state'.1 ∧ I w' := by
  unfold Heuristics.benchmarkRandomMotion benchmarkPerformsMotion
  refine (ends_deref solution).bind ?_
  rintro s w ⟨-, rfl⟩
  refine (h.nextInt hw _ _).bind fun index w hw => ?_
  refine (h.nextInt hw 1 2).bind fun sign w hw => ?_
  refine (h.nextUniform hw 0 1).bind fun u w hw => ?_
  refine (h.getDeviation hw _ _ _ _).bind fun deviation w hw => ?_
  refine (h.newFunctionSolutionElement hw _).bind fun e w hw => ?_
  refine Ends.bind (Q := fun r w' => own r ∧ I w') ?_ fun r w hr => .ret hr
  refine (h.clone w _ hw).bind fun r w ⟨hr, hw⟩ => ?_
  refine (ends_deref r).bind ?_
  rintro t w ⟨-, rfl⟩
  split
  · exact (h.setElement hw hr _ _).bind fun _ w hw => .ret ⟨hr, hw⟩
  · exact .ret ⟨hr, hw⟩

theorem benchmarkRandomSolutionModifier (step : Option K) :
    ModifiesOwn I own (Heuristics.benchmarkRandomSolutionModifier step) := by
  intro w r n hw hr
  unfold Heuristics.benchmarkRandomSolutionModifier
  refine (ends_nonNull step).bind ?_
  rintro step w ⟨-, rfl⟩
  refine Ends.bind (Q := fun (state : Ref × K) w' => own state.1 ∧ I w') ?_ fun _ w hs => .ret hs
  refine .foldlM (I := fun (state : Ref × K) w' => own state.1 ∧ I w') ⟨hr, hw⟩ ?_
  intro _ _ state w hs
  exact h.benchmarkRandomMotion hs.2 r step state

theorem benchmarkModifier (m : BenchmarkModifier K) : ModifiesOwn I own m.toSolutionModifier := by
  cases m with
  | benchmarkRandom step => exact h.benchmarkRandomSolutionModifier step
  | otherSolutionClass => exact fun w r n _ _ => .throws _

end Keeps

theorem Keeps.realModifier {p : FunctionProblem K} (h : Keeps I own p.toProblem context)
    (m : RealModifier) : ModifiesOwn I own (m.toSolutionModifier p) := by
  cases m with
  | realRandom => exact h.benchmarkRandomSolutionModifier _
  | realPosition =>
      intro w r n hw hr
      refine (h.build w hw).bind fun _ w ⟨_, hw⟩ => ?_
      split
      · exact .ret ⟨hr, hw⟩
      · refine (ends_deref r).bind ?_
        rintro s w ⟨-, rfl⟩
        refine (ends_nth _ 0).bind ?_
        rintro e w ⟨-, rfl⟩
        refine (ends_orThrow _).bind ?_
        rintro x w ⟨-, rfl⟩
        refine (h.nextInt hw 0 1).bind fun _ w hw => ?_
        refine (h.nextDouble hw).bind fun _ w hw => ?_
        refine (h.clone w r hw).bind fun _ w ⟨_, hw⟩ => ?_
        refine (h.clone w r hw).bind fun _ w ⟨_, hw⟩ => ?_
        exact .throws _
  | otherSolutionClass => exact fun w r n _ _ => .throws _

theorem Draws.tenEach (h : Draws I) (hw : I w) (bounds : ℕ → Except Exception (K × K)) (n : ℕ) :
    Ends (do
      let elements ← (List.range n).mapM fun i => do
        let (minValue, maxValue) ← orThrow (bounds i)
        (List.range 10).mapM fun _ => do
          Heuristics.newFunctionSolutionElement (← Heuristics.nextUniform minValue maxValue)
      return elements.flatten) w fun _ => I := by
  refine Ends.bind (Q := fun _ => I) (.mapM (I := fun _ => I) hw fun i _ _ w hw => ?_)
    fun _ w hw => .ret hw
  refine (ends_orThrow _).bind ?_
  rintro ⟨lower, upper⟩ w ⟨-, rfl⟩
  refine .mapM (I := fun _ => I) hw fun _ _ _ w hw => ?_
  exact (h.nextUniform hw _ _).bind fun u w hw => h.newFunctionSolutionElement hw u

theorem Draws.oneEach (h : Draws I) (hw : I w) (n : ℕ) :
    Ends ((List.range n).mapM fun _ => do
      Heuristics.newFunctionSolutionElement (← Heuristics.nextUniform (-1) 1)) w fun _ => I := by
  refine .mapM (I := fun _ => I) hw fun _ _ _ w hw => ?_
  exact (h.nextUniform hw _ _).bind fun u w hw => h.newFunctionSolutionElement hw u

end Parts

structure Parts (K : Type) [RealArith K] where
  problem : Problem K
  modifies : Option (SolutionModifier K) → Prop
  lists : Option (CandidatesList K) → Prop

def BenchmarkProblem.parts (p : BenchmarkProblem K) : Parts K where
  problem := p.toProblem
  modifies m := ∃ b : Option (BenchmarkModifier K), m = b.map BenchmarkModifier.toSolutionModifier
  lists c := c = none ∨ c = some p.benchmarkCandidatesList ∨ c = some p.psoBenchmarkCandidatesList

def FunctionProblem.parts (p : FunctionProblem K) : Parts K where
  problem := p.toProblem
  modifies m := ∃ b : Option RealModifier, m = b.map (RealModifier.toSolutionModifier p)
  lists c := c = none ∨ c = some p.functionCandidatesList ∨ c = some p.psoFunctionCandidatesList

/-- The parts of a metaheuristic are those that the problem offers. -/
def MetaHeuristic.Uses (parts : Parts K) : MetaHeuristic K → Prop
  | de this _ => this.problem = parts.problem
  | ga this _ => this.problem = parts.problem ∧ parts.modifies this.mutation
  | grasp this =>
      this.problem = parts.problem ∧ parts.lists this.candidatesList ∧
        ∀ l, this.localSearch = some l → parts.modifies l.neighbor
  | ils this _ =>
      this.problem = parts.problem ∧ parts.modifies this.solutionDisturb ∧
        ∀ l, this.localSearch = some l → parts.modifies l.neighbor
  | pso this _ => this.problem = parts.problem ∧ parts.lists this.velocitiesCandidateList
  | sa this _ => this.problem = parts.problem ∧ parts.modifies this.solutionModifier

def Parts.Keep (parts : Parts K) : Prop :=
  ∀ (I : World K → Prop) (own : Ref → Prop) (context : Context),
    Keeps I own parts.problem context →
      (∀ m, parts.modifies m → ModifiesIfThere I own m) ∧ ∀ c, parts.lists c → ListsIfThere I c

theorem BenchmarkProblem.parts_keep (p : BenchmarkProblem K) : p.parts.Keep := by
  intro I own context h
  constructor
  · rintro _ ⟨b, rfl⟩ m hm
    obtain ⟨modifier, -, rfl⟩ := Option.map_eq_some_iff.1 hm
    exact h.benchmarkModifier modifier
  · rintro c (rfl | rfl | rfl) c' hc w hw
    · cases hc
    · cases hc
      exact h.tenEach hw p.domain p.dimension
    · cases hc
      exact h.oneEach hw p.dimension

theorem FunctionProblem.parts_keep (p : FunctionProblem K) : p.parts.Keep := by
  intro I own context h
  constructor
  · rintro _ ⟨b, rfl⟩ m hm
    obtain ⟨modifier, -, rfl⟩ := Option.map_eq_some_iff.1 hm
    exact Keeps.realModifier h modifier
  · rintro c (rfl | rfl | rfl) c' hc w hw
    · cases hc
    · cases hc
      exact h.tenEach hw p.bounds p.dimension
    · cases hc
      exact h.oneEach hw p.dimension

inductive NumericProblem (K : Type) where
  | benchmark (p : BenchmarkProblem K)
  | function (p : FunctionProblem K)

def NumericProblem.parts : NumericProblem K → Parts K
  | benchmark p => p.parts
  | function p => p.parts

theorem NumericProblem.parts_keep (p : NumericProblem K) : p.parts.Keep := by
  cases p with
  | benchmark p => exact p.parts_keep
  | function p => exact p.parts_keep

namespace MetaHeuristic

variable {I : World K → Prop} {own : Ref → Prop} {w : World K} {context : Context}
  {parts : Parts K}

theorem Uses.problem_eq {m : MetaHeuristic K} (h : m.Uses parts) : m.problem = parts.problem := by
  cases m with
  | de this fields => exact h
  | ga this fields => exact h.1
  | grasp this => exact h.1
  | ils this fields => exact h.1
  | pso this fields => exact h.1
  | sa this fields => exact h.1

theorem Uses.partsKeep {m : MetaHeuristic K} (h : m.Uses parts) (hparts : parts.Keep)
    (hkeeps : Keeps I own parts.problem context)
    (hadaptive : m.name = .GRASP → ∀ w r e, own r → I w →
      Ends (adaptiveFunctionValue r e) w fun _ => I) : m.PartsKeep I own := by
  obtain ⟨hmodifies, hlists⟩ := hparts I own context hkeeps
  cases m with
  | de this fields => trivial
  | ga this fields => exact hmodifies _ h.2
  | grasp this =>
      refine ⟨fun l hl => hmodifies _ (h.2.2 l hl), fun fuel w hw => ?_⟩
      rw [← show this.problem = parts.problem from h.1] at hkeeps
      exact GRASP.keeps_construcao hkeeps (hadaptive rfl) (hlists _ h.2.1) hw fuel
  | ils this fields => exact ⟨fun l hl => hmodifies _ (h.2.2 l hl), hmodifies _ h.2.1⟩
  | pso this fields => exact hlists _ h.2
  | sa this fields => exact hmodifies _ h.2

/-- A run of `processMetaHeuristic` from the world with a reset context. -/
theorem keeps_process (m : MetaHeuristic K) (h : m.Uses parts) (hparts : parts.Keep)
    (hkeeps : Keeps I own parts.problem context)
    (hany : m.CalculatesGiven → CalculatesAny I context)
    (hadaptive : m.name = .GRASP → ∀ w r e, own r → I w →
      Ends (adaptiveFunctionValue r e) w fun _ => I)
    (hw : I { w with invocations := 0, bestSolution := none }) (fuel : ℕ)
    (solutionList : List Ref) :
    Ends (processMetaHeuristic fuel solutionList context) (m, w) fun result s =>
      Gives (fun r => own r ∨ m.mayReturn solutionList r) result ∧ I s.2 := by
  unfold processMetaHeuristic
  refine ends_call (Q := fun _ w' => w' = { w with invocations := 0, bestSolution := none })
    (.modifies rfl) ?_
  rintro - w' rfl
  have hpart := h.partsKeep hparts hkeeps hadaptive
  rw [← h.problem_eq] at hkeeps
  exact keeps_run m hkeeps hany hpart hw fuel solutionList

end MetaHeuristic

end DOptimas.Heuristics
