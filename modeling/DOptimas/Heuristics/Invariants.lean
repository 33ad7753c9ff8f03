import DOptimas.Heuristics.MetaHeuristic
import DOptimas.Heuristics.Rules
import DOptimas.Support.Sampling
/-!
# Invariants of a run

A property of the world that the few primitives keep is kept by every modifier
of collections, and by every local search.  With it goes a property of
references: what is built or cloned has it, and only what has it is changed.
-/

namespace DOptimas.Heuristics

open DOptimas.Support
open DOptimas.Core (SolutionAnalyser Draw)

variable {K : Type} [RealArith K]

theorem mem_modify {α : Type} {xs : List α} {i : ℕ} {f : α → α} {x : α} (h : x ∈ xs.modify i f) :
    ∃ y ∈ xs, x = y ∨ x = f y := by
  obtain ⟨j, hj⟩ := List.getElem?_of_mem h
  rw [List.getElem?_modify] at hj
  obtain ⟨y, hy, rfl⟩ := Option.map_eq_some_iff.1 hj
  refine ⟨y, List.mem_of_getElem? hy, ?_⟩
  split
  · exact Or.inr rfl
  · exact Or.inl rfl

structure Draws (I : World K → Prop) : Prop where
  draw : ∀ w uniforms choices clock nextIdentity, I w →
    I { w with uniforms, choices, clock, nextIdentity }

/-- Drawing and calculating keep `I`, and what is built or cloned is `own`. -/
structure Observes (I : World K → Prop) (own : Ref → Prop) (problem : Problem K)
    (context : Context) : Prop extends Draws I where
  build : ∀ w, I w → Ends (buildSolution problem) w fun r w' => own r ∧ I w'
  clone : ∀ w r, I w → Ends (clone r) w fun r' w' => own r' ∧ I w'
  calculate : ∀ w r, own r → I w → Ends (calculate context r) w fun _ => I

/-- Drawing keeps `I`, and so does filling in what is built, which is `own`. -/
structure Builds (I : World K → Prop) (own : Ref → Prop) (problem : Problem K) : Prop
    extends Draws I where
  vector : ∀ w r (vector : Solution K → List (Option (Element K))), own r → I w → I
    { w with solutions := w.solutions.modify r fun s =>
        { s with solutionsVector := vector s, changed := true } }
  build : ∀ w, I w → Ends (buildSolution problem) w fun r w' => own r ∧ I w'

/-- The primitives keep `I`, and what they build or clone is `own`. -/
structure Keeps (I : World K → Prop) (own : Ref → Prop) (problem : Problem K)
    (context : Context) : Prop extends Builds I own problem where
  clone : ∀ w r, I w → Ends (clone r) w fun r' w' => own r' ∧ I w'
  calculate : ∀ w r, own r → I w → Ends (calculate context r) w fun _ => I

/-- A modifier of solutions that keeps `I` and makes own solutions of own ones. -/
def ModifiesOwn (I : World K → Prop) (own : Ref → Prop) (m : SolutionModifier K) : Prop :=
  ∀ w r n, I w → own r → Ends (m.modify r n) w fun r' w' => own r' ∧ I w'

namespace Draws

variable {I : World K → Prop} {w : World K} {α : Type} (h : Draws I) (hw : I w)
include h hw

theorem nextDouble : Ends (Heuristics.nextDouble (K := K)) w fun _ => I :=
  .changes (h.draw w _ w.choices w.clock w.nextIdentity hw)

theorem nextChoice : Ends (Heuristics.nextChoice (K := K)) w fun _ => I :=
  .changes (h.draw w w.uniforms _ w.clock w.nextIdentity hw)

theorem getTime : Ends (Heuristics.getTime (K := K)) w fun _ => I :=
  .changes (h.draw w w.uniforms w.choices _ w.nextIdentity hw)

theorem newFunctionSolutionElement (value : K) :
    Ends (Heuristics.newFunctionSolutionElement value) w fun _ => I :=
  .changes (h.draw w w.uniforms w.choices w.clock _ hw)

theorem nextUniform (lower upper : K) :
    Ends (Heuristics.nextUniform lower upper) w fun _ => I := by
  unfold Heuristics.nextUniform
  split
  · exact (Ends.throws _).bind fun _ _ h => h
  · exact (h.nextDouble hw).bind fun _ _ hw => .ret hw

theorem nextInt (lower upper : ℤ) :
    Ends (Heuristics.nextInt (K := K) lower upper) w fun _ => I := by
  unfold Heuristics.nextInt
  split
  · exact (Ends.throws _).bind fun _ _ h => h
  · exact (h.nextChoice hw).bind fun _ _ hw => .ret hw

theorem pick (k : ℕ) (xs : List α) :
    Ends (Heuristics.pick (K := K) k xs) w fun ys w' =>
      (ys.length = k ∧ DrawnFrom xs ys) ∧ I w' := by
  induction k generalizing xs w with
  | zero => exact .ret ⟨⟨rfl, drawnFrom_nil xs⟩, hw⟩
  | succ k ih =>
      unfold Heuristics.pick
      refine (h.nextChoice hw).bind fun c w hw => ?_
      split
      · exact .throws _
      next x hx =>
        refine (ih hw _).bind fun ys w ⟨⟨hlength, hys⟩, hw⟩ => .ret ⟨⟨?_, ?_⟩, hw⟩
        · rw [List.length_cons, hlength]
        · exact hys.cons hx

theorem nextSample (xs : List α) (k : ℤ) :
    Ends (Heuristics.nextSample (K := K) xs k) w fun ys w' =>
      ((ys.length : ℤ) = k ∧ DrawnFrom xs ys) ∧ I w' := by
  unfold Heuristics.nextSample
  dsimp only
  split
  · exact (Ends.throws _).bind fun _ _ h => h
  · split
    · exact (Ends.throws _).bind fun _ _ h => h
    · refine (h.pick hw _ _).mono fun ys w ⟨⟨hlength, hys⟩, hw⟩ => ⟨⟨?_, hys⟩, hw⟩
      rw [hlength]
      omega

theorem isSatisfied (s : Option StopCondition) (it wi : ℤ)
    (parameters : MetaHeuristicParameters K) :
    Ends (Heuristics.isSatisfied s it wi parameters) w fun _ => I := by
  unfold Heuristics.isSatisfied
  refine (h.getTime hw).bind fun time w hw => ?_
  refine (ends_nonNull s).bind ?_
  rintro s _ ⟨-, rfl⟩
  exact (ends_stop s time it wi parameters).mono fun _ _ heq => heq ▸ hw

end Draws

theorem draws_solutions (w : World K) : Draws fun w' => w'.solutions = w.solutions :=
  ⟨fun _ _ _ _ _ h => h⟩

namespace Builds

variable {I : World K → Prop} {own : Ref → Prop} {problem : Problem K} {w : World K} {α : Type}

section Objects

variable (h : Builds I own problem) (hw : I w)
include h hw

theorem addElement {r : Ref} (hr : own r) (element : Element K) :
    Ends (Heuristics.addElement r element) w fun _ => I := by
  unfold Heuristics.addElement
  refine (ends_deref r).bind ?_
  rintro s _ ⟨-, rfl⟩
  split
  · exact (Ends.throws _).bind fun _ _ h => h
  · exact .modifies (h.vector _ r _ hr hw)

theorem setElement {r : Ref} (hr : own r) (i : ℕ) (element : Element K) :
    Ends (Heuristics.setElement r i element) w fun _ => I := by
  unfold Heuristics.setElement
  refine (ends_deref r).bind ?_
  rintro s _ ⟨-, rfl⟩
  dsimp only
  split
  · exact (Ends.throws _).bind fun _ _ h => h
  · split
    · exact (Ends.throws _).bind fun _ _ h => h
    · exact .modifies (h.vector _ r _ hr hw)

theorem setSolutionsVector {r : Ref} (hr : own r) (vector : List (Option (Element K))) :
    Ends (Heuristics.setSolutionsVector r vector) w fun _ => I := by
  unfold Heuristics.setSolutionsVector
  refine (ends_deref r).bind ?_
  rintro s _ ⟨-, rfl⟩
  split
  · split
    · exact (Ends.throws _).bind fun _ _ h => h
    · exact .modifies (h.vector _ r _ hr hw)
  · exact .modifies (h.vector _ r _ hr hw)

theorem addElements {β : Type} {r : Ref} (hr : own r) (xs : List β)
    {element : β → Program K (Element K)}
    (helement : ∀ x w, I w → Ends (element x) w fun _ => I) :
    Ends (xs.forM fun x => do Heuristics.addElement r (← element x)) w fun _ => I :=
  .forM hw fun x _ w hw => (helement x w hw).bind fun e _ hw => h.addElement hw hr e

end Objects

section Traversals

variable (hw : I w)
include hw

theorem each {xs : List α} {f : α → Program K Ref}
    (hf : ∀ a ∈ xs, ∀ w, I w → Ends (f a) w fun r w' => own r ∧ I w') :
    Ends (xs.mapM f) w fun rs w' => (∀ r ∈ rs, own r) ∧ I w' := by
  refine .mapM ⟨by simp, hw⟩ fun a ha rs w ⟨hrs, hw⟩ => ?_
  refine (hf a ha w hw).mono fun r w ⟨hr, hw⟩ => ⟨fun x hx => ?_, hw⟩
  rcases List.mem_append.1 hx with hx | hx
  · exact hrs x hx
  · exact List.mem_singleton.1 hx ▸ hr

end Traversals

section Collections

variable (h : Builds I own problem) (hw : I w)
include h hw

theorem binaryCrossover (rs : List Ref) :
    Ends (Heuristics.binaryCrossover problem rs) w fun offsprings w' =>
      (∀ r ∈ offsprings, own r) ∧ I w' := by
  unfold Heuristics.binaryCrossover
  refine (h.nextInt hw _ _).bind fun cut w hw => ?_
  refine (ends_nth rs 0).bind ?_
  rintro r1 _ ⟨-, rfl⟩
  refine (ends_deref r1).bind ?_
  rintro father1 _ ⟨-, rfl⟩
  refine (ends_nth rs 1).bind ?_
  rintro r2 _ ⟨-, rfl⟩
  refine (ends_deref r2).bind ?_
  rintro father2 _ ⟨-, rfl⟩
  refine Ends.bind (Q := fun _ w' => I w') (.mapM hw fun i _ _ w hw => ?_) fun elements w hw => ?_
  · refine (ends_nth _ i).bind ?_
    rintro e1 _ ⟨-, rfl⟩
    refine (ends_nth _ i).bind ?_
    rintro e2 _ ⟨-, rfl⟩
    exact .ret hw
  · refine (h.build w hw).bind fun s1 w ⟨h1, hw⟩ => ?_
    refine (h.build w hw).bind fun s2 w ⟨h2, hw⟩ => ?_
    refine (h.setSolutionsVector hw h1 _).bind fun _ w hw => ?_
    refine (h.setSolutionsVector hw h2 _).bind fun _ w hw => ?_
    exact .ret ⟨by simp [h1, h2], hw⟩

theorem trialElement (probC scaleFactor : K) (delta : ℤ) (s r1 r2 r3 : Ref) (j : ℕ) :
    Ends (Heuristics.trialElement problem probC scaleFactor delta s r1 r2 r3 j) w fun _ => I := by
  unfold Heuristics.trialElement
  refine (h.nextUniform hw _ _).bind fun u w hw => ?_
  split
  · refine (ends_getDoubleValue r1 j).bind ?_
    rintro x1 _ ⟨-, rfl⟩
    refine (ends_getDoubleValue r2 j).bind ?_
    rintro x2 _ ⟨-, rfl⟩
    refine (ends_getDoubleValue r3 j).bind ?_
    rintro x3 _ ⟨-, rfl⟩
    refine (ends_orThrow _).bind ?_
    rintro bounds _ ⟨-, rfl⟩
    exact h.newFunctionSolutionElement hw _
  · refine (ends_getDoubleValue s j).bind ?_
    rintro x _ ⟨-, rfl⟩
    exact h.newFunctionSolutionElement hw _

theorem differentialSum (name : ProblemName) (rs : List Ref)
    (parameters : CollectionParameters K) :
    Ends (Heuristics.differentialSum name problem rs parameters) w fun offsprings w' =>
      (∀ r ∈ offsprings, own r) ∧ I w' := by
  unfold Heuristics.differentialSum
  split
  · exact (Ends.throws _).bind fun _ _ h => h
  · refine (ends_nth rs 0).bind ?_
    rintro s _ ⟨-, rfl⟩
    refine (ends_nth rs 1).bind ?_
    rintro r1 _ ⟨-, rfl⟩
    refine (ends_nth rs 2).bind ?_
    rintro r2 _ ⟨-, rfl⟩
    refine (ends_nth rs 3).bind ?_
    rintro r3 _ ⟨-, rfl⟩
    refine (h.nextInt hw _ _).bind fun delta w hw => ?_
    refine (ends_nonNull _).bind ?_
    rintro probC _ ⟨-, rfl⟩
    refine (ends_nonNull _).bind ?_
    rintro scaleFactor _ ⟨-, rfl⟩
    refine (h.build _ hw).bind fun solution w ⟨hsolution, hw⟩ => ?_
    have hfill := h.addElements hw hsolution (List.range problem.dimension)
      fun j w hw => h.trialElement hw probC scaleFactor delta s r1 r2 r3 j
    exact hfill.bind fun _ w hw => .ret ⟨by simp [hsolution], hw⟩

theorem velocityElement (c1 c2 : K) (velocity particle best global : Ref) (j : ℕ) :
    Ends (Heuristics.velocityElement c1 c2 velocity particle best global j) w fun _ => I := by
  unfold Heuristics.velocityElement
  refine (ends_getDoubleValue velocity j).bind ?_
  rintro v _ ⟨-, rfl⟩
  refine (h.nextUniform hw _ _).bind fun u1 w hw => ?_
  refine (ends_getDoubleValue best j).bind ?_
  rintro b _ ⟨-, rfl⟩
  refine (ends_getDoubleValue particle j).bind ?_
  rintro x _ ⟨-, rfl⟩
  refine (h.nextUniform hw _ _).bind fun u2 w hw => ?_
  refine (ends_getDoubleValue global j).bind ?_
  rintro g _ ⟨-, rfl⟩
  exact h.newFunctionSolutionElement hw _

theorem velocityCalc (name : ProblemName) (rs : List Ref) (parameters : CollectionParameters K)
    (n : ℤ) :
    Ends (Heuristics.velocityCalc name problem rs parameters n) w fun velocities w' =>
      (∀ r ∈ velocities, own r) ∧ I w' := by
  unfold Heuristics.velocityCalc
  refine (ends_subList rs _ _).bind ?_
  rintro velocities _ ⟨-, rfl⟩
  refine (ends_subList rs _ _).bind ?_
  rintro particles _ ⟨-, rfl⟩
  refine (ends_subList rs _ _).bind ?_
  rintro particlesBest _ ⟨-, rfl⟩
  refine (ends_nth rs _).bind ?_
  rintro globalBest _ ⟨-, rfl⟩
  refine (ends_nonNull _).bind ?_
  rintro c1 _ ⟨-, rfl⟩
  refine (ends_nonNull _).bind ?_
  rintro c2 _ ⟨-, rfl⟩
  refine each hw fun i _ w hw => ?_
  split
  · exact (Ends.throws _).bind fun _ _ h => h
  · refine (h.build w hw).bind fun solution w ⟨hsolution, hw⟩ => ?_
    refine (ends_nth _ i).bind ?_
    rintro velocity _ ⟨-, rfl⟩
    refine (ends_nth _ i).bind ?_
    rintro particle _ ⟨-, rfl⟩
    refine (ends_nth _ i).bind ?_
    rintro particleBest _ ⟨-, rfl⟩
    have hfill := h.addElements hw hsolution (List.range problem.dimension)
      fun j w hw => h.velocityElement hw c1 c2 velocity particle particleBest globalBest j
    exact hfill.bind fun _ w hw => .ret ⟨hsolution, hw⟩

theorem positionCalc (name : ProblemName) (rs : List Ref) (n : ℤ) :
    Ends (Heuristics.positionCalc name problem rs n) w fun positions w' =>
      (∀ r ∈ positions, own r) ∧ I w' := by
  unfold Heuristics.positionCalc
  refine (ends_subList rs _ _).bind ?_
  rintro velocities _ ⟨-, rfl⟩
  refine (ends_subList rs _ _).bind ?_
  rintro particles _ ⟨-, rfl⟩
  refine each hw fun i _ w hw => ?_
  split
  · exact (Ends.throws _).bind fun _ _ h => h
  · refine (h.build w hw).bind fun solution w ⟨hsolution, hw⟩ => ?_
    refine (ends_nth _ i).bind ?_
    rintro particle _ ⟨-, rfl⟩
    refine (ends_nth _ i).bind ?_
    rintro velocity _ ⟨-, rfl⟩
    refine Ends.bind (.forM hw fun j _ w hw => ?_) fun _ w hw => .ret ⟨hsolution, hw⟩
    refine (ends_getDoubleValue particle j).bind ?_
    rintro x _ ⟨-, rfl⟩
    refine (ends_getDoubleValue velocity j).bind ?_
    rintro v _ ⟨-, rfl⟩
    refine (h.newFunctionSolutionElement hw _).bind fun e w hw => ?_
    exact h.addElement hw hsolution e

theorem modifyCollection (m : Option ModifiesSolutionCollections) (rs : List Ref)
    (parameters : CollectionParameters K) (n : Option ℤ) :
    Ends (Heuristics.modifyCollection m problem rs parameters n) w fun result w' =>
      (∀ r ∈ result, own r ∨ r ∈ rs) ∧ I w' := by
  have hnew : ∀ {p : Program K (List Ref)} {w : World K},
      Ends p w (fun result w' => (∀ r ∈ result, own r) ∧ I w') →
      Ends p w fun result w' => (∀ r ∈ result, own r ∨ r ∈ rs) ∧ I w' :=
    fun hp => hp.mono fun _ _ ⟨hown, hw⟩ => ⟨fun r hr => Or.inl (hown r hr), hw⟩
  unfold Heuristics.modifyCollection
  refine (ends_nonNull m).bind ?_
  rintro m _ ⟨-, rfl⟩
  cases m with
  | chooseRandomK =>
      refine (ends_nonNull n).bind ?_
      rintro n _ ⟨-, rfl⟩
      exact (h.nextSample hw rs n).mono fun _ _ ⟨⟨_, hdrawn⟩, hw⟩ =>
        ⟨fun r hr => Or.inr (hdrawn.mem hr), hw⟩
  | binaryCrossover => exact hnew (h.binaryCrossover hw rs)
  | deBenchmarkProblemSum => exact hnew (h.differentialSum hw .benchmark rs parameters)
  | deFunctionProblemSum => exact hnew (h.differentialSum hw .function rs parameters)
  | psoVelocityCalcBenchmarkProblem =>
      refine (ends_nonNull n).bind ?_
      rintro n _ ⟨-, rfl⟩
      exact hnew (h.velocityCalc hw .benchmark rs parameters n)
  | psoVelocityCalcFunctionProblem =>
      refine (ends_nonNull n).bind ?_
      rintro n _ ⟨-, rfl⟩
      exact hnew (h.velocityCalc hw .function rs parameters n)
  | psoPositionCalcBenchmarkProblem =>
      refine (ends_nonNull n).bind ?_
      rintro n _ ⟨-, rfl⟩
      exact hnew (h.positionCalc hw .benchmark rs n)
  | psoPositionCalcFunctionProblem =>
      refine (ends_nonNull n).bind ?_
      rintro n _ ⟨-, rfl⟩
      exact hnew (h.positionCalc hw .function rs n)

theorem initialTemperature (t : Temperature K) :
    Ends (t.initialTemperature problem) w fun _ => I := by
  cases t with
  | sa => exact (h.build w hw).bind fun _ w ⟨_, hw⟩ => .ret hw
  | iterations log =>
      refine (h.build w hw).bind fun _ w ⟨_, hw⟩ => ?_
      refine (h.build w hw).bind fun _ w ⟨_, hw⟩ => ?_
      refine (ends_orThrow _).bind ?_
      rintro t0 _ ⟨-, rfl⟩
      exact .ret hw

end Collections

end Builds

namespace Observes

variable {I : World K → Prop} {own : Ref → Prop} {problem : Problem K} {context : Context}
  {w : World K}

section Evaluations

variable (h : Observes I own problem context) (hw : I w)
include h hw

theorem evaluate {r : Ref} (hr : own r) : Ends (Heuristics.evaluate context r) w fun _ => I := by
  unfold Heuristics.evaluate
  refine (ends_deref r).bind ?_
  rintro s _ ⟨-, rfl⟩
  split
  · refine (h.calculate _ r hr hw).bind fun _ w hw => ?_
    exact (ends_deref r).bind fun _ _ ⟨_, heq⟩ => .ret (heq ▸ hw)
  · exact (ends_deref r).bind fun _ _ ⟨_, heq⟩ => .ret (heq ▸ hw)

theorem isViable {r : Ref} (hr : own r) : Ends (Heuristics.isViable context r) w fun _ => I := by
  unfold Heuristics.isViable
  refine (ends_deref r).bind ?_
  rintro s _ ⟨-, rfl⟩
  split
  · refine (h.calculate _ r hr hw).bind fun _ w hw => ?_
    exact (ends_deref r).bind fun _ _ ⟨_, heq⟩ => .ret (heq ▸ hw)
  · exact (ends_deref r).bind fun _ _ ⟨_, heq⟩ => .ret (heq ▸ hw)

theorem copyValues (rs : List Ref) :
    Ends (Heuristics.copyValues rs) w fun copies w' => (∀ r ∈ copies, own r) ∧ I w' :=
  Builds.each hw fun r _ w hw => h.clone w r hw

end Evaluations

section LocalSearches

variable (h : Observes I own problem context) (hw : I w)
include h hw

theorem randomLocalSearch {neighbor : Option (SolutionModifier K)}
    (hneighbor : ∀ m, neighbor = some m → ModifiesOwn I own m) (n : ℤ) (solution : Ref) :
    Ends (Heuristics.randomLocalSearch problem neighbor n solution context) w fun best w' =>
      own best ∧ I w' := by
  unfold Heuristics.randomLocalSearch
  refine (h.clone w _ hw).bind fun best w ⟨hbest, hw⟩ => ?_
  refine (h.evaluate hw hbest).bind fun _ w hw => ?_
  refine (h.clone w _ hw).bind fun current w ⟨hcurrent, hw⟩ => ?_
  refine Ends.bind (Q := fun s w' => (own s.1 ∧ own s.2) ∧ I w')
    (.foldlM ⟨⟨hbest, hcurrent⟩, hw⟩ fun _ _ (best, current) w ⟨⟨hbest, hcurrent⟩, hw⟩ => ?_)
    fun s w ⟨hs, hw⟩ => .ret ⟨hs.1, hw⟩
  unfold modifySolution
  refine Ends.bind ?_ fun neighborSolution w (⟨hown, hw⟩ : own neighborSolution ∧ I w) => ?_
  · refine (ends_nonNull neighbor).bind ?_
    rintro m _ ⟨hm, rfl⟩
    exact hneighbor m hm _ current 1 hw hcurrent
  · refine (h.evaluate hw hown).bind fun _ w hw => ?_
    refine (h.isViable hw hown).bind fun viable w hw => ?_
    split
    · refine (ends_getBestSolution _ neighborSolution best).bind ?_
      rintro b _ ⟨⟨x, y, -, -, rfl⟩, rfl⟩
      refine .ret ⟨?_, hw⟩
      dsimp only
      split
      · exact ⟨hown, hown⟩
      · exact ⟨hbest, hbest⟩
    · exact .ret ⟨⟨hbest, hcurrent⟩, hw⟩

theorem search {localSearch : LocalSearch K}
    (hneighbor : ∀ m, localSearch.neighbor = some m → ModifiesOwn I own m) (solution : Ref) :
    Ends (localSearch.search problem solution context) w fun best w' => own best ∧ I w' := by
  unfold LocalSearch.search
  split
  · exact h.randomLocalSearch hw hneighbor _ _
  · unfold firstImproveLocalSearch
    refine (h.build w hw).bind fun _ w ⟨_, hw⟩ => ?_
    refine (h.clone w _ hw).bind fun best w ⟨hbest, hw⟩ => ?_
    refine (h.clone w _ hw).bind fun _ w ⟨_, hw⟩ => ?_
    exact (h.clone w _ hw).bind fun _ w ⟨_, hw⟩ => .ret ⟨hbest, hw⟩
  · unfold betterNeighborhoodLocalSearch
    refine (h.build w hw).bind fun _ w ⟨_, hw⟩ => ?_
    refine (h.clone w _ hw).bind fun best w ⟨hbest, hw⟩ => ?_
    refine (h.evaluate hw hbest).bind fun _ w hw => ?_
    refine (h.clone w _ hw).bind fun _ w ⟨_, hw⟩ => ?_
    exact (h.clone w _ hw).bind fun _ w ⟨_, hw⟩ => .ret ⟨hbest, hw⟩

end LocalSearches

end Observes

namespace Keeps

variable {I : World K → Prop} {own : Ref → Prop} {problem : Problem K} {context : Context}
  {w : World K} (h : Keeps I own problem context)
include h

theorem toObserves : Observes I own problem context where
  draw := h.draw
  build := h.build
  clone := h.clone
  calculate := h.calculate

variable (hw : I w)
include hw

theorem evaluate {r : Ref} (hr : own r) : Ends (Heuristics.evaluate context r) w fun _ => I :=
  h.toObserves.evaluate hw hr

theorem isViable {r : Ref} (hr : own r) : Ends (Heuristics.isViable context r) w fun _ => I :=
  h.toObserves.isViable hw hr

theorem copyValues (rs : List Ref) :
    Ends (Heuristics.copyValues rs) w fun copies w' => (∀ r ∈ copies, own r) ∧ I w' :=
  h.toObserves.copyValues hw rs

theorem search {localSearch : LocalSearch K}
    (hneighbor : ∀ m, localSearch.neighbor = some m → ModifiesOwn I own m) (solution : Ref) :
    Ends (localSearch.search problem solution context) w fun best w' => own best ∧ I w' :=
  h.toObserves.search hw hneighbor solution

end Keeps

end DOptimas.Heuristics
