import DOptimas.Heuristics.PartitionMotions
import DOptimas.Heuristics.RouteMotions
import DOptimas.Heuristics.WholeRuns
/-!
# The parts of partition and routing problems

What the motions on partitions and routes make of an own solution is own, as it
is for the problems with real coordinates.
-/

namespace DOptimas.Heuristics

open DOptimas.Support

variable {K : Type} [RealArith K] {I : World K → Prop} {own : Ref → Prop} {problem : Problem K}
  {context : Context} {w : World K}

theorem ends_natural (i : ℤ) :
    Ends (natural i : Program K ℕ) w fun _ w' => w' = w := by
  unfold natural
  split
  · exact .ret rfl
  · exact .throws _

/-! ## Partitions -/

theorem Draws.newElement (h : Draws I) (hw : I w) (present : Bool) :
    Ends (BinaryPartitionNumberProblem.newElement (K := K) present) w fun _ => I :=
  .changes (h.draw w w.uniforms w.choices w.clock _ hw)

theorem Draws.nextBinomial (h : Draws I) (hw : I w) (n : ℕ) :
    Ends (Heuristics.nextBinomial (K := K) n) w fun _ => I := by
  unfold Heuristics.nextBinomial
  split
  · exact (Ends.throws _).bind fun _ _ h => h
  · exact (h.nextDouble hw).bind fun _ _ hw => .ret hw

namespace Keeps

variable (h : Keeps I own problem context) (hw : I w)
include h hw

theorem partitionChange (solution r : Ref) :
    Ends (BinaryPartitionRandomChangeSolutionModifier.motion solution r) w fun r' w' =>
      own r' ∧ I w' := by
  unfold BinaryPartitionRandomChangeSolutionModifier.motion
    BinaryPartitionChangePerformsMotion.movement
  refine (ends_deref solution).bind ?_
  rintro s w ⟨-, rfl⟩
  refine (h.nextInt hw _ _).bind fun index w hw => ?_
  refine (ends_deref r).bind ?_
  rintro t w ⟨-, rfl⟩
  refine (ends_nth _ _).bind ?_
  rintro value w ⟨-, rfl⟩
  refine (h.clone w r hw).bind fun moved w ⟨hmoved, hw⟩ => ?_
  refine (ends_orThrow _).bind ?_
  rintro present w ⟨-, rfl⟩
  refine (h.newElement hw _).bind fun element w hw => ?_
  exact (h.setElement hw hmoved _ _).bind fun _ w hw => .ret ⟨hmoved, hw⟩

theorem partitionSwap (fuel : ℕ) (solution r : Ref) :
    Ends (BinaryPartitionRandomSwapSolutionModifier.motion fuel solution r) w fun r' w' =>
      own r' ∧ I w' := by
  unfold BinaryPartitionRandomSwapSolutionModifier.motion
  refine Ends.bind (Q := fun _ => I) ?_ fun _ w hw => h.clone w r hw
  unfold BinaryPartitionRandomSwapSolutionModifier.drawIndexes
  refine (ends_deref solution).bind ?_
  rintro s w ⟨-, rfl⟩
  refine (h.nextInt hw _ _).bind fun index1 w hw => ?_
  refine (h.nextBinomial hw _).bind fun index2 w hw => ?_
  refine Ends.bind (Q := fun _ => I) ?_ fun _ w hw => .ret hw
  refine .repeatWhile (I := fun _ => I) ?_ ?_ hw
  · intro b w hw
    exact .ret hw
  · intro b w hw
    exact h.nextBinomial hw _

end Keeps

theorem Keeps.partitionModifier (h : Keeps I own problem context) (fuel : ℕ)
    (m : PartitionModifier) : ModifiesOwn I own (m.toSolutionModifier fuel) := by
  cases m with
  | binaryPartitionRandomChange =>
      intro w r n hw hr
      refine .foldlM (I := fun r w => own r ∧ I w) ⟨hr, hw⟩ ?_
      intro _ _ r' w hr'
      exact h.partitionChange hr'.2 r r'
  | binaryPartitionRandomSwap =>
      intro w r n hw hr
      refine .foldlM (I := fun r w => own r ∧ I w) ⟨hr, hw⟩ ?_
      intro _ _ r' w hr'
      exact h.partitionSwap hr'.2 fuel r r'
  | otherSolutionClass => exact fun w r n _ _ => .throws _

/-! ## Routes -/

namespace Keeps

variable (h : Keeps I own problem context) (hw : I w)
include h hw

theorem setElementOrNull {r : Ref} (hr : own r) (i : ℕ) (element : Option (Element K)) :
    Ends (Heuristics.setElementOrNull r i element) w fun _ => I := by
  unfold Heuristics.setElementOrNull
  split
  · exact h.setElement hw hr i _
  · refine (ends_deref r).bind ?_
    rintro s w ⟨-, rfl⟩
    dsimp only
    split
    · exact (Ends.throws _).bind fun _ _ h => h
    · split
      · exact (Ends.throws _).bind fun _ _ h => h
      · refine Ends.bind (Q := fun _ => I) (.modifies (h.vector _ r _ hr hw)) ?_
        exact fun _ _ _ => .throws _

theorem vrtwSwap (r : Ref) (positions : Option (List ℤ)) :
    Ends (VRTWSwapPerformsMotion.movement r positions) w fun r' w' => own r' ∧ I w' := by
  unfold VRTWSwapPerformsMotion.movement
  split
  · refine (h.clone w r hw).bind fun moved w ⟨hmoved, hw⟩ => ?_
    refine (ends_deref r).bind ?_
    rintro s w ⟨-, rfl⟩
    refine (ends_natural _).bind ?_
    rintro pos2 w rfl
    refine (ends_nth _ _).bind ?_
    rintro second w ⟨-, rfl⟩
    refine (ends_natural _).bind ?_
    rintro pos1 w rfl
    refine (h.setElementOrNull hw hmoved _ _).bind fun _ w hw => ?_
    refine (ends_deref r).bind ?_
    rintro s w ⟨-, rfl⟩
    refine (ends_natural _).bind ?_
    rintro pos1 w rfl
    refine (ends_nth _ _).bind ?_
    rintro first w ⟨-, rfl⟩
    refine (ends_natural _).bind ?_
    rintro pos2 w rfl
    exact (h.setElementOrNull hw hmoved _ _).bind fun _ w hw => .ret ⟨hmoved, hw⟩
  · exact .throws _

theorem drawRoute (routes : List ℤ) :
    Ends (VRTWSwapInsideRouteSolutionModifier.drawRoute (K := K) routes) w fun _ => I := by
  unfold VRTWSwapInsideRouteSolutionModifier.drawRoute
  refine (h.nextInt hw _ _).bind fun routeIndex w hw => ?_
  refine (ends_natural _).bind ?_
  rintro i w rfl
  refine (ends_nth _ _).bind ?_
  rintro routeBegin w ⟨-, rfl⟩
  refine (ends_natural _).bind ?_
  rintro i w rfl
  refine (ends_nth _ _).bind ?_
  rintro next w ⟨-, rfl⟩
  exact .ret hw

theorem choseRoute (fuel : ℕ) (r : Ref) :
    Ends (VRTWSwapInsideRouteSolutionModifier.choseRoute (K := K) fuel r) w fun _ => I := by
  unfold VRTWSwapInsideRouteSolutionModifier.choseRoute
  refine (ends_deref r).bind ?_
  rintro s w ⟨-, rfl⟩
  refine (ends_orThrow _).bind ?_
  rintro routes w ⟨-, rfl⟩
  split
  · refine (ends_nth _ _).bind ?_
    rintro first w ⟨-, rfl⟩
    refine (ends_nth _ _).bind ?_
    rintro second w ⟨-, rfl⟩
    exact .ret hw
  · refine (h.drawRoute hw routes).bind fun indexes w hw => ?_
    refine .repeatWhile (I := fun _ => I) ?_ ?_ hw
    · intro b w hw
      exact .ret hw
    · intro b w hw
      exact h.drawRoute hw routes

theorem drawCities (fuel : ℕ) (routeBegin routeEnd : ℤ) :
    Ends (VRTWSwapInsideRouteSolutionModifier.drawCities (K := K) fuel routeBegin routeEnd) w
      fun _ => I := by
  unfold VRTWSwapInsideRouteSolutionModifier.drawCities
  refine (h.nextInt hw _ _).bind fun cityA w hw => ?_
  refine (h.nextInt hw _ _).bind fun cityB w hw => ?_
  refine Ends.bind (Q := fun _ => I) ?_ fun _ w hw => .ret hw
  refine .repeatWhile (I := fun _ => I) ?_ ?_ hw
  · intro b w hw
    exact .ret hw
  · intro b w hw
    exact h.nextInt hw _ _

theorem vrtwMotion (fuel : ℕ) (r : Ref) :
    Ends (VRTWSwapInsideRouteSolutionModifier.motion fuel r) w fun r' w' => own r' ∧ I w' := by
  unfold VRTWSwapInsideRouteSolutionModifier.motion
    VRTWSwapInsideRouteSolutionModifier.swapInsideRoute
  refine (h.choseRoute hw fuel r).bind ?_
  rintro ⟨routeBegin, routeEnd⟩ w hw
  refine (h.drawCities hw fuel routeBegin routeEnd).bind ?_
  rintro ⟨cityA, cityB⟩ w hw
  exact h.vrtwSwap hw r _

end Keeps

theorem Keeps.vrtwModifier (h : Keeps I own problem context) (fuel : ℕ) (m : VRTWModifier) :
    ModifiesOwn I own (m.toSolutionModifier fuel) := by
  cases m with
  | vrtwSwapInsideRoute =>
      intro w r n hw _
      refine (h.clone w r hw).bind fun modified w hmodified => ?_
      refine .foldlM (I := fun r w => own r ∧ I w) hmodified ?_
      intro _ _ r' w hr'
      exact h.vrtwMotion hr'.2 fuel r'
  | vrtwSwapBetweenRoute =>
      intro w r n _ _
      refine Ends.bind (Q := fun found _ => found = none) ?_ ?_
      · unfold VRTWSwapBetweenRouteSolutionModifier.modify
        refine (ends_deref r).bind ?_
        rintro s w ⟨-, rfl⟩
        refine (ends_orThrow _).bind ?_
        rintro _ w ⟨-, rfl⟩
        exact .ret rfl
      · rintro _ w rfl
        exact .throws _
  | otherSolutionClass => exact fun w r n _ _ => .throws _

/-! ## What the problems offer -/

def BinaryPartitionNumberProblem.parts (p : BinaryPartitionNumberProblem) : Parts K where
  problem := p.toProblem
  modifies m := ∃ fuel, ∃ b : Option PartitionModifier,
    m = b.map (PartitionModifier.toSolutionModifier fuel)
  lists c := c = none ∨ c = some p.binaryPartitionCandidatesList

def VehicleRoutingTimeWindowProblem.parts (p : VehicleRoutingTimeWindowProblem K) (infinity : K) :
    Parts K where
  problem := p.toProblem infinity
  modifies m := ∃ fuel, ∃ b : Option VRTWModifier,
    m = b.map (VRTWModifier.toSolutionModifier fuel)
  lists c := c = none ∨ c = some p.vrtwCandidatesList

theorem BinaryPartitionNumberProblem.parts_keep (p : BinaryPartitionNumberProblem) :
    (p.parts : Parts K).Keep := by
  intro I own context h
  constructor
  · rintro _ ⟨fuel, b, rfl⟩ m hm
    obtain ⟨modifier, -, rfl⟩ := Option.map_eq_some_iff.1 hm
    exact h.partitionModifier fuel modifier
  · rintro c (rfl | rfl) c' hc w hw
    · cases hc
    · cases hc
      refine .mapM (I := fun _ => I) hw ?_
      intro _ _ _ w hw
      exact h.newElement hw _

theorem VehicleRoutingTimeWindowProblem.parts_keep (p : VehicleRoutingTimeWindowProblem K)
    (infinity : K) : (p.parts infinity).Keep := by
  intro I own context h
  constructor
  · rintro _ ⟨fuel, b, rfl⟩ m hm
    obtain ⟨modifier, -, rfl⟩ := Option.map_eq_some_iff.1 hm
    exact h.vrtwModifier fuel modifier
  · rintro c (rfl | rfl) c' hc w hw
    · cases hc
    · cases hc
      exact (h.nextInt hw _ _).bind fun _ w hw => .ret hw

inductive AnyProblem (K : Type) [RealArith K] where
  | numeric (p : NumericProblem K)
  | binaryPartitionNumber (p : BinaryPartitionNumberProblem)
  | vehicleRoutingTimeWindow (p : VehicleRoutingTimeWindowProblem K) (infinity : K)

def AnyProblem.parts : AnyProblem K → Parts K
  | numeric p => p.parts
  | binaryPartitionNumber p => p.parts
  | vehicleRoutingTimeWindow p infinity => p.parts infinity

theorem AnyProblem.parts_keep (p : AnyProblem K) : p.parts.Keep := by
  cases p with
  | numeric p => exact p.parts_keep
  | binaryPartitionNumber p => exact p.parts_keep
  | vehicleRoutingTimeWindow p infinity => exact p.parts_keep infinity

end DOptimas.Heuristics
