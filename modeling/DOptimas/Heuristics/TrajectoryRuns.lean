import DOptimas.Heuristics.PopulationRuns
/-!
# Runs of the heuristics that follow one solution

They calculate and return solutions that they built or cloned themselves.
-/

namespace DOptimas.Heuristics

open DOptimas.Support

variable {K : Type} [RealArith K]

/-! ## Iterated local search -/

namespace ILS

variable {this : ILS K} {context : Context} {I : World K → Prop} {own : Ref → Prop}
  {fields : Fields} {w : World K} (h : Keeps I own this.problem context)
  (hsearch : ∀ l, this.localSearch = some l → ModifiesIfThere I own l.neighbor)
include h hsearch

theorem keeps_search (hw : I w) (solution : Ref) :
    Ends (search this solution context) w fun best w' => own best ∧ I w' := by
  unfold search
  refine (ends_nonNull _).bind ?_
  rintro l w ⟨hl, rfl⟩
  exact h.search hw (hsearch l hl) solution

structure Owns (own : Ref → Prop) (fields : Fields) : Prop where
  current : own fields.currentSolution
  best : ∀ best, fields.bestSolution = some best → own best

theorem keeps_iterate (hdisturb : ModifiesIfThere I own this.solutionDisturb)
    (howns : Owns own fields) (hw : I w) (state : State) :
    Ends (iterate this context state) (fields, w) fun _ s => Owns own s.1 ∧ I s.2 := by
  unfold iterate
  dsimp only
  refine ends_fields ?_
  refine ends_call (h.clone w fields.currentSolution hw) ?_
  rintro novaSolucao w ⟨hown, hw⟩
  refine ends_call (Keeps.modifySolution hdisturb hw hown _) ?_
  rintro perturbed w ⟨-, hw⟩
  refine ends_call (keeps_search h hsearch hw perturbed) ?_
  rintro found w ⟨hfound, hw⟩
  refine ends_call (h.evaluate hw hfound) fun _ w hw => ?_
  refine ends_call (h.isViable hw hfound) fun viable w hw => ?_
  split
  · refine ends_fields ?_
    refine ends_call (ends_nonNull _) ?_
    rintro best w ⟨hbest, rfl⟩
    refine ends_call (ends_getBestSolution_min _ found best) ?_
    rintro best' w ⟨rfl, hbest', -⟩
    have hown' : own best' := by
      rcases hbest' with rfl | rfl
      · exact hfound
      · exact howns.best _ hbest
    refine ends_setFields ?_
    refine ends_call (ends_equals_vectorOf best' found) ?_
    rintro same w ⟨-, rfl⟩
    split
    · refine ends_setFields (.ret ⟨⟨hfound, fun b hb => ?_⟩, hw⟩)
      cases hb
      exact hown'
    · refine .ret ⟨⟨howns.current, fun b hb => ?_⟩, hw⟩
      cases hb
      exact hown'
  · exact .ret ⟨howns, hw⟩

theorem keeps_run (hdisturb : ModifiesIfThere I own this.solutionDisturb) (hw : I w) (fuel : ℕ)
    (externalSolution : List Ref) :
    Ends (runMetaHeuristic this fuel externalSolution context) (fields, w) fun result s =>
      Gives own result ∧ I s.2 := by
  unfold runMetaHeuristic
  split
  · exact .ret ⟨gives_nil own, hw⟩
  refine ends_call (h.modifyCollection hw _ _ _ _) ?_
  rintro chosen w ⟨-, hw⟩
  refine ends_call (ends_nth chosen 0) ?_
  rintro current w ⟨-, rfl⟩
  refine ends_setFields ?_
  refine ends_call (keeps_search h hsearch hw current) ?_
  rintro best w ⟨hbest, hw⟩
  refine ends_setFields ?_
  unfold metodoILS
  refine Ends.bind (Q := fun r (s : Fields × World K) => own r ∧ I s.2) ?_ ?_
  · refine ends_fields ?_
    refine ends_call (ends_nonNull _) ?_
    rintro b w ⟨hb, rfl⟩
    cases hb
    refine ends_setFields ?_
    refine Ends.bind (Q := fun _ (s : Fields × World K) => Owns own s.1 ∧ I s.2) ?_ ?_
    · refine .repeatWhile (I := fun _ (s : Fields × World K) => Owns own s.1 ∧ I s.2) ?_ ?_
        ⟨⟨hbest, fun b hb => Option.some.inj hb ▸ hbest⟩, hw⟩
      · rintro state ⟨fields, w⟩ ⟨howns, hw⟩
        exact ends_call (h.isSatisfied hw _ _ _ _) fun _ w hw => .ret ⟨howns, hw⟩
      · rintro state ⟨fields, w⟩ ⟨howns, hw⟩
        exact keeps_iterate h hsearch hdisturb howns hw state
    · rintro - ⟨fields, w⟩ ⟨howns, hw⟩
      refine ends_fields (Ends.onState ((ends_nonNull _).mono ?_))
      rintro b w ⟨hb, rfl⟩
      exact ⟨howns.best b hb, hw⟩
  · rintro b ⟨fields, w⟩ ⟨hb, hw⟩
    exact ends_setFields (.ret ⟨gives_one hb, hw⟩)

end ILS

/-! ## Simulated annealing -/

namespace SA

variable {this : SA K} {context : Context} {I : World K → Prop} {own : Ref → Prop}
  {fields : Fields} {w : World K}

structure Owns (own : Ref → Prop) (fields : Fields) : Prop where
  current : own fields.currentSolution
  best : ∀ best, fields.bestSolution = some best → own best

variable (h : Keeps I own this.problem context) (hm : ModifiesIfThere I own this.solutionModifier)
include h

theorem keeps_accepts (hw : I w) (neighbor : Ref) (temperature : JDouble K) :
    Ends (accepts this neighbor temperature) (fields, w) fun _ s => s.1 = fields ∧ I s.2 := by
  unfold accepts
  refine ends_call (h.nextDouble hw) fun u w hw => ?_
  refine ends_call (ends_getFunctionValue neighbor) ?_
  rintro value w ⟨-, rfl⟩
  refine ends_call (ends_nonNull _) ?_
  rintro x w ⟨-, rfl⟩
  refine ends_fields ?_
  refine ends_call (ends_getFunctionValue fields.currentSolution) ?_
  rintro value w ⟨-, rfl⟩
  refine ends_call (ends_nonNull _) ?_
  rintro y w ⟨-, rfl⟩
  exact .ret ⟨rfl, hw⟩

theorem keeps_goesOn (hw : I w) (state : State K) :
    Ends (goesOn this state) (fields, w) fun _ s => s.1 = fields ∧ I s.2 := by
  unfold goesOn
  refine ends_fields ?_
  refine ends_call (ends_getFunctionValue _) ?_
  rintro value w ⟨-, rfl⟩
  exact ends_call (h.isSatisfied hw _ _ _ _) fun _ w hw => .ret ⟨rfl, hw⟩

include hm

theorem keeps_tryNeighbor (howns : Owns own fields) (hw : I w) (temperature : JDouble K)
    (noImproveIt : ℤ) :
    Ends (tryNeighbor this context temperature noImproveIt) (fields, w) fun _ s =>
      Owns own s.1 ∧ I s.2 := by
  unfold tryNeighbor
  refine ends_fields ?_
  refine ends_call (Keeps.modifySolution hm hw howns.current 1) ?_
  rintro neighbor w ⟨hneighbor, hw⟩
  refine ends_call (h.evaluate hw hneighbor) fun _ w hw => ?_
  refine ends_call (h.isViable hw hneighbor) fun viable w hw => ?_
  have hmoved : Owns own { fields with currentSolution := neighbor } := ⟨hneighbor, howns.best⟩
  split
  · refine ends_call (ends_compare_precedes _ neighbor fields.currentSolution) ?_
    rintro c w ⟨-, rfl⟩
    split
    · refine ends_setFields ?_
      refine ends_fields ?_
      refine ends_call (ends_nonNull _) ?_
      rintro best w ⟨hbest, rfl⟩
      refine ends_call (ends_getBestSolution_min _ best neighbor) ?_
      rintro newBest w ⟨rfl, hchoice, -⟩
      refine ends_call (ends_equals_vectorOf newBest best) ?_
      rintro same w ⟨-, rfl⟩
      split
      · exact .ret ⟨hmoved, hw⟩
      · refine ends_setFields (.ret ⟨⟨hneighbor, fun b hb => ?_⟩, hw⟩)
        cases hb
        rcases hchoice with rfl | rfl
        · exact howns.best _ hbest
        · exact hneighbor
    · refine (keeps_accepts h hw neighbor temperature).bind ?_
      rintro accepted ⟨fields', w⟩ ⟨rfl, hw⟩
      split
      · exact ends_setFields (.ret ⟨hmoved, hw⟩)
      · exact .ret ⟨howns, hw⟩
  · exact .ret ⟨howns, hw⟩

theorem keeps_cool (howns : Owns own fields) (hw : I w) (fuel : ℕ) (t : Temperature K)
    (initial : JDouble K) (state : State K) :
    Ends (cool this fuel context t initial state) (fields, w) fun _ s => Owns own s.1 ∧ I s.2 := by
  unfold cool
  refine Ends.bind (Q := fun _ (s : Fields × World K) => Owns own s.1 ∧ I s.2) ?_
    fun _ s hs => .ret hs
  refine .repeatWhile (I := fun _ (s : Fields × World K) => Owns own s.1 ∧ I s.2) ?_ ?_ ⟨howns, hw⟩
  · rintro state ⟨fields, w⟩ ⟨howns, hw⟩
    unfold goesOnAtTemperature
    split
    · exact (keeps_goesOn h hw state).mono fun _ s hs => ⟨hs.1 ▸ howns, hs.2⟩
    · exact .ret ⟨howns, hw⟩
  · rintro state ⟨fields, w⟩ ⟨howns, hw⟩
    unfold step
    exact (keeps_tryNeighbor h hm howns hw _ _).bind fun _ s hs => .ret hs

theorem keeps_run (hw : I w) (fuel : ℕ) (externalSolution : List Ref) :
    Ends (runMetaHeuristic this fuel externalSolution context) (fields, w) fun result s =>
      Gives own result ∧ I s.2 := by
  unfold runMetaHeuristic
  cases externalSolution with
  | nil => exact .ret ⟨fun rs hrs => by simp at hrs, hw⟩
  | cons first rest =>
      refine ends_setFields ?_
      refine ends_call (h.clone w first hw) ?_
      rintro best w ⟨hbest, hw⟩
      refine ends_setFields ?_
      refine Ends.bind (Q := fun _ (s : Fields × World K) => Owns own s.1 ∧ I s.2) ?_ ?_
      · unfold methodSA
        refine ends_call (ends_nonNull _) ?_
        rintro t w ⟨-, rfl⟩
        refine ends_call (h.initialTemperature hw t) fun temperature w hw => ?_
        refine ends_call (h.clone w first hw) ?_
        rintro current w ⟨hcurrent, hw⟩
        refine ends_setFields ?_
        refine Ends.bind (Q := fun _ (s : Fields × World K) => Owns own s.1 ∧ I s.2) ?_
          fun _ _ hs => .ret hs
        refine .repeatWhile (I := fun _ (s : Fields × World K) => Owns own s.1 ∧ I s.2) ?_ ?_
          ⟨⟨hcurrent, fun b hb => Option.some.inj hb ▸ hbest⟩, hw⟩
        · rintro state ⟨fields, w⟩ ⟨howns, hw⟩
          exact (keeps_goesOn h hw state).mono fun _ s hs => ⟨hs.1 ▸ howns, hs.2⟩
        · rintro state ⟨fields, w⟩ ⟨howns, hw⟩
          exact keeps_cool h hm howns hw fuel t temperature state
      · rintro - ⟨fields, w⟩ ⟨howns, hw⟩
        refine ends_fields ?_
        refine ends_call (ends_nonNull _) ?_
        rintro b w ⟨hb, rfl⟩
        exact .ret ⟨gives_one (howns.best b hb), hw⟩

end SA

/-! ## GRASP -/

namespace GRASP

variable {this : GRASP K} {context : Context} {I : World K → Prop} {own : Ref → Prop} {w : World K}
  (h : Keeps I own this.problem context)
  (hadaptive : ∀ w r e, own r → I w → Ends (adaptiveFunctionValue r e) w fun _ => I)

include h hadaptive

theorem keeps_adaptiveFunctionValues (hw : I w) {solution : Ref} (hr : own solution)
    (candidates : List (Element K)) :
    Ends (adaptiveFunctionValues solution candidates) w fun _ => I := by
  unfold adaptiveFunctionValues
  refine Ends.bind (Q := fun _ => I) (.foldlM (I := fun _ => I) hw fun e _ values w hw => ?_)
    fun values w hw => (h.pick hw _ _).mono fun _ _ hw => hw.2
  refine (hadaptive w solution e hr hw).bind fun value w hw => ?_
  cases value with
  | none => exact .ret hw
  | some value =>
      refine (hadaptive w solution e hr hw).bind fun value w hw => ?_
      refine (ends_nonNull _).bind ?_
      rintro x w ⟨-, rfl⟩
      split
      · exact .ret hw
      · exact .ret hw

theorem keeps_construct (hw : I w) {solution : Ref} (hr : own solution)
    (candidates : List (Element K)) :
    Ends (construct this solution candidates) w fun _ => I := by
  unfold construct
  refine (keeps_adaptiveFunctionValues h hadaptive hw hr candidates).bind fun values w hw => ?_
  split
  · refine (ends_nonNull _).bind ?_
    rintro alpha w ⟨-, rfl⟩
    dsimp only
    split
    · exact .ret hw
    · refine (h.nextInt hw _ _).bind fun index w hw => ?_
      refine (ends_nth _ _).bind ?_
      rintro e w ⟨-, rfl⟩
      exact (h.addElement hw hr e).bind fun _ w hw => .ret hw
  · exact .ret hw

theorem keeps_construcao (hc : ListsIfThere I this.candidatesList) (hw : I w) (fuel : ℕ) :
    Ends (construcao this fuel) w fun r w' => own r ∧ I w' := by
  unfold construcao
  refine (h.build w hw).bind fun solution w ⟨hown, hw⟩ => ?_
  refine (ends_nonNull _).bind ?_
  rintro c w ⟨hc', rfl⟩
  refine (hc c hc' w hw).bind fun candidates w hw => ?_
  refine Ends.bind (Q := fun _ => I) ?_ fun _ w hw => .ret ⟨hown, hw⟩
  exact .repeatWhile (I := fun _ => I) (fun _ _ hw => .ret hw)
    (fun candidates w hw => keeps_construct h hadaptive hw hown candidates) hw

end GRASP

namespace GRASP

variable {this : GRASP K} {context : Context} {I : World K → Prop} {own : Ref → Prop} {w : World K}
  (h : Observes I own this.problem context)
  (hsearch : ∀ l, this.localSearch = some l → ModifiesIfThere I own l.neighbor)
include h hsearch

theorem keeps_iterate {fuel : ℕ}
    (hconstruct : Ends (construcao this fuel) w fun r w' => own r ∧ I w') {state : State}
    (hown : own state.solution) :
    Ends (iterate this fuel context state) w fun state' w' => own state'.solution ∧ I w' := by
  unfold iterate
  refine hconstruct.bind fun start w ⟨_, hw⟩ => ?_
  refine (ends_nonNull _).bind ?_
  rintro l w ⟨hl, rfl⟩
  refine (h.search hw (hsearch l hl) start).bind fun found w ⟨hfound, hw⟩ => ?_
  refine (h.isViable hw hfound).bind fun viable w hw => ?_
  split
  · refine (h.evaluate hw hfound).bind fun _ w hw => ?_
    refine (ends_getBestSolution_min _ found state.solution).bind ?_
    rintro best w ⟨rfl, hchoice, -⟩
    have hbest : own best := by
      rcases hchoice with rfl | rfl
      · exact hfound
      · exact hown
    split
    · exact (h.evaluate hw hbest).bind fun _ w hw => .ret ⟨hbest, hw⟩
    · exact .ret ⟨hbest, hw⟩
  · exact .ret ⟨hown, hw⟩

theorem keeps_loop {fuel : ℕ}
    (hconstruct : ∀ w, I w → Ends (construcao this fuel) w fun r w' => own r ∧ I w') (hw : I w)
    (n : ℕ) {state : State} (hown : own state.solution) :
    Ends (repeatWhile .unfinished (goesOn this) (iterate this fuel context) n state) w
      fun state' w' => own state'.solution ∧ I w' := by
  refine .repeatWhile (I := fun (state : State) w' => own state.solution ∧ I w') ?_ ?_ ⟨hown, hw⟩
  · intro state w hs
    exact (h.isSatisfied hs.2 _ _ _ _).bind fun _ w hw => .ret ⟨hs.1, hw⟩
  · intro state w hs
    exact keeps_iterate h hsearch (hconstruct w hs.2) hs.1

theorem keeps_run {fuel : ℕ}
    (hconstruct : ∀ w, I w → Ends (construcao this fuel) w fun r w' => own r ∧ I w') (hw : I w)
    (externalSolution : List Ref) :
    Ends (runMetaHeuristic this fuel externalSolution context) w fun result w' =>
      Gives own result ∧ I w' := by
  unfold runMetaHeuristic internalExecutionGRASP
  refine Ends.bind (Q := fun r w' => own r ∧ I w') ?_ fun r w ⟨hr, hw⟩ => .ret ⟨gives_one hr, hw⟩
  refine (h.build w hw).bind fun solution w ⟨hown, hw⟩ => ?_
  exact (keeps_loop h hsearch hconstruct hw fuel hown).bind fun state w hs => .ret hs

end GRASP

end DOptimas.Heuristics
