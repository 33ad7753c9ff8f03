import DOptimas.Core.Region
import DOptimas.Heuristics.EachSolution
import DOptimas.Heuristics.RouteMotions
import DOptimas.Heuristics.WholeRuns
import DOptimas.Proofs.DifferentialEvolution
import DOptimas.Proofs.SwapInsideRoute
/-!
# No region can store a route

The dimension of a routing problem has room for every client and as many depots.
A construction deals fewer depots than clients, a motion moves elements without
adding one, and a region takes only vectors of the problem's dimension.
-/

namespace DOptimas.Proofs.RouteStorage

open DOptimas.Support DOptimas.Heuristics
open DOptimas.Core (SolutionAnalyser Region)

/-! ## Short vectors -/

section Vectors

variable {K : Type} [RealArith K] {N : ℕ} {w : World K}

def Short (N : ℕ) (s : Solution K) : Prop := s.solutionsVector.length < N

omit [RealArith K] in
theorem Short.of_length {s t : Solution K} (h : Short N s)
    (hlength : t.solutionsVector.length = s.solutionsVector.length) : Short N t := by
  unfold Short
  rw [hlength]
  exact h

omit [RealArith K] in
theorem short_lasts (N : ℕ) : Lasts (K := K) (Short N) where
  clone _ _ h := h
  calculated _ _ _ h _ _ := h

/-! ## The motions -/

theorem ends_setElementOrNull (h : Each (Short N) w) (r : Ref) (i : ℕ)
    (e : Option (Element K)) : Ends (setElementOrNull r i e) w fun _ => Each (Short N) := by
  cases e with
  | some e =>
      show Ends (setElement r i e) w _
      unfold setElement
      refine (ends_deref r).bind ?_
      rintro s w ⟨-, rfl⟩
      dsimp only
      split
      · exact (Ends.throws _).bind fun _ _ h => h
      · split
        · exact (Ends.throws _).bind fun _ _ h => h
        · exact .modifies (h.modify r fun s hs => hs.of_length (List.length_set ..))
  | none =>
      unfold setElementOrNull
      refine (ends_deref r).bind ?_
      rintro s w ⟨-, rfl⟩
      dsimp only
      split
      · exact (Ends.throws _).bind fun _ _ h => h
      · split
        · exact (Ends.throws _).bind fun _ _ h => h
        · exact Ends.bind (Q := fun _ => Each (Short N))
            (.modifies (h.modify r fun s hs => hs.of_length (List.length_set ..)))
            fun _ _ _ => .throws _

theorem ends_natural (i : ℤ) : Ends (natural i : Program K ℕ) w fun _ w' => w' = w := by
  cases i with
  | ofNat i => exact .ret rfl
  | negSucc i => exact .throws _

theorem ends_movement (h : Each (Short N) w) (solution : Ref) (position : Option (List ℤ)) :
    Ends (VRTWSwapPerformsMotion.movement solution position) w fun _ => Each (Short N) := by
  unfold VRTWSwapPerformsMotion.movement
  split
  · refine (each_clone (short_lasts N) h solution).bind fun moved w h => ?_
    refine (ends_deref solution).bind ?_
    rintro s w ⟨-, rfl⟩
    refine (ends_natural _).bind ?_
    rintro j w rfl
    refine (ends_nth _ j).bind ?_
    rintro second w ⟨-, rfl⟩
    refine (ends_natural _).bind ?_
    rintro i w rfl
    refine (ends_setElementOrNull h moved i second).bind fun _ w h => ?_
    refine (ends_deref solution).bind ?_
    rintro s w ⟨-, rfl⟩
    refine (ends_natural _).bind ?_
    rintro i w rfl
    refine (ends_nth _ i).bind ?_
    rintro first w ⟨-, rfl⟩
    refine (ends_natural _).bind ?_
    rintro j w rfl
    exact (ends_setElementOrNull h moved j first).bind fun _ w h => .ret h
  · exact .throws _

theorem draws_short (N : ℕ) : Draws (K := K) (Each (Short N)) := ⟨fun _ _ _ _ _ h => h.of_eq rfl⟩

section InsideRoute

open VRTWSwapInsideRouteSolutionModifier

theorem ends_drawRoute (h : Each (Short N) w) (routes : List ℤ) :
    Ends (drawRoute routes : Program K (ℤ × ℤ)) w fun _ => Each (Short N) := by
  unfold drawRoute
  refine ((draws_short N).nextInt h _ _).bind fun i w h => ?_
  refine (ends_natural _).bind ?_
  rintro _ w rfl
  refine (ends_nth _ _).bind ?_
  rintro _ w ⟨-, rfl⟩
  refine (ends_natural _).bind ?_
  rintro _ w rfl
  refine (ends_nth _ _).bind ?_
  rintro _ w ⟨-, rfl⟩
  exact .ret h

theorem ends_choseRoute (h : Each (Short N) w) (fuel : ℕ) (solution : Ref) :
    Ends (choseRoute fuel solution : Program K (ℤ × ℤ)) w fun _ => Each (Short N) := by
  unfold choseRoute
  refine (ends_deref solution).bind ?_
  rintro s w ⟨-, rfl⟩
  refine (ends_orThrow _).bind ?_
  rintro routes w ⟨-, rfl⟩
  split
  · refine (ends_nth _ _).bind ?_
    rintro _ w ⟨-, rfl⟩
    refine (ends_nth _ _).bind ?_
    rintro _ w ⟨-, rfl⟩
    exact .ret h
  · refine (ends_drawRoute h routes).bind fun indexes w h => ?_
    exact .repeatWhile (I := fun _ => Each (Short N)) (fun _ _ h => .ret h)
      (fun _ _ h => ends_drawRoute h routes) h

theorem ends_drawCities (h : Each (Short N) w) (fuel : ℕ) (routeBegin routeEnd : ℤ) :
    Ends (drawCities fuel routeBegin routeEnd : Program K (ℤ × ℤ)) w fun _ => Each (Short N) := by
  unfold drawCities
  refine ((draws_short N).nextInt h _ _).bind fun cityA w h => ?_
  refine ((draws_short N).nextInt h _ _).bind fun cityB w h => ?_
  refine Ends.bind (Q := fun _ => Each (Short N)) ?_ fun _ _ h => .ret h
  exact .repeatWhile (I := fun _ => Each (Short N)) (fun _ _ h => .ret h)
    (fun _ _ h => (draws_short N).nextInt h _ _) h

theorem ends_swapInsideRoute (h : Each (Short N) w) (fuel : ℕ) (solution : Ref)
    (motionsCount : ℤ) :
    Ends (VRTWSwapInsideRouteSolutionModifier.modify fuel solution motionsCount) w fun _ =>
      Each (Short N) := by
  unfold VRTWSwapInsideRouteSolutionModifier.modify
  refine (each_clone (short_lasts N) h solution).bind fun modified w h => ?_
  refine .foldlM (I := fun _ => Each (Short N)) h fun _ _ modified w h => ?_
  unfold VRTWSwapInsideRouteSolutionModifier.motion
  refine (ends_choseRoute h fuel modified).bind fun route w h => ?_
  unfold swapInsideRoute
  exact (ends_drawCities h fuel _ _).bind fun cities w h => ends_movement h modified _

end InsideRoute

theorem modifiesOwn_short (fuel : ℕ) (m : VRTWModifier) :
    ModifiesOwn (Each (Short N)) (fun _ => True) (m.toSolutionModifier (K := K) fuel) := by
  intro w r n h _
  cases m with
  | vrtwSwapInsideRoute =>
      exact (ends_swapInsideRoute h fuel r n).mono fun _ _ h => ⟨trivial, h⟩
  | vrtwSwapBetweenRoute =>
      show Ends (do nonNull (← VRTWSwapBetweenRouteSolutionModifier.modify r)) w _
      refine Ends.bind (Q := fun _ => Each (Short N)) ?_ fun x w h => ?_
      · unfold VRTWSwapBetweenRouteSolutionModifier.modify
        refine (ends_deref r).bind ?_
        rintro s w ⟨-, rfl⟩
        refine (ends_orThrow _).bind ?_
        rintro _ w ⟨-, rfl⟩
        exact .ret h
      · refine (ends_nonNull x).mono ?_
        rintro _ w ⟨-, rfl⟩
        exact ⟨trivial, h⟩
  | otherSolutionClass => exact .throws _

end Vectors

/-! ## The construction -/

section Construction

variable {K : Type} [RealArith K] {N : ℕ} {w : World K}

/-- The vector under construction has room for the candidates that are left. -/
structure Room (N : ℕ) (solution : Ref) (candidates : List (Element K)) (w : World K) : Prop where
  short : Each (Short N) w
  room : ∀ s, w.solutions[solution]? = some s →
    s.solutionsVector.length + candidates.length < N

variable {solution : Ref} {candidates : List (Element K)}

theorem Room.of_eq {w' : World K} (h : Room N solution candidates w)
    (hsolutions : w'.solutions = w.solutions) : Room N solution candidates w' where
  short := h.short.of_eq hsolutions
  room s hs := h.room s (hsolutions ▸ hs)

theorem Room.nil (h : Each (Short N) w) : Room N solution [] w where
  short := h
  room s hs := h s (List.mem_of_getElem? hs)

theorem ends_adaptiveFunctionValue (r : Ref) (e : Element K) :
    Ends (adaptiveFunctionValue r e) w fun _ w' => w'.solutions = w.solutions := by
  unfold adaptiveFunctionValue
  refine (ends_deref r).bind ?_
  rintro s w ⟨-, rfl⟩
  refine (Ends.reads (Q := fun v w' => v = w ∧ w' = w) ⟨rfl, rfl⟩).bind ?_
  rintro v w' ⟨rfl, rfl⟩
  exact (ends_answered _).mono fun _ _ ⟨_, hw'⟩ => hw'

theorem ends_adaptiveFunctionValues (solution : Ref) (candidates : List (Element K)) :
    Ends (GRASP.adaptiveFunctionValues solution candidates) w fun values w' =>
      (∀ entry ∈ values, entry.1 ∈ candidates) ∧ w'.solutions = w.solutions := by
  unfold GRASP.adaptiveFunctionValues
  refine Ends.bind (Q := fun values w' =>
    (∀ entry ∈ values, entry.1 ∈ candidates) ∧ w'.solutions = w.solutions)
    (.foldlM ⟨by simp, rfl⟩ fun e he values w₁ ⟨hvalues, hw₁⟩ => ?_)
    fun values w₁ ⟨hvalues, hw₁⟩ => ?_
  · refine (ends_adaptiveFunctionValue solution e).bind fun value w₂ hw₂ => ?_
    cases value with
    | none => exact .ret ⟨hvalues, hw₂.trans hw₁⟩
    | some value =>
        refine (ends_adaptiveFunctionValue solution e).bind fun value w₃ hw₃ => ?_
        refine (ends_nonNull _).bind ?_
        rintro x w₃ ⟨-, rfl⟩
        split
        · exact .ret ⟨hvalues, hw₃.trans (hw₂.trans hw₁)⟩
        · refine .ret ⟨fun entry hentry => ?_, hw₃.trans (hw₂.trans hw₁)⟩
          rcases List.mem_append.1 hentry with hentry | hentry
          · exact hvalues entry hentry
          · rw [List.mem_singleton.1 hentry]
            exact he
  · refine ((draws_solutions w).pick hw₁ _ _).mono ?_
    rintro ys w₂ ⟨⟨-, hdrawn⟩, hw₂⟩
    exact ⟨fun entry hentry => hvalues entry (hdrawn.mem hentry), hw₂⟩

theorem Room.addElement (h : Room N solution candidates w) {e : Element K}
    (he : e ∈ candidates) :
    Ends (Heuristics.addElement solution e) w fun _ =>
      Room N solution (candidates.erase e) := by
  unfold Heuristics.addElement
  refine (ends_deref solution).bind ?_
  rintro s w ⟨hs, rfl⟩
  have hroom := h.room s hs
  have herase := List.length_erase_add_one he
  have hgrown : (s.solutionsVector ++ [some e]).length + (candidates.erase e).length < N := by
    rw [List.length_append, List.length_singleton]
    omega
  split
  · exact (Ends.throws _).bind fun _ _ h => h
  · refine .modifies ⟨?_, fun t ht => ?_⟩
    · refine h.short.set ?_ (modify_eq_set hs _)
      exact lt_of_le_of_lt (Nat.le_add_right _ _) hgrown
    · rw [List.getElem?_modify_eq, hs] at ht
      obtain rfl := Option.some.inj ht
      exact hgrown

theorem ends_construct (this : GRASP K) (h : Room N solution candidates w) :
    Ends (GRASP.construct this solution candidates) w (Room N solution) := by
  unfold GRASP.construct
  refine (ends_adaptiveFunctionValues solution candidates).bind ?_
  rintro values w₁ ⟨hvalues, hw₁⟩
  have h₁ := h.of_eq hw₁
  split
  · refine (ends_nonNull _).bind ?_
    rintro alpha w₁ ⟨-, rfl⟩
    dsimp only
    split
    · exact .ret (Room.nil h₁.short)
    · refine ((draws_solutions _).nextInt rfl _ _).bind fun index w₂ hw₂ => ?_
      refine (ends_nth _ _).bind ?_
      rintro e w₂ ⟨he, rfl⟩
      have hmem : e ∈ candidates := by
        obtain ⟨entry, hentry, rfl⟩ := List.mem_map.1 (List.mem_of_getElem? he)
        exact hvalues entry (List.mem_filter.1 hentry).1
      exact ((h₁.of_eq hw₂).addElement hmem).bind fun _ w₃ hw₃ => .ret hw₃
  · exact .ret (Room.nil h₁.short)

end Construction

/-! ## Runs on routes -/

section Runs

variable {K : Type} [RealArith K] {p : VehicleRoutingTimeWindowProblem K} {infinity : K}
  {this : GRASP K} {w : World K}

structure FollowsRoutes (this : GRASP K) (p : VehicleRoutingTimeWindowProblem K) (infinity : K) :
    Prop where
  problem : this.problem = p.toProblem infinity
  candidatesList : ∀ c, this.candidatesList = some c → c = p.vrtwCandidatesList
  neighbor : ∀ l m, this.localSearch = some l → l.neighbor = some m →
    ∃ fuel, ∃ v : VRTWModifier, m = v.toSolutionModifier fuel

theorem ends_getCandidates (hclients : 1 ≤ p.clients) :
    Ends p.vrtwCandidatesList.getCandidates w fun candidates w' =>
      candidates.length < p.dimension ∧ w'.solutions = w.solutions := by
  refine ((returns_nextInt (by omega)).ends).bind ?_
  rintro trucks w' ⟨hlower, hupper, hw'⟩
  refine .ret ⟨?_, hw'⟩
  rw [List.length_append, List.length_map, List.length_range, List.length_replicate]
  unfold VehicleRoutingTimeWindowProblem.dimension
  omega

theorem ends_construcao (h : FollowsRoutes this p infinity) (hclients : 1 ≤ p.clients)
    (hw : Each (Short p.dimension) w) (fuel : ℕ) :
    Ends (GRASP.construcao this fuel) w fun _ => Each (Short p.dimension) := by
  have hdimension : 0 < p.dimension := Nat.mul_pos Nat.two_pos hclients
  unfold GRASP.construcao
  rw [h.problem]
  refine (ends_buildSolution _).bind ?_
  rintro solution w₁ ⟨hsolution, id, hw₁⟩
  refine (ends_nonNull _).bind ?_
  rintro c w₁ ⟨hc, rfl⟩
  rw [h.candidatesList c hc]
  refine (ends_getCandidates hclients).bind ?_
  rintro candidates w₂ ⟨hlength, hw₂⟩
  have hroom : Room p.dimension solution candidates w₂ := by
    have hbuilt : Short p.dimension (Solution.built (p.toProblem infinity) id) := hdimension
    refine Room.of_eq ⟨hw.append hbuilt hw₁, fun s hs => ?_⟩ hw₂
    rw [hw₁, hsolution, List.getElem?_concat_length] at hs
    obtain rfl := Option.some.inj hs
    exact (Nat.zero_add _).symm ▸ hlength
  refine Ends.bind (Q := Room p.dimension solution) ?_ fun _ w₃ hw₃ => .ret hw₃.short
  exact .repeatWhile (I := Room p.dimension solution) (fun _ _ hw => .ret hw)
    (fun _ _ hw => ends_construct this hw) hroom

theorem run_keeps_short (h : FollowsRoutes this p infinity) (hclients : 1 ≤ p.clients)
    (hw : Each (Short p.dimension) w) (fuel : ℕ) (solutionList : List Ref) (context : Context) :
    Ends (MetaHeuristic.processMetaHeuristic fuel solutionList context) (.grasp this, w)
      fun _ s => Each (Short p.dimension) s.2 := by
  have hdimension : 0 < p.dimension := Nat.mul_pos Nat.two_pos hclients
  have hbuilt : ∀ id, Short p.dimension (Solution.built this.problem id) := by
    rw [h.problem]
    exact fun _ => hdimension
  have hobserves := (short_lasts p.dimension).observes hbuilt context
  unfold MetaHeuristic.processMetaHeuristic
  refine ends_call (Q := fun _ w' => Each (Short p.dimension) w') (.modifies (hw.of_eq rfl)) ?_
  rintro ⟨⟩ w hw
  refine Ends.onState (S := fun _ s => Each (Short p.dimension) s.2) ?_
  refine (GRASP.keeps_run hobserves (fun l hl m hm => ?_) (fun w hw => ?_) hw
    solutionList).mono fun _ _ hend => hend.2
  · obtain ⟨fuel', v, rfl⟩ := h.neighbor l m hl hm
    exact modifiesOwn_short fuel' v
  · exact (ends_construcao h hclients hw fuel).mono fun _ _ hw => ⟨trivial, hw⟩

end Runs

/-! ## What a region does with a route -/

section Regions

variable {K : Type} [RealArith K]

def asStored (agent : Option ℕ) (s : Solution K) : Core.Solution K :=
  { id := s.id
    agent
    solutionsVector := s.solutionsVector.map fun e => e.map Element.toDoubleValue
    functionValue := s.functionValue
    viable := s.viable
    changed := s.changed }

omit [RealArith K] in
theorem length_collect {xs : List (Option K)} {row : List K}
    (h : Core.Solution.toDoubleArray.collect xs = some row) : row.length = xs.length := by
  induction xs generalizing row with
  | nil =>
      cases h
      rfl
  | cons x xs ih =>
      cases x with
      | none => cases h
      | some x =>
          obtain ⟨tail, htail, rfl⟩ := Option.map_eq_some_iff.1 h
          rw [List.length_cons, List.length_cons, ih htail]

theorem Short.not_storable {d : ℕ} {s : Solution K} (h : Short d s) (agent : Option ℕ) :
    ¬(asStored agent s).Storable d := by
  rintro ⟨-, row, hrow, hlength⟩
  have hsame := length_collect hrow
  unfold Short at h
  rw [hlength, asStored, List.length_map] at hsame
  omega

/-- However a run of GRASP on a routing problem ends normally, its solutions stay shorter
than the problem's dimension, and no region of that dimension takes a list with one of them
in it. -/
theorem run_fits_no_region {this : GRASP K} {p : VehicleRoutingTimeWindowProblem K} {infinity : K}
    (h : FollowsRoutes this p infinity) (hclients : 1 ≤ p.clients) {w : World K}
    (hw : ∀ s ∈ w.solutions, s.solutionsVector.length < p.dimension) (context : Context)
    (fuel : ℕ) (solutionList : List Ref) {result : Option (List Ref)}
    {s : MetaHeuristic K × World K}
    (hrun : MetaHeuristic.processMetaHeuristic fuel solutionList context (.grasp this, w) =
      .ok result s) :
    ∀ t ∈ s.2.solutions, t.solutionsVector.length < p.dimension ∧
      ∀ (agent : Option ℕ) (r : Region K), r.Consistent → r.problem.dimension = p.dimension →
        ∀ solutions, asStored agent t ∈ solutions →
          (r.addSolutionsCollection solutions).2 ≠ none := by
  intro t ht
  have hshort := run_keeps_short h hclients hw fuel solutionList context result s hrun t ht
  refine ⟨hshort, fun agent r hr hdimension solutions hmem => ?_⟩
  refine Region.addSolutionsCollection_not_storable hr fun hall => ?_
  have hstorable := hall _ hmem
  rw [hdimension] at hstorable
  exact hshort.not_storable agent hstorable

end Regions

section Example

open RouteConstruction (emptyWorld)
open SwapInsideRoute (threeClients threeClientsConstruction)
open DifferentialEvolution (returns of_returns)

def exampleSearch : GRASP ℚ :=
  { threeClientsConstruction with
    localSearch := some
      { name := .random
        neighbor := some (VRTWModifier.vrtwSwapInsideRoute.toSolutionModifier 3)
        iterationsLocalSearchCount := 1 } }

theorem exampleSearch_followsRoutes : FollowsRoutes exampleSearch threeClients 1000 where
  problem := rfl
  candidatesList _ hc := (Option.some.inj hc).symm
  neighbor _ m hl hm := by
    cases hl
    exact ⟨3, .vrtwSwapInsideRoute, (Option.some.inj hm).symm⟩

def sixElements : Region ℚ := Region.new 0 ⟨1, 6, .vehicleRoutingTimeWindow⟩ ⟨2, 10⟩

theorem run_fits_no_region_example : ∃ r s t,
    MetaHeuristic.processMetaHeuristic 7 [] none (.grasp exampleSearch, emptyWorld) =
      .ok (some [r]) s ∧
    s.2.solutions[r]? = some t ∧ t.solutionsVector.length < threeClients.dimension ∧
    (sixElements.addSolutionsCollection [asStored none t]).2 ≠ none := by
  obtain ⟨r, s, hrun, hcheck⟩ := of_returns (c := fun r s => (s.2.solutions[r]?).isSome)
    (show returns _ (MetaHeuristic.processMetaHeuristic 7 [] none
      (.grasp exampleSearch, emptyWorld)) = true by decide +kernel)
  obtain ⟨t, ht⟩ := Option.isSome_iff_exists.1 hcheck
  obtain ⟨hshort, hrejects⟩ := run_fits_no_region exampleSearch_followsRoutes (by decide)
    (by simp [emptyWorld]) none 7 [] hrun t (List.mem_of_getElem? ht)
  exact ⟨r, s, t, hrun, ht, hshort, hrejects none _ (Region.consistent_new 0 _ _) rfl _
    (List.mem_singleton_self _)⟩

end Example

end DOptimas.Proofs.RouteStorage
