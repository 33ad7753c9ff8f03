import DOptimas.Actors.RegionActor
/-!
# What each region handler does

One lemma for each handler of the region actor: the messages it sends and the
state it ends in, or the failure, by the fields that it finds.
-/

namespace DOptimas.Actors.RegionActor

open DOptimas.Support DOptimas.Core Handler

variable {K : Type} {n m : ℕ} (id : Fin n) (sender : ActorRef n m) {s : RegionActor K n m}
  {leader : ActorRef n m} {p : Problem} {r : Region K}

theorem problemToString_none (h : s.problem = none) :
    problemToString s = .fail (.nullPointer .problem) s := by
  simp [problemToString, deref_none h]

theorem problemToString_some (h : s.problem = some p) : problemToString s = .ret () s := by
  simp [problemToString, deref_some h]

theorem tellLeader_some (h : s.leader = some leader) (message : Message K n m) :
    tellLeader id message s = .tell leader (self id) message (.ret () s) := by
  simp [tellLeader, deref_some h]

theorem cancelTask_none (h : s.internalTask = none) :
    cancelTask s = .fail (.nullPointer .timer) s := by
  simp [cancelTask, deref_none h]

theorem cancelTask_some {t : Timer} (h : s.internalTask = some t) :
    cancelTask s = .ret () { s with internalTask := some .cancelled } := by
  simp [cancelTask, deref_some h]

/-! ## Adding solutions -/

theorem forEach_solutionState (hp : s.problem = some p) {ss : List (Solution K)}
    (hss : ∀ t ∈ ss, t.Storable r.problem.dimension) :
    forEach ss solutionState s = .ret () s := by
  induction ss with
  | nil => rfl
  | cons t ts ih =>
      obtain ⟨hvalue, row, hrow, -⟩ := hss t List.mem_cons_self
      obtain ⟨v, hv⟩ := Option.isSome_iff_exists.1 hvalue
      have htail := ih fun u hu => hss u (List.mem_cons_of_mem t hu)
      simp [solutionState, hrow, hv, problemToString_some hp, htail]

theorem addSolutions_missing [RealArith K] (h : s.region = none) (ss : List (Solution K)) :
    addSolutions id ss s = .fail (.nullPointer .region) s := by
  simp [addSolutions, deref_none h]

def stored (s : RegionActor K n m) (r : Region K) : RegionActor K n m :=
  { s with region := some r, saved := some ⟨some r, s.leader, s.globalSummary⟩ }

/-- Solutions that the region can store are added, saved and reported. -/
theorem addSolutions_storable [RealArith K] (hp : s.problem = some p)
    (hl : s.leader = some leader) (hregion : s.region = some r) (hr : r.Consistent)
    {ss : List (Solution K)} (hss : ∀ t ∈ ss, t.Storable r.problem.dimension)
    (hbest : r.bestSolution ≠ none ∨ ss ≠ []) :
    ∃ r', r'.Consistent ∧ r'.solutionList = r.solutionList ++ ss ∧ Region.SameRegion r r' ∧
      r'.bestSolution ≠ none ∧
      addSolutions id ss s =
        .tell leader (self id) (.updateRegionSummary id r'.summary) (.ret () (stored s r')) := by
  obtain ⟨r', hadd, hr', hlist, hsame, hnone⟩ := Region.addSolutionsCollection_storable hr hss
  have hbest' : r'.bestSolution ≠ none := by
    intro h
    obtain ⟨hold, hempty⟩ := hnone.1 h
    rw [hlist] at hempty
    rcases hbest with hb | hb
    · exact hb hold
    · exact hb (List.append_eq_nil_iff.1 hempty).2
  obtain ⟨b, hb⟩ := Option.ne_none_iff_exists'.1 hbest'
  refine ⟨r', hr', hlist, hsame, hbest', ?_⟩
  have hp' : (stored s r').problem = some p := hp
  have hl' : (stored s r').leader = some leader := hl
  have hregion' : (stored s r').region = some r' := rfl
  have hcollect : (collect r ss : RegionReceive K n m) s =
      .ret () { s with region := some r' } := by
    simp [collect, hadd]
  have hsave : (saveSnapshot : RegionReceive K n m) { s with region := some r' } =
      .ret () (stored s r') := rfl
  have hrecord : (regionState : RegionReceive K n m) (stored s r') = .ret () (stored s r') := by
    simp [regionState, deref_some hregion', problemToString_some hp', hb]
  have hreport : reportSummary id (stored s r') =
      .tell leader (self id) (.updateRegionSummary id r'.summary) (.ret () (stored s r')) := by
    simp [reportSummary, deref_some hregion', tellLeader_some id hl', problemToString_some hp']
  simp [addSolutions, deref_some hregion, hcollect, hsave,
    forEach_solutionState (r := r) hp' hss, hrecord, hreport]

/-- A solution that the region cannot store makes the handler throw, before
anything has been saved or sent. -/
theorem addSolutions_not_storable [RealArith K] (hregion : s.region = some r)
    (hr : r.Consistent) {ss : List (Solution K)}
    (hss : ¬∀ t ∈ ss, t.Storable r.problem.dimension) :
    ∃ e s', addSolutions id ss s = .fail e s' ∧ e.BadSolution ∧ s'.saved = s.saved := by
  have hfail := Region.addSolutionsCollection_not_storable hr hss
  obtain ⟨e, he⟩ := Option.ne_none_iff_exists'.1 hfail
  refine ⟨e, { s with region := some (r.addSolutionsCollection ss).1 }, ?_,
    Region.addSolutionsCollection_failure he, rfl⟩
  simp [addSolutions, deref_some hregion, collect, he]

/-! ## The handlers -/

def created (s : RegionActor K n m) (sender : ActorRef n m) (time : ℕ) (r : Region K) :
    RegionActor K n m :=
  { problem := some r.problem
    region := some r
    leader := some sender
    globalSummary := s.globalSummary
    internalTask := some .scheduled
    time
    regionStarted := true
    saved := some ⟨some r, some sender, s.globalSummary⟩ }

theorem onCreate_storable [RealArith K] (settings : RegionSettings) (time : ℕ)
    {ss : List (Solution K)} (hss : ∀ t ∈ ss, t.Storable p.dimension) (hne : ss ≠ []) :
    ∃ r, r.Consistent ∧ r.solutionList = ss ∧ r.problem = p ∧ r.regionSettings = settings ∧
      r.bestSolution ≠ none ∧
      onCreate id sender settings ss time p s =
        .tell sender (self id) (.updateRegionSummary id r.summary)
          (.tell sender (self id) (.regionRegister id r.summary)
            (.ret () (created s sender time r))) := by
  let s₀ : RegionActor K n m :=
    { s with
      problem := some p
      time := time
      region := some (Region.new id p settings)
      leader := some sender }
  have hadd := addSolutions_storable id (s := s₀) (p := p) rfl rfl rfl
    (Region.consistent_new id.val p settings) hss (Or.inr hne)
  obtain ⟨r, hr, hlist, hsame, hbest, hprocess⟩ := hadd
  have hprob : r.problem = p := hsame.problem
  refine ⟨r, hr, by simpa [Region.new] using hlist, hprob, hsame.regionSettings, hbest, ?_⟩
  have hregion : (stored s₀ r).region = some r := rfl
  have hcreated : ((saveSnapshot : RegionReceive K n m)
      { stored s₀ r with internalTask := some .scheduled, regionStarted := true }) =
      .ret () (created s sender time r) := by
    simp [saveSnapshot, snapshot, created, stored, hprob, s₀]
  simp only [onCreate, initializeRegion, bind_apply, update_apply, Process.ret_bind]
  rw [show addSolutions id ss _ = _ from hprocess]
  simp [deref_some hregion, hcreated]

theorem onCreate_not_storable [RealArith K] (settings : RegionSettings) (time : ℕ)
    {ss : List (Solution K)} (hss : ¬∀ t ∈ ss, t.Storable p.dimension) :
    ∃ e s', onCreate id sender settings ss time p s = .fail e s' ∧ e.BadSolution ∧
      s'.saved = s.saved := by
  let s₀ : RegionActor K n m :=
    { s with
      problem := some p
      time := time
      region := some (Region.new id p settings)
      leader := some sender }
  obtain ⟨e, s', hprocess, he, hsaved⟩ := addSolutions_not_storable id (s := s₀) rfl
    (Region.consistent_new id.val p settings) hss
  refine ⟨e, s', ?_, he, hsaved⟩
  simp only [onCreate, initializeRegion, bind_apply, update_apply, Process.ret_bind]
  rw [show addSolutions id ss _ = _ from hprocess]
  simp

theorem onCreate_empty [RealArith K] (settings : RegionSettings) (time : ℕ) :
    ∃ s', onCreate id sender settings [] time p s = .fail (.nullPointer .bestSolution) s' := by
  refine ⟨{ s with
    problem := some p
    time := time
    region := some (Region.new id p settings)
    leader := some sender
    saved := some ⟨some (Region.new id p settings), some sender, s.globalSummary⟩ }, ?_⟩
  simp [onCreate, initializeRegion, addSolutions, deref, collect, regionState, problemToString,
    saveSnapshot, snapshot, Region.addSolutionsCollection, Region.addEach,
    SolutionAnalyser.reduceBest, Region.new]

def stopped (s : RegionActor K n m) (r : Region K) : RegionActor K n m :=
  { s with internalTask := some .cancelled, region := some r.clear, regionStarted := false }

theorem onStopSimulation_some {t : Timer} (ht : s.internalTask = some t)
    (hr : s.region = some r) :
    onStopSimulation id sender s =
      .tell sender (self id) (.regionRelease id) (.ret () (stopped s r)) := by
  have hr' : ({ s with internalTask := some .cancelled } : RegionActor K n m).region = some r := hr
  simp [onStopSimulation, cancelTask_some ht, deref_some hr', stopped]

theorem onStopSimulation_no_timer (ht : s.internalTask = none) :
    onStopSimulation id sender s = .fail (.nullPointer .timer) s := by
  simp [onStopSimulation, cancelTask_none ht]

theorem onStopSimulation_no_region {t : Timer} (ht : s.internalTask = some t)
    (hr : s.region = none) :
    onStopSimulation id sender s =
      .fail (.nullPointer .region) { s with internalTask := some .cancelled } := by
  have hr' : ({ s with internalTask := some .cancelled } : RegionActor K n m).region = none := hr
  simp [onStopSimulation, cancelTask_some ht, deref_none hr']

theorem onUpdateGlobalSummary_none (hp : s.problem = none)
    (summary : Option (StatisticalSummary K)) (time : ℕ) :
    onUpdateGlobalSummary summary time s = .fail (.nullPointer .problem) s := by
  simp [onUpdateGlobalSummary, problemToString_none hp]

theorem onUpdateGlobalSummary_some (hp : s.problem = some p)
    (summary : Option (StatisticalSummary K)) (time : ℕ) :
    onUpdateGlobalSummary summary time s =
      .ret () { s with globalSummary := summary, time := time } := by
  simp [onUpdateGlobalSummary, problemToString_some hp]

/-- A solution request leaves the state alone: it is answered, ignored, or asks
for a sample of no elements. -/
theorem onSolutionRequest_some (hp : s.problem = some p) (hr : s.region = some r)
    (choices : List ℕ) (receiverId counter : ℤ) :
    onSolutionRequest id choices sender receiverId counter s = .ret () s ∨
    onSolutionRequest id choices sender receiverId counter s = .fail .sampleSize s ∨
    ∃ solutions, (∀ t ∈ solutions, t ∈ r.solutionList) ∧
      onSolutionRequest id choices sender receiverId counter s =
        .tell sender (self id) (.solutionResponse id receiverId solutions) (.ret () s) := by
  by_cases hsize : counter < r.solutionList.length
  · cases hsample : r.getRandomSolutions choices counter with
    | none =>
        refine Or.inr (Or.inl ?_)
        simp [onSolutionRequest, problemToString_some hp, deref_some hr, hsize, hsample]
    | some solutions =>
        refine Or.inr (Or.inr ⟨solutions, fun t ht => mem_of_mem_nextSample hsample ht, ?_⟩)
        simp [onSolutionRequest, problemToString_some hp, deref_some hr, hsize, hsample]
  · refine Or.inl ?_
    simp [onSolutionRequest, problemToString_some hp, deref_some hr, hsize]

theorem onMergeRequest_some [RealArith K] [CommonsMath K] (hp : s.problem = some p)
    (hr : s.region = some r) (senderId : Fin n) (summary : SummaryStatistics K)
    (space : MultivariateSummaryStatistics K) :
    onMergeRequest id sender senderId summary space s = .ret () s ∨
    (r.searchSpaceSummary.dimension ≠ space.dimension ∧
      onMergeRequest id sender senderId summary space s = .fail .dimensionMismatch s) ∨
    onMergeRequest id sender senderId summary space s =
      .tell sender (self id) (.mergeResponse id senderId) (.ret () s) := by
  obtain ⟨merged, hmerged⟩ := Option.isSome_iff_exists.1
    (aggregate_cons_isSome r.summary [summary])
  have hderef : (deref (.nullPointer .summary) fun _ => aggregate [r.summary, summary] :
      Receive K n m (RegionActor K n m) (StatisticalSummary K)) s = .ret merged s :=
    deref_some hmerged
  by_cases hdim : r.searchSpaceSummary.dimension = space.dimension
  · by_cases hrate : (variationRate merged).lt (variationRate r.summary.toStatisticalSummary)
    · refine Or.inr (Or.inr ?_)
      simp [onMergeRequest, problemToString_some hp, deref_some hr, hderef,
        compareMeans, hdim, hrate]
    · refine Or.inl ?_
      simp [onMergeRequest, problemToString_some hp, deref_some hr, hderef,
        compareMeans, hdim, hrate]
  · refine Or.inr (Or.inl ⟨hdim, ?_⟩)
    simp [onMergeRequest, problemToString_some hp, deref_some hr, hderef, compareMeans,
      hdim]

theorem onMergeResponse_dissolved (hp : s.problem = some p) (hr : s.region = none)
    (senderId : Fin n) : onMergeResponse id sender senderId s = .ret () s := by
  simp [onMergeResponse, problemToString_some hp, hr]

def dissolved (s : RegionActor K n m) : RegionActor K n m :=
  { s with
    internalTask := some .cancelled
    region := none
    globalSummary := none
    saved := some ⟨none, s.leader, none⟩ }

theorem onMergeResponse_some {t : Timer} (hp : s.problem = some p) (hr : s.region = some r)
    (hl : s.leader = some leader) (ht : s.internalTask = some t) (senderId : Fin n) :
    onMergeResponse id sender senderId s =
      .tell sender (self id) (.mergeResult id senderId r.solutionList)
        (.tell leader (self id) (.regionRelease id) (.ret () (dissolved s))) := by
  simp [onMergeResponse, problemToString_some hp, hr, tellLeader_some id hl, stopRegion,
    cancelTask_some ht, saveSnapshot, snapshot, dissolved]

def Unbalanced [RealArith K] [CommonsMath K] (s : RegionActor K n m) : Prop :=
  ∃ r g, s.region = some r ∧ s.globalSummary = some g ∧
    (variationRate g).lt (variationRate r.summary.toStatisticalSummary) = true

theorem onInternalStimulus_balanced [RealArith K] [CommonsMath K] (h : ¬Unbalanced s) :
    onInternalStimulus id s = .ret () s := by
  cases hr : s.region with
  | none => simp [onInternalStimulus, hr]
  | some r =>
      cases hg : s.globalSummary with
      | none => simp [onInternalStimulus, hr, hg]
      | some g =>
          have hrate : ¬(variationRate g).lt (variationRate r.summary.toStatisticalSummary) :=
            fun hrate => h ⟨r, g, hr, hg, hrate⟩
          simp [onInternalStimulus, hr, hg, hrate]

theorem announceSplit_some (hp : s.problem = some p) (hl : s.leader = some leader)
    (lower higher : List (Solution K)) :
    announceSplit id [lower, higher] s =
      .tell leader (self id) (.regionSplit id lower higher)
        (.ret () { s with saved := some s.snapshot }) := by
  simp [announceSplit, tellLeader_some id hl, problemToString_some hp, saveSnapshot]

theorem announceSplit_no_problem (hp : s.problem = none) (hl : s.leader = some leader)
    (lower higher : List (Solution K)) :
    announceSplit id [lower, higher] s =
      .tell leader (self id) (.regionSplit id lower higher)
        (.fail (.nullPointer .problem) s) := by
  simp [announceSplit, tellLeader_some id hl, problemToString_none hp]

theorem onInternalStimulus_split [RealArith K] [CommonsMath K] (h : Unbalanced s)
    (hregion : s.region = some r) {kept : Region K} {lists : List (List (Solution K))}
    (hsplit : r.split = (kept, .ok lists)) :
    onInternalStimulus id s = announceSplit id lists { s with region := some kept } := by
  obtain ⟨r', g, hr', hg, hrate⟩ := h
  obtain rfl : r' = r := by simpa [hregion] using hr'.symm
  simp only [onInternalStimulus, bind_apply, get_apply, Process.ret_bind, hregion, hg, hrate,
    if_true, hsplit, update_apply]

theorem onInternalStimulus_unbalanced [RealArith K] [CommonsMath K] (h : Unbalanced s)
    (hregion : s.region = some r) (hr : r.Consistent) (hl : s.leader = some leader)
    (hp : s.problem = some p) :
    ∃ kept lower higher, r.split = (kept, .ok [lower, higher]) ∧ kept.Consistent ∧
      Region.SameRegion r kept ∧
      (lower ++ higher ++ kept.solutionList).Perm r.solutionList ∧
      (kept.bestSolution = none → r.bestSolution = none) ∧
      onInternalStimulus id s =
        .tell leader (self id) (.regionSplit id lower higher) (.ret () (stored s kept)) := by
  obtain ⟨kept, lower, higher, hsplit, hkept, hsame, hperm, hbest⟩ := Region.split_consistent hr
  refine ⟨kept, lower, higher, hsplit, hkept, hsame, hperm, hbest, ?_⟩
  rw [onInternalStimulus_split id h hregion hsplit,
    announceSplit_some id (s := { s with region := some kept }) hp hl]
  rfl

theorem onInternalStimulus_no_problem [RealArith K] [CommonsMath K] (h : Unbalanced s)
    (hregion : s.region = some r) (hr : r.Consistent) (hl : s.leader = some leader)
    (hp : s.problem = none) :
    ∃ kept lower higher, onInternalStimulus id s =
      .tell leader (self id) (.regionSplit id lower higher)
        (.fail (.nullPointer .problem) { s with region := some kept }) := by
  obtain ⟨kept, lower, higher, hsplit, -⟩ := Region.split_consistent hr
  refine ⟨kept, lower, higher, ?_⟩
  rw [onInternalStimulus_split id h hregion hsplit,
    announceSplit_no_problem id (s := { s with region := some kept }) hp hl]

end DOptimas.Actors.RegionActor
