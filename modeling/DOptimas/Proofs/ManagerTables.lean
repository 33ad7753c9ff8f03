import DOptimas.Proofs.RegionSafety
import DOptimas.Support.Guarantee
/-!
# The tables of the managers

Along every run of the cluster, and on every node, whether it leads or not: no
region id is lost, the table of regions refers to the regions themselves, and a
manager that is not in the middle of a stop has the aggregate of its table of
summaries as its global statistics.
-/

namespace DOptimas.Proofs.ManagerTables

open DOptimas.Support DOptimas.Core DOptimas.Actors Handler
open SimulationActor (self SimulationReceive)

section Manager

variable {K : Type} {n m : ℕ}

structure Tabled (k : ℕ) (s : SimulationActor K n m) : Prop where
  pool : ∀ id, id ∈ s.regionsIds ∨ id ∈ s.regionUsedIds
  regions : ∀ id ref, s.regions id = some ref → ref = .actor (.region id)
  agents : ∀ id ref, s.agents id = some ref → ref = .actor (.agent id)

/-- The global statistics are those of the table, or those of the constructor. -/
def Coherent [CommonsMath K] (s : SimulationActor K n m) : Prop :=
  s.globalStatistics = aggregate s.regionsStats ∨
    (∀ id, s.regionsSummary id = none) ∧
      s.globalStatistics = some (SummaryStatistics.new : SummaryStatistics K).toStatisticalSummary

structure Booked [CommonsMath K] (k : ℕ) (s : SimulationActor K n m) : Prop where
  tabled : Tabled k s
  coherent : Coherent s

theorem tabled_new [CommonsMath K] (k : ℕ) (settings : SimulationSettings) :
    Tabled k (SimulationActor.new settings : SimulationActor K n m) where
  pool id := Or.inl (List.mem_finRange id)
  regions _ _ h := by cases h
  agents _ _ h := by cases h

theorem booked_new [CommonsMath K] (k : ℕ) (settings : SimulationSettings) :
    Booked k (SimulationActor.new settings : SimulationActor K n m) where
  tabled := tabled_new k settings
  coherent := Or.inr ⟨fun _ => rfl, rfl⟩

def Entity (dst : ActorRef n m) : Prop :=
  (∃ id, dst = .actor (.agent id)) ∨ ∃ id, dst = .actor (.region id)

def tableContract (K : Type) (n m k : ℕ) :
    Contract Failure (SimulationActor K n m) (ActorRef n m) (Message K n m) Unit :=
  Contract.plain (fun _ _ _ => True) (fun s dst _ => Tabled k s ∧ Entity dst) fun _ _ => True

/-- From `I` the handler ends in `J`. -/
abbrev Leads (k : ℕ) (I J : SimulationActor K n m → Prop) {α : Type}
    (x : SimulationReceive K n m α) : Prop :=
  Meets (tableContract K n m k) (fun s _ => I s) x fun _ s _ => J s

variable {k : ℕ} {I : SimulationActor K n m → Prop}

theorem keeps_tell (dst sender : ActorRef n m) (message : Message K n m) :
    Leads k I I (tell dst sender message) :=
  fun _ _ h => ⟨trivial, h⟩

theorem keeps_update {J : SimulationActor K n m → Prop}
    {f : SimulationActor K n m → SimulationActor K n m} (hf : ∀ s, I s → J (f s)) :
    Leads k I J (update f) :=
  fun s _ h => hf s h

theorem keeps_deref {α : Type} {e : Failure} {field : SimulationActor K n m → Option α} :
    Leads k I I (deref e field) :=
  meets_deref_const fun _ _ _ => trivial

theorem keeps_forEach {i : ℕ} {is : List (Fin i)} {body : Fin i → SimulationReceive K n m Unit}
    (h : ∀ id, Leads k I I (body id)) : Leads k I I (forEach is body) :=
  meets_forEach_const fun id _ => h id

theorem informs_keeps : SimulationActor.Informs (fun _ x => Leads k I I x) k :=
  SimulationActor.informs_of_summary fun _ _ _ _ _ _ _ h => ⟨trivial, h⟩

theorem keeps_forwardToRegions (sender : ActorRef n m) (message : Message K n m)
    (keep : ActorRef n m → Bool) :
    Leads k I I (SimulationActor.forwardToRegions sender message keep) := by
  refine meets_get_const fun s => keeps_forEach fun id => ?_
  split
  · exact meets_pure_const ()
  · split
    · exact keeps_tell _ _ _
    · exact meets_pure_const ()

theorem keeps_announceLeader {i : ℕ} (table : Fin i → Option (ActorRef n m)) :
    Leads k I I (SimulationActor.announceLeader k table) := by
  refine keeps_forEach fun id => ?_
  split
  · exact meets_pure_const ()
  · exact keeps_tell _ _ _

/-! ## The pool of region ids -/

theorem Tabled.of_eq {s t : SimulationActor K n m} (h : Tabled k s)
    (hids : t.regionsIds = s.regionsIds) (hused : t.regionUsedIds = s.regionUsedIds)
    (hregions : t.regions = s.regions) (hagents : t.agents = s.agents) : Tabled k t where
  pool id := by
    rw [hids, hused]
    exact h.pool id
  regions id ref hid := h.regions id ref (hregions ▸ hid)
  agents id ref hid := h.agents id ref (hagents ▸ hid)

theorem Tabled.releaseId {s : SimulationActor K n m} (h : Tabled k s) (id : Fin n) :
    Tabled k
      { s with regionsIds := s.regionsIds ++ [id], regionUsedIds := s.regionUsedIds.erase id } where
  pool i := by
    by_cases hi : i = id
    · exact Or.inl (List.mem_append_right _ (hi ▸ List.mem_singleton_self i))
    · rcases h.pool i with hfree | hused
      · exact Or.inl (List.mem_append_left _ hfree)
      · exact Or.inr ((List.mem_erase_of_ne hi).2 hused)
  regions := h.regions
  agents := h.agents

theorem Tabled.forgetRegion {s : SimulationActor K n m} (h : Tabled k s) (id : Fin n) :
    Tabled k
      { s with
        regions := Function.update s.regions id none
        regionsSummary := Function.update s.regionsSummary id none } where
  pool := h.pool
  regions i ref hi := by
    change Function.update s.regions id none i = some ref at hi
    by_cases hne : i = id
    · subst hne
      rw [Function.update_self] at hi
      cases hi
    · rw [Function.update_of_ne hne] at hi
      exact h.regions i ref hi
  agents := h.agents

theorem Tabled.register {s : SimulationActor K n m} (h : Tabled k s) (id : Fin n)
    (summary : Fin n → Option (SummaryStatistics K)) :
    Tabled k
      { s with
        regions := Function.update s.regions id (some (.actor (.region id)))
        regionsSummary := summary } where
  pool := h.pool
  regions i ref hi := by
    change Function.update s.regions id _ i = some ref at hi
    by_cases hne : i = id
    · subst hne
      rw [Function.update_self] at hi
      exact (Option.some.inj hi).symm
    · rw [Function.update_of_ne hne] at hi
      exact h.regions i ref hi
  agents := h.agents

theorem Tabled.registerAgent {s : SimulationActor K n m} (h : Tabled k s) (id : Fin m) :
    Tabled k { s with agents := Function.update s.agents id (some (.actor (.agent id))) } where
  pool := h.pool
  regions := h.regions
  agents i ref hi := by
    change Function.update s.agents id _ i = some ref at hi
    by_cases hne : i = id
    · subst hne
      rw [Function.update_self] at hi
      exact (Option.some.inj hi).symm
    · rw [Function.update_of_ne hne] at hi
      exact h.agents i ref hi

theorem Tabled.releaseAgent {s : SimulationActor K n m} (h : Tabled k s) (id : Fin m)
    (ids used : List (Fin m)) :
    Tabled k
      { s with
        agents := Function.update s.agents id none, agentsUsedIds := used, agentsIds := ids } where
  pool := h.pool
  regions := h.regions
  agents i ref hi := by
    change Function.update s.agents id none i = some ref at hi
    by_cases hne : i = id
    · subst hne
      rw [Function.update_self] at hi
      cases hi
    · rw [Function.update_of_ne hne] at hi
      exact h.agents i ref hi

theorem Tabled.nextRegionId {s : SimulationActor K n m} (h : Tabled k s) {id : Fin n}
    {ids : List (Fin n)} (hids : s.regionsIds = id :: ids) :
    Tabled k { s with regionsIds := ids, regionUsedIds := s.regionUsedIds ++ [id] } where
  pool i := by
    rcases h.pool i with hfree | hused
    · rw [hids] at hfree
      rcases List.mem_cons.1 hfree with rfl | hfree
      · exact Or.inr (List.mem_append_right _ (List.mem_singleton_self _))
      · exact Or.inl hfree
    · exact Or.inr (List.mem_append_left _ hused)
  regions := h.regions
  agents := h.agents

theorem keeps_releaseId (id : Fin n) :
    Leads k (Tabled k) (Tabled k) (SimulationActor.releaseId id : SimulationReceive K n m Unit) :=
  keeps_update fun _ h => h.releaseId id

theorem keeps_nextRegionId [CommonsMath K] :
    Leads k (Booked k) (Booked k)
      (SimulationActor.nextRegionId : SimulationReceive K n m (Option (Fin n))) := by
  refine meets_get_bind fun s => ?_
  split
  next hids => exact fun _ _ h => h.2
  next id ids hids =>
    rintro _ _ ⟨rfl, h⟩
    exact ⟨h.tabled.nextRegionId hids, h.coherent⟩

/-! ## The clock and a stop -/

section Clock

variable [CommonsMath K] {settings : SimulationSettings} {stop : SimulationReceive K n m Unit}

theorem keeps_resetRegionsData :
    Leads k (Tabled k) (Booked k)
      (SimulationActor.resetRegionsData : SimulationReceive K n m Unit) := by
  refine Meets.bind (Q := fun _ s _ => Tabled k s) (keeps_forEach fun id => ?_) fun _ => ?_
  · refine meets_get_const fun s => ?_
    split
    · exact meets_pure_const ()
    · exact keeps_releaseId id
  · exact keeps_update fun s h => ⟨h.of_eq rfl rfl rfl rfl, Or.inl rfl⟩

theorem keeps_increaseTime (hstop : Leads k (Tabled k) (Tabled k) stop) :
    Leads k (Tabled k) (Tabled k) (SimulationActor.increaseTime settings k stop) := by
  refine Meets.bind (Q := fun _ s _ => Tabled k s)
    (keeps_update fun s h => h.of_eq rfl rfl rfl rfl) fun _ => meets_get_const fun s => ?_
  split
  · refine Meets.bind hstop fun _ => Meets.bind keeps_resetRegionsData fun _ =>
      Meets.bind (Q := fun _ s _ => Tabled k s)
        (keeps_update fun s h => h.tabled.of_eq rfl rfl rfl rfl) fun _ => ?_
    exact meets_get_const fun s => keeps_tell _ _ _
  · exact meets_pure_const ()

omit [CommonsMath K] in
theorem keeps_logStatistics : Leads k I I (SimulationActor.logStatistics settings) := by
  unfold SimulationActor.logStatistics
  split
  · exact Meets.bind keeps_deref fun _ => meets_pure_const ()
  · exact meets_pure_const ()

/-- Whatever the clock has done, the statistics are computed anew. -/
theorem keeps_calculateGlobalParameters (hstop : Leads k (Tabled k) (Tabled k) stop) :
    Leads k (Tabled k) (Booked k) (SimulationActor.calculateGlobalParameters settings k stop) :=
  Meets.bind (keeps_increaseTime hstop) fun _ =>
    Meets.bind (Q := fun _ s _ => Booked k s)
      (keeps_update fun _ h => ⟨h.of_eq rfl rfl rfl rfl, Or.inl rfl⟩) fun _ =>
    Meets.bind informs_keeps.updateRegions fun _ => Meets.bind informs_keeps.updateAgents fun _ =>
      keeps_logStatistics

theorem keeps_onRegionRelease (hstop : Leads k (Tabled k) (Tabled k) stop) (id : Fin n) :
    Leads k (Tabled k) (Booked k) (SimulationActor.onRegionRelease settings k stop id) :=
  Meets.bind (keeps_releaseId id) fun _ =>
    Meets.bind (Q := fun _ s _ => Tabled k s) (keeps_update fun _ h => h.forgetRegion id) fun _ =>
    keeps_calculateGlobalParameters hstop

omit [CommonsMath K] in
theorem keeps_askStop {target : ActorRef n m} (htarget : Entity target) :
    Leads k (Tabled k) (Tabled k)
      (SimulationActor.askStop target : SimulationReceive K n m (Message K n m)) := by
  refine fun s g h => ⟨⟨h, htarget⟩, fun r _ => ?_⟩
  cases r with
  | none => trivial
  | some answer => exact h

omit [CommonsMath K] in
theorem keeps_stopAgents :
    Leads k (Tabled k) (Tabled k) (SimulationActor.stopAgents : SimulationReceive K n m Unit) := by
  refine keeps_forEach fun id => meets_get_bind fun s => ?_
  split
  · exact fun _ _ h => h.2
  next agent hagent =>
    rintro _ g ⟨rfl, h⟩
    exact Meets.bind (keeps_askStop (Or.inl ⟨id, h.agents id agent hagent⟩))
      (fun _ => meets_pure_const ()) _ g h

omit [CommonsMath K] in
theorem keeps_stopRegions {release : Fin n → SimulationReceive K n m Unit}
    (hrelease : ∀ id, Leads k (Tabled k) (Tabled k) (release id)) :
    Leads k (Tabled k) (Tabled k) (SimulationActor.stopRegions release) := by
  refine keeps_forEach fun id => meets_get_bind fun s => ?_
  split
  · exact fun _ _ h => h.2
  next region hregion =>
    rintro _ g ⟨rfl, h⟩
    refine Meets.bind (keeps_askStop (Or.inr ⟨id, h.regions id region hregion⟩))
      (fun answer => ?_) _ g h
    split
    · exact hrelease _
    · exact meets_pure_const ()

/-- Also when a release inside the stop stops again. -/
theorem keeps_stopAgentsAndRegions (depth : ℕ) :
    Leads k (Tabled k) (Tabled k)
      (SimulationActor.stopAgentsAndRegions settings k depth : SimulationReceive K n m Unit) := by
  induction depth with
  | zero => exact fun _ _ _ => trivial
  | succ depth ih =>
      refine Meets.bind keeps_stopAgents fun _ => keeps_stopRegions fun id => ?_
      exact (keeps_onRegionRelease ih id).weaken (fun _ _ h => h) fun _ _ _ h => h.tabled

theorem keeps_stopAll :
    Leads k (Tabled k) (Tabled k) (SimulationActor.stopAll settings k :
      SimulationReceive K n m Unit) :=
  keeps_stopAgentsAndRegions (n + 2)

end Clock

/-! ## Every handler -/

/-- A registration names the entity that it registers, also when it is passed on. -/
def Registers (sender : ActorRef n m) : Message K n m → Prop
  | .regionRegister id _ => sender = .actor (.region id)
  | .agentRegister id ref => ref = .actor (.agent id)
  | _ => True

section Handlers

variable [RealArith K] [CommonsMath K] {settings : SimulationSettings}

omit [RealArith K] in
theorem Booked.of_eq {s t : SimulationActor K n m} (h : Booked k s)
    (hids : t.regionsIds = s.regionsIds) (hused : t.regionUsedIds = s.regionUsedIds)
    (hregions : t.regions = s.regions) (hagents : t.agents = s.agents)
    (hsummary : t.regionsSummary = s.regionsSummary)
    (hglobal : t.globalStatistics = s.globalStatistics) : Booked k t where
  tabled := h.tabled.of_eq hids hused hregions hagents
  coherent := by
    unfold Coherent SimulationActor.regionsStats
    rw [hsummary, hglobal]
    exact h.coherent

theorem keeps_sendToRegion (round : K → JDouble K) (draws : List (Draw K)) (senderId : ℤ)
    (solutions : List (Solution K)) :
    Leads k I I (SimulationActor.sendToRegion k round draws senderId solutions :
      SimulationReceive K n m Unit) := by
  refine Meets.bind (Q := fun _ s _ => I s) (fun s _ h => ?_) fun id =>
    Meets.bind keeps_deref fun region => keeps_tell _ _ _
  unfold SimulationActor.selectRegion
  split
  · exact h
  · trivial
  · trivial

theorem keeps_placeHalf (round : K → JDouble K) (draws : List (Draw K))
    (solutions fallback : List (Solution K)) :
    Leads k (Booked k) (Booked k)
      (SimulationActor.placeHalf settings k round draws solutions fallback :
      SimulationReceive K n m Unit) := by
  unfold SimulationActor.placeHalf
  split
  · exact meets_pure_const ()
  · refine Meets.bind keeps_nextRegionId fun id => ?_
    split
    · exact meets_get_const fun s => keeps_tell _ _ _
    · exact keeps_sendToRegion _ _ _ _

theorem keeps_onSolutionResult (oracle : Oracle K) (solutions : List (Solution K)) :
    Leads k (Booked k) (Booked k)
      (SimulationActor.onSolutionResult settings k oracle solutions :
        SimulationReceive K n m Unit) := by
  unfold SimulationActor.onSolutionResult
  split
  · exact meets_pure_const ()
  · refine meets_get_const fun s => ?_
    split
    · refine Meets.bind keeps_nextRegionId fun id => ?_
      split
      · exact meets_pure_const ()
      · exact meets_get_const fun s => keeps_tell _ _ _
    · exact keeps_sendToRegion _ _ _ _

omit [RealArith K] in
theorem keeps_onStartSimulation (sender : ActorRef n m) (problem : Option Problem) :
    Leads k (Booked k) (Booked k)
      (SimulationActor.onStartSimulation k sender problem : SimulationReceive K n m Unit) := by
  refine Meets.bind (Q := fun _ s _ => Booked k s)
    (keeps_update fun s h => h.of_eq rfl rfl rfl rfl rfl rfl) fun _ =>
    meets_get_const fun s => Meets.bind (keeps_forEach fun id => ?_) fun _ =>
    Meets.bind (Q := fun _ s _ => Booked k s)
      (keeps_update fun s h => h.of_eq rfl rfl rfl rfl rfl rfl) fun _ => keeps_tell _ _ _
  split
  · exact meets_pure_const ()
  · exact keeps_tell _ _ _

omit [RealArith K] in
theorem keeps_onLeaderChanged (leader : Option ℕ) :
    Leads k (Booked k) (Booked k)
      (SimulationActor.onLeaderChanged k leader : SimulationReceive K n m Unit) := by
  unfold SimulationActor.onLeaderChanged
  split
  · exact keeps_update fun s h => h.of_eq rfl rfl rfl rfl rfl rfl
  · split
    · refine Meets.bind (Q := fun _ s _ => Booked k s)
        (keeps_update fun s h => h.of_eq rfl rfl rfl rfl rfl rfl) fun _ =>
        meets_get_const fun s => ?_
      split
      · exact Meets.bind (keeps_announceLeader _) fun _ => keeps_announceLeader _
      · exact meets_pure_const ()
    · exact keeps_update fun s h => h.of_eq rfl rfl rfl rfl rfl rfl

omit [RealArith K] in
theorem keeps_onStopSimulation (sender : ActorRef n m) :
    Leads k (Booked k) (Booked k)
      (SimulationActor.onStopSimulation settings k sender : SimulationReceive K n m Unit) := by
  refine meets_get_const fun s => ?_
  split
  · refine Meets.bind (keeps_stopAll.weaken (fun _ _ h => h.tabled) fun _ _ _ h => h) fun _ =>
      Meets.bind keeps_resetRegionsData fun _ => Meets.bind (Q := fun _ s _ => Booked k s)
        (keeps_update fun s h => h.of_eq rfl rfl rfl rfl rfl rfl) fun _ => ?_
    exact meets_get_const fun s => keeps_tell _ _ _
  · split
    · exact meets_pure_const ()
    · exact keeps_tell _ _ _

theorem keeps_receive (oracle : Oracle K) (sender : ActorRef n m) (message : Message K n m)
    (hregisters : Registers sender message) :
    Leads k (Booked k) (Booked k) (SimulationActor.receive settings k oracle sender message) := by
  cases message with
  | leaderChanged leader => exact keeps_onLeaderChanged leader
  | leaderResolved leader => exact keeps_update fun s h => h.of_eq rfl rfl rfl rfl rfl rfl
  | agentRegister id ref =>
      obtain rfl : ref = .actor (.agent id) := hregisters
      exact Meets.bind (Q := fun _ s _ => Booked k s)
        (keeps_update fun s h => ⟨h.tabled.registerAgent id, h.coherent⟩) fun _ =>
        informs_keeps.forwardIfLeader fun _ => keeps_tell _ _ _
  | agentRelease id =>
      exact keeps_update fun s h => ⟨h.tabled.releaseAgent id _ _, h.coherent⟩
  | regionRegister id stats =>
      obtain rfl : sender = .actor (.region id) := hregisters
      exact Meets.bind (Q := fun _ s _ => Tabled k s)
        (keeps_update fun s h => h.tabled.register id _) fun _ =>
        Meets.bind (keeps_calculateGlobalParameters keeps_stopAll) fun _ =>
        Meets.bind informs_keeps.updateRegions fun _ =>
        Meets.bind informs_keeps.updateAgents fun _ =>
        informs_keeps.forwardIfLeader fun _ => keeps_tell _ _ _
  | solutionResult solutions => exact keeps_onSolutionResult oracle solutions
  | solutionRequest i j counter => exact keeps_forwardToRegions _ _ _
  | regionSplit i lower higher =>
      exact Meets.bind (keeps_placeHalf _ _ _ _) fun _ => keeps_placeHalf _ _ _ _
  | mergeRequest i j summary space => exact keeps_forwardToRegions _ _ _
  | regionRelease id =>
      exact (keeps_onRegionRelease keeps_stopAll id).weaken (fun _ _ h => h.tabled) fun _ _ _ h => h
  | updateRegionSummary id summary =>
      exact Meets.bind (Q := fun _ s _ => Tabled k s)
        (keeps_update fun s h => h.tabled.of_eq rfl rfl rfl rfl) fun _ =>
        keeps_calculateGlobalParameters keeps_stopAll
  | startSimulation problem => exact keeps_onStartSimulation sender problem
  | stopSimulation => exact keeps_onStopSimulation sender
  | getState => exact meets_get_const fun s => keeps_tell _ _ _
  | terminate => exact fun _ _ _ => trivial
  | _ => exact meets_pure_const ()

end Handlers

end Manager

/-! ## The cluster -/

section Cluster

variable {K : Type} [RealArith K] [CommonsMath K] [MetaHeuristics K] {n m : ℕ} {d : Deployment K}

/-- Managers keep their tables, regions their representation; managers ask entities,
and agents the benchmark. -/
def books (n m : ℕ) (d : Deployment K) : Guarantee (cluster n m d) where
  idle
    | .node k, s => Booked k s
    | .region _, s => RegionActor.Sound s
    | _, _ => True
  blocked
    | .node k, s, dst => Tabled k s ∧ Entity dst
    | .agent _, _, dst => dst = .actor .benchmark
    | _, _, _ => False
  message src dst sender message := Origin src dst sender message ∧ Registers sender message

theorem ends_node (k : ℕ) (choices : Choices K) {src : Address n m} {sender : ActorRef n m}
    {message : Message K n m} {s : SimulationActor K n m}
    (hmessage : (books n m d).message src (.actor (.node k)) sender message) (hs : Booked k s) :
    (books n m d).Ends (.node k)
      (SimulationActor.receive d.settings k choices.toOracle sender message s) := by
  have hrelayed : SimulationActor.Relayed message → ∀ dst,
      (books n m d).message (.node k) dst sender message :=
    fun h dst => ⟨h.origin dst sender, hmessage.2⟩
  have hsends : SendsOnly ((books n m d).message (.node k))
      (fun dst message => ∀ j, (books n m d).message (.node k) dst (.promise (.node k) j) message)
      (SimulationActor.receive d.settings k choices.toOracle sender message) := by
    refine SimulationActor.sends_receive ?_ ?_ _ _ _ hrelayed
    · exact
        { created := fun _ _ _ _ _ hne =>
            ⟨SimulationActor.speaks_origin.created _ _ _ _ _ hne, trivial⟩
          answered := fun _ _ _ _ => ⟨SimulationActor.speaks_origin.answered _ _ _ _, trivial⟩
          starting := fun _ _ => ⟨trivial, trivial⟩
          started := fun _ => ⟨trivial, trivial⟩
          announced := fun _ => ⟨trivial, trivial⟩
          reported := fun _ _ => ⟨trivial, trivial⟩ }
    · exact
        { summary := fun _ _ _ _ _ => ⟨trivial, trivial⟩
          stopped := fun _ _ => ⟨trivial, trivial⟩
          question := fun _ _ => ⟨trivial, trivial⟩ }
  have htables : Leads k (Booked k) (Booked k)
      (SimulationActor.receive d.settings k choices.toOracle sender message) :=
    keeps_receive choices.toOracle sender message hmessage.2
  refine Process.Sat.imp ?_ ?_ ?_ ?_ ?_
    (((hsends s () trivial).both (htables s () hs)).mono fun _ _ _ h => h.2)
  · exact fun _ h => h.1
  · exact fun _ _ _ h => ⟨h.2, h.1⟩
  · exact fun _ _ _ _ => ⟨trivial, trivial⟩
  · exact fun _ _ _ => ⟨booked_new k d.settings, fun _ hout => absurd hout List.not_mem_nil⟩
  · exact fun _ => trivial

theorem ends_region (i : Fin n) (choices : Choices K) {src : Address n m} {sender : ActorRef n m}
    {message : Message K n m} {s : RegionActor K n m}
    (hmessage : (books n m d).message src (.actor (.region i)) sender message) (hs : s.Sound) :
    (books n m d).Ends (.region i)
      (RegionActor.receive i choices.choices sender message s) := by
  have hsends := RegionActor.keeps_receive (i := i) choices.choices sender message s () trivial
  have hsound := RegionActor.sat_receive i sender hs choices.choices message hmessage.1.creating
  refine Process.Sat.imp ?_ ?_ ?_ ?_ ?_ ((hsends.both hsound).mono fun _ _ _ h => h.2.1)
  · rintro ⟨dst, sender, message⟩ ⟨horigin, hsender, hsent⟩
    refine ⟨horigin, ?_⟩
    cases message with
    | regionRegister id stats =>
        obtain rfl : id = i := hsent
        exact hsender
    | agentRegister id ref => exact hsent.elim
    | _ => trivial
  · exact fun _ _ _ h => h.2.elim
  · exact fun _ _ _ _ => ⟨trivial, trivial⟩
  · exact fun _ _ h =>
      ⟨RegionActor.sound_recover h.2, fun _ hout => absurd hout List.not_mem_nil⟩
  · exact fun _ => trivial

theorem speaks_agent (j : Fin m) : AgentActor.Speaks ((books n m d).message (.agent j))
    (fun dst message => dst = .actor .benchmark ∧
      ∀ k, (books n m d).message (.agent j) dst (.promise (.agent j) k) message) j where
  registered _ := ⟨trivial, rfl⟩
  requested _ _ _ := ⟨trivial, trivial⟩
  answered _ _ := ⟨AgentActor.speaks_origin.answered (.actor .main) 0, trivial⟩
  returned _ _ := ⟨trivial, trivial⟩
  stopped _ := ⟨trivial, trivial⟩
  reported _ _ := ⟨trivial, trivial⟩
  failed _ := ⟨trivial, trivial⟩
  evaluates _ := ⟨rfl, fun _ => ⟨trivial, trivial⟩⟩

theorem books_kept : (books n m d).Kept := by
  intro a choices src sender message s hmessage hs
  cases a with
  | node k => exact ends_node k choices hmessage hs
  | region i => exact ends_region i choices hmessage hs
  | agent j =>
      exact Guarantee.ends_of_sends (G := books n m d) (a := .agent j)
        (AgentActor.sends_receive (speaks_agent j)
        d.settings.problem d.settings.hasCooperation choices.toOracle sender message)
        (fun _ => trivial) (fun _ _ _ hm => hm) (AgentActor.sends_recover (speaks_agent j)) s
  | benchmark =>
      exact Guarantee.ends_of_sends (G := books n m d) (a := .benchmark) (Q := fun _ _ => False)
        (BenchmarkActor.sends_receive ⟨⟨trivial, trivial⟩, ⟨trivial, trivial⟩,
          fun _ => ⟨trivial, trivial⟩, fun _ _ => ⟨trivial, trivial⟩⟩
          d.evaluateFunction choices.extraction sender message) (fun _ => trivial)
        (fun _ _ _ hm => hm.elim) (fun _ _ hout => absurd hout List.not_mem_nil) s
  | main =>
      exact Guarantee.ends_of_sends (G := books n m d) (a := .main) (Q := fun _ _ => False)
        (sends_mainReceive d.settings (fun _ => ⟨trivial, trivial⟩) (fun _ => ⟨trivial, trivial⟩)
          message) (fun _ => trivial) (fun _ _ _ hm => hm.elim)
        (fun _ _ hout => absurd hout List.not_mem_nil) s
  | client c => trivial
  | stray id => trivial

structure Started (c : Cluster n m d) : Prop extends Initial c where
  node : ∀ k, c.node k = .new d.settings

theorem Started.holds {c : Cluster n m d} (h : Started c) : (books n m d).Holds c where
  idle a _ := by
    cases a with
    | node k =>
        change Booked k (c.node k)
        rw [h.node k]
        exact booked_new k d.settings
    | region i =>
        change RegionActor.Sound (c.region i)
        rw [h.region i]
        exact RegionActor.sound_new
    | _ => trivial
  waiting a q next hwait := by
    rw [h.waiting a] at hwait
    cases hwait
  net p hp := by
    rw [h.net] at hp
    cases hp

/-- What timers, clients and the cluster send; a registration names its agent. -/
def Admitted (e : ClusterEvent K n m) : Prop :=
  ExternalEvent e ∧ e.Injects fun _ _ sender message => Registers sender message

theorem Admitted.injects {e : ClusterEvent K n m} (h : Admitted e) :
    e.Injects (books n m d).message := by
  obtain ⟨hexternal, hregisters⟩ := h
  cases e with
  | inject p => exact ⟨External.origin hexternal _ _ _, hregisters⟩
  | deliver src dst choices => trivial
  | expire a => trivial

variable {c : Cluster n m d} (h : Started c) {es : List (ClusterEvent K n m)}
  (hes : ∀ e ∈ es, Admitted e)
include h hes

theorem run_keeps_books : Always Config.step (books n m d).Holds c es :=
  h.holds.always books_kept fun e he => (hes e he).injects

/-- On every node and in every reachable state no region id is lost, and the entities that a
manager knows are those of their ids. -/
theorem run_keeps_tables :
    Always Config.step (fun c : Cluster n m d => ∀ k,
      (∀ id, id ∈ (c.node k).regionsIds ∨ id ∈ (c.node k).regionUsedIds) ∧
      (∀ id ref, (c.node k).regions id = some ref → ref = .actor (.region id)) ∧
      (∀ id ref, (c.node k).agents id = some ref → ref = .actor (.agent id))) c es := by
  refine (run_keeps_books h hes).mono fun c hc k => ?_
  have htabled : Tabled k (Cluster.node c k) := by
    cases hwait : c.waiting (.node k) with
    | none => exact (hc.idle _ hwait).tabled
    | some q => exact (hc.waiting _ q.1 q.2 hwait).1.1
  exact ⟨htabled.pool, htabled.regions, htabled.agents⟩

/-- Between two messages the global statistics of every manager are the aggregate of the
summaries in its table, or it knows no summary and has those of its constructor. -/
theorem run_keeps_statistics :
    Always Config.step (fun c : Cluster n m d => ∀ k, c.waiting (.node k) = none →
      (c.node k).globalStatistics = aggregate (c.node k).regionsStats ∨
        (∀ id, (c.node k).regionsSummary id = none) ∧
          (c.node k).globalStatistics =
            some (SummaryStatistics.new : SummaryStatistics K).toStatisticalSummary) c es :=
  (run_keeps_books h hes).mono fun _ hc k hwait => (hc.idle (.node k) hwait).coherent

/-- Whoever waits, waits for the benchmark, which never waits, or for an entity: a region,
which never waits, or an agent, which waits for the benchmark at most. -/
theorem run_never_waits_in_circle :
    Always Config.step (fun c : Cluster n m d => ∀ a q next, c.waiting a = some (q, next) →
      ∃ b, q = .actor b ∧ (c.waiting b = none ∨
        ∃ next', c.waiting b = some (.actor .benchmark, next') ∧
          c.waiting .benchmark = none)) c es := by
  refine (run_keeps_books h hes).mono fun c hc a q next hwait => ?_
  have hbenchmark : c.waiting .benchmark = none := by
    cases hb : c.waiting .benchmark with
    | none => rfl
    | some q => exact (hc.waiting _ q.1 q.2 hb).1.elim
  have hblocked := (hc.waiting a q next hwait).1
  cases a with
  | node k =>
      rcases hblocked.2 with ⟨id, rfl⟩ | ⟨id, rfl⟩
      · refine ⟨.agent id, rfl, ?_⟩
        cases hagent : c.waiting (.agent id) with
        | none => exact Or.inl rfl
        | some q' =>
            obtain ⟨dst, next'⟩ := q'
            obtain rfl : dst = .actor .benchmark := (hc.waiting _ _ _ hagent).1
            exact Or.inr ⟨next', rfl, hbenchmark⟩
      · refine ⟨.region id, rfl, Or.inl ?_⟩
        cases hregion : c.waiting (.region id) with
        | none => rfl
        | some q' => exact (hc.waiting _ q'.1 q'.2 hregion).1.elim
  | agent j => exact ⟨.benchmark, hblocked, Or.inl hbenchmark⟩
  | region i => exact hblocked.elim
  | benchmark => exact hblocked.elim
  | main => exact hblocked.elim
  | client c => exact hblocked.elim
  | stray id => exact hblocked.elim

end Cluster

section Example

open RegionSafety (agent early exampleDeployment exampleSolution leader quiet)

def freshCluster : Cluster 2 1 exampleDeployment :=
  Cluster.start exampleDeployment (fun _ => .new exampleDeployment.settings) (fun _ => .new)
    (.new [] 1)

theorem started_freshCluster : Started freshCluster where
  toInitial := initial_start _ _ _
  node _ := rfl

/-- Node 0 leads and creates a region, which reports and registers. -/
def freshRun : List (ClusterEvent ℚ 2 1) :=
  [.inject ⟨.client 0, leader, .actor (.client 0), .leaderChanged (some 0)⟩,
    .deliver (.client 0) leader quiet,
    .inject ⟨.agent agent, leader, .actor (.agent agent), .solutionResult [exampleSolution 1]⟩,
    .deliver (.agent agent) leader quiet,
    .deliver (.node 0) (.actor (.region early)) quiet,
    .deliver (.region early) leader quiet,
    .deliver (.region early) leader quiet]

theorem freshRun_admitted : ∀ e ∈ freshRun, Admitted e := by
  simp [freshRun, Admitted, ExternalEvent, External, Event.Injects, Registers]

def known (c : Cluster 2 1 exampleDeployment) : ℕ × List (ActorRef 2 1) :=
  ((c.node 0).globalN, (List.finRange 2).filterMap (c.node 0).regions)

theorem freshRun_known : (freshCluster.run freshRun).map known =
    some (1, [.actor (.region early)]) := by
  decide +kernel

theorem run_keeps_tables_example : ∃ c, freshCluster.run freshRun = some c ∧
    known c = (1, [.actor (.region early)]) ∧
    ∀ id, id ∈ (c.node 0).regionsIds ∨ id ∈ (c.node 0).regionUsedIds := by
  obtain ⟨c, hrun, hknown⟩ := Option.map_eq_some_iff.1 freshRun_known
  obtain ⟨hpool, -, -⟩ := (run_keeps_tables started_freshCluster freshRun_admitted).last hrun 0
  exact ⟨c, hrun, hknown, hpool⟩

theorem run_keeps_statistics_example : ∃ c, freshCluster.run freshRun = some c ∧
    known c = (1, [.actor (.region early)]) ∧
    (c.node 0).globalStatistics = aggregate (c.node 0).regionsStats := by
  obtain ⟨c, hrun, hknown⟩ := Option.map_eq_some_iff.1 freshRun_known
  have hidle : (freshCluster.run freshRun).map (fun c => (c.waiting (.node 0)).isNone) =
      some true := by
    decide +kernel
  rw [show freshCluster.run freshRun = some c from hrun] at hidle
  refine ⟨c, hrun, hknown, ?_⟩
  rcases (run_keeps_statistics started_freshCluster freshRun_admitted).last hrun 0
    (Option.isNone_iff_eq_none.1 (Option.some.inj hidle)) with hstats | ⟨-, hnew⟩
  · exact hstats
  · have hcount : (c.node 0).globalN = 1 := congrArg Prod.fst hknown
    simp [SimulationActor.globalN, hnew, SummaryStatistics.toStatisticalSummary,
      SummaryStatistics.new, SummaryStatistics.getN] at hcount

def askingRun : List (ClusterEvent ℚ 2 1) :=
  let constructor : AgentSettings ℚ :=
    { RegionSafety.exampleSettings with metaHeuristicName := 2, isConstructorMetaHeuristic := true }
  [.inject ⟨.client 0, .actor (.agent agent), leader, .createAgent agent leader constructor⟩,
    .deliver (.client 0) (.actor (.agent agent)) quiet,
    .inject ⟨.client 0, .actor (.agent agent), leader,
      .startSimulation (some RegionSafety.exampleProblem)⟩,
    .deliver (.client 0) (.actor (.agent agent)) quiet,
    .inject ⟨.client 0, .actor (.agent agent), .actor (.agent agent), .internalStimulus⟩,
    .deliver (.client 0) (.actor (.agent agent)) quiet]

theorem run_never_waits_in_circle_example : ∃ c next, freshCluster.run askingRun = some c ∧
    c.waiting (.agent agent) = some (.actor .benchmark, next) ∧
    c.waiting .benchmark = none := by
  have hwaits : (freshCluster.run askingRun).map (fun c =>
      (c.waiting (.agent agent)).map Prod.fst) = some (some (.actor .benchmark)) := by
    decide +kernel
  obtain ⟨c, hrun, hc⟩ := Option.map_eq_some_iff.1 hwaits
  obtain ⟨⟨dst, next⟩, hwait, rfl⟩ := Option.map_eq_some_iff.1 hc
  have hadmitted : ∀ e ∈ askingRun, Admitted e := by
    simp [askingRun, Admitted, ExternalEvent, External, Event.Injects, Registers]
  obtain ⟨b, hb, hfree⟩ :=
    (run_never_waits_in_circle started_freshCluster hadmitted).last hrun _ _ _ hwait
  obtain rfl : Address.benchmark = b := Ref.actor.inj hb
  refine ⟨c, next, hrun, hwait, ?_⟩
  rcases hfree with hnone | ⟨-, -, hnone⟩
  · exact hnone
  · exact hnone

end Example

end DOptimas.Proofs.ManagerTables
