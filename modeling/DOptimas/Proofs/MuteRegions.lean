import DOptimas.Proofs.Provenance
/-!
# A simulation without regions

Where no solution that is computed or sent fits into a region, no region starts.
A manager creates regions until its pool is empty and never hears of one; its
table stays empty, and its clock stands still.
-/

namespace DOptimas.Proofs.MuteRegions

open DOptimas.Support DOptimas.Core DOptimas.Actors Handler
open Custody (Empty Holds)
open Provenance (Bred Remembers)

variable {K : Type} {n m : ℕ}

/-! ## What is never said -/

def Unheard (dimension : ℕ) : Message K n m → Prop
  | .regionRegister _ _ => False
  | .updateRegionSummary _ _ => False
  | .regionRelease _ => False
  | .createRegion _ _ _ _ problem => problem.dimension = dimension
  | .startSimulation problem => ∀ p, problem = some p → p.dimension = dimension
  | _ => True

/-- Of a region no more than its timer is in flight. -/
structure Mute (P : Solution K → Prop) (dimension : ℕ) (src : Address n m)
    (message : Message K n m) : Prop where
  holds : Holds P message
  unheard : Unheard dimension message
  timer : ∀ i, src = .region i → message = .internalStimulus

variable {P : Solution K → Prop} {dimension : ℕ}

theorem mute_of_ne {src : Address n m} {message : Message K n m} (hsrc : ∀ i, src ≠ .region i)
    (hholds : Holds P message) (hunheard : Unheard dimension message) :
    Mute P dimension src message where
  holds := hholds
  unheard := hunheard
  timer i h := absurd h (hsrc i)

/-! ## The region -/

namespace RegionActor

def Blank (saved : Option (RegionActorSnapshot K n m)) : Prop :=
  ∀ snapshot, saved = some snapshot →
    snapshot.globalSummary = none ∧ ∀ r, snapshot.region = some r → r.solutionList = []

structure Idle (s : RegionActor K n m) : Prop where
  problem : s.problem = none
  timer : s.internalTask = none
  summary : s.globalSummary = none
  region : ∀ r, s.region = some r → r.solutionList = []
  saved : Blank s.saved

theorem idle_new : Idle (.new : RegionActor K n m) where
  problem := rfl
  timer := rfl
  summary := rfl
  region _ h := nomatch h
  saved _ h := nomatch h

theorem idle_recover {s : RegionActor K n m} (h : Blank s.saved) : Idle s.recover := by
  unfold RegionActor.recover
  split
  · exact idle_new
  next snapshot hs =>
    exact
      { problem := rfl
        timer := rfl
        summary := (h snapshot hs).1
        region := (h snapshot hs).2
        saved := h }

def muteContract (K : Type) (n m : ℕ) :
    Contract Failure (RegionActor K n m) (ActorRef n m) (Message K n m) Unit :=
  Contract.plain (fun _ _ _ => False) (fun _ _ _ => False) fun _ s => Blank s.saved

variable {s : RegionActor K n m}

theorem sat_problemToString {α : Type} (h : Idle s)
    (next : Unit → Receive K n m (RegionActor K n m) α)
    (Q : α → RegionActor K n m → Unit → Prop) :
    ((RegionActor.problemToString >>= next) s).Sat (muteContract K n m) Q () := by
  rw [bind_apply, RegionActor.problemToString_none h.problem]
  exact h.saved

section Create

variable [RealArith K]

theorem onCreate_nil (id : Fin n) (sender : ActorRef n m) (settings : RegionSettings) (time : ℕ)
    (p : Problem) :
    ∃ s', RegionActor.onCreate id sender settings [] time p s =
        .fail (.nullPointer .bestSolution) s' ∧
      s'.saved = some ⟨some (Region.new id p settings), some sender, s.globalSummary⟩ := by
  refine ⟨{ s with
    problem := some p
    time := time
    region := some (Region.new id p settings)
    leader := some sender
    saved := some ⟨some (Region.new id p settings), some sender, s.globalSummary⟩ }, ?_, rfl⟩
  simp [RegionActor.onCreate, RegionActor.initializeRegion, RegionActor.addSolutions, deref,
    RegionActor.collect, RegionActor.regionState, RegionActor.problemToString,
    RegionActor.saveSnapshot, RegionActor.snapshot, Region.addSolutionsCollection, Region.addEach,
    SolutionAnalyser.reduceBest, Region.new]

theorem sat_onCreate (hbad : ∀ s, P s → ¬s.Storable dimension) (h : Idle s) (id : Fin n)
    (sender : ActorRef n m) (settings : RegionSettings) {solutions : List (Solution K)}
    (hsolutions : ∀ s ∈ solutions, P s) (time : ℕ) {p : Problem} (hp : p.dimension = dimension) :
    (RegionActor.onCreate id sender settings solutions time p s).Sat (muteContract K n m)
      (fun _ t _ => Idle t) () := by
  cases solutions with
  | nil =>
      obtain ⟨s', hprocess, hsaved⟩ := onCreate_nil (s := s) id sender settings time p
      rw [hprocess]
      intro snapshot hsnapshot
      obtain rfl := Option.some.inj (hsaved.symm.trans hsnapshot)
      refine ⟨h.summary, fun r hr => ?_⟩
      obtain rfl := Option.some.inj hr
      rfl
  | cons t ts =>
      have hall : ¬∀ u ∈ t :: ts, u.Storable p.dimension := by
        intro hall
        apply hbad t (hsolutions t List.mem_cons_self)
        rw [← hp]
        exact hall t List.mem_cons_self
      obtain ⟨e, s', hprocess, -, hsaved⟩ :=
        RegionActor.onCreate_not_storable id sender (s := s) settings time hall
      rw [hprocess]
      change Blank s'.saved
      rw [hsaved]
      exact h.saved

variable [CommonsMath K]

/-- A region that has not started says nothing and does not start. -/
theorem sat_receive (hbad : ∀ s, P s → ¬s.Storable dimension) (h : Idle s) (id : Fin n)
    (choices : List ℕ) (sender : ActorRef n m) {message : Message K n m}
    (hholds : Holds P message) (hunheard : Unheard dimension message) :
    (RegionActor.receive id choices sender message s).Sat (muteContract K n m)
      (fun _ t _ => Idle t) () := by
  cases message with
  | createRegion j settings solutions time p =>
      exact sat_onCreate hbad h id sender settings hholds time hunheard
  | setLeader leader =>
      refine ⟨h.problem, h.timer, h.summary, h.region, fun snapshot hsnapshot => ?_⟩
      obtain rfl := Option.some.inj hsnapshot
      exact ⟨h.summary, h.region⟩
  | solutionResponse j i solutions => exact sat_problemToString h _ _
  | solutionRequest j i counter => exact sat_problemToString h _ _
  | mergeRequest j i summary space => exact sat_problemToString h _ _
  | mergeResponse j i => exact sat_problemToString h _ _
  | mergeResult j i solutions => exact sat_problemToString h _ _
  | updateGlobalSummary j summary time ids => exact sat_problemToString h _ _
  | internalStimulus =>
      have hpasses : RegionActor.onInternalStimulus id s = .ret () s := by
        cases hr : s.region with
        | none => simp [RegionActor.onInternalStimulus, Handler.get, hr]
        | some r => simp [RegionActor.onInternalStimulus, Handler.get, hr, h.summary]
      change (RegionActor.onInternalStimulus id s).Sat _ _ ()
      rw [hpasses]
      exact h
  | stopSimulation =>
      change (RegionActor.onStopSimulation id sender s).Sat _ _ ()
      rw [RegionActor.onStopSimulation_no_timer id sender h.timer]
      exact h.saved
  | _ => exact h

end Create

end RegionActor

/-! ## The manager -/

namespace SimulationActor

/-- A manager that has never heard of a region. -/
structure Unaware (dimension : ℕ) (s : SimulationActor K n m) : Prop where
  problem : s.problem.dimension = dimension
  regions : ∀ i, s.regions i = none
  summaries : ∀ i, s.regionsSummary i = none
  time : s.time = 0
  counted : s.globalN = 0

section Rules

variable {k : ℕ} {α : Type}

def quietContract (P : Solution K → Prop) (dimension k n m : ℕ) :
    Contract Failure (SimulationActor K n m) (ActorRef n m) (Message K n m) Unit :=
  Contract.plain (fun _ _ message => Mute P dimension (.node k) message)
    (fun s _ message => Unaware dimension s ∧ Mute P dimension (.node k) message)
    fun _ _ => True

abbrev Quiet (P : Solution K → Prop) (dimension k : ℕ)
    (x : SimulationActor.SimulationReceive K n m α) : Prop :=
  Meets (quietContract P dimension k n m) (fun s _ => Unaware dimension s) x
    fun _ s _ => Unaware dimension s

theorem mute_node {message : Message K n m} (hholds : Holds P message)
    (hunheard : Unheard dimension message) : Mute P dimension (.node k) message :=
  mute_of_ne (by simp) hholds hunheard

theorem quiet_pure {a : α} :
    Quiet P dimension k (pure a : SimulationActor.SimulationReceive K n m α) :=
  meets_pure_const a

theorem quiet_tell {dst sender : ActorRef n m} {message : Message K n m}
    (hholds : Holds P message) (hunheard : Unheard dimension message) :
    Quiet P dimension k (tell dst sender message) :=
  fun _ _ h => ⟨mute_node hholds hunheard, h⟩

theorem quiet_update {f : SimulationActor K n m → SimulationActor K n m}
    (hf : ∀ s, Unaware dimension s → Unaware dimension (f s)) :
    Quiet P dimension k (update f) :=
  fun s _ h => hf s h

theorem quiet_deref {e : Failure} {field : SimulationActor K n m → Option α} :
    Quiet P dimension k (deref e field) :=
  meets_deref_const fun _ _ _ => trivial

/-- The state that is read is one of a manager that knows of no region. -/
theorem quiet_get {f : SimulationActor K n m → SimulationActor.SimulationReceive K n m α}
    (h : ∀ s, Unaware dimension s → Quiet P dimension k (f s)) :
    Quiet P dimension k (get >>= f) :=
  fun s g hs => h s hs s g hs

theorem quiet_forEach {ι : Type} {is : List ι}
    {body : ι → SimulationActor.SimulationReceive K n m Unit}
    (h : ∀ i ∈ is, Quiet P dimension k (body i)) : Quiet P dimension k (forEach is body) :=
  meets_forEach_const h

end Rules

section Handlers

variable {k : ℕ}

theorem quiet_askStop (target : ActorRef n m) :
    Quiet P dimension k (SimulationActor.askStop target :
      SimulationActor.SimulationReceive K n m (Message K n m)) := by
  intro s g h
  refine ⟨⟨h, mute_node trivial trivial⟩, fun answer _ => ?_⟩
  cases answer with
  | none => exact trivial
  | some answer => exact h

theorem quiet_stopAgents :
    Quiet P dimension k (SimulationActor.stopAgents :
      SimulationActor.SimulationReceive K n m Unit) := by
  apply quiet_forEach
  intro id _
  apply quiet_get
  intro s _
  cases s.agents id with
  | none => exact quiet_pure
  | some agent => exact (quiet_askStop agent).bind fun _ => quiet_pure

theorem quiet_stopRegions (release : Fin n → SimulationActor.SimulationReceive K n m Unit) :
    Quiet P dimension k (SimulationActor.stopRegions release) := by
  apply quiet_forEach
  intro id _
  apply quiet_get
  intro s hs
  rw [hs.regions id]
  exact quiet_pure

theorem quiet_forwardToRegions (sender : ActorRef n m) (message : Message K n m)
    (keep : ActorRef n m → Bool) :
    Quiet P dimension k (SimulationActor.forwardToRegions sender message keep) := by
  apply quiet_get
  intro s hs
  apply quiet_forEach
  intro id _
  rw [hs.regions id]
  exact quiet_pure

theorem quiet_forwardToAllNodes (sender : ActorRef n m) {message : Message K n m}
    (hholds : Holds P message) (hunheard : Unheard dimension message) :
    Quiet P dimension k (SimulationActor.forwardToAllNodes k sender message) := by
  apply quiet_get
  intro s _
  apply quiet_forEach
  intro node _
  split
  · exact quiet_pure
  · exact quiet_tell hholds hunheard

theorem quiet_announceLeader {i : ℕ} (table : Fin i → Option (ActorRef n m)) :
    Quiet P dimension k (SimulationActor.announceLeader k table) := by
  apply quiet_forEach
  intro id _
  split
  · exact quiet_pure
  · exact quiet_tell (by trivial) (by trivial)

theorem quiet_onLeaderChanged (leader : Option ℕ) :
    Quiet P dimension k (SimulationActor.onLeaderChanged k leader :
      SimulationActor.SimulationReceive K n m Unit) := by
  have hleads : ∀ (amILeader : Bool) (leader : Option (ActorRef n m)),
      Quiet P dimension k (update fun s => { s with amILeader, leader }) := by
    intro amILeader leader
    apply quiet_update
    exact fun s h => ⟨h.problem, h.regions, h.summaries, h.time, h.counted⟩
  unfold SimulationActor.onLeaderChanged
  split
  · exact hleads false none
  · split
    · refine (hleads true _).bind fun _ => quiet_get fun s _ => ?_
      split
      · exact (quiet_announceLeader _).bind fun _ => quiet_announceLeader _
      · exact quiet_pure
    · apply quiet_update
      exact fun s h => ⟨h.problem, h.regions, h.summaries, h.time, h.counted⟩

theorem quiet_onAgentRegister (sender : ActorRef n m) (id : Fin m) (ref : ActorRef n m) :
    Quiet P dimension k (SimulationActor.onAgentRegister k sender id ref :
      SimulationActor.SimulationReceive K n m Unit) := by
  refine (quiet_update fun s h => ?_).bind fun _ => quiet_get fun s _ => ?_
  · exact ⟨h.problem, h.regions, h.summaries, h.time, h.counted⟩
  · split
    · exact quiet_forwardToAllNodes sender trivial trivial
    · exact quiet_pure

theorem quiet_onStartSimulation (sender : ActorRef n m) {problem : Option Problem}
    (hproblem : ∀ p, problem = some p → p.dimension = dimension) :
    Quiet P dimension k (SimulationActor.onStartSimulation k sender problem :
      SimulationActor.SimulationReceive K n m Unit) := by
  refine (quiet_update fun s h => ?_).bind fun _ => quiet_get fun s hs => ?_
  · refine ⟨?_, h.regions, h.summaries, h.time, h.counted⟩
    cases problem with
    | none => exact h.problem
    | some p => exact hproblem p rfl
  · refine (quiet_forEach fun id _ => ?_).bind fun _ => (quiet_update fun s h => ?_).bind fun _ =>
      quiet_tell (by trivial) (by trivial)
    · split
      · exact quiet_pure
      · refine quiet_tell (by trivial) fun p hp => ?_
        rw [← Option.some.inj hp]
        exact hs.problem
    · exact ⟨h.problem, h.regions, h.summaries, h.time, h.counted⟩

theorem quiet_nextRegionId :
    Quiet P dimension k (SimulationActor.nextRegionId :
      SimulationActor.SimulationReceive K n m (Option (Fin n))) := by
  apply quiet_get
  intro s _
  split
  · exact quiet_pure
  · refine (quiet_update fun s h => ?_).bind fun _ => quiet_pure
    exact ⟨h.problem, h.regions, h.summaries, h.time, h.counted⟩

variable {settings : SimulationSettings}

theorem quiet_createRegion (id : Fin n) {solutions : List (Solution K)}
    (h : ∀ s ∈ solutions, P s) :
    Quiet P dimension k (SimulationActor.createRegion settings k id solutions :
      SimulationActor.SimulationReceive K n m Unit) := by
  apply quiet_get
  intro s hs
  exact quiet_tell h hs.problem

variable [CommonsMath K]

theorem unaware_new (h : settings.problem.dimension = dimension) :
    Unaware dimension (SimulationActor.new settings : SimulationActor K n m) where
  problem := h
  regions _ := rfl
  summaries _ := rfl
  time := rfl
  counted := rfl

theorem quiet_stopAll :
    Quiet P dimension k (SimulationActor.stopAll settings k :
      SimulationActor.SimulationReceive K n m Unit) :=
  quiet_stopAgents.bind fun _ => quiet_stopRegions _

omit [CommonsMath K] in
theorem Unaware.regionsStats {s : SimulationActor K n m} (h : Unaware dimension s) :
    s.regionsStats = [] :=
  List.filterMap_eq_nil_iff.2 fun i _ => h.summaries i

theorem quiet_resetRegionsData :
    Quiet P dimension k (SimulationActor.resetRegionsData :
      SimulationActor.SimulationReceive K n m Unit) := by
  refine (quiet_forEach fun id _ => quiet_get fun s hs => ?_).bind fun _ =>
    quiet_update fun s h => ?_
  · rw [hs.regions id]
    exact quiet_pure
  · refine ⟨h.problem, h.regions, h.summaries, rfl, ?_⟩
    simp [SimulationActor.globalN, h.regionsStats]

theorem quiet_onStopSimulation (sender : ActorRef n m) :
    Quiet P dimension k (SimulationActor.onStopSimulation settings k sender :
      SimulationActor.SimulationReceive K n m Unit) := by
  apply quiet_get
  intro s _
  split
  · refine quiet_stopAll.bind fun _ => quiet_resetRegionsData.bind fun _ =>
      (quiet_update fun s h => ?_).bind fun _ =>
        quiet_get fun s _ => quiet_tell (by trivial) (by trivial)
    exact ⟨h.problem, h.regions, h.summaries, h.time, h.counted⟩
  · split
    · exact quiet_pure
    · exact quiet_tell (by trivial) (by trivial)

variable [RealArith K]

theorem quiet_sendToRegion (round : K → JDouble K) (draws : List (Draw K)) (senderId : ℤ)
    {solutions : List (Solution K)}
    (h : ∀ s ∈ solutions, P s) :
    Quiet P dimension k (SimulationActor.sendToRegion k round draws senderId solutions :
      SimulationActor.SimulationReceive K n m Unit) := by
  refine Meets.bind (Q := fun _ s _ => Unaware dimension s) ?_ fun id => quiet_deref.bind
    fun region => quiet_tell h (by trivial)
  intro s g hs
  unfold SimulationActor.selectRegion
  split
  · exact hs
  · exact trivial
  · exact trivial

theorem quiet_onSolutionResult (oracle : Oracle K) {solutions : List (Solution K)}
    (h : ∀ s ∈ solutions, P s) :
    Quiet P dimension k (SimulationActor.onSolutionResult settings k oracle solutions :
      SimulationActor.SimulationReceive K n m Unit) := by
  unfold SimulationActor.onSolutionResult
  split
  · exact quiet_pure
  · refine quiet_get fun s _ => ?_
    split
    · refine quiet_nextRegionId.bind fun id => ?_
      cases id with
      | none => exact quiet_pure
      | some id => exact quiet_createRegion id h
    · exact quiet_sendToRegion _ _ 0 h

theorem quiet_placeHalf (round : K → JDouble K) (draws : List (Draw K))
    {solutions fallback : List (Solution K)}
    (h : ∀ s ∈ solutions, P s) (hfallback : ∀ s ∈ fallback, P s) :
    Quiet P dimension k (SimulationActor.placeHalf settings k round draws solutions fallback :
      SimulationActor.SimulationReceive K n m Unit) := by
  unfold SimulationActor.placeHalf
  split
  · exact quiet_pure
  · refine quiet_nextRegionId.bind fun id => ?_
    cases id with
    | none => exact quiet_sendToRegion _ _ Nobody hfallback
    | some id => exact quiet_createRegion id h

/-- A manager that knows of no region hears of none. -/
theorem quiet_receive (oracle : Oracle K) (sender : ActorRef n m) {message : Message K n m}
    (hholds : Holds P message) (hunheard : Unheard dimension message) :
    Quiet P dimension k (SimulationActor.receive settings k oracle sender message) := by
  cases message with
  | leaderChanged leader => exact quiet_onLeaderChanged leader
  | leaderResolved leader =>
      apply quiet_update
      exact fun s h => ⟨h.problem, h.regions, h.summaries, h.time, h.counted⟩
  | agentRegister id ref => exact quiet_onAgentRegister sender id ref
  | agentRelease id =>
      apply quiet_update
      exact fun s h => ⟨h.problem, h.regions, h.summaries, h.time, h.counted⟩
  | regionRegister id stats => exact hunheard.elim
  | solutionResult solutions => exact quiet_onSolutionResult oracle hholds
  | solutionRequest i j counter => exact quiet_forwardToRegions sender _ _
  | regionSplit i lower higher =>
      exact (quiet_placeHalf _ _ hholds.1 hholds.2).bind fun _ =>
        quiet_placeHalf _ _ hholds.2 hholds.2
  | mergeRequest i j summary space => exact quiet_forwardToRegions sender _ _
  | regionRelease id => exact hunheard.elim
  | updateRegionSummary id summary => exact hunheard.elim
  | startSimulation problem => exact quiet_onStartSimulation sender hunheard
  | stopSimulation => exact quiet_onStopSimulation sender
  | getState => exact quiet_get fun s _ => quiet_tell (by trivial) (by trivial)
  | terminate => exact fun _ _ _ => trivial
  | _ => exact quiet_pure

end Handlers

end SimulationActor

/-! ## The benchmark -/

namespace BenchmarkActor

structure Offers (dimension : ℕ) (s : BenchmarkActor) : Prop where
  current : ∀ p, s.benchmarkProblem = some p → p.dimension = dimension
  suite : ∀ p, Fetch.problem p ∈ s.suite → p.dimension = dimension

theorem offers_new {suite : List Fetch} (h : ∀ p, Fetch.problem p ∈ suite → p.dimension = dimension)
    (budget : ℤ) : Offers dimension (BenchmarkActor.new suite budget) where
  current _ hnone := nomatch hnone
  suite := h

def offerContract (P : Solution K → Prop) (dimension n m : ℕ) :
    Contract Failure BenchmarkActor (ActorRef n m) (Message K n m) Unit :=
  Contract.plain (fun _ _ message => Mute P dimension .benchmark message)
    (fun _ _ _ => False) fun _ _ => True

abbrev Steady (P : Solution K → Prop) (dimension : ℕ)
    (x : BenchmarkActor.BenchmarkReceive K n m) : Prop :=
  Meets (offerContract P dimension n m) (fun s _ => Offers dimension s) x
    fun _ s _ => Offers dimension s

theorem steady_tell {dst sender : ActorRef n m} {message : Message K n m}
    (hholds : Holds P message) (hunheard : Unheard dimension message) :
    Steady P dimension (tell dst sender message) :=
  fun _ _ h => ⟨mute_of_ne (by simp) hholds hunheard, h⟩

theorem steady_update {f : BenchmarkActor → BenchmarkActor}
    (hproblem : ∀ s, (f s).benchmarkProblem = s.benchmarkProblem)
    (hsuite : ∀ s, (f s).suite = s.suite) :
    Steady P dimension (update f : BenchmarkActor.BenchmarkReceive K n m) := by
  intro s g h
  refine ⟨fun p hp => h.current p ?_, fun p hp => h.suite p ?_⟩
  · rw [← hproblem]
    exact hp
  · rw [← hsuite]
    exact hp

theorem steady_get {f : BenchmarkActor → BenchmarkActor.BenchmarkReceive K n m}
    (h : ∀ s, Offers dimension s → Steady P dimension (f s)) : Steady P dimension (get >>= f) :=
  fun s g hs => h s hs s g hs

theorem steady_terminate :
    Steady P dimension (BenchmarkActor.terminate : BenchmarkActor.BenchmarkReceive K n m) :=
  Meets.bind (Q := fun _ s _ => Offers dimension s) (steady_update (fun _ => rfl) fun _ => rfl)
    fun _ => steady_tell (by trivial) (by trivial)

theorem steady_nextProblem :
    Steady P dimension (BenchmarkActor.nextProblem : BenchmarkActor.BenchmarkReceive K n m) := by
  apply steady_get
  intro s hs
  refine Meets.bind (Q := fun _ t _ => Offers dimension t) (fun t g ht => ?_) fun _ => ?_
  · exact ⟨ht.current, fun p hp => ht.suite p (List.mem_of_mem_tail hp)⟩
  · split
    next p hhead =>
      intro t g ht
      refine ⟨fun q hq => ?_, ht.suite⟩
      obtain rfl := Option.some.inj hq
      apply hs.suite
      cases hsuite : s.suite with
      | nil =>
          rw [hsuite] at hhead
          cases hhead
      | cons fetch rest =>
          rw [hsuite] at hhead
          rw [show fetch = Fetch.problem p from hhead]
          exact List.mem_cons_self
    · refine Meets.bind (Q := fun _ t _ => Offers dimension t) ?_ fun _ =>
        steady_terminate.bind fun _ => steady_update (fun _ => rfl) fun _ => rfl
      exact fun t g ht => ⟨fun _ hnone => (nomatch hnone), ht.suite⟩
    · exact steady_terminate

theorem steady_startSimulation :
    Steady P dimension (BenchmarkActor.startSimulation :
      BenchmarkActor.BenchmarkReceive K n m) := by
  apply steady_get
  intro s hs
  split
  · refine Meets.bind (Q := fun _ t _ => Offers dimension t)
      (steady_update (fun _ => rfl) fun _ => rfl) fun _ => ?_
    exact steady_tell (by trivial) hs.current
  · exact meets_pure_const ()

theorem steady_handleEvaluate (evaluateFunction : Problem → List K → Option K)
    (sender : ActorRef n m) (x : List K) :
    Steady P dimension (BenchmarkActor.handleEvaluate evaluateFunction sender x :
      BenchmarkActor.BenchmarkReceive K n m) := by
  apply steady_get
  intro s _
  split
  · exact steady_tell (by trivial) (by trivial)
  · split
    · exact meets_pure_const ()
    · refine (steady_tell (by trivial) (by trivial)).bind fun _ =>
        Meets.bind (Q := fun _ t _ => Offers dimension t)
          (steady_update (fun _ => rfl) fun _ => rfl) fun _ => steady_get fun t _ => ?_
      split
      · exact (steady_tell (by trivial) (by trivial)).bind fun _ =>
          steady_update (fun _ => rfl) fun _ => rfl
      · exact meets_pure_const ()

theorem steady_receive (evaluateFunction : Problem → List K → Option K) (extraction : Extraction)
    (sender : ActorRef n m) (message : Message K n m) :
    Steady P dimension (BenchmarkActor.receive evaluateFunction extraction sender message) := by
  cases message with
  | evaluate x => exact steady_handleEvaluate evaluateFunction sender x
  | startSimulation problem =>
      refine steady_nextProblem.bind fun _ => steady_get fun s _ => ?_
      split
      · exact meets_pure_const ()
      · exact steady_startSimulation
  | simulationStopped nodes =>
      refine Meets.bind (Q := fun _ s _ => Offers dimension s) ?_ fun _ =>
        steady_nextProblem.bind fun _ => steady_startSimulation
      refine Meets.bind (Q := fun _ s _ => Offers dimension s)
        (meets_deref_const fun _ _ _ => trivial) fun p => ?_
      cases extraction with
      | exit => exact fun _ _ _ => trivial
      | ioException => exact meets_pure_const ()
      | throws => exact meets_throw_const fun _ _ _ => trivial
  | _ => exact meets_pure_const ()

end BenchmarkActor

/-! ## The cluster -/

section Cluster

variable [RealArith K] [CommonsMath K] [MetaHeuristics K] {d : Deployment K} {R : Agent K → Prop}
  {M : MetaHeuristics.Memory K → Prop}

def mutes (P : Solution K → Prop) (R : Agent K → Prop) (dimension n m : ℕ) (d : Deployment K) :
    Guarantee (cluster n m d) where
  idle
    | .node _, s => SimulationActor.Unaware dimension s
    | .region _, s => RegionActor.Idle s
    | .agent _, s => Custody.AgentActor.Keeps R s
    | .benchmark, s => BenchmarkActor.Offers dimension s
    | _, _ => True
  blocked
    | .node _, s, _ => SimulationActor.Unaware dimension s
    | .agent _, s, _ => Custody.AgentActor.Keeps R s
    | _, _, _ => False
  message src _ _ message := Mute P dimension src message

omit [RealArith K] [CommonsMath K] [MetaHeuristics K] in
theorem speaks_unheard (dimension : ℕ) (j : Fin m) : AgentActor.Speaks (K := K) (n := n)
    (fun _ _ message => Unheard dimension message) (fun _ message => Unheard dimension message)
    j where
  registered _ := trivial
  requested _ _ _ := trivial
  answered _ _ := trivial
  returned _ _ := trivial
  stopped _ := trivial
  reported _ _ := trivial
  failed _ := trivial
  evaluates _ := trivial

/-- Nothing that is computed fits into a region, and all problems have one dimension. -/
structure Misfit (P : Solution K → Prop) (M : MetaHeuristics.Memory K → Prop) (dimension : ℕ)
    (d : Deployment K) : Prop extends Bred P M where
  bad : ∀ s, P s → ¬s.Storable dimension
  settings : d.settings.problem.dimension = dimension
  suite : ∀ p, Fetch.problem p ∈ d.suite → p.dimension = dimension

theorem mutes_kept (h : Misfit P M dimension d) :
    (mutes P (Remembers P M) dimension n m d).Kept := by
  intro a choices src sender message s hmessage hs
  cases a with
  | node k =>
      have hquiet : SimulationActor.Quiet P dimension k
          (SimulationActor.receive d.settings k choices.toOracle sender message) :=
        SimulationActor.quiet_receive choices.toOracle sender hmessage.holds hmessage.unheard
      apply Process.Sat.imp _ _ _ _ _ (hquiet s () hs)
      · exact fun _ hm => hm
      · exact fun _ _ _ hm => ⟨hm.1, fun _ => hm.2⟩
      · exact fun _ _ _ _ => trivial
      · exact fun _ _ _ =>
          ⟨SimulationActor.unaware_new h.settings, fun _ hout => absurd hout List.not_mem_nil⟩
      · exact fun _ => trivial
  | region i =>
      apply Process.Sat.imp _ _ _ _ _ (RegionActor.sat_receive h.bad hs i choices.choices sender
        hmessage.holds hmessage.unheard)
      · exact fun _ hm => hm.elim
      · exact fun _ _ _ hm => hm.elim
      · exact fun _ _ _ _ => trivial
      · exact fun _ _ hm =>
          ⟨RegionActor.idle_recover hm, fun _ hout => absurd hout List.not_mem_nil⟩
      · exact fun _ => trivial
  | agent j =>
      have hkeeps := Custody.AgentActor.preserves_receive h.toBred.learns d.settings.problem
        d.settings.hasCooperation j choices.toOracle sender hmessage.holds s () hs
      have hsends := AgentActor.sends_receive (speaks_unheard dimension j)
        d.settings.problem d.settings.hasCooperation choices.toOracle sender message s () trivial
      apply Process.Sat.imp _ _ _ _ _ ((hkeeps.both hsends).mono fun _ _ _ hm => hm.1)
      · exact fun _ hm => mute_of_ne (by simp) hm.1 hm.2
      · exact fun _ _ _ hm => ⟨hm.1.1, fun _ => mute_of_ne (by simp) hm.1.2 hm.2⟩
      · exact fun _ _ _ _ => ⟨trivial, trivial⟩
      · refine fun _ s hm => ⟨Custody.AgentActor.Keeps.recover hm.1 j, fun out hout => ?_⟩
        change out ∈ (AgentActor.recover j s).2 at hout
        unfold AgentActor.recover at hout
        split at hout
        · exact absurd hout List.not_mem_nil
        · obtain ⟨leader, -, rfl⟩ := List.mem_map.1 hout
          exact mute_of_ne (by simp) (by trivial) (by trivial)
      · exact fun _ => trivial
  | benchmark =>
      have hsteady : BenchmarkActor.Steady P dimension
          (BenchmarkActor.receive d.evaluateFunction choices.extraction sender message) :=
        BenchmarkActor.steady_receive _ _ _ _
      apply Process.Sat.imp _ _ _ _ _ (hsteady s () hs)
      · exact fun _ hm => hm
      · exact fun _ _ _ hm => hm.elim
      · exact fun _ _ _ _ => trivial
      · exact fun _ s _ =>
          ⟨BenchmarkActor.offers_new h.suite _, fun _ hout => absurd hout List.not_mem_nil⟩
      · exact fun _ => trivial
  | main =>
      exact Guarantee.ends_of_sends (G := mutes P (Remembers P M) dimension n m d) (a := .main)
        (Q := fun _ _ => False) (sends_mainReceive d.settings
          (fun _ => mute_of_ne (by simp) (by trivial) fun _ hnone => nomatch hnone)
          (fun _ => mute_of_ne (by simp) (by trivial) (by trivial)) message)
        (fun _ => trivial) (fun _ _ _ hm => hm.elim)
        (fun _ _ hout => absurd hout List.not_mem_nil) s
  | client c => trivial
  | stray id => trivial

structure Constructed (c : Cluster n m d) : Prop extends Empty c where
  node : ∀ k, c.node k = .new d.settings
  benchmark : ∃ budget, c.benchmark = .new d.suite budget

theorem Constructed.holds (h : Misfit P M dimension d) {c : Cluster n m d}
    (hc : Constructed c) : (mutes P (Remembers P M) dimension n m d).Holds c where
  idle a _ := by
    cases a with
    | node k =>
        change SimulationActor.Unaware dimension (c.node k)
        rw [hc.node k]
        exact SimulationActor.unaware_new h.settings
    | region i =>
        change RegionActor.Idle (c.region i)
        rw [hc.region i]
        exact RegionActor.idle_new
    | agent j =>
        change Custody.AgentActor.Keeps (Remembers P M) (c.agent j)
        rw [hc.agent j]
        exact Custody.AgentActor.keeps_new
    | benchmark =>
        obtain ⟨budget, hbudget⟩ := hc.benchmark
        change BenchmarkActor.Offers dimension c.benchmark
        rw [hbudget]
        exact BenchmarkActor.offers_new h.suite budget
    | _ => trivial
  waiting a q next hwait := by
    rw [hc.waiting a] at hwait
    cases hwait
  net p hp := by
    rw [hc.net] at hp
    cases hp

/-- Where no solution fits, no region ever starts, however messages are delivered and
whatever is stopped, restarted or announced: regions say nothing, every manager's table is
empty, its statistics count nothing and its clock stands at zero. -/
theorem run_starts_no_region (h : Misfit P M dimension d) {c : Cluster n m d}
    (hc : Constructed c) {es : List (ClusterEvent K n m)}
    (hes : ∀ p, .inject p ∈ es → Mute P dimension p.src p.message) :
    Always Config.step (fun c : Cluster n m d =>
      (∀ p ∈ c.net, ∀ i, p.src = .region i → p.message = .internalStimulus) ∧
      (∀ k, (∀ i, (c.node k).regions i = none) ∧ (c.node k).globalN = 0 ∧
        (c.node k).time = 0) ∧
      ∀ i, (c.region i).internalTask = none ∧
        ∀ r, (c.region i).region = some r → r.solutionList = []) c es := by
  have hinjects : ∀ e ∈ es, e.Injects (mutes P (Remembers P M) dimension n m d).message := by
    intro e he
    cases e with
    | inject p => exact hes p he
    | deliver src dst choices => trivial
    | expire a => trivial
  apply ((hc.holds h).always (mutes_kept h) hinjects).mono
  intro c hholds
  refine ⟨fun p hp => (hholds.net p hp).timer, fun k => ?_, fun i => ?_⟩
  · have hunaware : SimulationActor.Unaware dimension (Cluster.node c k) := by
      cases hwait : c.waiting (.node k) with
      | none => exact hholds.idle _ hwait
      | some q => exact (hholds.waiting _ q.1 q.2 hwait).1
    exact ⟨hunaware.regions, hunaware.counted, hunaware.time⟩
  · have hidle : RegionActor.Idle (Cluster.region c i) := by
      cases hwait : c.waiting (.region i) with
      | none => exact hholds.idle _ hwait
      | some q => exact (hholds.waiting _ q.1 q.2 hwait).1.elim
    exact ⟨hidle.timer, hidle.region⟩

end Cluster

section Example

open RegionSafety (agent early exampleDeployment leader quiet)

def planeDeployment : Deployment ℚ :=
  { exampleDeployment with
    settings := { exampleDeployment.settings with problem := ⟨1, 2, .benchmark⟩ } }

def planeCluster : Cluster 2 1 planeDeployment :=
  Cluster.start planeDeployment (fun _ => .new planeDeployment.settings) (fun _ => .new)
    (.new [] 1)

abbrev Origin (s : Solution ℚ) : Prop := s.solutionsVector = [some 0]

theorem misfit_plane : Misfit Origin (fun _ => True) 2 planeDeployment where
  stamp _ _ h := h
  build _ _ := trivial
  configure _ _ _ _ := trivial
  run memory solutions context draws _ h := by
    have hhead : ∀ s, solutions.head? = some s → Origin s := fun s hs =>
      h s (List.mem_of_mem_head? hs)
    match memory with
    | .identity => exact ⟨fun _ heq => Option.some.inj heq ▸ h, trivial, hhead⟩
    | .nsga2 => exact ⟨fun _ heq => (by cases heq), trivial, fun _ heq => (by cases heq)⟩
    | .origin =>
        intro y
        cases y with
        | none => exact ⟨trivial, fun _ heq => (by cases heq)⟩
        | some y =>
            refine ⟨fun ss heq s hs => ?_, trivial, fun s heq => ?_⟩
            · obtain rfl := Option.some.inj heq
              obtain rfl := List.mem_singleton.1 hs
              rfl
            · obtain rfl := Option.some.inj heq
              rfl
  bad s h := by
    rintro ⟨-, row, hrow, hlength⟩
    unfold Solution.toDoubleArray at hrow
    rw [h] at hrow
    obtain rfl : [0] = row := Option.some.inj hrow
    cases hlength
  settings := rfl
  suite _ h := nomatch h

theorem constructed_plane : Constructed planeCluster where
  toInitial := initial_start _ _ _
  agent _ := rfl
  node _ := rfl
  benchmark := ⟨1, rfl⟩

/-- Node 0 leads and creates region 0 for a solution, which the region fails to store. -/
def planeRun : List (ClusterEvent ℚ 2 1) :=
  [.inject ⟨.client 0, leader, .actor (.client 0), .leaderChanged (some 0)⟩,
    .deliver (.client 0) leader quiet,
    .inject ⟨.agent agent, leader, .actor (.agent agent),
      .solutionResult [SampleHeuristic.evaluated 1]⟩,
    .deliver (.agent agent) leader quiet,
    .deliver (.node 0) (.actor (.region early)) quiet]

theorem run_starts_no_region_example : ∃ c, planeCluster.run planeRun = some c ∧
    (c.node 0).regionUsedIds = [early] ∧ (c.node 0).regions early = none ∧
    (c.region early).internalTask = none := by
  have hused : (planeCluster.run planeRun).map (fun c => (c.node 0).regionUsedIds) =
      some [early] := by
    decide +kernel
  obtain ⟨c, hrun, hc⟩ := Option.map_eq_some_iff.1 hused
  have hinjects : ∀ p, Event.inject p ∈ planeRun → Mute Origin 2 p.src p.message := by
    intro p hp
    simp only [planeRun, List.mem_cons, Event.inject.injEq, reduceCtorEq, List.not_mem_nil,
      or_false, false_or] at hp
    rcases hp with rfl | rfl
    · exact mute_of_ne (by simp) (by trivial) (by trivial)
    · refine mute_of_ne (by simp) ?_ trivial
      intro s hs
      obtain rfl := List.mem_singleton.1 hs
      rfl
  have hsilent := (run_starts_no_region misfit_plane constructed_plane hinjects).last hrun
  exact ⟨c, hrun, hc, (hsilent.2.1 0).1 early, (hsilent.2.2 early).1⟩

end Example

end DOptimas.Proofs.MuteRegions
