import DOptimas.Actors.Cluster
import DOptimas.Actors.RegionInvariant
import DOptimas.Actors.StopFrame
import DOptimas.Support.Network
/-!
# Where messages come from

Each message of the region protocol has one kind of sender.  `cluster_keeps`
says that the code of every actor respects this, so that it holds of everything
in flight along every run whose environment only injects what is external.
-/

namespace DOptimas.Actors

open DOptimas.Support DOptimas.Core Handler

/-- Who sends which message of the region protocol.  A region is created with at
least one solution, by the manager that handed out its id. -/
def Origin {K : Type} {n m : ℕ} (src : Address n m) (dst sender : ActorRef n m) :
    Message K n m → Prop
  | .createRegion i _ solutions _ _ =>
      (∃ k, src = .node k ∧ sender = .actor (.node k)) ∧ dst = .actor (.region i) ∧ solutions ≠ []
  | .regionRegister i _ => src = .region i ∨ ∃ k, src = .node k
  | .regionRelease i => src = .region i
  | .updateRegionSummary i _ => src = .region i
  | .regionSplit i _ _ => src = .region i
  | .mergeResponse i _ => src = .region i
  | .mergeResult i _ _ => src = .region i
  | .solutionResponse _ _ solutions =>
      (∃ k, src = .node k) ∨ (∃ i, src = .region i) ∨ solutions = []
  | _ => True

/-- What timers, API callers, the cluster and agents outside the model can send. -/
def External {K : Type} {n m : ℕ} : Message K n m → Prop
  | .internalStimulus => True
  | .leaderChanged _ => True
  | .leaderResolved _ => True
  | .startSimulation _ => True
  | .stopSimulation => True
  | .simulationReady => True
  | .getState => True
  | .createAgent _ _ _ => True
  | .agentRegister _ _ => True
  | .agentRelease _ => True
  | .solutionRequest _ _ _ => True
  | .solutionResult _ => True
  | .mergeRequest _ _ _ _ => True
  | _ => False

theorem External.origin {K : Type} {n m : ℕ} {message : Message K n m} (h : External message)
    (src : Address n m) (dst sender : ActorRef n m) : Origin src dst sender message := by
  cases message <;> trivial

/-! ## The simulation manager -/

namespace SimulationActor

variable {K : Type} {n m : ℕ}

/-- What a manager sends when the clock advances or the simulation stops. -/
structure Stopping (S : ActorRef n m → ActorRef n m → Message K n m → Prop)
    (A : ActorRef n m → Message K n m → Prop) (k : ℕ) : Prop where
  summary : ∀ dst id summary time ids,
    S dst (.actor (.node k)) (.updateGlobalSummary id summary time ids)
  stopped : ∀ dst nodes, S dst (.actor (.node k)) (.simulationStopped nodes)
  question : ∀ dst, A dst .stopSimulation

section Stop

variable {S : ActorRef n m → ActorRef n m → Message K n m → Prop}
  {A : ActorRef n m → Message K n m → Prop} {k : ℕ}

theorem Stopping.carries (h : Stopping S A k) : Carries (fun _ x => SendsOnly S A x) k where
  pure _ := .pure
  bind := .bind
  get hf := .bind .get hf
  update _ := .update _
  summary dst id summary time ids := .tell (h.summary dst id summary time ids)
  finished nodes := .tell (h.stopped _ nodes)
  askStop target := .bind (.ask (h.question target)) fun answer => by
    cases answer with
    | none => exact .throw
    | some answer => exact .pure
  statistics := .deref
  stuck _ _ _ := trivial

variable [CommonsMath K] {settings : SimulationSettings}

theorem sends_stopAll (h : Stopping S A k) :
    SendsOnly S A (stopAll settings k : SimulationReceive K n m Unit) :=
  h.carries.stopAgentsAndRegions _

theorem sends_onRegionRelease (h : Stopping S A k) (id : Fin n) :
    SendsOnly S A (onRegionRelease settings k (stopAll settings k) id :
      SimulationReceive K n m Unit) :=
  h.carries.onRegionRelease (sends_stopAll h) id

theorem sends_updateRegionSummary (h : Stopping S A k) (id : Fin n)
    (summary : SummaryStatistics K) :
    SendsOnly S A (onUpdateRegionSummary settings k id summary : SimulationReceive K n m Unit) :=
  .bind (.update _) fun _ => h.carries.calculateGlobalParameters (sends_stopAll h)

end Stop

structure Speaks (S : ActorRef n m → ActorRef n m → Message K n m → Prop) (k : ℕ) : Prop where
  created : ∀ id settings solutions time problem, solutions ≠ [] →
    S (.actor (.region id)) (.actor (.node k)) (.createRegion id settings solutions time problem)
  answered : ∀ dst senderId id solutions,
    S dst (.actor (.node k)) (.solutionResponse senderId id solutions)
  starting : ∀ dst problem, S dst (.actor (.node k)) (.startSimulation problem)
  started : ∀ dst, S dst (.actor (.node k)) .simulationStarted
  announced : ∀ dst, S dst (.actor (.node k)) (.setLeader (.actor (.node k)))
  reported : ∀ dst state, S dst (.actor (.node k)) (.simulationState state)

def Relayed : Message K n m → Prop
  | .agentRegister _ _ => True
  | .regionRegister _ _ => True
  | .solutionRequest _ _ _ => True
  | .mergeRequest _ _ _ _ => True
  | .stopSimulation => True
  | _ => False

section Sends

variable {S : ActorRef n m → ActorRef n m → Message K n m → Prop}
  {A : ActorRef n m → Message K n m → Prop} {k : ℕ}

theorem sends_forwardToRegions (sender : ActorRef n m) (message : Message K n m)
    (keep : ActorRef n m → Bool) (h : ∀ dst, S dst sender message) :
    SendsOnly S A (forwardToRegions sender message keep) := by
  refine .bind .get fun s => .forEach fun id _ => ?_
  split
  · exact .pure
  · split
    · exact .tell (h _)
    · exact .pure

theorem sends_forwardToAllNodes (sender : ActorRef n m) {message : Message K n m}
    (h : ∀ dst, S dst sender message) : SendsOnly S A (forwardToAllNodes k sender message) := by
  refine .bind .get fun s => .forEach fun id _ => ?_
  split
  · exact .pure
  · exact .tell (h _)

theorem sends_nextRegionId :
    SendsOnly S A (nextRegionId : SimulationReceive K n m (Option (Fin n))) := by
  refine .bind .get fun s => ?_
  split
  · exact .pure
  · exact .bind (.update _) fun _ => .pure

theorem sends_onAgentRegister (sender : ActorRef n m) (id : Fin m) (ref : ActorRef n m)
    (h : ∀ dst, S dst sender (.agentRegister id ref)) :
    SendsOnly S A (onAgentRegister k sender id ref : SimulationReceive K n m Unit) := by
  refine .bind (.update _) fun _ => .bind .get fun s => ?_
  split
  · exact sends_forwardToAllNodes _ h
  · exact .pure

theorem sends_onStartSimulation (h : Speaks S k) (sender : ActorRef n m)
    (problem : Option Problem) :
    SendsOnly S A (onStartSimulation k sender problem : SimulationReceive K n m Unit) := by
  refine .bind (.update _) fun _ => .bind .get fun s => .bind (.forEach fun id _ => ?_) fun _ =>
    .bind (.update _) fun _ => .tell (h.started _)
  split
  · exact .pure
  · exact .tell (h.starting _ _)

theorem sends_announceLeader (h : Speaks S k) {i : ℕ} (table : Fin i → Option (ActorRef n m)) :
    SendsOnly S A (announceLeader k table : SimulationReceive K n m Unit) := by
  refine .forEach fun id _ => ?_
  split
  · exact .pure
  · exact .tell (h.announced _)

theorem sends_onLeaderChanged (h : Speaks S k) (leader : Option ℕ) :
    SendsOnly S A (onLeaderChanged k leader : SimulationReceive K n m Unit) := by
  unfold onLeaderChanged
  split
  · exact .update _
  · split
    · refine .bind (.update _) fun _ => .bind .get fun s => ?_
      split
      · exact .bind (sends_announceLeader h _) fun _ => sends_announceLeader h _
      · exact .pure
    · exact .update _

variable {settings : SimulationSettings}

theorem sends_createRegion (h : Speaks S k) (id : Fin n) {solutions : List (Solution K)}
    (hne : solutions ≠ []) :
    SendsOnly S A (createRegion settings k id solutions : SimulationReceive K n m Unit) :=
  .bind .get fun _ => .tell (h.created _ _ _ _ _ hne)

variable [CommonsMath K]

theorem sends_onStopSimulation (h : Stopping S A k) (sender : ActorRef n m)
    (hrelay : ∀ dst, S dst sender .stopSimulation) :
    SendsOnly S A (onStopSimulation settings k sender : SimulationReceive K n m Unit) := by
  refine .bind .get fun s => ?_
  split
  · refine .bind (sends_stopAll h) fun _ =>
      .bind h.carries.resetRegionsData fun _ => ?_
    exact .bind (.update _) fun _ => .bind .get fun t => .tell (h.stopped _ _)
  · split
    · exact .pure
    · exact .tell (hrelay _)

theorem sends_onRegionRegister (h : Stopping S A k) (sender : ActorRef n m) (id : Fin n)
    (stats : SummaryStatistics K) (hrelay : ∀ dst, S dst sender (.regionRegister id stats)) :
    SendsOnly S A (onRegionRegister settings k sender id stats) := by
  refine .bind (.update _) fun _ =>
    .bind (h.carries.calculateGlobalParameters (sends_stopAll h)) fun _ =>
    .bind h.carries.updateRegions fun _ => .bind h.carries.updateAgents fun _ =>
    .bind .get fun s => ?_
  split
  · exact sends_forwardToAllNodes _ hrelay
  · exact .pure

variable [RealArith K]

theorem sends_sendToRegion (h : Speaks S k) (round : K → JDouble K) (draws : List (Draw K))
    (senderId : ℤ) (solutions : List (Solution K)) :
    SendsOnly S A (sendToRegion k round draws senderId solutions :
      SimulationReceive K n m Unit) := by
  refine .bind (fun s _ _ => ?_) fun id => .bind .deref fun region => .tell (h.answered _ _ _ _)
  unfold selectRegion
  split <;> trivial

theorem sends_onSolutionResult (h : Speaks S k) (oracle : Oracle K)
    (solutions : List (Solution K)) :
    SendsOnly S A (onSolutionResult settings k oracle solutions :
      SimulationReceive K n m Unit) := by
  unfold onSolutionResult
  split
  · exact .pure
  next hne =>
    refine .bind .get fun s => ?_
    split
    · refine .bind sends_nextRegionId fun id => ?_
      split
      · exact .pure
      · exact sends_createRegion h _ (by simpa using hne)
    · exact sends_sendToRegion h _ _ _ _

theorem sends_placeHalf (h : Speaks S k) (round : K → JDouble K) (draws : List (Draw K))
    (solutions fallback : List (Solution K)) :
    SendsOnly S A (placeHalf settings k round draws solutions fallback :
      SimulationReceive K n m Unit) := by
  unfold placeHalf
  split
  · exact .pure
  next hne =>
    refine .bind sends_nextRegionId fun id => ?_
    split
    · exact sends_createRegion h _ (by simpa using hne)
    · exact sends_sendToRegion h _ _ _ _

/-- The messages by which the clock advances or the simulation stops. -/
def Clocked : Message K n m → Prop
  | .regionRegister _ _ => True
  | .regionRelease _ => True
  | .updateRegionSummary _ _ => True
  | .stopSimulation => True
  | _ => False

theorem sends_unclocked (h : Speaks S k) (oracle : Oracle K) (sender : ActorRef n m)
    {message : Message K n m} (hclocked : ¬Clocked message)
    (hrelay : Relayed message → ∀ dst, S dst sender message) :
    SendsOnly S A (receive settings k oracle sender message) := by
  cases message with
  | leaderChanged leader => exact sends_onLeaderChanged h leader
  | leaderResolved leader => exact .update _
  | agentRegister id ref => exact sends_onAgentRegister sender id ref (hrelay trivial)
  | agentRelease id => exact .update _
  | solutionResult solutions => exact sends_onSolutionResult h oracle solutions
  | solutionRequest i j counter => exact sends_forwardToRegions sender _ _ (hrelay trivial)
  | regionSplit i lower higher =>
      exact .bind (sends_placeHalf h _ _ _ _) fun _ => sends_placeHalf h _ _ _ _
  | mergeRequest i j summary space => exact sends_forwardToRegions sender _ _ (hrelay trivial)
  | startSimulation problem => exact sends_onStartSimulation h sender problem
  | getState => exact .bind .get fun _ => .tell (h.reported _ _)
  | terminate => exact fun _ _ _ => trivial
  | regionRegister id stats => exact absurd trivial hclocked
  | regionRelease id => exact absurd trivial hclocked
  | updateRegionSummary id summary => exact absurd trivial hclocked
  | stopSimulation => exact absurd trivial hclocked
  | _ => exact .pure

theorem sends_receive (h : Speaks S k) (hstop : Stopping S A k) (oracle : Oracle K)
    (sender : ActorRef n m) (message : Message K n m)
    (hrelay : Relayed message → ∀ dst, S dst sender message) :
    SendsOnly S A (receive settings k oracle sender message) := by
  by_cases hclocked : Clocked message
  · cases message with
    | regionRegister id stats =>
        exact sends_onRegionRegister hstop sender id stats (hrelay trivial)
    | regionRelease id => exact sends_onRegionRelease hstop id
    | updateRegionSummary id summary => exact sends_updateRegionSummary hstop id summary
    | stopSimulation => exact sends_onStopSimulation hstop sender (hrelay trivial)
    | _ => exact hclocked.elim
  · exact sends_unclocked h oracle sender hclocked hrelay

end Sends

theorem stopping_origin {k : ℕ} : Stopping (K := K) (n := n) (m := m) (Origin (.node k))
    (fun dst message => ∀ j, Origin (.node k) dst (.promise (.node k) j) message) k where
  summary _ _ _ _ _ := trivial
  stopped _ _ := trivial
  question _ _ := trivial

theorem speaks_origin {k : ℕ} :
    Speaks (K := K) (n := n) (m := m) (Origin (.node k)) k where
  created _ _ _ _ _ hne := ⟨⟨k, rfl, rfl⟩, rfl, hne⟩
  answered _ _ _ _ := Or.inl ⟨k, rfl⟩
  starting _ _ := trivial
  started _ := trivial
  announced _ := trivial
  reported _ _ := trivial

theorem Relayed.origin {k : ℕ} {message : Message K n m} (h : Relayed message)
    (dst sender : ActorRef n m) : Origin (.node k) dst sender message := by
  cases message <;> first | trivial | exact Or.inr ⟨k, rfl⟩

end SimulationActor

/-! ## The agent -/

namespace AgentActor

variable {K : Type} [RealArith K] [MetaHeuristics K] {n m : ℕ}

structure Speaks (S : ActorRef n m → ActorRef n m → Message K n m → Prop)
    (A : ActorRef n m → Message K n m → Prop) (j : Fin m) : Prop where
  registered : ∀ dst, S dst (self j) (.agentRegister j (self j))
  requested : ∀ dst receiverId counter, S dst (self j) (.solutionRequest j receiverId counter)
  answered : ∀ dst receiverId, S dst (self j) (.solutionResponse j receiverId [])
  returned : ∀ dst solutions, S dst (self j) (.solutionResult solutions)
  stopped : ∀ dst, S dst (self j) (.simulationStopped [])
  reported : ∀ dst state, S dst (self j) (.detailedAgentState state)
  failed : ∀ dst, S dst (self j) .statusFailure
  evaluates : ∀ x, A (.actor .benchmark) (.evaluate x)

variable {j : Fin m} {S : ActorRef n m → ActorRef n m → Message K n m → Prop}
  {A : ActorRef n m → Message K n m → Prop}

omit [RealArith K] [MetaHeuristics K] in
theorem speaks_origin : Speaks (K := K) (n := n) (Origin (.agent j))
    (fun dst message => ∀ k, Origin (.agent j) dst (.promise (.agent j) k) message) j where
  registered _ := trivial
  requested _ _ _ := trivial
  answered _ _ := Or.inr (Or.inr rfl)
  returned _ _ := trivial
  stopped _ := trivial
  reported _ _ := trivial
  failed _ := trivial
  evaluates _ _ := trivial

theorem sends_problemToString : SendsOnly S A (problemToString : AgentReceive K n m Unit) := by
  refine .bind .deref fun a => ?_
  split
  · exact .throw
  · exact .pure

theorem sends_cancelTask : SendsOnly S A (cancelTask : AgentReceive K n m Unit) :=
  .bind .deref fun _ => .update _

section Speaking

variable (h : Speaks S A j)
include h

theorem sends_runAlgorithm (run : Run (MetaHeuristics.Memory K) K) :
    SendsOnly S A (runAlgorithm run : AgentReceive K n m _) := by
  induction run with
  | done result memory context => exact .pure
  | throws memory context => exact .pure
  | evaluateFunction x next ih =>
      exact fun s _ _ => ⟨h.evaluates x, fun answer _ => ih (evaluation answer) s () trivial⟩

theorem sends_processSolutionList (draws : List (Draw K)) (region : ℤ)
    (solutions : List (Solution K)) :
    SendsOnly S A (processSolutionList j draws region solutions : AgentReceive K n m Unit) := by
  refine .bind (.bind .deref fun a => .bind (sends_runAlgorithm h _) fun result =>
    .bind (.update _) fun _ => ?_) fun result => ?_
  · split
    · exact .throw
    · exact .bind (.update _) fun _ => .pure
  · refine .bind (.forEach fun _ _ => sends_problemToString) fun _ => .bind sends_problemToString
      fun _ => .bind (.update _) fun _ => .bind .deref fun leader => .tell (h.returned _ _)

theorem sends_onSolutionRequest (cooperation : Bool) (sender : ActorRef n m) (senderId : ℤ) :
    SendsOnly S A (onSolutionRequest cooperation j sender senderId : AgentReceive K n m Unit) := by
  refine .bind sends_problemToString fun _ => .bind .deref fun a => ?_
  split
  · exact .tell (h.answered _ _)
  · exact .pure

theorem sends_requestSolutions (a : Agent K) (region : Option ℤ) :
    SendsOnly S A (requestSolutions j a region : AgentReceive K n m Unit) := by
  cases region with
  | none => exact .bind .deref fun leader => .tell (h.requested _ _ _)
  | some region => exact .bind (.tell (h.requested _ _ _)) fun _ => sends_problemToString

theorem sends_requestByMemory (a : Agent K) (draws : List (Draw K)) :
    SendsOnly S A (requestByMemory j a draws : AgentReceive K n m Unit) := by
  match draws with
  | [] => exact fun _ _ _ => trivial
  | [_] => exact fun _ _ _ => trivial
  | draw :: dice :: rest =>
      change SendsOnly S A (requestChosen j a (a.chooseRegion draw dice))
      cases a.chooseRegion draw dice with
      | error e => exact .throw
      | ok region => exact sends_requestSolutions h a region

theorem sends_onInternalStimulus (oracle : Oracle K) :
    SendsOnly S A (onInternalStimulus j oracle : AgentReceive K n m Unit) := by
  refine .bind .get fun s => ?_
  split
  · exact .pure
  · split
    · exact .pure
    · split
      · exact sends_processSolutionList h _ _ _
      · split
        · exact .pure
        · exact sends_requestByMemory h _ _

theorem sends_onGetState (sender : ActorRef n m) :
    SendsOnly S A (onGetState j sender : AgentReceive K n m Unit) := by
  refine .bind .get fun s => ?_
  split
  · exact .tell (h.failed _)
  · exact .tell (h.reported _ _)

omit h in
theorem sends_onUpdateGlobalSummary (choices : List ℕ) (summary : Option (StatisticalSummary K))
    (time : ℕ) (ids : List (Fin n)) :
    SendsOnly S A (onUpdateGlobalSummary choices summary time ids : AgentReceive K n m Unit) := by
  refine .bind (.update _) fun _ => .bind .deref fun a => .bind (.update _) fun _ =>
    .bind .get fun s => ?_
  split
  · exact sends_cancelTask
  · exact .pure

theorem sends_receive (settings : Problem) (cooperation : Bool) (oracle : Oracle K)
    (sender : ActorRef n m) (message : Message K n m) :
    SendsOnly S A (receive settings cooperation j oracle sender message) := by
  cases message with
  | solutionRequest i k counter => exact sends_onSolutionRequest h cooperation sender i
  | solutionResponse i k solutions =>
      exact .bind sends_problemToString fun _ => sends_processSolutionList h _ _ _
  | createAgent i leader agentSettings =>
      exact .bind (.update _) fun _ => .bind (.tell (h.registered _)) fun _ => .update _
  | internalStimulus => exact sends_onInternalStimulus h oracle
  | updateGlobalSummary i summary time ids =>
      exact sends_onUpdateGlobalSummary oracle.choices summary time ids
  | startSimulation problem =>
      exact .bind .deref fun _ => .bind (.update _) fun _ => .update _
  | stopSimulation =>
      exact .bind sends_cancelTask fun _ => .bind (.update _) fun _ => .tell (h.stopped _)
  | getState => exact sends_onGetState h sender
  | _ => exact .pure

theorem sends_recover (s : AgentActor K n m) :
    ∀ out ∈ (recover j s).2, S out.dst out.sender out.message := by
  intro out hout
  unfold recover at hout
  split at hout
  · exact absurd hout List.not_mem_nil
  · obtain ⟨leader, -, rfl⟩ := List.mem_map.1 hout
    exact h.registered leader

end Speaking

end AgentActor

/-! ## The benchmark -/

namespace BenchmarkActor

variable {K : Type} {n m : ℕ}

structure Speaks (S : ActorRef n m → ActorRef n m → Message K n m → Prop) : Prop where
  terminated : S (.actor .main) self .terminate
  stopping : S simulationActor self .stopSimulation
  starting : ∀ problem, S simulationActor self (.startSimulation problem)
  evaluated : ∀ dst y, S dst self (.evaluateResult y)

variable {S : ActorRef n m → ActorRef n m → Message K n m → Prop}
  {A : ActorRef n m → Message K n m → Prop}

theorem speaks_origin : Speaks (K := K) (n := n) (m := m) (Origin .benchmark) where
  terminated := trivial
  stopping := trivial
  starting _ := trivial
  evaluated _ _ := trivial

section Speaking

variable (h : Speaks S)
include h

theorem sends_nextProblem : SendsOnly S A (nextProblem : BenchmarkReceive K n m) := by
  refine .bind .get fun s => .bind (.update _) fun _ => ?_
  split
  · exact .update _
  · exact .bind (.update _) fun _ =>
      .bind (.bind (.update _) fun _ => .tell h.terminated) fun _ => .update _
  · exact .bind (.update _) fun _ => .tell h.terminated

theorem sends_startSimulation : SendsOnly S A (startSimulation : BenchmarkReceive K n m) := by
  refine .bind .get fun s => ?_
  split
  · exact .bind (.update _) fun _ => .tell (h.starting _)
  · exact .pure

theorem sends_handleEvaluate (evaluateFunction : Problem → List K → Option K)
    (sender : ActorRef n m) (x : List K) :
    SendsOnly S A (handleEvaluate evaluateFunction sender x : BenchmarkReceive K n m) := by
  refine .bind .get fun s => ?_
  split
  · exact .tell (h.evaluated _ _)
  · split
    · exact .pure
    · refine .bind (.tell (h.evaluated _ _)) fun _ => .bind (.update _) fun _ =>
        .bind .get fun t => ?_
      split
      · exact .bind (.tell h.stopping) fun _ => .update _
      · exact .pure

theorem sends_receive (evaluateFunction : Problem → List K → Option K) (extraction : Extraction)
    (sender : ActorRef n m) (message : Message K n m) :
    SendsOnly S A (receive evaluateFunction extraction sender message) := by
  cases message with
  | evaluate x => exact sends_handleEvaluate h evaluateFunction sender x
  | startSimulation problem =>
      refine .bind (sends_nextProblem h) fun _ => .bind .get fun s => ?_
      split
      · exact .pure
      · exact sends_startSimulation h
  | simulationStopped nodes =>
      refine .bind (.bind .deref fun p => ?_) fun _ => .bind (sends_nextProblem h) fun _ =>
        sends_startSimulation h
      cases extraction with
      | exit => exact fun _ _ _ => trivial
      | ioException => exact .pure
      | throws => exact .throw
  | _ => exact .pure

end Speaking

end BenchmarkActor

/-! ## The region -/

namespace RegionActor

variable {K : Type} {n m : ℕ}

abbrev Keeps (i : Fin n) (x : RegionReceive K n m) : Prop :=
  SendsOnly (Origin (.region i)) (fun dst message => ∀ k, Origin (.region i) dst
    (.promise (.region i) k) message) x

variable {i : Fin n}

theorem keeps_tellLeader {message : Message K n m}
    (h : ∀ dst sender, Origin (.region i) dst sender message) :
    Keeps i (tellLeader i message : RegionReceive K n m) :=
  .bind .deref fun _ => .tell (h _ _)

theorem keeps_problemToString : Keeps i (problemToString : RegionReceive K n m) :=
  .bind .deref fun _ => .pure

theorem keeps_cancelTask : Keeps i (cancelTask : RegionReceive K n m) :=
  .bind .deref fun _ => .update _

theorem keeps_solutionState (solution : Solution K) :
    Keeps i (solutionState solution : RegionReceive K n m) := by
  unfold solutionState
  split
  · exact .throw
  · refine .bind keeps_problemToString fun _ => ?_
    split
    · exact .throw
    · exact .pure

theorem keeps_regionState : Keeps i (regionState : RegionReceive K n m) := by
  refine .bind .deref fun r => .bind keeps_problemToString fun _ => ?_
  split
  · exact .throw
  · exact .pure

variable [RealArith K]

theorem keeps_addSolutions (solutions : List (Solution K)) :
    Keeps i (addSolutions i solutions : RegionReceive K n m) := by
  refine .bind .deref fun r => .bind (.bind (.update _) fun _ => ?_) fun _ =>
    .bind (.update _) fun _ => .bind (.forEach fun s _ => keeps_solutionState s) fun _ =>
    .bind keeps_regionState fun _ => .bind .deref fun r' =>
    .bind (keeps_tellLeader fun _ _ => rfl) fun _ => keeps_problemToString
  split
  · exact .throw
  · exact .pure

theorem keeps_onCreate (sender : ActorRef n m) (settings : RegionSettings)
    (solutions : List (Solution K)) (time : ℕ) (p : Problem) :
    Keeps i (onCreate i sender settings solutions time p : RegionReceive K n m) :=
  .bind (.bind (.update _) fun _ => .bind (keeps_addSolutions _) fun _ => .bind .deref fun _ =>
    .bind (.tell (Or.inl rfl)) fun _ => .update _) fun _ => .update _

omit [RealArith K] in
theorem keeps_onSolutionRequest (choices : List ℕ) (sender : ActorRef n m)
    (receiverId counter : ℤ) :
    Keeps i (onSolutionRequest i choices sender receiverId counter : RegionReceive K n m) := by
  refine .bind keeps_problemToString fun _ => .bind .deref fun r => ?_
  split
  · split
    · exact .throw
    · exact .bind (.tell (Or.inr (Or.inl ⟨i, rfl⟩))) fun _ => keeps_problemToString
  · exact .pure

omit [RealArith K] in
theorem keeps_onMergeResponse (sender : ActorRef n m) (senderId : Fin n) :
    Keeps i (onMergeResponse i sender senderId : RegionReceive K n m) := by
  refine .bind keeps_problemToString fun _ => .bind .get fun s => ?_
  split
  · exact .pure
  · exact .bind (.tell rfl) fun _ => .bind (keeps_tellLeader fun _ _ => rfl) fun _ =>
      .bind keeps_problemToString fun _ => .bind keeps_cancelTask fun _ =>
      .bind (.update _) fun _ => .update _

variable [CommonsMath K]

theorem keeps_onMergeRequest (sender : ActorRef n m) (senderId : Fin n)
    (summary : SummaryStatistics K) (space : MultivariateSummaryStatistics K) :
    Keeps i (onMergeRequest i sender senderId summary space : RegionReceive K n m) := by
  refine .bind keeps_problemToString fun _ => .bind .deref fun r => .bind .deref fun merged =>
    .bind ?_ fun _ => ?_
  · unfold compareMeans
    split
    · exact .pure
    · exact .throw
  · split
    · exact .bind (.tell rfl) fun _ => keeps_problemToString
    · exact .pure

theorem keeps_onInternalStimulus : Keeps i (onInternalStimulus i : RegionReceive K n m) := by
  refine .bind .get fun s => ?_
  split
  · exact .pure
  · exact .pure
  · split
    · refine .bind (.update _) fun _ => ?_
      split
      · exact .throw
      next lists _ =>
        match lists with
        | [] =>
            exact .bind .deref fun r => .bind (keeps_tellLeader fun _ _ => trivial) fun _ =>
              keeps_problemToString
        | [_] => exact .throw
        | _ :: _ :: _ =>
            exact .bind (keeps_tellLeader fun _ _ => rfl) fun _ =>
              .bind keeps_problemToString fun _ => .update _
    · exact .pure

theorem keeps_receive (choices : List ℕ) (sender : ActorRef n m) (message : Message K n m) :
    Keeps i (receive i choices sender message : RegionReceive K n m) := by
  cases message with
  | createRegion j settings solutions time p =>
      exact keeps_onCreate sender settings solutions time p
  | setLeader leader => exact .bind (.update _) fun _ => .update _
  | solutionResponse j k solutions =>
      exact .bind keeps_problemToString fun _ => keeps_addSolutions solutions
  | solutionRequest j k counter => exact keeps_onSolutionRequest choices sender k counter
  | mergeRequest j k summary space => exact keeps_onMergeRequest sender j summary space
  | mergeResponse j k => exact keeps_onMergeResponse sender j
  | mergeResult j k solutions =>
      exact .bind keeps_problemToString fun _ => keeps_addSolutions solutions
  | internalStimulus => exact keeps_onInternalStimulus
  | updateGlobalSummary j summary time ids =>
      exact .bind keeps_problemToString fun _ => .update _
  | stopSimulation =>
      exact .bind keeps_cancelTask fun _ => .bind .deref fun r => .bind (.update _) fun _ =>
        .tell rfl
  | _ => exact .pure

end RegionActor

/-! ## The cluster -/

variable {K : Type} {n m : ℕ}

theorem sends_mainReceive {S : ActorRef n m → ActorRef n m → Message K n m → Prop}
    {A : ActorRef n m → Message K n m → Prop} (settings : SimulationSettings)
    (hstart : ∀ dst, S dst (.actor .main) (.startSimulation none))
    (hterminate : ∀ dst, S dst (.actor .main) .terminate) (message : Message K n m) :
    SendsOnly S A (mainReceive settings message) := by
  unfold mainReceive
  split
  · exact .tell (hstart _)
  · exact .forEach fun node _ => .tell (hterminate _)
  · exact .pure

theorem cluster_keeps [RealArith K] [CommonsMath K] [MetaHeuristics K] (d : Deployment K) :
    (cluster n m d).Keeps Origin where
  receive a choices sender message := by
    cases a with
    | node k =>
        exact SimulationActor.sends_receive SimulationActor.speaks_origin
          SimulationActor.stopping_origin choices.toOracle sender message
          fun h dst => h.origin dst sender
    | region i => exact RegionActor.keeps_receive choices.choices sender message
    | agent j =>
        exact AgentActor.sends_receive AgentActor.speaks_origin _ _ choices.toOracle sender message
    | benchmark =>
        exact BenchmarkActor.sends_receive BenchmarkActor.speaks_origin _ choices.extraction sender
          message
    | main => exact sends_mainReceive d.settings (fun _ => trivial) (fun _ => trivial) message
    | client c => exact .pure
    | stray id => exact .pure
  restart a s out hout := by
    cases a with
    | agent j => exact AgentActor.sends_recover AgentActor.speaks_origin s out hout
    | node k => exact absurd hout List.not_mem_nil
    | region i => exact absurd hout List.not_mem_nil
    | benchmark => exact absurd hout List.not_mem_nil
    | main => exact absurd hout List.not_mem_nil
    | client c => exact absurd hout List.not_mem_nil
    | stray id => exact absurd hout List.not_mem_nil

end DOptimas.Actors
