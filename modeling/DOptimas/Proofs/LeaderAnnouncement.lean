import DOptimas.Actors.Leaders
import DOptimas.Core.SampleHeuristics
import DOptimas.Support.Network
import DOptimas.Support.Rational
/-!
# Announcing a new leader

A manager that becomes the leader tells the entities in its tables, if its own
flag says that a simulation has started, and agents do not listen.  A run is
followed together with the latest manager that has learned that it leads; what
entities send to their leader is compared with it.
-/

namespace DOptimas.Proofs.LeaderAnnouncement

open DOptimas.Support DOptimas.Core DOptimas.Actors DOptimas.Actors.SimulationActor Handler

variable {K : Type} {n m : ℕ}

def Registers (s : SimulationActor K n m) (r : ActorRef n m) : Prop :=
  (∃ id, s.agents id = some r) ∨ ∃ id, s.regions id = some r

def enlisted (sender : ActorRef n m) : Message K n m → Option (ActorRef n m)
  | .agentRegister _ ref => some ref
  | .regionRegister _ _ => some sender
  | _ => none

def elects (p : Packet (Address n m) (Message K n m)) : Option ℕ :=
  match p.dst, p.message with
  | .actor (.node k), .leaderChanged (some leader) => if leader = k then some k else none
  | _, _ => none

def leaderIn (p : Packet (Address n m) (Message K n m)) : Option (ActorRef n m) :=
  match p.dst with
  | .actor (.region _) => RegionActor.leaderIn p.sender p.message
  | .actor (.agent _) => AgentActor.leaderIn p.message
  | _ => none

def IsEntity : Address n m → Prop
  | .region _ => True
  | .agent _ => True
  | _ => False

def IsRegion (r : ActorRef n m) : Prop := ∃ i, r = .actor (.region i)

def announces : Message K n m → Bool
  | .setLeader _ => true
  | _ => false

section Runs

variable [RealArith K] [CommonsMath K] [MetaHeuristics K] {d : Deployment K}

def InProgress (c : Cluster n m d) : Prop := ∃ k, (c.node k).simulationStarted = true

def Follows (c : Cluster n m d) (k : ℕ) : ActorRef n m → Prop
  | .actor (.region i) => (c.region i).leader = some (self k)
  | .actor (.agent j) => (c.agent j).leader = some (self k)
  | _ => True

/-- The announcement to the entity is on its way. -/
def Pending (c : Cluster n m d) (k : ℕ) (r : ActorRef n m) : Prop :=
  ∃ p ∈ c.net, p.dst = r ∧ p.sender = self k ∧ announces p.message = true

/-- A region will follow the manager of node `k`, or does so already. -/
def Reached (c : Cluster n m d) (k : ℕ) (r : ActorRef n m) : Prop :=
  Follows c k r ∨ IsRegion r ∧ Pending c k r

/-- A cluster with the latest node that has learned that it leads, and what the
cluster was then. -/
structure Watch (n m : ℕ) (d : Deployment K) where
  cluster : Cluster n m d
  elected : Option (ℕ × Cluster n m d)

def Watch.start (c : Cluster n m d) : Watch n m d := ⟨c, none⟩

def step (w : Watch n m d) (e : ClusterEvent K n m) : Option (Watch n m d) :=
  (Config.step w.cluster e).map fun c' =>
    { cluster := c'
      elected :=
        match (w.cluster.delivered e).bind elects with
        | some k => some (k, w.cluster)
        | none => w.elected }

/-- Node `k` is the latest that has learned that it leads, during a simulation. -/
def Leads (w : Watch n m d) (k : ℕ) : Prop :=
  ∃ c, w.elected = some (k, c) ∧ InProgress c

/-- What registered regions and agents send to their leader goes to the manager of
the latest node, once its announcement has been delivered to them. -/
def Addressed (w : Watch n m d) (e : ClusterEvent K n m) : Prop :=
  ∀ k, Leads w k → ∀ a, IsEntity a → Registers (w.cluster.node k) (.actor a) →
    ¬Pending w.cluster k (.actor a) → ∀ w', step w e = some w' →
      ∀ p ∈ w.cluster.arrivals w'.cluster e, p.src = a →
        LeaderBound (∃ q ∈ w.cluster.delivered e, IsStop q.message) p.dst p.message →
          p.dst = self k

/-- Announcing would reach every entity, and afterwards none of them is told of
another leader or registers without being reached. -/
structure Announceable (w : Watch n m d) (e : ClusterEvent K n m) : Prop where
  /-- A new leader finds the entities following it, or is to announce itself to
  regions. -/
  election : ∀ p ∈ w.cluster.delivered e, ∀ k ∈ elects p, InProgress w.cluster →
    ∀ r, Registers (w.cluster.node k) r →
      Reached w.cluster k r ∨ IsRegion r ∧ (w.cluster.node k).simulationStarted = true
  leader : ∀ k, Leads w k → ∀ p ∈ w.cluster.delivered e, ∀ leader ∈ leaderIn p,
    Registers (w.cluster.node k) p.dst →
      IsRegion p.dst ∧ Pending w.cluster k p.dst ∨ leader = self k
  registration : ∀ k, Leads w k → ∀ p ∈ w.cluster.delivered e, p.dst = self k →
    ∀ r ∈ enlisted p.sender p.message, Reached w.cluster k r

def FromOutside : ClusterEvent K n m → Prop
  | .inject p => ¬IsEntity p.src
  | _ => True

end Runs

theorem announces_iff {message : Message K n m} :
    announces message = true ↔ ∃ leader, message = .setLeader leader := by
  cases message <;> simp [announces]

/-! ## The tables of a manager -/

section Tables

def Fewer (s t : SimulationActor K n m) : Prop := ∀ r, Registers t r → Registers s r

theorem Fewer.refl (s : SimulationActor K n m) : Fewer s s := fun _ h => h

theorem Fewer.trans {s t u : SimulationActor K n m} (hst : Fewer s t) (htu : Fewer t u) :
    Fewer s u :=
  fun r h => hst r (htu r h)

theorem fewer_of_unmoved {s t : SimulationActor K n m} (h : Unmoved s t) : Fewer s t := by
  rintro r (⟨id, hid⟩ | ⟨id, hid⟩)
  · rw [h.agents] at hid
    exact Or.inl ⟨id, hid⟩
  · rcases h.regions id with hsame | hnone
    · rw [hsame] at hid
      exact Or.inr ⟨id, hid⟩
    · rw [hnone] at hid
      simp at hid

theorem carries_fewer (k : ℕ) :
    Carries (fun _ x => Moves (Fewer (K := K) (n := n) (m := m)) x) k :=
  carries_moves (fun _ _ => fewer_of_unmoved) (fun _ _ _ => Fewer.trans) k

section Handlers

variable {k : ℕ}

theorem fewer_tell (dst sender : ActorRef n m) (message : Message K n m) :
    Moves Fewer (tell dst sender message : SimulationReceive K n m Unit) := Fewer.refl

theorem fewer_update {f : SimulationActor K n m → SimulationActor K n m}
    (hf : ∀ s, (f s).agents = s.agents ∧ (f s).regions = s.regions) :
    Moves Fewer (update f : SimulationReceive K n m Unit) := by
  intro s r hr
  obtain ⟨hagents, hregions⟩ := hf s
  unfold Registers at hr ⊢
  rw [hagents, hregions] at hr
  exact hr

theorem fewer_deref {α : Type} {e : Failure} {field : SimulationActor K n m → Option α} :
    Moves Fewer (deref e field : SimulationReceive K n m α) := by
  intro s
  cases hfield : field s with
  | none =>
      rw [deref_none hfield]
      exact Fewer.refl s
  | some a =>
      rw [deref_some hfield]
      exact Fewer.refl s

theorem fewer_nextRegionId :
    Moves Fewer (nextRegionId : SimulationReceive K n m (Option (Fin n))) := by
  refine (carries_fewer 0).get fun s => ?_
  split
  · exact Fewer.refl
  · exact (carries_fewer 0).bind (fewer_update fun _ => ⟨rfl, rfl⟩) fun _ => Fewer.refl

theorem fewer_createRegion (settings : SimulationSettings) (id : Fin n)
    (solutions : List (Solution K)) :
    Moves Fewer (createRegion settings k id solutions : SimulationReceive K n m Unit) :=
  (carries_fewer k).get fun _ => fewer_tell _ _ _

theorem fewer_sendToRegion [RealArith K] [CommonsMath K] (round : K → JDouble K)
    (draws : List (Draw K)) (senderId : ℤ) (solutions : List (Solution K)) :
    Moves Fewer (sendToRegion k round draws senderId solutions : SimulationReceive K n m Unit) := by
  refine (carries_fewer k).bind (fun s => ?_) fun id =>
    (carries_fewer k).bind fewer_deref fun region => fewer_tell _ _ _
  unfold selectRegion
  split
  · exact Fewer.refl s
  · exact Fewer.refl s
  · trivial

theorem fewer_placeHalf [RealArith K] [CommonsMath K] (settings : SimulationSettings)
    (round : K → JDouble K) (draws : List (Draw K)) (solutions fallback : List (Solution K)) :
    Moves Fewer (placeHalf settings k round draws solutions fallback :
      SimulationReceive K n m Unit) := by
  unfold placeHalf
  split
  · exact Fewer.refl
  · refine (carries_fewer k).bind fewer_nextRegionId fun id => ?_
    split
    · exact fewer_createRegion settings _ _
    · exact fewer_sendToRegion round draws _ _

theorem fewer_forwardToRegions (sender : ActorRef n m) (message : Message K n m)
    (keep : ActorRef n m → Bool) : Moves Fewer (forwardToRegions sender message keep) := by
  refine (carries_fewer 0).get fun s => (carries_fewer 0).forEach fun id _ => ?_
  split
  · exact Fewer.refl
  · split
    · exact fewer_tell _ _ _
    · exact Fewer.refl

theorem fewer_announceLeader {i : ℕ} (table : Fin i → Option (ActorRef n m)) :
    Moves Fewer (announceLeader k table : SimulationReceive K n m Unit) := by
  refine (carries_fewer k).forEach fun id _ => ?_
  split
  · exact Fewer.refl
  · exact fewer_tell _ _ _

theorem fewer_onLeaderChanged (leader : Option ℕ) :
    Moves Fewer (onLeaderChanged k leader : SimulationReceive K n m Unit) := by
  unfold onLeaderChanged
  split
  · exact fewer_update fun _ => ⟨rfl, rfl⟩
  · split
    · refine (carries_fewer k).bind (fewer_update fun _ => ⟨rfl, rfl⟩) fun _ =>
        (carries_fewer k).get fun s => ?_
      split
      · exact (carries_fewer k).bind (fewer_announceLeader _) fun _ => fewer_announceLeader _
      · exact Fewer.refl
    · exact fewer_update fun _ => ⟨rfl, rfl⟩

theorem fewer_onStartSimulation (sender : ActorRef n m) (problem : Option Problem) :
    Moves Fewer (onStartSimulation k sender problem : SimulationReceive K n m Unit) := by
  refine (carries_fewer k).bind (fewer_update fun _ => ⟨rfl, rfl⟩) fun _ =>
    (carries_fewer k).get fun s => (carries_fewer k).bind ((carries_fewer k).forEach fun id _ => ?_)
      fun _ => (carries_fewer k).bind (fewer_update fun _ => ⟨rfl, rfl⟩) fun _ => fewer_tell _ _ _
  split
  · exact Fewer.refl
  · exact fewer_tell _ _ _

theorem fewer_onSolutionResult [RealArith K] [CommonsMath K] (settings : SimulationSettings)
    (oracle : Oracle K) (solutions : List (Solution K)) :
    Moves Fewer (onSolutionResult settings k oracle solutions :
      SimulationReceive K n m Unit) := by
  unfold onSolutionResult
  split
  · exact Fewer.refl
  · refine (carries_fewer k).get fun s => ?_
    split
    · refine (carries_fewer k).bind fewer_nextRegionId fun id => ?_
      split
      · exact Fewer.refl
      · exact fewer_createRegion settings _ _
    · exact fewer_sendToRegion _ _ _ _

theorem fewer_onStopSimulation [CommonsMath K] (settings : SimulationSettings)
    (sender : ActorRef n m) :
    Moves Fewer (onStopSimulation settings k sender : SimulationReceive K n m Unit) := by
  refine (carries_fewer k).get fun s => ?_
  split
  · refine (carries_fewer k).bind ((carries_fewer k).stopAgentsAndRegions _) fun _ =>
      (carries_fewer k).bind (carries_fewer k).resetRegionsData fun _ => ?_
    exact (carries_fewer k).bind (fewer_update fun _ => ⟨rfl, rfl⟩) fun _ =>
      (carries_fewer k).get fun t => fewer_tell _ _ _
  · split
    · exact Fewer.refl
    · exact fewer_tell _ _ _

def enrolled (s : SimulationActor K n m) (sender : ActorRef n m) :
    Message K n m → SimulationActor K n m
  | .agentRegister id ref => { s with agents := Function.update s.agents id (some ref) }
  | .regionRegister id stats =>
      { s with
        regions := Function.update s.regions id (some sender)
        regionsSummary := Function.update s.regionsSummary id (some stats) }
  | _ => s

theorem registers_enrolled {s : SimulationActor K n m} {sender r : ActorRef n m}
    {message : Message K n m} (h : Registers (enrolled s sender message) r) :
    Registers s r ∨ r ∈ enlisted sender message := by
  cases message with
  | agentRegister id ref =>
      rcases h with ⟨i, hi⟩ | hregion
      · by_cases hid : i = id
        · subst hid
          exact Or.inr (by simpa [enrolled, enlisted] using hi)
        · exact Or.inl (Or.inl ⟨i, by simpa [enrolled, hid] using hi⟩)
      · exact Or.inl (Or.inr hregion)
  | regionRegister id stats =>
      rcases h with hagent | ⟨i, hi⟩
      · exact Or.inl (Or.inl hagent)
      · by_cases hid : i = id
        · subst hid
          exact Or.inr (by simpa [enrolled, enlisted] using hi)
        · exact Or.inl (Or.inr ⟨i, by simpa [enrolled, hid] using hi⟩)
  | _ => exact Or.inl h

theorem moves_receive [RealArith K] [CommonsMath K] (settings : SimulationSettings)
    (oracle : Oracle K) (sender : ActorRef n m) (message : Message K n m)
    (s : SimulationActor K n m) :
    (receive settings k oracle sender message s).Moves Fewer (enrolled s sender message) := by
  have h := carries_fewer (K := K) (n := n) (m := m) k
  have hstop : Moves Fewer (stopAll settings k : SimulationReceive K n m Unit) :=
    h.stopAgentsAndRegions _
  cases message with
  | leaderChanged leader => exact fewer_onLeaderChanged leader s
  | leaderResolved leader => exact fewer_update (fun _ => ⟨rfl, rfl⟩) s
  | agentRegister id ref =>
      exact (carries_fewer k).forwardIfLeader (fun _ => fewer_tell _ _ _) (enrolled s sender _)
  | agentRelease id =>
      rintro r (⟨i, hi⟩ | hregion)
      · by_cases hid : i = id
        · subst hid
          simp at hi
        · exact Or.inl ⟨i, by simpa [enrolled, hid] using hi⟩
      · exact Or.inr hregion
  | regionRegister id stats =>
      have hrest : Moves Fewer (do
          calculateGlobalParameters settings k (stopAll settings k)
          updateRegions k
          updateAgents k
          if (← get).amILeader then forwardToAllNodes k sender (.regionRegister id stats)
          else pure () : SimulationReceive K n m Unit) :=
        h.bind (h.calculateGlobalParameters hstop) fun _ => h.bind h.updateRegions fun _ =>
          h.bind h.updateAgents fun _ => h.forwardIfLeader fun _ => fewer_tell _ _ _
      exact hrest (enrolled s sender (.regionRegister id stats))
  | solutionResult solutions => exact fewer_onSolutionResult settings oracle solutions s
  | solutionRequest i j counter => exact fewer_forwardToRegions sender _ _ s
  | regionSplit i lower higher =>
      exact h.bind (fewer_placeHalf settings _ _ _ _) (fun _ => fewer_placeHalf settings _ _ _ _) s
  | mergeRequest i j summary space => exact fewer_forwardToRegions sender _ _ s
  | regionRelease id => exact h.onRegionRelease hstop id s
  | updateRegionSummary id summary =>
      have hsummary : Moves Fewer (onUpdateRegionSummary settings k id summary) :=
        h.bind (fewer_update fun _ => ⟨rfl, rfl⟩) fun _ => h.calculateGlobalParameters hstop
      exact hsummary s
  | startSimulation problem => exact fewer_onStartSimulation sender problem s
  | stopSimulation => exact fewer_onStopSimulation settings sender s
  | getState => exact h.get (fun _ => fewer_tell _ _ _) s
  | terminate => trivial
  | _ => exact Fewer.refl s

end Handlers

end Tables

/-! ## The announcement -/

section Announcement

variable {k : ℕ}

theorem announceLeader_eq {i : ℕ} (table : Fin i → Option (ActorRef n m))
    (s : SimulationActor K n m) :
    (announceLeader k table s).outcome = .done () s ∧
      ∀ id r, table id = some r →
        (⟨r, self k, .setLeader (self k)⟩ : Sending (ActorRef n m) (Message K n m)) ∈
          (announceLeader k table s).sent := by
  have hloop : ∀ ids : List (Fin i), ∀ tell : Fin i → SimulationReceive K n m Unit,
      (∀ id, table id = none → tell id = pure ()) →
      (∀ id r, table id = some r → tell id = Handler.tell r (self k) (.setLeader (self k))) →
      (forEach ids tell s).outcome = .done () s ∧
      ∀ id ∈ ids, ∀ r, table id = some r →
        (⟨r, self k, .setLeader (self k)⟩ : Sending (ActorRef n m) (Message K n m)) ∈
          (forEach ids tell s).sent := by
    intro ids tell hnone hsome
    induction ids with
    | nil => exact ⟨rfl, fun id hid => absurd hid List.not_mem_nil⟩
    | cons id ids ih =>
        obtain ⟨hdone, hsent⟩ := ih
        cases hid : table id with
        | none =>
            rw [forEach_cons, hnone id hid, pure_apply, Process.ret_bind]
            refine ⟨hdone, fun id' hid' r hr => ?_⟩
            rcases List.mem_cons.1 hid' with rfl | hmem
            · simp [hid] at hr
            · exact hsent id' hmem r hr
        | some entity =>
            rw [forEach_cons, hsome id entity hid, tell_apply, Process.tell_bind, Process.ret_bind,
              Process.outcome_tell, Process.sent_tell]
            refine ⟨hdone, fun id' hid' r hr => ?_⟩
            rcases List.mem_cons.1 hid' with rfl | hmem
            · obtain rfl : entity = r := by simpa [hid] using hr
              exact List.mem_cons_self
            · exact List.mem_cons_of_mem _ (hsent id' hmem r hr)
  refine ⟨(hloop (List.finRange i) _ (fun id hid => ?_) fun id r hid => ?_).1, fun id r hr =>
    (hloop (List.finRange i) _ (fun id hid => ?_) fun id r hid => ?_).2 id (List.mem_finRange id) r
      hr⟩
  all_goals simp only [hid]

theorem sent_onLeaderChanged {s : SimulationActor K n m} (hstarted : s.simulationStarted = true)
    {r : ActorRef n m} (hr : Registers s r) :
    (⟨r, self k, .setLeader (self k)⟩ : Sending (ActorRef n m) (Message K n m)) ∈
      (onLeaderChanged k (some k) s).sent := by
  let t : SimulationActor K n m := { s with amILeader := true, leader := some (self k) }
  have heq : (onLeaderChanged k (some k) s) =
      (announceLeader k s.agents t).bind fun _ u => announceLeader k s.regions u := by
    have ht : t.simulationStarted = true := hstarted
    simp only [onLeaderChanged, if_true, bind_apply, update_apply, Process.ret_bind, get_apply]
    rw [show ({ s with amILeader := true, leader := some (self k) } : SimulationActor K n m) = t
      from rfl, ht]
    rfl
  obtain ⟨hagents, hsentAgents⟩ := announceLeader_eq (k := k) s.agents t
  obtain ⟨-, hsentRegions⟩ := announceLeader_eq (k := k) s.regions t
  rw [heq, Process.sent_bind, hagents]
  rcases hr with ⟨id, hid⟩ | ⟨id, hid⟩
  · exact List.mem_append_left _ (hsentAgents id r hid)
  · exact List.mem_append_right _ (hsentRegions id r hid)

end Announcement

/-! ## What every run keeps -/

section Safety

variable [RealArith K] [CommonsMath K] [MetaHeuristics K] {d : Deployment K}

/-- The rest of an agent's handler keeps to this leader. -/
def Guides (j : Fin m) (leader : Option (ActorRef n m)) (c : Cluster n m d) : Prop :=
  ∀ q next, c.waiting (.agent j) = some (q, next) → ∀ answer,
    (next answer).Sat (following AgentActor.leader AgentActor.savedLeader True False (· = leader))
      (fun _ => AgentActor.Led (· = leader)) ()

/-- Entities have their leader in their journal, regions never wait, and nothing
that is blocked changes a leader or registers anybody. -/
structure Guided (c : Cluster n m d) : Prop where
  region : ∀ i, (c.region i).savedLeader = (c.region i).leader
  idle : ∀ i, c.waiting (.region i) = none
  agent : ∀ j, (c.agent j).savedLeader = (c.agent j).leader
  waiting : ∀ j, Guides j (c.agent j).leader c
  tables : ∀ k, c.Held (.node k) Fewer

theorem region_led {c c' : Cluster n m d} {i : Fin n} {stopping : Prop}
    {G : Option (ActorRef n m) → Prop}
    {p : Process Failure (RegionActor K n m) (ActorRef n m) (Message K n m) Unit}
    (hp : p.Sat (following RegionActor.leader RegionActor.savedLeader False stopping G)
      (fun _ => RegionActor.Led G) ())
    (hsettle : Config.settle c (.region i) p = some c') :
    RegionActor.Led G (c'.region i) () ∧ c'.waiting (.region i) = none := by
  have hend := hp.segment.2
  rcases Config.settle_cases hsettle with ⟨u, t, hout, rfl⟩ | ⟨e, t, hout, rfl⟩ |
    ⟨t, dst, message, next, hout, rfl⟩
  · rw [hout] at hend
    exact ⟨by simpa [Cluster.region] using hend, by simp⟩
  · rw [hout] at hend
    have hsaved : G t.savedLeader := hend
    have hstate : Cluster.region (Config.crash c (.region i) t p.sent) i = RegionActor.recover t :=
      Config.state_finish_self _ _ _ _
    refine ⟨?_, by simp [Config.crash]⟩
    rw [hstate, RegionActor.Led, RegionActor.leader_recover, RegionActor.savedLeader_recover]
    exact ⟨hsaved, rfl⟩
  · rw [hout] at hend
    exact hend.1.1.elim

theorem agent_led {c c' : Cluster n m d} {j : Fin m} {leader : Option (ActorRef n m)}
    {p : Process Failure (AgentActor K n m) (ActorRef n m) (Message K n m) Unit}
    (hp : p.Sat (following AgentActor.leader AgentActor.savedLeader True False (· = leader))
      (fun _ => AgentActor.Led (· = leader)) ())
    (hsettle : Config.settle c (.agent j) p = some c') :
    AgentActor.Led (· = leader) (c'.agent j) () ∧ Guides j leader c' := by
  have hend := hp.segment.2
  rcases Config.settle_cases hsettle with ⟨u, t, hout, rfl⟩ | ⟨e, t, hout, rfl⟩ |
    ⟨t, dst, message, next, hout, rfl⟩
  · rw [hout] at hend
    refine ⟨by simpa [Cluster.agent] using hend, fun q next hwait => ?_⟩
    simp at hwait
  · rw [hout] at hend
    have hsaved : t.savedLeader = leader := hend
    have hstate :
        Cluster.agent (Config.crash c (.agent j) t p.sent) j = (AgentActor.recover j t).1 :=
      Config.state_finish_self _ _ _ _
    refine ⟨?_, fun q next hwait => ?_⟩
    · rw [hstate, AgentActor.Led, AgentActor.leader_recover, AgentActor.savedLeader_recover]
      exact ⟨hsaved, rfl⟩
    · simp [Config.crash] at hwait
  · rw [hout] at hend
    obtain ⟨⟨-, hled, -⟩, hnext⟩ := hend
    refine ⟨by simpa [Cluster.agent] using hled, fun q next' hwait answer => ?_⟩
    obtain ⟨rfl, rfl⟩ : dst = q ∧ next = next' := by simpa using hwait
    exact hnext answer trivial

theorem region_turn {c : Cluster n m d} (h : Guided c) {e : ClusterEvent K n m} {i : Fin n}
    {p : Process Failure (RegionActor K n m) (ActorRef n m) (Message K n m) Unit}
    (hturn : Config.Turn c e (.region i) p) :
    ∃ q choices, c.delivered e = some q ∧ q.dst = .actor (.region i) ∧
      p = RegionActor.receive i choices q.sender q.message (c.region i) := by
  rcases hturn.handles_or_resumes with ⟨q, choices, hq, hdst, -, rfl⟩ | ⟨q, next, answer, hwait, -⟩
  · exact ⟨q, choices.choices, hq, hdst, rfl⟩
  · rw [h.idle i] at hwait
    simp at hwait

/-- An agent goes on with its leader, or is created with another one. -/
theorem agent_turn {c : Cluster n m d} (h : Guided c) {e : ClusterEvent K n m} {j : Fin m}
    {p : Process Failure (AgentActor K n m) (ActorRef n m) (Message K n m) Unit}
    (hturn : Config.Turn c e (.agent j) p) :
    ∃ leader, (leader = (c.agent j).leader ∨ ∃ q ∈ c.delivered e, q.dst = .actor (.agent j) ∧
        ∃ created, AgentActor.leaderIn q.message = some created ∧ leader = some created) ∧
      p.Sat (following AgentActor.leader AgentActor.savedLeader True False (· = leader))
        (fun _ => AgentActor.Led (· = leader)) () := by
  rcases hturn.handles_or_resumes with ⟨q, choices, hq, hdst, -, rfl⟩ |
    ⟨q, next, answer, hwait, rfl, -⟩
  · change ∃ leader, _ ∧ (AgentActor.receive d.settings.problem d.settings.hasCooperation j
      choices.toOracle q.sender q.message (c.agent j)).Sat _ _ ()
    cases hleader : AgentActor.leaderIn q.message with
    | none =>
        exact ⟨(c.agent j).leader, Or.inl rfl,
          AgentActor.follows_receive _ _ j choices.toOracle q.sender hleader _ () ⟨rfl, h.agent j⟩⟩
    | some created =>
        refine ⟨some created, Or.inr ⟨q, hq, hdst, created, hleader, rfl⟩, ?_⟩
        cases hmessage : q.message with
        | createAgent i leader agentSettings =>
            obtain rfl : leader = created := by simpa [hmessage, AgentActor.leaderIn] using hleader
            exact AgentActor.follows_onCreateAgent (G := (· = some leader)) _ j q.sender leader
              agentSettings rfl _ () trivial
        | _ => simp [hmessage, AgentActor.leaderIn] at hleader
  · exact ⟨(c.agent j).leader, Or.inl rfl, h.waiting j q next hwait answer⟩

theorem node_turn {c : Cluster n m d} (h : Guided c) {e : ClusterEvent K n m} {k : ℕ}
    {p : Process Failure (SimulationActor K n m) (ActorRef n m) (Message K n m) Unit}
    (hturn : Config.Turn c e (.node k) p) :
    ∃ s, p.Moves Fewer s ∧ ∀ r, Registers s r → Registers (c.node k) r ∨
      ∃ q ∈ c.delivered e, q.dst = self k ∧ r ∈ enlisted q.sender q.message := by
  rcases hturn.handles_or_resumes with ⟨q, choices, hq, hdst, -, rfl⟩ |
    ⟨q, next, answer, hwait, rfl, -⟩
  · refine ⟨enrolled (c.node k) q.sender q.message,
      moves_receive d.settings choices.toOracle q.sender q.message _, fun r hr => ?_⟩
    rcases registers_enrolled hr with hold | hnew
    · exact Or.inl hold
    · exact Or.inr ⟨q, hq, hdst, hnew⟩
  · exact ⟨c.node k, h.tables k q next hwait answer, fun r hr => Or.inl hr⟩

theorem Guided.turn {c c' : Cluster n m d} (h : Guided c) {e : ClusterEvent K n m}
    {a : Address n m} {p : Process Failure (ActorState K n m a) (ActorRef n m) (Message K n m) Unit}
    (hturn : Config.Turn c e a p)
    (hsettle : Config.settle { c with net := c.remaining e } a p = some c') : Guided c' := by
  have hstate : ∀ b, b ≠ a → c'.state b = c.state b := fun b hb =>
    Config.state_settle_ne hsettle hb
  have hwait : ∀ b, b ≠ a → c'.waiting b = c.waiting b := fun b hb =>
    Config.waiting_settle_ne hsettle hb
  have hregion : ∀ i, (c'.region i).savedLeader = (c'.region i).leader ∧
      c'.waiting (.region i) = none := by
    intro i
    by_cases ha : Address.region i = a
    · subst ha
      obtain ⟨q, choices, -, -, rfl⟩ := region_turn h hturn
      have hled : RegionActor.Follows True (fun _ => True)
          (RegionActor.receive i choices q.sender q.message) :=
        RegionActor.follows_receive i choices q.sender (fun _ => trivial) fun _ _ => trivial
      obtain ⟨hled', hidle⟩ := region_led (hled _ () ⟨trivial, h.region i⟩) hsettle
      exact ⟨hled'.2, hidle⟩
    · rw [Cluster.region, hstate _ ha, hwait _ ha]
      exact ⟨h.region i, h.idle i⟩
  have hagent : ∀ j, (c'.agent j).savedLeader = (c'.agent j).leader ∧
      Guides j (c'.agent j).leader c' := by
    intro j
    by_cases ha : Address.agent j = a
    · subst ha
      obtain ⟨leader, -, hsat⟩ := agent_turn h hturn
      obtain ⟨hled, hguides⟩ := agent_led hsat hsettle
      rw [hled.1]
      exact ⟨hled.2.trans hled.1, hguides⟩
    · have hsame : c'.agent j = c.agent j := hstate _ ha
      rw [hsame]
      refine ⟨h.agent j, fun q next hnext => ?_⟩
      rw [hwait _ ha] at hnext
      exact h.waiting j q next hnext
  refine ⟨fun i => (hregion i).1, fun i => (hregion i).2, fun j => (hagent j).1,
    fun j => (hagent j).2, fun k => ?_⟩
  by_cases ha : Address.node k = a
  · subst ha
    obtain ⟨s, hmoves, -⟩ := node_turn h hturn
    exact (Config.moves_settle hmoves hsettle).1
  · have hheld : Config.Held { c with net := c.remaining e } (.node k) Fewer := h.tables k
    exact hheld.settle_ne ha hsettle

theorem Guided.step {c c' : Cluster n m d} (h : Guided c) {e : ClusterEvent K n m}
    (hstep : Config.step c e = some c') : Guided c' := by
  rcases Config.step_cases hstep with ⟨a, p, hturn, hsettle⟩ | ⟨q, -, rfl⟩ |
    ⟨src, a, k, draws, -, rfl⟩
  · exact h.turn hturn hsettle
  · exact ⟨h.region, h.idle, h.agent, h.waiting, h.tables⟩
  · exact ⟨h.region, h.idle, h.agent, h.waiting, h.tables⟩

/-- An announcement on its way arrives or stays on its way. -/
theorem pending_step {c c' : Cluster n m d} {e : ClusterEvent K n m}
    (hstep : Config.step c e = some c') {k : ℕ} {r : ActorRef n m} (h : Pending c k r) :
    (∃ q ∈ c.delivered e, q.dst = r ∧ q.sender = self k ∧ announces q.message = true) ∨
      Pending c' k r := by
  obtain ⟨q, hq, hdst, hsender, hmessage⟩ := h
  rcases Config.delivered_or_mem hstep hq with hq | hq
  · exact Or.inl ⟨q, hq, hdst, hsender, hmessage⟩
  · exact Or.inr ⟨q, hq, hdst, hsender, hmessage⟩

theorem follows_congr {c c' : Cluster n m d} {k : ℕ} {r : ActorRef n m}
    (h : ∀ a, r = .actor a → c'.state a = c.state a) (hfollows : Follows c k r) :
    Follows c' k r := by
  match r with
  | .actor (.region i) =>
      have hsame : c'.region i = c.region i := h _ rfl
      rw [Follows, hsame]
      exact hfollows
  | .actor (.agent j) =>
      have hsame : c'.agent j = c.agent j := h _ rfl
      rw [Follows, hsame]
      exact hfollows
  | .actor (.node _) => trivial
  | .actor .benchmark => trivial
  | .actor .main => trivial
  | .actor (.client _) => trivial
  | .actor (.stray _) => trivial
  | .promise _ _ => trivial

theorem reached_of_ne {c c' : Cluster n m d} {e : ClusterEvent K n m}
    (hstep : Config.step c e = some c') {k : ℕ} {r : ActorRef n m}
    (hstate : ∀ a, r = .actor a → c'.state a = c.state a)
    (hdst : ∀ q ∈ c.delivered e, IsRegion r → q.dst ≠ r) (h : Reached c k r) :
    Reached c' k r := by
  rcases h with hfollows | ⟨hregion, hpending⟩
  · exact Or.inl (follows_congr hstate hfollows)
  · rcases pending_step hstep hpending with ⟨q, hq, hr, -⟩ | hpending
    · exact absurd hr (hdst q hq hregion)
    · exact Or.inr ⟨hregion, hpending⟩

theorem reached_region {c c' : Cluster n m d} (h : Guided c) {e : ClusterEvent K n m} {i : Fin n}
    {p : Process Failure (RegionActor K n m) (ActorRef n m) (Message K n m) Unit}
    (hstep : Config.step c e = some c') (hturn : Config.Turn c e (.region i) p)
    (hsettle : Config.settle { c with net := c.remaining e } (.region i) p = some c') {k : ℕ}
    (hreached : Reached c k (.actor (.region i)))
    (hguard : ∀ q ∈ c.delivered e, ∀ leader ∈ leaderIn q,
      IsRegion q.dst ∧ Pending c k q.dst ∨ leader = self k) :
    Reached c' k (.actor (.region i)) := by
  obtain ⟨q, choices, hq, hdst, rfl⟩ := region_turn h hturn
  have hpending : Pending c k (.actor (.region i)) → Reached c' k (.actor (.region i)) := by
    intro hpending
    rcases pending_step hstep hpending with ⟨q', hq', -, hsender, hannounces⟩ | hpending
    · obtain ⟨leader, hmessage⟩ := announces_iff.1 hannounces
      obtain rfl : q = q' := by
        rw [hq] at hq'
        exact Option.some.inj hq'
      rw [hmessage, hsender] at hsettle
      have hled : (RegionActor.receive i choices (self k) (.setLeader leader) (c.region i)).Sat
          (following RegionActor.leader RegionActor.savedLeader False False (· = some (self k)))
          (fun _ => RegionActor.Led (· = some (self k))) () :=
        RegionActor.follows_onLeaderChanged (G := (· = some (self k))) rfl _ () trivial
      exact Or.inl (region_led hled hsettle).1.1
    · exact Or.inr ⟨⟨i, rfl⟩, hpending⟩
  rcases hreached with hfollows | ⟨-, hreached⟩
  · by_cases hall : ∀ leader, RegionActor.leaderIn q.sender q.message = some leader →
        leader = self k
    · have hled : RegionActor.Follows (IsStop q.message) (· = some (self k))
          (RegionActor.receive i choices q.sender q.message) :=
        RegionActor.follows_receive i choices q.sender id fun leader hleader =>
          congrArg some (hall leader hleader)
      exact Or.inl (region_led (hled _ () ⟨hfollows, h.region i⟩) hsettle).1.1
    · simp only [not_forall] at hall
      obtain ⟨leader, hleader, hne⟩ := hall
      have hin : leader ∈ leaderIn q := by
        rw [leaderIn, hdst]
        exact hleader
      rcases hguard q hq leader hin with ⟨-, hreached⟩ | hself
      · rw [hdst] at hreached
        exact hpending hreached
      · exact absurd hself hne
  · exact hpending hreached

theorem reached_agent {c c' : Cluster n m d} (h : Guided c) {e : ClusterEvent K n m} {j : Fin m}
    {p : Process Failure (AgentActor K n m) (ActorRef n m) (Message K n m) Unit}
    (hturn : Config.Turn c e (.agent j) p)
    (hsettle : Config.settle { c with net := c.remaining e } (.agent j) p = some c') {k : ℕ}
    (hreached : Reached c k (.actor (.agent j)))
    (hguard : ∀ q ∈ c.delivered e, ∀ leader ∈ leaderIn q,
      IsRegion q.dst ∧ Pending c k q.dst ∨ leader = self k) :
    Reached c' k (.actor (.agent j)) := by
  have hagent : ¬IsRegion (.actor (.agent j) : ActorRef n m) := by
    rintro ⟨i, hi⟩
    simp at hi
  have hfollows : (c.agent j).leader = some (self k) :=
    hreached.resolve_right fun hregion => hagent hregion.1
  obtain ⟨leader, hleader, hsat⟩ := agent_turn h hturn
  refine Or.inl ((agent_led hsat hsettle).1.1.trans ?_)
  rcases hleader with rfl | ⟨q, hq, hdst, created, hcreated, rfl⟩
  · exact hfollows
  · have hin : created ∈ leaderIn q := by
      rw [leaderIn, hdst]
      exact hcreated
    rcases hguard q hq created hin with ⟨hregion, -⟩ | hself
    · rw [hdst] at hregion
      exact absurd hregion hagent
    · rw [hself]

theorem reached_step {c c' : Cluster n m d} (h : Guided c) {e : ClusterEvent K n m}
    (hstep : Config.step c e = some c') {k : ℕ} {r : ActorRef n m} (hreached : Reached c k r)
    (hguard : ∀ q ∈ c.delivered e, q.dst = r → ∀ leader ∈ leaderIn q,
      IsRegion q.dst ∧ Pending c k q.dst ∨ leader = self k) : Reached c' k r := by
  rcases Config.step_cases hstep with ⟨a, p, hturn, hsettle⟩ | ⟨q, rfl, rfl⟩ |
    ⟨src, a, i, draws, rfl, rfl⟩
  · have hdelivered : ∀ q ∈ c.delivered e, ∀ b, q.dst = .actor b → b = a := by
      intro q hq b hb
      rcases hturn.handles_or_resumes with ⟨q', choices, hq', hdst, -⟩ | ⟨-, -, -, -, -, hnone⟩
      · obtain rfl : q = q' := by
          rw [hq'] at hq
          exact (Option.some.inj hq).symm
        rw [hdst] at hb
        simpa using hb.symm
      · exact absurd hb (hnone q hq b)
    by_cases hr : r = .actor a
    · subst hr
      have hall : ∀ q ∈ c.delivered e, ∀ leader ∈ leaderIn q,
          IsRegion q.dst ∧ Pending c k q.dst ∨ leader = self k := by
        intro q hq leader hleader
        have hdst : ∃ b, q.dst = .actor b := by
          unfold leaderIn at hleader
          split at hleader
          next hb => exact ⟨_, hb⟩
          next hb => exact ⟨_, hb⟩
          · simp at hleader
        obtain ⟨b, hb⟩ := hdst
        obtain rfl := hdelivered q hq b hb
        exact hguard q hq hb leader hleader
      cases a with
      | region i => exact reached_region h hstep hturn hsettle hreached hall
      | agent j => exact reached_agent h hturn hsettle hreached hall
      | _ => exact Or.inl trivial
    · refine reached_of_ne hstep (fun b hb => ?_) (fun q hq hregion hdst => ?_) hreached
      · refine Config.state_settle_ne hsettle fun hba => ?_
        rw [hb, hba] at hr
        exact hr rfl
      · obtain ⟨i, rfl⟩ := hregion
        exact hr (by rw [hdelivered q hq _ hdst])
  · refine reached_of_ne hstep (fun _ _ => rfl) (fun p hp => ?_) hreached
    simp [Config.delivered] at hp
  · refine reached_of_ne hstep (fun _ _ => rfl) (fun p hp hregion hdst => ?_) hreached
    obtain ⟨j, rfl⟩ := hregion
    rw [(Config.dst_delivered hp).2] at hdst
    simp at hdst

omit [RealArith K] [MetaHeuristics K] in
theorem not_registers_new (settings : SimulationSettings) (r : ActorRef n m) :
    ¬Registers (SimulationActor.new settings : SimulationActor K n m) r := by
  rintro (⟨id, hid⟩ | ⟨id, hid⟩)
  · simp [SimulationActor.new] at hid
  · simp [SimulationActor.new] at hid

theorem registers_step {c c' : Cluster n m d} (h : Guided c) {e : ClusterEvent K n m}
    (hstep : Config.step c e = some c') {k : ℕ} {r : ActorRef n m}
    (hr : Registers (c'.node k) r) :
    Registers (c.node k) r ∨
      ∃ q ∈ c.delivered e, q.dst = self k ∧ r ∈ enlisted q.sender q.message := by
  rcases Config.step_cases hstep with ⟨a, p, hturn, hsettle⟩ | ⟨q, -, rfl⟩ |
    ⟨src, a, i, draws, -, rfl⟩
  · by_cases ha : Address.node k = a
    · subst ha
      obtain ⟨s, hmoves, hadded⟩ := node_turn h hturn
      refine hadded r ?_
      rcases (Config.moves_settle hmoves hsettle).2 with hfewer | ⟨t, -, hrestart⟩
      · exact hfewer r hr
      · have hnew : c'.node k = SimulationActor.new d.settings := hrestart
        rw [hnew] at hr
        exact absurd hr (not_registers_new _ r)
    · have hsame : c'.node k = c.node k := Config.state_settle_ne hsettle ha
      rw [hsame] at hr
      exact Or.inl hr
  · exact Or.inl hr
  · exact Or.inl hr

omit [RealArith K] [CommonsMath K] [MetaHeuristics K] in
theorem elects_eq_some {q : Packet (Address n m) (Message K n m)} {k : ℕ}
    (h : elects q = some k) : q.dst = self k ∧ q.message = .leaderChanged (some k) := by
  unfold elects at h
  split at h
  next j leader hdst hmessage =>
    split at h
    next hleader =>
      obtain rfl : j = k := by simpa using h
      exact ⟨hdst, by rw [hmessage, hleader]⟩
    next => simp at h
  · simp at h

/-- A new leader whose flag is set has told every region in its tables. -/
theorem pending_of_elected {c c' : Cluster n m d} {e : ClusterEvent K n m}
    (hstep : Config.step c e = some c') {k : ℕ} {q : Packet (Address n m) (Message K n m)}
    (hq : q ∈ c.delivered e) (helects : elects q = some k)
    (hstarted : (c.node k).simulationStarted = true) {r : ActorRef n m}
    (hr : Registers (c.node k) r) : Pending c' k r := by
  obtain ⟨hdst, hmessage⟩ := elects_eq_some helects
  rcases Config.step_cases hstep with ⟨a, p, hturn, hsettle⟩ | ⟨q', rfl, -⟩ |
    ⟨src, a, i, draws, rfl, -⟩
  · rcases hturn.handles_or_resumes with ⟨q', choices, hq', hdst', -, rfl⟩ | ⟨-, -, -, -, -, hnone⟩
    · obtain rfl : q = q' := by
        rw [hq'] at hq
        exact (Option.some.inj hq).symm
      obtain rfl : a = .node k := by
        rw [hdst] at hdst'
        simpa [self] using hdst'.symm
      have hsent := sent_onLeaderChanged (k := k) hstarted hr
      have hrun : (cluster n m d).receive (.node k) choices q.sender q.message (c.state (.node k)) =
          onLeaderChanged k (some k) (c.node k) := by
        rw [hmessage]
        rfl
      rw [hrun] at hsettle
      refine ⟨⟨.node k, r, self k, .setLeader (self k)⟩, ?_, rfl, rfl, rfl⟩
      rw [Config.net_settle hsettle]
      refine List.mem_append_right _ (List.mem_map.2 ⟨⟨r, self k, .setLeader (self k)⟩, ?_, rfl⟩)
      exact List.mem_append_left _ hsent
    · exact absurd hdst (hnone q hq _)
  · simp [Config.delivered] at hq
  · rw [(Config.dst_delivered hq).2] at hdst
    simp [self] at hdst

/-- The latest leader is followed by whom it has registered, or a region is yet to
be reached. -/
def Told (w : Watch n m d) : Prop :=
  Guided w.cluster ∧
    ∀ k, Leads w k → ∀ r, Registers (w.cluster.node k) r → Reached w.cluster k r

theorem Told.step {w w' : Watch n m d} (h : Told w) {e : ClusterEvent K n m}
    (hguard : Announceable w e) (hstep : LeaderAnnouncement.step w e = some w') : Told w' := by
  obtain ⟨c', hc', rfl⟩ := Option.map_eq_some_iff.1 hstep
  obtain ⟨hguided, htold⟩ := h
  refine ⟨hguided.step hc', fun k hleads r hr => ?_⟩
  obtain ⟨c₀, helected, hprogress⟩ := hleads
  cases hnew : (w.cluster.delivered e).bind elects with
  | some j =>
      obtain ⟨rfl, rfl⟩ : j = k ∧ w.cluster = c₀ := by simpa [hnew] using helected
      obtain ⟨q, hq, helects⟩ := Option.bind_eq_some_iff.1 hnew
      obtain ⟨hdst, hmessage⟩ := elects_eq_some helects
      have hold : Registers (w.cluster.node j) r := by
        refine (registers_step hguided hc' hr).resolve_right ?_
        rintro ⟨q', hq', -, hin⟩
        obtain rfl : q = q' := by
          rw [hq] at hq'
          exact Option.some.inj hq'
        simp [hmessage, enlisted] at hin
      rcases hguard.election q hq j helects hprogress r hold with hreached | ⟨hregion, hstarted⟩
      · refine reached_step hguided hc' hreached fun q' hq' _ leader hleader => ?_
        obtain rfl : q = q' := by
          rw [hq] at hq'
          exact Option.some.inj hq'
        simp [leaderIn, hdst, self] at hleader
      · exact Or.inr ⟨hregion, pending_of_elected hc' hq helects hstarted hold⟩
  | none =>
      have hleads : Leads w k := ⟨c₀, by simpa [hnew] using helected, hprogress⟩
      have hreached : Reached w.cluster k r ∧ ∀ q ∈ w.cluster.delivered e, q.dst = r →
          ∀ leader ∈ leaderIn q, IsRegion q.dst ∧ Pending w.cluster k q.dst ∨ leader = self k := by
        rcases registers_step hguided hc' hr with hold | ⟨q, hq, hdst, hin⟩
        · refine ⟨htold k hleads r hold, fun q hq hdst leader hleader => ?_⟩
          rw [← hdst] at hold
          exact hguard.leader k hleads q hq leader hleader hold
        · refine ⟨hguard.registration k hleads q hq hdst r hin, fun q' hq' _ leader hleader => ?_⟩
          obtain rfl : q = q' := by
            rw [hq] at hq'
            exact Option.some.inj hq'
          simp [leaderIn, hdst, self] at hleader
      exact reached_step hguided hc' hreached.1 hreached.2

theorem mem_arrivals {c c' : Cluster n m d} {e : ClusterEvent K n m} (hext : FromOutside e)
    (hstep : Config.step c e = some c') {x : Packet (Address n m) (Message K n m)}
    (hx : x ∈ c.arrivals c' e) (hentity : IsEntity x.src) :
    ∃ p, Config.Turn c e x.src p ∧
      ∃ out ∈ Config.emitted { c with net := c.remaining e } x.src p,
        out.dst = x.dst ∧ out.message = x.message := by
  rcases Config.step_cases hstep with ⟨a, p, hturn, hsettle⟩ | ⟨q, rfl, rfl⟩ |
    ⟨src, a, i, draws, rfl, rfl⟩
  · rw [Config.arrivals_settle hsettle] at hx
    obtain ⟨out, hout, rfl⟩ := List.mem_map.1 hx
    exact ⟨p, hturn, out, hout, rfl, rfl⟩
  · have hinjected : c.arrivals { c with net := c.net ++ [q] } (.inject q) = [q] :=
      List.drop_left
    rw [hinjected] at hx
    obtain rfl := List.mem_singleton.1 hx
    exact absurd hentity hext
  · have hnone : c.arrivals { c with net := c.remaining (.deliver src (.promise a i) draws) }
        (.deliver src (.promise a i) draws) = [] := List.drop_length
    rw [hnone] at hx
    simp at hx

theorem addressed_of_told {w : Watch n m d} (h : Told w) {e : ClusterEvent K n m}
    (hext : FromOutside e) (hguard : Announceable w e) : Addressed w e := by
  intro k hleads a hentity hregisters hpending w' hstep x hx hsrc hbound
  obtain ⟨c', hc', rfl⟩ := Option.map_eq_some_iff.1 hstep
  obtain ⟨hguided, htold⟩ := h
  subst hsrc
  obtain ⟨p, hturn, out, hout, hdst, hmessage⟩ := mem_arrivals hext hc' hx hentity
  have hfollows : Follows w.cluster k (.actor x.src) :=
    (htold k hleads _ hregisters).resolve_right fun hregion => hpending hregion.2
  have hall : ∀ q ∈ w.cluster.delivered e, q.dst = .actor x.src →
      ∀ leader ∈ leaderIn q, leader = self k := by
    intro q hq hq' leader hleader
    refine (hguard.leader k hleads q hq leader hleader (by rwa [hq'])).resolve_left ?_
    rintro ⟨-, hwaiting⟩
    rw [hq'] at hwaiting
    exact hpending hwaiting
  rw [← hdst, ← hmessage] at hbound
  rw [← hdst]
  generalize x.src = a at *
  cases a with
  | region i =>
      obtain ⟨q, choices, hq, hq', rfl⟩ := region_turn hguided hturn
      have hsat : RegionActor.Follows (∃ q ∈ w.cluster.delivered e, IsStop q.message)
          (· = some (self k)) (RegionActor.receive i choices q.sender q.message) := by
        refine RegionActor.follows_receive i choices q.sender (fun hstop => ⟨q, hq, hstop⟩)
          fun leader hleader => congrArg some (hall q hq hq' leader ?_)
        rw [leaderIn, hq']
        exact hleader
      rcases Config.emitted_of_sat (hsat _ () ⟨hfollows, hguided.region i⟩) out hout with
        hsent | ⟨s, hask⟩ | ⟨error, s, -, hrestart⟩
      · exact Option.some.inj (hsent hbound)
      · exact hask.1.elim
      · exact absurd hrestart List.not_mem_nil
  | agent j =>
      obtain ⟨leader, hleader, hsat⟩ := agent_turn hguided hturn
      have hself : leader = some (self k) := by
        rcases hleader with rfl | ⟨q, hq, hq', created, hcreated, rfl⟩
        · exact hfollows
        · refine congrArg some (hall q hq hq' created ?_)
          rw [leaderIn, hq']
          exact hcreated
      subst hself
      rcases Config.emitted_of_sat hsat out hout with hsent | ⟨s, hask⟩ | ⟨error, s, -, hrestart⟩
      · exact Option.some.inj (hsent hbound.of_stopping)
      · exact absurd hbound.of_stopping hask.2.2
      · change out ∈ (AgentActor.recover j s).2 at hrestart
        unfold AgentActor.recover at hrestart
        split at hrestart
        · simp at hrestart
        · obtain ⟨leader, -, rfl⟩ := List.mem_map.1 hrestart
          exact hbound.elim
  | _ => exact hentity.elim

/-- In every run in which announcing reaches every entity, what entities send to
their leader goes to the latest one. -/
theorem announced_run_addressed (c : Cluster n m d) (hidle : ∀ a, c.waiting a = none)
    (hregions : ∀ i, c.region i = .new) (hagents : ∀ j, c.agent j = .new)
    (es : List (ClusterEvent K n m)) (hext : ∀ e ∈ es, FromOutside e)
    (hguard : Guarded step Announceable (.start c) es) :
    Guarded step Addressed (.start c) es := by
  have hinit : Told (Watch.start c) := by
    refine ⟨⟨fun i => ?_, fun i => hidle _, fun j => ?_, fun j q next hwait => ?_,
      fun k q next hwait => ?_⟩, fun k hleads => ?_⟩
    · rw [show (Watch.start c).cluster = c from rfl, hregions i]
      rfl
    · rw [show (Watch.start c).cluster = c from rfl, hagents j]
      rfl
    · rw [show (Watch.start c).cluster = c from rfl, hidle] at hwait
      simp at hwait
    · rw [show (Watch.start c).cluster = c from rfl, hidle] at hwait
      simp at hwait
    · obtain ⟨c₀, helected, -⟩ := hleads
      simp [Watch.start] at helected
  exact (Guarded.safe (I := Told) (E := FromOutside) (fun w e hw hext hguard =>
    ⟨addressed_of_told hw hext hguard, fun w' hstep => hw.step hguard hstep⟩) hinit hext hguard).1

end Safety

section Example

variable [RealArith K] [CommonsMath K] [MetaHeuristics K] {d : Deployment K}

instance (r : ActorRef n m) : Decidable (IsRegion r) :=
  match r with
  | .actor (.region i) => isTrue ⟨i, rfl⟩
  | .actor (.node _) => isFalse fun ⟨_, h⟩ => by simp at h
  | .actor (.agent _) => isFalse fun ⟨_, h⟩ => by simp at h
  | .actor .benchmark => isFalse fun ⟨_, h⟩ => by simp at h
  | .actor .main => isFalse fun ⟨_, h⟩ => by simp at h
  | .actor (.client _) => isFalse fun ⟨_, h⟩ => by simp at h
  | .actor (.stray _) => isFalse fun ⟨_, h⟩ => by simp at h
  | .promise _ _ => isFalse fun ⟨_, h⟩ => by simp at h

instance (c : Cluster n m d) (k : ℕ) (r : ActorRef n m) : Decidable (Follows c k r) :=
  match r with
  | .actor (.region i) => inferInstanceAs (Decidable ((c.region i).leader = some (self k)))
  | .actor (.agent j) => inferInstanceAs (Decidable ((c.agent j).leader = some (self k)))
  | .actor (.node _) => isTrue trivial
  | .actor .benchmark => isTrue trivial
  | .actor .main => isTrue trivial
  | .actor (.client _) => isTrue trivial
  | .actor (.stray _) => isTrue trivial
  | .promise _ _ => isTrue trivial

instance (c : Cluster n m d) (k : ℕ) (r : ActorRef n m) : Decidable (Pending c k r) :=
  inferInstanceAs (Decidable (∃ p ∈ c.net, p.dst = r ∧ p.sender = self k ∧
    announces p.message = true))

instance (c : Cluster n m d) (k : ℕ) (r : ActorRef n m) : Decidable (Reached c k r) :=
  inferInstanceAs (Decidable (Follows c k r ∨ IsRegion r ∧ Pending c k r))

instance (s : SimulationActor K n m) (r : ActorRef n m) : Decidable (Registers s r) :=
  inferInstanceAs (Decidable ((∃ id, s.agents id = some r) ∨ ∃ id, s.regions id = some r))

def AllRegistered (s : SimulationActor K n m) (P : ActorRef n m → Prop) : Prop :=
  (∀ id, ∀ r ∈ s.agents id, P r) ∧ ∀ id, ∀ r ∈ s.regions id, P r

def Cautious (w : Watch n m d) (e : ClusterEvent K n m) : Prop :=
  ∀ p ∈ w.cluster.delivered e,
    (∀ k ∈ elects p, AllRegistered (w.cluster.node k) fun r =>
      Reached w.cluster k r ∨ IsRegion r ∧ (w.cluster.node k).simulationStarted = true) ∧
    ∀ k ∈ w.elected.map Prod.fst,
      (∀ leader ∈ leaderIn p, Registers (w.cluster.node k) p.dst →
        IsRegion p.dst ∧ Pending w.cluster k p.dst ∨ leader = self k) ∧
      (p.dst = self k → ∀ r ∈ enlisted p.sender p.message, Reached w.cluster k r)

instance (w : Watch n m d) (e : ClusterEvent K n m) : Decidable (Cautious w e) :=
  inferInstanceAs (Decidable (∀ p ∈ w.cluster.delivered e,
    (∀ k ∈ elects p, (∀ id, ∀ r ∈ (w.cluster.node k).agents id,
        Reached w.cluster k r ∨ IsRegion r ∧ (w.cluster.node k).simulationStarted = true) ∧
      ∀ id, ∀ r ∈ (w.cluster.node k).regions id,
        Reached w.cluster k r ∨ IsRegion r ∧ (w.cluster.node k).simulationStarted = true) ∧
    ∀ k ∈ w.elected.map Prod.fst,
      (∀ leader ∈ leaderIn p, Registers (w.cluster.node k) p.dst →
        IsRegion p.dst ∧ Pending w.cluster k p.dst ∨ leader = self k) ∧
      (p.dst = self k → ∀ r ∈ enlisted p.sender p.message, Reached w.cluster k r)))

theorem Cautious.announceable {w : Watch n m d} {e : ClusterEvent K n m} (h : Cautious w e) :
    Announceable w e := by
  have hleads : ∀ k, Leads w k → k ∈ w.elected.map Prod.fst := by
    rintro k ⟨c, helected, -⟩
    simp [helected]
  refine ⟨fun p hp k hk _ r hr => ?_, fun k hk p hp leader hleader hr => ?_,
    fun k hk p hp hdst r hr => ?_⟩
  · obtain ⟨hagents, hregions⟩ := (h p hp).1 k hk
    rcases hr with ⟨id, hid⟩ | ⟨id, hid⟩
    · exact hagents id r hid
    · exact hregions id r hid
  · exact ((h p hp).2 k (hleads k hk)).1 leader hleader hr
  · exact ((h p hp).2 k (hleads k hk)).2 hdst r hr

theorem announceable_of_cautious {w : Watch n m d} {es : List (ClusterEvent K n m)}
    (h : Guarded step Cautious w es) : Guarded step Announceable w es :=
  (Guarded.safe (I := fun _ => True) (E := fun _ => True)
    (fun _ _ _ _ hcautious => ⟨hcautious.announceable, fun _ _ => trivial⟩) trivial
    (fun _ _ => trivial) h).1

def region : Fin 1 := ⟨0, Nat.zero_lt_one⟩

def agent : Fin 1 := ⟨0, Nat.zero_lt_one⟩

def exampleDeployment : Deployment ℚ :=
  { settings :=
      { region := ⟨1, 10⟩, problem := ⟨1, 1, .benchmark⟩, benchmark := true, executionTime := 0
        hasCooperation := true }
    suite := []
    evaluateFunction := fun _ x => x.head? }

def exampleCluster : Cluster 1 1 exampleDeployment :=
  Cluster.start exampleDeployment
    (fun _ =>
      { (SimulationActor.new exampleDeployment.settings : SimulationActor ℚ 1 1) with
        nodes := [self 0, self 1] })
    (fun _ => AgentActor.new) (.new [] 1)

def exampleSolution : Solution ℚ :=
  { id := 0, agent := some 0, solutionsVector := [some 1], functionValue := some 1
    viable := true, changed := false }

def exampleSettings : AgentSettings ℚ :=
  { name := 0, metaHeuristicName := 0, lifetime := 1000, memoryTax := 1
    isConstructorMetaHeuristic := true, populationSize := some 1 }

def quiet : Choices ℚ := ⟨⟨fun _ => [], [], .fin⟩, .ioException⟩

def told (src a : Address 1 1) (message : Message ℚ 1 1) : List (ClusterEvent ℚ 1 1) :=
  [.inject ⟨src, .actor a, .actor src, message⟩, .deliver src (.actor a) quiet]

/-- An agent registers with node 0, which tells node 1; then node 0 starts a
simulation, and node 1 learns that it leads. -/
def failOver : List (ClusterEvent ℚ 1 1) :=
  told .main (.node 0) (.leaderChanged (some 0)) ++
    told (.node 0) (.agent agent) (.createAgent agent (self 0) exampleSettings) ++
    [.deliver (.agent agent) (self 0) quiet, .deliver (.node 0) (self 1) quiet] ++
    told .main (.node 0) (.startSimulation none) ++
    [.deliver (.node 0) (.actor (.agent agent)) quiet] ++
    told .main (.node 1) (.leaderChanged (some 1)) ++
    [.inject ⟨.main, .actor (.agent agent), .actor .main, .internalStimulus⟩]

def stimulus : ClusterEvent ℚ 1 1 := .deliver .main (.actor (.agent agent)) quiet

def isMisled (p : Packet (Address 1 1) (Message ℚ 1 1)) : Bool :=
  match p.message with
  | .solutionResult _ => p.src = .agent agent ∧ p.dst = self 0
  | _ => false

/-- The agent of the example sends its next result to the old leader. -/
theorem fail_over_misses_agent :
    ¬Guarded step Addressed (.start exampleCluster) (failOver ++ [stimulus]) := by
  intro haddressed
  have hrun : (run step (.start exampleCluster) failOver).map (fun w =>
      (w.elected.map fun x => (x.1, (Cluster.node x.2 0).simulationStarted),
        (w.cluster.node 1).agents agent, decide (Pending w.cluster 1 (.actor (.agent agent))),
        (step w stimulus).any fun w' => (w.cluster.arrivals w'.cluster stimulus).any isMisled)) =
      some (some (1, true), some (.actor (.agent agent)), false, true) := by decide +kernel
  obtain ⟨w, hw, hknown⟩ := Option.map_eq_some_iff.1 hrun
  simp only [Prod.mk.injEq, decide_eq_false_iff_not] at hknown
  obtain ⟨helected, hregistered, hpending, hsends⟩ := hknown
  obtain ⟨⟨k, c₀⟩, hk, hprogress⟩ := Option.map_eq_some_iff.1 helected
  obtain ⟨rfl, hstarted⟩ : k = 1 ∧ (Cluster.node c₀ 0).simulationStarted = true := by
    simpa using hprogress
  cases hstep : step w stimulus with
  | none => simp [hstep] at hsends
  | some w' =>
      rw [hstep, Option.any_some] at hsends
      obtain ⟨x, hx, hmisled⟩ := List.any_eq_true.1 hsends
      have hnext := haddressed.of_run failOver hw 1 ⟨c₀, hk, 0, hstarted⟩ (.agent agent) trivial
        (Or.inl ⟨agent, hregistered⟩) hpending w' hstep x hx
      unfold isMisled at hmisled
      split at hmisled
      next hmessage =>
        obtain ⟨hsrc, hdst⟩ : x.src = .agent agent ∧ x.dst = self 0 := by simpa using hmisled
        have hself := hnext hsrc (by rw [hmessage]; trivial)
        rw [hdst] at hself
        simp [self] at hself
      · simp at hmisled

/-- Node 0 creates a region during a simulation and learns once more that it leads. -/
def calmRun : List (ClusterEvent ℚ 1 1) :=
  told .main (.node 0) (.leaderChanged (some 0)) ++
    told .main (.node 0) (.startSimulation none) ++
    told .main (.node 0) (.solutionResult [exampleSolution]) ++
    [.deliver (.node 0) (.actor (.region region)) quiet,
     .deliver (.region region) (self 0) quiet, .deliver (.region region) (self 0) quiet] ++
    told .main (.node 0) (.leaderChanged (some 0)) ++
    [.deliver (.node 0) (.actor (.region region)) quiet,
     .deliver (.node 0) (.actor (.region region)) quiet,
     .deliver (.node 0) (.actor (.region region)) quiet] ++
    told (.node 0) (.region region) (.solutionResponse 0 0 [exampleSolution])

theorem calmRun_announceable : Guarded step Announceable (.start exampleCluster) calmRun :=
  announceable_of_cautious (by decide +kernel)

theorem announced_run_addressed_example :
    Guarded step Addressed (.start exampleCluster) calmRun :=
  announced_run_addressed exampleCluster (fun _ => rfl) (fun _ => rfl) (fun _ => rfl) calmRun
    (by simp [calmRun, told, FromOutside, IsEntity]) calmRun_announceable

end Example

end DOptimas.Proofs.LeaderAnnouncement
