import DOptimas.Actors.Cluster
import DOptimas.Actors.StopFrame
/-!
# Whom an entity follows

A region takes its leader from the sender of `CreateRegion` and `SetLeader`, an
agent from `CreateAgent`, and both keep it in their journal.  No other message
changes it, and what an entity has to say to its leader goes nowhere else.
-/

namespace DOptimas.Actors

open DOptimas.Support DOptimas.Core Handler

variable {K : Type} {n m : ℕ}

/-- A message that an entity sends to its leader.  A request goes to the leader
unless it goes to the region that it asks, and a release is the answer to a stop
when the entity is stopping. -/
def LeaderBound (stopping : Prop) (dst : ActorRef n m) : Message K n m → Prop
  | .solutionResult _ => True
  | .solutionRequest _ receiverId _ => dst ≠ .actor (regionEntity receiverId)
  | .regionSplit _ _ _ => True
  | .updateRegionSummary _ _ => True
  | .mergeRequest _ _ _ _ => True
  | .regionRelease _ => ¬stopping
  | _ => False

def IsStop : Message K n m → Prop
  | .stopSimulation => True
  | _ => False

theorem LeaderBound.of_stopping {stopping : Prop} {dst : ActorRef n m} {message : Message K n m}
    (h : LeaderBound stopping dst message) : LeaderBound False dst message := by
  cases message with
  | regionRelease id => exact not_false
  | _ => exact h

/-- Leader-bound messages go to leaders that `G` allows, and such a leader is in
the state and in the journal whenever the entity waits or is restarted. -/
abbrev following {σ : Type} (leader saved : σ → Option (ActorRef n m)) (waits stopping : Prop)
    (G : Option (ActorRef n m) → Prop) :
    Contract Failure σ (ActorRef n m) (Message K n m) Unit :=
  Contract.plain (fun dst _ message => LeaderBound stopping dst message → G (some dst))
    (fun s dst message =>
      waits ∧ (G (leader s) ∧ saved s = leader s) ∧ ¬LeaderBound stopping dst message)
    fun _ s => G (saved s)

/-! ## The region -/

namespace RegionActor

def savedLeader (s : RegionActor K n m) : Option (ActorRef n m) := s.saved.bind (·.leader)

theorem leader_recover (s : RegionActor K n m) : (recover s).leader = s.savedLeader := by
  unfold recover savedLeader
  split
  next hs => simp [new, hs]
  next snapshot hs => simp [hs]

theorem savedLeader_recover (s : RegionActor K n m) : (recover s).savedLeader = s.savedLeader := by
  unfold recover savedLeader
  split
  next hs => simp [new, hs]
  next snapshot hs => simp [hs]

def leaderIn (sender : ActorRef n m) : Message K n m → Option (ActorRef n m)
  | .createRegion _ _ _ _ _ => some sender
  | .setLeader _ => some sender
  | _ => none

variable {stopping : Prop} {G : Option (ActorRef n m) → Prop}

/-- The journal has the leader of the state. -/
abbrev Led (G : Option (ActorRef n m) → Prop) (s : RegionActor K n m) (_ : Unit) : Prop :=
  G s.leader ∧ s.savedLeader = s.leader

/-- The journal may still have an earlier leader. -/
abbrev Known (G : Option (ActorRef n m) → Prop) (s : RegionActor K n m) (_ : Unit) : Prop :=
  G s.leader ∧ G s.savedLeader

theorem Led.known {s : RegionActor K n m} (h : Led G s ()) : Known G s () :=
  ⟨h.1, by rw [h.2]; exact h.1⟩

abbrev Follows (stopping : Prop) (G : Option (ActorRef n m) → Prop) {α : Type}
    (x : Receive K n m (RegionActor K n m) α) : Prop :=
  Meets (following RegionActor.leader savedLeader False stopping G) (Led G) x fun _ => Led G

theorem follows_deref {α : Type} {e : Failure} {field : RegionActor K n m → Option α} :
    Follows stopping G (deref e field) :=
  meets_deref_const fun _ _ h => h.known.2

theorem follows_throw {α : Type} {e : Failure} :
    Follows stopping G (throw e : Receive K n m (RegionActor K n m) α) :=
  meets_throw_const fun _ _ h => h.known.2

theorem follows_problemToString :
    Follows stopping G (problemToString : RegionReceive K n m) :=
  follows_deref.bind fun _ => meets_pure_const ()

theorem follows_update {f : RegionActor K n m → RegionActor K n m}
    (hf : ∀ s, (f s).leader = s.leader ∧ (f s).saved = s.saved) :
    Follows stopping G (update f) := by
  intro s g hs
  obtain ⟨hleader, hsaved⟩ := hf s
  have hjournal : (f s).savedLeader = s.savedLeader := by
    rw [savedLeader, hsaved, savedLeader]
  change G (f s).leader ∧ (f s).savedLeader = (f s).leader
  rw [hjournal, hleader]
  exact hs

theorem follows_saveSnapshot :
    Meets (following RegionActor.leader savedLeader False stopping G) (fun s _ => G s.leader)
      (saveSnapshot : RegionReceive K n m) fun _ => Led G :=
  fun _ _ hs => ⟨hs, rfl⟩

theorem follows_cancelTask : Follows stopping G (cancelTask : RegionReceive K n m) :=
  follows_deref.bind fun _ => follows_update fun _ => ⟨rfl, rfl⟩

theorem follows_tellLeader (i : Fin n) (message : Message K n m) :
    Follows stopping G (tellLeader i message) := by
  intro s g hs
  cases hleader : s.leader with
  | none =>
      rw [tellLeader, bind_apply, deref_none hleader]
      exact hs.known.2
  | some leader =>
      rw [tellLeader, bind_apply, deref_some hleader]
      refine ⟨fun _ => ?_, hs⟩
      rw [← hleader]
      exact hs.1

theorem follows_tell {dst sender : ActorRef n m} {message : Message K n m}
    (h : ¬LeaderBound stopping dst message) : Follows stopping G (tell dst sender message) :=
  fun _ _ hs => ⟨fun hbound => absurd hbound h, hs⟩

theorem follows_solutionState (solution : Solution K) :
    Follows stopping G (solutionState solution : RegionReceive K n m) := by
  unfold solutionState
  split
  · exact follows_throw
  · refine follows_problemToString.bind fun _ => ?_
    split
    · exact follows_throw
    · exact meets_pure_const ()

theorem follows_regionState : Follows stopping G (regionState : RegionReceive K n m) := by
  refine follows_deref.bind fun r => follows_problemToString.bind fun _ => ?_
  split
  · exact follows_throw
  · exact meets_pure_const ()

theorem follows_addSolutions [RealArith K] (i : Fin n) (solutions : List (Solution K)) :
    Meets (following RegionActor.leader savedLeader False stopping G) (Known G)
      (addSolutions i solutions)
      fun _ => Led G := by
  refine Meets.bind (Q := fun _ => Known G) (meets_deref_const fun _ _ h => h.2) fun r =>
    Meets.bind (Q := fun _ => Known G) ?_ fun _ =>
    Meets.bind (follows_saveSnapshot.weaken (fun _ _ h => h.1) fun _ _ _ h => h) fun _ =>
    Meets.bind (meets_forEach_const fun solution _ => follows_solutionState solution) fun _ =>
    Meets.bind follows_regionState fun _ => Meets.bind follows_deref fun r =>
    Meets.bind (follows_tellLeader i _) fun _ => follows_problemToString
  refine Meets.bind (Q := fun _ => Known G) (fun _ _ h => h) fun _ => ?_
  split
  · exact meets_throw_const fun _ _ h => h.2
  · exact meets_pure_const ()

theorem follows_onLeaderChanged {sender : ActorRef n m} (h : G (some sender)) :
    Meets (following RegionActor.leader savedLeader False stopping G) (fun _ _ => True)
      (onLeaderChanged sender : RegionReceive K n m) fun _ => Led G :=
  fun _ _ _ => ⟨h, rfl⟩

/-- A message that brings no leader leaves the region with its own; one that
brings a leader has one that is allowed. -/
theorem follows_receive [RealArith K] [CommonsMath K] (i : Fin n) (choices : List ℕ)
    (sender : ActorRef n m) {message : Message K n m} (hstop : IsStop message → stopping)
    (h : ∀ leader, leaderIn sender message = some leader → G (some leader)) :
    Follows stopping G (receive i choices sender message) := by
  cases message with
  | createRegion j settings solutions time p =>
      have hsender : G (some sender) := h sender rfl
      refine Meets.bind (Q := fun _ => Led G) (Meets.bind (Q := fun _ => Known G)
        (fun s _ hs => ⟨hsender, hs.known.2⟩) fun _ =>
        Meets.bind (follows_addSolutions i solutions) fun _ => Meets.bind follows_deref fun r =>
        Meets.bind (follows_tell id) fun _ => follows_update fun _ => ⟨rfl, rfl⟩) fun _ => ?_
      exact follows_saveSnapshot.weaken (fun _ _ h => h.1) fun _ _ _ h => h
  | setLeader leader => exact fun s g _ => follows_onLeaderChanged (h sender rfl) s g trivial
  | solutionResponse j k solutions =>
      exact follows_problemToString.bind fun _ =>
        (follows_addSolutions i solutions).weaken (fun _ _ h => h.known) fun _ _ _ h => h
  | solutionRequest j k counter =>
      refine follows_problemToString.bind fun _ => follows_deref.bind fun r => ?_
      split
      · split
        · exact follows_throw
        · exact (follows_tell id).bind fun _ => follows_problemToString
      · exact meets_pure_const ()
  | mergeRequest j k summary space =>
      refine follows_problemToString.bind fun _ => follows_deref.bind fun r =>
        follows_deref.bind fun merged => Meets.bind (Q := fun _ => Led G) ?_ fun _ => ?_
      · unfold compareMeans
        split
        · exact meets_pure_const ()
        · exact follows_throw
      · split
        · exact (follows_tell id).bind fun _ => follows_problemToString
        · exact meets_pure_const ()
  | mergeResponse j k =>
      refine follows_problemToString.bind fun _ => meets_get_const fun s => ?_
      split
      · exact meets_pure_const ()
      · refine (follows_tell id).bind fun _ => (follows_tellLeader i _).bind fun _ =>
          follows_problemToString.bind fun _ => follows_cancelTask.bind fun _ =>
          Meets.bind (follows_update fun _ => ⟨rfl, rfl⟩) fun _ => ?_
        exact follows_saveSnapshot.weaken (fun _ _ h => h.1) fun _ _ _ h => h
  | mergeResult j k solutions =>
      exact follows_problemToString.bind fun _ =>
        (follows_addSolutions i solutions).weaken (fun _ _ h => h.known) fun _ _ _ h => h
  | internalStimulus =>
      refine meets_get_const fun s => ?_
      split
      · exact meets_pure_const ()
      · exact meets_pure_const ()
      · split
        · refine Meets.bind (follows_update fun _ => ⟨rfl, rfl⟩) fun _ => ?_
          split
          · exact follows_throw
          next lists _ =>
            match lists with
            | [] =>
                exact follows_deref.bind fun r => (follows_tellLeader i _).bind fun _ =>
                  follows_problemToString
            | [_] => exact follows_throw
            | _ :: _ :: _ =>
                exact (follows_tellLeader i _).bind fun _ => follows_problemToString.bind fun _ =>
                  follows_saveSnapshot.weaken (fun _ _ h => h.1) fun _ _ _ h => h
        · exact meets_pure_const ()
  | updateGlobalSummary j summary time ids =>
      exact follows_problemToString.bind fun _ => follows_update fun _ => ⟨rfl, rfl⟩
  | stopSimulation =>
      have hrelease : ¬LeaderBound stopping sender (.regionRelease i : Message K n m) :=
        fun hbound => hbound (hstop trivial)
      exact follows_cancelTask.bind fun _ => follows_deref.bind fun r =>
        Meets.bind (follows_update fun _ => ⟨rfl, rfl⟩) fun _ => follows_tell hrelease
  | _ => exact meets_pure_const ()

end RegionActor

/-! ## The agent -/

namespace AgentActor

variable [RealArith K] [MetaHeuristics K]

def savedLeader (s : AgentActor K n m) : Option (ActorRef n m) := s.saved.bind (·.leader)

theorem leader_recover (j : Fin m) (s : AgentActor K n m) :
    (recover j s).1.leader = s.savedLeader := by
  unfold recover savedLeader
  split
  next hs => simp [new, hs]
  next snapshot hs => simp [hs]

theorem savedLeader_recover (j : Fin m) (s : AgentActor K n m) :
    (recover j s).1.savedLeader = s.savedLeader := by
  unfold recover savedLeader
  split
  next hs => simp [new, hs]
  next snapshot hs => simp [hs]

def leaderIn : Message K n m → Option (ActorRef n m)
  | .createAgent _ leader _ => some leader
  | _ => none

variable {stopping : Prop} {G : Option (ActorRef n m) → Prop}

/-- The journal has the leader of the state. -/
abbrev Led (G : Option (ActorRef n m) → Prop) (s : AgentActor K n m) (_ : Unit) : Prop :=
  G s.leader ∧ s.savedLeader = s.leader

theorem Led.saved {s : AgentActor K n m} (h : Led G s ()) : G s.savedLeader := by
  rw [h.2]
  exact h.1

abbrev Follows (stopping : Prop) (G : Option (ActorRef n m) → Prop) {α : Type}
    (x : AgentReceive K n m α) : Prop :=
  Meets (following AgentActor.leader savedLeader True stopping G) (Led G) x fun _ => Led G

theorem follows_deref {α : Type} {e : Failure} {field : AgentActor K n m → Option α} :
    Follows stopping G (deref e field) :=
  meets_deref_const fun _ _ h => h.saved

theorem follows_throw {α : Type} {e : Failure} :
    Follows stopping G (throw e : AgentReceive K n m α) :=
  meets_throw_const fun _ _ h => h.saved

theorem follows_update {f : AgentActor K n m → AgentActor K n m}
    (hf : ∀ s, (f s).leader = s.leader ∧ (f s).saved = s.saved) :
    Follows stopping G (update f) := by
  intro s g hs
  obtain ⟨hleader, hsaved⟩ := hf s
  have hjournal : (f s).savedLeader = s.savedLeader := by
    rw [savedLeader, hsaved, savedLeader]
  change G (f s).leader ∧ (f s).savedLeader = (f s).leader
  rw [hjournal, hleader]
  exact hs

theorem follows_saveSnapshot : Follows stopping G (saveSnapshot : AgentReceive K n m Unit) :=
  fun _ _ hs => ⟨hs.1, rfl⟩

theorem follows_problemToString :
    Follows stopping G (problemToString : AgentReceive K n m Unit) := by
  refine follows_deref.bind fun a => ?_
  split
  · exact follows_throw
  · exact meets_pure_const ()

theorem follows_cancelTask : Follows stopping G (cancelTask : AgentReceive K n m Unit) :=
  follows_deref.bind fun _ => follows_update fun _ => ⟨rfl, rfl⟩

theorem follows_tell {dst sender : ActorRef n m} {message : Message K n m}
    (h : ¬LeaderBound stopping dst message) : Follows stopping G (tell dst sender message) :=
  fun _ _ hs => ⟨fun hbound => absurd hbound h, hs⟩

theorem follows_tellLeader (j : Fin m) (message : Message K n m) :
    Follows stopping G (do
      let leader ← deref (.nullPointer .leader) AgentActor.leader
      tell leader (self j) message) := by
  intro s g hs
  cases hleader : s.leader with
  | none =>
      rw [bind_apply, deref_none hleader]
      exact hs.saved
  | some leader =>
      rw [bind_apply, deref_some hleader]
      refine ⟨fun _ => ?_, hs⟩
      rw [← hleader]
      exact hs.1

theorem follows_runAlgorithm (run : Run (MetaHeuristics.Memory K) K) :
    Follows stopping G (runAlgorithm run : AgentReceive K n m _) := by
  induction run with
  | done result memory context => exact meets_pure_const _
  | throws memory context => exact meets_pure_const _
  | evaluateFunction x next ih =>
      exact fun s g hs => ⟨⟨trivial, hs, id⟩, fun answer _ => ih (evaluation answer) s g hs⟩

theorem follows_processSolutionList (j : Fin m) (draws : List (Draw K)) (region : ℤ)
    (solutions : List (Solution K)) :
    Follows stopping G (processSolutionList j draws region solutions :
      AgentReceive K n m Unit) := by
  refine Meets.bind (Q := fun _ => Led G) (follows_deref.bind fun a =>
    (follows_runAlgorithm _).bind fun result =>
    Meets.bind (follows_update fun _ => ⟨rfl, rfl⟩) fun _ => ?_) fun result => ?_
  · split
    · exact follows_throw
    · exact Meets.bind (follows_update fun _ => ⟨rfl, rfl⟩) fun _ => meets_pure_const _
  · exact Meets.bind (meets_forEach_const fun _ _ => follows_problemToString) fun _ =>
      follows_problemToString.bind fun _ => follows_saveSnapshot.bind fun _ =>
      follows_tellLeader j _

theorem follows_requestSolutions (j : Fin m) (a : Agent K) (region : Option ℤ) :
    Follows stopping G (requestSolutions j a region : AgentReceive K n m Unit) := by
  cases region with
  | none => exact follows_tellLeader j _
  | some region =>
      have hrequest : ¬LeaderBound stopping (.actor (regionEntity region))
          (.solutionRequest j region a.solutionsCount : Message K n m) := fun hbound => hbound rfl
      exact (follows_tell hrequest).bind fun _ => follows_problemToString

theorem follows_requestByMemory (j : Fin m) (a : Agent K) (draws : List (Draw K)) :
    Follows stopping G (requestByMemory j a draws : AgentReceive K n m Unit) := by
  match draws with
  | [] => exact fun _ _ _ => trivial
  | [_] => exact fun _ _ _ => trivial
  | draw :: dice :: rest =>
      change Follows stopping G (requestChosen j a (a.chooseRegion draw dice))
      cases a.chooseRegion draw dice with
      | error e => exact follows_throw
      | ok region => exact follows_requestSolutions j a region

theorem follows_onInternalStimulus (j : Fin m) (oracle : Oracle K) :
    Follows stopping G (onInternalStimulus j oracle : AgentReceive K n m Unit) := by
  refine meets_get_const fun s => ?_
  split
  · exact meets_pure_const ()
  · split
    · exact meets_pure_const ()
    · split
      · exact follows_processSolutionList j _ _ _
      · split
        · exact meets_pure_const ()
        · exact follows_requestByMemory j _ _

/-- Every message but `CreateAgent` leaves an agent with its own leader. -/
theorem follows_receive (settings : Problem) (cooperation : Bool) (j : Fin m) (oracle : Oracle K)
    (sender : ActorRef n m) {message : Message K n m} (h : leaderIn message = none) :
    Follows stopping G (receive settings cooperation j oracle sender message) := by
  cases message with
  | createAgent i leader agentSettings => simp [leaderIn] at h
  | solutionRequest i k counter =>
      refine follows_problemToString.bind fun _ => follows_deref.bind fun a => ?_
      split
      · exact follows_tell id
      · exact meets_pure_const ()
  | solutionResponse i k solutions =>
      exact follows_problemToString.bind fun _ => follows_processSolutionList j _ _ _
  | internalStimulus => exact follows_onInternalStimulus j oracle
  | updateGlobalSummary i summary time ids =>
      refine Meets.bind (follows_update fun _ => ⟨rfl, rfl⟩) fun _ => follows_deref.bind fun a =>
        Meets.bind (follows_update fun _ => ⟨rfl, rfl⟩) fun _ => meets_get_const fun s => ?_
      split
      · exact follows_cancelTask
      · exact meets_pure_const ()
  | startSimulation problem =>
      exact follows_deref.bind fun _ => Meets.bind (follows_update fun _ => ⟨rfl, rfl⟩) fun _ =>
        follows_update fun _ => ⟨rfl, rfl⟩
  | stopSimulation =>
      exact follows_cancelTask.bind fun _ => Meets.bind (follows_update fun _ => ⟨rfl, rfl⟩)
        fun _ => follows_tell id
  | getState =>
      refine meets_get_const fun s => ?_
      split
      · exact follows_tell id
      · exact follows_tell id
  | _ => exact meets_pure_const ()

theorem follows_onCreateAgent (settings : Problem) (j : Fin m) (sender leader : ActorRef n m)
    (agentSettings : AgentSettings K) (h : G (some leader)) :
    Meets (following AgentActor.leader savedLeader True stopping G) (fun _ _ => True)
      (onCreateAgent settings j sender leader agentSettings) fun _ => Led G :=
  fun _ _ _ => ⟨fun hbound => hbound.elim, h, rfl⟩

end AgentActor

end DOptimas.Actors
