import DOptimas.Actors.Origins
import DOptimas.Actors.RegionHandlers
import DOptimas.Core.SampleHeuristics
import DOptimas.Support.Rational
/-!
# The two guards of a request

An agent asks for solutions once the whole system has as many as it needs; a
region answers only when it has more.  The request travels to the region that
the memory chooses, or through the leader to all regions.
-/

namespace DOptimas.Proofs.RequestGuards

open DOptimas.Support DOptimas.Core DOptimas.Actors Handler

variable {K : Type} [RealArith K] [CommonsMath K] [MetaHeuristics K] {n m : ℕ}
  {d : Deployment K}

def held (s : RegionActor K n m) : ℕ := (s.region.map fun r => r.solutionList.length).getD 0

/-- Nothing is in flight, the agent's figure is the current total of the live
regions and enough for it, and all solutions are in region `i`. -/
structure Ripe (c : Cluster n m d) (j : Fin m) (a : Agent K) (i : Fin n) (r : Region K) :
    Prop where
  quiet : c.net = []
  agent : (c.agent j).agent = some a
  started : (c.agent j).agentStarted = true
  asks : a.agentSettings.isConstructorMetaHeuristic = false
  needs : 1 ≤ a.solutionsCount
  total : (c.agent j).globalSolutions = ((List.finRange n).map fun i => held (c.region i)).sum
  enough : a.solutionsCount ≤ (c.agent j).globalSolutions
  region : (c.region i).region = some r
  alone : ∀ i', i' ≠ i → held (c.region i') = 0

/-! ## The agent's request -/

/-- Whoever sends a request is agent `j`, and asks for `count` solutions. -/
def FromAgent (j : Fin m) (count : ℤ) (sender : ActorRef n m) : Message K n m → Prop
  | .solutionRequest _ _ counter => sender = AgentActor.self j ∧ counter = count
  | _ => True

omit [CommonsMath K] in
theorem fromAgent_recover (j : Fin m) (count : ℤ) (s : AgentActor K n m) :
    ∀ x ∈ (AgentActor.recover j s).2, FromAgent j count x.sender x.message := by
  intro x hx
  unfold AgentActor.recover at hx
  split at hx
  · simp at hx
  · obtain ⟨leader, -, rfl⟩ := List.mem_map.1 hx
    trivial

/-- A handler of agent `j` that sends only its own requests and asks nothing. -/
abbrev AsksFor (j : Fin m) (count : ℤ) (x : AgentActor.AgentReceive K n m Unit) : Prop :=
  SendsOnly (fun _ sender message => FromAgent j count sender message) (fun _ _ => False) x

omit [CommonsMath K] in
theorem asksFor_requestSolutions {j : Fin m} {a : Agent K} (region : Option ℤ) :
    AsksFor j a.solutionsCount
      (AgentActor.requestSolutions j a region : AgentActor.AgentReceive K n m Unit) := by
  cases region with
  | none => exact .bind .deref fun leader => .tell ⟨rfl, rfl⟩
  | some region =>
      refine .bind (.tell ⟨rfl, rfl⟩) fun _ => .bind .deref fun a => ?_
      split
      · exact .throw
      · exact .pure

omit [CommonsMath K] in
theorem asksFor_requestByMemory {j : Fin m} {a : Agent K} (draws : List (Draw K)) :
    AsksFor j a.solutionsCount
      (AgentActor.requestByMemory j a draws : AgentActor.AgentReceive K n m Unit) := by
  match draws with
  | [] => exact fun _ _ _ => trivial
  | [_] => exact fun _ _ _ => trivial
  | draw :: dice :: rest =>
      change AsksFor j a.solutionsCount
        (AgentActor.requestChosen j a (a.chooseRegion draw dice))
      cases a.chooseRegion draw dice with
      | error e => exact .throw
      | ok region => exact asksFor_requestSolutions region

def isRequest : Message K n m → Bool
  | .solutionRequest _ _ _ => true
  | _ => false

omit [CommonsMath K] in
theorem requests_requestSolutions {j : Fin m} {a : Agent K} (region : Option ℤ)
    (s : AgentActor K n m) :
    (AgentActor.requestSolutions j a region s).sent.length ≤ 1 := by
  cases region with
  | none =>
      cases hleader : s.leader with
      | none => simp [AgentActor.requestSolutions, deref_none hleader]
      | some leader => simp [AgentActor.requestSolutions, deref_some hleader]
  | some region =>
      have hrecord : (AgentActor.problemToString s : Process _ _ (ActorRef n m)
          (Message K n m) Unit).sent = [] := by
        unfold AgentActor.problemToString AgentActor.getAgent
        cases hagent : s.agent with
        | none => simp [deref_none hagent]
        | some b =>
            cases hproblem : b.problem with
            | none => simp [deref_some hagent, hproblem]
            | some p => simp [deref_some hagent, hproblem]
      simp [AgentActor.requestSolutions, hrecord]

omit [CommonsMath K] in
theorem requests_requestByMemory {j : Fin m} {a : Agent K} (draws : List (Draw K))
    (s : AgentActor K n m) :
    (AgentActor.requestByMemory j a draws s).sent.length ≤ 1 := by
  match draws with
  | [] => exact Nat.zero_le 1
  | [_] => exact Nat.zero_le 1
  | draw :: dice :: rest =>
      change (AgentActor.requestChosen j a (a.chooseRegion draw dice) s).sent.length ≤ 1
      cases a.chooseRegion draw dice with
      | error e => exact Nat.zero_le 1
      | ok region => exact requests_requestSolutions region s

theorem Ripe.emitted {c : Cluster n m d} {j : Fin m} {a : Agent K} {i : Fin n} {r : Region K}
    (h : Ripe c j a i r) (c' : Cluster n m d) (oracle : Oracle K) :
    (∀ x ∈ c'.emitted (.agent j) (AgentActor.onInternalStimulus j oracle (c.agent j)),
      FromAgent j a.solutionsCount x.sender x.message) ∧
    (c'.emitted (.agent j) (AgentActor.onInternalStimulus j oracle (c.agent j))).countP
      (fun x => isRequest x.message) ≤ 1 := by
  have hrun : AgentActor.onInternalStimulus j oracle (c.agent j) =
      AgentActor.requestByMemory j a (oracle.draws 1) (c.agent j) := by
    simp [AgentActor.onInternalStimulus, h.agent, h.started, h.asks, not_lt.2 h.enough]
  rw [hrun]
  have hsat := asksFor_requestByMemory (j := j) (a := a) (oracle.draws 1) (c.agent j) () trivial
  obtain ⟨hsends, hend⟩ := hsat.segment
  have hown := Contract.plain_sends hsends
  have hone := requests_requestByMemory (j := j) (a := a) (oracle.draws 1) (c.agent j)
  have hsent : (AgentActor.requestByMemory j a (oracle.draws 1) (c.agent j)).sent.countP
      (fun x => isRequest x.message) ≤ 1 := List.countP_le_length.trans hone
  unfold Config.emitted
  split
  next e t _ =>
    refine ⟨fun x hx => ?_, ?_⟩
    · rcases List.mem_append.1 hx with hx | hx
      · exact hown x hx
      · exact fromAgent_recover j _ t x hx
    · have hnone : (AgentActor.recover j t).2.countP (fun x => isRequest x.message) = 0 := by
        rw [List.countP_eq_zero]
        intro x hx
        unfold AgentActor.recover at hx
        split at hx
        · simp at hx
        · obtain ⟨leader, -, rfl⟩ := List.mem_map.1 hx
          simp [isRequest]
      rw [List.countP_append]
      exact Nat.add_le_add hsent hnone.le
  next t dst q next hwait =>
    rw [hwait] at hend
    exact hend.1.elim
  next =>
    rw [List.append_nil]
    exact ⟨hown, hsent⟩

/-! ## The region's answer -/

/-- Region `i` has answered agent `j` with one response of `count` solutions,
from distinct positions of its list. -/
def Answered (c : Cluster n m d) (i : Fin n) (j : Fin m) (r : Region K) (count : ℤ) : Prop :=
  ∃ receiverId solutions, channel (.region i) (.actor (.agent j)) c.net =
      [⟨.region i, .actor (.agent j), .actor (.region i),
        .solutionResponse i receiverId solutions⟩] ∧
    (solutions.length : ℤ) = count ∧ DrawnFrom r.solutionList solutions

section Region

variable {i : Fin n} {j : Fin m} {s : RegionActor K n m} {r : Region K} {counter : ℤ}

omit [RealArith K] [CommonsMath K] [MetaHeuristics K] in
theorem sent_of_no_problem (hproblem : s.problem = none) (choices : List ℕ)
    (sender : ActorRef n m) (receiverId : ℤ) :
    (RegionActor.onSolutionRequest i choices sender receiverId counter s).sent = [] := by
  simp [RegionActor.onSolutionRequest, RegionActor.problemToString_none hproblem]

omit [RealArith K] [CommonsMath K] [MetaHeuristics K] in
theorem sent_of_le (h : (held s : ℤ) ≤ counter) (choices : List ℕ) (sender : ActorRef n m)
    (receiverId : ℤ) :
    (RegionActor.onSolutionRequest i choices sender receiverId counter s).sent = [] := by
  cases hproblem : s.problem with
  | none => exact sent_of_no_problem hproblem choices sender receiverId
  | some p =>
      cases hregion : s.region with
      | none =>
          simp [RegionActor.onSolutionRequest, RegionActor.problemToString_some hproblem,
            deref_none hregion]
      | some r =>
          have hsize : ¬counter < r.solutionList.length := by
            simpa [held, hregion] using h
          simp [RegionActor.onSolutionRequest, RegionActor.problemToString_some hproblem,
            deref_some hregion, hsize]

omit [RealArith K] [CommonsMath K] [MetaHeuristics K] in
theorem sent_of_lt (hproblem : s.problem ≠ none) (hregion : s.region = some r)
    (hpos : 1 ≤ counter) (h : counter < r.solutionList.length) (choices : List ℕ)
    (sender : ActorRef n m) (receiverId : ℤ) :
    ∃ solutions, (RegionActor.onSolutionRequest i choices sender receiverId counter s).sent =
        [⟨sender, .actor (.region i), .solutionResponse i receiverId solutions⟩] ∧
      (solutions.length : ℤ) = counter ∧ DrawnFrom r.solutionList solutions := by
  obtain ⟨p, hp⟩ := Option.ne_none_iff_exists'.1 hproblem
  obtain ⟨solutions, hsample⟩ := Option.isSome_iff_exists.1
    ((nextSample_isSome_iff choices r.solutionList counter).2 ⟨by omega, h.le⟩)
  refine ⟨solutions, ?_, nextSample_drawn hsample⟩
  have hrandom : r.getRandomSolutions choices counter = some solutions := hsample
  simp [RegionActor.onSolutionRequest, RegionActor.problemToString_some hp, deref_some hregion, h,
    hrandom, RegionActor.self]

end Region

/-! ## The two routes -/

def headsFor (i : Fin n) : Ref (Address n m) → Bool
  | .actor (.region i') => i' = i
  | .actor (.node _) => true
  | _ => false

def requestsTo (i : Fin n) (net : List (Packet (Address n m) (Message K n m))) : ℕ :=
  net.countP fun p => headsFor i p.dst && isRequest p.message

omit [RealArith K] [CommonsMath K] [MetaHeuristics K] in
theorem requestsTo_append (i : Fin n) (net out : List (Packet (Address n m) (Message K n m))) :
    requestsTo i (net ++ out) = requestsTo i net + requestsTo i out := by
  simp [requestsTo]

def RequestNext (c : Cluster n m d) (src dst : Address n m) : Prop :=
  ∃ p rest, take src (.actor dst) c.net = some (p, rest) ∧ isRequest p.message

/-- The request comes to region `i`: directly, or through managers that pass it on
to the regions registered with them, while other regions handle their copies. -/
inductive Reaches (i : Fin n) : Cluster n m d → Cluster n m d → Prop where
  | handled {src choices c c'} (next : RequestNext c src (.region i))
      (step : c.step (.deliver src (.actor (.region i)) choices) = some c') : Reaches i c c'
  | relayed {src k choices c c' c''} (next : RequestNext c src (.node k))
      (registered : ∀ i' ref, (c.node k).regions i' = some ref → ref = .actor (.region i'))
      (step : c.step (.deliver src (.actor (.node k)) choices) = some c')
      (rest : Reaches i c' c'') : Reaches i c c''
  | overheard {src i' choices c c' c''} (other : i' ≠ i) (next : RequestNext c src (.region i'))
      (step : c.step (.deliver src (.actor (.region i')) choices) = some c')
      (rest : Reaches i c' c'') : Reaches i c c''

/-- Every request in flight is one of agent `j` for `count` solutions, region `i`
has sent nothing, and at most one request is on its way to it. -/
structure Asked (c : Cluster n m d) (j : Fin m) (count : ℤ) (i : Fin n) : Prop where
  requests : ∀ p ∈ c.net, FromAgent j count p.sender p.message
  silent : ∀ p ∈ c.net, p.src ≠ .region i
  once : requestsTo i c.net ≤ 1

theorem Asked.next {c : Cluster n m d} {j : Fin m} {count : ℤ} {i : Fin n} {src dst : Address n m}
    {p : Packet (Address n m) (Message K n m)} {rest} (hasked : Asked c j count i)
    (hnext : RequestNext c src dst) (htake : take src (.actor dst) c.net = some (p, rest)) :
    p.sender = AgentActor.self j ∧
      (∃ senderId receiverId, p.message = .solutionRequest senderId receiverId count) ∧
      (headsFor i (.actor dst) → requestsTo i rest = 0) ∧
      Asked ({ c with net := rest } : Cluster n m d) j count i := by
  obtain ⟨p', rest', htake', hp⟩ := hnext
  obtain ⟨rfl, rfl⟩ : p' = p ∧ rest' = rest := by
    rw [htake] at htake'
    simpa using htake'.symm
  obtain ⟨-, hdst, hperm⟩ := take_perm htake
  have hfrom := hasked.requests p' (mem_take htake)
  have hcount := hasked.once
  rw [requestsTo, hperm.countP_eq, List.countP_cons] at hcount
  have hmessage : p'.sender = AgentActor.self j ∧
      ∃ senderId receiverId, p'.message = .solutionRequest senderId receiverId count := by
    revert hp hfrom
    cases p'.message with
    | solutionRequest senderId receiverId counter =>
        rintro - ⟨hsender, rfl⟩
        exact ⟨hsender, senderId, receiverId, rfl⟩
    | _ => simp [isRequest]
  refine ⟨hmessage.1, hmessage.2, fun hheads => ?_, fun q hq => ?_, fun q hq => ?_, ?_⟩
  · rw [if_pos (by simp [hdst, hheads, hp])] at hcount
    have hcount' : requestsTo i rest' + 1 ≤ 1 := hcount
    omega
  · exact hasked.requests q (mem_of_take htake hq)
  · exact hasked.silent q (mem_of_take htake hq)
  · exact le_trans (Nat.le_add_right _ _) hcount

/-- A region that handles a request puts only its response on the network. -/
theorem emitted_onSolutionRequest (c : Cluster n m d) (j : Fin m) (count : ℤ) (i : Fin n)
    (choices : List ℕ)
    (sender : ActorRef n m) (receiverId counter : ℤ) (s : RegionActor K n m) :
    c.emitted (.region i)
        (RegionActor.onSolutionRequest i choices sender receiverId counter s) =
      (RegionActor.onSolutionRequest i choices sender receiverId counter s).sent ∧
    ∀ x ∈ (RegionActor.onSolutionRequest i choices sender receiverId counter s).sent,
      isRequest x.message = false ∧ FromAgent (K := K) j count x.sender x.message := by
  unfold Config.emitted
  cases hproblem : s.problem with
  | none =>
      simp [RegionActor.onSolutionRequest, RegionActor.problemToString_none hproblem]
      rfl
  | some q =>
      cases hregion : s.region with
      | none =>
          simp [RegionActor.onSolutionRequest, RegionActor.problemToString_some hproblem,
            deref_none hregion]
          rfl
      | some r =>
          rcases RegionActor.onSolutionRequest_some i sender hproblem hregion choices receiverId
            counter with h | h | ⟨solutions, -, h⟩
          · simp [h]
          · simp [h]
            rfl
          · simp [h, isRequest, FromAgent]

section Handled

variable {c c' : Cluster n m d} {src : Address n m} {i i' : Fin n} {j : Fin m} {r : Region K}
  {count : ℤ} {choices : Choices K}

/-- What a region sends when the next message is a request. -/
theorem Asked.heard (hasked : Asked c j count i) (hnext : RequestNext c src (.region i'))
    (hstep : c.step (.deliver src (.actor (.region i')) choices) = some c') :
    ∃ rest receiverId, Asked ({ c with net := rest } : Cluster n m d) j count i ∧
      (i' = i → requestsTo i rest = 0) ∧
      c'.net = rest ++ posted (.region i') (RegionActor.onSolutionRequest i' choices.choices
        (.actor (.agent j)) receiverId count (c.region i')).sent ∧
      ∀ b, b ≠ .region i' → c'.state b = c.state b := by
  obtain ⟨-, p, rest, htake, hsettle⟩ := Config.step_deliver hstep
  obtain ⟨hsender, ⟨senderId, receiverId, hmessage⟩, hleft, hrest⟩ := hasked.next hnext htake
  have hprocess : (cluster n m d).receive (.region i') choices p.sender p.message
      (c.state (.region i')) = RegionActor.onSolutionRequest i' choices.choices
        (.actor (.agent j)) receiverId count (c.region i') := by
    rw [hsender, hmessage]
    rfl
  rw [hprocess] at hsettle
  have hnet := Config.net_settle hsettle
  rw [(emitted_onSolutionRequest _ j count i' choices.choices
    (.actor (.agent j)) receiverId count (c.region i')).1] at hnet
  exact ⟨rest, receiverId, hrest, fun hi => hleft (by simp [headsFor, hi]), hnet,
    fun b hb => Config.state_settle_ne hsettle hb⟩

theorem Asked.handled (hasked : Asked c j count i) (hpos : 1 ≤ count)
    (hregion : (c.region i).region = some r) (hnext : RequestNext c src (.region i))
    (hstep : c.step (.deliver src (.actor (.region i)) choices) = some c') :
    (Answered c' i j r count ∧ requestsTo i c'.net = 0) ↔
      (c.region i).problem ≠ none ∧ count < r.solutionList.length := by
  obtain ⟨rest, receiverId, hrest, hleft, hnet, -⟩ := hasked.heard hnext hstep
  have hchannel : channel (.region i) (.actor (.agent j)) rest = [] := by
    rw [channel, List.filter_eq_nil_iff]
    intro q hq hsame
    exact hrest.silent q hq (of_decide_eq_true hsame).1
  constructor
  · rintro ⟨⟨receiverId', solutions, hanswer, -⟩, -⟩
    have hsends : (RegionActor.onSolutionRequest i choices.choices (.actor (.agent j)) receiverId
        count (c.region i)).sent ≠ [] := by
      intro hnone
      rw [hnet, hnone, posted_nil, List.append_nil, hchannel] at hanswer
      simp at hanswer
    refine ⟨fun hproblem => hsends (sent_of_no_problem hproblem _ _ _), ?_⟩
    by_contra hle
    refine hsends (sent_of_le ?_ _ _ _)
    simp only [held, hregion, Option.map_some, Option.getD_some]
    omega
  · rintro ⟨hproblem, hlt⟩
    obtain ⟨solutions, hsent, hlength, hdrawn⟩ := sent_of_lt hproblem hregion hpos hlt
      choices.choices (.actor (.agent j)) receiverId
    rw [hsent, posted_cons, posted_nil] at hnet
    refine ⟨⟨receiverId, solutions, ?_, hlength, hdrawn⟩, ?_⟩
    · rw [hnet, channel_append, hchannel]
      simp [channel]
    · rw [hnet, requestsTo_append, hleft rfl]
      rfl

theorem Asked.overheard (hasked : Asked c j count i) (hother : i' ≠ i)
    (hnext : RequestNext c src (.region i'))
    (hstep : c.step (.deliver src (.actor (.region i')) choices) = some c') :
    Asked c' j count i ∧ c'.region i = c.region i := by
  obtain ⟨rest, receiverId, hrest, -, hnet, hstate⟩ := hasked.heard hnext hstep
  have hsends := (emitted_onSolutionRequest c j count i' choices.choices
    (.actor (.agent j)) receiverId count (c.region i')).2
  refine ⟨⟨fun q hq => ?_, fun q hq => ?_, ?_⟩, hstate (.region i) (by simpa using hother.symm)⟩
  · rw [hnet] at hq
    rcases List.mem_append.1 hq with hq | hq
    · exact hrest.requests q hq
    · obtain ⟨x, hx, rfl⟩ := List.mem_map.1 hq
      exact (hsends x hx).2
  · rw [hnet] at hq
    rcases List.mem_append.1 hq with hq | hq
    · exact hrest.silent q hq
    · obtain ⟨x, -, rfl⟩ := List.mem_map.1 hq
      simpa using hother
  · have hnone : requestsTo i (posted (.region i') (RegionActor.onSolutionRequest i'
        choices.choices (.actor (.agent j)) receiverId count (c.region i')).sent) = 0 := by
      rw [requestsTo, List.countP_eq_zero]
      intro q hq
      obtain ⟨x, hx, rfl⟩ := List.mem_map.1 hq
      simp [(hsends x hx).1]
    rw [hnet, requestsTo_append, hnone]
    exact hrest.once

end Handled

omit [RealArith K] [CommonsMath K] [MetaHeuristics K] in
theorem sent_onSolutionRequest (sender : ActorRef n m) (request : Message K n m)
    (s : SimulationActor K n m) :
    (SimulationActor.onSolutionRequest sender request s).sent =
        ((List.finRange n).filterMap fun id =>
          (s.regions id).map fun region => ⟨region, sender, request⟩) ∧
      (SimulationActor.onSolutionRequest sender request s).outcome = .done () s := by
  have hall : ∀ ids : List (Fin n),
      (forEach ids (fun id =>
        (s.regions id).elim (pure () : SimulationActor.SimulationReceive K n m Unit)
          fun region => if true then tell region sender request else pure ()) s).sent =
        (ids.filterMap fun id =>
          (s.regions id).map fun region => (⟨region, sender, request⟩ : Sending _ _)) ∧
      (forEach ids (fun id =>
        (s.regions id).elim (pure () : SimulationActor.SimulationReceive K n m Unit)
          fun region => if true then tell region sender request else pure ()) s).outcome =
        .done () s := by
    intro ids
    induction ids with
    | nil => exact ⟨rfl, rfl⟩
    | cons id ids ih =>
        cases hregion : s.regions id with
        | none => simpa [hregion] using ih
        | some region => simpa [hregion] using ih
  have hloop : SimulationActor.onSolutionRequest sender request s =
      forEach (List.finRange n) (fun id =>
        (s.regions id).elim (pure () : SimulationActor.SimulationReceive K n m Unit)
          fun region => if true then tell region sender request else pure ()) s := by
    show forEach (List.finRange n) _ s = _
    congr 1
    funext id
    cases s.regions id with
    | none => rfl
    | some region => rfl
  rw [hloop]
  exact hall (List.finRange n)

omit [RealArith K] [CommonsMath K] [MetaHeuristics K] in
/-- A region that is registered under its id gets at most one copy of what a
manager passes on. -/
theorem relayed_once (i : Fin n) {regions : Fin n → Option (ActorRef n m)}
    (h : ∀ i' ref, regions i' = some ref → ref = .actor (.region i')) (k : ℕ)
    (sender : ActorRef n m) (request : Message K n m) :
    requestsTo i (posted (.node k) ((List.finRange n).filterMap fun id =>
      (regions id).map fun region => (⟨region, sender, request⟩ : Sending _ _))) ≤ 1 := by
  have hcount : ∀ ids : List (Fin n), requestsTo i (posted (.node k) (ids.filterMap fun id =>
      (regions id).map fun region => (⟨region, sender, request⟩ : Sending _ _))) ≤ ids.count i := by
    intro ids
    induction ids with
    | nil => exact le_rfl
    | cons id ids ih =>
        cases hregion : regions id with
        | none =>
            simp only [List.filterMap_cons, hregion, Option.map_none]
            exact ih.trans List.count_le_count_cons
        | some region =>
            simp only [List.filterMap_cons, hregion, Option.map_some, posted_cons]
            rw [h id region hregion, requestsTo, List.countP_cons, List.count_cons]
            refine Nat.add_le_add ih ?_
            by_cases hid : id = i
            · simp only [hid, beq_self_eq_true, if_true]
              split <;> simp
            · simp [headsFor, hid]
  exact (hcount _).trans (List.count_eq_one_of_mem (List.nodup_finRange n)
    (List.mem_finRange i)).le

theorem Asked.relayed {c c' : Cluster n m d} {j : Fin m} {count : ℤ} {i : Fin n}
    (hasked : Asked c j count i) {src : Address n m} {k : ℕ} {choices : Choices K}
    (hnext : RequestNext c src (.node k))
    (hregistered : ∀ i' ref, (c.node k).regions i' = some ref → ref = .actor (.region i'))
    (hstep : c.step (.deliver src (.actor (.node k)) choices) = some c') :
    Asked c' j count i ∧ c'.region i = c.region i := by
  obtain ⟨-, p, rest, htake, hsettle⟩ := Config.step_deliver hstep
  obtain ⟨hsender, ⟨senderId, receiverId, hmessage⟩, hleft, hrest⟩ := hasked.next hnext htake
  have hprocess : (cluster n m d).receive (.node k) choices p.sender p.message
      (c.state (.node k)) = SimulationActor.onSolutionRequest (AgentActor.self j)
        (.solutionRequest senderId receiverId count) (c.node k) := by
    rw [hsender, hmessage]
    rfl
  rw [hprocess] at hsettle
  obtain ⟨hsent, hend⟩ := sent_onSolutionRequest (AgentActor.self j)
    (.solutionRequest senderId receiverId count) (c.node k)
  have hnet : c'.net = rest ++ posted (.node k) ((List.finRange n).filterMap fun id =>
      ((c.node k).regions id).map fun region =>
        (⟨region, AgentActor.self j, .solutionRequest senderId receiverId count⟩ :
          Sending _ _)) := by
    rw [Config.net_settle hsettle, Config.emitted, hend, hsent, List.append_nil]
  refine ⟨⟨fun q hq => ?_, fun q hq => ?_, ?_⟩, Config.state_settle_ne hsettle (by simp)⟩
  · rw [hnet] at hq
    rcases List.mem_append.1 hq with hq | hq
    · exact hrest.requests q hq
    · obtain ⟨x, hx, rfl⟩ := List.mem_map.1 hq
      obtain ⟨id, -, hx⟩ := List.mem_filterMap.1 hx
      obtain ⟨region, -, rfl⟩ := Option.map_eq_some_iff.1 hx
      exact ⟨rfl, rfl⟩
  · rw [hnet] at hq
    rcases List.mem_append.1 hq with hq | hq
    · exact hrest.silent q hq
    · obtain ⟨x, -, rfl⟩ := List.mem_map.1 hq
      simp
  · rw [hnet, requestsTo_append, hleft rfl, Nat.zero_add]
    exact relayed_once i hregistered k _ _

theorem Ripe.asked {c c' : Cluster n m d} {j : Fin m} {a : Agent K} {i : Fin n} {r : Region K}
    (h : Ripe c j a i r) {src : Address n m} {sender : ActorRef n m} {choices : Choices K}
    (hrun : c.run [.inject ⟨src, .actor (.agent j), sender, .internalStimulus⟩,
      .deliver src (.actor (.agent j)) choices] = some c') :
    Asked c' j a.solutionsCount i ∧ ∀ i', c'.region i' = c.region i' := by
  simp only [Cluster.run, run, Option.bind_eq_some_iff, Option.some.injEq] at hrun
  obtain ⟨c₀, hinject, c₁, hdeliver, rfl⟩ := hrun
  have hstart := Config.step_inject hinject
  subst hstart
  obtain ⟨-, p, rest, htake, hsettle⟩ := Config.step_deliver hdeliver
  obtain ⟨rfl, rfl⟩ : (⟨src, .actor (.agent j), sender, .internalStimulus⟩ :
      Packet (Address n m) (Message K n m)) = p ∧ [] = rest := by
    simpa [h.quiet, take] using htake
  obtain ⟨hown, hone⟩ := h.emitted { c with net := [] } choices.toOracle
  have hposted : c₁.net = posted (.agent j) (({ c with net := [] } : Cluster n m d).emitted
      (.agent j) (AgentActor.onInternalStimulus j choices.toOracle (c.agent j))) :=
    Config.net_settle hsettle
  refine ⟨⟨fun q hq => ?_, fun q hq => ?_, ?_⟩, fun i' => ?_⟩
  · rw [hposted] at hq
    obtain ⟨x, hx, rfl⟩ := List.mem_map.1 hq
    exact hown x hx
  · rw [hposted] at hq
    obtain ⟨x, -, rfl⟩ := List.mem_map.1 hq
    simp
  · rw [hposted, requestsTo, posted, List.countP_map]
    refine (List.countP_mono_left fun x _ hx => ?_).trans hone
    exact (Bool.and_eq_true_iff.1 hx).2
  · exact Config.state_settle_ne hsettle (by simp)

theorem Reaches.answered_iff {c c' : Cluster n m d} {i : Fin n} {j : Fin m} {r : Region K}
    {count : ℤ} (h : Reaches i c c') (hasked : Asked c j count i) (hpos : 1 ≤ count)
    (hregion : (c.region i).region = some r) :
    (Answered c' i j r count ∧ requestsTo i c'.net = 0) ↔
      (c.region i).problem ≠ none ∧ count < r.solutionList.length := by
  induction h with
  | handled hnext hstep => exact hasked.handled hpos hregion hnext hstep
  | relayed hnext hregistered hstep _ ih =>
      obtain ⟨hasked', hsame⟩ := hasked.relayed hnext hregistered hstep
      rw [← hsame]
      exact ih hasked' (hsame ▸ hregion)
  | overheard hother hnext hstep _ ih =>
      obtain ⟨hasked', hsame⟩ := hasked.overheard hother hnext hstep
      rw [← hsame]
      exact ih hasked' (hsame ▸ hregion)

/-- A ripe agent's request is answered exactly when the region holds more than
the agent needs and has its problem; a region that holds fewer is silent. -/
theorem response_iff {c c₁ c₂ : Cluster n m d} {j : Fin m} {a : Agent K} {i : Fin n}
    {r : Region K} {src : Address n m} {sender : ActorRef n m} {choices : Choices K}
    (hripe : Ripe c j a i r)
    (hstimulus : c.run [.inject ⟨src, .actor (.agent j), sender, .internalStimulus⟩,
      .deliver src (.actor (.agent j)) choices] = some c₁)
    (hreach : Reaches i c₁ c₂) :
    ((Answered c₂ i j r a.solutionsCount ∧ requestsTo i c₂.net = 0) ↔
      (c.region i).problem ≠ none ∧ a.solutionsCount < r.solutionList.length) ∧
    ∀ i' choices sender receiverId, (held (c.region i') : ℤ) < a.solutionsCount →
      (RegionActor.onSolutionRequest i' choices sender receiverId a.solutionsCount
        (c.region i')).sent = [] := by
  obtain ⟨hasked, hregions⟩ := hripe.asked hstimulus
  refine ⟨?_, fun i' choices sender receiverId hheld =>
    sent_of_le hheld.le choices sender receiverId⟩
  rw [← hregions i]
  exact hreach.answered_iff hasked hripe.needs ((hregions i).symm ▸ hripe.region)

section Example

def region : Fin 1 := ⟨0, Nat.zero_lt_one⟩

def agent : Fin 1 := ⟨0, Nat.zero_lt_one⟩

def leader : Ref (Address 1 1) := .actor (.node 0)

def exampleProblem : Problem := ⟨1, 1, .benchmark⟩

def exampleSettings : AgentSettings ℚ :=
  { name := 0, metaHeuristicName := 0, lifetime := 1000, memoryTax := 0
    isConstructorMetaHeuristic := false, populationSize := some 1 }

def exampleDeployment : Deployment ℚ :=
  { settings :=
      { region := ⟨1, 10⟩, problem := exampleProblem, benchmark := true, executionTime := 0
        hasCooperation := true }
    suite := []
    evaluateFunction := fun _ x => x.head? }

def exampleCluster : Cluster 1 1 exampleDeployment :=
  Cluster.start exampleDeployment
    (fun _ =>
      { (SimulationActor.new exampleDeployment.settings : SimulationActor ℚ 1 1) with
        nodes := [leader], agents := fun _ => some (.actor (.agent agent)), amILeader := true
        leader := some leader, agentsIds := [], agentsUsedIds := [agent] })
    (fun _ =>
      { (AgentActor.new : AgentActor ℚ 1 1) with
        agent := some ((Agent.new exampleProblem exampleSettings).reset exampleProblem)
        leader := some leader, lifetime := 1000, internalTask := some .scheduled
        agentStarted := true })
    (.new [] 1)

def exampleSolution (x : ℚ) : Solution ℚ :=
  { id := 0, agent := some 0, solutionsVector := [some x], functionValue := some x
    viable := true, changed := false }

def quiet : Choices ℚ := ⟨⟨fun _ => [], [0], .fin⟩, .ioException⟩

def draw : Draw ℚ := sampleDraw

def youngRun (solutions : List (Solution ℚ)) : List (ClusterEvent ℚ 1 1) :=
  [.inject ⟨.client 0, leader, .actor (.client 0), .solutionResult solutions⟩,
    .deliver (.client 0) leader quiet, .deliver (.node 0) (.actor (.region region)) quiet,
    .deliver (.region region) leader quiet, .deliver (.region region) leader quiet] ++
    List.replicate 3 (.deliver (.node 0) (.actor (.agent agent)) quiet) ++
    List.replicate 2 (.deliver (.node 0) (.actor (.region region)) quiet)

def stimulus : List (ClusterEvent ℚ 1 1) :=
  [.inject ⟨.client 0, .actor (.agent agent), .actor (.client 0), .internalStimulus⟩,
    .deliver (.client 0) (.actor (.agent agent))
      { quiet with draws := fun _ => [draw, draw] }]

/-- The cluster before the stimulus, after it, after the relay and after the
region has handled the request. -/
structure Stops where
  ripe : Cluster 1 1 exampleDeployment
  asked : Cluster 1 1 exampleDeployment
  relayed : Cluster 1 1 exampleDeployment
  handled : Cluster 1 1 exampleDeployment

def requestRun (solutions : List (Solution ℚ)) : Option Stops := do
  let ripe ← exampleCluster.run (youngRun solutions)
  let asked ← ripe.run stimulus
  let relayed ← asked.step (.deliver (.agent agent) leader quiet)
  let handled ← relayed.step (.deliver (.node 0) (.actor (.region region)) quiet)
  pure ⟨ripe, asked, relayed, handled⟩

def Stops.expected (count : ℕ) (w : Stops) : Bool :=
  w.ripe.net.isEmpty && (w.ripe.agent agent).agentStarted &&
    (w.ripe.agent agent).globalSolutions = count &&
    ((w.ripe.agent agent).agent.any fun a =>
      !a.agentSettings.isConstructorMetaHeuristic && a.solutionsCount = 1) &&
    ((w.ripe.region region).region.any fun r => r.solutionList.length = count) &&
    (w.ripe.region region).problem.isSome &&
    ((take (.agent agent) leader w.asked.net).any fun q => isRequest q.1.message) &&
    (w.asked.node 0).regions region = some (.actor (.region region)) &&
    ((take (.node 0) (.actor (.region region)) w.relayed.net).any fun q => isRequest q.1.message) &&
    w.handled.net.length = count - 1

theorem requestNext_of_any {c : Cluster 1 1 exampleDeployment} {src dst : Address 1 1}
    (h : (take src (.actor dst) c.net).any fun q => isRequest q.1.message) :
    RequestNext c src dst := by
  obtain ⟨q, htake, hq⟩ := (Option.any_eq_true _ _).1 h
  exact ⟨q.1, q.2, htake, hq⟩

/-- A run with these stops leaves the agent ripe, and its request comes to the region. -/
theorem requested {solutions : List (Solution ℚ)} {count : ℕ} (hpos : 1 ≤ count)
    (h : (requestRun solutions).any (Stops.expected count)) :
    ∃ (c c₁ c₂ : Cluster 1 1 exampleDeployment) (a : Agent ℚ) (r : Region ℚ),
      Ripe c agent a region r ∧ a.solutionsCount = 1 ∧ r.solutionList.length = count ∧
      (c.region region).problem ≠ none ∧ c.run stimulus = some c₁ ∧ Reaches region c₁ c₂ ∧
      c₂.net.length = count - 1 := by
  obtain ⟨w, hw, hexpected⟩ := (Option.any_eq_true _ _).1 h
  simp only [requestRun, Option.bind_eq_bind, Option.bind_eq_some_iff, Option.pure_def,
    Option.some.injEq] at hw
  obtain ⟨c, hc, c₁, hc₁, c₂, hc₂, c₃, hc₃, rfl⟩ := hw
  simp only [Stops.expected, Bool.and_eq_true, decide_eq_true_eq, Option.any_eq_true,
    List.isEmpty_iff, Bool.not_eq_true'] at hexpected
  obtain ⟨⟨⟨⟨⟨⟨⟨⟨⟨hquiet, hstarted⟩, hfigure⟩, a, ha, hasks, hneeds⟩, r, hr, hlength⟩, hproblem⟩,
    hnext⟩, hregistered⟩, hnext'⟩, hnet⟩ := hexpected
  have hheld : held (c.region region) = count := by simp [held, hr, hlength]
  refine ⟨c, c₁, c₃, a, r, ⟨hquiet, ha, hstarted, hasks, by omega, ?_, by omega, hr, ?_⟩, hneeds,
    hlength, Option.isSome_iff_ne_none.1 hproblem, hc₁, ?_, hnet⟩
  · rw [hfigure, ← hheld]
    simp [List.finRange_succ, region]
  · exact fun i' hi' => absurd (Subsingleton.elim i' region) hi'
  · refine .relayed (requestNext_of_any ((Option.any_eq_true _ _).2 hnext))
      (fun i' ref href => ?_) hc₂
      (.handled (requestNext_of_any ((Option.any_eq_true _ _).2 hnext')) hc₃)
    rw [Subsingleton.elim i' region, hregistered] at href
    rw [Subsingleton.elim i' region]
    simpa using href.symm

/-- One solution in the system, which is what the agent needs: the request comes
to the region and nothing comes back. -/
theorem only_solution_unanswered :
    ∃ (c c₁ c₂ : Cluster 1 1 exampleDeployment) (a : Agent ℚ) (r : Region ℚ),
      Ripe c agent a region r ∧ a.solutionsCount = 1 ∧ r.solutionList.length = 1 ∧
      (c.region region).problem ≠ none ∧ c.run stimulus = some c₁ ∧ Reaches region c₁ c₂ ∧
      ¬Answered c₂ region agent r a.solutionsCount := by
  have hrun : (requestRun [exampleSolution 1]).any (Stops.expected 1) = true := by decide +kernel
  obtain ⟨c, c₁, c₂, a, r, hripe, hneeds, hlength, hproblem, hstimulus, hreach, hnet⟩ :=
    requested le_rfl hrun
  refine ⟨c, c₁, c₂, a, r, hripe, hneeds, hlength, hproblem, hstimulus, hreach, ?_⟩
  rintro ⟨receiverId, solutions, hchannel, -⟩
  rw [List.eq_nil_of_length_eq_zero hnet] at hchannel
  simp [channel] at hchannel

/-- Two solutions are enough for an answer. -/
theorem response_iff_example :
    ∃ (c c₁ c₂ : Cluster 1 1 exampleDeployment) (a : Agent ℚ) (r : Region ℚ),
      Ripe c agent a region r ∧ c.run stimulus = some c₁ ∧ Reaches region c₁ c₂ ∧
      Answered c₂ region agent r a.solutionsCount := by
  have hrun :
      (requestRun [exampleSolution 1, exampleSolution 2]).any (Stops.expected 2) = true := by
    decide +kernel
  obtain ⟨c, c₁, c₂, a, r, hripe, hneeds, hlength, hproblem, hstimulus, hreach, -⟩ :=
    requested one_le_two hrun
  have hanswered := (response_iff hripe hstimulus hreach).1.2 ⟨hproblem, by omega⟩
  exact ⟨c, c₁, c₂, a, r, hripe, hstimulus, hreach, hanswered.1⟩

end Example

end DOptimas.Proofs.RequestGuards
