import DOptimas.Actors.Custody
import DOptimas.Core.SampleHeuristics
import DOptimas.Support.Ledger
import Mathlib.Data.Fintype.Basic
import Mathlib.Data.Multiset.AddSub
/-!
# The region merge protocol

A region answers a merge request with a response; the requester then sends its
solutions to the responder and dissolves.  A ledger follows the solutions that
regions hold or that are on their way to one.  They are conserved, but for those
that managers add by routing results, as long as no region dissolves with
solutions on their way to it, or into a region that has dissolved itself, and no
manager routes solutions to such a region.
-/

namespace DOptimas.Proofs.MergeConservation

open DOptimas.Support DOptimas.Core DOptimas.Actors DOptimas.Actors.RegionActor Handler

variable {K : Type} {n m : ℕ}

def held (s : RegionActor K n m) : Multiset (Solution K) :=
  match s.region with
  | none => 0
  | some r => r.solutionList

/-- The solutions on their way to a region. -/
def load (p : Packet (Address n m) (Message K n m)) : Multiset (Solution K) :=
  match p.dst, p.message with
  | .actor (.region _), .mergeResult _ _ solutions => solutions
  | .actor (.region _), .solutionResponse _ _ solutions => solutions
  | _, _ => 0

theorem held_none {s : RegionActor K n m} (h : s.region = none) : held s = 0 := by
  simp [held, h]

theorem held_some {s : RegionActor K n m} {r : Region K} (h : s.region = some r) :
    held s = r.solutionList := by
  simp [held, h]

def Protocol : Address n m → Message K n m → Prop
  | .region _, .mergeRequest _ _ _ _ => True
  | .region _, .mergeResponse _ _ => True
  | .region _, .mergeResult _ _ _ => True
  | .region _, .solutionResponse _ _ _ => True
  | .region _, .updateGlobalSummary _ _ _ _ => True
  | .node _, .mergeRequest _ _ _ _ => True
  | .node _, .regionRelease _ => True
  | .node _, .updateRegionSummary _ _ => True
  | .node _, .solutionResult _ => True
  | .node _, .regionSplit _ _ _ => True
  | _, _ => False

/-- What is asked of a message in flight: solutions that a region of dimension
`dim` can store, those for a region on their way to a live one; requests of that
dimension; and responses that name the region they come from. -/
structure InOrder (dim : ℕ) (live : Fin n → Prop) (p : Packet (Address n m) (Message K n m)) :
    Prop where
  storable : ∀ a, p.dst = .actor a → Protocol a p.message →
    ∀ s ∈ p.message.carried, s.Storable dim
  reachable : ∀ i, p.dst = .actor (.region i) → load p ≠ 0 → live i
  request : ∀ i j summary space, p.message = .mergeRequest i j summary space →
    space.dimension = dim
  response : ∀ i j, p.message = .mergeResponse i j → p.sender = self i

theorem load_of_carried {p : Packet (Address n m) (Message K n m)}
    (h : p.message.carried = []) : load p = 0 := by
  obtain ⟨src, dst, sender, message⟩ := p
  cases dst with
  | promise a k => rfl
  | actor a =>
      cases a with
      | region i => cases message <;> first | rfl | exact congrArg Multiset.ofList h
      | _ => rfl

/-- A message without solutions, and a merge request only of dimension `dim`. -/
def Harmless (dim : ℕ) : Message K n m → Prop
  | .mergeResponse _ _ => False
  | .mergeRequest _ _ _ space => space.dimension = dim
  | message => message.carried = []

theorem Harmless.carried {dim : ℕ} {message : Message K n m} (h : Harmless dim message) :
    message.carried = [] := by
  cases message <;> first | exact h | rfl

theorem Harmless.inOrder {dim : ℕ} {message : Message K n m} (h : Harmless dim message)
    (live : Fin n → Prop) (src : Address n m) (dst sender : ActorRef n m) :
    InOrder dim live ⟨src, dst, sender, message⟩ where
  storable a _ _ s hs := by
    rw [h.carried] at hs
    exact absurd hs List.not_mem_nil
  reachable i _ hne := absurd (load_of_carried h.carried) hne
  request := by
    rintro i j summary space rfl
    exact h
  response := by
    rintro i j rfl
    exact absurd h id

theorem inOrder_mergeResponse {dim : ℕ} (live : Fin n → Prop) (i j : Fin n)
    (dst : ActorRef n m) :
    InOrder dim live (⟨.region i, dst, self i, .mergeResponse i j⟩ :
      Packet (Address n m) (Message K n m)) where
  storable a _ _ s hs := absurd hs List.not_mem_nil
  reachable k _ hne := absurd (load_of_carried rfl) hne
  request _ _ _ _ h := by simp at h
  response i' j' h := by
    obtain ⟨rfl, -⟩ := Message.mergeResponse.inj h
    rfl

theorem inOrder_mergeResult {dim : ℕ} {live : Fin n → Prop} {i j : Fin n}
    {solutions : List (Solution K)} (hstorable : ∀ s ∈ solutions, s.Storable dim)
    (hlive : (solutions : Multiset (Solution K)) ≠ 0 → live j) :
    InOrder dim live (⟨.region i, self j, self i, .mergeResult i j solutions⟩ :
      Packet (Address n m) (Message K n m)) where
  storable _ _ _ := hstorable
  reachable k hk hne := by
    obtain rfl : j = k := by simpa [self] using hk
    exact hlive hne
  request _ _ _ _ h := by simp at h
  response _ _ h := by simp at h

def Offer (dim : ℕ) (p : Packet (Address n m) (Message K n m)) : Prop :=
  match p.dst, p.message with
  | .actor (.node _), .solutionResult solutions => ∀ s ∈ solutions, s.Storable dim
  | _, _ => False

theorem Offer.load {dim : ℕ} {p : Packet (Address n m) (Message K n m)} (h : Offer dim p) :
    load p = 0 := by
  obtain ⟨src, dst, sender, message⟩ := p
  cases dst with
  | promise a k => rfl
  | actor a =>
      cases a with
      | region i => exact absurd h id
      | _ => rfl

theorem Offer.solutionResult {dim : ℕ} {p : Packet (Address n m) (Message K n m)}
    (h : Offer dim p) :
    ∃ solutions, p.message = .solutionResult solutions ∧ ∀ s ∈ solutions, s.Storable dim := by
  unfold Offer at h
  split at h
  next solutions _ hmessage => exact ⟨solutions, hmessage, h⟩
  next => exact absurd h id

theorem Offer.inOrder {dim : ℕ} {p : Packet (Address n m) (Message K n m)} (h : Offer dim p)
    (live : Fin n → Prop) : InOrder dim live p := by
  obtain ⟨solutions, hmessage, hstorable⟩ := h.solutionResult
  refine ⟨fun a _ _ => ?_, fun i _ hne => absurd h.load hne, ?_, ?_⟩
  · rw [hmessage]
    exact hstorable
  · simp [hmessage]
  · simp [hmessage]

theorem carried_of_holds {P : Solution K → Prop} {message : Message K n m}
    (h : Custody.Holds P message) : ∀ s ∈ message.carried, P s := by
  cases message with
  | regionSplit i lower higher =>
      intro s hs
      exact (List.mem_append.1 hs).elim (h.1 s) (h.2 s)
  | createRegion i settings solutions time problem => exact h
  | solutionResponse i j solutions => exact h
  | mergeResult i j solutions => exact h
  | solutionResult solutions => exact h
  | _ => exact fun s hs => absurd hs List.not_mem_nil

theorem holds_of_carried {P : Solution K → Prop} {k : ℕ} {message : Message K n m}
    (hprotocol : Protocol (.node k) message) (h : ∀ s ∈ message.carried, P s) :
    Custody.Holds P message := by
  cases message with
  | regionSplit i lower higher =>
      exact ⟨fun s hs => h s (List.mem_append_left _ hs),
        fun s hs => h s (List.mem_append_right _ hs)⟩
  | solutionResult solutions => exact h
  | mergeRequest i j summary space => trivial
  | regionRelease id => trivial
  | updateRegionSummary id summary => trivial
  | _ => exact absurd hprotocol id

section Cluster

variable [RealArith K] [CommonsMath K] [MetaHeuristics K] {d : Deployment K}

def ledger (d : Deployment K) : Ledger (cluster n m d) (Multiset (Solution K)) where
  accounts := Finset.univ.image Address.region
  balance
    | .region _, s => held s
    | _, _ => 0
  load := load

theorem ledger_load : (ledger d : Ledger (cluster n m d) (Multiset (Solution K))).load = load := rfl

def live (c : Cluster n m d) (i : Fin n) : Prop := (c.region i).region ≠ none

/-- The event delivers a message of the protocol to a region or to a manager, or
an agent sends a manager solutions of dimension `dim`. -/
def ProtocolEvent (dim : ℕ) (c : Cluster n m d) : ClusterEvent K n m → Prop
  | .deliver src (.actor a) _ =>
      ∀ p rest, take src (.actor a) c.net = some (p, rest) → Protocol a p.message
  | .inject p => Offer dim p
  | _ => False

/-- A live region handles a response only while no solutions are on their way to
it and, if it has any itself, only from another live region. -/
def Apart (c : Cluster n m d) (i : Fin n) : Message K n m → Prop
  | .mergeResponse j _ =>
      live c i → (held (c.region i) ≠ 0 → j ≠ i ∧ live c j) ∧
        ∀ q ∈ c.net, q.dst = .actor (.region i) → load q = 0
  | _ => True

def MergesApart (c : Cluster n m d) : ClusterEvent K n m → Prop
  | .deliver src (.actor (.region i)) _ =>
      ∀ p rest, take src (.actor (.region i)) c.net = some (p, rest) → Apart c i p.message
  | _ => True

/-- A manager sends solutions to live regions only. -/
def RoutesLive (c : Cluster n m d) : ClusterEvent K n m → Prop
  | .deliver src (.actor (.node k)) choices =>
      ∀ p rest, take src (.actor (.node k)) c.net = some (p, rest) →
        ∀ x ∈ Config.emitted c (.node k) (SimulationActor.receive d.settings k choices.toOracle
          p.sender p.message (c.node k)),
          ∀ i, x.dst = .actor (.region i) →
            load ⟨.node k, x.dst, x.sender, x.message⟩ ≠ 0 → live c i
  | _ => True

def routed (c : Cluster n m d) (e : ClusterEvent K n m) (c' : Cluster n m d) :
    Multiset (Solution K) :=
  match e with
  | .deliver _ (.actor (.node _)) _ => (ledger d).inFlight (c.arrivals c' e)
  | _ => 0

/-- Regions hold, or get, what they did in `c` and what managers have sent them
since. -/
def Conserved (c : Cluster n m d) (es : List (ClusterEvent K n m)) : Prop :=
  Always (accounted Config.step routed)
    (fun t => (ledger d).total t.1 = (ledger d).total c + t.2) (c, 0) es

structure Merging (dim : ℕ) (c : Cluster n m d) : Prop where
  sane : Sane c
  problem : ∀ i r, (c.region i).region = some r →
    ∃ p, (c.region i).problem = some p ∧ p.dimension = dim
  inOrder : ∀ p ∈ c.net, InOrder dim (live c) p

/-! ## One message at a region -/

variable {dim : ℕ} {c c' : Cluster n m d} {i : Fin n}

theorem mem_accounts (i : Fin n) :
    Address.region i ∈ (ledger d : Ledger (cluster n m d) (Multiset (Solution K))).accounts :=
  Finset.mem_image.2 ⟨i, Finset.mem_univ i, rfl⟩

theorem worth_region (s : RegionActor K n m) : (ledger d).worth (.region i) s = held s :=
  if_pos (mem_accounts i)

theorem worth_node (k : ℕ) (s : SimulationActor K n m) : (ledger d).worth (.node k) s = 0 := by
  refine if_neg fun h => ?_
  simp [ledger] at h

theorem Harmless.inFlight {a : Address n m}
    {out : List (Sending (ActorRef n m) (Message K n m))}
    (h : ∀ x ∈ out, Harmless dim x.message) : (ledger d).inFlight (posted a out) = 0 := by
  refine (ledger d).inFlight_eq_zero fun p hp => ?_
  obtain ⟨x, hx, rfl⟩ := List.mem_map.1 hp
  exact load_of_carried (h x hx).carried

/-- A region holds nothing that another actor could have sent it after it dissolved. -/
theorem Merging.load_eq_zero (h : Merging dim c) {p : Packet (Address n m) (Message K n m)}
    (hp : p ∈ c.net) (hdst : p.dst = .actor (.region i)) (hgone : (c.region i).region = none) :
    load p = 0 := by
  by_contra hne
  exact (h.inOrder p hp).reachable i hdst hne hgone

theorem Merging.gone (h : Merging dim c) (hp : (c.region i).problem = none) :
    (c.region i).region = none := by
  by_contra hne
  obtain ⟨r, hr⟩ := Option.ne_none_iff_exists'.1 hne
  obtain ⟨q, hq, -⟩ := h.problem i r hr
  rw [hp] at hq
  exact absurd hq (by simp)

/-! ### The ways in which the handler of a region ends -/

section Delivery

variable (h : Merging dim c) {src : Address n m} {choices : Choices K}
  {p : Packet (Address n m) (Message K n m)} {rest : List (Packet (Address n m) (Message K n m))}
  (htake : take src (.actor (.region i)) c.net = some (p, rest))
  (hstep : Config.step c (.deliver src (.actor (.region i)) choices) = some c')
include h htake hstep

theorem merging_settle
    {proc : Process Failure (RegionActor K n m) (ActorRef n m) (Message K n m) Unit}
    (hsettle : Config.settle { c with net := rest } (.region i) proc = some c')
    {t : RegionActor K n m} {out : List (Sending (ActorRef n m) (Message K n m))}
    (hstate : c'.region i = t)
    (hemitted : Config.emitted { c with net := rest } (.region i) proc = out)
    (hproblem : ∀ r, t.region = some r → ∃ q, t.problem = some q ∧ q.dimension = dim)
    (hlive : t.region ≠ none ∨ (c.region i).region = none ∨
      ∀ q ∈ c.net, q.dst = .actor (.region i) → load q = 0)
    (hout : ∀ x ∈ out, InOrder dim (live c') ⟨.region i, x.dst, x.sender, x.message⟩)
    (hbalance : held t + (ledger d).inFlight (posted (.region i) out) =
      held (c.region i) + load p) :
    Merging dim c' ∧ (ledger d).total c' = (ledger d).total c := by
  have hne : ∀ j, j ≠ i → c'.region j = c.region j := fun j hj =>
    Config.state_settle_ne hsettle fun h => hj (by simpa using h)
  have hnet : c'.net = rest ++ posted (.region i) out := by
    rw [← hemitted]
    exact Config.net_settle hsettle
  have hkeep : ∀ j, live c j → live c' j ∨
      ∀ q ∈ c.net, q.dst = .actor (.region j) → load q = 0 := by
    intro j hj
    by_cases hij : j = i
    · subst hij
      rcases hlive with ht | hgone | hnone
      · exact Or.inl (by rwa [live, hstate])
      · exact absurd hgone hj
      · exact Or.inr hnone
    · exact Or.inl (by rwa [live, hne j hij])
  refine ⟨⟨h.sane.step (e := .deliver src (.actor (.region i)) choices) trivial hstep,
    fun j r hr => ?_, fun q hq => ?_⟩, (ledger d).total_deliver htake hsettle ?_⟩
  · by_cases hij : j = i
    · subst hij
      rw [hstate] at hr ⊢
      exact hproblem r hr
    · rw [hne j hij] at hr ⊢
      exact h.problem j r hr
  · rw [hnet] at hq
    rcases List.mem_append.1 hq with hq | hq
    · have hmem := mem_of_take htake hq
      have hq := h.inOrder q hmem
      refine ⟨hq.storable, fun j hj hload => ?_, hq.request, hq.response⟩
      rcases hkeep j (hq.reachable j hj hload) with hl | hzero
      · exact hl
      · exact absurd (hzero q hmem hj) hload
    · obtain ⟨x, hx, rfl⟩ := List.mem_map.1 hq
      exact hout x hx
  · rw [hemitted, worth_region, worth_region]
    rw [show c'.state (.region i) = t from hstate]
    exact hbalance

theorem merging_return
    {proc : Process Failure (RegionActor K n m) (ActorRef n m) (Message K n m) Unit}
    (hsettle : Config.settle { c with net := rest } (.region i) proc = some c')
    {t : RegionActor K n m} (hdone : proc.outcome = .done () t)
    (hproblem : ∀ r, t.region = some r → ∃ q, t.problem = some q ∧ q.dimension = dim)
    (hlive : t.region ≠ none ∨ (c.region i).region = none ∨
      ∀ q ∈ c.net, q.dst = .actor (.region i) → load q = 0)
    (hout : ∀ x ∈ proc.sent, InOrder dim (live c') ⟨.region i, x.dst, x.sender, x.message⟩)
    (hbalance : held t + (ledger d).inFlight (posted (.region i) proc.sent) =
      held (c.region i) + load p) :
    Merging dim c' ∧ (ledger d).total c' = (ledger d).total c := by
  have hc' : c' = Config.finish { c with net := rest } (.region i) t proc.sent := by
    simpa [Config.settle, hdone] using hsettle.symm
  refine merging_settle h htake hstep hsettle (t := t) ?_ ?_ hproblem hlive hout hbalance
  · subst hc'
    exact Config.state_finish_self _ _ _ _
  · simp [Config.emitted, hdone]

theorem merging_keep
    {proc : Process Failure (RegionActor K n m) (ActorRef n m) (Message K n m) Unit}
    (hsettle : Config.settle { c with net := rest } (.region i) proc = some c')
    {t : RegionActor K n m} (hdone : proc.outcome = .done () t) {r' : Region K} {q : Problem}
    (hr' : t.region = some r') (hq : t.problem = some q) (hdim : q.dimension = dim)
    (hout : ∀ x ∈ proc.sent, Harmless dim x.message)
    (hbalance : (r'.solutionList : Multiset (Solution K)) = held (c.region i) + load p) :
    Merging dim c' ∧ (ledger d).total c' = (ledger d).total c := by
  have hlive : t.region ≠ none := by simp [hr']
  refine merging_return h htake hstep hsettle hdone (fun r _ => ⟨q, hq, hdim⟩) (Or.inl hlive)
    (fun x hx => (hout x hx).inOrder _ _ _ _) ?_
  rw [held_some hr', Harmless.inFlight hout, add_zero, hbalance]

theorem merging_fail {e : Failure}
    (hsettle : Config.settle { c with net := rest } (.region i) (.fail e (c.region i)) = some c')
    (hgone : (c.region i).region = none) :
    Merging dim c' ∧ (ledger d).total c' = (ledger d).total c := by
  have hload := h.load_eq_zero (mem_take htake) (take_perm htake).2.1 hgone
  have hrecover : (recover (c.region i)).region = none := by
    by_contra hne
    obtain ⟨r, hr⟩ := Option.ne_none_iff_exists'.1 hne
    obtain ⟨snapshot, hsaved, hregion, -⟩ := region_recover hr
    have hnone := (h.sane.sound i).dissolved hgone snapshot hsaved
    rw [hnone] at hregion
    exact absurd hregion (by simp)
  have hc' : c' = Config.crash { c with net := rest } (.region i) (c.region i) [] := by
    simpa [Config.settle] using hsettle.symm
  have hemitted :
      Config.emitted { c with net := rest } (.region i) (.fail e (c.region i)) = [] := rfl
  refine merging_settle h htake hstep hsettle (t := recover (c.region i)) ?_ hemitted
    (fun r hr => ?_) (Or.inr (Or.inl hgone)) (by simp) ?_
  · subst hc'
    exact Config.state_finish_self _ _ _ _
  · rw [hrecover] at hr
    exact absurd hr (by simp)
  · rw [held_none hrecover, held_none hgone, hload]
    rfl

/-! ### The messages -/

theorem merging_addSolutions {solutions : List (Solution K)} (hload : load p = solutions)
    (hcarried : p.message.carried = solutions) (hprotocol : Protocol (.region i) p.message)
    (hsettle : Config.settle { c with net := rest } (.region i)
      ((do problemToString; addSolutions i solutions : RegionReceive K n m) (c.region i)) =
        some c') :
    Merging dim c' ∧ (ledger d).total c' = (ledger d).total c := by
  cases hr : (c.region i).region with
  | none =>
      cases hp : (c.region i).problem with
      | none =>
          rw [bind_apply, problemToString_none hp, Process.fail_bind] at hsettle
          exact merging_fail h htake hstep hsettle hr
      | some q =>
          rw [bind_apply, problemToString_some hp, Process.ret_bind,
            addSolutions_missing i hr] at hsettle
          exact merging_fail h htake hstep hsettle hr
  | some r =>
      obtain ⟨q, hp, hdim⟩ := h.problem i r hr
      have hsound := h.sane.sound i
      have hready := hsound.ready r hr
      obtain ⟨leader, hl⟩ := Option.ne_none_iff_exists'.1 hready.leader
      have hstorable : ∀ t ∈ solutions, t.Storable r.problem.dimension := by
        intro t ht
        rw [hsound.problem q r hp hr, hdim]
        refine (h.inOrder p (mem_take htake)).storable _ (take_perm htake).2.1 hprotocol t ?_
        rwa [hcarried]
      obtain ⟨r', -, hlist, -, -, hprocess⟩ := addSolutions_storable i hp hl hr
        hready.consistent hstorable (Or.inl hready.best)
      rw [bind_apply, problemToString_some hp, Process.ret_bind, hprocess] at hsettle
      have hstored : (stored (c.region i) r').region = some r' := rfl
      refine merging_keep h htake hstep hsettle rfl hstored hp hdim ?_ ?_
      · intro x hx
        obtain rfl := List.mem_singleton.1 hx
        rfl
      · rw [held_some hr, hlist, hload, Multiset.coe_add]

theorem merging_onMergeRequest {j : Fin n} {receiverId : ℤ} {summary : SummaryStatistics K}
    {space : MultivariateSummaryStatistics K}
    (hmessage : p.message = .mergeRequest j receiverId summary space)
    (hsettle : Config.settle { c with net := rest } (.region i)
      (onMergeRequest i p.sender j summary space (c.region i)) = some c') :
    Merging dim c' ∧ (ledger d).total c' = (ledger d).total c := by
  cases hp : (c.region i).problem with
  | none =>
      rw [onMergeRequest, bind_apply, problemToString_none hp, Process.fail_bind] at hsettle
      exact merging_fail h htake hstep hsettle (h.gone hp)
  | some q =>
      cases hr : (c.region i).region with
      | none =>
          rw [onMergeRequest, bind_apply, problemToString_some hp, Process.ret_bind, bind_apply,
            deref_none hr, Process.fail_bind] at hsettle
          exact merging_fail h htake hstep hsettle hr
      | some r =>
          have hsound := h.sane.sound i
          obtain ⟨q', hq', hdim⟩ := h.problem i r hr
          obtain rfl : q = q' := by simpa [hp] using hq'
          have hspace : r.searchSpaceSummary.dimension = space.dimension := by
            rw [(hsound.ready r hr).consistent.dimension_eq, hsound.problem q r hp hr, hdim,
              (h.inOrder p (mem_take htake)).request j receiverId summary space hmessage]
          have hload : load p = 0 := load_of_carried (by rw [hmessage]; rfl)
          have hbalance : (r.solutionList : Multiset (Solution K)) =
              held (c.region i) + load p := by
            rw [held_some hr, hload, add_zero]
          rcases onMergeRequest_some i p.sender hp hr j summary space with
            hprocess | ⟨hne, -⟩ | hprocess
          · rw [hprocess] at hsettle
            exact merging_keep h htake hstep hsettle rfl hr hp hdim (by simp) hbalance
          · exact absurd hspace hne
          · rw [hprocess] at hsettle
            refine merging_return h htake hstep hsettle rfl (fun r' _ => ⟨q, hp, hdim⟩)
              (Or.inl (by simp [hr])) (fun x hx => ?_) ?_
            · obtain rfl := List.mem_singleton.1 hx
              exact inOrder_mergeResponse _ _ _ _
            · have hresponse : (ledger d).inFlight (posted (.region i)
                  [⟨p.sender, self i, .mergeResponse i j⟩]) = 0 :=
                (ledger d).inFlight_eq_zero fun q hq => by
                  obtain rfl := List.mem_singleton.1 hq
                  exact load_of_carried rfl
              change held (c.region i) + (ledger d).inFlight (posted (.region i)
                [⟨p.sender, self i, .mergeResponse i j⟩]) = _
              rw [hresponse, hload]

/-- A region that may dissolve sends what it holds to the region that has answered. -/
theorem merging_onMergeResponse {j k : Fin n} (hmessage : p.message = .mergeResponse j k)
    (hapart : Apart c i (.mergeResponse j k))
    (hsettle : Config.settle { c with net := rest } (.region i)
      (onMergeResponse i p.sender j (c.region i)) = some c') :
    Merging dim c' ∧ (ledger d).total c' = (ledger d).total c := by
  have hload : load p = 0 := load_of_carried (by rw [hmessage]; rfl)
  cases hp : (c.region i).problem with
  | none =>
      rw [onMergeResponse, bind_apply, problemToString_none hp, Process.fail_bind] at hsettle
      exact merging_fail h htake hstep hsettle (h.gone hp)
  | some q =>
      cases hr : (c.region i).region with
      | none =>
          rw [onMergeResponse_dissolved i p.sender hp hr j] at hsettle
          refine merging_return h htake hstep hsettle rfl (fun r hr' => ?_)
            (Or.inr (Or.inl hr)) (by simp) ?_
          · rw [hr] at hr'
            exact absurd hr' (by simp)
          · rw [hload]
            rfl
      | some r =>
          have hsound := h.sane.sound i
          obtain ⟨leader, hl⟩ := Option.ne_none_iff_exists'.1 (hsound.ready r hr).leader
          obtain ⟨t, ht⟩ := Option.ne_none_iff_exists'.1 (hsound.timer (by simp [hp]))
          obtain ⟨q', hq', hdim⟩ := h.problem i r hr
          obtain rfl : q = q' := by simpa [hp] using hq'
          obtain ⟨htarget, hnone⟩ := hapart (by simp [live, hr])
          have hsender : p.sender = self j :=
            (h.inOrder p (mem_take htake)).response j k hmessage
          rw [onMergeResponse_some i p.sender hp hr hl ht j, hsender] at hsettle
          have hresult : load (⟨.region i, self j, self i, .mergeResult i j r.solutionList⟩ :
              Packet (Address n m) (Message K n m)) = held (c.region i) := (held_some hr).symm
          refine merging_return h htake hstep hsettle (t := dissolved (c.region i)) rfl
            (fun r' hr' => ?_) (Or.inr (Or.inr hnone)) (fun x hx => ?_) ?_
          · exact absurd hr' (by simp [dissolved])
          · simp only [Process.sent_tell, Process.sent_ret, List.mem_cons, List.not_mem_nil,
              or_false] at hx
            rcases hx with rfl | rfl
            · refine inOrder_mergeResult (fun s hs => ?_) fun hne => ?_
              · have hstorable := (hsound.ready r hr).consistent.storable s hs
                rwa [hsound.problem q r hp hr, hdim] at hstorable
              · rw [← held_some hr] at hne
                obtain ⟨hji, hlive⟩ := htarget hne
                have hstate : c'.region j = c.region j :=
                  Config.state_settle_ne hsettle fun h => hji (by simpa using h)
                rwa [live, hstate]
            · have hharmless : Harmless dim (.regionRelease i : Message K n m) := rfl
              exact hharmless.inOrder _ _ _ _
          · have hrelease : load (⟨.region i, leader, self i, .regionRelease i⟩ :
                Packet (Address n m) (Message K n m)) = 0 := load_of_carried rfl
            change held (dissolved (c.region i)) + (ledger d).inFlight
              [⟨.region i, self j, self i, .mergeResult i j r.solutionList⟩,
                ⟨.region i, leader, self i, .regionRelease i⟩] = _
            rw [Ledger.inFlight_cons, Ledger.inFlight_cons, Ledger.inFlight_nil, hload, ledger_load,
              hresult, hrelease, held_none rfl, zero_add, add_zero]

theorem merging_onUpdateGlobalSummary {id : ℕ} {summary : Option (StatisticalSummary K)} {time : ℕ}
    {ids : List (Fin n)} (hmessage : p.message = .updateGlobalSummary id summary time ids)
    (hsettle : Config.settle { c with net := rest } (.region i)
      (onUpdateGlobalSummary summary time (c.region i)) = some c') :
    Merging dim c' ∧ (ledger d).total c' = (ledger d).total c := by
  have hload : load p = 0 := load_of_carried (by rw [hmessage]; rfl)
  cases hp : (c.region i).problem with
  | none =>
      rw [onUpdateGlobalSummary_none hp] at hsettle
      exact merging_fail h htake hstep hsettle (h.gone hp)
  | some q =>
      rw [onUpdateGlobalSummary_some hp] at hsettle
      cases hr : (c.region i).region with
      | none =>
          refine merging_return h htake hstep hsettle rfl (fun r hr' => ?_)
            (Or.inr (Or.inl hr)) (by simp) ?_
          · exact absurd (hr.symm.trans hr') (by simp)
          · rw [hload]
            rfl
      | some r =>
          obtain ⟨q', hq', hdim⟩ := h.problem i r hr
          obtain rfl : q = q' := by simpa [hp] using hq'
          refine merging_keep h htake hstep hsettle rfl hr hp hdim (by simp) ?_
          rw [held_some hr, hload, add_zero]

theorem merging_region (hprotocol : Protocol (.region i) p.message)
    (hapart : MergesApart c (.deliver src (.actor (.region i)) choices)) :
    Merging dim c' ∧ (ledger d).total c' = (ledger d).total c := by
  obtain ⟨-, p', rest', htake', hsettle⟩ := Config.step_deliver hstep
  obtain ⟨rfl, rfl⟩ : p = p' ∧ rest = rest' := by simpa [htake] using htake'
  have hsettle : Config.settle { c with net := rest } (.region i)
      (receive i choices.choices p.sender p.message (c.region i)) = some c' := hsettle
  have hdst : p.dst = .actor (.region i) := (take_perm htake).2.1
  cases hmessage : p.message with
  | mergeRequest j receiverId summary space =>
      rw [hmessage] at hsettle
      exact merging_onMergeRequest h htake hstep hmessage hsettle
  | mergeResponse j k =>
      rw [hmessage] at hsettle
      have hresponse := hapart p rest htake
      rw [hmessage] at hresponse
      exact merging_onMergeResponse h htake hstep hmessage hresponse hsettle
  | mergeResult j k solutions =>
      rw [hmessage] at hsettle
      exact merging_addSolutions h htake hstep (by simp [load, hdst, hmessage])
        (by rw [hmessage]; rfl) hprotocol hsettle
  | solutionResponse j k solutions =>
      rw [hmessage] at hsettle
      exact merging_addSolutions h htake hstep (by simp [load, hdst, hmessage])
        (by rw [hmessage]; rfl) hprotocol hsettle
  | updateGlobalSummary id summary time ids =>
      rw [hmessage] at hsettle
      exact merging_onUpdateGlobalSummary h htake hstep hmessage hsettle
  | _ =>
      rw [hmessage] at hprotocol
      exact absurd hprotocol id

end Delivery

/-! ## One message at a manager -/

/-- Merge requests of dimension `dim` only, and no response. -/
def Relayable (dim : ℕ) : Message K n m → Prop
  | .mergeResponse _ _ => False
  | .mergeRequest _ _ _ space => space.dimension = dim
  | _ => True

omit [MetaHeuristics K] in
theorem relayable_manager {k : ℕ} (oracle : Oracle K) {p : Packet (Address n m) (Message K n m)}
    (hrequest : ∀ i j summary space, p.message = .mergeRequest i j summary space →
      space.dimension = dim) :
    SendsOnly (fun _ _ message => Relayable dim message) (fun _ message => Relayable dim message)
      (SimulationActor.receive d.settings k oracle p.sender p.message) := by
  refine SimulationActor.sends_receive
    ⟨fun _ _ _ _ _ _ => trivial, fun _ _ _ _ => trivial, fun _ _ => trivial, fun _ => trivial,
      fun _ => trivial, fun _ _ => trivial⟩
    ⟨fun _ _ _ _ _ => trivial, fun _ _ => trivial, fun _ => trivial⟩ oracle p.sender p.message
    fun hrelayed _ => ?_
  cases hmessage : p.message with
  | mergeRequest i j summary space => exact hrequest i j summary space hmessage
  | mergeResponse i j =>
      rw [hmessage] at hrelayed
      exact absurd hrelayed id
  | _ => trivial

section Manager

variable {src : Address n m} {k : ℕ} {choices : Choices K}
  {p : Packet (Address n m) (Message K n m)} {rest : List (Packet (Address n m) (Message K n m))}

/-- What a manager sends is in order when it routes to live regions. -/
theorem inOrder_emitted (h : Merging dim c)
    (htake : take src (.actor (.node k)) c.net = some (p, rest))
    (hprotocol : Protocol (.node k) p.message)
    (hlive : RoutesLive c (.deliver src (.actor (.node k)) choices)) :
    ∀ x ∈ Config.emitted { c with net := rest } (.node k)
      (SimulationActor.receive d.settings k choices.toOracle p.sender p.message (c.node k)),
      InOrder dim (live c) ⟨.node k, x.dst, x.sender, x.message⟩ := by
  intro x hx
  have hp := h.inOrder p (mem_take htake)
  have hcarried := hp.storable _ (take_perm htake).2.1 hprotocol
  have hholds : Custody.SimulationActor.Says (Solution.Storable dim)
      (SimulationActor.receive d.settings k choices.toOracle p.sender p.message) :=
    Custody.SimulationActor.says_receive _ _ (holds_of_carried hprotocol hcarried)
  have hrelayable := relayable_manager (d := d) (k := k) choices.toOracle hp.request
  refine ⟨fun a _ _ => carried_of_holds (P := (Solution.Storable dim)) ?_,
    hlive p rest htake x hx, ?_, ?_⟩
  · rcases Config.emitted_of_sat (hholds (c.node k) () trivial) x hx with
      hx | ⟨-, hx⟩ | ⟨e, s, -, hx⟩
    · exact hx
    · exact hx
    · exact absurd hx List.not_mem_nil
  all_goals
    have hmessage : Relayable dim x.message := by
      rcases Config.emitted_of_sat (hrelayable (c.node k) () trivial) x hx with
        hx | ⟨-, hx⟩ | ⟨e, s, -, hx⟩
      · exact hx
      · exact hx
      · exact absurd hx List.not_mem_nil
  · intro i j summary space hrequest
    rwa [show x.message = _ from hrequest] at hmessage
  · intro i j hresponse
    rw [show x.message = _ from hresponse] at hmessage
    exact absurd hmessage id

theorem merging_node (h : Merging dim c)
    (hstep : Config.step c (.deliver src (.actor (.node k)) choices) = some c')
    (hprotocol : ProtocolEvent dim c (.deliver src (.actor (.node k)) choices))
    (hlive : RoutesLive c (.deliver src (.actor (.node k)) choices)) :
    Merging dim c' ∧ (ledger d).total c' =
      (ledger d).total c + routed c (.deliver src (.actor (.node k)) choices) c' := by
  obtain ⟨-, p, rest, htake, hsettle⟩ := Config.step_deliver hstep
  have hdst : p.dst = .actor (.node k) := (take_perm htake).2.1
  have hload : load p = 0 := by simp [load, hdst]
  have hemitted := inOrder_emitted h htake (hprotocol p rest htake) hlive
  have hregion : ∀ i, c'.region i = c.region i := fun i =>
    Config.state_settle_ne hsettle (by simp)
  have hlives : live c' = live c := by
    funext i
    rw [live, live, hregion i]
  refine ⟨⟨h.sane.step (e := .deliver src (.actor (.node k)) choices) trivial hstep,
    fun i r hr => ?_, fun q hq => ?_⟩, (ledger d).total_deliver_add htake hsettle ?_⟩
  · rw [hregion i] at hr ⊢
    exact h.problem i r hr
  · rw [Config.net_settle hsettle] at hq
    rw [hlives]
    rcases List.mem_append.1 hq with hq | hq
    · exact h.inOrder q (mem_of_take htake hq)
    · obtain ⟨x, hx, rfl⟩ := List.mem_map.1 hq
      exact hemitted x hx
  · have hrest : Config.remaining c (.deliver src (.actor (.node k)) choices) = rest := by
      simp [Config.remaining, htake]
    have harrivals : Config.arrivals c c' (.deliver src (.actor (.node k)) choices) = _ :=
      Config.arrivals_settle (by rw [hrest]; exact hsettle)
    rw [worth_node, worth_node, ledger_load, hload, routed, harrivals, hrest, zero_add, zero_add,
      zero_add]

end Manager

/-! ## Runs -/

theorem merging_step (h : Merging dim c) {e : ClusterEvent K n m}
    (hprotocol : ProtocolEvent dim c e) (hapart : MergesApart c e) (hlive : RoutesLive c e)
    (hstep : Config.step c e = some c') :
    Merging dim c' ∧ (ledger d).total c' = (ledger d).total c + routed c e c' := by
  cases e with
  | deliver src dst choices =>
      cases dst with
      | actor a =>
          cases a with
          | region i =>
              obtain ⟨-, p, rest, htake, -⟩ := Config.step_deliver hstep
              have hrouted : routed c (.deliver src (.actor (.region i)) choices) c' = 0 := rfl
              rw [hrouted, add_zero]
              exact merging_region h htake hstep (hprotocol p rest htake) hapart
          | node k => exact merging_node h hstep hprotocol hlive
          | _ =>
              obtain ⟨-, p, rest, htake, -⟩ := Config.step_deliver hstep
              exact absurd (hprotocol p rest htake) id
      | promise a k => exact absurd hprotocol id
  | inject p =>
      obtain ⟨solutions, hmessage, -⟩ := hprotocol.solutionResult
      have hext : ExternalEvent (.inject p : ClusterEvent K n m) := by
        rw [ExternalEvent, hmessage]
        trivial
      refine ⟨⟨h.sane.step hext hstep, ?_, fun q hq => ?_⟩, ?_⟩
      all_goals obtain rfl := Config.step_inject hstep
      · exact h.problem
      · rcases List.mem_append.1 hq with hq | hq
        · exact h.inOrder q hq
        · obtain rfl := List.mem_singleton.1 hq
          exact hprotocol.inOrder _
      · exact ((ledger d).total_inject c p).trans (congrArg _ hprotocol.load)
  | expire a => exact absurd hprotocol id

def DeliveredToDissolved (c : Cluster n m d) : ClusterEvent K n m → Prop
  | .deliver src (.actor (.region i)) _ =>
      ∃ p rest, take src (.actor (.region i)) c.net = some (p, rest) ∧ load p ≠ 0 ∧ ¬live c i
  | _ => False

theorem Merging.not_deliveredToDissolved (h : Merging dim c) (e : ClusterEvent K n m) :
    ¬DeliveredToDissolved c e := by
  cases e with
  | deliver src dst choices =>
      cases dst with
      | actor a =>
          cases a with
          | region i =>
              rintro ⟨p, rest, htake, hload, hgone⟩
              exact hgone ((h.inOrder p (mem_take htake)).reachable i (take_perm htake).2.1 hload)
          | _ => exact id
      | promise a k => exact id
  | inject p => exact id
  | expire a => exact id

/-- As long as regions dissolve apart and managers route to live ones, the
solutions that live regions hold or that are on their way change only by those
that managers route, and none reaches a dissolved region. -/
theorem merges_conserve_solutions {es : List (ClusterEvent K n m)} (h : Merging dim c)
    (hprotocol : Guarded Config.step (ProtocolEvent dim) c es)
    (hapart : Guarded Config.step MergesApart c es)
    (hlive : Guarded Config.step RoutesLive c es) :
    Conserved c es ∧ Guarded Config.step (fun c' e => ¬DeliveredToDissolved c' e) c es := by
  have hguard : Guarded (accounted Config.step routed)
      (fun t e => ProtocolEvent dim t.1 e ∧ MergesApart t.1 e ∧ RoutesLive t.1 e) (c, 0) es :=
    guarded_accounted.2 (guarded_and.2 ⟨hprotocol, guarded_and.2 ⟨hapart, hlive⟩⟩)
  have hsafe := Guarded.safe (E := fun _ => True)
    (I := fun t => Merging dim t.1 ∧ (ledger d).total t.1 = (ledger d).total c + t.2)
    (F := fun t e => ¬DeliveredToDissolved t.1 e)
    (fun t e hI _ hG => ⟨hI.1.not_deliveredToDissolved e, fun u hstep => by
      obtain ⟨hnext, hworth⟩ := accounted_eq_some hstep
      obtain ⟨hmerging, htotal⟩ := merging_step hI.1 hG.1 hG.2.1 hG.2.2 hnext
      refine ⟨hmerging, ?_⟩
      rw [htotal, hI.2, hworth, add_assoc]⟩)
    ⟨h, (add_zero _).symm⟩ (fun _ _ => trivial) hguard
  exact ⟨hsafe.2.mono fun _ hI => hI.2,
    (guarded_accounted (G := fun c' e => ¬DeliveredToDissolved c' e)).1 hsafe.1⟩

instance (a : Address n m) (message : Message K n m) : Decidable (Protocol a message) :=
  match a, message with
  | .region _, .mergeRequest _ _ _ _ => isTrue trivial
  | .region _, .mergeResponse _ _ => isTrue trivial
  | .region _, .mergeResult _ _ _ => isTrue trivial
  | .region _, .solutionResponse _ _ _ => isTrue trivial
  | .region _, .updateGlobalSummary _ _ _ _ => isTrue trivial
  | .node _, .mergeRequest _ _ _ _ => isTrue trivial
  | .node _, .regionRelease _ => isTrue trivial
  | .node _, .updateRegionSummary _ _ => isTrue trivial
  | .node _, .solutionResult _ => isTrue trivial
  | .node _, .regionSplit _ _ _ => isTrue trivial
  | _, _ => by unfold Protocol; split <;> infer_instance

instance decidableTaken {src : Address n m} {dst : ActorRef n m}
    {net : List (Packet (Address n m) (Message K n m))}
    (P : Packet (Address n m) (Message K n m) → Prop) [DecidablePred P] :
    Decidable (∀ p rest, take src dst net = some (p, rest) → P p) :=
  match h : take src dst net with
  | none => isTrue fun p rest hp => by simp at hp
  | some (p, rest) => decidable_of_iff (P p)
      ⟨fun hp q rest' hq => by
        obtain ⟨rfl, -⟩ : p = q ∧ rest = rest' := by simpa using hq
        exact hp, fun hp => hp p rest rfl⟩

instance (dim : ℕ) (s : Solution K) : Decidable (s.Storable dim) :=
  decidable_of_iff (s.functionValue.isSome ∧ s.toDoubleArray.map List.length = some dim)
    (by rw [Option.map_eq_some_iff]; rfl)

instance (dim : ℕ) (p : Packet (Address n m) (Message K n m)) : Decidable (Offer dim p) := by
  unfold Offer
  split <;> infer_instance

instance (dim : ℕ) (c : Cluster n m d) (e : ClusterEvent K n m) :
    Decidable (ProtocolEvent dim c e) :=
  match e with
  | .deliver src (.actor a) _ => inferInstanceAs (Decidable (∀ p rest,
      take src (.actor a) c.net = some (p, rest) → Protocol a p.message))
  | .deliver _ (.promise _ _) _ => isFalse id
  | .inject p => inferInstanceAs (Decidable (Offer dim p))
  | .expire _ => isFalse id

variable [DecidableEq K]

instance (c : Cluster n m d) (i : Fin n) : Decidable (live c i) :=
  inferInstanceAs (Decidable ((c.region i).region ≠ none))

instance (c : Cluster n m d) (i : Fin n) (message : Message K n m) :
    Decidable (Apart c i message) :=
  match message with
  | .mergeResponse j _ => inferInstanceAs (Decidable (live c i →
      (held (c.region i) ≠ 0 → j ≠ i ∧ live c j) ∧
        ∀ q ∈ c.net, q.dst = .actor (.region i) → load q = 0))
  | _ => by unfold Apart; split <;> infer_instance

instance (c : Cluster n m d) (e : ClusterEvent K n m) : Decidable (MergesApart c e) :=
  match e with
  | .deliver src (.actor (.region i)) _ => inferInstanceAs (Decidable (∀ p rest,
      take src (.actor (.region i)) c.net = some (p, rest) → Apart c i p.message))
  | _ => by unfold MergesApart; split <;> infer_instance

instance (c : Cluster n m d) (e : ClusterEvent K n m) : Decidable (RoutesLive c e) :=
  match e with
  | .deliver src (.actor (.node k)) choices => inferInstanceAs (Decidable (∀ p rest,
      take src (.actor (.node k)) c.net = some (p, rest) →
        ∀ x ∈ Config.emitted c (.node k) (SimulationActor.receive d.settings k choices.toOracle
          p.sender p.message (c.node k)),
          ∀ i, x.dst = .actor (.region i) →
            load ⟨.node k, x.dst, x.sender, x.message⟩ ≠ 0 → live c i))
  | _ => by unfold RoutesLive; split <;> infer_instance

end Cluster

section Example

def early : Fin 2 := ⟨0, Nat.two_pos⟩

def late : Fin 2 := ⟨1, Nat.one_lt_two⟩

def worker : Address 2 1 := .agent ⟨0, Nat.zero_lt_one⟩

def exampleProblem : Problem := ⟨1, 1, .benchmark⟩

def exampleSettings : RegionSettings := ⟨2, 10⟩

def exampleDeployment : Deployment ℚ :=
  { settings :=
      { region := exampleSettings, problem := exampleProblem, benchmark := true
        executionTime := 0, hasCooperation := true }
    suite := []
    evaluateFunction := fun _ x => x.head? }

def leader : Ref (Address 2 1) := .actor (.node 0)

def exampleSolution (x : ℚ) : Solution ℚ :=
  { id := 0, agent := none, solutionsVector := [some x], functionValue := some x
    viable := true, changed := false }

def exampleSolutions : List (Solution ℚ) :=
  [exampleSolution 2, exampleSolution 6, exampleSolution 10]

def exampleRegion (i : Fin 2) : RegionActor ℚ 2 1 :=
  match (onCreate i leader exampleSettings exampleSolutions 0 exampleProblem new).outcome with
  | .done _ s => s
  | _ => new

def exampleManager : SimulationActor ℚ 2 1 :=
  { (SimulationActor.new exampleDeployment.settings : SimulationActor ℚ 2 1) with
    nodes := [leader], regions := fun i => some (self i), amILeader := true
    leader := some leader, regionsIds := [], regionUsedIds := [early, late] }

def request (i : Fin 2) : Packet (Address 2 1) (Message ℚ 2 1) :=
  ⟨.region i, leader, self i, .mergeRequest i Everybody
    (((exampleRegion i).region.map Region.summary).getD .new)
    (((exampleRegion i).region.map Region.searchSpaceSummary).getD (.new 1))⟩

def exampleCluster : Cluster 2 1 exampleDeployment where
  state
    | .node _ => exampleManager
    | .region i => exampleRegion i
    | .agent _ => .new
    | .benchmark => .new [] 1
    | .main => ()
    | .client _ => ()
    | .stray _ => ()
  waiting _ := none
  asked _ := 0
  net := [request early, request late]

def quiet : Choices ℚ := ⟨⟨fun _ => [], [], .fin⟩, .ioException⟩

def deliver (src dst : Address 2 1) : ClusterEvent ℚ 2 1 := .deliver src (.actor dst) quiet

def result (draw : Draw ℚ) : List (ClusterEvent ℚ 2 1) :=
  [.inject ⟨worker, leader, leader, .solutionResult [exampleSolution 4]⟩,
   .deliver worker leader ⟨⟨fun _ => [draw], [], .fin⟩, .ioException⟩]

/-- Region 1 answers region 0, which sends it its solutions and dissolves. -/
def oneMerge : List (ClusterEvent ℚ 2 1) :=
  [deliver (.region early) (.node 0), deliver (.node 0) (.region late),
   deliver (.region late) (.region early), deliver (.region early) (.region late)]

def routedMerge : List (ClusterEvent ℚ 2 1) :=
  result sampleDraw ++ deliver (.node 0) (.region late) :: oneMerge

def lateRouting : List (ClusterEvent ℚ 2 1) :=
  oneMerge ++ result .zero ++ [deliver (.node 0) (.region early)]

/-- Each region answers the other's request before it has its own answered. -/
def twoMerges : List (ClusterEvent ℚ 2 1) :=
  [deliver (.region early) (.node 0), deliver (.region late) (.node 0),
   deliver (.node 0) (.region late), deliver (.node 0) (.region early),
   deliver (.region late) (.region early), deliver (.region early) (.region late),
   deliver (.region early) (.region late), deliver (.region late) (.region early)]

theorem exampleRegion_created (i : Fin 2) :
    (exampleRegion i).Sound ∧ (exampleRegion i).problem = some exampleProblem := by
  have hstorable : ∀ s ∈ exampleSolutions, s.Storable exampleProblem.dimension := by
    intro s hs
    simp only [exampleSolutions, List.mem_cons, List.not_mem_nil, or_false] at hs
    rcases hs with rfl | rfl | rfl <;> exact ⟨rfl, _, rfl, rfl⟩
  have hne : exampleSolutions ≠ [] := by simp [exampleSolutions]
  obtain ⟨r, -, -, -, -, -, hprocess⟩ := onCreate_storable i leader
    (s := (new : RegionActor ℚ 2 1)) exampleSettings 0 hstorable hne
  have hend := (sat_onCreate i leader (p := exampleProblem) sound_new exampleSettings 0
    hne).segment.2
  unfold exampleRegion
  rw [hprocess] at hend ⊢
  exact hend

theorem exampleCluster_merging : Merging 1 exampleCluster := by
  have hdimension : ∀ i, (((exampleRegion i).region.map Region.searchSpaceSummary).getD
      (.new 1)).dimension = 1 := by decide +kernel
  have hnet : ∀ p ∈ exampleCluster.net, ∃ i, p = request i := by
    intro p hp
    rcases List.mem_pair.1 hp with rfl | rfl
    · exact ⟨early, rfl⟩
    · exact ⟨late, rfl⟩
  refine ⟨⟨⟨fun p hp => ?_, fun a q next hwait => by simp [exampleCluster] at hwait⟩,
    fun i => (exampleRegion_created i).1, fun i => rfl⟩,
    fun i r _ => ⟨exampleProblem, (exampleRegion_created i).2, rfl⟩, fun p hp => ?_⟩
  · obtain ⟨i, rfl⟩ := hnet p hp
    trivial
  · obtain ⟨i, rfl⟩ := hnet p hp
    have hharmless : Harmless 1 (request i).message := hdimension i
    exact hharmless.inOrder _ _ _ _

theorem merges_conserve_solutions_example :
    Conserved exampleCluster routedMerge ∧
      Guarded Config.step (fun c e => ¬DeliveredToDissolved c e) exampleCluster routedMerge :=
  merges_conserve_solutions exampleCluster_merging (by decide +kernel) (by decide +kernel)
    (by decide +kernel)

theorem not_conserved {es : List (ClusterEvent ℚ 2 1)}
    (hlost : ∃ t ∈ run (accounted Config.step routed) (exampleCluster, 0) es,
      ((ledger exampleDeployment).total t.1).card < 6 + t.2.card) :
    ¬Conserved exampleCluster es := by
  intro hconserved
  unfold Conserved at hconserved
  have hstart : ((ledger exampleDeployment).total exampleCluster).card = 6 := by decide +kernel
  obtain ⟨t, ht, hcards⟩ := hlost
  have htotal := hconserved.last ht
  rw [htotal, Multiset.card_add, hstart] at hcards
  exact absurd hcards (lt_irrefl _)

/-- Both regions dissolve into each other, and all solutions are lost. -/
theorem crossing_merges_lose_solutions :
    Merging 1 exampleCluster ∧ Guarded Config.step (ProtocolEvent 1) exampleCluster twoMerges ∧
      ¬Conserved exampleCluster twoMerges :=
  ⟨exampleCluster_merging, by decide +kernel,
    not_conserved (by decide +kernel)⟩

/-- A result that the leader routes to a region that has just dissolved is lost. -/
example : ¬Conserved exampleCluster lateRouting :=
  not_conserved (by decide +kernel)

end Example

end DOptimas.Proofs.MergeConservation
