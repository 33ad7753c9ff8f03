import DOptimas.Actors.ClusterInvariant
import DOptimas.Support.Rational
import DOptimas.Core.SampleHeuristics
/-!
# Broadcasting a registration

An entity registers with one manager, and a leading manager passes the
registration on to every other node.  The copies of one registration that are
in flight, owed by a blocked manager or already handled by one node are counted
against what entities have sent.
-/

namespace DOptimas.Proofs.RegistrationBroadcast

open DOptimas.Support DOptimas.Core DOptimas.Actors DOptimas.Actors.SimulationActor Handler

inductive Registration (K : Type) (n m : ℕ) where
  | agent (senderId : Fin m) (sender : ActorRef n m)
  | region (senderId : Fin n) (stats : SummaryStatistics K)
  deriving DecidableEq

/-- A registration with the entity that the transport reports as its sender. -/
structure Issue (K : Type) (n m : ℕ) where
  registration : Registration K n m
  sender : ActorRef n m

variable {K : Type} {n m : ℕ}

def registrationIn : Message K n m → Option (Registration K n m)
  | .agentRegister senderId sender => some (.agent senderId sender)
  | .regionRegister senderId stats => some (.region senderId stats)
  | _ => none

def isNode : Address n m → Bool
  | .node _ => true
  | _ => false

def nodeOf : ActorRef n m → Option ℕ
  | .actor (.node j) => some j
  | _ => none

namespace Issue

variable [DecidableEq K] (x : Issue K n m)

def isOfRegion : Bool :=
  match x.registration with
  | .region _ _ => true
  | .agent _ _ => false

def isCopy (sender : ActorRef n m) (message : Message K n m) : Bool :=
  registrationIn message = some x.registration ∧ sender = x.sender

/-- A copy on its way to a manager that no manager has sent. -/
def isEntering (p : Packet (Address n m) (Message K n m)) : Bool :=
  x.isCopy p.sender p.message && !isNode p.src && (nodeOf p.dst).isSome

def reaches (k : ℕ) (p : Packet (Address n m) (Message K n m)) : Bool :=
  x.isCopy p.sender p.message && nodeOf p.dst == some k

/-- The node `k` may still handle the registration because of this message: an
entity's copy may be passed on to it, a manager's copy is not. -/
def mayReach (k : ℕ) (p : Packet (Address n m) (Message K n m)) : Bool :=
  x.isEntering p || x.reaches k p

end Issue

section Runs

variable [RealArith K] [CommonsMath K] [MetaHeuristics K] {d : Deployment K}

/-- A cluster with the copies that entities have sent, those that the node `k` has
handled, how far its clock has advanced while it did, and whether it is waiting for
an answer in the middle of one. -/
structure Tally (n m : ℕ) (d : Deployment K) where
  cluster : Cluster n m d
  issued : ℕ
  handled : ℕ
  advanced : ℕ
  handling : Bool

def Tally.start (c : Cluster n m d) : Tally n m d := ⟨c, 0, 0, 0, false⟩

variable (x : Issue K n m) (k : ℕ)

def step (t : Tally n m d) (e : ClusterEvent K n m) : Option (Tally n m d) :=
  (Config.step t.cluster e).map fun c' =>
    let handles := (t.cluster.delivered e).any (x.reaches k)
    let inside := handles || t.handling
    { cluster := c'
      issued := t.issued + (t.cluster.arrivals c' e).countP x.isEntering
      handled := t.handled + if handles then 1 else 0
      advanced := t.advanced +
        if inside then (c'.node k).time - (Cluster.node t.cluster k).time else 0
      handling := inside && (c'.waiting (.node k)).isSome }

/-- The node `k` has not handled the registration more often than entities have
sent it, and handling it has not advanced its clock more often either. -/
def AtMostOnce (t : Tally n m d) : Prop :=
  t.handled ≤ t.issued ∧ t.advanced ≤ t.issued

end Runs

def others (s : SimulationActor K n m) (j : ℕ) : List (ActorRef n m) :=
  s.nodes.filter (· ≠ self j)

section Guard

variable [RealArith K] [CommonsMath K] [MetaHeuristics K] {d : Deployment K} (x : Issue K n m)

/-- A manager that leads passes the registration on to each other node once, and
only when it comes from the entity itself. -/
def RelaysOnce (t : Tally n m d) (e : ClusterEvent K n m) : Prop :=
  ∀ p ∈ t.cluster.delivered e, ∀ j ∈ nodeOf p.dst,
    x.isCopy p.sender p.message = true → (Cluster.node t.cluster j).amILeader = true →
      if isNode p.src then others (Cluster.node t.cluster j) j = []
      else (others (Cluster.node t.cluster j) j).Nodup

instance (t : Tally n m d) (e : ClusterEvent K n m) : Decidable (RelaysOnce x t e) :=
  inferInstanceAs (Decidable (∀ p ∈ t.cluster.delivered e, ∀ j ∈ nodeOf p.dst,
    x.isCopy p.sender p.message = true → (Cluster.node t.cluster j).amILeader = true →
      if isNode p.src then others (Cluster.node t.cluster j) j = []
      else (others (Cluster.node t.cluster j) j).Nodup))

/-- A region that registers does not bring the clock of the node `k` to the limit,
where its own release would advance it again. -/
def BelowLimit (k : ℕ) (t : Tally n m d) (e : ClusterEvent K n m) : Prop :=
  ∀ p ∈ t.cluster.delivered e, x.reaches k p = true → x.isOfRegion = true →
    d.settings.benchmark = true ∨
      ((Cluster.node t.cluster k).time + 1 : ℤ) < d.settings.executionTime

instance (k : ℕ) (t : Tally n m d) (e : ClusterEvent K n m) : Decidable (BelowLimit x k t e) :=
  inferInstanceAs (Decidable (∀ p ∈ t.cluster.delivered e, x.reaches k p = true →
    x.isOfRegion = true → d.settings.benchmark = true ∨
      ((Cluster.node t.cluster k).time + 1 : ℤ) < d.settings.executionTime))

def FromOutside : ClusterEvent K n m → Prop
  | .inject p => isNode p.src = false
  | _ => True

end Guard

/-! ## What a manager passes on -/

section Handlers

variable [DecidableEq K] (x : Issue K n m) (k j : ℕ)

def load (dst sender : ActorRef n m) (message : Message K n m) : ℕ :=
  if x.mayReach k ⟨.node j, dst, sender, message⟩ then 1 else 0

/-- The manager of node `j` sends at most as many copies towards the node `k` as
the ghost value allows. -/
def relay : Contract Failure (SimulationActor K n m) (ActorRef n m) (Message K n m) ℕ where
  sendOk g s := load x k j s.dst s.sender s.message ≤ g
  sendNext g s := g - load x k j s.dst s.sender s.message
  askOk _ _ _ message := registrationIn message = none
  answerOk _ _ _ _ := True
  answerNext g _ _ _ := g
  failOk _ _ _ := True
  stuckOk := True

variable {x k j}

theorem mayReach_of_none {p : Packet (Address n m) (Message K n m)}
    (h : registrationIn p.message = none) : x.mayReach k p = false := by
  simp [Issue.mayReach, Issue.isEntering, Issue.reaches, Issue.isCopy, h]

theorem relay_quiet {g : ℕ} {s : Sending (ActorRef n m) (Message K n m)}
    (h : registrationIn s.message = none) :
    (relay x k j).sendOk g s ∧ (relay x k j).sendNext g s = g := by
  have hload : load x k j s.dst s.sender s.message = 0 := by
    simp [load, mayReach_of_none (x := x) (k := k) (p := ⟨.node j, s.dst, s.sender, s.message⟩) h]
  constructor
  · change load x k j s.dst s.sender s.message ≤ g
    omega
  · change g - load x k j s.dst s.sender s.message = g
    omega

theorem relay_sends {g : ℕ} {out : List (Sending (ActorRef n m) (Message K n m))}
    (h : (relay x k j).Sends g out) :
    (posted (.node j) out).countP (x.mayReach k) + (relay x k j).after g out = g := by
  induction out generalizing g with
  | nil => simp [Contract.after]
  | cons s out ih =>
      have hle : load x k j s.dst s.sender s.message ≤ g := h.1
      have hrest := ih h.2
      have hnext : (relay x k j).sendNext g s = g - load x k j s.dst s.sender s.message := rfl
      have hafter : (relay x k j).after g (s :: out) =
          (relay x k j).after ((relay x k j).sendNext g s) out := rfl
      rw [posted_cons, List.countP_cons, hafter]
      rw [hnext] at hrest ⊢
      unfold load at hrest hle ⊢
      omega

theorem relay_of_quiet {α : Type}
    {p : Process Failure (SimulationActor K n m) (ActorRef n m) (Message K n m) α}
    {F : Failure → SimulationActor K n m → Prop} {Q : α → SimulationActor K n m → Unit → Prop}
    (h : p.Sat (Contract.plain (fun _ _ message => registrationIn message = none)
      (fun _ _ message => registrationIn message = none) F) Q ()) (g : ℕ) :
    p.Sat (relay x k j) (fun _ _ _ => True) g := by
  induction p with
  | ret a s => trivial
  | fail e s => trivial
  | tell dst sender message p ih =>
      obtain ⟨hok, hnext⟩ := relay_quiet (x := x) (k := k) (j := j) (g := g)
        (s := ⟨dst, sender, message⟩) h.1
      refine ⟨hok, ?_⟩
      rw [hnext]
      exact ih h.2
  | ask s dst message next ih => exact ⟨h.1, fun r hr => ih r (h.2 r hr)⟩
  | stuck => trivial

omit [DecidableEq K] in
theorem speaks_quiet : Speaks (K := K) (n := n) (m := m)
    (fun _ _ message => registrationIn message = none) j where
  created _ _ _ _ _ _ := rfl
  answered _ _ _ _ := rfl
  starting _ _ := rfl
  started _ := rfl
  announced _ := rfl
  reported _ _ := rfl

omit [DecidableEq K] in
theorem stopping_quiet : Stopping (K := K) (n := n) (m := m)
    (fun _ _ message => registrationIn message = none)
    (fun _ message => registrationIn message = none) j where
  summary _ _ _ _ _ := rfl
  stopped _ _ := rfl
  question _ := rfl

theorem steady_relay (s₀ : SimulationActor K n m) (b : ℕ) :
    Steady (relay x k j) j fun s g => Unmoved s₀ s ∧ g = b where
  frame _ _ _ hst hs := ⟨hs.1.trans hst, hs.2⟩
  summary _ _ _ _ _ _ _ hs :=
    (relay_quiet rfl).imp_right fun hnext => ⟨hs.1, hnext.trans hs.2⟩
  finished _ _ _ hs := (relay_quiet rfl).imp_right fun hnext => ⟨hs.1, hnext.trans hs.2⟩
  question _ _ _ hs := ⟨rfl, fun _ _ => hs⟩
  timeout _ _ _ := trivial
  statistics _ _ _ := trivial
  stuck := trivial

def forwardedCopies (x : Issue K n m) (k j : ℕ) (nodes : List (ActorRef n m))
    (sender : ActorRef n m) (message : Message K n m) : ℕ :=
  nodes.countP fun node => x.mayReach k ⟨.node j, node, sender, message⟩

theorem meets_forward (nodes : List (ActorRef n m)) (sender : ActorRef n m)
    (message : Message K n m) :
    Meets (relay x k j)
      (fun _ g => forwardedCopies x k j (nodes.filter (· ≠ self j)) sender message ≤ g)
      (forEach nodes fun node => if node = self j then pure () else tell node sender message)
      fun _ _ _ => True := by
  induction nodes with
  | nil => exact fun _ _ _ => trivial
  | cons node nodes ih =>
      intro s g hg
      rw [forEach_cons]
      by_cases hnode : node = self j
      · rw [List.filter_cons_of_neg (by simpa using hnode)] at hg
        simpa [hnode] using ih s g hg
      · rw [List.filter_cons_of_pos (by simpa using hnode), forwardedCopies,
          List.countP_cons] at hg
        simp only [if_neg hnode, tell_apply, Process.tell_bind, Process.ret_bind]
        refine ⟨?_, ih s _ ?_⟩
        · change load x k j node sender message ≤ g
          unfold load
          omega
        · change forwardedCopies x k j _ sender message ≤ g - load x k j node sender message
          unfold load forwardedCopies
          omega

theorem meets_forwardIfLeader {s₀ : SimulationActor K n m} {b : ℕ} {sender : ActorRef n m}
    {message : Message K n m}
    (h : s₀.amILeader = true → forwardedCopies x k j (others s₀ j) sender message ≤ b) :
    Meets (relay x k j)
      (fun s g => (s.nodes = s₀.nodes ∧ s.amILeader = s₀.amILeader) ∧ g = b)
      (get >>= fun s => if s.amILeader then forwardToAllNodes j sender message else pure ())
      fun _ _ _ => True := by
  refine meets_get_bind fun s => ?_
  split
  next hleader =>
    intro t g ht
    obtain ⟨rfl, ⟨hnodes, hflag⟩, rfl⟩ := ht
    have hcopies := h (hflag ▸ hleader)
    rw [others, ← hnodes] at hcopies
    exact meets_forward _ _ _ t g hcopies
  · exact fun _ _ _ => trivial

/-- What a manager may pass on towards `k` when it is handed this message. -/
def allowance (x : Issue K n m) (k : ℕ) (p : Packet (Address n m) (Message K n m)) : ℕ :=
  if x.isEntering p && !x.reaches k p then 1 else 0

theorem mayReach_eq_allowance (p : Packet (Address n m) (Message K n m)) :
    (if x.mayReach k p then 1 else 0) = allowance x k p + if x.reaches k p then 1 else 0 := by
  unfold Issue.mayReach allowance
  cases x.isEntering p <;> cases x.reaches k p <;> rfl

theorem mayReach_forwarded {sender : ActorRef n m} {message : Message K n m} (node : ActorRef n m) :
    x.mayReach k ⟨.node j, node, sender, message⟩ = true ↔
      x.isCopy sender message = true ∧ node = self k := by
  have hnode : nodeOf node = some k ↔ node = self k := by
    unfold nodeOf
    split
    next i => simp [self]
    next hne =>
      refine ⟨fun h => by simp at h, fun h => ?_⟩
      exact absurd h (hne k)
  simp [Issue.mayReach, Issue.isEntering, Issue.reaches, isNode, hnode]

/-- The copies that the manager of `j` passes on stay within the allowance. -/
theorem forwardedCopies_le {s : SimulationActor K n m}
    {p : Packet (Address n m) (Message K n m)} (hdst : nodeOf p.dst = some j)
    (hguard : x.isCopy p.sender p.message = true →
      if isNode p.src then others s j = [] else (others s j).Nodup) :
    forwardedCopies x k j (others s j) p.sender p.message ≤ allowance x k p := by
  by_cases hcopy : x.isCopy p.sender p.message = true
  · have hcount : forwardedCopies x k j (others s j) p.sender p.message =
        (others s j).count (self k) := by
      unfold forwardedCopies List.count
      congr 1
      funext node
      rw [Bool.eq_iff_iff, mayReach_forwarded]
      simp [hcopy]
    have hothers := hguard hcopy
    rw [hcount]
    by_cases hsrc : isNode p.src = true
    · rw [if_pos hsrc] at hothers
      simp [hothers]
    · rw [if_neg hsrc] at hothers
      by_cases hk : k = j
      · have hself : self k ∉ others s j := by simp [others, hk]
        rw [List.count_eq_zero_of_not_mem hself]
        exact Nat.zero_le _
      · have hallowed : allowance x k p = 1 := by
          have hjk : j ≠ k := fun h => hk h.symm
          simp [allowance, Issue.isEntering, Issue.reaches, hcopy, hsrc, hdst, hjk]
        rw [hallowed]
        exact List.nodup_iff_count.1 hothers (self k)
  · have hnone : forwardedCopies x k j (others s j) p.sender p.message = 0 := by
      refine List.countP_eq_zero.2 fun node _ h => ?_
      exact hcopy (mayReach_forwarded node |>.1 h).1
    rw [hnone]
    exact Nat.zero_le _

theorem sat_receive [RealArith K] [CommonsMath K] (settings : SimulationSettings)
    (oracle : Oracle K) {s : SimulationActor K n m}
    {p : Packet (Address n m) (Message K n m)} (hdst : nodeOf p.dst = some j)
    (hguard : x.isCopy p.sender p.message = true → s.amILeader = true →
      if isNode p.src then others s j = [] else (others s j).Nodup) :
    (receive settings j oracle p.sender p.message s).Sat (relay x k j) (fun _ _ _ => True)
      (allowance x k p) := by
  have hcopies : s.amILeader = true →
      forwardedCopies x k j (others s j) p.sender p.message ≤ allowance x k p :=
    fun hleader => forwardedCopies_le hdst fun hcopy => hguard hcopy hleader
  have hquiet : registrationIn p.message = none →
      (receive settings j oracle p.sender p.message s).Sat (relay x k j) (fun _ _ _ => True)
        (allowance x k p) := fun hnone =>
    relay_of_quiet (sends_receive speaks_quiet stopping_quiet oracle p.sender p.message
      (fun _ _ => hnone) s () trivial) _
  cases hmessage : p.message with
  | agentRegister id ref =>
      rw [hmessage] at hcopies
      refine Meets.bind (P := fun t g => t = s ∧ g = allowance x k p) (fun t g ht => ?_)
        (fun _ => meets_forwardIfLeader hcopies) s _ ⟨rfl, rfl⟩
      obtain ⟨rfl, rfl⟩ := ht
      exact ⟨⟨rfl, rfl⟩, rfl⟩
  | regionRegister id stats =>
      rw [hmessage] at hcopies
      let s₁ : SimulationActor K n m :=
        { s with
          regions := Function.update s.regions id (some p.sender)
          regionsSummary := Function.update s.regionsSummary id (some stats) }
      have h := (steady_relay (x := x) (k := k) (j := j) s₁ (allowance x k p)).carries
      refine Meets.bind (P := fun t g => t = s ∧ g = allowance x k p) (fun t g ht => ?_)
        (fun _ => Meets.bind (h.calculateGlobalParameters (h.stopAgentsAndRegions _)) fun _ =>
          Meets.bind h.updateRegions fun _ => Meets.bind h.updateAgents fun _ =>
            (meets_forwardIfLeader hcopies).weaken (fun t g ht => ?_) fun _ _ _ h => h)
        s _ ⟨rfl, rfl⟩
      · obtain ⟨rfl, rfl⟩ := ht
        exact ⟨Unmoved.refl s₁, rfl⟩
      · exact ⟨⟨ht.1.nodes, ht.1.amILeader⟩, ht.2⟩
  | _ => exact hmessage ▸ hquiet (by rw [hmessage]; rfl)

end Handlers

/-! ## The clock of a registration -/

section Clock

def unasked (K : Type) (n m : ℕ) :
    Contract Failure (SimulationActor K n m) (ActorRef n m) (Message K n m) Unit :=
  Contract.plain (fun _ _ _ => True) (fun _ _ _ => False) fun _ _ => True

abbrev Early (T : ℕ) (s : SimulationActor K n m) (_ : Unit) : Prop := s.time ≤ T

variable {T k : ℕ}

theorem early_informs :
    Informs (fun _ x => Meets (unasked K n m) (Early T) x fun _ => Early T) k :=
  informs_of_summary fun _ _ _ _ _ _ _ ht => ⟨trivial, ht⟩

theorem early_tell (dst sender : ActorRef n m) (message : Message K n m) :
    Meets (unasked K n m) (Early T) (tell dst sender message) fun _ => Early T :=
  fun _ _ ht => ⟨trivial, ht⟩

theorem early_logStatistics (settings : SimulationSettings) :
    Meets (unasked K n m) (Early T) (logStatistics settings) fun _ => Early T := by
  unfold logStatistics
  split
  · exact Meets.bind (meets_deref_const fun _ _ _ => trivial) fun _ => meets_pure_const ()
  · exact meets_pure_const ()

/-- Below the limit a registration makes the clock advance by one at most, and the
manager asks nobody to stop. -/
theorem early_receive [RealArith K] [CommonsMath K] {settings : SimulationSettings}
    (oracle : Oracle K) (sender : ActorRef n m) {message : Message K n m}
    {s : SimulationActor K n m} (h : registrationIn message ≠ none)
    (hlimit : ∀ id stats, message = .regionRegister id stats →
      settings.benchmark = true ∨ (s.time + 1 : ℤ) < settings.executionTime) :
    (receive settings k oracle sender message s).Sat (unasked K n m)
      (fun _ => Early (s.time + 1)) () := by
  have hinforms : Informs (fun _ x => Meets (unasked K n m) (Early (s.time + 1)) x
      fun _ => Early (s.time + 1)) k := early_informs
  cases message with
  | agentRegister id ref =>
      have hagents : Meets (unasked K n m) (Early (s.time + 1))
          (update fun t => { t with agents := Function.update t.agents id (some ref) })
          fun _ => Early (s.time + 1) := fun _ _ ht => ht
      exact Meets.bind hagents (fun _ => hinforms.forwardIfLeader fun _ => early_tell _ _ _) s ()
        (Nat.le_succ s.time)
  | regionRegister id stats =>
      let s₁ : SimulationActor K n m :=
        { s with
          regions := Function.update s.regions id (some sender)
          regionsSummary := Function.update s.regionsSummary id (some stats) }
      have hclock : increaseTime settings k (stopAll settings k) s₁ = .ret () (ticked s₁) :=
        increaseTime_early _ (hlimit id stats rfl)
      have hstatistics : Meets (unasked K n m) (Early (s.time + 1))
          (update fun t => { t with globalStatistics := aggregate t.regionsStats })
          fun _ => Early (s.time + 1) := fun _ _ ht => ht
      have hcalculate : (calculateGlobalParameters settings k (stopAll settings k) s₁).Sat
          (unasked K n m) (fun _ => Early (s.time + 1)) () := by
        rw [calculateGlobalParameters, bind_apply, hclock, Process.ret_bind]
        exact Meets.bind hstatistics (fun _ => Meets.bind hinforms.updateRegions fun _ =>
          Meets.bind hinforms.updateAgents fun _ => early_logStatistics settings) _ () le_rfl
      refine hcalculate.bind fun _ t g ht => ?_
      exact Meets.bind hinforms.updateRegions (fun _ => Meets.bind hinforms.updateAgents
        fun _ => hinforms.forwardIfLeader fun _ => early_tell _ _ _) t g ht
  | _ => exact absurd rfl h

end Clock

/-! ## Whole runs -/

section Safety

variable [RealArith K] [CommonsMath K] [MetaHeuristics K] {d : Deployment K} {x : Issue K n m}
  {k : ℕ}

/-- The blocked managers pass on at most the copies that `owed` lists for them. -/
def Owing (x : Issue K n m) (k : ℕ) (c : Cluster n m d) (owed : List ℕ) : Prop :=
  ∀ j q next, c.waiting (.node j) = some (q, next) → ∀ answer,
    (next answer : Process Failure (SimulationActor K n m) (ActorRef n m) (Message K n m) Unit).Sat
      (relay x k j) (fun _ _ _ => True) (owed.count j)

/-- The copies that have been handled, are in flight towards `k` or are owed by
blocked managers are no more than those that entities have sent. -/
structure Bounded (x : Issue K n m) (k : ℕ) (t : Tally n m d) : Prop where
  budget : ∃ owed : List ℕ, Owing x k t.cluster owed ∧
    t.cluster.net.countP (x.mayReach k) + owed.length + t.handled ≤ t.issued
  advanced : t.advanced ≤ t.handled
  /-- The node `k` is never waiting in the middle of one. -/
  idle : t.handling = false

theorem Bounded.atMostOnce {t : Tally n m d} (h : Bounded x k t) : AtMostOnce t := by
  obtain ⟨owed, -, hbudget⟩ := h.budget
  have hadvanced := h.advanced
  constructor
  · omega
  · omega

theorem owing_settle {c c' : Cluster n m d} {j b : ℕ} {owed : List ℕ}
    {p : Process Failure (SimulationActor K n m) (ActorRef n m) (Message K n m) Unit}
    (hothers : ∀ i q next, i ≠ j → c.waiting (.node i) = some (q, next) → ∀ answer,
      (next answer : Process Failure (SimulationActor K n m) (ActorRef n m) (Message K n m)
        Unit).Sat (relay x k i) (fun _ _ _ => True) (owed.count i))
    (hj : j ∉ owed) (hp : p.Sat (relay x k j) (fun _ _ _ => True) b)
    (hsettle : Config.settle c (.node j) p = some c') :
    ∃ owed', Owing x k c' owed' ∧
      c'.net.countP (x.mayReach k) + owed'.length ≤
        c.net.countP (x.mayReach k) + owed.length + b := by
  obtain ⟨hsends, hend⟩ := hp.segment
  have hout := relay_sends hsends
  have hkeep : ∀ c'' : Cluster n m d, c''.waiting (.node j) = none →
      (∀ i, i ≠ j → c''.waiting (.node i) = c.waiting (.node i)) → Owing x k c'' owed := by
    intro c'' hnone hsame i q next hwait
    by_cases hi : i = j
    · subst hi
      rw [hnone] at hwait
      simp at hwait
    · rw [hsame i hi] at hwait
      exact hothers i q next hi hwait
  have hne : ∀ i, i ≠ j → (Address.node i : Address n m) ≠ .node j := by
    intro i hi h
    exact hi (Address.node.inj h)
  rcases Config.settle_cases hsettle with ⟨u, s, -, rfl⟩ | ⟨e, s, -, rfl⟩ |
    ⟨s, dst, message, next, houtcome, rfl⟩
  · refine ⟨owed, hkeep _ (by simp) fun i hi => Config.waiting_finish_ne _ _ _ _ (hne i hi), ?_⟩
    rw [Config.net_finish, List.countP_append]
    omega
  · refine ⟨owed, hkeep _ (by simp [Config.crash])
      fun i hi => Config.waiting_finish_ne _ _ _ _ (hne i hi), ?_⟩
    have hrestart : (actorRestart d (.node j) s).2 = [] := rfl
    rw [Config.crash, Config.net_finish, hrestart, List.append_nil, List.countP_append]
    omega
  · rw [houtcome] at hend
    obtain ⟨hask, hnext⟩ := hend
    refine ⟨owed ++ List.replicate ((relay x k j).after b p.sent) j, ?_, ?_⟩
    · intro i q next' hwait answer
      by_cases hi : i = j
      · subst hi
        obtain ⟨rfl, rfl⟩ : dst = q ∧ next = next' := by simpa using hwait
        rw [List.count_append, List.count_eq_zero_of_not_mem hj, List.count_replicate_self,
          Nat.zero_add]
        exact hnext answer trivial
      · rw [Config.waiting_block_ne _ _ _ _ _ _ _ (hne i hi)] at hwait
        have hcount : List.count i (List.replicate ((relay x k j).after b p.sent) j) = 0 := by
          rw [List.count_replicate, if_neg (by simpa using fun h => hi h.symm)]
        rw [List.count_append, hcount, Nat.add_zero]
        exact hothers i q next' hi hwait answer
    · have hquestion : x.mayReach k
          ⟨.node j, dst, .promise (.node j) (c.asked (.node j)), message⟩ = false :=
        mayReach_of_none hask
      rw [Config.net_block, posted_append, posted_cons, posted_nil, List.countP_append,
        List.countP_append, List.countP_singleton, hquestion, List.length_append,
        List.length_replicate]
      simp only [Bool.false_eq_true, if_false]
      omega

/-- The packets in flight are the one that is delivered and the remaining ones. -/
theorem countP_net (c : Cluster n m d) (e : ClusterEvent K n m)
    (f : Packet (Address n m) (Message K n m) → Bool) :
    c.net.countP f = (if (c.delivered e).any f then 1 else 0) + (c.remaining e).countP f := by
  rw [(c.remaining_perm e).countP_eq, List.countP_append]
  cases c.delivered e with
  | none => simp
  | some p => simp [List.countP_cons]

omit [CommonsMath K] [MetaHeuristics K] in
/-- What does not come from a manager counts when it enters. -/
theorem mayReach_of_outside {p : Packet (Address n m) (Message K n m)}
    (h : isNode p.src = false) : x.mayReach k p = x.isEntering p := by
  cases hreach : x.reaches k p with
  | false => simp [Issue.mayReach, hreach]
  | true =>
      have henter : x.isEntering p = true := by
        have hparts := hreach
        simp only [Issue.reaches, Bool.and_eq_true, beq_iff_eq] at hparts
        simp [Issue.isEntering, hparts.1, hparts.2, h]
      simp [Issue.mayReach, henter]

omit [CommonsMath K] [MetaHeuristics K] in
theorem countP_posted {a : Address n m} (h : isNode a = false)
    (out : List (Sending (ActorRef n m) (Message K n m))) :
    (posted a out).countP (x.mayReach k) = (posted a out).countP x.isEntering := by
  refine List.countP_congr fun p hp => ?_
  obtain ⟨s, -, rfl⟩ := List.mem_map.1 hp
  rw [mayReach_of_outside h]

theorem count_others {i j : ℕ} (h : i ≠ j) (owed : List ℕ) :
    (owed.filter (· ≠ j)).count i = owed.count i :=
  List.count_filter (by simpa using h)

theorem length_others (j : ℕ) (owed : List ℕ) :
    (owed.filter (· ≠ j)).length + owed.count j = owed.length := by
  induction owed with
  | nil => rfl
  | cons i owed ih =>
      by_cases hi : i = j
      · subst hi
        simp only [ne_eq, not_true_eq_false, decide_false, Bool.false_eq_true, not_false_eq_true,
          List.filter_cons_of_neg, List.count_cons_self, List.length_cons] at ih ⊢
        omega
      · rw [List.filter_cons_of_pos (by simpa using hi), List.length_cons, List.length_cons,
          List.count_cons_of_ne hi]
        omega

theorem not_mem_others (j : ℕ) (owed : List ℕ) : j ∉ owed.filter (· ≠ j) := by
  simp

theorem not_reached_of_promise {c : Cluster n m d} {src a : Address n m} {i : ℕ}
    {choices : Choices K} :
    (c.delivered (.deliver src (.promise a i) choices)).any (x.reaches k) = false := by
  cases hdelivered : c.delivered (.deliver src (.promise a i) choices) with
  | none => rfl
  | some p =>
      have hdst := (Config.dst_delivered hdelivered).2
      simp [Issue.reaches, hdst, nodeOf]

theorem owing_settle_ne {c c' : Cluster n m d} {a : Address n m} (ha : isNode a = false)
    {owed : List ℕ} (howing : Owing x k c owed)
    {p : Process Failure (ActorState K n m a) (ActorRef n m) (Message K n m) Unit}
    (hsettle : Config.settle c a p = some c') : Owing x k c' owed := by
  intro j q next hwait
  have hne : (Address.node j : Address n m) ≠ a := by
    rintro rfl
    simp [isNode] at ha
  rw [Config.waiting_settle_ne hsettle hne] at hwait
  exact howing j q next hwait

theorem count_turn {c c' : Cluster n m d} {e : ClusterEvent K n m} {j b : ℕ} {owed : List ℕ}
    (howing : Owing x k c owed)
    {p : Process Failure (SimulationActor K n m) (ActorRef n m) (Message K n m) Unit}
    (hp : p.Sat (relay x k j) (fun _ _ _ => True) b)
    (hsettle : Config.settle { c with net := c.remaining e } (.node j) p = some c')
    (hb : (owed.filter (· ≠ j)).length + b + (if (c.delivered e).any (x.reaches k) then 1 else 0) ≤
      (if (c.delivered e).any (x.mayReach k) then 1 else 0) + owed.length) :
    ∃ owed', Owing x k c' owed' ∧
      c'.net.countP (x.mayReach k) + owed'.length +
          (if (c.delivered e).any (x.reaches k) then 1 else 0) ≤
        c.net.countP (x.mayReach k) + owed.length := by
  have hnet := countP_net c e (x.mayReach k)
  obtain ⟨owed', howing', hcount⟩ := owing_settle
    (fun i q next hi hwait answer => by
      rw [count_others hi]
      exact howing i q next hwait answer)
    (not_mem_others j owed) hp hsettle
  refine ⟨owed', howing', ?_⟩
  change c'.net.countP (x.mayReach k) + owed'.length ≤
    (c.remaining e).countP (x.mayReach k) + (owed.filter (· ≠ j)).length + b at hcount
  omega

theorem count_node {c c' : Cluster n m d} {owed : List ℕ} (howing : Owing x k c owed)
    {e : ClusterEvent K n m} {j : ℕ}
    (hguard : ∀ p j, c.delivered e = some p → nodeOf p.dst = some j →
      x.isCopy p.sender p.message = true → (Cluster.node c j).amILeader = true →
        if isNode p.src then others (Cluster.node c j) j = []
        else (others (Cluster.node c j) j).Nodup)
    {p : Process Failure ((cluster n m d).State (.node j)) (ActorRef n m) (Message K n m) Unit}
    (hturn : Config.Turn c e (.node j) p)
    (hsettle : Config.settle { c with net := c.remaining e } (.node j) p = some c') :
    ∃ owed', Owing x k c' owed' ∧
      c'.net.countP (x.mayReach k) + owed'.length +
          (if (c.delivered e).any (x.reaches k) then 1 else 0) ≤
        c.net.countP (x.mayReach k) + owed.length := by
  have hlength := length_others j owed
  cases hturn with
  | handle idle taken =>
      rename_i src choices q rest
      have hdelivered : c.delivered (.deliver src (.actor (.node j)) choices) = some q := by
        simp [Config.delivered, taken]
      have hdst : nodeOf q.dst = some j := by
        rw [(Config.dst_delivered hdelivered).2]
        rfl
      refine count_turn howing (sat_receive d.settings choices.toOracle hdst
        (hguard q j hdelivered hdst)) hsettle ?_
      have hallowed := mayReach_eq_allowance (x := x) (k := k) q
      simp only [hdelivered, Option.any_some]
      omega
  | answer taken waiting =>
      refine count_turn howing (howing j _ _ waiting _) hsettle ?_
      rw [not_reached_of_promise]
      simp only [Bool.false_eq_true, if_false]
      omega
  | expire waiting =>
      refine count_turn howing (howing j _ _ waiting _) hsettle ?_
      simp only [Config.delivered, Option.any_none, Bool.false_eq_true, if_false]
      omega

theorem count_entity {c c' : Cluster n m d} {e : ClusterEvent K n m} {a : Address n m}
    (ha : isNode a = false)
    {p : Process Failure ((cluster n m d).State a) (ActorRef n m) (Message K n m) Unit}
    (hturn : Config.Turn c e a p)
    (hsettle : Config.settle { c with net := c.remaining e } a p = some c') :
    c'.net.countP (x.mayReach k) + (if (c.delivered e).any (x.reaches k) then 1 else 0) ≤
      c.net.countP (x.mayReach k) + (c.arrivals c' e).countP x.isEntering := by
  have hnet := countP_net c e (x.mayReach k)
  have hreach : (c.delivered e).any (x.reaches k) = false := by
    cases hturn with
    | handle idle taken =>
        rename_i src choices q rest
        have hdelivered : c.delivered (.deliver src (.actor a) choices) = some q := by
          simp [Config.delivered, taken]
        have hdst : nodeOf q.dst ≠ some k := by
          rw [(Config.dst_delivered hdelivered).2]
          cases a <;> simp [nodeOf, isNode] at ha ⊢
        simp [hdelivered, Issue.reaches, hdst]
    | answer taken waiting => exact not_reached_of_promise
    | expire waiting => rfl
  have hadded := Config.net_settle hsettle
  rw [Config.arrivals_settle hsettle, hadded, List.countP_append, countP_posted ha, hreach]
  simp only [Bool.false_eq_true, if_false]
  change (c.remaining e).countP (x.mayReach k) + _ + 0 ≤ _
  omega

/-- The steps of a manager, of another actor and of the environment keep the count. -/
theorem count_step {c c' : Cluster n m d} {owed : List ℕ} (howing : Owing x k c owed)
    {e : ClusterEvent K n m} (hext : FromOutside e)
    (hguard : ∀ p j, c.delivered e = some p → nodeOf p.dst = some j →
      x.isCopy p.sender p.message = true → (Cluster.node c j).amILeader = true →
        if isNode p.src then others (Cluster.node c j) j = []
        else (others (Cluster.node c j) j).Nodup)
    (hstep : Config.step c e = some c') :
    ∃ owed', Owing x k c' owed' ∧
      c'.net.countP (x.mayReach k) + owed'.length +
          (if (c.delivered e).any (x.reaches k) then 1 else 0) ≤
        c.net.countP (x.mayReach k) + owed.length + (c.arrivals c' e).countP x.isEntering := by
  have hnet := countP_net c e (x.mayReach k)
  rcases Config.step_cases hstep with ⟨a, p, hturn, hsettle⟩ | ⟨q, rfl, rfl⟩ |
    ⟨src, a, i, draws, rfl, rfl⟩
  · by_cases ha : isNode a = true
    · obtain ⟨j, rfl⟩ : ∃ j, a = .node j := by
        cases a <;> simp [isNode] at ha ⊢
      obtain ⟨owed', howing', hcount⟩ := count_node howing hguard hturn hsettle
      exact ⟨owed', howing', by omega⟩
    · have ha : isNode a = false := by simpa using ha
      have hcount := count_entity (x := x) (k := k) ha hturn hsettle
      exact ⟨owed, owing_settle_ne (c := { c with net := c.remaining e }) ha howing hsettle,
        by omega⟩
  · refine ⟨owed, howing, ?_⟩
    have hq : x.mayReach k q = x.isEntering q := mayReach_of_outside hext
    have harrive : Config.arrivals c { c with net := c.net ++ [q] } (.inject q) = [q] :=
      List.drop_left
    have hnone : c.delivered (.inject q) = none := rfl
    rw [harrive, hnone, List.countP_append, List.countP_singleton, List.countP_singleton, hq]
    simp only [Option.any_none, Bool.false_eq_true, if_false]
    omega
  · refine ⟨owed, howing, ?_⟩
    rw [not_reached_of_promise]
    simp only [Bool.false_eq_true, if_false]
    omega

/-- A manager that asks nothing has finished, with the clock where its handler leaves
it or as it was constructed. -/
theorem clock_settle {c c' : Cluster n m d} {T : ℕ}
    {p : Process Failure (SimulationActor K n m) (ActorRef n m) (Message K n m) Unit}
    (hp : p.Sat (unasked K n m) (fun _ => Early T) ())
    (hsettle : Config.settle c (.node k) p = some c') :
    (c'.node k).time ≤ T ∧ c'.waiting (.node k) = none := by
  have hend := hp.segment.2
  rcases Config.settle_cases hsettle with ⟨u, s, houtcome, rfl⟩ | ⟨e, s, -, rfl⟩ |
    ⟨s, dst, message, next, houtcome, rfl⟩
  · rw [houtcome] at hend
    exact ⟨by simpa [Cluster.node] using hend, by simp⟩
  · have hnew : (Config.crash c (.node k) s p.sent).state (.node k) =
        SimulationActor.new d.settings := Config.state_finish_self _ _ _ _
    rw [Cluster.node, hnew]
    exact ⟨Nat.zero_le T, by simp [Config.crash]⟩
  · rw [houtcome] at hend
    exact hend.1.elim

/-- A registration that the node `k` handles below the limit advances its clock by one
at most, and no answer is awaited. -/
theorem clock_step {t : Tally n m d} {c' : Cluster n m d} {e : ClusterEvent K n m}
    (hreach : (t.cluster.delivered e).any (x.reaches k) = true) (hlimit : BelowLimit x k t e)
    (hstep : Config.step t.cluster e = some c') :
    (c'.node k).time ≤ (Cluster.node t.cluster k).time + 1 ∧ c'.waiting (.node k) = none := by
  cases e with
  | inject p => simp [Config.delivered] at hreach
  | expire a => simp [Config.delivered] at hreach
  | deliver src dst choices =>
      cases dst with
      | promise a i =>
          rw [not_reached_of_promise] at hreach
          simp at hreach
      | actor a =>
          obtain ⟨-, p, rest, htake, hsettle⟩ := Config.step_deliver hstep
          have hdelivered : t.cluster.delivered (.deliver src (.actor a) choices) = some p := by
            simp [Config.delivered, htake]
          have hp : x.reaches k p = true := by
            simpa [hdelivered] using hreach
          have hbelow := hlimit p hdelivered hp
          simp only [Issue.reaches, Issue.isCopy, Bool.and_eq_true, decide_eq_true_eq,
            beq_iff_eq] at hp
          obtain ⟨⟨hregistration, -⟩, hnode⟩ := hp
          rw [(take_perm htake).2.1] at hnode
          obtain rfl : a = .node k := by
            cases a <;> simp [nodeOf] at hnode ⊢
            exact hnode
          refine clock_settle (early_receive choices.toOracle p.sender (by simp [hregistration])
            fun id stats hmessage => hbelow ?_) hsettle
          rw [hmessage] at hregistration
          obtain hregion : .region id stats = x.registration := by
            simpa [registrationIn] using hregistration
          simp [Issue.isOfRegion, ← hregion]

theorem Bounded.step {t t' : Tally n m d} (h : Bounded x k t) {e : ClusterEvent K n m}
    (hext : FromOutside e) (hguard : RelaysOnce x t e) (hlimit : BelowLimit x k t e)
    (hstep : RegistrationBroadcast.step x k t e = some t') : Bounded x k t' := by
  obtain ⟨owed, howing, hbudget⟩ := h.budget
  obtain ⟨c', hc', rfl⟩ := Option.map_eq_some_iff.1 hstep
  obtain ⟨owed', howing', hcount⟩ := count_step howing hext
    (fun p j hdelivered hdst => hguard p hdelivered j hdst) hc'
  refine ⟨⟨owed', howing', ?_⟩, ?_, ?_⟩
  · dsimp only
    omega
  · dsimp only
    have hadvanced := h.advanced
    rw [h.idle, Bool.or_false]
    split
    next hreach =>
      have hclock := (clock_step hreach hlimit hc').1
      omega
    next hreach => omega
  · dsimp only
    rw [h.idle, Bool.or_false]
    cases hreach : (t.cluster.delivered e).any (x.reaches k) with
    | false => rfl
    | true => simp [(clock_step hreach hlimit hc').2]

/-- In every run whose managers relay once and below the limit, no node handles a
registration more often than entities have sent it, nor does its clock advance more
often by it. -/
theorem relaying_run_at_most_once (x : Issue K n m) (k : ℕ) (c : Cluster n m d)
    (hnet : c.net = []) (hidle : ∀ a, c.waiting a = none) (es : List (ClusterEvent K n m))
    (hext : ∀ e ∈ es, FromOutside e)
    (hguard : Guarded (step x k) (fun t e => RelaysOnce x t e ∧ BelowLimit x k t e) (.start c)
      es) :
    Always (step x k) AtMostOnce (.start c) es := by
  have hinit : Bounded x k (Tally.start c) := by
    refine ⟨⟨[], fun j q next hwait => ?_, ?_⟩, Nat.zero_le _, rfl⟩
    · rw [show (Tally.start c).cluster = c from rfl, hidle] at hwait
      simp at hwait
    · simp [Tally.start, hnet]
  have hsafe := Guarded.safe (F := fun _ _ => True) (fun t e ht hext hguard =>
    ⟨trivial, fun t' ht' => ht.step hext hguard.1 hguard.2 ht'⟩) hinit hext hguard
  exact hsafe.2.mono fun t ht => ht.atMostOnce

end Safety

section Example

def region : Fin 1 := ⟨0, Nat.zero_lt_one⟩

def agent : Fin 1 := ⟨0, Nat.zero_lt_one⟩

def exampleProblem : Problem := ⟨1, 1, .benchmark⟩

def exampleDeployment : Deployment ℚ :=
  { settings :=
      { region := ⟨1, 10⟩, problem := exampleProblem, benchmark := false, executionTime := 10
        hasCooperation := true }
    suite := []
    evaluateFunction := fun _ x => x.head? }

def exampleCluster : Cluster 1 1 exampleDeployment :=
  Cluster.start exampleDeployment
    (fun _ =>
      { (SimulationActor.new exampleDeployment.settings : SimulationActor ℚ 1 1) with
        nodes := [self 0, self 1] })
    (fun _ => AgentActor.new) (.new [] 1)

def exampleSolution : Solution ℚ :=
  { id := 0, agent := some 0, solutionsVector := [some 1], functionValue := some 1
    viable := true, changed := false }

def quiet : Choices ℚ := ⟨⟨fun _ => [], [], .fin⟩, .ioException⟩

def elect (j leader : ℕ) : ClusterEvent ℚ 1 1 :=
  .inject ⟨.main, self j, .actor .main, .leaderChanged (some leader)⟩

def elected : List (ClusterEvent ℚ 1 1) := [elect 0 0, .deliver .main (self 0) quiet]

def registering : List (ClusterEvent ℚ 1 1) :=
  [.inject ⟨.agent agent, self 0, .actor (.agent agent), .solutionResult [exampleSolution]⟩,
   .deliver (.agent agent) (self 0) quiet,
   .deliver (.node 0) (.actor (.region region)) quiet,
   .deliver (.region region) (self 0) quiet,
   .deliver (.region region) (self 0) quiet]

def exampleIssue : Issue ℚ 1 1 := ⟨.region region ⟨[1]⟩, .actor (.region region)⟩

def handOver : List (ClusterEvent ℚ 1 1) :=
  elected ++ [elect 0 1, elect 1 1, .deliver .main (self 1) quiet] ++ registering ++
    [.deliver (.node 0) (self 1) quiet, .deliver (.node 1) (self 0) quiet]

/-- Two leaders pass the registration to and fro. -/
theorem two_leaders_bounce_registration :
    ¬Always (step exampleIssue 0) AtMostOnce (.start exampleCluster) handOver := by
  intro halways
  have hrun : (run (step exampleIssue 0) (.start exampleCluster) handOver).map
      (fun t => (t.issued, t.handled, t.advanced)) = some (1, 2, 2) := by decide +kernel
  obtain ⟨t, ht, hcounts⟩ := Option.map_eq_some_iff.1 hrun
  have hlast : AtMostOnce t := halways.last ht
  obtain ⟨hissued, hhandled, -⟩ : t.issued = 1 ∧ t.handled = 2 ∧ t.advanced = 2 := by
    simpa using hcounts
  have hle := hlast.1
  omega

def oneLeader : List (ClusterEvent ℚ 1 1) :=
  elected ++ registering ++ [.deliver (.node 0) (self 1) quiet]

theorem relaying_run_at_most_once_example :
    Always (step exampleIssue 1) AtMostOnce (.start exampleCluster) oneLeader :=
  relaying_run_at_most_once exampleIssue 1 exampleCluster rfl (fun _ => rfl) oneLeader
    (by simp [oneLeader, elected, registering, elect, FromOutside, isNode]) (by decide +kernel)

end Example

end DOptimas.Proofs.RegistrationBroadcast
