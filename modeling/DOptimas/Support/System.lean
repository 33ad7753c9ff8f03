import DOptimas.Support.Process
import Mathlib.Data.List.Perm.Basic
import Mathlib.Logic.Function.Basic
/-!
# Actor systems with FIFO delivery

A system of actors exchanging messages in flight.  The transport keeps the
messages in the order in which they were sent and may deliver the oldest
message of any sender/receiver pair, so delivery is FIFO per pair and otherwise
unordered.  An actor that waits for the answer to a question handles nothing
else; a handler that throws makes its supervisor restart the actor.
-/

namespace DOptimas.Support

open Function

/-- Where a message can be sent: the mailbox of an actor, or the promise on
which its `k`-th question waits. -/
inductive Ref (A : Type) where
  | actor (a : A)
  | promise (a : A) (k : ℕ)
  deriving DecidableEq

structure Packet (A μ : Type) where
  src : A
  dst : Ref A
  sender : Ref A
  message : μ

variable {ε A μ Ω : Type}

/-! ## FIFO channels -/

section Channels

variable [DecidableEq A]

/-- The messages in flight from `src` to `dst`, oldest first. -/
def channel (src : A) (dst : Ref A) (net : List (Packet A μ)) : List (Packet A μ) :=
  net.filter fun p => p.src = src ∧ p.dst = dst

def take (src : A) (dst : Ref A) :
    List (Packet A μ) → Option (Packet A μ × List (Packet A μ))
  | [] => none
  | p :: ps =>
      if p.src = src ∧ p.dst = dst then some (p, ps)
      else (take src dst ps).map fun q => (q.1, p :: q.2)

@[simp] theorem channel_append (src : A) (dst : Ref A) (net out : List (Packet A μ)) :
    channel src dst (net ++ out) = channel src dst net ++ channel src dst out := by
  simp [channel]

theorem take_cons_eq_some {src : A} {dst : Ref A} {p q : Packet A μ}
    {ps rest : List (Packet A μ)} (h : take src dst (p :: ps) = some (q, rest)) :
    (p.src = src ∧ p.dst = dst ∧ q = p ∧ rest = ps) ∨
      (¬(p.src = src ∧ p.dst = dst) ∧
        ∃ rest', take src dst ps = some (q, rest') ∧ rest = p :: rest') := by
  unfold take at h
  split at h
  next hp =>
    obtain ⟨rfl, rfl⟩ : p = q ∧ ps = rest := by simpa using h
    exact Or.inl ⟨hp.1, hp.2, rfl, rfl⟩
  next hp =>
    obtain ⟨⟨q', rest'⟩, htake, heq⟩ := Option.map_eq_some_iff.1 h
    obtain ⟨rfl, rfl⟩ : q' = q ∧ p :: rest' = rest := by simpa using heq
    exact Or.inr ⟨hp, rest', htake, rfl⟩

/-- Taking a message removes one packet of that pair from the network. -/
theorem take_perm {src : A} {dst : Ref A} {net rest : List (Packet A μ)} {q : Packet A μ}
    (h : take src dst net = some (q, rest)) :
    q.src = src ∧ q.dst = dst ∧ net.Perm (q :: rest) := by
  induction net generalizing rest with
  | nil => simp [take] at h
  | cons p ps ih =>
      rcases take_cons_eq_some h with ⟨hsrc, hdst, rfl, rfl⟩ | ⟨-, rest', htake, rfl⟩
      · exact ⟨hsrc, hdst, List.Perm.refl _⟩
      · obtain ⟨hsrc, hdst, hperm⟩ := ih htake
        exact ⟨hsrc, hdst, (hperm.cons p).trans (List.Perm.swap q p rest')⟩

theorem mem_of_take {src : A} {dst : Ref A} {net rest : List (Packet A μ)} {q p : Packet A μ}
    (h : take src dst net = some (q, rest)) (hp : p ∈ rest) : p ∈ net :=
  (take_perm h).2.2.mem_iff.2 (List.mem_cons_of_mem q hp)

theorem mem_take {src : A} {dst : Ref A} {net rest : List (Packet A μ)} {q : Packet A μ}
    (h : take src dst net = some (q, rest)) : q ∈ net :=
  (take_perm h).2.2.mem_iff.2 List.mem_cons_self

end Channels

/-! ## Actors -/

/-- What the actors of a system do.  `Ω` is the randomness one handler may draw. -/
structure Behaviour (ε A μ Ω : Type) where
  State : A → Type
  receive : (a : A) → Ω → Ref A → μ → Handler ε (State a) (Ref A) μ Unit
  /-- The supervisor's restart after a handler threw, with what the new
  incarnation sends while it starts. -/
  restart : (a : A) → State a → State a × List (Sending (Ref A) μ)

structure Config (B : Behaviour ε A μ Ω) where
  state : ∀ a, B.State a
  waiting : ∀ a, Option (Ref A × (Option μ → Process ε (B.State a) (Ref A) μ Unit))
  asked : A → ℕ
  net : List (Packet A μ)

/-- One scheduler choice.  `inject` is a message from outside the modelled
actors, and `expire` the timeout of the question an actor waits on. -/
inductive Event (A μ Ω : Type) where
  | deliver (src : A) (dst : Ref A) (draws : Ω)
  | inject (packet : Packet A μ)
  | expire (a : A)

def posted (a : A) (out : List (Sending (Ref A) μ)) : List (Packet A μ) :=
  out.map fun s => ⟨a, s.dst, s.sender, s.message⟩

@[simp] theorem posted_nil (a : A) : posted a ([] : List (Sending (Ref A) μ)) = [] := rfl

@[simp] theorem posted_cons (a : A) (s : Sending (Ref A) μ) (out : List (Sending (Ref A) μ)) :
    posted a (s :: out) = ⟨a, s.dst, s.sender, s.message⟩ :: posted a out := rfl

@[simp] theorem posted_append (a : A) (out out' : List (Sending (Ref A) μ)) :
    posted a (out ++ out') = posted a out ++ posted a out' := by
  simp [posted]

namespace Config

variable [DecidableEq A] {B : Behaviour ε A μ Ω}

def finish (c : Config B) (a : A) (s : B.State a) (out : List (Sending (Ref A) μ)) :
    Config B :=
  { c with
    state := update c.state a s
    waiting := update c.waiting a none
    net := c.net ++ posted a out }

def block (c : Config B) (a : A) (s : B.State a) (out : List (Sending (Ref A) μ))
    (dst : Ref A) (m : μ) (next : Option μ → Process ε (B.State a) (Ref A) μ Unit) : Config B :=
  { state := update c.state a s
    waiting := update c.waiting a (some (dst, next))
    asked := update c.asked a (c.asked a + 1)
    net := c.net ++ posted a (out ++ [⟨dst, .promise a (c.asked a), m⟩]) }

def crash (c : Config B) (a : A) (s : B.State a) (out : List (Sending (Ref A) μ)) :
    Config B :=
  c.finish a (B.restart a s).1 (out ++ (B.restart a s).2)

/-- Run a handler of `a` up to its end or its next question. -/
def settle (c : Config B) (a : A) (p : Process ε (B.State a) (Ref A) μ Unit) :
    Option (Config B) :=
  match p.outcome with
  | .done _ s => some (c.finish a s p.sent)
  | .failed _ s => some (c.crash a s p.sent)
  | .waiting s dst m next => some (c.block a s p.sent dst m next)
  | .stuck => none

def step (c : Config B) : Event A μ Ω → Option (Config B)
  | .deliver src (.actor a) draws =>
      if (c.waiting a).isSome then none
      else match take src (.actor a) c.net with
        | none => none
        | some (p, rest) =>
            { c with net := rest }.settle a
              (B.receive a draws p.sender p.message (c.state a))
  | .deliver src (.promise a k) _ =>
      match take src (.promise a k) c.net with
      | none => none
      | some (p, rest) =>
          match c.waiting a with
          | none => some { c with net := rest }
          | some (_, next) =>
              if k + 1 = c.asked a then
                { c with net := rest }.settle a (next (some p.message))
              else some { c with net := rest }
  | .inject p => some { c with net := c.net ++ [p] }
  | .expire a =>
      match c.waiting a with
      | none => none
      | some (_, next) => c.settle a (next none)

section Fields

variable (c : Config B) (a : A) (s : B.State a) (out : List (Sending (Ref A) μ)) (dst : Ref A)
  (m : μ) (next : Option μ → Process ε (B.State a) (Ref A) μ Unit)

@[simp] theorem state_finish_self : (c.finish a s out).state a = s := by
  simp [finish]

theorem state_finish_ne {b : A} (h : b ≠ a) : (c.finish a s out).state b = c.state b := by
  simp [finish, h]

@[simp] theorem waiting_finish_self : (c.finish a s out).waiting a = none := by
  simp [finish]

theorem waiting_finish_ne {b : A} (h : b ≠ a) :
    (c.finish a s out).waiting b = c.waiting b := by
  simp [finish, h]

@[simp] theorem asked_finish : (c.finish a s out).asked = c.asked := rfl

@[simp] theorem net_finish : (c.finish a s out).net = c.net ++ posted a out := rfl

@[simp] theorem state_block_self : (c.block a s out dst m next).state a = s := by
  simp [block]

theorem state_block_ne {b : A} (h : b ≠ a) :
    (c.block a s out dst m next).state b = c.state b := by
  simp [block, h]

@[simp] theorem waiting_block_self :
    (c.block a s out dst m next).waiting a = some (dst, next) := by
  simp [block]

theorem waiting_block_ne {b : A} (h : b ≠ a) :
    (c.block a s out dst m next).waiting b = c.waiting b := by
  simp [block, h]

@[simp] theorem asked_block_self : (c.block a s out dst m next).asked a = c.asked a + 1 := by
  simp [block]

@[simp] theorem net_block : (c.block a s out dst m next).net =
    c.net ++ posted a (out ++ [⟨dst, .promise a (c.asked a), m⟩]) := rfl

end Fields

theorem settle_cases {c c' : Config B} {a : A} {p : Process ε (B.State a) (Ref A) μ Unit}
    (h : c.settle a p = some c') :
    (∃ u s, p.outcome = .done u s ∧ c' = c.finish a s p.sent) ∨
    (∃ e s, p.outcome = .failed e s ∧ c' = c.crash a s p.sent) ∨
    (∃ s dst m next, p.outcome = .waiting s dst m next ∧
      c' = c.block a s p.sent dst m next) := by
  unfold settle at h
  split at h
  next u s hout => exact Or.inl ⟨u, s, hout, by simpa using h.symm⟩
  next e s hout => exact Or.inr (Or.inl ⟨e, s, hout, by simpa using h.symm⟩)
  next s dst m next hout =>
    exact Or.inr (Or.inr ⟨s, dst, m, next, hout, by simpa using h.symm⟩)
  next => simp at h

/-- What `a` puts on the network while it runs `p`: its messages, then a question
or what its restart sends. -/
def emitted (c : Config B) (a : A) (p : Process ε (B.State a) (Ref A) μ Unit) :
    List (Sending (Ref A) μ) :=
  p.sent ++
    match p.outcome with
    | .failed _ s => (B.restart a s).2
    | .waiting _ dst m _ => [⟨dst, .promise a (c.asked a), m⟩]
    | _ => []

section Settle

variable {c c' : Config B} {a : A} {p : Process ε (B.State a) (Ref A) μ Unit}

theorem net_settle (h : c.settle a p = some c') : c'.net = c.net ++ posted a (c.emitted a p) := by
  rcases settle_cases h with ⟨u, s, hout, rfl⟩ | ⟨e, s, hout, rfl⟩ | ⟨s, dst, m, next, hout, rfl⟩
  · simp [emitted, hout]
  · simp [emitted, hout, crash]
  · simp [emitted, hout]

theorem state_settle_ne (h : c.settle a p = some c') {b : A} (hb : b ≠ a) :
    c'.state b = c.state b := by
  rcases settle_cases h with ⟨u, s, -, rfl⟩ | ⟨e, s, -, rfl⟩ | ⟨s, dst, m, next, -, rfl⟩
  · exact state_finish_ne _ _ _ _ hb
  · exact state_finish_ne _ _ _ _ hb
  · exact state_block_ne _ _ _ _ _ _ _ hb

theorem waiting_settle_ne (h : c.settle a p = some c') {b : A} (hb : b ≠ a) :
    c'.waiting b = c.waiting b := by
  rcases settle_cases h with ⟨u, s, -, rfl⟩ | ⟨e, s, -, rfl⟩ | ⟨s, dst, m, next, -, rfl⟩
  · exact waiting_finish_ne _ _ _ _ hb
  · exact waiting_finish_ne _ _ _ _ hb
  · exact waiting_block_ne _ _ _ _ _ _ _ hb

end Settle

theorem step_deliver {c c' : Config B} {src a : A} {draws : Ω}
    (h : c.step (.deliver src (.actor a) draws) = some c') :
    c.waiting a = none ∧ ∃ p rest, take src (.actor a) c.net = some (p, rest) ∧
      { c with net := rest }.settle a
        (B.receive a draws p.sender p.message (c.state a)) = some c' := by
  simp only [step] at h
  split at h
  · simp at h
  next hwait =>
    refine ⟨by simpa using hwait, ?_⟩
    split at h
    · simp at h
    next p rest htake => exact ⟨p, rest, htake, h⟩

theorem step_answer {c c' : Config B} {src a : A} {k : ℕ} {draws : Ω}
    (h : c.step (.deliver src (.promise a k) draws) = some c') :
    ∃ p rest, take src (.promise a k) c.net = some (p, rest) ∧
      ((∃ q next, c.waiting a = some (q, next) ∧ k + 1 = c.asked a ∧
          { c with net := rest }.settle a (next (some p.message)) = some c') ∨
        ((c.waiting a = none ∨ k + 1 ≠ c.asked a) ∧ c' = { c with net := rest })) := by
  simp only [step] at h
  split at h
  · simp at h
  next p rest htake =>
    refine ⟨p, rest, htake, ?_⟩
    split at h
    next hwait => exact Or.inr ⟨Or.inl hwait, by simpa using h.symm⟩
    next q next hwait =>
      split at h
      next hk => exact Or.inl ⟨q, next, hwait, hk, h⟩
      next hk => exact Or.inr ⟨Or.inr hk, by simpa using h.symm⟩

theorem step_inject {c c' : Config B} {p : Packet A μ}
    (h : c.step (.inject p) = some c') : c' = { c with net := c.net ++ [p] } := by
  simpa [step] using h.symm

theorem step_expire {c c' : Config B} {a : A} (h : c.step (.expire a) = some c') :
    ∃ q next, c.waiting a = some (q, next) ∧ c.settle a (next none) = some c' := by
  simp only [step] at h
  split at h
  · simp at h
  next q next hwait => exact ⟨q, next, hwait, h⟩

/-! ## One step -/

def delivered (c : Config B) : Event A μ Ω → Option (Packet A μ)
  | .deliver src dst _ => (take src dst c.net).map Prod.fst
  | _ => none

def remaining (c : Config B) : Event A μ Ω → List (Packet A μ)
  | .deliver src dst _ => ((take src dst c.net).map Prod.snd).getD c.net
  | _ => c.net

def arrivals (c c' : Config B) (e : Event A μ Ω) : List (Packet A μ) :=
  c'.net.drop (c.remaining e).length

/-- The actor that a choice makes run, and what it runs. -/
inductive Turn (c : Config B) :
    Event A μ Ω → (a : A) → Process ε (B.State a) (Ref A) μ Unit → Prop where
  | handle {src a draws p rest} (idle : c.waiting a = none)
      (taken : take src (.actor a) c.net = some (p, rest)) :
      Turn c (.deliver src (.actor a) draws) a
        (B.receive a draws p.sender p.message (c.state a))
  | answer {src a k draws p rest q next}
      (taken : take src (.promise a k) c.net = some (p, rest))
      (waiting : c.waiting a = some (q, next)) :
      Turn c (.deliver src (.promise a k) draws) a (next (some p.message))
  | expire {a q next} (waiting : c.waiting a = some (q, next)) :
      Turn c (.expire a) a (next none)

/-- Everything a step can do: an actor runs, the environment injects a message,
or an answer comes too late. -/
theorem step_cases {c c' : Config B} {e : Event A μ Ω} (h : c.step e = some c') :
    (∃ a p, Turn c e a p ∧ { c with net := c.remaining e }.settle a p = some c') ∨
    (∃ q, e = .inject q ∧ c' = { c with net := c.net ++ [q] }) ∨
    (∃ src a k draws, e = .deliver src (.promise a k) draws ∧
      c' = { c with net := c.remaining e }) := by
  cases e with
  | deliver src dst draws =>
      cases dst with
      | actor a =>
          obtain ⟨hidle, p, rest, htake, hsettle⟩ := step_deliver h
          have hrest : c.remaining (.deliver src (.actor a) draws) = rest := by
            simp [remaining, htake]
          exact Or.inl ⟨a, _, .handle hidle htake, by rwa [hrest]⟩
      | promise a k =>
          obtain ⟨p, rest, htake, hanswer⟩ := step_answer h
          have hrest : c.remaining (.deliver src (.promise a k) draws) = rest := by
            simp [remaining, htake]
          rcases hanswer with ⟨q, next, hwait, -, hsettle⟩ | ⟨-, rfl⟩
          · exact Or.inl ⟨a, _, .answer htake hwait, by rwa [hrest]⟩
          · exact Or.inr (Or.inr ⟨src, a, k, draws, rfl, by rw [hrest]⟩)
  | inject q => exact Or.inr (Or.inl ⟨q, rfl, step_inject h⟩)
  | expire a =>
      obtain ⟨q, next, hwait, hsettle⟩ := step_expire h
      exact Or.inl ⟨a, _, .expire hwait, hsettle⟩

theorem remaining_perm (c : Config B) (e : Event A μ Ω) :
    c.net.Perm ((c.delivered e).toList ++ c.remaining e) := by
  cases e with
  | deliver src dst draws =>
      cases htake : take src dst c.net with
      | none => simp [delivered, remaining, htake]
      | some q =>
          obtain ⟨p, rest⟩ := q
          simpa [delivered, remaining, htake] using (take_perm htake).2.2
  | inject q => simp [delivered, remaining]
  | expire a => simp [delivered, remaining]

theorem mem_net_of_remaining {c c' : Config B} {e : Event A μ Ω} (h : c.step e = some c')
    {p : Packet A μ} (hp : p ∈ c.remaining e) : p ∈ c'.net := by
  rcases step_cases h with ⟨a, q, -, hsettle⟩ | ⟨q, rfl, rfl⟩ | ⟨src, a, k, draws, -, rfl⟩
  · rw [net_settle hsettle]
    exact List.mem_append_left _ hp
  · exact List.mem_append_left _ hp
  · exact hp

theorem delivered_or_mem {c c' : Config B} {e : Event A μ Ω} (h : c.step e = some c')
    {p : Packet A μ} (hp : p ∈ c.net) : p ∈ c.delivered e ∨ p ∈ c'.net := by
  rcases List.mem_append.1 ((c.remaining_perm e).mem_iff.1 hp) with hp | hp
  · exact Or.inl (Option.mem_toList.1 hp)
  · exact Or.inr (mem_net_of_remaining h hp)

theorem dst_delivered {c : Config B} {src : A} {dst : Ref A} {draws : Ω} {p : Packet A μ}
    (h : c.delivered (.deliver src dst draws) = some p) : p.src = src ∧ p.dst = dst := by
  obtain ⟨⟨q, rest⟩, htake, rfl⟩ := Option.map_eq_some_iff.1 h
  obtain ⟨hsrc, hdst, -⟩ := take_perm htake
  exact ⟨hsrc, hdst⟩

/-- An actor that runs handles a message, or resumes what it waits with. -/
theorem Turn.handles_or_resumes {c : Config B} {e : Event A μ Ω} {a : A}
    {p : Process ε (B.State a) (Ref A) μ Unit} (h : Turn c e a p) :
    (∃ q draws, c.delivered e = some q ∧ q.dst = .actor a ∧ c.waiting a = none ∧
      p = B.receive a draws q.sender q.message (c.state a)) ∨
    (∃ q next answer, c.waiting a = some (q, next) ∧ p = next answer ∧
      ∀ packet ∈ c.delivered e, ∀ b, packet.dst ≠ .actor b) := by
  cases h with
  | handle idle taken =>
      rename_i src draws q rest
      have hdelivered : c.delivered (.deliver src (.actor a) draws) = some q := by
        simp [delivered, taken]
      exact Or.inl ⟨q, draws, hdelivered, (dst_delivered hdelivered).2, idle, rfl⟩
  | answer taken waiting =>
      refine Or.inr ⟨_, _, _, waiting, rfl, fun packet hpacket b hb => ?_⟩
      rw [(dst_delivered hpacket).2] at hb
      simp at hb
  | expire waiting =>
      refine Or.inr ⟨_, _, _, waiting, rfl, fun packet hpacket => ?_⟩
      simp [delivered] at hpacket

theorem arrivals_settle {c c' : Config B} {e : Event A μ Ω} {a : A}
    {p : Process ε (B.State a) (Ref A) μ Unit}
    (h : { c with net := c.remaining e }.settle a p = some c') :
    c.arrivals c' e = posted a (emitted { c with net := c.remaining e } a p) := by
  rw [arrivals, net_settle h]
  exact List.drop_left

end Config

end DOptimas.Support
