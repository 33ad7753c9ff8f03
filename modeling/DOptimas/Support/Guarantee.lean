import DOptimas.Support.Contract
import DOptimas.Support.Runs
import DOptimas.Support.System
/-!
# What each actor guarantees

One predicate on the state of each actor and one on the messages of a system,
such that every handler keeps the first as long as what it receives satisfies the
second.  A handler that waits for an answer may have left its own invariant for a
weaker one; a restart has to establish it again.
-/

namespace DOptimas.Support

/-! ## Contracts together -/

section Contracts

variable {ε σ ρ μ α : Type} {C C' : Contract ε σ ρ μ Unit} {Q Q' : α → σ → Unit → Prop}
  {p : Process ε σ ρ μ α}

theorem Process.Sat.imp (hsend : ∀ m, C.sendOk () m → C'.sendOk () m)
    (hask : ∀ s dst m, C.askOk s () dst m → C'.askOk s () dst m)
    (hanswer : ∀ dst m r, C'.answerOk () dst m r → C.answerOk () dst m r)
    (hfail : ∀ e s, C.failOk e s () → C'.failOk e s ()) (hstuck : C.stuckOk → C'.stuckOk)
    (h : p.Sat C Q ()) : p.Sat C' Q () := by
  induction p with
  | ret a s => exact h
  | fail e s => exact hfail e s h
  | tell dst sender m p ih => exact ⟨hsend _ h.1, ih h.2⟩
  | ask s dst m k ih => exact ⟨hask s dst m h.1, fun r hr => ih r (h.2 r (hanswer dst m r hr))⟩
  | stuck => exact hstuck h

def Contract.both (C C' : Contract ε σ ρ μ Unit) : Contract ε σ ρ μ Unit where
  sendOk _ m := C.sendOk () m ∧ C'.sendOk () m
  sendNext _ _ := ()
  askOk s _ dst m := C.askOk s () dst m ∧ C'.askOk s () dst m
  answerOk _ dst m r := C.answerOk () dst m r ∧ C'.answerOk () dst m r
  answerNext _ _ _ _ := ()
  failOk e s _ := C.failOk e s () ∧ C'.failOk e s ()
  stuckOk := C.stuckOk ∧ C'.stuckOk

theorem Process.Sat.both (h : p.Sat C Q ()) (h' : p.Sat C' Q' ()) :
    p.Sat (C.both C') (fun a s g => Q a s g ∧ Q' a s g) () := by
  induction p with
  | ret a s => exact ⟨h, h'⟩
  | fail e s => exact ⟨h, h'⟩
  | tell dst sender m p ih => exact ⟨⟨h.1, h'.1⟩, ih h.2 h'.2⟩
  | ask s dst m k ih =>
      exact ⟨⟨h.1, h'.1⟩, fun r hr => ih r (h.2 r hr.1) (h'.2 r hr.2)⟩
  | stuck => exact ⟨h, h'⟩

end Contracts

/-! ## Guarantees -/

variable {ε A μ Ω : Type} {B : Behaviour ε A μ Ω}

structure Guarantee (B : Behaviour ε A μ Ω) where
  /-- Of the state between two messages. -/
  idle : ∀ a, B.State a → Prop
  /-- Of the state while a handler waits, and of whom it has asked. -/
  blocked : ∀ a, B.State a → Ref A → Prop
  message : A → Ref A → Ref A → μ → Prop

def Event.Injects (S : A → Ref A → Ref A → μ → Prop) : Event A μ Ω → Prop
  | .inject p => S p.src p.dst p.sender p.message
  | _ => True

namespace Guarantee

variable (G : Guarantee B)

/-- An answer that `a` may get: none in time, or a message of the system. -/
def Answer (a : A) (r : Option μ) : Prop :=
  ∀ reply, r = some reply → ∃ src k sender, G.message src (.promise a k) sender reply

def contract (a : A) : Contract ε (B.State a) (Ref A) μ Unit where
  sendOk _ m := G.message a m.dst m.sender m.message
  sendNext _ _ := ()
  askOk s _ dst m := G.blocked a s dst ∧ ∀ k, G.message a dst (.promise a k) m
  answerOk _ _ _ r := G.Answer a r
  answerNext _ _ _ _ := ()
  failOk _ s _ := G.idle a (B.restart a s).1 ∧
    ∀ out ∈ (B.restart a s).2, G.message a out.dst out.sender out.message
  stuckOk := True

/-- The handler ends in an idle state, whatever it sends and asks before. -/
abbrev Ends (a : A) (p : Process ε (B.State a) (Ref A) μ Unit) : Prop :=
  p.Sat (G.contract a) (fun _ s _ => G.idle a s) ()

def Kept : Prop :=
  ∀ a draws src sender m s, G.message src (.actor a) sender m → G.idle a s →
    G.Ends a (B.receive a draws sender m s)

/-- The guarantee holds of every actor and of every message in flight. -/
structure Holds (c : Config B) : Prop where
  idle : ∀ a, c.waiting a = none → G.idle a (c.state a)
  waiting : ∀ a q next, c.waiting a = some (q, next) →
    G.blocked a (c.state a) q ∧ ∀ r, G.Answer a r → G.Ends a (next r)
  net : ∀ p ∈ c.net, G.message p.src p.dst p.sender p.message

variable {G}

theorem contract_sends {a : A} {g : Unit} {out : List (Sending (Ref A) μ)}
    (h : (G.contract a).Sends g out) : ∀ m ∈ out, G.message a m.dst m.sender m.message := by
  induction out generalizing g with
  | nil => simp
  | cons m out ih =>
      intro m' hm'
      rcases List.mem_cons.1 hm' with rfl | hm'
      · exact h.1
      · exact ih h.2 m' hm'

variable {c c' : Config B} {a : A}

theorem ends_of_sends {Q : Ref A → μ → Prop} {x : Handler ε (B.State a) (Ref A) μ Unit}
    (h : Handler.SendsOnly (G.message a) Q x) (hidle : ∀ s, G.idle a s)
    (hask : ∀ s dst m, Q dst m → G.blocked a s dst ∧ ∀ k, G.message a dst (.promise a k) m)
    (hrestart : ∀ s, ∀ out ∈ (B.restart a s).2, G.message a out.dst out.sender out.message)
    (s : B.State a) : G.Ends a (x s) := by
  refine Process.Sat.imp ?_ ?_ ?_ ?_ ?_ ((h s () trivial).mono fun _ s _ _ => hidle s)
  · exact fun _ hm => hm
  · exact fun s dst m hm => hask s dst m hm
  · exact fun _ _ _ _ => trivial
  · exact fun _ s _ => ⟨hidle _, hrestart s⟩
  · exact fun _ => trivial

theorem Holds.posted (h : G.Holds c) {out : List (Sending (Ref A) μ)}
    (hout : ∀ m ∈ out, G.message a m.dst m.sender m.message) :
    ∀ p ∈ c.net ++ posted a out, G.message p.src p.dst p.sender p.message := by
  intro p hp
  rcases List.mem_append.1 hp with hp | hp
  · exact h.net p hp
  · obtain ⟨m, hm, rfl⟩ := List.mem_map.1 hp
    exact hout m hm

variable [DecidableEq A]

theorem Holds.finish (h : G.Holds c) {s : B.State a} (hs : G.idle a s)
    {out : List (Sending (Ref A) μ)}
    (hout : ∀ m ∈ out, G.message a m.dst m.sender m.message) : G.Holds (c.finish a s out) := by
  refine ⟨fun b hb => ?_, fun b q next hwait => ?_, h.posted hout⟩
  · by_cases hba : b = a
    · subst hba
      rw [Config.state_finish_self]
      exact hs
    · rw [Config.waiting_finish_ne _ _ _ _ hba] at hb
      rw [Config.state_finish_ne _ _ _ _ hba]
      exact h.idle b hb
  · by_cases hba : b = a
    · subst hba
      simp at hwait
    · rw [Config.waiting_finish_ne _ _ _ _ hba] at hwait
      rw [Config.state_finish_ne _ _ _ _ hba]
      exact h.waiting b q next hwait

/-- A segment of one handler, which ends, fails or asks its next question. -/
theorem Holds.settle (h : G.Holds c) {p : Process ε (B.State a) (Ref A) μ Unit}
    (hp : G.Ends a p) (hsettle : c.settle a p = some c') : G.Holds c' := by
  obtain ⟨hsends, hend⟩ := hp.segment
  have hout := contract_sends hsends
  rcases Config.settle_cases hsettle with ⟨u, s, houtcome, rfl⟩ | ⟨e, s, houtcome, rfl⟩ |
    ⟨s, dst, m, next, houtcome, rfl⟩
  · rw [houtcome] at hend
    exact h.finish hend hout
  · rw [houtcome] at hend
    refine h.finish hend.1 fun m hm => ?_
    rcases List.mem_append.1 hm with hm | hm
    · exact hout m hm
    · exact hend.2 m hm
  · rw [houtcome] at hend
    obtain ⟨⟨hblocked, hask⟩, hnext⟩ := hend
    refine ⟨fun b hb => ?_, fun b q k hwait => ?_, h.posted fun m' hm' => ?_⟩
    · by_cases hba : b = a
      · subst hba
        simp at hb
      · rw [Config.waiting_block_ne _ _ _ _ _ _ _ hba] at hb
        rw [Config.state_block_ne _ _ _ _ _ _ _ hba]
        exact h.idle b hb
    · by_cases hba : b = a
      · subst hba
        obtain ⟨rfl, rfl⟩ : dst = q ∧ next = k := by simpa using hwait
        rw [Config.state_block_self]
        exact ⟨hblocked, hnext⟩
      · rw [Config.waiting_block_ne _ _ _ _ _ _ _ hba] at hwait
        rw [Config.state_block_ne _ _ _ _ _ _ _ hba]
        exact h.waiting b q k hwait
    · rcases List.mem_append.1 hm' with hm' | hm'
      · exact hout m' hm'
      · obtain rfl := List.mem_singleton.1 hm'
        exact hask _

theorem Holds.rest (h : G.Holds c) {src : A} {dst : Ref A} {p : Packet A μ}
    {rest : List (Packet A μ)} (htake : take src dst c.net = some (p, rest)) :
    G.Holds ({ c with net := rest } : Config B) :=
  ⟨h.idle, h.waiting, fun q hq => h.net q (mem_of_take htake hq)⟩

theorem Holds.step (hG : G.Kept) (h : G.Holds c) {e : Event A μ Ω} (he : e.Injects G.message)
    (hstep : c.step e = some c') : G.Holds c' := by
  cases e with
  | deliver src dst draws =>
      cases dst with
      | actor a =>
          obtain ⟨hidle, p, rest, htake, hsettle⟩ := Config.step_deliver hstep
          have hmessage := h.net p (mem_take htake)
          rw [(take_perm htake).2.1] at hmessage
          exact (h.rest htake).settle (hG a draws _ _ _ _ hmessage (h.idle a hidle)) hsettle
      | promise a k =>
          obtain ⟨p, rest, htake, hanswer⟩ := Config.step_answer hstep
          rcases hanswer with ⟨q, next, hwait, -, hsettle⟩ | ⟨-, rfl⟩
          · have hmessage := h.net p (mem_take htake)
            rw [(take_perm htake).2.1] at hmessage
            refine (h.rest htake).settle
              ((h.waiting a q next hwait).2 _ fun reply hreply => ?_) hsettle
            obtain rfl := Option.some.inj hreply
            exact ⟨_, k, _, hmessage⟩
          · exact h.rest htake
  | inject p =>
      obtain rfl := Config.step_inject hstep
      refine ⟨h.idle, h.waiting, fun q hq => ?_⟩
      rcases List.mem_append.1 hq with hq | hq
      · exact h.net q hq
      · obtain rfl := List.mem_singleton.1 hq
        exact he
  | expire a =>
      obtain ⟨q, next, hwait, hsettle⟩ := Config.step_expire hstep
      exact h.settle ((h.waiting a q next hwait).2 none fun reply hreply => by cases hreply) hsettle

/-- The guarantee holds in every state of every run. -/
theorem Holds.always (hG : G.Kept) (h : G.Holds c) {es : List (Event A μ Ω)}
    (hes : ∀ e ∈ es, e.Injects G.message) : Always Config.step G.Holds c es := by
  induction es generalizing c with
  | nil => exact h
  | cons e es ih =>
      refine ⟨h, fun t ht => ih (h.step hG (hes e List.mem_cons_self) ht) fun f hf => ?_⟩
      exact hes f (List.mem_cons_of_mem e hf)

end Guarantee

end DOptimas.Support
