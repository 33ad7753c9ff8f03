import DOptimas.Support.Contract
import DOptimas.Support.System
/-!
# What is in flight

If every handler of an actor sends messages of some kind only, then along every
run the network holds such messages only, whatever blocks, fails or is restarted
in between.
-/

namespace DOptimas.Support

variable {ε A μ Ω : Type} [DecidableEq A] {B : Behaviour ε A μ Ω}

def sendContract (B : Behaviour ε A μ Ω) (S : A → Ref A → Ref A → μ → Prop) (a : A) :
    Contract ε (B.State a) (Ref A) μ Unit :=
  Contract.plain (S a) (fun _ dst m => ∀ k, S a dst (.promise a k) m) fun _ _ => True

structure Behaviour.Keeps (B : Behaviour ε A μ Ω) (S : A → Ref A → Ref A → μ → Prop) : Prop where
  receive : ∀ a draws sender m, Handler.SendsOnly (S a) (fun dst m => ∀ k, S a dst (.promise a k) m)
    (B.receive a draws sender m)
  restart : ∀ a s, ∀ out ∈ (B.restart a s).2, S a out.dst out.sender out.message

namespace Config

/-- Every message in flight, and every message still to be sent by a blocked
handler, satisfies `S`. -/
structure Wired (S : A → Ref A → Ref A → μ → Prop) (c : Config B) : Prop where
  net : ∀ p ∈ c.net, S p.src p.dst p.sender p.message
  waiting : ∀ a q next, c.waiting a = some (q, next) → ∀ r,
    (next r).Sat (sendContract B S a) (fun _ _ _ => True) ()

variable {S : A → Ref A → Ref A → μ → Prop} {c c' : Config B} {a : A}

omit [DecidableEq A] in
theorem posted_satisfies {a : A} {out : List (Sending (Ref A) μ)}
    (h : ∀ m ∈ out, S a m.dst m.sender m.message) :
    ∀ p ∈ posted a out, S p.src p.dst p.sender p.message := by
  intro p hp
  obtain ⟨m, hm, rfl⟩ := List.mem_map.1 hp
  exact h m hm

theorem Wired.finish (h : c.Wired S) {a : A} {s : B.State a} {out : List (Sending (Ref A) μ)}
    (hout : ∀ m ∈ out, S a m.dst m.sender m.message) : (c.finish a s out).Wired S := by
  refine ⟨fun p hp => ?_, fun b q next hwait => ?_⟩
  · rcases List.mem_append.1 hp with hp | hp
    · exact h.net p hp
    · exact posted_satisfies hout p hp
  · by_cases hb : b = a
    · subst hb
      simp at hwait
    · rw [waiting_finish_ne _ _ _ _ hb] at hwait
      exact h.waiting b q next hwait

theorem Wired.settle (hB : B.Keeps S) (h : c.Wired S) {a : A}
    {p : Process ε (B.State a) (Ref A) μ Unit}
    (hp : p.Sat (sendContract B S a) (fun _ _ _ => True) ()) (hsettle : c.settle a p = some c') :
    c'.Wired S := by
  obtain ⟨hsends, hend⟩ := hp.segment
  have hout := Contract.plain_sends hsends
  rcases settle_cases hsettle with ⟨u, s, -, rfl⟩ | ⟨e, s, -, rfl⟩ |
    ⟨s, dst, m, next, houtcome, rfl⟩
  · exact h.finish hout
  · refine h.finish fun x hx => ?_
    rcases List.mem_append.1 hx with hx | hx
    · exact hout x hx
    · exact hB.restart a s x hx
  · rw [houtcome] at hend
    obtain ⟨hask, hnext⟩ := hend
    refine ⟨fun q hq => ?_, fun b q k hwait => ?_⟩
    · rcases List.mem_append.1 hq with hq | hq
      · exact h.net q hq
      · refine posted_satisfies (fun x hx => ?_) q hq
        rcases List.mem_append.1 hx with hx | hx
        · exact hout x hx
        · obtain rfl := List.mem_singleton.1 hx
          exact hask (c.asked a)
    · by_cases hb : b = a
      · subst hb
        obtain ⟨rfl, rfl⟩ : dst = q ∧ next = k := by simpa using hwait
        exact fun r => hnext r trivial
      · rw [waiting_block_ne _ _ _ _ _ _ _ hb] at hwait
        exact h.waiting b q k hwait

omit [DecidableEq A] in
/-- What a handler under a plain contract puts on the network. -/
theorem emitted_of_sat {S : Ref A → Ref A → μ → Prop} {P : B.State a → Ref A → μ → Prop}
    {F : ε → B.State a → Prop} {Q : Unit → B.State a → Unit → Prop}
    {p : Process ε (B.State a) (Ref A) μ Unit} (hp : p.Sat (Contract.plain S P F) Q ()) :
    ∀ x ∈ c.emitted a p, S x.dst x.sender x.message ∨ (∃ s, P s x.dst x.message) ∨
      ∃ e s, p.outcome = .failed e s ∧ x ∈ (B.restart a s).2 := by
  intro x hx
  obtain ⟨hsends, hend⟩ := hp.segment
  rcases List.mem_append.1 hx with hx | hx
  · exact Or.inl (Contract.plain_sends hsends x hx)
  · split at hx
    next e s hout => exact Or.inr (Or.inr ⟨e, s, hout, hx⟩)
    next s dst m next hout =>
      rw [hout] at hend
      obtain rfl := List.mem_singleton.1 hx
      exact Or.inr (Or.inl ⟨s, hend.1⟩)
    · simp at hx

theorem Wired.rest (h : c.Wired S) {src : A} {dst : Ref A} {p : Packet A μ}
    {rest : List (Packet A μ)} (htake : take src dst c.net = some (p, rest)) :
    ({ c with net := rest } : Config B).Wired S :=
  ⟨fun q hq => h.net q (mem_of_take htake hq), h.waiting⟩

/-- Messages of the kind `S` are the only ones that a step adds. -/
theorem Wired.step (hB : B.Keeps S) (h : c.Wired S) {e : Event A μ Ω}
    (hinject : ∀ p, e = .inject p → S p.src p.dst p.sender p.message)
    (hstep : c.step e = some c') : c'.Wired S := by
  cases e with
  | deliver src dst draws =>
      cases dst with
      | actor a =>
          obtain ⟨-, p, rest, htake, hsettle⟩ := step_deliver hstep
          exact (h.rest htake).settle hB (hB.receive a draws p.sender p.message _ () trivial)
            hsettle
      | promise a k =>
          obtain ⟨p, rest, htake, hanswer⟩ := step_answer hstep
          rcases hanswer with ⟨q, next, hwait, -, hsettle⟩ | ⟨-, rfl⟩
          · exact (h.rest htake).settle hB (h.waiting a q next hwait _) hsettle
          · exact h.rest htake
  | inject p =>
      obtain rfl := step_inject hstep
      refine ⟨fun q hq => ?_, h.waiting⟩
      rcases List.mem_append.1 hq with hq | hq
      · exact h.net q hq
      · obtain rfl := List.mem_singleton.1 hq
        exact hinject q rfl
  | expire a =>
      obtain ⟨q, next, hwait, hsettle⟩ := step_expire hstep
      exact h.settle hB (h.waiting a q next hwait none) hsettle

end Config

end DOptimas.Support
