import DOptimas.Support.Process
/-!
# Contracts of handlers

A contract says which messages a handler may send, which questions it may ask
and what the answers tell it, while a ghost value follows what has been sent so
far.  `Process.Sat` checks a process against a contract up to a postcondition;
`Handler.Meets` is the triple over it, with one rule for each way of building a
handler, and `Process.Sat.segment` reads off what one uninterrupted segment does.
-/

namespace DOptimas.Support

structure Contract (ε σ ρ μ γ : Type) where
  sendOk : γ → Sending ρ μ → Prop
  sendNext : γ → Sending ρ μ → γ
  askOk : σ → γ → ρ → μ → Prop
  answerOk : γ → ρ → μ → Option μ → Prop
  answerNext : γ → ρ → μ → Option μ → γ
  failOk : ε → σ → γ → Prop
  stuckOk : Prop

variable {ε σ ρ μ γ α β : Type} {C : Contract ε σ ρ μ γ}

namespace Contract

def after (C : Contract ε σ ρ μ γ) (g : γ) (out : List (Sending ρ μ)) : γ :=
  out.foldl C.sendNext g

/-- Every message of a segment is allowed when it is sent. -/
def Sends (C : Contract ε σ ρ μ γ) : γ → List (Sending ρ μ) → Prop
  | _, [] => True
  | g, m :: out => C.sendOk g m ∧ C.Sends (C.sendNext g m) out

end Contract

namespace Process

def Sat (C : Contract ε σ ρ μ γ) (Q : α → σ → γ → Prop) : γ → Process ε σ ρ μ α → Prop
  | g, ret a s => Q a s g
  | g, fail e s => C.failOk e s g
  | g, tell dst sender m p =>
      C.sendOk g ⟨dst, sender, m⟩ ∧ Sat C Q (C.sendNext g ⟨dst, sender, m⟩) p
  | g, ask s dst m k =>
      C.askOk s g dst m ∧ ∀ r, C.answerOk g dst m r → Sat C Q (C.answerNext g dst m r) (k r)
  | _, stuck => C.stuckOk

/-- What the continuation of a question still has to satisfy. -/
def SatNext (C : Contract ε σ ρ μ γ) (Q : α → σ → γ → Prop) (g : γ) (dst : ρ) (m : μ)
    (k : Option μ → Process ε σ ρ μ α) : Prop :=
  ∀ r, C.answerOk g dst m r → Sat C Q (C.answerNext g dst m r) (k r)

theorem Sat.mono {Q Q' : α → σ → γ → Prop} (hQ : ∀ a s g, Q a s g → Q' a s g) {g : γ}
    {p : Process ε σ ρ μ α} (h : p.Sat C Q g) : p.Sat C Q' g := by
  induction p generalizing g with
  | ret a s => exact hQ a s g h
  | fail e s => exact h
  | tell dst sender m p ih => exact ⟨h.1, ih h.2⟩
  | ask s dst m k ih => exact ⟨h.1, fun r hr => ih r (h.2 r hr)⟩
  | stuck => exact h

theorem Sat.bind {Q : α → σ → γ → Prop} {R : β → σ → γ → Prop} {g : γ}
    {p : Process ε σ ρ μ α} {f : α → σ → Process ε σ ρ μ β} (hp : p.Sat C Q g)
    (hf : ∀ a s g, Q a s g → (f a s).Sat C R g) : (p.bind f).Sat C R g := by
  induction p generalizing g with
  | ret a s => exact hf a s g hp
  | fail e s => exact hp
  | tell dst sender m p ih => exact ⟨hp.1, ih hp.2⟩
  | ask s dst m k ih => exact ⟨hp.1, fun r hr => ih r (hp.2 r hr)⟩
  | stuck => exact hp

/-- How a handler ends that is given these answers to its questions, one after
the other; it is left waiting when they run out. -/
def complete : List (Option μ) → Process ε σ ρ μ α → Outcome ε σ ρ μ α
  | _, ret a s => .done a s
  | _, fail e s => .failed e s
  | rs, tell _ _ _ p => complete rs p
  | [], ask s dst m k => .waiting s dst m k
  | r :: rs, ask _ _ _ k => complete rs (k r)
  | _, stuck => .stuck

def said : List (Option μ) → Process ε σ ρ μ α → List (Sending ρ μ)
  | rs, tell dst sender m p => ⟨dst, sender, m⟩ :: said rs p
  | r :: rs, ask _ _ _ k => said rs (k r)
  | _, _ => []

/-- A contract whose ghost value is the list of answers still to come decides how
the answered handler ends. -/
theorem Sat.complete {C : Contract ε σ ρ μ (List (Option μ))}
    {Q : α → σ → List (Option μ) → Prop}
    (hsend : ∀ g m, C.sendNext g m = g) (hanswer : ∀ g dst m r, C.answerNext g dst m r = g.tail)
    (hok : ∀ r g dst m, C.answerOk (r :: g) dst m r) {p : Process ε σ ρ μ α}
    {answers : List (Option μ)} (h : p.Sat C Q answers) :
    match p.complete answers with
    | .done a s => ∃ g, Q a s g
    | .failed e s => ∃ g, C.failOk e s g
    | _ => True := by
  induction p generalizing answers with
  | ret a s => exact ⟨answers, h⟩
  | fail e s => exact ⟨answers, h⟩
  | tell dst sender m p ih =>
      have hnext := h.2
      rw [hsend] at hnext
      exact ih hnext
  | ask s dst m k ih =>
      cases answers with
      | nil => trivial
      | cons r rs =>
          have hnext := h.2 r (hok r rs dst m)
          rw [hanswer] at hnext
          exact ih r hnext
  | stuck => trivial

def resolve (f : ρ → μ → Option μ) :
    Process ε σ ρ μ α → List (Sending ρ μ) × Outcome ε σ ρ μ α
  | ret a s => ([], .done a s)
  | fail e s => ([], .failed e s)
  | tell dst sender m p => (⟨dst, sender, m⟩ :: (resolve f p).1, (resolve f p).2)
  | ask _ dst m k => resolve f (k (f dst m))
  | stuck => ([], .stuck)

theorem Sat.segment {Q : α → σ → γ → Prop} {g : γ} {p : Process ε σ ρ μ α}
    (h : p.Sat C Q g) :
    C.Sends g p.sent ∧
      match p.outcome with
      | .done a s => Q a s (C.after g p.sent)
      | .failed e s => C.failOk e s (C.after g p.sent)
      | .waiting s dst m k =>
          C.askOk s (C.after g p.sent) dst m ∧ SatNext C Q (C.after g p.sent) dst m k
      | .stuck => C.stuckOk := by
  induction p generalizing g with
  | ret a s => exact ⟨trivial, h⟩
  | fail e s => exact ⟨trivial, h⟩
  | tell dst sender m p ih =>
      obtain ⟨hsends, hend⟩ := ih h.2
      exact ⟨⟨h.1, hsends⟩, hend⟩
  | ask s dst m k ih => exact ⟨trivial, h⟩
  | stuck => exact ⟨trivial, h⟩

end Process

namespace Handler

/-- From a state and ghost value in `P`, the handler keeps the contract and
returns in `Q`. -/
def Meets (C : Contract ε σ ρ μ γ) (P : σ → γ → Prop) (x : Handler ε σ ρ μ α)
    (Q : α → σ → γ → Prop) : Prop :=
  ∀ s g, P s g → (x s).Sat C Q g

variable {P P' : σ → γ → Prop} {Q Q' : α → σ → γ → Prop} {R : β → σ → γ → Prop}

theorem Meets.weaken {x : Handler ε σ ρ μ α} (h : Meets C P x Q) (hP : ∀ s g, P' s g → P s g)
    (hQ : ∀ a s g, Q a s g → Q' a s g) : Meets C P' x Q' :=
  fun s g hs => (h s g (hP s g hs)).mono hQ

theorem Meets.bind {x : Handler ε σ ρ μ α} {f : α → Handler ε σ ρ μ β} (hx : Meets C P x Q)
    (hf : ∀ a, Meets C (Q a) (f a) R) : Meets C P (x >>= f) R :=
  fun s g hs => (hx s g hs).bind fun a s g h => hf a s g h

theorem meets_get_bind {f : σ → Handler ε σ ρ μ β}
    (h : ∀ s, Meets C (fun t g => t = s ∧ P t g) (f s) R) : Meets C P (get >>= f) R :=
  fun s g hs => h s s g ⟨rfl, hs⟩

/-- The steps that keep an invariant on the state and the ghost value. -/
theorem meets_pure_const {I : σ → γ → Prop} (a : α) : Meets C I (pure a) fun _ => I :=
  fun _ _ h => h

theorem meets_get_const {f : σ → Handler ε σ ρ μ β} (h : ∀ s, Meets C P (f s) R) :
    Meets C P (get >>= f) R :=
  fun s g hs => h s s g hs

theorem meets_throw_const {I : σ → γ → Prop} {e : ε} (h : ∀ s g, I s g → C.failOk e s g) :
    Meets C I (throw e : Handler ε σ ρ μ α) Q :=
  h

theorem meets_deref_const {I : σ → γ → Prop} {e : ε} {field : σ → Option α}
    (h : ∀ s g, I s g → C.failOk e s g) : Meets C I (deref e field) fun _ => I := by
  intro s g hs
  cases hfield : field s with
  | none =>
      rw [deref_none hfield]
      exact h s g hs
  | some a =>
      rw [deref_some hfield]
      exact hs

theorem meets_deref {e : ε} {field : σ → Option α} :
    Meets C
      (fun s g => (field s = none → C.failOk e s g) ∧ ∀ a, field s = some a → Q a s g)
      (deref e field) Q := by
  intro s g h
  cases hfield : field s with
  | none =>
      rw [deref_none hfield]
      exact h.1 hfield
  | some a =>
      rw [deref_some hfield]
      exact h.2 a hfield

theorem meets_forEach_const {ι : Type} {body : ι → Handler ε σ ρ μ Unit} {I : σ → γ → Prop}
    {is : List ι} (h : ∀ i ∈ is, Meets C I (body i) fun _ => I) :
    Meets C I (forEach is body) fun _ => I := by
  induction is with
  | nil => exact fun _ _ hs => hs
  | cons i is ih =>
      have hrest := ih fun j hj => h j (List.mem_cons_of_mem i hj)
      exact fun s g hs =>
        (h i List.mem_cons_self s g hs).bind fun _ t g ht => hrest t g ht

end Handler

/-! ## Contracts without a ghost value -/

namespace Contract

/-- Every message sent is in `S`; a failure leaves the state in `F`.  Questions
are messages too, and their answers are unconstrained. -/
def plain (S : ρ → ρ → μ → Prop) (A : σ → ρ → μ → Prop) (F : ε → σ → Prop) :
    Contract ε σ ρ μ Unit where
  sendOk _ m := S m.dst m.sender m.message
  sendNext _ _ := ()
  askOk s _ dst m := A s dst m
  answerOk _ _ _ _ := True
  answerNext _ _ _ _ := ()
  failOk e s _ := F e s
  stuckOk := True

theorem plain_sends {S : ρ → ρ → μ → Prop} {A : σ → ρ → μ → Prop} {F : ε → σ → Prop}
    {g : Unit} {out : List (Sending ρ μ)} (h : (plain S A F).Sends g out) :
    ∀ m ∈ out, S m.dst m.sender m.message := by
  induction out generalizing g with
  | nil => simp
  | cons m out ih =>
      intro m' hm'
      rcases List.mem_cons.1 hm' with rfl | hm'
      · exact h.1
      · exact ih h.2 m' hm'

section Answered

variable {S : ρ → ρ → μ → Prop} {A : σ → ρ → μ → Prop} {F : ε → σ → Prop}
  {Q : α → σ → Unit → Prop} {p : Process ε σ ρ μ α}

/-- What an answered handler sends, whatever the answers are. -/
theorem plain_said (h : p.Sat (plain S A F) Q ()) (answers : List (Option μ)) :
    ∀ m ∈ p.said answers, S m.dst m.sender m.message := by
  induction p generalizing answers with
  | ret a s => simp [Process.said]
  | fail e s => simp [Process.said]
  | tell dst sender m p ih =>
      intro m' hm'
      rw [Process.said] at hm'
      rcases List.mem_cons.1 hm' with rfl | hm'
      · exact h.1
      · exact ih h.2 answers m' hm'
  | ask s dst m k ih =>
      cases answers with
      | nil => simp [Process.said]
      | cons r rs => exact ih r (h.2 r trivial) rs
  | stuck => simp [Process.said]

theorem plain_complete (h : p.Sat (plain S A F) Q ()) (answers : List (Option μ)) :
    match p.complete answers with
    | .done a s => Q a s ()
    | .failed e s => F e s
    | _ => True := by
  induction p generalizing answers with
  | ret a s => exact h
  | fail e s => exact h
  | tell dst sender m p ih => exact ih h.2 answers
  | ask s dst m k ih =>
      cases answers with
      | nil => trivial
      | cons r rs => exact ih r (h.2 r trivial) rs
  | stuck => trivial

end Answered

end Contract

namespace Contract

/-- The handler returns when `f` answers its questions, or throws where `F` holds of
the ghost value, which counts some of its messages. -/
def answering (f : ρ → μ → Option μ) (counts : Sending ρ μ → Bool) (F : ℕ → Prop) :
    Contract ε σ ρ μ ℕ where
  sendOk _ _ := True
  sendNext g m := g + if counts m then 1 else 0
  askOk _ _ _ _ := True
  answerOk _ dst m r := r = f dst m
  answerNext g _ _ _ := g
  failOk _ _ g := F g
  stuckOk := False

/-- `f` answers the handler's questions, and nothing else is asked of it. -/
def heeding (f : ρ → μ → Option μ) : Contract ε σ ρ μ Unit where
  sendOk _ _ := True
  sendNext _ _ := ()
  askOk _ _ _ _ := True
  answerOk _ dst m r := r = f dst m
  answerNext _ _ _ _ := ()
  failOk _ _ _ := True
  stuckOk := True

variable {f : ρ → μ → Option μ} {counts : Sending ρ μ → Bool} {F : ℕ → Prop}
  {p : Process ε σ ρ μ α}

theorem answering_resolve {Q : α → σ → ℕ → Prop} {g : ℕ}
    (h : p.Sat (answering f counts F) Q g) :
    (∃ a s, (p.resolve f).2 = .done a s ∧ Q a s (g + (p.resolve f).1.countP counts)) ∨
      (∃ e s, (p.resolve f).2 = .failed e s) ∧ F (g + (p.resolve f).1.countP counts) := by
  induction p generalizing g with
  | ret a s => exact Or.inl ⟨a, s, rfl, h⟩
  | fail e s => exact Or.inr ⟨⟨e, s, rfl⟩, h⟩
  | tell dst sender m p ih =>
      have hrest := ih h.2
      change (∃ a s, _ ∧ Q a s (g + (if counts ⟨dst, sender, m⟩ then 1 else 0) + _)) ∨
        _ ∧ F (g + (if counts ⟨dst, sender, m⟩ then 1 else 0) + _) at hrest
      rw [Process.resolve, List.countP_cons, Nat.add_comm (List.countP _ _), ← Nat.add_assoc]
      exact hrest
  | ask s dst m k ih => exact ih (f dst m) (h.2 _ rfl)
  | stuck => exact h.elim

theorem sat_heeding : p.Sat (heeding f) (fun _ _ _ => True) () := by
  induction p with
  | ret a s => trivial
  | fail e s => trivial
  | tell dst sender m p ih => exact ⟨trivial, ih⟩
  | ask s dst m k ih => exact ⟨trivial, fun r _ => ih r⟩
  | stuck => trivial

theorem heeding_resolve {Q : α → σ → Unit → Prop} (h : p.Sat (heeding f) Q ()) {a : α} {s : σ}
    (hdone : (p.resolve f).2 = .done a s) : Q a s () := by
  induction p with
  | ret b t =>
      obtain ⟨rfl, rfl⟩ : b = a ∧ t = s := by simpa [Process.resolve] using hdone
      exact h
  | fail e t => simp [Process.resolve] at hdone
  | tell dst sender m p ih => exact ih h.2 hdone
  | ask t dst m k ih => exact ih (f dst m) (h.2 _ rfl) hdone
  | stuck => simp [Process.resolve] at hdone

theorem plain_resolve {S : ρ → ρ → μ → Prop} {A : σ → ρ → μ → Prop} {F : ε → σ → Prop}
    {Q : α → σ → Unit → Prop} (h : p.Sat (plain S A F) Q ()) :
    ∀ m ∈ (p.resolve f).1, S m.dst m.sender m.message := by
  induction p with
  | ret a s => simp [Process.resolve]
  | fail e s => simp [Process.resolve]
  | tell dst sender m p ih =>
      intro m' hm'
      rcases List.mem_cons.1 hm' with rfl | hm'
      · exact h.1
      · exact ih h.2 m' hm'
  | ask s dst m k ih => exact ih (f dst m) (h.2 _ trivial)
  | stuck => simp [Process.resolve]

end Contract

namespace Handler

def SendsOnly (S : ρ → ρ → μ → Prop) (A : ρ → μ → Prop) (x : Handler ε σ ρ μ α) : Prop :=
  Meets (Contract.plain S (fun _ => A) fun _ _ => True) (fun _ _ => True) x fun _ _ _ => True

namespace SendsOnly

variable {S : ρ → ρ → μ → Prop} {A : ρ → μ → Prop}

theorem pure {a : α} : SendsOnly S A (Pure.pure a : Handler ε σ ρ μ α) := fun _ _ _ => trivial

theorem bind {x : Handler ε σ ρ μ α} {f : α → Handler ε σ ρ μ β} (hx : SendsOnly S A x)
    (hf : ∀ a, SendsOnly S A (f a)) : SendsOnly S A (x >>= f) :=
  Meets.bind hx hf

theorem get : SendsOnly S A (Handler.get : Handler ε σ ρ μ σ) := fun _ _ _ => trivial

theorem update (f : σ → σ) : SendsOnly S A (Handler.update f : Handler ε σ ρ μ Unit) :=
  fun _ _ _ => trivial

theorem throw {e : ε} : SendsOnly S A (Handler.throw e : Handler ε σ ρ μ α) :=
  fun _ _ _ => trivial

theorem tell {dst sender : ρ} {m : μ} (h : S dst sender m) :
    SendsOnly S A (Handler.tell dst sender m : Handler ε σ ρ μ Unit) :=
  fun _ _ _ => ⟨h, trivial⟩

theorem ask {dst : ρ} {m : μ} (h : A dst m) :
    SendsOnly S A (Handler.ask dst m : Handler ε σ ρ μ (Option μ)) :=
  fun _ _ _ => ⟨h, fun _ _ => trivial⟩

theorem deref {e : ε} {field : σ → Option α} :
    SendsOnly S A (Handler.deref e field : Handler ε σ ρ μ α) := by
  refine (meets_deref (C := Contract.plain S (fun _ => A) fun _ _ => True)).weaken ?_
    fun _ _ _ h => h
  exact fun _ _ _ => ⟨fun _ => trivial, fun _ _ => trivial⟩

theorem forEach {ι : Type} {is : List ι} {body : ι → Handler ε σ ρ μ Unit}
    (h : ∀ i ∈ is, SendsOnly S A (body i)) : SendsOnly S A (Handler.forEach is body) :=
  meets_forEach_const h

end SendsOnly

end Handler

end DOptimas.Support
