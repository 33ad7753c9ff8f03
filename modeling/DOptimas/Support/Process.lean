import Mathlib.Data.List.Basic
/-!
# Message handlers as resumptions

A handler of an actor runs to completion on one message: it updates the actor's
state, sends messages, may throw, and may block until another actor answers a
question.  `Process` is the tree of what a handler still has to do; a blocking
question carries the continuation that waits for the answer.  Everything
between two questions is one uninterrupted segment, so an actor system only
needs the messages a segment sends (`sent`) and how it ends (`outcome`).  A
question may time out, and its continuation then receives `none`.
-/

namespace DOptimas.Support

/-- The remaining work of a handler with errors `ε`, actor state `σ`, actor
references `ρ`, messages `μ` and result `α`. -/
inductive Process (ε σ ρ μ α : Type) : Type where
  | ret (value : α) (state : σ)
  | fail (error : ε) (state : σ)
  | tell (dst sender : ρ) (message : μ) (next : Process ε σ ρ μ α)
  | ask (state : σ) (dst : ρ) (message : μ)
      (next : Option μ → Process ε σ ρ μ α)
  /-- The handler never returns: it loops for ever on the draws it is given, or
  has ended the process it runs in. -/
  | stuck

/-- One message handed to the transport, with the sender it reports. -/
structure Sending (ρ μ : Type) where
  dst : ρ
  sender : ρ
  message : μ
  deriving DecidableEq

/-- How a segment of a handler ends. -/
inductive Outcome (ε σ ρ μ α : Type) : Type where
  | done (value : α) (state : σ)
  | failed (error : ε) (state : σ)
  | waiting (state : σ) (dst : ρ) (message : μ)
      (next : Option μ → Process ε σ ρ μ α)
  | stuck

variable {ε σ ρ μ α β : Type}

namespace Process

def bind : Process ε σ ρ μ α → (α → σ → Process ε σ ρ μ β) → Process ε σ ρ μ β
  | ret a s, f => f a s
  | fail e s, _ => fail e s
  | tell dst sender m p, f => tell dst sender m (p.bind f)
  | ask s dst m k, f => ask s dst m fun r => (k r).bind f
  | stuck, _ => stuck

@[simp] theorem ret_bind (a : α) (s : σ) (f : α → σ → Process ε σ ρ μ β) :
    (ret a s).bind f = f a s := rfl

@[simp] theorem fail_bind (e : ε) (s : σ) (f : α → σ → Process ε σ ρ μ β) :
    (fail e s : Process ε σ ρ μ α).bind f = fail e s := rfl

@[simp] theorem tell_bind (dst sender : ρ) (m : μ) (p : Process ε σ ρ μ α)
    (f : α → σ → Process ε σ ρ μ β) :
    (tell dst sender m p).bind f = tell dst sender m (p.bind f) := rfl

@[simp] theorem ask_bind (s : σ) (dst : ρ) (m : μ) (k : Option μ → Process ε σ ρ μ α)
    (f : α → σ → Process ε σ ρ μ β) :
    (ask s dst m k).bind f = ask s dst m fun r => (k r).bind f := rfl

@[simp] theorem stuck_bind (f : α → σ → Process ε σ ρ μ β) :
    (stuck : Process ε σ ρ μ α).bind f = stuck := rfl

/-- The messages sent before the handler ends or asks its next question. -/
def sent : Process ε σ ρ μ α → List (Sending ρ μ)
  | tell dst sender m p => ⟨dst, sender, m⟩ :: p.sent
  | _ => []

def outcome : Process ε σ ρ μ α → Outcome ε σ ρ μ α
  | ret a s => .done a s
  | fail e s => .failed e s
  | tell _ _ _ p => p.outcome
  | ask s dst m k => .waiting s dst m k
  | stuck => .stuck

@[simp] theorem sent_ret (a : α) (s : σ) :
    (ret a s : Process ε σ ρ μ α).sent = [] := rfl

@[simp] theorem sent_fail (e : ε) (s : σ) :
    (fail e s : Process ε σ ρ μ α).sent = [] := rfl

@[simp] theorem sent_tell (dst sender : ρ) (m : μ) (p : Process ε σ ρ μ α) :
    (tell dst sender m p).sent = ⟨dst, sender, m⟩ :: p.sent := rfl

@[simp] theorem sent_ask (s : σ) (dst : ρ) (m : μ) (k : Option μ → Process ε σ ρ μ α) :
    (ask s dst m k).sent = [] := rfl

@[simp] theorem outcome_ret (a : α) (s : σ) :
    (ret a s : Process ε σ ρ μ α).outcome = .done a s := rfl

@[simp] theorem outcome_fail (e : ε) (s : σ) :
    (fail e s : Process ε σ ρ μ α).outcome = .failed e s := rfl

@[simp] theorem outcome_tell (dst sender : ρ) (m : μ) (p : Process ε σ ρ μ α) :
    (tell dst sender m p).outcome = p.outcome := rfl

@[simp] theorem outcome_ask (s : σ) (dst : ρ) (m : μ) (k : Option μ → Process ε σ ρ μ α) :
    (ask s dst m k).outcome = .waiting s dst m k := rfl

@[simp] theorem bind_ret (p : Process ε σ ρ μ α) : (p.bind fun a s => ret a s) = p := by
  induction p with
  | ret a s => rfl
  | fail e s => rfl
  | tell dst sender m p ih => rw [tell_bind, ih]
  | ask s dst m k ih => rw [ask_bind, funext ih]
  | stuck => rfl

theorem sent_bind (p : Process ε σ ρ μ α) (f : α → σ → Process ε σ ρ μ β) :
    (p.bind f).sent = p.sent ++
      match p.outcome with
      | .done a s => (f a s).sent
      | _ => [] := by
  induction p with
  | ret a s => rfl
  | fail e s => rfl
  | tell dst sender m p ih => simp [ih]
  | ask s dst m k => rfl
  | stuck => rfl

theorem outcome_bind (p : Process ε σ ρ μ α) (f : α → σ → Process ε σ ρ μ β) :
    (p.bind f).outcome =
      match p.outcome with
      | .done a s => (f a s).outcome
      | .failed e s => .failed e s
      | .waiting s dst m k => .waiting s dst m fun r => (k r).bind f
      | .stuck => .stuck := by
  induction p with
  | ret a s => rfl
  | fail e s => rfl
  | tell dst sender m p ih => exact ih
  | ask s dst m k => rfl
  | stuck => rfl

end Process

/-- A handler step: from the actor's state to what it does. -/
def Handler (ε σ ρ μ α : Type) : Type := σ → Process ε σ ρ μ α

instance : Monad (Handler ε σ ρ μ) where
  pure a := fun s => .ret a s
  bind x f := fun s => (x s).bind f

namespace Handler

@[simp] theorem pure_apply (a : α) (s : σ) :
    (pure a : Handler ε σ ρ μ α) s = .ret a s := rfl

@[simp] theorem bind_apply (x : Handler ε σ ρ μ α) (f : α → Handler ε σ ρ μ β) (s : σ) :
    (x >>= f) s = (x s).bind fun a t => f a t := rfl

def get : Handler ε σ ρ μ σ := fun s => .ret s s

def update (f : σ → σ) : Handler ε σ ρ μ Unit := fun s => .ret () (f s)

def throw (e : ε) : Handler ε σ ρ μ α := fun s => .fail e s

def tell (dst sender : ρ) (m : μ) : Handler ε σ ρ μ Unit := fun s => .tell dst sender m (.ret () s)

def ask (dst : ρ) (m : μ) : Handler ε σ ρ μ (Option μ) := fun s => .ask s dst m fun r => .ret r s

/-- Dereference a field that may be `null`. -/
def deref (e : ε) (field : σ → Option α) : Handler ε σ ρ μ α := fun s =>
  match field s with
  | none => .fail e s
  | some a => .ret a s

def forEach {ι : Type} : List ι → (ι → Handler ε σ ρ μ Unit) → Handler ε σ ρ μ Unit
  | [], _ => pure ()
  | i :: is, body => do
      body i
      forEach is body

@[simp] theorem get_apply (s : σ) : (get : Handler ε σ ρ μ σ) s = .ret s s := rfl

@[simp] theorem update_apply (f : σ → σ) (s : σ) :
    (update f : Handler ε σ ρ μ Unit) s = .ret () (f s) := rfl

@[simp] theorem throw_apply (e : ε) (s : σ) :
    (throw e : Handler ε σ ρ μ α) s = .fail e s := rfl

@[simp] theorem tell_apply (dst sender : ρ) (m : μ) (s : σ) :
    (tell dst sender m : Handler ε σ ρ μ Unit) s = .tell dst sender m (.ret () s) := rfl

@[simp] theorem ask_apply (dst : ρ) (m : μ) (s : σ) :
    (ask dst m : Handler ε σ ρ μ (Option μ)) s = .ask s dst m fun r => .ret r s := rfl

theorem deref_none {e : ε} {field : σ → Option α} {s : σ} (h : field s = none) :
    (deref e field : Handler ε σ ρ μ α) s = .fail e s := by
  simp [deref, h]

theorem deref_some {e : ε} {field : σ → Option α} {s : σ} {a : α} (h : field s = some a) :
    (deref e field : Handler ε σ ρ μ α) s = .ret a s := by
  simp [deref, h]

@[simp] theorem forEach_nil {ι : Type} (body : ι → Handler ε σ ρ μ Unit) (s : σ) :
    forEach [] body s = .ret () s := rfl

@[simp] theorem forEach_cons {ι : Type} (i : ι) (is : List ι)
    (body : ι → Handler ε σ ρ μ Unit) (s : σ) :
    forEach (i :: is) body s = (body i s).bind fun _ t => forEach is body t := rfl

end Handler

end DOptimas.Support
