import DOptimas.Support.Contract
import DOptimas.Support.System
/-!
# How segments move the state

Between two questions of a handler other actors run, but nobody changes its own
actor's state.  `Process.Moves R` says that every segment leads from the state
in which it starts to one that `R` relates to it, wherever the questions stand;
a system of such handlers keeps this of everything that is blocked.
-/

namespace DOptimas.Support

variable {ε σ ρ μ α β : Type} {R : σ → σ → Prop}

/-- Every segment moves the state by `R`, the first one from `s`. -/
def Process.Moves (R : σ → σ → Prop) : σ → Process ε σ ρ μ α → Prop
  | s, .ret _ t => R s t
  | s, .fail _ t => R s t
  | s, .tell _ _ _ p => Moves R s p
  | s, .ask t _ _ k => R s t ∧ ∀ r, Moves R t (k r)
  | _, .stuck => True

namespace Process

theorem Moves.of_le (htrans : ∀ s t u, R s t → R t u → R s u) {s t : σ}
    {p : Process ε σ ρ μ α} (hst : R s t) (h : p.Moves R t) : p.Moves R s := by
  induction p with
  | ret a u => exact htrans s t u hst h
  | fail e u => exact htrans s t u hst h
  | tell dst sender m p ih => exact ih h
  | ask u dst m k => exact ⟨htrans s t u hst h.1, h.2⟩
  | stuck => trivial

theorem Moves.bind (htrans : ∀ s t u, R s t → R t u → R s u) {s : σ} {p : Process ε σ ρ μ α}
    {f : α → σ → Process ε σ ρ μ β} (hp : p.Moves R s) (hf : ∀ a t, (f a t).Moves R t) :
    (p.bind f).Moves R s := by
  induction p generalizing s with
  | ret a t => exact Moves.of_le htrans hp (hf a t)
  | fail e t => exact hp
  | tell dst sender m p ih => exact ih hp
  | ask t dst m k ih => exact ⟨hp.1, fun r => ih r (hp.2 r)⟩
  | stuck => trivial

theorem Moves.outcome {s : σ} {p : Process ε σ ρ μ α} (h : p.Moves R s) :
    match p.outcome with
    | .done _ t => R s t
    | .failed _ t => R s t
    | .waiting t _ _ k => R s t ∧ ∀ r, (k r).Moves R t
    | .stuck => True := by
  induction p with
  | ret a t => exact h
  | fail e t => exact h
  | tell dst sender m p ih => exact ih h
  | ask t dst m k => exact h
  | stuck => trivial

end Process

namespace Handler

/-- From every state, the segments of the handler move by `R`. -/
def Moves (R : σ → σ → Prop) (x : Handler ε σ ρ μ α) : Prop := ∀ s, (x s).Moves R s

theorem Moves.bind (htrans : ∀ s t u, R s t → R t u → R s u) {x : Handler ε σ ρ μ α}
    {f : α → Handler ε σ ρ μ β} (hx : Moves R x) (hf : ∀ a, Moves R (f a)) :
    Moves R (x >>= f) :=
  fun s => (hx s).bind htrans fun a t => hf a t

theorem Moves.forEach (hrefl : ∀ s, R s s) (htrans : ∀ s t u, R s t → R t u → R s u) {ι : Type}
    {is : List ι} {body : ι → Handler ε σ ρ μ Unit} (h : ∀ i ∈ is, Moves R (body i)) :
    Moves R (Handler.forEach is body) := by
  induction is with
  | nil => exact hrefl
  | cons i is ih =>
      have hrest := ih fun j hj => h j (List.mem_cons_of_mem i hj)
      exact Moves.bind htrans (h i List.mem_cons_self) fun _ => hrest

end Handler

/-! ## Blocked actors -/

variable {A Ω : Type} [DecidableEq A] {B : Behaviour ε A μ Ω}

namespace Config

/-- Whatever the actor `a` waits for, the rest of its handler moves by `R`. -/
def Held (c : Config B) (a : A) (R : B.State a → B.State a → Prop) : Prop :=
  ∀ q next, c.waiting a = some (q, next) → ∀ r, (next r).Moves R (c.state a)

variable {c c' : Config B} {a b : A} {R : B.State a → B.State a → Prop}

theorem Held.settle_ne {p : Process ε (B.State b) (Ref A) μ Unit} (h : c.Held a R) (hne : a ≠ b)
    (hsettle : c.settle b p = some c') : c'.Held a R := by
  intro q next hwait
  rw [waiting_settle_ne hsettle hne] at hwait
  rw [state_settle_ne hsettle hne]
  exact h q next hwait

/-- A segment of `a` itself, which ends in a related state or in a restart. -/
theorem moves_settle {p : Process ε (B.State a) (Ref A) μ Unit} {s : B.State a}
    (h : p.Moves R s) (hsettle : c.settle a p = some c') :
    c'.Held a R ∧ (R s (c'.state a) ∨ ∃ t, R s t ∧ c'.state a = (B.restart a t).1) := by
  have hend := h.outcome
  rcases settle_cases hsettle with ⟨u, t, hout, rfl⟩ | ⟨e, t, hout, rfl⟩ |
    ⟨t, dst, m, next, hout, rfl⟩
  · rw [hout] at hend
    refine ⟨fun q next hwait => ?_, Or.inl ?_⟩
    · simp at hwait
    · rw [state_finish_self]
      exact hend
  · rw [hout] at hend
    refine ⟨fun q next hwait => ?_, Or.inr ⟨t, hend, ?_⟩⟩
    · simp [crash] at hwait
    · exact state_finish_self _ _ _ _
  · rw [hout] at hend
    refine ⟨fun q next' hwait => ?_, Or.inl ?_⟩
    · obtain ⟨-, rfl⟩ : dst = q ∧ next = next' := by simpa using hwait
      rw [state_block_self]
      exact hend.2
    · rw [state_block_self]
      exact hend.1

end Config

end DOptimas.Support
