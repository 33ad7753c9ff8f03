import DOptimas.Support.Program
/-!
# Counting the turns of a loop

A loop is over where its condition fails, and it is left where condition or body
throw.  Which errors count as leaving it is a parameter, since an error may also
stand for a body that does not return.  A counter that grows by at most one with
each turn bounds the turns from below, and a condition that fails from some count
on bounds them from above.
-/

namespace DOptimas.Support

variable {ε σ α β : Type}

inductive Turns (cond : β → EStateM ε σ Bool) (body : β → EStateM ε σ β) (b₀ : β) (s₀ : σ) :
    ℕ → β → σ → Prop where
  | start : Turns cond body b₀ s₀ 0 b₀ s₀
  | next {n b b' s s' s''} (before : Turns cond body b₀ s₀ n b s) (goes : cond b s = .ok true s')
      (done : body b s' = .ok b' s'') : Turns cond body b₀ s₀ (n + 1) b' s''

def Stops (cond : β → EStateM ε σ Bool) (b : β) (s : σ) : Prop :=
  ∃ s', cond b s = .ok false s'

/-- Condition or body throw one of the errors `E`. -/
def Throws (E : ε → Prop) (cond : β → EStateM ε σ Bool) (body : β → EStateM ε σ β) (b : β)
    (s : σ) : Prop :=
  (∃ e s', E e ∧ cond b s = .error e s') ∨
    ∃ s' e s'', E e ∧ cond b s = .ok true s' ∧ body b s' = .error e s''

section Counting

variable {cond : β → EStateM ε σ Bool} {body : β → EStateM ε σ β} {b₀ b : β} {s₀ s : σ} {n : ℕ}

theorem Turns.visits (h : Turns cond body b₀ s₀ n b s) : Visits cond body b₀ s₀ b s := by
  induction h with
  | start => exact .start
  | next _ hgoes hdone ih => exact .next ih hgoes hdone

theorem Visits.counted (h : Visits cond body b₀ s₀ b s) : ∃ n, Turns cond body b₀ s₀ n b s := by
  induction h with
  | start => exact ⟨0, .start⟩
  | next _ hgoes hdone ih =>
      obtain ⟨n, hn⟩ := ih
      exact ⟨n + 1, .next hn hgoes hdone⟩

theorem Turns.keeps {I : ℕ → β → σ → Prop} (h : Turns cond body b₀ s₀ n b s) (hinit : I 0 b₀ s₀)
    (hturn : ∀ n b b' s s' s'', I n b s → cond b s = .ok true s' → body b s' = .ok b' s'' →
      I (n + 1) b' s'') : I n b s := by
  induction h with
  | start => exact hinit
  | next _ hgoes hdone ih => exact hturn _ _ _ _ _ _ ih hgoes hdone

/-- A loop is over, throws, or takes another turn. -/
theorem stops_or_throws_or_turns (E : ε → Prop) (cond : β → EStateM ε σ Bool)
    (body : β → EStateM ε σ β) (b : β) (s : σ) :
    Stops cond b s ∨ Throws E cond body b s ∨ Throws (fun e => ¬E e) cond body b s ∨
      ∃ s' b' s'', cond b s = .ok true s' ∧ body b s' = .ok b' s'' := by
  cases hcond : cond b s with
  | error e s' =>
      by_cases he : E e
      · exact Or.inr (Or.inl (Or.inl ⟨e, s', he, hcond⟩))
      · exact Or.inr (Or.inr (Or.inl (Or.inl ⟨e, s', he, hcond⟩)))
  | ok go s' =>
      cases go with
      | false => exact Or.inl ⟨s', hcond⟩
      | true =>
          cases hbody : body b s' with
          | error e s'' =>
              by_cases he : E e
              · exact Or.inr (Or.inl (Or.inr ⟨s', e, s'', he, hcond, hbody⟩))
              · exact Or.inr (Or.inr (Or.inl (Or.inr ⟨s', e, s'', he, hcond, hbody⟩)))
          | ok b' s'' => exact Or.inr (Or.inr (Or.inr ⟨s', b', s'', rfl, hbody⟩))

def ThrowsWithin (E : ε → Prop) (cond : β → EStateM ε σ Bool) (body : β → EStateM ε σ β) (b₀ : β)
    (s₀ : σ) (n : ℕ) : Prop :=
  ∃ m ≤ n, ∃ b s, Turns cond body b₀ s₀ m b s ∧ Throws E cond body b s

/-- The loop is over, or left by one of the errors `E`, after at most `n` turns. -/
def EndsWithin (E : ε → Prop) (cond : β → EStateM ε σ Bool) (body : β → EStateM ε σ β) (b₀ : β)
    (s₀ : σ) (n : ℕ) : Prop :=
  ∃ m ≤ n, ∃ b s, Turns cond body b₀ s₀ m b s ∧ (Stops cond b s ∨ Throws E cond body b s)

section Ending

variable {E : ε → Prop}

theorem ThrowsWithin.ends (h : ThrowsWithin E cond body b₀ s₀ n) :
    EndsWithin E cond body b₀ s₀ n := by
  obtain ⟨m, hm, b, s, hturns, hthrows⟩ := h
  exact ⟨m, hm, b, s, hturns, Or.inr hthrows⟩

theorem ThrowsWithin.mono {m : ℕ} (h : ThrowsWithin E cond body b₀ s₀ m) (hle : m ≤ n) :
    ThrowsWithin E cond body b₀ s₀ n := by
  obtain ⟨k, hk, b, s, hturns, hthrows⟩ := h
  exact ⟨k, Nat.le_trans hk hle, b, s, hturns, hthrows⟩

theorem EndsWithin.mono {m : ℕ} (h : EndsWithin E cond body b₀ s₀ m) (hle : m ≤ n) :
    EndsWithin E cond body b₀ s₀ n := by
  obtain ⟨k, hk, b, s, hturns, hends⟩ := h
  exact ⟨k, Nat.le_trans hk hle, b, s, hturns, hends⟩

/-- Turns go on until the loop ends or throws an error that does not leave it. -/
theorem endsWithin_or_turns (E : ε → Prop) (cond : β → EStateM ε σ Bool)
    (body : β → EStateM ε σ β) (b₀ : β) (s₀ : σ) (n : ℕ) :
    EndsWithin E cond body b₀ s₀ n ∨ ThrowsWithin (fun e => ¬E e) cond body b₀ s₀ n ∨
      ∃ b s, Turns cond body b₀ s₀ (n + 1) b s := by
  have hstep : ∀ m b s, Turns cond body b₀ s₀ m b s →
      EndsWithin E cond body b₀ s₀ m ∨ ThrowsWithin (fun e => ¬E e) cond body b₀ s₀ m ∨
        ∃ b s, Turns cond body b₀ s₀ (m + 1) b s := by
    intro m b s hturns
    rcases stops_or_throws_or_turns E cond body b s with
      hstops | hleaves | hthrows | ⟨s', b', s'', hgoes, hdone⟩
    · exact Or.inl ⟨m, Nat.le_refl m, b, s, hturns, Or.inl hstops⟩
    · exact Or.inl ⟨m, Nat.le_refl m, b, s, hturns, Or.inr hleaves⟩
    · exact Or.inr (Or.inl ⟨m, Nat.le_refl m, b, s, hturns, hthrows⟩)
    · exact Or.inr (Or.inr ⟨b', s'', .next hturns hgoes hdone⟩)
  induction n with
  | zero => exact hstep 0 b₀ s₀ .start
  | succ n ih =>
      rcases ih with hends | hthrows | ⟨b, s, hturns⟩
      · exact Or.inl (hends.mono (Nat.le_succ n))
      · exact Or.inr (Or.inl (hthrows.mono (Nat.le_succ n)))
      · exact hstep (n + 1) b s hturns

end Ending

end Counting

/-- A loop whose condition never fails does not return. -/
theorem endless {unfinished : ε} {cond : β → EStateM ε σ Bool} {body : β → EStateM ε σ β}
    {I : β → σ → Prop} (hcond : ∀ b s, I b s → Ends (cond b) s fun go s' => go = true ∧ I b s')
    (hbody : ∀ b s, I b s → Ends (body b) s I) {fuel : ℕ} {b : β} {s : σ} (h : I b s) :
    Ends (repeatWhile unfinished cond body fuel b) s fun _ _ => False := by
  induction fuel generalizing b s with
  | zero => exact .throws unfinished
  | succ fuel ih =>
      refine (hcond b s h).bind ?_
      rintro _ s' ⟨rfl, hs'⟩
      exact (hbody b s' hs').bind fun b' s'' h' => ih h'

/-- A program whose end does not depend on what came before it. -/
theorem Ends.after {p : EStateM ε σ α} {f : α → EStateM ε σ β} {s : σ} {S : β → σ → Prop}
    (hf : ∀ a s', Ends (f a) s' S) : Ends (p >>= f) s S :=
  Ends.bind (Q := fun _ _ => True) (fun _ _ _ => trivial) fun a s' _ => hf a s'

end DOptimas.Support
