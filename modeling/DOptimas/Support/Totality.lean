import DOptimas.Support.Program
/-!
# Total correctness

`Returns p s Q` says that `p` returns from `s`, and that value and state satisfy
`Q`.  A loop returns when a measure goes down with each turn and the fuel exceeds
it; without a measure, the end of its fuel is an outcome of its own.
-/

namespace DOptimas.Support

variable {ε σ α β : Type}

/-- `p` returns from `s` with a value and a state that satisfy `Q`. -/
def Returns (p : EStateM ε σ α) (s : σ) (Q : α → σ → Prop) : Prop :=
  ∃ a s', p s = .ok a s' ∧ Q a s'

namespace Returns

variable {p : EStateM ε σ α} {s : σ} {Q R : α → σ → Prop} {S : β → σ → Prop}

theorem mono (h : Returns p s Q) (himp : ∀ a s', Q a s' → R a s') : Returns p s R := by
  obtain ⟨a, s', hp, hq⟩ := h
  exact ⟨a, s', hp, himp a s' hq⟩

theorem ret {a : α} (h : Q a s) : Returns (pure a : EStateM ε σ α) s Q := ⟨a, s, rfl, h⟩

theorem bind {f : α → EStateM ε σ β} (hp : Returns p s Q)
    (hf : ∀ a s', Q a s' → Returns (f a) s' S) : Returns (p >>= f) s S := by
  obtain ⟨a, s', hp, hq⟩ := hp
  obtain ⟨b, s'', hf, hs⟩ := hf a s' hq
  exact ⟨b, s'', (bind_of_ok hp).trans hf, hs⟩

theorem after {f : α → EStateM ε σ β} {a : α} {s' : σ} (hp : p s = .ok a s')
    (hf : Returns (f a) s' S) : Returns (p >>= f) s S := by
  obtain ⟨b, s'', hf, hs⟩ := hf
  exact ⟨b, s'', (bind_of_ok hp).trans hf, hs⟩

theorem ends (h : Returns p s Q) : Ends p s Q := by
  obtain ⟨a, s', hp, hq⟩ := h
  intro b s'' hp'
  rw [hp] at hp'
  cases hp'
  exact hq

theorem and_ends (h : Returns p s Q) (h' : Ends p s R) :
    Returns p s fun a s' => Q a s' ∧ R a s' := by
  obtain ⟨a, s', hp, hq⟩ := h
  exact ⟨a, s', hp, hq, h' a s' hp⟩

theorem reads {Q : σ → σ → Prop} (h : Q s s) : Returns (get : EStateM ε σ σ) s Q := ⟨s, s, rfl, h⟩

theorem changes {f : σ → α × σ} (h : Q (f s).1 (f s).2) :
    Returns (modifyGet f : EStateM ε σ α) s Q := ⟨_, _, rfl, h⟩

theorem modifies {f : σ → σ} {Q : Unit → σ → Prop} (h : Q () (f s)) :
    Returns (modify f : EStateM ε σ Unit) s Q := ⟨(), _, rfl, h⟩

theorem foldlM (xs : List α) {f : β → α → EStateM ε σ β} {b : β} {I : List α → β → σ → Prop}
    (h : I [] b s) (hstep : ∀ before a, a ∈ xs → ∀ b s, I before b s →
      Returns (f b a) s (I (before ++ [a]))) : Returns (xs.foldlM f b) s (I xs) := by
  have hgo : ∀ (ys before : List α) (b : β) (s : σ), (∀ y ∈ ys, y ∈ xs) → I before b s →
      Returns (ys.foldlM f b) s (I (before ++ ys)) := by
    intro ys
    induction ys with
    | nil =>
        intro before b s _ h
        rw [List.foldlM_nil, List.append_nil]
        exact ret h
    | cons y ys ih =>
        intro before b s hys h
        rw [List.foldlM_cons]
        apply (hstep before y (hys y List.mem_cons_self) b s h).bind
        intro b' s' h'
        have hrest := ih (before ++ [y]) b' s' (fun z hz => hys z (List.mem_cons_of_mem y hz)) h'
        rwa [List.append_assoc] at hrest
  exact hgo xs [] b s (fun _ hy => hy) h

theorem forM_idx (xs : List α) {f : α → EStateM ε σ Unit} {I : ℕ → σ → Prop} (h : I 0 s)
    (hstep : ∀ i a, xs[i]? = some a → ∀ s, I i s → Returns (f a) s fun _ => I (i + 1)) :
    Returns (xs.forM f) s fun _ => I xs.length := by
  induction xs generalizing s I with
  | nil => exact ret h
  | cons x xs ih =>
      show Returns (f x >>= fun _ => xs.forM f) s fun _ => I (x :: xs).length
      apply (hstep 0 x rfl s h).bind
      intro _ s' hs
      exact ih (I := fun i => I (i + 1)) hs fun i a ha => hstep (i + 1) a ha

/-- The rule of the loop with a measure. -/
theorem repeatWhile {unfinished : ε} {cond : β → EStateM ε σ Bool} {body : β → EStateM ε σ β}
    {I : β → σ → Prop} {m : β → ℕ}
    (hcond : ∀ b s, I b s → Returns (cond b) s fun go s' =>
      if go then Returns (body b) s' fun b' s'' => I b' s'' ∧ m b' < m b else S b s')
    {fuel : ℕ} {b : β} (h : I b s) (hfuel : m b < fuel) :
    Returns (repeatWhile unfinished cond body fuel b) s S := by
  induction fuel generalizing b s with
  | zero => omega
  | succ fuel ih =>
      apply (hcond b s h).bind
      intro go s' hgo
      cases go with
      | false => exact ret hgo
      | true =>
          apply hgo.bind
          intro b' s'' hb'
          exact ih hb'.1 (by omega)

end Returns

/-- `p` ends with `e`, or returns and value and state satisfy `Q`. -/
def ReturnsUnless (e : ε) (p : EStateM ε σ α) (s : σ) (Q : α → σ → Prop) : Prop :=
  (∃ s', p s = .error e s') ∨ Returns p s Q

namespace ReturnsUnless

variable {e : ε} {p : EStateM ε σ α} {s : σ} {Q R : α → σ → Prop} {S : β → σ → Prop}

theorem mono (h : ReturnsUnless e p s Q) (himp : ∀ a s', Q a s' → R a s') :
    ReturnsUnless e p s R := h.imp_right fun hp => hp.mono himp

theorem ret {a : α} (h : Q a s) : ReturnsUnless e (pure a : EStateM ε σ α) s Q :=
  Or.inr (.ret h)

theorem bind {f : α → EStateM ε σ β} (hp : ReturnsUnless e p s Q)
    (hf : ∀ a s', Q a s' → ReturnsUnless e (f a) s' S) : ReturnsUnless e (p >>= f) s S := by
  rcases hp with ⟨s', hp⟩ | ⟨a, s', hp, hq⟩
  · exact Or.inl ⟨s', bind_of_error hp⟩
  · rcases hf a s' hq with ⟨s'', hf⟩ | hf
    · exact Or.inl ⟨s'', (bind_of_ok hp).trans hf⟩
    · exact Or.inr (.after hp hf)

theorem foldlM {xs : List α} {f : β → α → EStateM ε σ β} {b : β} {I : β → σ → Prop} (h : I b s)
    (hstep : ∀ a ∈ xs, ∀ b s, I b s → ReturnsUnless e (f b a) s I) :
    ReturnsUnless e (xs.foldlM f b) s I := by
  induction xs generalizing b s with
  | nil =>
      rw [List.foldlM_nil]
      exact ret h
  | cons x xs ih =>
      rw [List.foldlM_cons]
      apply (hstep x List.mem_cons_self b s h).bind
      intro b' s' h'
      exact ih h' fun a ha => hstep a (List.mem_cons_of_mem x ha)

/-- A loop may use up its fuel, whatever it keeps. -/
theorem repeatWhile {cond : β → EStateM ε σ Bool} {body : β → EStateM ε σ β} {I : β → σ → Prop}
    (hcond : ∀ b s, I b s → Returns (cond b) s fun go s' =>
      if go then ReturnsUnless e (body b) s' I else S b s')
    {fuel : ℕ} {b : β} (h : I b s) : ReturnsUnless e (repeatWhile e cond body fuel b) s S := by
  induction fuel generalizing b s with
  | zero => exact Or.inl ⟨s, rfl⟩
  | succ fuel ih =>
      apply bind (Or.inr (hcond b s h))
      intro go s' hgo
      cases go with
      | false => exact ret hgo
      | true => exact hgo.bind fun b' s'' h' => ih h'

end ReturnsUnless

end DOptimas.Support
