import Mathlib.Data.List.Basic
import Mathlib.Logic.Relation
import Mathlib.Tactic.Basic
/-!
# Imperative programs

A method body changes a state and returns a value or throws; what it changed
before it threw stays changed.  `Ends p s Q` is partial correctness from one
state: whenever `p` returns from `s`, value and state satisfy `Q`.  Loops carry
fuel, and one that has none left throws, so that a statement about every normal
end is a statement for every amount of fuel.
-/

namespace DOptimas.Support

variable {ε σ φ α β : Type}

def Ends (p : EStateM ε σ α) (s : σ) (Q : α → σ → Prop) : Prop :=
  ∀ a s', p s = .ok a s' → Q a s'

/-- `while (cond) body`, where `unfinished` ends a loop that has no fuel left. -/
def repeatWhile (unfinished : ε) (cond : β → EStateM ε σ Bool) (body : β → EStateM ε σ β) :
    ℕ → β → EStateM ε σ β
  | 0, _ => throw unfinished
  | fuel + 1, b => do
      if ← cond b then
        let b ← body b
        repeatWhile unfinished cond body fuel b
      else
        pure b

/-- Where a loop stands before it looks at its condition. -/
inductive Visits (cond : β → EStateM ε σ Bool) (body : β → EStateM ε σ β) (b₀ : β) (s₀ : σ) :
    β → σ → Prop where
  | start : Visits cond body b₀ s₀ b₀ s₀
  | next {b b' s s' s''} (before : Visits cond body b₀ s₀ b s) (goes : cond b s = .ok true s')
      (done : body b s' = .ok b' s'') : Visits cond body b₀ s₀ b' s''

def onState (p : EStateM ε σ α) : EStateM ε (φ × σ) α := fun s =>
  match p s.2 with
  | .ok a s' => .ok a (s.1, s')
  | .error e s' => .error e (s.1, s')

theorem get_state (s : σ) : (get : EStateM ε σ σ) s = .ok s s := rfl

theorem bind_of_ok {p : EStateM ε σ α} {f : α → EStateM ε σ β} {s s' : σ} {a : α}
    (h : p s = .ok a s') : (p >>= f) s = f a s' := by
  simp [Bind.bind, EStateM.bind, h]

theorem bind_of_error {p : EStateM ε σ α} {f : α → EStateM ε σ β} {s s' : σ} {e : ε}
    (h : p s = .error e s') : (p >>= f) s = .error e s' := by
  simp [Bind.bind, EStateM.bind, h]

namespace Visits

variable {cond : β → EStateM ε σ Bool} {body : β → EStateM ε σ β} {b₀ b : β} {s₀ s s' : σ}

/-- What every turn of a loop keeps holds wherever it stands. -/
theorem keeps {I : β → σ → Prop} (h : Visits cond body b₀ s₀ b s) (hinit : I b₀ s₀)
    (hturn : ∀ b b' s s' s'', I b s → cond b s = .ok true s' → body b s' = .ok b' s'' → I b' s'') :
    I b s := by
  induction h with
  | start => exact hinit
  | next _ hgoes hdone ih => exact hturn _ _ _ _ _ ih hgoes hdone

theorem trans {b' : β} (h : Visits cond body b₀ s₀ b s) (h' : Visits cond body b s b' s') :
    Visits cond body b₀ s₀ b' s' := by
  induction h' with
  | start => exact h
  | next _ hgoes hdone ih => exact .next ih hgoes hdone

theorem eq_of_stops {b' : β} {t : σ} (hstops : cond b s = .ok false t)
    (h : Visits cond body b s b' s') : b' = b ∧ s' = s := by
  induction h with
  | start => exact ⟨rfl, rfl⟩
  | next _ hgoes _ ih =>
      obtain ⟨rfl, rfl⟩ := ih
      rw [hstops] at hgoes
      cases hgoes

/-- One turn of a loop. -/
def Turn (cond : β → EStateM ε σ Bool) (body : β → EStateM ε σ β) (x y : β × σ) : Prop :=
  ∃ s', cond x.1 x.2 = .ok true s' ∧ body x.1 s' = .ok y.1 y.2

theorem turn_unique : Relator.RightUnique (Turn cond body) := by
  rintro ⟨b, s⟩ ⟨c, t⟩ ⟨c', t'⟩ ⟨s', hgoes, hdone⟩ ⟨s'', hgoes', hdone'⟩
  rw [hgoes] at hgoes'
  cases hgoes'
  rw [hdone] at hdone'
  cases hdone'
  rfl

theorem turns (h : Visits cond body b₀ s₀ b s) :
    Relation.ReflTransGen (Turn cond body) (b₀, s₀) (b, s) := by
  induction h with
  | start => exact .refl
  | next _ hgoes hdone ih => exact ih.tail ⟨_, hgoes, hdone⟩

theorem of_turns {x y : β × σ} (h : Relation.ReflTransGen (Turn cond body) x y) :
    Visits cond body x.1 x.2 y.1 y.2 := by
  induction h with
  | refl => exact .start
  | tail _ hturn ih =>
      obtain ⟨s', hgoes, hdone⟩ := hturn
      exact .next ih hgoes hdone

theorem to_last {b' : β} {t : σ} (h : Visits cond body b₀ s₀ b s)
    (hstops : cond b s = .ok false t) (h' : Visits cond body b₀ s₀ b' s') :
    Visits cond body b' s' b s := by
  rcases Relation.ReflTransGen.total_of_right_unique turn_unique h'.turns h.turns with hon | hback
  · exact of_turns hon
  · obtain ⟨rfl, rfl⟩ := eq_of_stops hstops (of_turns hback)
    exact .start

end Visits

/-- A loop that ends has come to a place where its condition fails. -/
theorem visits_of_repeatWhile {unfinished : ε} {cond : β → EStateM ε σ Bool}
    {body : β → EStateM ε σ β} {fuel : ℕ} {b₀ b : β} {s₀ s' : σ}
    (h : repeatWhile unfinished cond body fuel b₀ s₀ = .ok b s') :
    ∃ s, Visits cond body b₀ s₀ b s ∧ cond b s = .ok false s' := by
  induction fuel generalizing b₀ s₀ with
  | zero => cases h
  | succ fuel ih =>
      cases hgoes : cond b₀ s₀ with
      | error e s₁ =>
          rw [repeatWhile, bind_of_error hgoes] at h
          cases h
      | ok go s₁ =>
          rw [repeatWhile, bind_of_ok hgoes] at h
          cases go with
          | false =>
              cases h
              exact ⟨s₀, .start, hgoes⟩
          | true =>
              cases hdone : body b₀ s₁ with
              | error e s₂ =>
                  rw [if_pos rfl, bind_of_error hdone] at h
                  cases h
              | ok b₁ s₂ =>
                  rw [if_pos rfl, bind_of_ok hdone] at h
                  obtain ⟨s, hvisits, hend⟩ := ih h
                  exact ⟨s, (Visits.next .start hgoes hdone).trans hvisits, hend⟩

/-- What is seen of a result from outside the first half of the state. -/
def outcome : EStateM.Result ε (φ × σ) α → Except ε α × σ
  | .ok a s => (.ok a, s.2)
  | .error e s => (.error e, s.2)

/-- The first half of the state that a result leaves. -/
def leaves : EStateM.Result ε (φ × σ) α → φ
  | .ok _ s => s.1
  | .error _ s => s.1

/-- Whatever `p` and `q` return, from any two states, is related by `R`. -/
def Relates (p : EStateM ε σ α) (q : EStateM ε σ β) (R : α → β → Prop) : Prop :=
  ∀ s t a b s' t', p s = .ok a s' → q t = .ok b t' → R a b

namespace Relates

variable {γ δ : Type} {p : EStateM ε σ α} {q : EStateM ε σ β} {R : α → β → Prop}
  {S : γ → δ → Prop}

theorem ret {a : α} {b : β} (h : R a b) :
    Relates (pure a : EStateM ε σ α) (pure b : EStateM ε σ β) R := by
  intro s t a' b' s' t' hp hq
  cases hp
  cases hq
  exact h

theorem throws (e : ε) : Relates (throw e : EStateM ε σ α) q R := by
  intro s t a b s' t' hp
  cases hp

theorem any : Relates p q fun _ _ => True :=
  fun _ _ _ _ _ _ _ _ => trivial

theorem bind {f : α → EStateM ε σ γ} {g : β → EStateM ε σ δ} (hpq : Relates p q R)
    (hfg : ∀ a b, R a b → Relates (f a) (g b) S) : Relates (p >>= f) (q >>= g) S := by
  intro s t c d s'' t'' hp hq
  simp only [Bind.bind, EStateM.bind] at hp hq
  split at hp
  next a s' ha =>
    split at hq
    next b t' hb => exact hfg a b (hpq s t a b s' t' ha hb) s' t' c d s'' t'' hp hq
    next => cases hq
  next => cases hp

end Relates

namespace Ends

variable {p : EStateM ε σ α} {s : σ} {Q R : α → σ → Prop} {S : β → σ → Prop}

theorem mono (h : Ends p s Q) (himp : ∀ a s', Q a s' → R a s') : Ends p s R :=
  fun a s' hp => himp a s' (h a s' hp)

theorem and (h : Ends p s Q) (h' : Ends p s R) : Ends p s fun a s' => Q a s' ∧ R a s' :=
  fun a s' hp => ⟨h a s' hp, h' a s' hp⟩

theorem ret {a : α} (h : Q a s) : Ends (pure a : EStateM ε σ α) s Q := by
  intro b s' hp
  cases hp
  exact h

theorem throws (e : ε) : Ends (throw e : EStateM ε σ α) s Q := by
  intro a s' hp
  cases hp

theorem bind {f : α → EStateM ε σ β} (hp : Ends p s Q)
    (hf : ∀ a s', Q a s' → Ends (f a) s' S) : Ends (p >>= f) s S := by
  intro b s'' h
  simp only [Bind.bind, EStateM.bind] at h
  split at h
  next a s' heq => exact hf a s' (hp a s' heq) b s'' h
  next => cases h

theorem map {f : α → β} (hp : Ends p s Q) (hf : ∀ a s', Q a s' → S (f a) s') :
    Ends (f <$> p) s S := by
  rw [← bind_pure_comp]
  exact hp.bind fun a s' h => ret (hf a s' h)

theorem reads {Q : σ → σ → Prop} (h : Q s s) : Ends (get : EStateM ε σ σ) s Q := by
  intro a s' hp
  cases hp
  exact h

theorem changes {f : σ → α × σ} (h : Q (f s).1 (f s).2) :
    Ends (modifyGet f : EStateM ε σ α) s Q := by
  intro a s' hp
  cases hp
  exact h

theorem modifies {f : σ → σ} {Q : Unit → σ → Prop} (h : Q () (f s)) :
    Ends (modify f : EStateM ε σ Unit) s Q := by
  intro a s' hp
  cases hp
  exact h

/-- A traversal that collects results, with the position of each step. -/
theorem mapM_idx {xs : List α} {f : α → EStateM ε σ β} {I : List β → σ → Prop} (h : I [] s)
    (hstep : ∀ i a, xs[i]? = some a → ∀ ys s, ys.length = i → I ys s →
      Ends (f a) s fun y s' => I (ys ++ [y]) s') :
    Ends (xs.mapM f) s fun ys s' => ys.length = xs.length ∧ I ys s' := by
  have hgo : ∀ (xs : List α) (ys : List β) (s : σ), I ys s →
      (∀ i a, xs[i]? = some a → ∀ zs s, zs.length = ys.length + i → I zs s →
        Ends (f a) s fun y s' => I (zs ++ [y]) s') →
      Ends (xs.mapM f) s fun zs s' => zs.length = xs.length ∧ I (ys ++ zs) s' := by
    intro xs
    induction xs with
    | nil =>
        intro ys s h _
        rw [List.mapM_nil]
        exact ret (by simpa using h)
    | cons x xs ih =>
        intro ys s h hstep
        rw [List.mapM_cons]
        refine (hstep 0 x rfl ys s rfl h).bind fun y s' hy => ?_
        have hrest := ih (ys ++ [y]) s' hy fun i a ha zs s hlength =>
          hstep (i + 1) a ha zs s (by
            rw [hlength, List.length_append, List.length_singleton]
            omega)
        refine hrest.bind fun zs s'' ⟨hlength, hzs⟩ => ret ⟨by simp [hlength], ?_⟩
        simpa using hzs
  exact hgo xs [] s h fun i a ha zs s hlength => hstep i a ha zs s (by simpa using hlength)

theorem mapM {xs : List α} {f : α → EStateM ε σ β} {I : List β → σ → Prop} (h : I [] s)
    (hstep : ∀ a ∈ xs, ∀ ys s, I ys s → Ends (f a) s fun y s' => I (ys ++ [y]) s') :
    Ends (xs.mapM f) s I :=
  (mapM_idx h fun _ a ha ys s _ hys => hstep a (List.mem_of_getElem? ha) ys s hys).mono
    fun _ _ hys => hys.2

theorem mapM_stages (xs : List α) (f : α → EStateM ε σ β) (s : σ) :
    Ends (xs.mapM f) s fun ys s' => ys.length = xs.length ∧ ∃ stage : ℕ → σ, stage 0 = s ∧
      stage xs.length = s' ∧ ∀ (i : ℕ) (a : α) (b : β), xs[i]? = some a → ys[i]? = some b →
        f a (stage i) = .ok b (stage (i + 1)) := by
  induction xs generalizing s with
  | nil =>
      rw [List.mapM_nil]
      exact ret ⟨rfl, fun _ => s, rfl, rfl, by simp⟩
  | cons x xs ih =>
      rw [List.mapM_cons]
      refine Ends.bind (Q := fun y s₁ => f x s = .ok y s₁) (fun _ _ hy => hy) ?_
      intro y s₁ hy
      refine (ih s₁).bind ?_
      rintro ys s₂ ⟨hlength, stage, hstart, hend, hsteps⟩
      refine ret ⟨by simp [hlength], fun i => Nat.rec s (fun j _ => stage j) i, rfl, hend, ?_⟩
      intro i a b ha hb
      cases i with
      | zero =>
          obtain rfl : x = a := Option.some.inj ha
          obtain rfl : y = b := Option.some.inj hb
          show f x s = .ok y (stage 0)
          rw [hstart, hy]
      | succ i => exact hsteps i a b ha hb

theorem foldlM_idx (xs : List α) {f : β → α → EStateM ε σ β} {b : β} {I : ℕ → β → σ → Prop}
    (h : I 0 b s) (hstep : ∀ i a, xs[i]? = some a → ∀ b s, I i b s → Ends (f b a) s (I (i + 1))) :
    Ends (xs.foldlM f b) s (I xs.length) := by
  induction xs generalizing b s I with
  | nil =>
      rw [List.foldlM_nil]
      exact ret h
  | cons x xs ih =>
      rw [List.foldlM_cons]
      exact (hstep 0 x rfl b s h).bind fun b' s' hb =>
        ih (I := fun i => I (i + 1)) hb fun i a ha => hstep (i + 1) a ha

theorem foldlM {xs : List α} {f : β → α → EStateM ε σ β} {b : β} {I : β → σ → Prop} (h : I b s)
    (hstep : ∀ a ∈ xs, ∀ b s, I b s → Ends (f b a) s I) : Ends (xs.foldlM f b) s I :=
  foldlM_idx xs (I := fun _ => I) h fun _ a ha => hstep a (List.mem_of_getElem? ha)

theorem forM_idx (xs : List α) {f : α → EStateM ε σ Unit} {I : ℕ → σ → Prop} (h : I 0 s)
    (hstep : ∀ i a, xs[i]? = some a → ∀ s, I i s → Ends (f a) s fun _ => I (i + 1)) :
    Ends (xs.forM f) s fun _ => I xs.length := by
  induction xs generalizing s I with
  | nil => exact ret h
  | cons x xs ih =>
      show Ends (f x >>= fun _ => xs.forM f) s fun _ => I (x :: xs).length
      exact (hstep 0 x rfl s h).bind fun _ s' hs =>
        ih (I := fun i => I (i + 1)) hs fun i a ha => hstep (i + 1) a ha

theorem forM {xs : List α} {f : α → EStateM ε σ Unit} {I : σ → Prop} (h : I s)
    (hstep : ∀ a ∈ xs, ∀ s, I s → Ends (f a) s fun _ => I) :
    Ends (xs.forM f) s fun _ => I :=
  forM_idx xs (I := fun _ => I) h fun _ a ha => hstep a (List.mem_of_getElem? ha)

/-- The rule of the loop: what condition and body keep holds at its end. -/
theorem repeatWhile {unfinished : ε} {cond : β → EStateM ε σ Bool} {body : β → EStateM ε σ β}
    {I : β → σ → Prop} (hcond : ∀ b s, I b s → Ends (cond b) s fun _ s' => I b s')
    (hbody : ∀ b s, I b s → Ends (body b) s I) {fuel : ℕ} {b : β} (h : I b s) :
    Ends (repeatWhile unfinished cond body fuel b) s I := by
  induction fuel generalizing b s with
  | zero => exact throws unfinished
  | succ fuel ih =>
      refine (hcond b s h).bind fun go s' hs' => ?_
      cases go with
      | false => exact ret hs'
      | true => exact (hbody b s' hs').bind fun b' s'' h' => ih h'

/-- The rule of the loop where a turn depends on what its condition found. -/
theorem repeatWhile_turns {unfinished : ε} {cond : β → EStateM ε σ Bool}
    {body : β → EStateM ε σ β} {I T : β → σ → Prop}
    (hturn : ∀ b s, I b s → Ends (cond b) s fun go s' =>
      if go then Ends (body b) s' I else T b s')
    {fuel : ℕ} {b : β} (h : I b s) :
    Ends (Support.repeatWhile unfinished cond body fuel b) s T := by
  induction fuel generalizing b s with
  | zero => exact throws unfinished
  | succ fuel ih =>
      refine (hturn b s h).bind ?_
      intro go s' hgo
      cases go with
      | false => exact ret hgo
      | true => exact Ends.bind hgo fun b' s'' h' => ih h'

theorem onState {x : φ} {S : α → φ × σ → Prop} (h : Ends p s fun a s' => S a (x, s')) :
    Ends (Support.onState p) (x, s) S := by
  intro a s' hp
  unfold Support.onState at hp
  split at hp
  next b t heq =>
    cases hp
    exact h a t heq
  next => cases hp

end Ends

end DOptimas.Support
