import DOptimas.Heuristics.TrajectoryHeuristics
import DOptimas.Heuristics.Rules
import DOptimas.Support.Loops
/-!
# The two loops of simulated annealing

The inner loop tries neighbours at one temperature, and the outer loop cools.
Both ask the same condition, and both are followed here with the number of
neighbours tried so far.
-/

namespace DOptimas.Heuristics.SA

open DOptimas.Support
open Exception (Thrown)

variable {K : Type} [RealArith K]

inductive Loop where
  | outer
  | atTemperature

def cooled (this : SA K) (temperatureSA : Temperature K) (initial : JDouble K) (state : State K) :
    State K :=
  { state with
    temperature := temperatureSA.update this.alpha initial state.temperature state.it
    temperatureIt := 0 }

/-- Where a run stands after `n` neighbours. -/
inductive Walks (this : SA K) (context : Context) (temperatureSA : Temperature K)
    (initial : JDouble K) (state₀ : State K) (s₀ : Fields × World K) :
    ℕ → Loop → State K → Fields × World K → Prop where
  | start : Walks this context temperatureSA initial state₀ s₀ 0 .outer state₀ s₀
  | enter {n state s s'}
      (before : Walks this context temperatureSA initial state₀ s₀ n .outer state s)
      (goes : goesOn this state s = .ok true s') :
      Walks this context temperatureSA initial state₀ s₀ n .atTemperature state s'
  | step {n state state' s s' s''}
      (before : Walks this context temperatureSA initial state₀ s₀ n .atTemperature state s)
      (goes : goesOnAtTemperature this state s = .ok true s')
      (done : SA.step this context state s' = .ok state' s'') :
      Walks this context temperatureSA initial state₀ s₀ (n + 1) .atTemperature state' s''
  | cool {n state s s'}
      (before : Walks this context temperatureSA initial state₀ s₀ n .atTemperature state s)
      (leaves : goesOnAtTemperature this state s = .ok false s') :
      Walks this context temperatureSA initial state₀ s₀ n .outer
        (cooled this temperatureSA initial state) s'

def Leaves (E : Exception → Prop) (this : SA K) (context : Context) (state : State K)
    (s : Fields × World K) : Loop → Prop
  | .outer => ∃ e s', E e ∧ goesOn this state s = .error e s'
  | .atTemperature => Throws E (goesOnAtTemperature this) (SA.step this context) state s

def Over (this : SA K) (context : Context) (state : State K) (s : Fields × World K)
    (loop : Loop) : Prop :=
  loop = .outer ∧ Stops (goesOn this) state s ∨ Leaves Thrown this context state s loop

def OverWithin (this : SA K) (context : Context) (temperatureSA : Temperature K)
    (initial : JDouble K) (state₀ : State K) (s₀ : Fields × World K) (n : ℕ) : Prop :=
  ∃ m ≤ n, ∃ loop state s, Walks this context temperatureSA initial state₀ s₀ m loop state s ∧
    Over this context state s loop

def LeavesWithin (E : Exception → Prop) (this : SA K) (context : Context)
    (temperatureSA : Temperature K) (initial : JDouble K) (state₀ : State K)
    (s₀ : Fields × World K) (n : ℕ) : Prop :=
  ∃ m ≤ n, ∃ loop state s, Walks this context temperatureSA initial state₀ s₀ m loop state s ∧
    Leaves E this context state s loop

/-- What every turn of either loop keeps, with the number of neighbours. -/
theorem Walks.keeps {this : SA K} {context : Context} {temperatureSA : Temperature K}
    {initial : JDouble K} {state₀ state : State K} {s₀ s : Fields × World K} {n : ℕ} {loop : Loop}
    {I : ℕ → Loop → State K → Fields × World K → Prop}
    (h : Walks this context temperatureSA initial state₀ s₀ n loop state s)
    (hstart : I 0 .outer state₀ s₀)
    (henter : ∀ n state s s', I n .outer state s → goesOn this state s = .ok true s' →
      I n .atTemperature state s')
    (hstep : ∀ n state state' s s' s'', I n .atTemperature state s →
      goesOnAtTemperature this state s = .ok true s' →
      SA.step this context state s' = .ok state' s'' → I (n + 1) .atTemperature state' s'')
    (hcool : ∀ n state s s', I n .atTemperature state s →
      goesOnAtTemperature this state s = .ok false s' →
      I n .outer (cooled this temperatureSA initial state) s') : I n loop state s := by
  induction h with
  | start => exact hstart
  | enter _ hgoes ih => exact henter _ _ _ _ ih hgoes
  | step _ hgoes hdone ih => exact hstep _ _ _ _ _ _ ih hgoes hdone
  | cool _ hleaves ih => exact hcool _ _ _ _ ih hleaves

section Runs

variable {this : SA K} {context : Context} {temperatureSA : Temperature K} {initial : JDouble K}
  {state₀ state state' : State K} {s₀ s s' s'' : Fields × World K} {n : ℕ}

theorem Walks.visits {b : State K} {t : Fields × World K}
    (h : Walks this context temperatureSA initial state₀ s₀ n .atTemperature state s)
    (hvisits : Visits (goesOnAtTemperature this) (SA.step this context) state s b t) :
    ∃ n', Walks this context temperatureSA initial state₀ s₀ n' .atTemperature b t := by
  induction hvisits with
  | start => exact ⟨n, h⟩
  | next _ hgoes hdone ih =>
      obtain ⟨n', hbefore⟩ := ih
      exact ⟨n' + 1, .step hbefore hgoes hdone⟩

theorem walks_of_cool {fuel : ℕ}
    (h : Walks this context temperatureSA initial state₀ s₀ n .outer state s)
    (hgoes : goesOn this state s = .ok true s')
    (hcool : SA.cool this fuel context temperatureSA initial state s' = .ok state' s'') :
    ∃ n', Walks this context temperatureSA initial state₀ s₀ n' .outer state' s'' := by
  unfold cool at hcool
  cases hloop : repeatWhile .unfinished (goesOnAtTemperature this) (SA.step this context) fuel
      state s' with
  | error e t =>
      rw [bind_of_error hloop] at hcool
      cases hcool
  | ok b t =>
      rw [bind_of_ok hloop] at hcool
      cases hcool
      obtain ⟨r, hvisits, hstops⟩ := visits_of_repeatWhile hloop
      obtain ⟨n', hbefore⟩ := (Walks.enter h hgoes).visits hvisits
      exact ⟨n', .cool hbefore hstops⟩

theorem walks_of_visits {fuel : ℕ}
    (h : Visits (goesOn this) (cool this fuel context temperatureSA initial) state₀ s₀ state s) :
    ∃ n, Walks this context temperatureSA initial state₀ s₀ n .outer state s := by
  induction h with
  | start => exact ⟨0, .start⟩
  | next _ hgoes hdone ih =>
      obtain ⟨n, hbefore⟩ := ih
      exact walks_of_cool hbefore hgoes hdone

end Runs

/-! ## Runs that end -/

abbrev Place (K : Type) [RealArith K] := Loop × State K × (Fields × World K)

inductive Move (this : SA K) (context : Context) (temperatureSA : Temperature K)
    (initial : JDouble K) : Place K → Place K → Prop where
  | enter {state s s'} (goes : goesOn this state s = .ok true s') :
      Move this context temperatureSA initial (.outer, state, s) (.atTemperature, state, s')
  | step {state state' s s' s''} (goes : goesOnAtTemperature this state s = .ok true s')
      (done : SA.step this context state s' = .ok state' s'') :
      Move this context temperatureSA initial (.atTemperature, state, s)
        (.atTemperature, state', s'')
  | cool {state s s'} (leaves : goesOnAtTemperature this state s = .ok false s') :
      Move this context temperatureSA initial (.atTemperature, state, s)
        (.outer, cooled this temperatureSA initial state, s')

section Moves

variable {this : SA K} {context : Context} {temperatureSA : Temperature K} {initial : JDouble K}
  {state₀ state : State K} {s₀ s s' : Fields × World K} {n : ℕ} {loop : Loop}

theorem move_unique : Relator.RightUnique (Move this context temperatureSA initial) := by
  intro x y z hxy hxz
  cases hxy with
  | enter goes =>
      cases hxz with
      | enter goes' =>
          rw [goes] at goes'
          cases goes'
          rfl
  | step goes done =>
      cases hxz with
      | step goes' done' =>
          rw [goes] at goes'
          cases goes'
          rw [done] at done'
          cases done'
          rfl
      | cool leaves =>
          rw [goes] at leaves
          cases leaves
  | cool leaves =>
      cases hxz with
      | step goes _ =>
          rw [leaves] at goes
          cases goes
      | cool leaves' =>
          rw [leaves] at leaves'
          cases leaves'
          rfl

theorem Walks.moves (h : Walks this context temperatureSA initial state₀ s₀ n loop state s) :
    Relation.ReflTransGen (Move this context temperatureSA initial) (.outer, state₀, s₀)
      (loop, state, s) := by
  induction h with
  | start => exact .refl
  | enter _ hgoes ih => exact ih.tail (.enter hgoes)
  | step _ hgoes hdone ih => exact ih.tail (.step hgoes hdone)
  | cool _ hleaves ih => exact ih.tail (.cool hleaves)

theorem Walks.to_last (h : Walks this context temperatureSA initial state₀ s₀ n .outer state s)
    (hstops : goesOn this state s = .ok false s') {m : ℕ} {state₁ : State K}
    {s₁ : Fields × World K}
    (h₁ : Walks this context temperatureSA initial state₀ s₀ m loop state₁ s₁) :
    Relation.ReflTransGen (Move this context temperatureSA initial) (loop, state₁, s₁)
      (.outer, state, s) := by
  rcases Relation.ReflTransGen.total_of_right_unique move_unique h₁.moves h.moves with hon | hback
  · exact hon
  · rcases hback.cases_head with heq | ⟨place, hmove, -⟩
    · rw [heq]
    · cases hmove with
      | enter goes =>
          rw [hstops] at goes
          cases goes

end Moves

end DOptimas.Heuristics.SA
