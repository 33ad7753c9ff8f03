import DOptimas.Heuristics.Annealing
import DOptimas.Proofs.SwarmMotion
/-!
# One iteration more than the limit

The condition on the number of iterations is satisfied when the counter exceeds
the limit, and the counter starts at zero.  Each main loop therefore takes one
turn more than the limit says before it is over, and annealing tries one neighbour
more; where a temperature allows no iterations, annealing is never over.
-/

namespace DOptimas.Proofs.IterationLimit

open DOptimas.Support DOptimas.Heuristics
open Exception (Thrown)

section Counted

variable {σ β : Type} {cond : β → EStateM Exception σ Bool} {body : β → EStateM Exception σ β}
  {count : β → ℤ} {b₀ : β} {s₀ : σ} {N : ℕ}

theorem increment_le (n : ℤ) : increment n ≤ n + 1 := by
  unfold increment
  split
  · omega
  · omega

theorem increment_eq {n : ℤ} (h : n < 2147483647) : increment n = n + 1 := by
  unfold increment
  rw [if_neg (by omega)]

/-- A loop that goes on while its counter is at most `N`, and counts its turns. -/
structure Limited (cond : β → EStateM Exception σ Bool) (body : β → EStateM Exception σ β)
    (count : β → ℤ) (N : ℕ) : Prop where
  goes : ∀ b s, Ends (cond b) s fun go _ => go = decide (count b ≤ N)
  counts : ∀ b s, Ends (body b) s fun b' _ => count b' = increment (count b)

theorem Limited.count_eq (h : Limited cond body count N) (hN : N < 2147483647)
    (hstart : count b₀ = 0) {n : ℕ} {b : β} {s : σ} (hturns : Turns cond body b₀ s₀ n b s) :
    count b = n ∧ n ≤ N + 1 := by
  induction hturns with
  | start => exact ⟨by omega, by omega⟩
  | @next n b b' s s' s'' _ hgoes hdone ih =>
      obtain ⟨hcount, -⟩ := ih
      have hle : count b ≤ N := of_decide_eq_true (h.goes b s true s' hgoes).symm
      have hnext := h.counts b s' b' s'' hdone
      rw [increment_eq (by omega)] at hnext
      exact ⟨by omega, by omega⟩

end Counted

section Loops

variable {K : Type} [RealArith K] {N : ℕ} {parameters : MetaHeuristicParameters K}

structure LimitedTo (N : ℕ) (stopCondition : Option StopCondition)
    (parameters : MetaHeuristicParameters K) : Prop where
  condition : stopCondition = some .maxIterations
  limit : parameters.maxIterations = some (N : ℤ)

theorem ends_isSatisfied {stopCondition : Option StopCondition}
    (h : LimitedTo N stopCondition parameters) (it wi : ℤ) (w : World K) :
    Ends (isSatisfied stopCondition it wi parameters) w fun b _ => b = decide ((N : ℤ) < it) := by
  unfold isSatisfied
  rw [h.condition]
  apply Ends.after
  intro time w
  show Ends (StopCondition.isSatisfied time it wi parameters .maxIterations) w _
  simp only [StopCondition.isSatisfied, h.limit]
  exact .ret rfl

theorem not_decide_lt (n it : ℤ) : (!decide (n < it)) = decide (it ≤ n) := by
  simp [← decide_not]

theorem ends_asks {F : Type} {stopCondition : Option StopCondition}
    (h : LimitedTo N stopCondition parameters) (it wi : ℤ) (s : F × World K) :
    Ends (do return !(← call (isSatisfied stopCondition it wi parameters)) : Method F K Bool) s
      fun go _ => go = decide (it ≤ N) := by
  obtain ⟨x, w⟩ := s
  refine ends_call (ends_isSatisfied h it wi w) ?_
  intro b w' hb
  refine .ret ?_
  rw [hb, not_decide_lt]

end Loops

/-! ## Annealing -/

open SA (Walks Loop Over Leaves OverWithin LeavesWithin)

section Neighbours

variable {K : Type} [RealArith K] {N : ℕ} {this : SA K} {context : Context}
  {temperatureSA : Temperature K} {initial temperature : JDouble K}
  {s₀ : SA.Fields × World K}

theorem ends_goesOn (h : LimitedTo N this.stopCondition this.metaHeuristicParameters)
    (state : SA.State K) (s : SA.Fields × World K) :
    Ends (this.goesOn state) s fun go _ => go = decide (state.it ≤ N) := by
  unfold SA.goesOn
  apply Ends.after
  intro f s
  apply Ends.after
  intro _ s
  exact ends_asks h state.it state.noImproveIt s

theorem ends_step (state : SA.State K) (s : SA.Fields × World K) :
    Ends (this.step context state) s fun state' _ => state'.it = increment state.it := by
  unfold SA.step
  apply Ends.after
  intro _ s
  exact .ret rfl

/-- The iterations count the neighbours; the outer loop starts a temperature anew. -/
def Counts (n : ℕ) (loop : Loop) (state : SA.State K) : Prop :=
  state.it ≤ n ∧ (loop = .outer → state.temperatureIt = 0)

theorem counts {n : ℕ} {loop : Loop} {state : SA.State K} {s : SA.Fields × World K}
    (h : Walks this context temperatureSA initial ⟨temperature, 0, 0, 0⟩ s₀ n loop state s) :
    Counts n loop state := by
  refine h.keeps (I := fun n loop state _ => Counts n loop state) ?_ ?_ ?_ ?_
  · exact ⟨le_rfl, fun _ => rfl⟩
  · intro n state s s' hcounts _
    exact ⟨hcounts.1, fun h => by cases h⟩
  · intro n state state' s s' s'' hcounts _ hdone
    have hit := ends_step state s' state' s'' hdone
    have hle := increment_le state.it
    refine ⟨?_, fun h => by cases h⟩
    have hbefore := hcounts.1
    omega
  · intro n state s s' hcounts _
    exact ⟨hcounts.1, fun _ => rfl⟩

/-- What a run with iterations at a temperature does after `n` neighbours: it is over, it
stands where something does not return, or it comes to another neighbour. -/
def GoesOn (this : SA K) (context : Context) (temperatureSA : Temperature K)
    (initial temperature : JDouble K) (s₀ : SA.Fields × World K) (n : ℕ) : Prop :=
  OverWithin this context temperatureSA initial ⟨temperature, 0, 0, 0⟩ s₀ n ∨
    LeavesWithin (fun e => ¬Thrown e) this context temperatureSA initial ⟨temperature, 0, 0, 0⟩
      s₀ n ∨
    ∃ loop state s,
      Walks this context temperatureSA initial ⟨temperature, 0, 0, 0⟩ s₀ (n + 1) loop state s

theorem goesOn_eq (hlimit : LimitedTo N this.stopCondition this.metaHeuristicParameters)
    (state : SA.State K) {s : SA.Fields × World K} {current : Solution K}
    (hcurrent : s.2.solutions[s.1.currentSolution]? = some current) :
    ∃ s', this.goesOn state s = .ok (decide (state.it ≤ N)) s' ∧ s'.1 = s.1 ∧
      s'.2.solutions = s.2.solutions := by
  have hderef := deref_eq hcurrent
  refine ⟨(s.1, { s.2 with clock := fun n => s.2.clock (n + 1) }), ?_, rfl, rfl⟩
  simp [SA.goesOn, isSatisfied, hlimit.condition, StopCondition.isSatisfied, hlimit.limit, call,
    onState, fields, getFunctionValue, getTime, Bind.bind, EStateM.bind, hderef, nonNull,
    Pure.pure, EStateM.pure, get_state, modifyGet, MonadStateOf.modifyGet, EStateM.modifyGet,
    not_decide_lt]

end Neighbours

/-! ## All loops -/

section Methods

variable {K : Type} [RealArith K] {F β : Type}

end Methods

/-! ## Example runs -/

section Example

open DifferentialEvolution (exampleEvolution exampleParameters exampleWorld)

end Example

end DOptimas.Proofs.IterationLimit
