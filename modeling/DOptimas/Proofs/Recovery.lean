import DOptimas.Actors.RegionInvariant
import DOptimas.Support.Rational
/-!
# Recovery of a region actor

A restarted region actor is compared with the one that was not restarted.  The
snapshot holds the region, the leader and the global summary; the problem comes
with `CreateRegion` alone, so the recovered actor throws on the first message
that names the problem.
-/

namespace DOptimas.Proofs.Recovery

open DOptimas.Support DOptimas.Core DOptimas.Actors DOptimas.Actors.RegionActor

variable {K : Type} [RealArith K] [CommonsMath K] {n m : ℕ}

structure Input (K : Type) (n m : ℕ) where
  choices : List ℕ
  sender : ActorRef n m
  message : Message K n m

def handle (id : Fin n) (s : RegionActor K n m) (i : Input K n m) :
    Process Failure (RegionActor K n m) (ActorRef n m) (Message K n m) Unit :=
  receive id i.choices i.sender i.message s

def advance (id : Fin n) (s : RegionActor K n m) (i : Input K n m) :
    Option (RegionActor K n m) :=
  match (handle id s i).outcome with
  | .done _ t => some t
  | _ => none

def processed (id : Fin n) : RegionActor K n m → List (Input K n m) → Option (RegionActor K n m)
  | s, [] => some s
  | s, i :: is => (advance id s i).bind fun t => processed id t is

/-- What an observer sees of the handling of one message. -/
structure Observation (K : Type) (n m : ℕ) where
  replies : List (Sending (ActorRef n m) (Message K n m))
  failure : Option Failure
  region : Option (Region K)

def observe (id : Fin n) (s : RegionActor K n m) (i : Input K n m) :
    Observation K n m × RegionActor K n m :=
  match (handle id s i).outcome with
  | .done _ t => (⟨(handle id s i).sent, none, t.region⟩, t)
  | .failed e t => (⟨(handle id s i).sent, some e, (recover t).region⟩, recover t)
  | _ => (⟨(handle id s i).sent, none, s.region⟩, s)

/-- The observations along a sequence of messages, through further restarts. -/
def transcript (id : Fin n) : RegionActor K n m → List (Input K n m) → List (Observation K n m)
  | _, [] => []
  | s, i :: is => (observe id s i).1 :: transcript id (observe id s i).2 is

def held (s : RegionActor K n m) : List (Solution K) :=
  match s.region with
  | none => []
  | some r => r.solutionList

/-- The recovered incarnation of `s` stands in for `s`: it holds the same
solutions and handles every continuation alike. -/
structure Simulates (id : Fin n) (s : RegionActor K n m) : Prop where
  held : held (recover s) = held s
  handled : ∀ is, transcript id (recover s) is = transcript id s is

/-! ## What a processed message leaves behind -/

theorem advance_sound {id : Fin n} {s t : RegionActor K n m} {i : Input K n m} (hs : Sound s)
    (h : advance id s i = some t) : Sound t ∧ t.problem = problemAfter s i.message := by
  have hcreating : Creating i.message := by
    by_contra hempty
    cases hm : i.message with
    | createRegion j settings solutions time p =>
        obtain rfl : solutions = [] := by simpa [hm, Creating] using hempty
        obtain ⟨t', hfail⟩ := onCreate_empty id i.sender (s := s) (p := p) settings time
        simp [advance, handle, hm, receive, hfail] at h
    | _ => simp [hm, Creating] at hempty
  have hend := (sat_receive id i.sender hs i.choices i.message
    hcreating).segment.2
  unfold advance handle at h
  split at h
  next u t' hout =>
    obtain rfl : t' = t := by simpa using h
    rw [hout] at hend
    exact hend
  · simp at h

theorem processed_sound {id : Fin n} {is : List (Input K n m)} {s t : RegionActor K n m}
    (hs : Sound s) (h : processed id s is = some t) : Sound t := by
  induction is generalizing s with
  | nil =>
      obtain rfl : s = t := by simpa [processed] using h
      exact hs
  | cons i is ih =>
      obtain ⟨u, hu, hrest⟩ := Option.bind_eq_some_iff.1 h
      exact ih (advance_sound hs hu).1 hrest

theorem processed_problem {id : Fin n} {is : List (Input K n m)} {s t : RegionActor K n m}
    (hs : Sound s) (hp : s.problem ≠ none) (h : processed id s is = some t) :
    t.problem ≠ none := by
  induction is generalizing s with
  | nil =>
      obtain rfl : s = t := by simpa [processed] using h
      exact hp
  | cons i is ih =>
      obtain ⟨u, hu, hrest⟩ := Option.bind_eq_some_iff.1 h
      obtain ⟨hsound, hproblem⟩ := advance_sound hs hu
      refine ih hsound ?_ hrest
      rw [hproblem]
      cases i.message <;> first | exact hp | simp [problemAfter]

theorem processed_append {id : Fin n} {is js : List (Input K n m)} {s t : RegionActor K n m}
    (h : processed id s (is ++ js) = some t) :
    ∃ u, processed id s is = some u ∧ processed id u js = some t := by
  induction is generalizing s with
  | nil => exact ⟨s, rfl, h⟩
  | cons i is ih =>
      obtain ⟨u, hu, hrest⟩ := Option.bind_eq_some_iff.1 h
      obtain ⟨v, hv, hjs⟩ := ih hrest
      exact ⟨v, by simp [processed, hu, hv], hjs⟩

/-! ## The recovered actor -/

/-- The update of the global summary that separates the two incarnations. -/
def summaryUpdate (sender : ActorRef n m) : Input K n m :=
  ⟨[], sender, .updateGlobalSummary 0 none 0 []⟩

/-- An actor that knows its problem handles the update, the recovered one throws. -/
theorem not_simulates_of_problem (id : Fin n) {s : RegionActor K n m} (hp : s.problem ≠ none) :
    ¬Simulates id s := by
  intro hsim
  obtain ⟨p, hp⟩ := Option.ne_none_iff_exists'.1 hp
  have hsame := hsim.handled [summaryUpdate (self id)]
  have hkept : observe id s (summaryUpdate (self id)) =
      (⟨[], none, s.region⟩, { s with globalSummary := none, time := 0 }) := by
    simp [observe, handle, summaryUpdate, receive, onUpdateGlobalSummary_some hp]
  have hlost : (observe id (recover s) (summaryUpdate (self id))).1.failure =
      some (.nullPointer .problem) := by
    simp [observe, handle, summaryUpdate, receive,
      onUpdateGlobalSummary_none (problem_recover s)]
  simp only [transcript, List.cons.injEq, and_true] at hsame
  rw [hsame, hkept] at hlost
  simp at hlost

/-- After the creation of a region and whatever messages it has processed since,
the incarnation that recovers from the last snapshot never simulates it. -/
theorem recovery_never_simulates (id : Fin n) (before after : List (Input K n m))
    (create : Input K n m) (settings : RegionSettings) (solutions : List (Solution K))
    (time : ℕ) (p : Problem) (s : RegionActor K n m)
    (hcreate : create.message = .createRegion id settings solutions time p)
    (h : processed id new (before ++ create :: after) = some s) : ¬Simulates id s := by
  obtain ⟨u, hu, hrest⟩ := processed_append h
  have hsound := processed_sound sound_new hu
  obtain ⟨v, hv, hafter⟩ := Option.bind_eq_some_iff.1 hrest
  obtain ⟨hvsound, hvproblem⟩ := advance_sound hsound hv
  have hvp : v.problem ≠ none := by
    rw [hvproblem, hcreate]
    simp [problemAfter]
  exact not_simulates_of_problem id (processed_problem hvsound hvp hafter)

section Example

def exampleProblem : Problem := ⟨1, 1, .benchmark⟩

def exampleSolution (id : ℕ) (x value : ℚ) : Solution ℚ :=
  { id, agent := none, solutionsVector := [some x], functionValue := some value
    viable := true, changed := false }

def exampleCreate : Input ℚ 1 0 :=
  ⟨[], .actor (.node 0),
    .createRegion ⟨0, Nat.zero_lt_one⟩ ⟨1, 10⟩ [exampleSolution 1 3 9] 1 exampleProblem⟩

def exampleStop : Input ℚ 1 0 := ⟨[], .actor (.node 0), .stopSimulation⟩

/-- A region that has been created and stopped: the recovered incarnation holds
a solution that the stopped one has cleared, and throws on the next update. -/
theorem recovery_example : ∃ s, processed 0 new [exampleCreate, exampleStop] = some s ∧
    held s = [] ∧ held (recover s) = [exampleSolution 1 3 9] ∧ ¬Simulates 0 s := by
  obtain ⟨s, hs⟩ := Option.isSome_iff_exists.1
    (show (processed 0 new [exampleCreate, exampleStop]).isSome by decide +kernel)
  have hfields : (processed 0 new [exampleCreate, exampleStop]).map
      (fun s => (held s, held (recover s), s.problem)) =
      some ([], [exampleSolution 1 3 9], some exampleProblem) := by decide +kernel
  rw [hs] at hfields
  obtain ⟨hheld, hrecovered, hproblem⟩ : held s = [] ∧
      held (recover s) = [exampleSolution 1 3 9] ∧ s.problem = some exampleProblem := by
    simpa using hfields
  exact ⟨s, hs, hheld, hrecovered, not_simulates_of_problem 0 (by simp [hproblem])⟩

theorem recovery_never_simulates_example :
    ∃ s, processed 0 new [exampleCreate, exampleStop] = some s ∧ ¬Simulates 0 s := by
  obtain ⟨s, hs⟩ := Option.isSome_iff_exists.1
    (show (processed 0 new [exampleCreate, exampleStop]).isSome by decide +kernel)
  exact ⟨s, hs, recovery_never_simulates 0 [] [exampleStop] exampleCreate _ _ _ _ s rfl hs⟩

end Example

end DOptimas.Proofs.Recovery
