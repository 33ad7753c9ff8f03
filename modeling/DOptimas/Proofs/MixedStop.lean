import DOptimas.Heuristics.StopConditions
import DOptimas.Proofs.DifferentialEvolution
/-!
# The mixed stop condition

It is meant to be the disjunction of the three conditions with a limit.  It fails
as soon as the iterations have a limit, because it compares with a field that is
never assigned, and it does not look at the time where it has looked at the
iterations without improvement.
-/

namespace DOptimas.Proofs.MixedStop

open DOptimas.Support DOptimas.Heuristics DOptimas.Heuristics.StopCondition

variable {K : Type} [RealArith K]

/-- The iterations have no limit, and the limit of the time does not stand alone
against the limit of the iterations without improvement. -/
def Unshadowed (c : Call K) : Prop :=
  c.metaHeuristicParameters.maxIterations = none ∧
    ∀ limit time, c.metaHeuristicParameters.maxIterationsWI = some limit →
      c.metaHeuristicParameters.time = some time → time < c.stopTime → limit < c.maxIterationsWI

/-- Some simple condition is satisfied, on instances with any fields. -/
def SomeSatisfied (c : Call K) (f₁ f₂ f₃ : Fields K) : Prop :=
  returned (maxIterations.answer c f₁) = .ok true ∨
    returned (maxIterationsWithoutImprove.answer c f₂) = .ok true ∨
    returned (StopCondition.time.answer c f₃) = .ok true

theorem someSatisfied_iff (c : Call K) (f₁ f₂ f₃ : Fields K) :
    SomeSatisfied c f₁ f₂ f₃ ↔
      (∃ limit, c.metaHeuristicParameters.maxIterations = some limit ∧ limit < c.maxIterations) ∨
      (∃ limit, c.metaHeuristicParameters.maxIterationsWI = some limit ∧
        limit < c.maxIterationsWI) ∨
      ∃ limit, c.metaHeuristicParameters.time = some limit ∧ limit < c.stopTime := by
  have hany : ∀ {α : Type} (o : Option α) (p : α → Prop) [DecidablePred p],
      (Except.ok (o.any fun a => p a) : Except Exception Bool) = .ok true ↔
        ∃ a, o = some a ∧ p a := by
    intro α o p _
    cases o with
    | none => simp
    | some a => simp
  rw [SomeSatisfied, answer_maxIterations, answer_maxIterationsWithoutImprove, answer_time, hany,
    hany, hany]

theorem mixed_iff (c : Call K) :
    c.mixed = true ↔
      (∃ limit, c.metaHeuristicParameters.maxIterationsWI = some limit ∧
        limit < c.maxIterationsWI) ∨
      c.metaHeuristicParameters.maxIterationsWI = none ∧
        ∃ limit, c.metaHeuristicParameters.time = some limit ∧ limit < c.stopTime := by
  unfold Call.mixed
  cases c.metaHeuristicParameters.maxIterationsWI with
  | some limit => simp
  | none =>
      cases c.metaHeuristicParameters.time with
      | some limit => simp
      | none => simp

/-- After any sequence of calls on one instance, the mixed condition returns what the
three simple ones say together if and only if no limit of it is shadowed. -/
theorem mix_agrees_iff {f : Fields K} (hf : Reached K mix f) (c : Call K)
    (f₁ f₂ f₃ : Fields K) :
    (∃ b, returned (mix.answer c f) = .ok b ∧ (b = true ↔ SomeSatisfied c f₁ f₂ f₃)) ↔
      Unshadowed c := by
  rw [someSatisfied_iff]
  constructor
  · rintro ⟨b, hanswer, hagrees⟩
    have hnone : c.metaHeuristicParameters.maxIterations = none := by
      cases hlimit : c.metaHeuristicParameters.maxIterations with
      | none => rfl
      | some limit =>
          rw [answer_mix_fails hf.maxIterations_eq hlimit] at hanswer
          cases hanswer
    refine ⟨hnone, fun limit time hlimit htime hlate => ?_⟩
    rw [returned_of_sets (sets_mixed hnone)] at hanswer
    obtain rfl : c.mixed = b := Except.ok.inj hanswer
    have hmixed := hagrees.2 (Or.inr (Or.inr ⟨time, htime, hlate⟩))
    rcases (mixed_iff c).1 hmixed with ⟨limit', hlimit', hlt⟩ | ⟨hmissing, -⟩
    · rw [hlimit] at hlimit'
      rwa [← Option.some.inj hlimit'] at hlt
    · rw [hlimit] at hmissing
      cases hmissing
  · rintro ⟨hnone, hshadow⟩
    refine ⟨c.mixed, returned_of_sets (sets_mixed hnone) f, ?_⟩
    rw [mixed_iff, hnone]
    constructor
    · rintro (hwi | ⟨-, htime⟩)
      · exact Or.inr (Or.inl hwi)
      · exact Or.inr (Or.inr htime)
    · rintro (⟨limit, hlimit, -⟩ | hwi | ⟨time, htime, hlate⟩)
      · cases hlimit
      · exact Or.inl hwi
      · cases hlimit : c.metaHeuristicParameters.maxIterationsWI with
        | none => exact Or.inr ⟨rfl, time, htime, hlate⟩
        | some limit => exact Or.inl ⟨limit, rfl, hshadow limit time hlimit htime hlate⟩

section Example

open DifferentialEvolution (exampleParameters)

def limitedCall : Call ℚ :=
  { stopTime := 0, maxIterations := 0, maxIterationsWI := 0
    metaHeuristicParameters := { exampleParameters with maxIterations := some 10 } }

def lateCall : Call ℚ :=
  { stopTime := 60, maxIterations := 0, maxIterationsWI := 0
    metaHeuristicParameters := { exampleParameters with
      maxIterations := none, maxIterationsWI := some 5, time := some 30 } }

/-- A limit of the iterations makes the condition fail at once, and a limit of the time
is ignored next to the other one. -/
theorem mix_fails_and_ignores_time :
    returned (mix.answer limitedCall Fields.new) = .error .nullPointer ∧
    returned (maxIterations.answer limitedCall Fields.new) = .ok false ∧
    returned (mix.answer lateCall Fields.new) = .ok false ∧
    returned (StopCondition.time.answer lateCall Fields.new) = .ok true := by
  decide +kernel

theorem mix_agrees_iff_example :
    (∃ b, returned (mix.answer lateCall Fields.new) = .ok b ∧
      (b = true ↔ SomeSatisfied lateCall Fields.new Fields.new Fields.new)) ↔
      Unshadowed lateCall :=
  mix_agrees_iff .new lateCall Fields.new Fields.new Fields.new

end Example

end DOptimas.Proofs.MixedStop
