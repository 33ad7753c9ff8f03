import DOptimas.Heuristics.Rules
/-!
# Stop conditions as objects

A metaheuristic asks one instance of its condition again and again.  The instance
assigns its fields at every call.  The mixed condition does not assign the field
with the limit of the iterations.
-/

namespace DOptimas.Heuristics

open DOptimas.Support

variable {K : Type} [RealArith K]

namespace StopCondition

/-- What an instance stores; a class has those of the fields that it reads. -/
structure Fields (K : Type) where
  isSatisfied : Bool
  maxIterations : Option ℤ
  maxIterationsWithoutImprove : Option ℤ
  time : K

structure Call (K : Type) [RealArith K] where
  stopTime : K
  maxIterations : ℤ
  maxIterationsWI : ℤ
  metaHeuristicParameters : MetaHeuristicParameters K

abbrev Instance (K : Type) := EStateM Exception (Fields K)

def Fields.new : Fields K := ⟨false, none, none, 0⟩

def unboxed {α : Type} : Option α → Instance K α
  | some a => return a
  | none => throw .nullPointer

def satisfy (condition : Bool) : Instance K Unit :=
  if condition then modify fun f => { f with isSatisfied := true } else return

def checkMaxIterations (c : Call K) (limit : ℤ) : Instance K Unit := do
  modify fun f => { f with maxIterations := some limit }
  satisfy (decide ((← unboxed (← get).maxIterations) < c.maxIterations))

/-- The limit is assigned to the parameter in the place of the field. -/
def checkMixedMaxIterations (limit : ℤ) : Instance K Unit := do
  let maxIterations := limit
  satisfy (decide ((← unboxed (← get).maxIterations) < maxIterations))

def checkMaxIterationsWithoutImprove (c : Call K) (limit : ℤ) : Instance K Unit := do
  modify fun f => { f with maxIterationsWithoutImprove := some limit }
  satisfy (decide ((← unboxed (← get).maxIterationsWithoutImprove) < c.maxIterationsWI))

def checkTime (c : Call K) (limit : K) : Instance K Unit := do
  modify fun f => { f with time := limit }
  satisfy (decide ((← get).time < c.stopTime))

def check (c : Call K) : StopCondition → Instance K Unit
  | maxIterations =>
      match c.metaHeuristicParameters.maxIterations with
      | some limit => checkMaxIterations c limit
      | none => return
  | maxIterationsWithoutImprove =>
      match c.metaHeuristicParameters.maxIterationsWI with
      | some limit => checkMaxIterationsWithoutImprove c limit
      | none => return
  | time =>
      match c.metaHeuristicParameters.time with
      | some limit => checkTime c limit
      | none => return
  | mix =>
      match c.metaHeuristicParameters.maxIterations with
      | some limit => checkMixedMaxIterations limit
      | none =>
          match c.metaHeuristicParameters.maxIterationsWI with
          | some limit => checkMaxIterationsWithoutImprove c limit
          | none =>
              match c.metaHeuristicParameters.time with
              | some limit => checkTime c limit
              | none => return
  | f0 => return

def answer (s : StopCondition) (c : Call K) : Instance K Bool := do
  modify fun f => { f with isSatisfied := false }
  check c s
  return (← get).isSatisfied

/-- The fields of an instance after any sequence of calls. -/
inductive Reached (K : Type) [RealArith K] (s : StopCondition) : Fields K → Prop
  | new : Reached K s Fields.new
  | answered {f f' : Fields K} {c : Call K} {b : Bool} (before : Reached K s f)
      (h : s.answer c f = .ok b f') : Reached K s f'
  | failed {f f' : Fields K} {c : Call K} {e : Exception} (before : Reached K s f)
      (h : s.answer c f = .error e f') : Reached K s f'

def returned {ε σ α : Type} : EStateM.Result ε σ α → Except ε α
  | .ok a _ => .ok a
  | .error e _ => .error e

/-- The check sets the flag if `condition` holds, and leaves the limit of the
iterations alone if `keeps`. -/
def Sets (condition keeps : Bool) (p : Instance K Unit) : Prop :=
  ∀ f, ∃ f', p f = .ok () f' ∧ f'.isSatisfied = (condition || f.isSatisfied) ∧
    (keeps → f'.maxIterations = f.maxIterations)

section Checks

variable {c : Call K} {f : Fields K} {keeps : Bool}

omit [RealArith K] in
theorem satisfy_eq (condition : Bool) (f : Fields K) :
    satisfy condition f = .ok () { f with isSatisfied := condition || f.isSatisfied } := by
  cases condition with
  | true => rfl
  | false => rfl

omit [RealArith K] in
theorem sets_false : Sets false keeps (pure () : Instance K Unit) := by
  intro f
  exact ⟨f, rfl, by simp, fun _ => rfl⟩

theorem sets_maxIterations (limit : ℤ) :
    Sets (limit < c.maxIterations) false (checkMaxIterations c limit) := by
  intro f
  exact ⟨_, satisfy_eq _ { f with maxIterations := some limit }, rfl, by simp⟩

theorem sets_maxIterationsWithoutImprove (limit : ℤ) :
    Sets (limit < c.maxIterationsWI) keeps (checkMaxIterationsWithoutImprove c limit) := by
  intro f
  exact ⟨_, satisfy_eq _ { f with maxIterationsWithoutImprove := some limit }, rfl, fun _ => rfl⟩

theorem sets_time (limit : K) : Sets (limit < c.stopTime) keeps (checkTime c limit) := by
  intro f
  exact ⟨_, satisfy_eq _ { f with time := limit }, rfl, fun _ => rfl⟩

omit [RealArith K] in
theorem checkMixedMaxIterations_eq (limit : ℤ) (hf : f.maxIterations = none) :
    checkMixedMaxIterations limit f = .error .nullPointer f := by
  have hthrows : (unboxed f.maxIterations : Instance K ℤ) f = .error .nullPointer f := by
    rw [hf]
    rfl
  unfold checkMixedMaxIterations
  rw [bind_of_ok (show (get : Instance K (Fields K)) f = .ok f f from rfl)]
  exact bind_of_error hthrows

end Checks

section Answers

variable {s : StopCondition} {c : Call K} {f : Fields K} {condition keeps : Bool}

theorem answer_of_sets (h : Sets condition keeps (check c s)) :
    ∃ f', s.answer c f = .ok condition f' ∧ (keeps → f'.maxIterations = f.maxIterations) := by
  obtain ⟨f', hcheck, hflag, hkeeps⟩ := h { f with isSatisfied := false }
  rw [Bool.or_false] at hflag
  refine ⟨f', ?_, hkeeps⟩
  have hcleared : (modify fun f => { f with isSatisfied := false } : Instance K Unit) f =
      .ok () { f with isSatisfied := false } := rfl
  rw [answer, bind_of_ok hcleared, bind_of_ok hcheck, ← hflag]
  rfl

theorem returned_of_sets (h : Sets condition keeps (check c s)) (f : Fields K) :
    returned (s.answer c f) = .ok condition := by
  obtain ⟨f', hanswer, -⟩ := answer_of_sets (f := f) h
  rw [hanswer]
  rfl

theorem answer_maxIterations (c : Call K) (f : Fields K) :
    returned (maxIterations.answer c f) =
      .ok (c.metaHeuristicParameters.maxIterations.any fun limit => limit < c.maxIterations) := by
  have hsets : Sets
      (c.metaHeuristicParameters.maxIterations.any fun limit => limit < c.maxIterations) false
      (check c maxIterations) := by
    unfold check
    cases c.metaHeuristicParameters.maxIterations with
    | none => exact sets_false
    | some limit => exact sets_maxIterations limit
  exact returned_of_sets hsets f

theorem answer_maxIterationsWithoutImprove (c : Call K) (f : Fields K) :
    returned (maxIterationsWithoutImprove.answer c f) =
      .ok (c.metaHeuristicParameters.maxIterationsWI.any fun limit =>
        limit < c.maxIterationsWI) := by
  have hsets : Sets
      (c.metaHeuristicParameters.maxIterationsWI.any fun limit => limit < c.maxIterationsWI) true
      (check c maxIterationsWithoutImprove) := by
    unfold check
    cases c.metaHeuristicParameters.maxIterationsWI with
    | none => exact sets_false
    | some limit => exact sets_maxIterationsWithoutImprove limit
  exact returned_of_sets hsets f

theorem answer_time (c : Call K) (f : Fields K) :
    returned (time.answer c f) =
      .ok (c.metaHeuristicParameters.time.any fun limit => limit < c.stopTime) := by
  have hsets : Sets (c.metaHeuristicParameters.time.any fun limit => limit < c.stopTime) true
      (check c time) := by
    unfold check
    cases c.metaHeuristicParameters.time with
    | none => exact sets_false
    | some limit => exact sets_time limit
  exact returned_of_sets hsets f

def Call.mixed (c : Call K) : Bool :=
  match c.metaHeuristicParameters.maxIterationsWI, c.metaHeuristicParameters.time with
  | some limit, _ => limit < c.maxIterationsWI
  | none, some limit => limit < c.stopTime
  | none, none => false

theorem sets_mixed (hnone : c.metaHeuristicParameters.maxIterations = none) :
    Sets c.mixed true (check c mix) := by
  unfold check Call.mixed
  rw [hnone]
  cases c.metaHeuristicParameters.maxIterationsWI with
  | some limit => exact sets_maxIterationsWithoutImprove limit
  | none =>
      cases c.metaHeuristicParameters.time with
      | some limit => exact sets_time limit
      | none => exact sets_false

/-- The mixed condition fails on a limit of the iterations. -/
theorem answer_mix_fails {limit : ℤ} (hf : f.maxIterations = none)
    (hsome : c.metaHeuristicParameters.maxIterations = some limit) :
    mix.answer c f = .error .nullPointer { f with isSatisfied := false } := by
  have hcleared : (modify fun f => { f with isSatisfied := false } : Instance K Unit) f =
      .ok () { f with isSatisfied := false } := rfl
  have hfails : check c mix { f with isSatisfied := false } =
      .error .nullPointer { f with isSatisfied := false } := by
    unfold check
    rw [hsome]
    exact checkMixedMaxIterations_eq limit hf
  rw [answer, bind_of_ok hcleared, bind_of_error hfails]

theorem Reached.maxIterations_eq (h : Reached K mix f) : f.maxIterations = none := by
  have hcall : ∀ {f : Fields K} (c : Call K), f.maxIterations = none →
      (∃ f', mix.answer c f = .ok c.mixed f' ∧ f'.maxIterations = none) ∨
        mix.answer c f = .error .nullPointer { f with isSatisfied := false } := by
    intro f c hf
    cases hlimit : c.metaHeuristicParameters.maxIterations with
    | some limit => exact Or.inr (answer_mix_fails hf hlimit)
    | none =>
        obtain ⟨f', hanswer, hkeeps⟩ := answer_of_sets (f := f) (sets_mixed hlimit)
        exact Or.inl ⟨f', hanswer, (hkeeps rfl).trans hf⟩
  induction h with
  | new => rfl
  | @answered f f' c b _ h ih =>
      rcases hcall c ih with ⟨g, hanswer, hg⟩ | hfails
      · rw [hanswer] at h
        cases h
        exact hg
      · rw [hfails] at h
        cases h
  | @failed f f' c e _ h ih =>
      rcases hcall c ih with ⟨g, hanswer, -⟩ | hfails
      · rw [hanswer] at h
        cases h
      · rw [hfails] at h
        cases h
        exact ih

theorem answer_refines (s : StopCondition) (c : Call K) (w : World K) (hf : Reached K s f) :
    returned (s.answer c f) =
      returned (s.isSatisfied c.stopTime c.maxIterations c.maxIterationsWI
        c.metaHeuristicParameters w) := by
  cases s with
  | maxIterations =>
      rw [answer_maxIterations]
      unfold isSatisfied
      cases c.metaHeuristicParameters.maxIterations with
      | none => rfl
      | some limit => rfl
  | maxIterationsWithoutImprove =>
      rw [answer_maxIterationsWithoutImprove]
      unfold isSatisfied
      cases c.metaHeuristicParameters.maxIterationsWI with
      | none => rfl
      | some limit => rfl
  | time =>
      rw [answer_time]
      unfold isSatisfied
      cases c.metaHeuristicParameters.time with
      | none => rfl
      | some limit => rfl
  | mix =>
      cases hlimit : c.metaHeuristicParameters.maxIterations with
      | some limit =>
          rw [answer_mix_fails hf.maxIterations_eq hlimit]
          simp only [isSatisfied, hlimit]
          rfl
      | none =>
          rw [returned_of_sets (sets_mixed hlimit)]
          simp only [isSatisfied, hlimit, Call.mixed]
          cases c.metaHeuristicParameters.maxIterationsWI with
          | some limit => rfl
          | none =>
              cases c.metaHeuristicParameters.time with
              | some limit => rfl
              | none => rfl
  | f0 => rfl

end Answers

end StopCondition

end DOptimas.Heuristics
