import DOptimas.Heuristics.Annealing
import DOptimas.Proofs.SoundSolutions
/-!
# One step of simulated annealing

A neighbour of the current solution is built, evaluated and weighed.  The best
solution is replaced only by neighbours that are better than the current one.
-/

namespace DOptimas.Proofs.AnnealingSteps

open DOptimas.Support DOptimas.Heuristics
open DOptimas.Core (SolutionAnalyser)
open DifferentialEvolution (Computes Carries)
open SoundSolutions

variable {K : Type} [RealArith K]

/-- The annealing of a function problem, or of a benchmark problem with a deterministic
function. -/
inductive Anneals (this : SA K) : (List (Option (Element K)) → K) → Prop where
  | function (p : FunctionProblem K) (modifier : Option RealModifier)
      (problem : this.problem = p.toProblem) (analyser : this.solutionAnalyser = .function)
      (neighbours : this.solutionModifier = modifier.map (RealModifier.toSolutionModifier p)) :
      Anneals this (valueAt p)
  | benchmark (p : BenchmarkProblem K) (modifier : Option (BenchmarkModifier K))
      (f : List (Option (Element K)) → K) (problem : this.problem = p.toProblem)
      (analyser : this.solutionAnalyser = .benchmark)
      (neighbours : this.solutionModifier = modifier.map BenchmarkModifier.toSolutionModifier)
      (computes : Computes p.toProblem f) : Anneals this f

section Parts

variable {this : SA K} {f : List (Option (Element K)) → K}

theorem Anneals.computes (h : Anneals this f) : Computes this.problem f := by
  cases h with
  | function p _ problem => exact problem ▸ computes_valueAt p
  | benchmark p _ _ problem _ _ computes => exact problem ▸ computes

theorem Anneals.varies (h : Anneals this f) {m : SolutionModifier K}
    (hm : this.solutionModifier = some m) : m.Varies this.problem fun _ => True := by
  cases h with
  | function p modifier problem _ neighbours =>
      rw [neighbours] at hm
      obtain ⟨modifier, rfl, rfl⟩ := Option.map_eq_some_iff.1 hm
      rw [problem]
      exact modifier.varies p
  | benchmark p modifier _ _ _ neighbours =>
      rw [neighbours] at hm
      obtain ⟨modifier, rfl, rfl⟩ := Option.map_eq_some_iff.1 hm
      exact modifier.varies _ fun _ _ _ _ => trivial

end Parts

section Neighbours

variable {this : SA K} {context : Context} {f : List (Option (Element K)) → K} {w w' : World K}
  {r nb best : Ref} {fields : SA.Fields}

def neighbour (this : SA K) (context : Context) (current : Ref) : Program K Ref := do
  let neighborsSolution ← modifySolution this.solutionModifier current 1
  let _ ← evaluate context neighborsSolution
  return neighborsSolution

theorem ends_neighbour (h : Anneals this f) (hr : Evaluated (Sound this.problem f) w r) :
    Ends (neighbour this context r) w fun nb w' => w.Grows (· = nb) w' ∧
      Judged (Valued this.problem f) w' nb ∧ (nb = r ∨ w.solutions.length ≤ nb) := by
  unfold neighbour modifySolution
  refine Ends.bind (Q := fun nb w' => w.Grows (fun _ => False) w' ∧ (nb = r ∨
    w.solutions.length ≤ nb ∧ Fresh this.problem (fun _ => True) w' nb ∧
      nb < w'.solutions.length)) ?_ ?_
  · refine (ends_nonNull _).bind ?_
    rintro m w ⟨hm, rfl⟩
    exact h.varies hm w r 1 (Sound.stands hr)
  · rintro nb w₁ ⟨hgrows, hor⟩
    have hready : Judged (Valued this.problem f) w₁ nb ∨
        Fresh this.problem (fun _ => True) w₁ nb := by
      rcases hor with rfl | ⟨-, hfresh, -⟩
      · exact Or.inl (hgrows.evaluated (Sound.valued hr)).judged
      · exact Or.inr hfresh
    refine (ends_evaluate_judged (establishes_valued h.computes) hready).bind ?_
    rintro - w₂ ⟨hgrows', hjudged⟩
    exact .ret ⟨(hgrows.any _).trans hgrows', hjudged, hor.imp_right fun hnew => hnew.1⟩

inductive Weighed (this : SA K) (temperature : JDouble K) (fields : SA.Fields) (best nb : Ref)
    (w₁ : World K) : SA.Fields → Prop where
  | refused (infeasible : ¬Viable w₁ nb) : Weighed this temperature fields best nb w₁ fields
  | recorded (viable : Viable w₁ nb)
      (better : w₁.precedes this.solutionAnalyser nb fields.currentSolution)
      (replaces : ¬w₁.keeps this.solutionAnalyser best nb)
      (other : w₁.vectorOf nb ≠ w₁.vectorOf best) :
      Weighed this temperature fields best nb w₁ ⟨nb, some nb⟩
  | followed (viable : Viable w₁ nb)
      (better : w₁.precedes this.solutionAnalyser nb fields.currentSolution)
      (stays : w₁.keeps this.solutionAnalyser best nb ∨ w₁.vectorOf nb = w₁.vectorOf best) :
      Weighed this temperature fields best nb w₁ ⟨nb, some best⟩
  | accepted {s} (viable : Viable w₁ nb)
      (worse : ¬w₁.precedes this.solutionAnalyser nb fields.currentSolution)
      (draw : SA.accepts this nb temperature (fields, w₁) = .ok true s) :
      Weighed this temperature fields best nb w₁ ⟨nb, some best⟩
  | rejected (viable : Viable w₁ nb)
      (worse : ¬w₁.precedes this.solutionAnalyser nb fields.currentSolution) :
      Weighed this temperature fields best nb w₁ fields

theorem ends_accepts (nb : Ref) (temperature : JDouble K) :
    Ends (SA.accepts this nb temperature) (fields, w) fun _ s =>
      s.1 = fields ∧ s.2.solutions = w.solutions := by
  unfold SA.accepts
  refine ends_call ((draws_solutions w).nextDouble rfl) ?_
  intro valX w₁ hw₁
  refine ends_call (ends_getFunctionValue nb) ?_
  rintro n v ⟨-, hv⟩
  subst v
  refine ends_call (ends_nonNull n) ?_
  rintro x v ⟨-, hv⟩
  subst v
  refine ends_fields ?_
  refine ends_call (ends_getFunctionValue _) ?_
  rintro c v ⟨-, hv⟩
  subst v
  refine ends_call (ends_nonNull c) ?_
  rintro y v ⟨-, hv⟩
  subst v
  exact .ret ⟨rfl, hw₁⟩

theorem ends_tryNeighbor (h : Anneals this f)
    (hcurrent : Evaluated (Sound this.problem f) w fields.currentSolution)
    (hbest : fields.bestSolution = some best) (temperature : JDouble K) (noImproveIt : ℤ) :
    Ends (SA.tryNeighbor this context temperature noImproveIt) (fields, w) fun _ s =>
      ∃ nb w₁, neighbour this context fields.currentSolution w = .ok nb w₁ ∧
        s.2.solutions = w₁.solutions ∧ Weighed this temperature fields best nb w₁ s.1 := by
  unfold SA.tryNeighbor
  refine ends_fields ?_
  dsimp only
  refine ends_call
    (Q := fun nb w₁ => modifySolution this.solutionModifier fields.currentSolution 1 w =
    .ok nb w₁) (fun nb w₁ hmodify => hmodify) ?_
  intro nb w₁ hmodify
  refine ends_call (Q := fun _ w₂ => neighbour this context fields.currentSolution w = .ok nb w₂)
    (fun value w₂ hevaluate => ?_) ?_
  · unfold neighbour
    rw [bind_of_ok hmodify, bind_of_ok hevaluate]
    rfl
  intro _ w₂ hneighbour
  obtain ⟨-, hjudged, -⟩ := ends_neighbour h hcurrent nb w₂ hneighbour
  refine ends_call (ends_isViable_again hjudged) ?_
  rintro viable v ⟨hviable, hv⟩
  subst v
  split
  next hflag =>
    have hflagged := hviable.1 hflag
    refine ends_call (ends_compare_precedes _ _ _) ?_
    rintro c v ⟨hc, hv⟩
    subst v
    split
    next hneg =>
      refine ends_setFields ?_
      refine ends_fields ?_
      refine ends_call (ends_nonNull _) ?_
      rintro b v ⟨hb, hv⟩
      subst v
      obtain rfl : best = b := Option.some.inj (hbest.symm.trans hb)
      refine ends_call (ends_getBestSolution_keeps _ _ _) ?_
      rintro newBest v ⟨hv, hnew, -⟩
      subst v
      refine ends_call (ends_equals_vectorOf _ _) ?_
      rintro same v ⟨hsame, hv⟩
      subst v
      by_cases hkeeps : w₂.keeps this.solutionAnalyser best nb = true
      · rw [if_pos hkeeps] at hnew
        rw [hnew] at hsame ⊢
        rw [if_pos (hsame.2 rfl), hbest]
        exact .ret ⟨nb, w₂, hneighbour, rfl, .followed hflagged (hc.1 hneg) (Or.inl hkeeps)⟩
      · rw [if_neg hkeeps] at hnew
        rw [hnew] at hsame ⊢
        split
        next heq =>
          rw [hbest]
          exact .ret ⟨nb, w₂, hneighbour, rfl,
            .followed hflagged (hc.1 hneg) (Or.inr (hsame.1 heq))⟩
        next hne =>
          refine ends_setFields (.ret ⟨nb, w₂, hneighbour, rfl, ?_⟩)
          exact .recorded hflagged (hc.1 hneg) hkeeps fun heq => hne (hsame.2 heq)
    next hneg =>
      have hworse : ¬w₂.precedes this.solutionAnalyser nb fields.currentSolution :=
        fun hp => hneg (hc.2 hp)
      refine Ends.bind
        (Q := fun took s => SA.accepts this nb temperature (fields, w₂) = .ok took s ∧
        s.1 = fields ∧ s.2.solutions = w₂.solutions)
        (fun took s hdraw => ⟨hdraw, ends_accepts nb temperature took s hdraw⟩) ?_
      rintro took ⟨_, w₃⟩ ⟨hdraw, rfl, hw₃⟩
      cases took with
      | true =>
          refine ends_setFields (.ret ⟨nb, w₂, hneighbour, hw₃, ?_⟩)
          rw [hbest]
          exact .accepted hflagged hworse hdraw
      | false => exact .ret ⟨nb, w₂, hneighbour, hw₃, .rejected hflagged hworse⟩
  next hflag =>
    exact .ret ⟨nb, w₂, hneighbour, rfl, .refused fun hv => hflag (hviable.2 hv)⟩

end Neighbours

section Steps

variable {this : SA K} {context : Context} {f : List (Option (Element K)) → K}
  {w₀ w w₁ w' : World K}
  {first nb best : Ref} {fields fields' : SA.Fields} {temperature : JDouble K}

structure Head (this : SA K) (f : List (Option (Element K)) → K) (w₀ : World K)
    (fields : SA.Fields) (w : World K) (best : Ref) : Prop where
  stored : fields.bestSolution = some best
  sound : Evaluated (Sound this.problem f) w best
  current : Evaluated (Sound this.problem f) w fields.currentSolution
  new_best : w₀.solutions.length ≤ best
  new_current : w₀.solutions.length ≤ fields.currentSolution
  grows : w₀.Grows (fun r => w₀.solutions.length ≤ r) w
  visited : ∀ t, w₀.solutions.length ≤ t → Viable w t → Evaluated (Sound this.problem f) w t

/-- The best solution is at least as good as the start and, up to the slack, as every
viable solution that was visited. -/
structure Covers (this : SA K) (w₀ : World K) (first : Ref) (fields : SA.Fields) (w : World K)
    (best : Ref) : Prop where
  current : w.value best ≤ w.value fields.currentSolution
  start : w.value best ≤ w₀.value first
  visited : ∀ t, w₀.solutions.length ≤ t → Viable w t →
    w.value best ≤ w.value t + this.solutionAnalyser.slack

/-- The step finds a neighbour that replaces the best solution. -/
def Replaces (this : SA K) (context : Context) (s : SA.Fields × World K) : Prop :=
  ∃ nb w₁ best, neighbour this context s.1.currentSolution s.2 = .ok nb w₁ ∧
    s.1.bestSolution = some best ∧ Viable w₁ nb ∧
    w₁.precedes this.solutionAnalyser nb s.1.currentSolution ∧
    ¬w₁.keeps this.solutionAnalyser best nb ∧ w₁.vectorOf nb ≠ w₁.vectorOf best

/-- No better best solution is lost: the neighbour that replaces it is not worse, and one
that is accepted without counting as better is not better than it. -/
def Faithful (this : SA K) (context : Context) (temperature : JDouble K)
    (s : SA.Fields × World K) : Prop :=
  ∀ nb w₁ best, neighbour this context s.1.currentSolution s.2 = .ok nb w₁ →
    s.1.bestSolution = some best → Viable w₁ nb →
    (w₁.precedes this.solutionAnalyser nb s.1.currentSolution →
      ¬w₁.keeps this.solutionAnalyser best nb → w₁.value nb ≤ w₁.value best) ∧
    (¬w₁.precedes this.solutionAnalyser nb s.1.currentSolution →
      (∃ s', SA.accepts this nb temperature (s.1, w₁) = .ok true s') →
      w₁.value best ≤ w₁.value nb)

theorem Head.length_le (h : Head this f w₀ fields w best) :
    w₀.solutions.length ≤ w.solutions.length :=
  h.grows.length_le fun _ hr hle => absurd hr (not_lt.2 hle)

theorem Head.grown (h : Head this f w₀ fields w best) (hgrows : w.Grows (fun _ => False) w') :
    Head this f w₀ fields w' best :=
  { stored := h.stored
    sound := hgrows.evaluated h.sound
    current := hgrows.evaluated h.current
    new_best := h.new_best
    new_current := h.new_current
    grows := h.grows.trans (hgrows.any _)
    visited := fun t ht hv => hgrows.evaluated (h.visited t ht (hgrows.viable_before t hv)) }

theorem Head.drawn {s s' : SA.Fields × World K} (h : Head this f w₀ s.1 s.2 best)
    (hs : s'.1 = s.1 ∧ s'.2.solutions = s.2.solutions) :
    Head this f w₀ s'.1 s'.2 best ∧ (Viable s'.2 best ↔ Viable s.2 best) := by
  have hgrows : s.2.Grows (fun _ => False) s'.2 := .of_eq _ hs.2
  rw [hs.1]
  exact ⟨h.grown hgrows, hgrows.viable_iff h.sound⟩

theorem Covers.grown (h : Covers this w₀ first fields w best) (hhead : Head this f w₀ fields w best)
    (hgrows : w.Grows (fun _ => False) w') : Covers this w₀ first fields w' best := by
  have hbest := hgrows.value_eq hhead.sound
  refine ⟨?_, ?_, fun t ht hv => ?_⟩
  · rw [hbest, hgrows.value_eq hhead.current]
    exact h.current
  · rw [hbest]
    exact h.start
  · have hbefore := hgrows.viable_before t hv
    rw [hbest, hgrows.value_eq (hhead.visited t ht hbefore)]
    exact h.visited t ht hbefore

theorem Covers.drawn {s s' : SA.Fields × World K} (h : Covers this w₀ first s.1 s.2 best)
    (hhead : Head this f w₀ s.1 s.2 best)
    (hs : s'.1 = s.1 ∧ s'.2.solutions = s.2.solutions) : Covers this w₀ first s'.1 s'.2 best := by
  have hgrows : s.2.Grows (fun _ => False) s'.2 := .of_eq _ hs.2
  rw [hs.1]
  exact h.grown hhead hgrows

theorem Head.built (h : Head this f w₀ fields w best)
    (hgrows : w.Grows (· = nb) w₁) (hjudged : Judged (Valued this.problem f) w₁ nb)
    (hnew : nb = fields.currentSolution ∨ w.solutions.length ≤ nb) :
    Head this f w₀ fields w₁ best ∧ w₀.solutions.length ≤ nb := by
  have hlength := h.length_le
  have hle : w₀.solutions.length ≤ nb := by
    rcases hnew with rfl | hnew
    · exact h.new_current
    · omega
  refine ⟨{ stored := h.stored, sound := hgrows.evaluated h.sound
            current := hgrows.evaluated h.current, new_best := h.new_best
            new_current := h.new_current, grows := h.grows.trans (hgrows.mono fun r hr => hr ▸ hle)
            visited := fun t ht hv => ?_ }, hle⟩
  rcases hgrows.viable_or hv with hold | rfl
  · exact hgrows.evaluated (h.visited t ht hold)
  · exact Valued.sound (hjudged.evaluated hv) hv

/-- A neighbour that is not better than the current solution is not much smaller. -/
theorem le_of_not_precedes (h : Head this f w₀ fields w₁ best)
    (hnb : Evaluated (Sound this.problem f) w₁ nb)
    (hworse : ¬w₁.precedes this.solutionAnalyser nb fields.currentSolution) :
    w₁.value fields.currentSolution ≤ w₁.value nb + this.solutionAnalyser.slack := by
  have hslack := SolutionAnalyser.slack_nonneg (K := K) this.solutionAnalyser
  by_cases hvector : w₁.vectorOf nb = w₁.vectorOf fields.currentSolution
  · have hvalue := value_eq_of_vectorOf (fun _ hs => hs.2.1) (fun _ hs => hs.2.1) hnb h.current
      hvector
    linarith
  · have hkeeps : ¬w₁.keeps this.solutionAnalyser nb fields.currentSolution :=
      fun hk => hworse ⟨hvector, hk⟩
    exact SolutionAnalyser.le_add_slack_of_not_keepsLeft hkeeps

theorem Head.weighed (h : Head this f w₀ fields w₁ best) (hnew : w₀.solutions.length ≤ nb)
    (hjudged : Judged (Valued this.problem f) w₁ nb)
    (hweighed : Weighed this temperature fields best nb w₁ fields') :
    ∃ best', Head this f w₀ fields' w₁ best' := by
  have hsound : Viable w₁ nb → Evaluated (Sound this.problem f) w₁ nb :=
    fun hv => Valued.sound (hjudged.evaluated hv) hv
  cases hweighed with
  | refused => exact ⟨best, h⟩
  | recorded hv =>
      exact ⟨nb, { h with stored := rfl, sound := hsound hv, current := hsound hv
                          new_best := hnew, new_current := hnew }⟩
  | followed hv =>
      exact ⟨best, { h with stored := rfl, current := hsound hv, new_current := hnew }⟩
  | accepted hv =>
      exact ⟨best, { h with stored := rfl, current := hsound hv, new_current := hnew }⟩
  | rejected => exact ⟨best, h⟩

theorem viable_weighed_iff {best' : Ref} (h : Head this f w₀ fields w₁ best)
    (hneighbour : neighbour this context fields.currentSolution w = .ok nb w₁)
    (hweighed : Weighed this temperature fields best nb w₁ fields')
    (hstored : fields'.bestSolution = some best') :
    Viable w₁ best' ↔ Viable w₁ best ∨ Replaces this context (fields, w) := by
  have hsame : fields'.bestSolution = some best → ¬Replaces this context (fields, w) →
      (Viable w₁ best' ↔ Viable w₁ best ∨ Replaces this context (fields, w)) := by
    intro hbest hnot
    rw [Option.some.inj (hstored.symm.trans hbest), or_iff_left hnot]
  have hother : ∀ {nb' v best''}, neighbour this context fields.currentSolution w = .ok nb' v →
      fields.bestSolution = some best'' → nb' = nb ∧ v = w₁ ∧ best'' = best := by
    intro nb' v best'' hn hb
    rw [hneighbour] at hn
    cases hn
    exact ⟨rfl, rfl, Option.some.inj (hb.symm.trans h.stored)⟩
  cases hweighed with
  | refused hnot =>
      refine hsame h.stored ?_
      rintro ⟨nb', v, best'', hn, hb, hviable, -⟩
      obtain ⟨rfl, rfl, -⟩ := hother hn hb
      exact hnot hviable
  | recorded hv hbetter hreplaces hdiffers =>
      rw [← Option.some.inj hstored]
      exact iff_of_true hv (Or.inr ⟨nb, w₁, best, hneighbour, h.stored, hv, hbetter, hreplaces,
        hdiffers⟩)
  | followed hv hbetter hstays =>
      refine hsame rfl ?_
      rintro ⟨nb', v, best'', hn, hb, -, -, hreplaces, hdiffers⟩
      obtain ⟨rfl, rfl, rfl⟩ := hother hn hb
      rcases hstays with hkeeps | hvector
      · exact hreplaces hkeeps
      · exact hdiffers hvector
  | accepted hv hworse =>
      refine hsame rfl ?_
      rintro ⟨nb', v, best'', hn, hb, -, hbetter, -⟩
      obtain ⟨rfl, rfl, -⟩ := hother hn hb
      exact hworse hbetter
  | rejected hv hworse =>
      refine hsame h.stored ?_
      rintro ⟨nb', v, best'', hn, hb, -, hbetter, -⟩
      obtain ⟨rfl, rfl, -⟩ := hother hn hb
      exact hworse hbetter

/-- Without a tolerance the best solution is never lost. -/
theorem faithful_of_not_tolerant (ha : ¬this.solutionAnalyser.Tolerant)
    (h : Head this f w₀ fields w₁ best)
    (hcurrent : w₁.value best ≤ w₁.value fields.currentSolution)
    (hjudged : Judged (Valued this.problem f) w₁ nb) (hv : Viable w₁ nb) :
    (¬w₁.keeps this.solutionAnalyser best nb → w₁.value nb ≤ w₁.value best) ∧
      (¬w₁.precedes this.solutionAnalyser nb fields.currentSolution →
        w₁.value best ≤ w₁.value nb) := by
  have hslack := SolutionAnalyser.slack_of_not_tolerant (K := K) ha
  constructor
  · intro hkeeps
    have hle := SolutionAnalyser.le_add_slack_of_not_keepsLeft hkeeps
    rwa [hslack, add_zero] at hle
  · intro hworse
    have hle := le_of_not_precedes h (Valued.sound (hjudged.evaluated hv) hv) hworse
    rw [hslack, add_zero] at hle
    exact hcurrent.trans hle

/-- A faithful step keeps the best solution at least as good as what was visited. -/
theorem covers_weighed {best' : Ref} (h : Head this f w₀ fields w best)
    (hcovers : Covers this w₀ first fields w best) (h₁ : Head this f w₀ fields w₁ best)
    (hgrows : w.Grows (· = nb) w₁) (hjudged : Judged (Valued this.problem f) w₁ nb)
    (hneighbour : neighbour this context fields.currentSolution w = .ok nb w₁)
    (hweighed : Weighed this temperature fields best nb w₁ fields')
    (hstored : fields'.bestSolution = some best')
    (hfaithful : ¬this.solutionAnalyser.Tolerant ∨ Faithful this context temperature (fields, w)) :
    Covers this w₀ first fields' w₁ best' := by
  have hbest := hgrows.value_eq h.sound
  have hcurrent : w₁.value best ≤ w₁.value fields.currentSolution := by
    rw [hbest, hgrows.value_eq h.current]
    exact hcovers.current
  have hstart : w₁.value best ≤ w₀.value first := hbest.trans_le hcovers.start
  have hothers : ∀ t, w₀.solutions.length ≤ t → Viable w₁ t → t ≠ nb →
      w₁.value best ≤ w₁.value t + this.solutionAnalyser.slack := by
    intro t ht hv hne
    have hold := (hgrows.viable_or hv).resolve_right hne
    rw [hbest, hgrows.value_eq (h.visited t ht hold)]
    exact hcovers.visited t ht hold
  have hrecords : Viable w₁ nb → w₁.precedes this.solutionAnalyser nb fields.currentSolution →
      ¬w₁.keeps this.solutionAnalyser best nb → w₁.value nb ≤ w₁.value best := by
    intro hv hbetter
    rcases hfaithful with ha | hfaithful
    · exact (faithful_of_not_tolerant ha h₁ hcurrent hjudged hv).1
    · exact (hfaithful nb w₁ best hneighbour h.stored hv).1 hbetter
  have haccepts : Viable w₁ nb → ¬w₁.precedes this.solutionAnalyser nb fields.currentSolution →
      (∃ s', SA.accepts this nb temperature (fields, w₁) = .ok true s') →
      w₁.value best ≤ w₁.value nb := by
    intro hv hworse hdraw
    rcases hfaithful with ha | hfaithful
    · exact (faithful_of_not_tolerant ha h₁ hcurrent hjudged hv).2 hworse
    · exact (hfaithful nb w₁ best hneighbour h.stored hv).2 hworse hdraw
  have hslack := SolutionAnalyser.slack_nonneg (K := K) this.solutionAnalyser
  have hsound : Viable w₁ nb → Evaluated (Sound this.problem f) w₁ nb :=
    fun hv => Valued.sound (hjudged.evaluated hv) hv
  -- the neighbour itself is covered as soon as the best solution is not far above it
  have hall : w₁.value best ≤ w₁.value nb + this.solutionAnalyser.slack ∨ ¬Viable w₁ nb →
      ∀ t, w₀.solutions.length ≤ t → Viable w₁ t →
        w₁.value best ≤ w₁.value t + this.solutionAnalyser.slack := by
    intro hnb t ht hv
    by_cases htnb : t = nb
    · subst htnb
      exact hnb.resolve_right fun hnot => hnot hv
    · exact hothers t ht hv htnb
  cases hweighed with
  | refused hnot =>
      obtain rfl := Option.some.inj (h.stored.symm.trans hstored)
      exact ⟨hcurrent, hstart, hall (Or.inr hnot)⟩
  | recorded hv hbetter hreplaces =>
      obtain rfl := Option.some.inj hstored
      have hle := hrecords hv hbetter hreplaces
      refine ⟨le_refl _, hle.trans hstart, fun t ht hvt => ?_⟩
      by_cases htnb : t = nb
      · subst htnb
        linarith
      · exact hle.trans (hothers t ht hvt htnb)
  | followed hv hbetter hstays =>
      obtain rfl := Option.some.inj hstored
      have hle : w₁.value best ≤ w₁.value nb := by
        rcases hstays with hkeeps | hvector
        · exact SolutionAnalyser.le_of_keepsLeft _ hkeeps
        · exact (value_eq_of_vectorOf (fun _ hs => hs.2.1) (fun _ hs => hs.2.1) (hsound hv) h₁.sound
            hvector).ge
      exact ⟨hle, hstart, hall (Or.inl (by linarith))⟩
  | accepted hv hworse hdraw =>
      obtain rfl := Option.some.inj hstored
      have hle := haccepts hv hworse ⟨_, hdraw⟩
      exact ⟨hle, hstart, hall (Or.inl (by linarith))⟩
  | rejected hv hworse =>
      obtain rfl := Option.some.inj (h.stored.symm.trans hstored)
      have hle := le_of_not_precedes h₁ (hsound hv) hworse
      exact ⟨hcurrent, hstart, hall (Or.inl (hcurrent.trans hle))⟩

end Steps

end DOptimas.Proofs.AnnealingSteps
