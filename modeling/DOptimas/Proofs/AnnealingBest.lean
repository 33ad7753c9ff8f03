import DOptimas.Proofs.AnnealingSteps
/-!
# The best solution of simulated annealing

With a tolerance it can drift: a neighbour that is worse by less than the tolerance
replaces it, and the current solution can leave it behind in small steps that do not
count as better.  It begins as a clone, which is not flagged as viable.
-/

namespace DOptimas.Proofs.AnnealingBest

open DOptimas.Support DOptimas.Heuristics
open SoundSolutions AnnealingSteps

variable {K : Type} [RealArith K]

section Runs

variable {this : SA K} {context : Context} {f : List (Option (Element K)) → K} {w₀ w w' : World K}
  {first best : Ref} {fields fields' : SA.Fields} {state state' : SA.State K}

theorem ends_goesOn (this : SA K) (state : SA.State K) :
    Ends (SA.goesOn this state) (fields, w) fun _ s =>
      s.1 = fields ∧ s.2.solutions = w.solutions := by
  unfold SA.goesOn
  refine ends_fields ?_
  refine ends_call (ends_getFunctionValue _) ?_
  rintro _ v ⟨-, hv⟩
  subst v
  exact ends_call ((draws_solutions w).isSatisfied rfl _ _ _ _) fun _ _ hw => .ret ⟨rfl, hw⟩

theorem ends_goesOnAtTemperature (this : SA K) (state : SA.State K) :
    Ends (SA.goesOnAtTemperature this state) (fields, w) fun _ s =>
      s.1 = fields ∧ s.2.solutions = w.solutions := by
  unfold SA.goesOnAtTemperature
  split
  · exact ends_goesOn this state
  · exact .ret ⟨rfl, rfl⟩

theorem ends_step (h : Anneals this f) (hhead : Head this f w₀ fields w best) (first : Ref)
    (state : SA.State K) :
    Ends (SA.step this context state) (fields, w) fun _ s => ∃ best',
      Head this f w₀ s.1 s.2 best' ∧
      (Viable s.2 best' ↔ Viable w best ∨ Replaces this context (fields, w)) ∧
      (Covers this w₀ first fields w best →
        (¬this.solutionAnalyser.Tolerant ∨
          Faithful this context state.temperature (fields, w)) →
        Covers this w₀ first s.1 s.2 best') := by
  unfold SA.step
  refine (ends_tryNeighbor h hhead.current hhead.stored state.temperature state.noImproveIt).bind ?_
  rintro noImproveIt ⟨fields', w'⟩ ⟨nb, w₁, hneighbour, hw', hweighed⟩
  obtain ⟨hgrows, hjudged, hnew⟩ := ends_neighbour h hhead.current nb w₁ hneighbour
  obtain ⟨hhead₁, hnewer⟩ := hhead.built hgrows hjudged hnew
  obtain ⟨best', hhead'⟩ := hhead₁.weighed hnewer hjudged hweighed
  have hsame : w₁.Grows (fun _ => False) w' := .of_eq _ hw'
  refine .ret ⟨best', hhead'.grown hsame, ?_, fun hcovers hfaithful => ?_⟩
  · rw [hsame.viable_iff hhead'.sound,
      viable_weighed_iff hhead₁ hneighbour hweighed hhead'.stored, hgrows.viable_iff hhead.sound]
  · exact (covers_weighed hhead hcovers hhead₁ hgrows hjudged hneighbour hweighed hhead'.stored
      hfaithful).grown hhead' hsame

def prepare (this : SA K) (first : Ref) : Method SA.Fields K (Temperature K × JDouble K) := do
  setFields fun f => { f with currentSolution := first }
  let best ← call (clone first)
  setFields fun f => { f with bestSolution := some best }
  let temperatureSA ← call (nonNull this.temperatureSA)
  let temperature ← call (temperatureSA.initialTemperature this.problem)
  let currentSolution ← call (clone first)
  setFields fun f => { f with currentSolution }
  return (temperatureSA, temperature)

theorem runMetaHeuristic_eq (this : SA K) (fuel : ℕ) (first : Ref) (rest : List Ref)
    (context : Context) :
    SA.runMetaHeuristic this fuel (first :: rest) context = (do
      let (temperatureSA, temperature) ← prepare this first
      let _ ← repeatWhile .unfinished (SA.goesOn this)
        (SA.cool this fuel context temperatureSA temperature) fuel ⟨temperature, 0, 0, 0⟩
      return some [← call (nonNull (← Heuristics.fields).bestSolution)]) := by
  simp [SA.runMetaHeuristic, SA.methodSA, prepare]

theorem ends_initialTemperature (problem : Problem K) (t : Temperature K) :
    Ends (t.initialTemperature problem) w fun _ w' => w.Grows (fun _ => False) w' := by
  have hbuild : ∀ v : World K, Ends (buildSolution problem) v fun _ v' =>
      v.Grows (fun _ => False) v' := by
    intro v
    refine (ends_buildSolution problem).mono ?_
    rintro r v' ⟨-, id, hv'⟩
    refine grows_of_append hv' ?_ _
    intro t ht
    rw [List.mem_singleton.1 ht]
    rfl
  cases t with
  | sa => exact (hbuild w).bind fun _ w₁ h₁ => .ret h₁
  | iterations log =>
      refine (hbuild w).bind fun _ w₁ h₁ => ?_
      refine (hbuild w₁).bind fun _ w₂ h₂ => ?_
      refine (ends_orThrow _).bind ?_
      rintro t0 v ⟨-, hv⟩
      subst v
      exact .ret (h₁.trans h₂)

abbrev Start (this : SA K) (f : List (Option (Element K)) → K) (w₀ : World K) (first : Ref) :
    Prop :=
  Evaluated (fun s => Sound this.problem f s ∧ s.viable = true) w₀ first

theorem ends_prepare (hstart : Start this f w₀ first) :
    Ends (prepare this first) (fields, w₀) fun _ s => ∃ best,
      Head this f w₀ s.1 s.2 best ∧ Covers this w₀ first s.1 s.2 best ∧ ¬Viable s.2 best := by
  unfold prepare
  refine ends_setFields ?_
  refine ends_call (ends_clone_tame (sound_tame _ f) (hstart.mono fun _ h => h.1)) ?_
  rintro best w₁ ⟨hgrows₁, hbest, hsound, hnot, hvalue⟩
  refine ends_setFields ?_
  refine ends_call (ends_nonNull _) ?_
  rintro temperatureSA v ⟨-, hv⟩
  subst v
  refine ends_call (ends_initialTemperature _ _) ?_
  intro temperature w₂ hgrows₂
  have hstart₂ := hgrows₂.evaluated (hgrows₁.evaluated hstart)
  refine ends_call (ends_clone_tame (sound_tame _ f) (hstart₂.mono fun _ h => h.1)) ?_
  rintro current w₃ ⟨hgrows₃, hcurrent, hsound₃, -, hvalue₃⟩
  have hgrows := (hgrows₁.trans hgrows₂).trans hgrows₃
  have hgrown := hgrows₂.trans hgrows₃
  have hsame : w₃.value best = w₀.value first := (hgrown.value_eq hsound).trans hvalue
  have hnone : ∀ t, w₀.solutions.length ≤ t → ¬Viable w₃ t := by
    rintro t ht hv
    obtain ⟨s, hs, -⟩ := hgrows.viable_before t hv
    exact absurd (List.getElem?_eq_some_iff.1 hs).1 (not_lt.2 ht)
  have hlength : w₀.solutions.length ≤ w₂.solutions.length :=
    (hgrows₁.trans hgrows₂).length_le fun _ _ h => h
  refine ends_setFields (.ret ⟨best, ?_, ?_, fun hv => hnone best hbest.ge hv⟩)
  · exact { stored := rfl, sound := hgrown.evaluated hsound, current := hsound₃
            new_best := hbest.ge, new_current := hcurrent ▸ hlength, grows := hgrows.any _
            visited := fun t ht hv => absurd hv (hnone t ht) }
  · refine ⟨?_, hsame.le, fun t ht hv => absurd hv (hnone t ht)⟩
    rw [hsame, hvalue₃, hgrows₂.value_eq (hgrows₁.evaluated hstart), hgrows₁.value_eq hstart]

/-- Where a run that starts at `first` stands after `n` neighbours. -/
def Reaches (this : SA K) (context : Context) (first : Ref) (s₀ : SA.Fields × World K) (n : ℕ)
    (loop : SA.Loop) (state : SA.State K) (s : SA.Fields × World K) : Prop :=
  ∃ temperatureSA initial s₁, prepare this first s₀ = .ok (temperatureSA, initial) s₁ ∧
    SA.Walks this context temperatureSA initial ⟨initial, 0, 0, 0⟩ s₁ n loop state s

def Tries (this : SA K) (context : Context) (first : Ref) (s₀ : SA.Fields × World K)
    (state : SA.State K) (s' : SA.Fields × World K) : Prop :=
  ∃ n s, Reaches this context first s₀ n .atTemperature state s ∧
    SA.goesOnAtTemperature this state s = .ok true s'

/-- The analyser has no tolerance, or no step of the run loses a better best solution. -/
def KeepsGround (this : SA K) (context : Context) (first : Ref) (s₀ : SA.Fields × World K) : Prop :=
  ¬this.solutionAnalyser.Tolerant ∨ ∀ state s', Tries this context first s₀ state s' →
    Faithful this context state.temperature s'

theorem reaches_head (h : Anneals this f) (hstart : Start this f w₀ first) {n : ℕ}
    {loop : SA.Loop} {s : SA.Fields × World K}
    (hreaches : Reaches this context first (fields, w₀) n loop state s) :
    ∃ best, Head this f w₀ s.1 s.2 best ∧
      (KeepsGround this context first (fields, w₀) → Covers this w₀ first s.1 s.2 best) := by
  obtain ⟨temperatureSA, initial, s₁, hprepare, hwalks⟩ := hreaches
  obtain ⟨best₁, hhead₁, hcovers₁, -⟩ := ends_prepare hstart _ _ hprepare
  -- the walk is carried along, so that each step is one that the run tries
  have hwalk : SA.Walks this context temperatureSA initial ⟨initial, 0, 0, 0⟩ s₁ n loop state s ∧
      ∃ best, Head this f w₀ s.1 s.2 best ∧
        (KeepsGround this context first (fields, w₀) → Covers this w₀ first s.1 s.2 best) := by
    refine hwalks.keeps (I := fun n loop state s =>
      SA.Walks this context temperatureSA initial ⟨initial, 0, 0, 0⟩ s₁ n loop state s ∧
        ∃ best, Head this f w₀ s.1 s.2 best ∧
          (KeepsGround this context first (fields, w₀) → Covers this w₀ first s.1 s.2 best))
      ⟨.start, best₁, hhead₁, fun _ => hcovers₁⟩ ?_ ?_ ?_
    · rintro n state s s' ⟨hbefore, best, hhead, hcovers⟩ hgoes
      have hdrawn := ends_goesOn this state _ _ hgoes
      exact ⟨.enter hbefore hgoes, best, (hhead.drawn hdrawn).1,
        fun hk => (hcovers hk).drawn hhead hdrawn⟩
    · rintro n state state' s s' s'' ⟨hbefore, best, hhead, hcovers⟩ hgoes hdone
      have hdrawn := ends_goesOnAtTemperature this state _ _ hgoes
      obtain ⟨best', hhead', -, hnext⟩ :=
        ends_step h (hhead.drawn hdrawn).1 first state _ _ hdone
      refine ⟨.step hbefore hgoes hdone, best', hhead', fun hk => ?_⟩
      refine hnext ((hcovers hk).drawn hhead hdrawn) (hk.imp_right fun hall => ?_)
      exact hall state _ ⟨n, _, ⟨temperatureSA, initial, s₁, hprepare, hbefore⟩, hgoes⟩
    · rintro n state s s' ⟨hbefore, best, hhead, hcovers⟩ hleaves
      have hdrawn := ends_goesOnAtTemperature this state _ _ hleaves
      exact ⟨.cool hbefore hleaves, best, (hhead.drawn hdrawn).1,
        fun hk => (hcovers hk).drawn hhead hdrawn⟩
  exact hwalk.2

/-- The best solution is viable only where a step before has replaced it. -/
theorem replaced_of_viable (h : Anneals this f) (hstart : Start this f w₀ first) {n : ℕ}
    {loop : SA.Loop} {s : SA.Fields × World K}
    (hreaches : Reaches this context first (fields, w₀) n loop state s)
    (hbest : s.1.bestSolution = some best) (hv : Viable s.2 best) :
    ∃ state s', Tries this context first (fields, w₀) state s' ∧ Replaces this context s' := by
  by_contra hnone
  obtain ⟨temperatureSA, initial, s₁, hprepare, hwalks⟩ := hreaches
  obtain ⟨best₁, hhead₁, -, hnot₁⟩ := ends_prepare hstart _ _ hprepare
  have hwalk : SA.Walks this context temperatureSA initial ⟨initial, 0, 0, 0⟩ s₁ n loop state s ∧
      ∃ best, Head this f w₀ s.1 s.2 best ∧ ¬Viable s.2 best := by
    refine hwalks.keeps (I := fun n loop state s =>
      SA.Walks this context temperatureSA initial ⟨initial, 0, 0, 0⟩ s₁ n loop state s ∧
        ∃ best, Head this f w₀ s.1 s.2 best ∧ ¬Viable s.2 best)
      ⟨.start, best₁, hhead₁, hnot₁⟩ ?_ ?_ ?_
    · rintro n state s s' ⟨hbefore, best, hhead, hnot⟩ hgoes
      obtain ⟨hhead', hiff⟩ := hhead.drawn (ends_goesOn this state _ _ hgoes)
      exact ⟨.enter hbefore hgoes, best, hhead', fun hv => hnot (hiff.1 hv)⟩
    · rintro n state state' s s' s'' ⟨hbefore, best, hhead, hnot⟩ hgoes hdone
      obtain ⟨hhead', hiff⟩ := hhead.drawn (ends_goesOnAtTemperature this state _ _ hgoes)
      obtain ⟨best', hhead'', hiff', -⟩ := ends_step h hhead' first state _ _ hdone
      refine ⟨.step hbefore hgoes hdone, best', hhead'', fun hv => ?_⟩
      rcases hiff'.1 hv with hold | hreplaces
      · exact hnot (hiff.1 hold)
      · exact hnone ⟨state, s', ⟨n, s, ⟨temperatureSA, initial, s₁, hprepare, hbefore⟩, hgoes⟩,
          hreplaces⟩
    · rintro n state s s' ⟨hbefore, best, hhead, hnot⟩ hleaves
      obtain ⟨hhead', hiff⟩ := hhead.drawn (ends_goesOnAtTemperature this state _ _ hleaves)
      exact ⟨.cool hbefore hleaves, best, hhead', fun hv => hnot (hiff.1 hv)⟩
  obtain ⟨-, best', hhead, hnot⟩ := hwalk
  rw [Option.some.inj (hbest.symm.trans hhead.stored)] at hv
  exact hnot hv

theorem viable_moves (h : Anneals this f) {temperatureSA : Temperature K} {initial : JDouble K}
    {x y : SA.Place K}
    (hmoves : Relation.ReflTransGen (SA.Move this context temperatureSA initial) x y)
    (hx : ∃ best, Head this f w₀ x.2.2.1 x.2.2.2 best ∧ Viable x.2.2.2 best) :
    ∃ best, Head this f w₀ y.2.2.1 y.2.2.2 best ∧ Viable y.2.2.2 best := by
  induction hmoves with
  | refl => exact hx
  | tail _ hmove ih =>
      obtain ⟨best, hhead, hv⟩ := ih
      cases hmove with
      | enter hgoes =>
          obtain ⟨hhead', hiff⟩ := hhead.drawn (ends_goesOn this _ _ _ hgoes)
          exact ⟨best, hhead', hiff.2 hv⟩
      | step hgoes hdone =>
          obtain ⟨hhead', hiff⟩ := hhead.drawn (ends_goesOnAtTemperature this _ _ _ hgoes)
          obtain ⟨best', hhead'', hiff', -⟩ := ends_step h hhead' best _ _ _ hdone
          exact ⟨best', hhead'', hiff'.2 (Or.inl (hiff.2 hv))⟩
      | cool hleaves =>
          obtain ⟨hhead', hiff⟩ := hhead.drawn (ends_goesOnAtTemperature this _ _ _ hleaves)
          exact ⟨best, hhead', hiff.2 hv⟩

/-- At the end of a run the best solution is viable if a step has replaced it. -/
theorem viable_of_replaced (h : Anneals this f) (hstart : Start this f w₀ first) {n : ℕ}
    {s t : SA.Fields × World K}
    (hreaches : Reaches this context first (fields, w₀) n .outer state s)
    (hstops : SA.goesOn this state s = .ok false t) (hbest : s.1.bestSolution = some best)
    {state₁ : SA.State K} {s₁ : SA.Fields × World K}
    (htries : Tries this context first (fields, w₀) state₁ s₁)
    (hreplaces : Replaces this context s₁) : Viable s.2 best := by
  obtain ⟨m, s₀, hreaches₀, hgoes⟩ := htries
  obtain ⟨best₀, hhead₀, -⟩ := reaches_head h hstart hreaches₀
  obtain ⟨temperatureSA, initial, p, hprepare, hwalks⟩ := hreaches
  obtain ⟨temperatureSA', initial', p', hprepare', hwalks₀⟩ := hreaches₀
  rw [hprepare] at hprepare'
  cases hprepare'
  rcases (hwalks.to_last hstops hwalks₀).cases_head with heq | ⟨place, hmove, hmoves⟩
  · cases heq
  · obtain ⟨best', hhead, hv⟩ : ∃ best, Head this f w₀ s.1 s.2 best ∧ Viable s.2 best := by
      refine viable_moves h hmoves ?_
      cases hmove with
      | step hgoes' hdone =>
          rw [hgoes] at hgoes'
          cases hgoes'
          obtain ⟨hhead, -⟩ := hhead₀.drawn (ends_goesOnAtTemperature this _ _ _ hgoes)
          obtain ⟨best', hhead', hiff, -⟩ := ends_step h hhead first _ _ _ hdone
          exact ⟨best', hhead', hiff.2 (Or.inr hreplaces)⟩
      | cool hleaves =>
          rw [hgoes] at hleaves
          cases hleaves
    rw [Option.some.inj (hbest.symm.trans hhead.stored)]
    exact hv

theorem ends_run (this : SA K) (fuel : ℕ) (first : Ref) (rest : List Ref) (context : Context)
    (s₀ : SA.Fields × World K) :
    Ends (SA.runMetaHeuristic this fuel (first :: rest) context) s₀ fun result s =>
      ∃ n state s' best, Reaches this context first s₀ n .outer state s' ∧
        SA.goesOn this state s' = .ok false s ∧ s.1.bestSolution = some best ∧
        result = some [best] := by
  rw [runMetaHeuristic_eq]
  refine Ends.bind (Q := fun p s₁ => prepare this first s₀ = .ok p s₁) (fun _ _ h => h) ?_
  rintro ⟨temperatureSA, initial⟩ s₁ hprepare
  refine Ends.bind (Q := fun state s => ∃ s', Visits (SA.goesOn this)
    (SA.cool this fuel context temperatureSA initial) ⟨initial, 0, 0, 0⟩ s₁ state s' ∧
      SA.goesOn this state s' = .ok false s) (fun _ _ h => visits_of_repeatWhile h) ?_
  rintro state ⟨fields, w⟩ ⟨s', hvisits, hstops⟩
  obtain ⟨n, hwalks⟩ := SA.walks_of_visits hvisits
  refine ends_fields ?_
  refine ends_call (ends_nonNull _) ?_
  rintro best v ⟨hbest, hv⟩
  subst v
  exact .ret ⟨n, state, s', best, ⟨temperatureSA, initial, s₁, hprepare, hwalks⟩, hstops, hbest,
    rfl⟩

/-- A run returns a solution with a viable vector.  It is flagged as viable if and only if
some step has replaced the best solution, and as long as no step loses a better one it is,
like the best solution wherever the run stands, at least as good as the start and, up to
the slack of the analyser, as every viable solution visited. -/
theorem run_keeps_best (h : Anneals this f) (fuel : ℕ) (rest : List Ref) (context : Context)
    (fields : SA.Fields) (hstart : Start this f w₀ first) :
    (KeepsGround this context first (fields, w₀) → ∀ n loop state s,
      Reaches this context first (fields, w₀) n loop state s →
        ∃ best, s.1.bestSolution = some best ∧ Covers this w₀ first s.1 s.2 best) ∧
    ∀ result s, SA.runMetaHeuristic this fuel (first :: rest) context (fields, w₀) = .ok result s →
      ∃ r, result = some [r] ∧ Evaluated (Sound this.problem f) s.2 r ∧
        (Viable s.2 r ↔ ∃ state s', Tries this context first (fields, w₀) state s' ∧
          Replaces this context s') ∧
        (KeepsGround this context first (fields, w₀) → Covers this w₀ first s.1 s.2 r) := by
  constructor
  · intro hkeeps n loop state s hreaches
    obtain ⟨best, hhead, hcovers⟩ := reaches_head h hstart hreaches
    exact ⟨best, hhead.stored, hcovers hkeeps⟩
  · rintro result s hrun
    obtain ⟨n, state, s', r, hreaches, hstops, hr, hresult⟩ := ends_run this fuel first rest context
      (fields, w₀) result s hrun
    obtain ⟨best, hhead, hcovers⟩ := reaches_head h hstart hreaches
    obtain ⟨hfields, hw⟩ := ends_goesOn this state _ _ hstops
    have hgrows : s'.2.Grows (fun _ => False) s.2 := .of_eq _ hw
    have hr' : s'.1.bestSolution = some r := hfields ▸ hr
    obtain rfl : best = r := Option.some.inj (hhead.stored.symm.trans hr')
    refine ⟨best, hresult, hgrows.evaluated hhead.sound, ?_, fun hkeeps => ?_⟩
    · rw [hgrows.viable_iff hhead.sound]
      constructor
      · intro hv
        exact replaced_of_viable h hstart hreaches hr' hv
      · rintro ⟨state₁, s₁, htries, hreplaces⟩
        exact viable_of_replaced h hstart hreaches hstops hr' htries hreplaces
    · rw [hfields]
      exact (hcovers hkeeps).grown hhead hgrows

end Runs

section Example

open DifferentialEvolution (exampleParameters exampleWorld bowl valueInBowl bowl_computes returns
  of_returns)

def slope : FunctionProblem ℚ :=
  { id := 0, max := false, dimension := 1, step := 1, initialPoint := [0], domain := [(-1, 1)]
    function := fun point => match point with
      | [x] => .ok x
      | _ => .error .indexOutOfBounds }

def descentDraws : ℕ → Core.Draw ℚ
  | 0 => ⟨1 - 9 / 1000000, by norm_num, by norm_num⟩
  | 2 => ⟨1 - 18 / 1000000, by norm_num, by norm_num⟩
  | _ => .zero

/-- A start with the value one, and draws for two neighbours a little below it. -/
def descentWorld : World ℚ :=
  { solutions := [{ id := 0, problem := slope.toProblem, solutionsVector := [some (.function 0 1)]
                    functionValue := some 1, viable := true, changed := false }]
    nextId := 1, nextIdentity := 1, evaluations := 0, invocations := 0, bestSolution := none
    uniforms := descentDraws, choices := fun n => n, clock := fun _ => 0 }

def descent : SA ℚ :=
  { problem := slope.toProblem
    metaHeuristicParameters := { exampleParameters with maxIterations := some 1 }
    stopCondition := some .maxIterations, solutionAnalyser := .function
    temperatureMaxIterations := 10, alpha := 1 / 2, temperatureSA := some .sa
    solutionModifier := some (RealModifier.realRandom.toSolutionModifier slope) }

/-- Both neighbours are accepted without counting as better, and the second one is smaller
than the start by more than the tolerance.  A clone of the start is returned, which is not
flagged as viable. -/
theorem run_drifts_below_best : ∃ r s,
    SA.runMetaHeuristic descent 3 [0] none (⟨0, none⟩, descentWorld) = .ok (some [r]) s ∧
    Viable descentWorld 0 ∧ ¬Viable s.2 r ∧
    ∃ t, 1 ≤ t ∧ Viable s.2 t ∧ s.2.value t + descent.solutionAnalyser.slack < s.2.value r := by
  obtain ⟨r, s, hrun, hcheck⟩ := of_returns
    (c := fun r s => decide (¬Viable s.2 r ∧ Viable s.2 5 ∧
      s.2.value 5 + descent.solutionAnalyser.slack < s.2.value r))
    (show returns _ (SA.runMetaHeuristic descent 3 [0] none (⟨0, none⟩, descentWorld)) = true by
      decide +kernel)
  obtain ⟨hnot, hviable, hlt⟩ := of_decide_eq_true hcheck
  exact ⟨r, s, hrun, ⟨_, rfl, rfl⟩, hnot, 5, by decide, hviable, hlt⟩

/-- Neighbours without a tolerance: the first one is in the middle, and better than the start. -/
def plunge : SA ℚ :=
  { descent with
    problem := bowl.toProblem, solutionAnalyser := .benchmark
    solutionModifier := some (BenchmarkModifier.benchmarkRandom (some 1)).toSolutionModifier }

theorem plunge_anneals : Anneals plunge valueInBowl :=
  .benchmark bowl (some (.benchmarkRandom (some 1))) valueInBowl rfl rfl rfl bowl_computes

theorem run_keeps_best_example : ∃ r s,
    SA.runMetaHeuristic plunge 3 [0] none (⟨0, none⟩, exampleWorld) = .ok (some [r]) s ∧
    Evaluated (Sound plunge.problem valueInBowl) s.2 r ∧ Viable s.2 r ∧
    (∃ state s', Tries plunge none 0 (⟨0, none⟩, exampleWorld) state s' ∧
      Replaces plunge none s') ∧ Covers plunge exampleWorld 0 s.1 s.2 r := by
  obtain ⟨r, s, hrun, hcheck⟩ := of_returns (c := fun r s => decide (Viable s.2 r))
    (show returns _ (SA.runMetaHeuristic plunge 3 [0] none (⟨0, none⟩, exampleWorld)) = true by
      decide +kernel)
  have hstart : Start plunge valueInBowl exampleWorld 0 :=
    ⟨_, rfl, rfl, ⟨rfl, rfl, by decide +kernel⟩, rfl⟩
  obtain ⟨r', hresult, hsound, hviable, hcovers⟩ :=
    (run_keeps_best plunge_anneals 3 [] none ⟨0, none⟩ hstart).2 (some [r]) s hrun
  obtain rfl : r = r' := by simpa using hresult
  have hv : Viable s.2 r := of_decide_eq_true hcheck
  exact ⟨r, s, hrun, hsound, hv, hviable.1 hv, hcovers (Or.inl id)⟩

end Example

end DOptimas.Proofs.AnnealingBest
