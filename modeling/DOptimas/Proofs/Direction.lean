import DOptimas.Core.Analyser
import DOptimas.Core.QLearningMemory
import DOptimas.Heuristics.Function
import DOptimas.Heuristics.TrajectoryHeuristics
import DOptimas.Support.ExactStatistics
/-!
# The direction of the optimisation

Three components decide which of two values is better.  The analyser and the
memory of an agent always take the smaller one; only the annealing reads `max`,
and then takes the larger one.
-/

namespace DOptimas.Proofs.Direction

open DOptimas.Support DOptimas.Core DOptimas.Heuristics

section Values

variable {K : Type} [RealArith K]

theorem sigmoid_pos_iff (h : ExpLaws K) {x : K} : 0 < QLearningMemory.sigmoid x ↔ 0 < x := by
  have hpos : 0 < 1 + RealArith.exp (-x) := add_pos zero_lt_one (h.pos (-x))
  have hsum : QLearningMemory.sigmoid x = (1 - RealArith.exp (-x)) / (1 + RealArith.exp (-x)) := by
    unfold QLearningMemory.sigmoid
    field_simp
    ring
  rw [hsum, div_pos_iff_of_pos_right hpos, sub_pos, h.lt_one_iff, neg_lt_zero]

/-- How far a neighbour is behind the current value, in the direction of the problem. -/
def setback (max : Bool) (neighborsValue currentValue : K) : K :=
  if max then currentValue - neighborsValue else neighborsValue - currentValue

theorem calculateDeltaValue_fin (max : Bool) (neighborsValue currentValue : K) {T : K}
    (hT : 0 < T) :
    SA.calculateDeltaValue max neighborsValue currentValue (.fin T) =
      .fin (RealArith.exp (-setback max neighborsValue currentValue / T)) := by
  have hne : T ≠ 0 := ne_of_gt hT
  cases max with
  | false => simp [SA.calculateDeltaValue, setback, SA.exp, JDouble.div, hne]
  | true => simp [SA.calculateDeltaValue, setback, SA.exp, JDouble.div, hne]

theorem one_lt_calculateDeltaValue_iff (h : ExpLaws K) (max : Bool) {n c T : K} (hT : 0 < T) :
    JDouble.lt (.fin 1) (SA.calculateDeltaValue max n c (.fin T)) ↔ setback max n c < 0 := by
  rw [calculateDeltaValue_fin max n c hT]
  simp only [JDouble.lt, decide_eq_true_eq]
  rw [h.one_lt_iff, div_pos_iff_of_pos_right hT, neg_pos]

theorem accepted_below (h : ExpLaws K) {max : Bool} {n c T : K} (hT : 0 < T)
    (hback : 0 < setback max n c) :
    ∃ p < 1, ∀ valX : Draw K,
      JDouble.lt (.fin valX.value) (SA.calculateDeltaValue max n c (.fin T)) ↔
        valX.value < p := by
  refine ⟨RealArith.exp (-setback max n c / T), ?_, fun valX => ?_⟩
  · rw [h.lt_one_iff]
    exact div_neg_of_neg_of_pos (neg_lt_zero.2 hback) hT
  · rw [calculateDeltaValue_fin max n c hT]
    simp only [JDouble.lt, decide_eq_true_eq]

theorem accepted_always (h : ExpLaws K) {max : Bool} {n c T : K} (hT : 0 < T)
    (hback : setback max n c ≤ 0) (valX : Draw K) :
    JDouble.lt (.fin valX.value) (SA.calculateDeltaValue max n c (.fin T)) := by
  rw [calculateDeltaValue_fin max n c hT]
  simp only [JDouble.lt, decide_eq_true_eq]
  have hone : (1 : K) ≤ RealArith.exp (-setback max n c / T) := by
    rw [← h.zero]
    exact h.strictMono.monotone (div_nonneg (neg_nonneg.2 hback) hT.le)
  exact lt_of_lt_of_le valX.lt_one hone

structure Evaluated (p : FunctionProblem K) (s : Core.Solution K) (value : K) : Prop where
  functionValue : s.functionValue = some value
  vector : ∃ point, s.toDoubleArray = some point ∧ p.function point = .ok value

omit [RealArith K] in
theorem Evaluated.vector_ne {p : FunctionProblem K} {s t : Core.Solution K} {x y : K}
    (hs : Evaluated p s x) (ht : Evaluated p t y) (hxy : x ≠ y) :
    s.solutionsVector ≠ t.solutionsVector := by
  intro heq
  obtain ⟨point, hpoint, hx⟩ := hs.vector
  obtain ⟨point', hpoint', hy⟩ := ht.vector
  have hsame : s.toDoubleArray = t.toDoubleArray := by
    unfold Core.Solution.toDoubleArray
    rw [heq]
  rw [hpoint, hpoint'] at hsame
  rw [Option.some.inj hsame, hy] at hx
  exact hxy (Except.ok.inj hx).symm

end Values

section Components

variable {K : Type} [RealArith K]

def Prefers (p : FunctionProblem K) (s t : Core.Solution K) : Prop :=
  p.toProblem.analyser.getBestSolution s t = .ok s

/-- The acceptance value of `s` as a neighbour of `t`. -/
def acceptance (p : FunctionProblem K) (s t : Core.Solution K) (T : K) : Option (JDouble K) := do
  return SA.calculateDeltaValue p.toProblem.max (← s.functionValue) (← t.functionValue) (.fin T)

def Uphill (p : FunctionProblem K) (s t : Core.Solution K) (T : K) : Prop :=
  ∃ value, acceptance p s t T = some value ∧ JDouble.lt (.fin 1) value

def Rewards (memory : QLearningMemory K) (s : Core.Solution K) : Prop :=
  ∃ r, memory.reward s = .ok r ∧ 0 < r

def Replaces (memory : QLearningMemory K) (s : Core.Solution K) : Prop :=
  ∃ memory', memory.updateBestFoundSolution s = .ok memory' ∧
    memory'.bestFoundSolution = some s

/-- A neighbour that the acceptance takes with a probability below one. -/
def Risked (p : FunctionProblem K) (s t : Core.Solution K) (T : K) : Prop :=
  ∃ value, acceptance p s t T = some value ∧
    ∃ q < 1, ∀ valX : Draw K, JDouble.lt (.fin valX.value) value ↔ valX.value < q

variable {p : FunctionProblem K} {memory : QLearningMemory K} {s t : Core.Solution K} {x y T : K}

theorem acceptance_eq (hs : Evaluated p s x) (ht : Evaluated p t y) :
    acceptance p s t T = some (SA.calculateDeltaValue p.max x y (.fin T)) := by
  simp [acceptance, hs.functionValue, ht.functionValue, FunctionProblem.toProblem]

theorem keepsLeft_iff_lt (hxy : SolutionAnalyser.tolerance ≤ |x - y|) :
    SolutionAnalyser.function.keepsLeft x y ↔ x < y := by
  have htolerance := SolutionAnalyser.tolerance_pos (K := K)
  rw [SolutionAnalyser.keepsLeft_tolerant (a := .function) trivial]
  constructor
  · intro h
    linarith
  · intro hlt
    rw [abs_of_neg (sub_neg.2 hlt)] at hxy
    linarith

theorem prefers_iff (hs : Evaluated p s x) (ht : Evaluated p t y)
    (hxy : SolutionAnalyser.tolerance ≤ |x - y|) : Prefers p s t ↔ x < y := by
  have hne : s ≠ t := by
    intro heq
    have hvalue := hs.functionValue
    rw [heq, ht.functionValue] at hvalue
    rw [Option.some.inj hvalue, sub_self, abs_zero] at hxy
    exact absurd hxy (not_le.2 SolutionAnalyser.tolerance_pos)
  have hbest : p.toProblem.analyser.getBestSolution s t =
      .ok (if SolutionAnalyser.function.keepsLeft x y then s else t) := by
    unfold SolutionAnalyser.getBestSolution
    rw [hs.functionValue, ht.functionValue]
    rfl
  rw [Prefers, hbest, ← keepsLeft_iff_lt hxy]
  by_cases hkeeps : SolutionAnalyser.function.keepsLeft x y
  · simp [hkeeps]
  · simp [hkeeps, Ne.symm hne]

theorem rewards_iff (h : ExpLaws K) (hs : Evaluated p s x) (ht : Evaluated p t y)
    (hbest : memory.bestFoundSolution = some t) : Rewards memory s ↔ x < y := by
  have hreward : memory.reward s = .ok (QLearningMemory.sigmoid (y - x)) := by
    simp [QLearningMemory.reward, hbest, hs.functionValue, ht.functionValue]
  unfold Rewards
  rw [hreward]
  constructor
  · rintro ⟨r, hr, hpos⟩
    rw [← Except.ok.inj hr, sigmoid_pos_iff h] at hpos
    exact sub_pos.1 hpos
  · intro hlt
    exact ⟨_, rfl, (sigmoid_pos_iff h).2 (sub_pos.2 hlt)⟩

theorem replaces_iff (hs : Evaluated p s x) (ht : Evaluated p t y)
    (hxy : SolutionAnalyser.tolerance ≤ |x - y|) (hbest : memory.bestFoundSolution = some t)
    (hanalyser : memory.analyser = p.toProblem.analyser) : Replaces memory s ↔ x < y := by
  have hne : x ≠ y := by
    intro heq
    rw [heq, sub_self, abs_zero] at hxy
    exact absurd hxy (not_le.2 SolutionAnalyser.tolerance_pos)
  have hvector := hs.vector_ne ht hne
  have hcompare : QLearningMemory.compare memory.analyser s t =
      .ok (if SolutionAnalyser.function.keepsLeft x y then -1 else 1) := by
    simp [QLearningMemory.compare, hvector, hs.functionValue, ht.functionValue, hanalyser,
      FunctionProblem.toProblem]
  unfold Replaces QLearningMemory.updateBestFoundSolution
  rw [hbest, ← keepsLeft_iff_lt hxy]
  simp only [hcompare]
  by_cases hkeeps : SolutionAnalyser.function.keepsLeft x y
  · simp [hkeeps]
  · have hts : t ≠ s := fun heq => hvector (by rw [heq])
    simp [hkeeps, hbest, hts]

theorem uphill_iff (h : ExpLaws K) (hs : Evaluated p s x) (ht : Evaluated p t y) (hT : 0 < T) :
    Uphill p s t T ↔ setback p.max x y < 0 := by
  unfold Uphill
  rw [acceptance_eq hs ht]
  constructor
  · rintro ⟨value, hvalue, hlt⟩
    rw [← Option.some.inj hvalue] at hlt
    exact (one_lt_calculateDeltaValue_iff h p.max hT).1 hlt
  · intro hback
    exact ⟨_, rfl, (one_lt_calculateDeltaValue_iff h p.max hT).2 hback⟩

theorem risked_iff (h : ExpLaws K) (hs : Evaluated p s x) (ht : Evaluated p t y) (hT : 0 < T) :
    Risked p s t T ↔ 0 < setback p.max x y := by
  unfold Risked
  rw [acceptance_eq hs ht]
  constructor
  · rintro ⟨value, hvalue, q, hq, haccepts⟩
    by_contra hback
    -- A draw from `q` on is accepted, although no such draw is below `q`.
    let valX : Draw K := ⟨max q 0, le_max_right q 0, max_lt hq zero_lt_one⟩
    have haccepted := accepted_always h (n := x) (c := y) hT (not_lt.1 hback) valX
    rw [Option.some.inj hvalue, haccepts] at haccepted
    exact absurd haccepted (not_lt.2 (le_max_left q 0))
  · intro hback
    exact ⟨_, rfl, accepted_below h hT hback⟩

/-- The components take the same of two solutions for the better one, and the
annealing does not take the worse one for sure. -/
structure Agrees (p : FunctionProblem K) (memory : QLearningMemory K) (s t : Core.Solution K)
    (T : K) : Prop where
  accepts : Prefers p s t ↔ Uphill p s t T
  rewards : Prefers p s t ↔ Rewards memory s
  replaces : Prefers p s t ↔ Replaces memory s
  risked : ¬Prefers p s t → Risked p s t T

end Components

/-- For solutions whose values differ by the tolerance at least, the components agree
if and only if the problem is not a maximization. -/
theorem components_agree_iff (p : FunctionProblem ℝ) (memory : QLearningMemory ℝ)
    (s t : Core.Solution ℝ) (x y T : ℝ) (hs : Evaluated p s x) (ht : Evaluated p t y)
    (hxy : SolutionAnalyser.tolerance ≤ |x - y|) (hT : 0 < T)
    (hbest : memory.bestFoundSolution = some t)
    (hanalyser : memory.analyser = p.toProblem.analyser) :
    Agrees p memory s t T ↔ p.max = false := by
  have hprefers := prefers_iff hs ht hxy
  have huphill := uphill_iff expLaws_real hs ht hT
  have hrisked := risked_iff expLaws_real hs ht hT
  have hne : x ≠ y := by
    intro heq
    rw [heq, sub_self, abs_zero] at hxy
    exact absurd hxy (not_le.2 SolutionAnalyser.tolerance_pos)
  constructor
  · intro hagrees
    by_contra hmax
    rw [Bool.not_eq_false] at hmax
    have haccepts := hagrees.accepts
    rw [hprefers, huphill, hmax] at haccepts
    simp only [setback, if_true, sub_neg] at haccepts
    rcases lt_or_gt_of_ne hne with hlt | hgt
    · exact absurd (haccepts.1 hlt) (not_lt.2 hlt.le)
    · exact absurd (haccepts.2 hgt) (not_lt.2 hgt.le)
  · intro hmin
    have hback : setback p.max x y = x - y := by simp [setback, hmin]
    exact
      { accepts := by rw [hprefers, huphill, hback, sub_neg]
        rewards := by rw [hprefers, rewards_iff expLaws_real hs ht hbest]
        replaces := by rw [hprefers, replaces_iff hs ht hxy hbest hanalyser]
        risked := by
          intro hworse
          rw [hprefers, not_lt] at hworse
          rw [hrisked, hback, sub_pos]
          exact lt_of_le_of_ne hworse hne.symm }

section Example

def ramp (max : Bool) : FunctionProblem ℝ :=
  { id := 0, max, dimension := 1, step := 1, initialPoint := [0], domain := [(0, 1)]
    function := fun point => match point with
      | [x] => .ok x
      | _ => .error .indexOutOfBounds }

def rampSolution (id : ℕ) (x : ℝ) : Core.Solution ℝ :=
  { id, agent := none, solutionsVector := [some x], functionValue := some x
    viable := true, changed := false }

theorem evaluated_rampSolution (max : Bool) (id : ℕ) (x : ℝ) :
    Evaluated (ramp max) (rampSolution id x) x :=
  ⟨rfl, [x], rfl, rfl⟩

def rampMemory : QLearningMemory ℝ :=
  { bestFoundSolution := some (rampSolution 0 0), analyser := .function, qTable := [] }

/-- In a maximization the annealing takes the value one for an improvement on zero, and
no other component does. -/
theorem maximization_disagrees :
    ¬Agrees (ramp true) rampMemory (rampSolution 1 1) (rampSolution 0 0) 1 := by
  intro hagrees
  have hfar : SolutionAnalyser.tolerance ≤ |(1 : ℝ) - 0| := by
    norm_num [SolutionAnalyser.tolerance]
  have hprefers := prefers_iff (evaluated_rampSolution true 1 1)
    (evaluated_rampSolution true 0 0) hfar
  have huphill : Uphill (ramp true) (rampSolution 1 1) (rampSolution 0 0) 1 :=
    (uphill_iff expLaws_real (evaluated_rampSolution true 1 1)
      (evaluated_rampSolution true 0 0) one_pos).2 (by norm_num [setback, ramp])
  have hlt : (1 : ℝ) < 0 := hprefers.1 (hagrees.accepts.2 huphill)
  exact absurd hlt (by norm_num)

theorem components_agree_iff_example :
    Agrees (ramp false) rampMemory (rampSolution 1 1) (rampSolution 0 0) 1 ↔
      (ramp false).max = false :=
  components_agree_iff (ramp false) rampMemory (rampSolution 1 1) (rampSolution 0 0) 1 0 1
    (evaluated_rampSolution false 1 1) (evaluated_rampSolution false 0 0)
    (by norm_num [SolutionAnalyser.tolerance]) one_pos rfl rfl

end Example

end DOptimas.Proofs.Direction
