import DOptimas.Heuristics.Heap
import DOptimas.Heuristics.WholeRuns
import DOptimas.Proofs.DifferentialEvolution
/-!
# Evaluation accounting

A context counts the calculations it is told of, and the benchmark counts the
calls of `evaluateFunction`.  A calculation is one of each.  GRASP also asks for
adaptive values, of which no context is told.
-/

namespace DOptimas.Proofs.EvaluationAccounting

open DOptimas.Support DOptimas.Heuristics
open DOptimas.Core (SolutionAnalyser)

variable {K : Type} [RealArith K]

def AllBenchmark (w : World K) : Prop :=
  ∀ s ∈ w.solutions, ∃ q : BenchmarkProblem K, s.problem = q.toProblem

/-- How the two counts compare since `start`. -/
structure Tallied (R : ℕ → ℕ → Prop) (start w : World K) : Prop where
  benchmark : AllBenchmark w
  tally : R (w.invocations + start.evaluations) (w.evaluations + start.invocations)

def Steady (R : ℕ → ℕ → Prop) : Prop := ∀ a b, R a b → R (a + 1) (b + 1)

/-- The two counts of a part of a program. -/
structure Spends (evaluations invocations : ℕ) (w w' : World K) : Prop where
  benchmark : AllBenchmark w'
  evaluations : w'.evaluations = w.evaluations + evaluations
  invocations : w'.invocations = w.invocations + invocations

section Primitives

variable {w w' w'' : World K} {R : ℕ → ℕ → Prop} {start : World K}

theorem AllBenchmark.modify (h : AllBenchmark w) (r : Ref) {f : Solution K → Solution K}
    (hf : ∀ s, (f s).problem = s.problem) :
    ∀ s ∈ w.solutions.modify r f, ∃ q : BenchmarkProblem K, s.problem = q.toProblem := by
  intro s hs
  obtain ⟨t, ht, rfl | rfl⟩ := mem_modify hs
  · exact h s ht
  · rw [hf t]
    exact h t ht

theorem AllBenchmark.append (h : AllBenchmark w) {t : Solution K}
    (ht : ∃ q : BenchmarkProblem K, t.problem = q.toProblem) :
    ∀ s ∈ w.solutions ++ [t], ∃ q : BenchmarkProblem K, s.problem = q.toProblem := by
  intro s hs
  rcases List.mem_append.1 hs with hs | hs
  · exact h s hs
  · rw [List.mem_singleton.1 hs]
    exact ht

theorem Spends.trans {e e' i i' : ℕ} (h : Spends e i w w')
    (h' : Spends e' i' w' w'') : Spends (e + e') (i + i') w w'' :=
  ⟨h'.benchmark, by rw [h'.evaluations, h.evaluations, Nat.add_assoc],
    by rw [h'.invocations, h.invocations, Nat.add_assoc]⟩

theorem spends_buildSolution (h : AllBenchmark w) (p : BenchmarkProblem K) :
    Ends (buildSolution p.toProblem) w fun _ => Spends 0 0 w := by
  unfold buildSolution
  refine Ends.bind (Q := fun _ => Spends 0 0 w) (.changes ⟨h, rfl, rfl⟩) fun id w' hw' => ?_
  exact .changes ⟨hw'.benchmark.append ⟨p, rfl⟩, hw'.evaluations, hw'.invocations⟩

theorem spends_clone (h : AllBenchmark w) (r : Ref) :
    Ends (clone r) w fun _ => Spends 0 0 w := by
  unfold clone
  refine (ends_deref r).bind ?_
  rintro s w ⟨hs, rfl⟩
  refine Ends.bind (Q := fun _ => Spends 0 0 w) (.changes ⟨h, rfl, rfl⟩) fun id w' hw' => ?_
  exact .changes
    ⟨hw'.benchmark.append (h s (List.mem_of_getElem? hs)), hw'.evaluations, hw'.invocations⟩

theorem spends_accept (h : AllBenchmark w) (a : SolutionAnalyser) (r : Ref) :
    Ends (accept a r) w fun _ => Spends 0 1 w := by
  unfold accept
  refine Ends.bind (Q := fun _ => Spends 0 1 w) (.modifies ⟨h, rfl, rfl⟩) fun _ w₁ hw₁ => ?_
  refine (Ends.reads (Q := fun v w' => v = w₁ ∧ w' = w₁) ⟨rfl, rfl⟩).bind ?_
  rintro v _ ⟨rfl, rfl⟩
  split
  · refine (spends_clone hw₁.benchmark r).bind fun best w₂ hw₂ => ?_
    have hspent := hw₁.trans hw₂
    exact .modifies ⟨hspent.benchmark, hspent.evaluations, hspent.invocations⟩
  · refine (ends_getBestSolution a _ r).bind ?_
    rintro best v ⟨-, hv⟩
    subst v
    exact .modifies ⟨hw₁.benchmark, hw₁.evaluations, hw₁.invocations⟩

theorem spends_answered {α : Type} (h : AllBenchmark w) (answer : Answer α) :
    Ends (answered answer) w fun a w' =>
      answer.outcome = .ok a ∧ Spends answer.evaluations 0 w w' := by
  unfold answered
  refine Ends.bind (Q := fun _ => Spends answer.evaluations 0 w) (.modifies ⟨h, rfl, rfl⟩) ?_
  intro _ w₁ hw₁
  refine (ends_orThrow _).mono ?_
  rintro a w' ⟨ha, rfl⟩
  exact ⟨ha, hw₁⟩

theorem objectiveFunction_evaluations {q : BenchmarkProblem K} {calls : ℕ}
    {vector : List (Option (Element K))} {x : K}
    (h : (q.objectiveFunction calls vector).outcome = .ok x) :
    (q.objectiveFunction calls vector).evaluations = 1 := by
  unfold BenchmarkProblem.objectiveFunction at h ⊢
  split
  next heq =>
    rw [heq] at h
    cases h
  · rfl

theorem spends_assign (h : AllBenchmark w) (r : Ref) {f : Solution K → Solution K}
    (hf : ∀ s, (f s).problem = s.problem) : Ends (assign r f) w fun _ => Spends 0 0 w :=
  .modifies ⟨h.modify r hf, rfl, rfl⟩

theorem spends_calculate (h : AllBenchmark w) (a : SolutionAnalyser) (r : Ref) :
    Ends (calculate (some a) r) w fun _ => Spends 1 1 w := by
  unfold calculate
  refine (ends_deref r).bind ?_
  rintro s v ⟨hs, hv⟩
  subst v
  refine (Ends.reads (Q := fun v w' => v = w ∧ w' = w) ⟨rfl, rfl⟩).bind ?_
  rintro v v' ⟨hv, hv'⟩
  subst v v'
  obtain ⟨q, hq⟩ := h s (List.mem_of_getElem? hs)
  refine Ends.bind (Q := fun _ => Spends 1 0 w) ?_ fun x w₁ hw₁ => ?_
  · refine (spends_answered h _).mono ?_
    rintro x w' ⟨hx, hspent⟩
    rw [hq] at hx hspent
    rw [show (q.toProblem.objectiveFunction w.evaluations s.solutionsVector).evaluations = 1 from
      objectiveFunction_evaluations hx] at hspent
    exact hspent
  refine Ends.bind (Q := fun _ => Spends 0 0 w₁) (spends_assign hw₁.benchmark r fun _ => rfl)
    fun _ w₂ hw₂ => ?_
  refine Ends.bind (Q := fun _ => Spends 0 0 w₂) (spends_assign hw₂.benchmark r fun _ => rfl)
    fun _ w₃ hw₃ => ?_
  refine (ends_orThrow _).bind ?_
  rintro - v ⟨-, hv⟩
  subst v
  refine Ends.bind (Q := fun _ => Spends 0 0 w₃) (spends_assign hw₃.benchmark r fun _ => rfl)
    fun _ w₄ hw₄ => ?_
  exact (spends_accept hw₄.benchmark a r).mono fun _ w' hw' =>
    (((hw₁.trans hw₂).trans hw₃).trans hw₄).trans hw'

end Primitives

/-! ## What every run keeps -/

section Invariant

variable {R : ℕ → ℕ → Prop} {start w w' : World K} {n : ℕ}

theorem Tallied.spend (hR : Steady R) (h : Tallied R start w) (hspent : Spends n n w w') :
    Tallied R start w' := by
  refine ⟨hspent.benchmark, ?_⟩
  have hn : ∀ n,
      R (w.invocations + start.evaluations + n) (w.evaluations + start.invocations + n) := by
    intro n
    induction n with
    | zero => exact h.tally
    | succ n ih => exact hR _ _ ih
  have hleft : w'.invocations + start.evaluations = w.invocations + start.evaluations + n := by
    rw [hspent.invocations]
    omega
  have hright : w'.evaluations + start.invocations = w.evaluations + start.invocations + n := by
    rw [hspent.evaluations]
    omega
  rw [hleft, hright]
  exact hn n

theorem tallied_calculates (hR : Steady R) (a : SolutionAnalyser) (start : World K) :
    CalculatesAny (Tallied R start) (some a) :=
  fun _ r _ _ _ h => (spends_calculate h.benchmark a r).mono fun _ _ hspent => h.spend hR hspent

theorem tallied_keeps (hR : Steady R) (p : BenchmarkProblem K) (a : SolutionAnalyser)
    (start : World K) : Keeps (Tallied R start) (fun _ => True) p.toProblem (some a) where
  draw _ _ _ _ _ h := ⟨h.benchmark, h.tally⟩
  vector _ r _ _ h := ⟨h.benchmark.modify r fun _ => rfl, h.tally⟩
  build _ h := (spends_buildSolution h.benchmark p).mono fun _ _ hspent =>
    ⟨trivial, h.spend hR hspent⟩
  clone _ r h := (spends_clone h.benchmark r).mono fun _ _ hspent => ⟨trivial, h.spend hR hspent⟩
  calculate _ r _ h := (spends_calculate h.benchmark a r).mono fun _ _ hspent => h.spend hR hspent

theorem steady_eq : Steady (· = ·) := fun _ _ h => congrArg (· + 1) h

theorem steady_le : Steady (· ≤ ·) := fun _ _ h => Nat.add_le_add_right h 1

theorem steady_lt : Steady (· < ·) := fun _ _ h => Nat.add_lt_add_right h 1

end Invariant

/-! ## The construction of GRASP -/

section Construction

variable {this : GRASP K} {p : BenchmarkProblem K} {start w w' : World K} {r : Ref}
  {R : ℕ → ℕ → Prop} {a : SolutionAnalyser}

theorem spends_adaptiveFunctionValue (h : AllBenchmark w) (r : Ref) (e : Element K) :
    Ends (adaptiveFunctionValue r e) w fun _ w' => ∃ n, Spends n 0 w w' := by
  unfold adaptiveFunctionValue
  refine (ends_deref r).bind ?_
  rintro s v ⟨-, hv⟩
  subst v
  refine (Ends.reads (Q := fun v w' => v = w ∧ w' = w) ⟨rfl, rfl⟩).bind ?_
  rintro v v' ⟨hv, hv'⟩
  subst v v'
  exact (spends_answered h _).mono fun _ _ hspent => ⟨_, hspent.2⟩

theorem adaptive_keeps (hR : ∀ a b n, R a b → R a (b + n)) (e : Element K) (h : Tallied R start w) :
    Ends (adaptiveFunctionValue r e) w fun _ => Tallied R start := by
  refine (spends_adaptiveFunctionValue h.benchmark r e).mono ?_
  rintro _ w' ⟨n, hspent⟩
  refine ⟨hspent.benchmark, ?_⟩
  have hright : w'.evaluations + start.invocations = w.evaluations + start.invocations + n := by
    rw [hspent.evaluations]
    omega
  rw [hspent.invocations, hright]
  exact hR _ _ n h.tally

theorem lt_adaptive (a b n : ℕ) (h : a < b) : a < b + n := Nat.lt_add_right n h

theorem adaptive_spends (h : Tallied (· ≤ ·) start w) {id : ℕ}
    (hr : w.solutions[r]? = some (Solution.built p.toProblem id)) (hdimension : 0 < p.dimension)
    (e : Element K) : Ends (adaptiveFunctionValue r e) w fun _ => Tallied (· < ·) start := by
  unfold adaptiveFunctionValue
  refine (ends_deref r).bind ?_
  rintro s v ⟨hs, hv⟩
  subst v
  obtain rfl : s = Solution.built p.toProblem id := Option.some.inj (hs.symm.trans hr)
  refine (Ends.reads (Q := fun v w' => v = w ∧ w' = w) ⟨rfl, rfl⟩).bind ?_
  rintro v v' ⟨hv, hv'⟩
  subst v v'
  have hone : (p.adaptiveFunctionValue w.evaluations [] e).evaluations = 1 := by
    unfold BenchmarkProblem.adaptiveFunctionValue
    rw [if_neg (by simpa using hdimension.ne)]
    simp [BenchmarkProblem.toDoubleArray, BenchmarkProblem.evaluateFunction]
  refine (spends_answered h.benchmark _).mono ?_
  rintro _ w' ⟨-, hspent⟩
  have hvector : (Solution.built p.toProblem id).solutionsVector = [] := rfl
  have hevaluations := hspent.evaluations
  have hadaptive :
      (Solution.built p.toProblem id).problem.adaptiveFunctionValue w.evaluations [] e =
        p.adaptiveFunctionValue w.evaluations [] e := rfl
  rw [hvector, hadaptive, hone] at hevaluations
  refine ⟨hspent.benchmark, ?_⟩
  have htally := h.tally
  rw [hspent.invocations, hevaluations]
  omega

theorem spends_adaptiveFunctionValues
    (hkeeps : Keeps (Tallied (· < ·) start) (fun _ => True) this.problem (some a))
    (h : Tallied (· ≤ ·) start w) {id : ℕ}
    (hr : w.solutions[r]? = some (Solution.built p.toProblem id)) (hdimension : 0 < p.dimension)
    {candidates : List (Element K)} (hcandidates : candidates ≠ []) :
    Ends (GRASP.adaptiveFunctionValues r candidates) w fun _ => Tallied (· < ·) start := by
  have hentry : ∀ (e : Element K) (values : List (Element K × K)) (w : World K),
      Tallied (· < ·) start w →
      Ends (do
        let value ← nonNull (← adaptiveFunctionValue r e)
        if values.any fun entry => entry.1 = e then
          return values
        else
          return values ++ [(e, value)]) w fun _ => Tallied (· < ·) start := by
    intro e values w hw
    refine (adaptive_keeps lt_adaptive e hw).bind fun value w hw => ?_
    refine (ends_nonNull _).bind ?_
    rintro x w ⟨-, rfl⟩
    split
    · exact .ret hw
    · exact .ret hw
  obtain ⟨e, rest, rfl⟩ := List.exists_cons_of_ne_nil hcandidates
  unfold GRASP.adaptiveFunctionValues
  rw [List.foldlM_cons]
  refine Ends.bind (Q := fun _ => Tallied (· < ·) start) ?_ fun values w hw =>
    (hkeeps.pick hw _ _).mono fun _ _ hw => hw.2
  refine Ends.bind (Q := fun _ => Tallied (· < ·) start) ?_ fun values w hw => ?_
  · refine (adaptive_spends h hr hdimension e).bind fun value w hw => ?_
    cases value with
    | none => exact .ret hw
    | some _ => exact hentry e [] w hw
  · refine .foldlM (I := fun _ => Tallied (· < ·) start) hw fun e _ values w hw => ?_
    refine (adaptive_keeps lt_adaptive e hw).bind fun value w hw => ?_
    cases value with
    | none => exact .ret hw
    | some _ => exact hentry e values w hw

theorem spends_construct
    (hkeeps : Keeps (Tallied (· < ·) start) (fun _ => True) this.problem (some a))
    (h : Tallied (· ≤ ·) start w) {id : ℕ}
    (hr : w.solutions[r]? = some (Solution.built p.toProblem id)) (hdimension : 0 < p.dimension)
    {candidates : List (Element K)} (hcandidates : candidates ≠ []) :
    Ends (GRASP.construct this r candidates) w fun _ => Tallied (· < ·) start := by
  unfold GRASP.construct
  refine (spends_adaptiveFunctionValues hkeeps h hr hdimension hcandidates).bind
    fun values w hw => ?_
  split
  · refine (ends_nonNull _).bind ?_
    rintro alpha w ⟨-, rfl⟩
    dsimp only
    split
    · exact .ret hw
    · refine (hkeeps.nextInt hw _ _).bind fun index w hw => ?_
      refine (ends_nth _ _).bind ?_
      rintro e w ⟨-, rfl⟩
      exact (hkeeps.addElement hw trivial e).bind fun _ w hw => .ret hw
  · exact .ret hw

/-- The list of candidates is empty if and only if there is no coordinate. -/
theorem ends_getCandidates {c : CandidatesList K}
    (hc : c = p.benchmarkCandidatesList ∨ c = p.psoBenchmarkCandidatesList) :
    Ends c.getCandidates w fun candidates w' =>
      (candidates = [] ↔ p.dimension = 0) ∧ w'.solutions = w.solutions := by
  have hdraws := draws_solutions w
  rcases hc with rfl | rfl
  · refine Ends.bind (Q := fun (lists : List (List (Element K))) w' =>
      lists.length = p.dimension ∧ (∀ l ∈ lists, l ≠ []) ∧ w'.solutions = w.solutions) ?_ ?_
    · refine (Ends.mapM_idx (I := fun (lists : List (List (Element K))) w' =>
        (∀ l ∈ lists, l ≠ []) ∧ w'.solutions = w.solutions) ⟨by simp, rfl⟩ ?_).mono
        fun lists w' h => ⟨by simpa using h.1, h.2⟩
      rintro i j - lists w₁ - ⟨hlists, hw₁⟩
      refine (ends_orThrow _).bind ?_
      rintro ⟨lower, upper⟩ w₁ ⟨-, rfl⟩
      refine (Ends.mapM_idx (I := fun _ w' => w'.solutions = w.solutions) hw₁
        fun _ _ _ _ w₂ _ hw₂ => ?_).mono fun l w' ⟨hlength, hw'⟩ => ⟨fun x hx => ?_, hw'⟩
      · exact (hdraws.nextUniform hw₂ _ _).bind fun u w hw => hdraws.newFunctionSolutionElement hw u
      · rcases List.mem_append.1 hx with hx | hx
        · exact hlists x hx
        · rw [List.mem_singleton.1 hx]
          rintro rfl
          simp at hlength
    · rintro lists w' ⟨hlength, hne, hw'⟩
      refine .ret ⟨?_, hw'⟩
      rw [← hlength, List.length_eq_zero_iff]
      constructor
      · intro hflat
        refine List.eq_nil_iff_forall_not_mem.2 fun l hl => hne l hl ?_
        exact List.flatten_eq_nil_iff.1 hflat l hl
      · rintro rfl
        rfl
  · refine (Ends.mapM_idx (I := fun _ w' => w'.solutions = w.solutions) rfl
      fun _ _ _ _ w₂ _ hw₂ => ?_).mono fun l w' ⟨hlength, hw'⟩ => ⟨?_, hw'⟩
    · exact (hdraws.nextUniform hw₂ _ _).bind fun u w hw => hdraws.newFunctionSolutionElement hw u
    · rw [← List.length_eq_zero_iff, hlength, List.length_range]

variable (h : (MetaHeuristic.grasp this).Uses p.parts)
include h

theorem getCandidates_keeps {I : World K → Prop} (hI : Draws I) {c : CandidatesList K}
    (hc : this.candidatesList = some c) (hw : I w) :
    Ends c.getCandidates w fun candidates w' =>
      (candidates = [] ↔ p.dimension = 0) ∧ w'.solutions = w.solutions ∧ I w' := by
  obtain ⟨-, hlists, -⟩ := h
  have hc' : c = p.benchmarkCandidatesList ∨ c = p.psoBenchmarkCandidatesList := by
    rcases hlists with hnone | hsome | hsome
    · rw [hc] at hnone
      cases hnone
    · exact Or.inl (Option.some.inj (hc.symm.trans hsome))
    · exact Or.inr (Option.some.inj (hc.symm.trans hsome))
  have hkept : Ends c.getCandidates w fun _ => I := by
    rcases hc' with rfl | rfl
    · exact hI.tenEach hw p.domain p.dimension
    · exact hI.oneEach hw p.dimension
  exact ((ends_getCandidates hc').and hkept).mono fun _ _ hend => ⟨hend.1.1, hend.1.2, hend.2⟩

/-- A construction calls `evaluateFunction` if there is a coordinate to fill. -/
theorem spends_construcao (hdimension : 0 < p.dimension) (a : SolutionAnalyser)
    (hw : Tallied (· ≤ ·) start w) (fuel : ℕ) :
    Ends (GRASP.construcao this fuel) w fun _ => Tallied (· < ·) start := by
  have hproblem : this.problem = p.toProblem := h.1
  have hlt : Keeps (Tallied (· < ·) start) (fun _ => True) this.problem (some a) :=
    hproblem ▸ tallied_keeps steady_lt p a start
  have hle := tallied_keeps steady_le p a start
  unfold GRASP.construcao
  rw [hproblem]
  refine ((Heuristics.ends_buildSolution p.toProblem).and (hle.build w hw)).bind ?_
  rintro r w₁ ⟨⟨rfl, id, hw₁⟩, -, htallied⟩
  refine (ends_nonNull _).bind ?_
  rintro c v ⟨hc, hv⟩
  subst v
  refine (getCandidates_keeps h hle.toDraws hc htallied).bind ?_
  rintro candidates w₂ ⟨hempty, hsame, htallied⟩
  have hr : w₂.solutions[w.solutions.length]? = some (Solution.built p.toProblem id) := by
    rw [hsame, hw₁]
    simp
  have hcandidates : candidates ≠ [] := fun heq => hdimension.ne' (hempty.1 heq)
  refine Ends.bind (Q := fun _ => Tallied (· < ·) start) ?_ fun _ w hw => .ret hw
  cases fuel with
  | zero => exact .throws _
  | succ fuel =>
      unfold repeatWhile
      refine Ends.bind (Q := fun go w' => go = true ∧ w' = w₂)
        (.ret ⟨by simpa using hcandidates, rfl⟩) ?_
      rintro go v ⟨rfl, hv⟩
      subst v
      rw [if_pos rfl]
      refine (spends_construct hlt htallied hr hdimension hcandidates).bind fun rest w hw => ?_
      exact .repeatWhile (I := fun _ => Tallied (· < ·) start) (fun _ _ hw => .ret hw)
        (fun candidates w hw => GRASP.keeps_construct hlt
          (fun w r e _ hw => adaptive_keeps lt_adaptive e hw) hw trivial candidates) hw

end Construction

/-! ## Runs -/

section Runs

variable {this : GRASP K} {p : BenchmarkProblem K} {start w : World K} {a : SolutionAnalyser}

/-- The loop's first look at the stop condition ends it. -/
def StopsAtOnce (this : GRASP K) (w : World K) : Prop :=
  ∃ w', isSatisfied this.stopCondition 0 0 this.metaHeuristicParameters w = .ok true w'

/-- A run of the metaheuristic asks for no adaptive value. -/
def NeverAdaptive (p : BenchmarkProblem K) (w : World K) : MetaHeuristic K → Prop
  | .grasp this => p.dimension = 0 ∨ StopsAtOnce this w
  | _ => True

theorem stop_eq (s : StopCondition) (time : K) (it wi : ℤ)
    (parameters : MetaHeuristicParameters K) :
    (∃ e, s.isSatisfied time it wi parameters = throw e) ∨
      ∃ b, s.isSatisfied time it wi parameters = pure b := by
  cases s with
  | f0 => exact Or.inr ⟨false, rfl⟩
  | mix =>
      simp only [StopCondition.isSatisfied]
      split
      · exact Or.inl ⟨_, rfl⟩
      · exact Or.inr ⟨_, rfl⟩
      · exact Or.inr ⟨_, rfl⟩
      · exact Or.inr ⟨_, rfl⟩
  | _ =>
      simp only [StopCondition.isSatisfied]
      split
      · exact Or.inr ⟨_, rfl⟩
      · exact Or.inr ⟨_, rfl⟩

theorem isSatisfied_congr {s : Option StopCondition} {it wi : ℤ}
    {parameters : MetaHeuristicParameters K} {w v w' : World K} {b : Bool}
    (hclock : w'.clock = w.clock) (h : isSatisfied s it wi parameters w = .ok b v) :
    ∃ v', isSatisfied s it wi parameters w' = .ok b v' := by
  have htime : ∀ w : World K, getTime w =
      .ok (w.clock 0) { w with clock := fun n => w.clock (n + 1) } := fun _ => rfl
  unfold isSatisfied at h ⊢
  rw [bind_of_ok (htime w)] at h
  rw [bind_of_ok (htime w'), hclock]
  cases s with
  | none => cases h
  | some s =>
      rw [bind_of_ok (show (nonNull (some s) : Program K StopCondition) _ = .ok s _ from rfl)]
        at h ⊢
      rcases stop_eq s (w.clock 0) it wi parameters with ⟨e, heq⟩ | ⟨b', heq⟩
      · rw [heq] at h
        cases h
      · rw [heq] at h ⊢
        cases h
        exact ⟨_, rfl⟩

theorem buildSolution_clock {problem : Problem K} :
    Ends (buildSolution problem) w fun _ w' => w'.clock = w.clock := by
  unfold buildSolution
  exact Ends.bind (Q := fun _ w' => w'.clock = w.clock) (.changes rfl) fun _ _ hw => .changes hw

variable (h : (MetaHeuristic.grasp this).Uses p.parts)
include h

theorem uses_search {R : ℕ → ℕ → Prop} (hR : Steady R) (a : SolutionAnalyser) (start : World K) :
    ∀ l, this.localSearch = some l →
      ModifiesIfThere (Tallied R start) (fun _ => True) l.neighbor :=
  fun l hl => (p.parts_keep _ _ _ (tallied_keeps hR p a start)).1 _ (h.2.2 l hl)

theorem run_counts (hnever : NeverAdaptive p w (.grasp this)) (a : SolutionAnalyser) (fuel : ℕ)
    (externalSolution : List Ref) (hw : Tallied (· = ·) start w) :
    Ends (this.runMetaHeuristic fuel externalSolution (some a)) w fun _ =>
      Tallied (· = ·) start := by
  have hproblem : this.problem = p.toProblem := h.1
  have hkeeps : Keeps (Tallied (· = ·) start) (fun _ => True) this.problem (some a) :=
    hproblem ▸ tallied_keeps steady_eq p a start
  rcases hnever with hdimension | ⟨v, hstops⟩
  · refine (GRASP.keeps_run hkeeps.toObserves (uses_search h steady_eq a start) (fun w hw => ?_) hw
      externalSolution).mono fun _ _ hend => hend.2
    unfold GRASP.construcao
    refine (hkeeps.build w hw).bind fun r w ⟨_, hw⟩ => ?_
    refine (ends_nonNull _).bind ?_
    rintro c w ⟨hc, rfl⟩
    refine (getCandidates_keeps h hkeeps.toDraws hc hw).bind ?_
    rintro candidates w ⟨hempty, -, hw⟩
    rw [hempty.2 hdimension]
    refine Ends.bind (Q := fun _ => Tallied (· = ·) start) ?_ fun _ w hw => .ret ⟨trivial, hw⟩
    cases fuel with
    | zero => exact .throws _
    | succ fuel => exact .ret hw
  · unfold GRASP.runMetaHeuristic GRASP.internalExecutionGRASP
    refine Ends.bind (Q := fun _ => Tallied (· = ·) start) ?_ fun _ _ hw => .ret hw
    refine (buildSolution_clock.and (hkeeps.build w hw)).bind ?_
    rintro r w₁ ⟨hclock, -, hw₁⟩
    refine Ends.bind (Q := fun _ => Tallied (· = ·) start) ?_ fun _ _ hw => .ret hw
    obtain ⟨v', hstops'⟩ := isSatisfied_congr hclock hstops
    cases fuel with
    | zero => exact .throws _
    | succ fuel =>
        have hgoes : GRASP.goesOn this ⟨r, 0, 0⟩ w₁ = .ok false v' := by
          unfold GRASP.goesOn
          rw [bind_of_ok hstops']
          rfl
        have htallied := hkeeps.isSatisfied hw₁ _ _ _ _ _ _ hstops'
        unfold repeatWhile
        intro state w' hrun
        rw [bind_of_ok hgoes] at hrun
        cases hrun
        exact htallied

theorem run_spends (hnever : ¬NeverAdaptive p w (.grasp this)) (a : SolutionAnalyser) (fuel : ℕ)
    (externalSolution : List Ref) (hw : Tallied (· ≤ ·) start w) :
    Ends (this.runMetaHeuristic fuel externalSolution (some a)) w fun _ =>
      Tallied (· < ·) start := by
  have hproblem : this.problem = p.toProblem := h.1
  have hlt : Keeps (Tallied (· < ·) start) (fun _ => True) this.problem (some a) :=
    hproblem ▸ tallied_keeps steady_lt p a start
  have hle : Keeps (Tallied (· ≤ ·) start) (fun _ => True) this.problem (some a) :=
    hproblem ▸ tallied_keeps steady_le p a start
  obtain ⟨hdimension, hgoes⟩ := not_or.1 hnever
  have hconstruct : ∀ w, Tallied (· ≤ ·) start w →
      Ends (this.construcao fuel) w fun _ w' => True ∧ Tallied (· < ·) start w' := fun w hw =>
    (spends_construcao h (Nat.pos_of_ne_zero hdimension) a hw fuel).mono fun _ _ hw => ⟨trivial, hw⟩
  have hsearch := uses_search h steady_lt a start
  unfold GRASP.runMetaHeuristic GRASP.internalExecutionGRASP
  refine Ends.bind (Q := fun _ => Tallied (· < ·) start) ?_ fun _ _ hw => .ret hw
  refine (buildSolution_clock.and (hle.build w hw)).bind ?_
  rintro r w₁ ⟨hclock, -, hw₁⟩
  refine Ends.bind (Q := fun _ => Tallied (· < ·) start) ?_ fun _ _ hw => .ret hw
  cases fuel with
  | zero => exact .throws _
  | succ fuel =>
      unfold repeatWhile
      refine Ends.bind (Q := fun go w' => go = true ∧ Tallied (· ≤ ·) start w') ?_ ?_
      · intro go w₂ hrun
        unfold GRASP.goesOn at hrun
        cases hstops : isSatisfied this.stopCondition 0 0 this.metaHeuristicParameters w₁ with
        | error e v =>
            rw [bind_of_error hstops] at hrun
            cases hrun
        | ok stops v =>
            rw [bind_of_ok hstops] at hrun
            cases hrun
            refine ⟨?_, hle.isSatisfied hw₁ _ _ _ _ _ _ hstops⟩
            cases stops with
            | false => rfl
            | true => exact absurd (isSatisfied_congr hclock.symm hstops) hgoes
      · rintro go w₂ ⟨rfl, hw₂⟩
        rw [if_pos rfl]
        refine (GRASP.keeps_iterate hlt.toObserves hsearch (hconstruct w₂ hw₂) trivial).bind ?_
        rintro state w₃ ⟨-, hw₃⟩
        refine (GRASP.keeps_loop hlt.toObserves hsearch
          (fun w hw => hconstruct w ⟨hw.benchmark, hw.tally.le⟩)
          hw₃ fuel trivial).mono fun _ _ hend => hend.2

omit h in
/-- The calls made in a run are never fewer than the evaluations that its context counts, and
they are as many if and only if the run asks for no adaptive value. -/
theorem process_counts_iff (m : MetaHeuristic K) (h : m.Uses p.parts) (hw : AllBenchmark w)
    (a : SolutionAnalyser) (fuel : ℕ) (solutionList : List Ref) :
    Ends (MetaHeuristic.processMetaHeuristic fuel solutionList (some a)) (m, w) fun _ s =>
      s.2.invocations + w.evaluations ≤ s.2.evaluations ∧
      (s.2.invocations + w.evaluations = s.2.evaluations ↔ NeverAdaptive p w m) := by
  have hstart : ∀ {R : ℕ → ℕ → Prop}, (∀ n, R n n) →
      Tallied R { w with invocations := 0, bestSolution := none }
        { w with invocations := 0, bestSolution := none } :=
    fun hrefl => ⟨hw, by simpa using hrefl w.evaluations⟩
  by_cases hgrasp : m.name = .GRASP
  · cases m with
    | grasp this =>
        have hclock : ({ w with invocations := 0, bestSolution := none } : World K).clock =
          w.clock := rfl
        have hnever : NeverAdaptive p { w with invocations := 0, bestSolution := none }
            (.grasp this) ↔ NeverAdaptive p w (.grasp this) :=
          or_congr_right ⟨fun ⟨_, hs⟩ => isSatisfied_congr hclock.symm hs,
            fun ⟨_, hs⟩ => isSatisfied_congr hclock hs⟩
        unfold MetaHeuristic.processMetaHeuristic
        refine ends_call
          (Q := fun _ w' => w' = { w with invocations := 0, bestSolution := none })
          (.modifies rfl) ?_
        rintro - w' rfl
        by_cases hexact : NeverAdaptive p w (.grasp this)
        · refine Ends.onState ((run_counts h (hnever.2 hexact) a fuel solutionList
            (hstart fun _ => rfl)).mono fun _ w' hend => ?_)
          have htally : w'.invocations + w.evaluations = w'.evaluations + 0 := hend.tally
          exact ⟨htally.le, iff_of_true htally hexact⟩
        · refine Ends.onState ((run_spends h (fun hn => hexact (hnever.1 hn)) a fuel solutionList
            (hstart fun _ => le_rfl)).mono fun _ w' hend => ?_)
          have htally : w'.invocations + w.evaluations < w'.evaluations + 0 := hend.tally
          exact ⟨htally.le, iff_of_false htally.ne hexact⟩
    | _ => cases hgrasp
  · have hexact : NeverAdaptive p w m := by
      cases m with
      | grasp this => exact absurd rfl hgrasp
      | _ => trivial
    refine (MetaHeuristic.keeps_process m h p.parts_keep
      (tallied_keeps steady_eq p a _) (fun _ => tallied_calculates steady_eq a _)
      (fun hname => absurd hname hgrasp) (hstart fun _ => rfl) fuel solutionList).mono ?_
    rintro _ ⟨m', w'⟩ ⟨-, hend⟩
    have htally : w'.invocations + w.evaluations = w'.evaluations + 0 := hend.tally
    exact ⟨htally.le, iff_of_true htally hexact⟩

end Runs

section Example

open DifferentialEvolution (bowl exampleParameters exampleWorld returns of_returns)

def greedy : GRASP ℚ :=
  { problem := bowl.toProblem, metaHeuristicParameters := exampleParameters
    stopCondition := some .maxIterations, solutionAnalyser := .benchmark, alpha := some 0
    candidatesList := some bowl.psoBenchmarkCandidatesList
    localSearch := some ⟨.random, none, 0⟩ }

theorem greedy_uses : (MetaHeuristic.grasp greedy).Uses bowl.parts := by
  refine ⟨rfl, Or.inr (Or.inr rfl), fun l hl => ⟨none, ?_⟩⟩
  cases hl
  rfl

theorem process_counts_iff_example : ∃ r s,
    MetaHeuristic.processMetaHeuristic 4 [] (some .benchmark) (.grasp greedy, exampleWorld) =
      .ok (some [r]) s ∧
    s.2.invocations < s.2.evaluations ∧ ¬NeverAdaptive bowl exampleWorld (.grasp greedy) := by
  obtain ⟨r, s, hrun, hcheck⟩ := of_returns
    (c := fun _ s => decide (s.2.invocations < s.2.evaluations))
    (show returns _ (MetaHeuristic.processMetaHeuristic 4 [] (some .benchmark)
      (.grasp greedy, exampleWorld)) = true by decide +kernel)
  have hlt : s.2.invocations < s.2.evaluations := of_decide_eq_true hcheck
  have hworld : AllBenchmark exampleWorld := by
    intro t ht
    simp only [exampleWorld, List.mem_cons, List.not_mem_nil, or_false] at ht
    rcases ht with rfl | rfl | rfl | rfl
    all_goals exact ⟨bowl, rfl⟩
  obtain ⟨-, hiff⟩ :=
    process_counts_iff (.grasp greedy) greedy_uses hworld .benchmark 4 [] _ _ hrun
  refine ⟨r, s, hrun, hlt, fun hnever => ?_⟩
  have heq := hiff.2 hnever
  rw [show exampleWorld.evaluations = 0 from rfl] at heq
  omega

end Example

end DOptimas.Proofs.EvaluationAccounting
