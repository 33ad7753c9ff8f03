import DOptimas.Proofs.SoundSolutions
/-!
# The random local search

It keeps the best of its start and of the viable neighbours that it finds.  Its
start is not asked whether it is viable, so that an infeasible start with a low
value keeps all of them out.
-/

namespace DOptimas.Proofs.LocalSearch

open DOptimas.Support DOptimas.Heuristics
open DOptimas.Core (SolutionAnalyser)
open DifferentialEvolution (Computes)
open SoundSolutions

variable {K : Type} [RealArith K]

def Ready (problem : Problem K) (P : Solution K → Prop) (w : World K) (r : Ref) : Prop :=
  ∃ s, w.solutions[r]? = some s ∧ s.problem = problem ∧ (s.changed = false → P s)

structure Judges (problem : Problem K) (P : Solution K → Prop) : Prop where
  establishes : Establishes problem (fun _ => True) P
  tame : Tame P
  problem_eq : ∀ s, P s → s.problem = problem

def Readies (m : SolutionModifier K) (problem : Problem K) (P : Solution K → Prop) : Prop :=
  ∀ (w : World K) (r : Ref) (n : ℤ), Ready problem P w r →
    Ends (m.modify r n) w fun r' w' => w.Grows (fun _ => False) w' ∧ Ready problem P w' r' ∧
      (r' = r ∨ w.solutions.length ≤ r')

structure Searched (P : Solution K → Prop) (w : World K) (r best : Ref) (w' : World K) :
    Prop where
  grows : w.Grows (fun r => w.solutions.length ≤ r) w'
  start : Evaluated P w' w.solutions.length
  copied : ∀ T, Tame T → Evaluated T w r → Evaluated T w' w.solutions.length
  evaluated : Evaluated P w' best
  new : w.solutions.length ≤ best
  visited : ∀ t, w.solutions.length ≤ t → Viable w' t →
    Evaluated P w' t ∧ w'.value best ≤ w'.value t
  le_start : w'.value best ≤ w'.value w.solutions.length
  origin : best = w.solutions.length ∧ (∀ t, w.solutions.length < t → Viable w' t →
      w'.value w.solutions.length < w'.value t) ∨
    Viable w' best

section Readiness

variable {problem : Problem K} {P : Solution K → Prop} {context : Context} {w w' : World K}
  {r : Ref}

theorem Ready.grown (h : Ready problem P w r) (hgrows : w.Grows (fun _ => False) w') :
    Ready problem P w' r := by
  obtain ⟨s, hs, hready⟩ := h
  exact ⟨s, hgrows.kept r s hs fun hr => hr.elim, hready⟩

theorem Judges.ready (h : Judges problem P) (hr : Evaluated P w r) : Ready problem P w r := by
  obtain ⟨s, hs, -, hp⟩ := hr
  exact ⟨s, hs, h.problem_eq s hp, fun _ => hp⟩

theorem Judges.ready_of_grows (h : Judges problem P) {nb : Ref} (hr : Ready problem P w r)
    (hgrows : w.Grows (· = nb) w') (hnb : Evaluated P w' nb) : Ready problem P w' r := by
  by_cases heq : r = nb
  · exact heq ▸ h.ready hnb
  · obtain ⟨s, hs, hready⟩ := hr
    exact ⟨s, hgrows.kept r s hs fun hr => absurd hr heq, hready⟩

theorem ends_clone_ready (h : Judges problem P) (hr : Ready problem P w r) :
    Ends (clone r) w fun r' w' => r' = w.solutions.length ∧ w.Grows (fun _ => False) w' ∧
      Ready problem P w' r' ∧ ∀ T, Tame T → Evaluated T w r → Evaluated T w' r' := by
  refine (ends_clone r).mono ?_
  rintro _ w' ⟨rfl, s, id, hs, hw'⟩
  obtain ⟨t, ht, hproblem, hready⟩ := hr
  obtain rfl : s = t := Option.some.inj (hs.symm.trans ht)
  have hobject : w'.solutions[w.solutions.length]? = some { s with id, viable := false } := by
    simp [hw']
  refine ⟨rfl, grows_of_append hw' (by simp) _, ⟨_, hobject, hproblem,
    fun hchanged => h.tame s id (hready hchanged)⟩, ?_⟩
  rintro T hT ⟨u, hu, hchanged, hu'⟩
  obtain rfl : s = u := Option.some.inj (hs.symm.trans hu)
  exact ⟨_, hobject, hchanged, hT s id hu'⟩

theorem ends_evaluate_ready (h : Judges problem P) (hr : Ready problem P w r) :
    Ends (evaluate context r) w fun _ w' => w.Grows (· = r) w' ∧ Evaluated P w' r := by
  obtain ⟨t, ht, hproblem, hready⟩ := hr
  refine (ends_evaluate context r).mono ?_
  rintro value w' ⟨s, hs, hcases⟩
  obtain rfl : s = t := Option.some.inj (hs.symm.trans ht)
  rcases hcases with ⟨hchanged, -, rfl⟩ | ⟨hchanged, x, -, hcalculates⟩
  · exact ⟨.refl _ _, s, hs, hchanged, hready hchanged⟩
  · have hshaped : Shaped problem (fun _ => True) w r := by
      intro u hu
      obtain rfl : s = u := Option.some.inj (hs.symm.trans hu)
      exact ⟨hproblem, trivial⟩
    exact ⟨hcalculates.grows hs hchanged, hcalculates.evaluated h.establishes hshaped⟩

theorem benchmarkRandomSolutionModifier_readies (h : Judges problem P) (step : Option K) :
    Readies (benchmarkRandomSolutionModifier step) problem P := by
  intro w r n hr
  unfold benchmarkRandomSolutionModifier
  refine (ends_nonNull step).bind ?_
  rintro step w ⟨-, rfl⟩
  refine Ends.bind (Q := fun state w' => (w.Grows (fun _ => False) w' ∧
      w.solutions.length ≤ w'.solutions.length) ∧ Ready problem P w' state.1 ∧
      (state.1 = r ∨ w.solutions.length ≤ state.1))
    (.foldlM ⟨⟨.refl _ _, le_rfl⟩, hr, Or.inl rfl⟩ ?_) ?_
  · rintro - - state w₁ ⟨⟨hgrows, hlength⟩, ⟨u, hu, hproblem, hready⟩, -⟩
    refine (ends_benchmarkRandomMotion r step state).mono ?_
    rintro ⟨r', value⟩ w₂ ⟨rfl, s, t, hs, hw₂, hsame, hviable, -, hclone⟩
    obtain rfl : s = u := Option.some.inj (hs.symm.trans hu)
    have hlength₂ : w₂.solutions.length = w₁.solutions.length + 1 := by simp [hw₂]
    have hobject : w₂.solutions[w₁.solutions.length]? = some t := by simp [hw₂]
    have happend : w₁.Grows (fun _ => False) w₂ :=
      grows_of_append hw₂ (by simpa using hviable) _
    refine ⟨⟨hgrows.trans happend, by omega⟩, ⟨t, hobject, hsame.trans hproblem, ?_⟩,
      Or.inr hlength⟩
    intro hchanged
    obtain ⟨id, rfl⟩ := hclone hchanged
    exact h.tame s id (hready hchanged)
  · rintro state w₁ ⟨⟨hgrows, -⟩, hready, hnew⟩
    exact .ret ⟨hgrows, hready, hnew⟩

theorem benchmarkModifier_readies (h : Judges problem P) (m : BenchmarkModifier K) :
    Readies m.toSolutionModifier problem P := by
  cases m with
  | benchmarkRandom step => exact benchmarkRandomSolutionModifier_readies h step
  | otherSolutionClass => exact fun _ _ _ _ => .throws _

theorem ends_modifySolution (m : Option (SolutionModifier K))
    (hm : ∀ m', m = some m' → Readies m' problem P) (hr : Ready problem P w r) (n : ℤ) :
    Ends (modifySolution m r n) w fun r' w' => w.Grows (fun _ => False) w' ∧
      Ready problem P w' r' ∧ (r' = r ∨ w.solutions.length ≤ r') := by
  unfold modifySolution
  refine (ends_nonNull m).bind ?_
  rintro m' v ⟨hm', hv⟩
  subst v
  exact hm m' hm' w r n hr

end Readiness

section Search

variable {problem : Problem K} {P : Solution K → Prop} {context : Context} {w w₁ w₂ : World K}
  {r nb best b : Ref}

theorem searched_start (hgrows : w.Grows (· = w.solutions.length) w₁)
    (hstart : Evaluated P w₁ w.solutions.length)
    (hcopied : ∀ T, Tame T → Evaluated T w r → Evaluated T w₁ w.solutions.length) :
    Searched P w r w.solutions.length w₁ := by
  have honly : ∀ t, w.solutions.length ≤ t → Viable w₁ t → t = w.solutions.length := by
    intro t ht hv
    rcases hgrows.viable_or hv with ⟨s, hs, -⟩ | heq
    · have hlt := (List.getElem?_eq_some_iff.1 hs).1
      omega
    · exact heq
  refine ⟨hgrows.mono fun t ht => ht.ge, hstart, hcopied, hstart, le_rfl, fun t ht hv => ?_, le_rfl,
    Or.inl ⟨rfl, fun t ht hv => ?_⟩⟩
  · rw [honly t ht hv]
    exact ⟨hstart, le_rfl⟩
  · have heq := honly t ht.le hv
    omega

theorem Searched.grown (h : Searched P w r best w₁) (hgrows : w₁.Grows (fun _ => False) w₂) :
    Searched P w r best w₂ := by
  have hbest := hgrows.value_eq h.evaluated
  have hstart := hgrows.value_eq h.start
  refine ⟨h.grows.trans (hgrows.any _), hgrows.evaluated h.start,
    fun T hT hr => hgrows.evaluated (h.copied T hT hr), hgrows.evaluated h.evaluated, h.new,
    fun t ht hv => ?_, ?_, ?_⟩
  · obtain ⟨hevaluated, hle⟩ := h.visited t ht (hgrows.viable_before t hv)
    rw [hbest, hgrows.value_eq hevaluated]
    exact ⟨hgrows.evaluated hevaluated, hle⟩
  · rw [hbest, hstart]
    exact h.le_start
  · refine h.origin.imp (fun horigin => ⟨horigin.1, fun t ht hv => ?_⟩)
      (hgrows.viable_iff h.evaluated).2
    have hbefore := hgrows.viable_before t hv
    rw [hstart, hgrows.value_eq (h.visited t ht.le hbefore).1]
    exact horigin.2 t ht hbefore

theorem Searched.passed (h : Searched P w r best w₁) (hgrows : w₁.Grows (· = nb) w₂)
    (hnew : w.solutions.length ≤ nb) (hnot : ¬Viable w₂ nb) : Searched P w r best w₂ := by
  have hbest := hgrows.value_eq h.evaluated
  have hstart := hgrows.value_eq h.start
  have hbefore : ∀ t, Viable w₂ t → Viable w₁ t := by
    intro t hv
    rcases hgrows.viable_or hv with hold | rfl
    · exact hold
    · exact absurd hv hnot
  refine ⟨h.grows.trans (hgrows.mono fun t ht => ht ▸ hnew), hgrows.evaluated h.start,
    fun T hT hr => hgrows.evaluated (h.copied T hT hr), hgrows.evaluated h.evaluated, h.new,
    fun t ht hv => ?_, ?_, ?_⟩
  · obtain ⟨hevaluated, hle⟩ := h.visited t ht (hbefore t hv)
    rw [hbest, hgrows.value_eq hevaluated]
    exact ⟨hgrows.evaluated hevaluated, hle⟩
  · rw [hbest, hstart]
    exact h.le_start
  · refine h.origin.imp (fun horigin => ⟨horigin.1, fun t ht hv => ?_⟩)
      (hgrows.viable_iff h.evaluated).2
    rw [hstart, hgrows.value_eq (h.visited t ht.le (hbefore t hv)).1]
    exact horigin.2 t ht (hbefore t hv)

theorem Searched.compared (h : Searched P w r best w₁) (hgrows : w₁.Grows (· = nb) w₂)
    (hnew : w.solutions.length ≤ nb) (hnb : Evaluated P w₂ nb) (hviable : Viable w₂ nb)
    (hb : b = if w₂.keeps .benchmark nb best then nb else best)
    (hmin : w₂.value b ≤ w₂.value nb ∧ w₂.value b ≤ w₂.value best) : Searched P w r b w₂ := by
  have hbest := hgrows.value_eq h.evaluated
  have hstart := hgrows.value_eq h.start
  have hchoice : b = nb ∨ b = best := hb ▸ ite_eq_or _ _ _
  refine ⟨h.grows.trans (hgrows.mono fun t ht => ht ▸ hnew), hgrows.evaluated h.start,
    fun T hT hr => hgrows.evaluated (h.copied T hT hr), ?_, ?_, fun t ht hv => ?_, ?_, ?_⟩
  · rcases hchoice with heq | heq
    · exact heq ▸ hnb
    · exact heq ▸ hgrows.evaluated h.evaluated
  · rcases hchoice with heq | heq
    · exact heq ▸ hnew
    · exact heq ▸ h.new
  · rcases hgrows.viable_or hv with hold | rfl
    · obtain ⟨hevaluated, hle⟩ := h.visited t ht hold
      rw [hgrows.value_eq hevaluated]
      exact ⟨hgrows.evaluated hevaluated, hmin.2.trans (hbest.le.trans hle)⟩
    · exact ⟨hnb, hmin.1⟩
  · rw [hstart]
    exact hmin.2.trans (hbest.le.trans h.le_start)
  · by_cases hkeeps : w₂.keeps .benchmark nb best = true
    · rw [if_pos hkeeps] at hb
      exact Or.inr (hb ▸ hviable)
    · rw [if_neg hkeeps] at hb
      have hlt : w₂.value best < w₂.value nb := by
        rw [World.keeps, SolutionAnalyser.keepsLeft_benchmark] at hkeeps
        exact not_le.1 hkeeps
      rw [hb]
      refine h.origin.imp (fun horigin => ⟨horigin.1, fun t ht hv => ?_⟩)
        (hgrows.viable_iff h.evaluated).2
      rcases hgrows.viable_or hv with hold | rfl
      · rw [hstart, hgrows.value_eq (h.visited t ht.le hold).1]
        exact horigin.2 t ht hold
      · rw [← horigin.1]
        exact hlt

theorem ends_randomLocalSearch (h : Judges problem P) (hanalyser : problem.analyser = .benchmark)
    {neighbor : Option (SolutionModifier K)}
    (hneighbor : ∀ m, neighbor = some m → Readies m problem P) (hr : Ready problem P w r) (n : ℤ) :
    Ends (randomLocalSearch problem neighbor n r context) w (Searched P w r) := by
  unfold randomLocalSearch
  refine (ends_clone_ready h hr).bind ?_
  rintro _ w₁ ⟨rfl, hgrows₁, hready, hcopied⟩
  refine (ends_evaluate_ready h hready).bind ?_
  intro _ w₂ ⟨hgrows₂, hstart⟩
  refine (ends_clone_ready h (h.ready hstart)).bind ?_
  rintro _ w₃ ⟨rfl, hgrows₃, hcurrent, -⟩
  have hlength : w.solutions.length ≤ w₂.solutions.length := by
    obtain ⟨s, hs, -⟩ := hstart
    exact (List.getElem?_eq_some_iff.1 hs).1.le
  have hsearched := (searched_start ((hgrows₁.any _).trans hgrows₂) hstart
    fun T hT hr => hgrows₂.evaluated (hcopied T hT hr)).grown hgrows₃
  refine Ends.bind (Q := fun state w' => Searched P w r state.1 w' ∧ Ready problem P w' state.2 ∧
    w.solutions.length ≤ state.2) (.foldlM ⟨hsearched, hcurrent, hlength⟩ ?_) ?_
  · rintro - - ⟨best, current⟩ w₄ ⟨hsearched, hcurrent, hlength⟩
    dsimp only at hsearched hcurrent hlength ⊢
    refine (ends_modifySolution neighbor hneighbor hcurrent 1).bind ?_
    rintro nb w₅ ⟨hgrows₅, hready, hnew⟩
    refine (ends_evaluate_ready h hready).bind ?_
    rintro - w₆ ⟨hgrows₆, hnb⟩
    have hnew' : w.solutions.length ≤ nb := by
      rcases hnew with rfl | hnew
      · exact hlength
      · have hlong := hsearched.grows.length_le fun _ ht hle => absurd ht (not_lt.2 hle)
        omega
    refine (ends_isViable_again hnb).bind ?_
    rintro viable v ⟨hviable, hv⟩
    subst v
    split
    next hflag =>
      refine (ends_getBestSolution_keeps _ nb best).bind ?_
      rintro b v ⟨hv, hb, hmin⟩
      subst v
      rw [hanalyser] at hb
      have hnext := (hsearched.grown hgrows₅).compared hgrows₆ hnew' hnb (hviable.1 hflag) hb
        (hmin hanalyser)
      exact .ret ⟨hnext, h.ready hnext.evaluated, hnext.new⟩
    next hflag =>
      have hnext := (hsearched.grown hgrows₅).passed hgrows₆ hnew' fun hv => hflag (hviable.2 hv)
      exact .ret ⟨hnext, h.ready_of_grows (hcurrent.grown hgrows₅) hgrows₆ hnb, hlength⟩
  · rintro ⟨best, current⟩ w₄ ⟨hsearched, -⟩
    exact .ret hsearched

end Search

/-! ## Iterated local search -/

section Iterations

variable {this : ILS K} {p : BenchmarkProblem K} {f : List (Option (Element K)) → K}
  {context : Context} {w w₀ w₁ w₂ w' : World K} {r best found : Ref} {fields fields' : ILS.Fields}
  {state : ILS.State}

structure Searches (this : ILS K) (p : BenchmarkProblem K) (f : List (Option (Element K)) → K) :
    Prop where
  problem : this.problem = p.toProblem
  analyser : this.solutionAnalyser = .benchmark
  search : ∃ (neighbor : Option (BenchmarkModifier K)) (n : ℤ), this.localSearch =
    some ⟨.random, neighbor.map BenchmarkModifier.toSolutionModifier, n⟩
  disturb : ∃ m : Option (BenchmarkModifier K),
    this.solutionDisturb = m.map BenchmarkModifier.toSolutionModifier
  computes : Computes p.toProblem f

theorem Searches.judges (h : Searches this p f) :
    Judges this.problem (Valued this.problem f) := by
  refine ⟨?_, valued_tame _ _, fun s hs => hs.1⟩
  rw [h.problem]
  exact establishes_valued h.computes

theorem Searches.readies (h : Searches this p f) (m : Option (BenchmarkModifier K)) :
    ∀ m', m.map BenchmarkModifier.toSolutionModifier = some m' →
      Readies m' this.problem (Valued this.problem f) := by
  intro m' hm'
  obtain ⟨modifier, -, rfl⟩ := Option.map_eq_some_iff.1 hm'
  exact benchmarkModifier_readies h.judges modifier

theorem ends_search (h : Searches this p f)
    (hr : Ready this.problem (Valued this.problem f) w r) :
    Ends (ILS.search this r context) w (Searched (Valued this.problem f) w r) := by
  obtain ⟨neighbor, n, hsearch⟩ := h.search
  unfold ILS.search
  rw [hsearch]
  exact ends_randomLocalSearch h.judges (h.problem ▸ rfl) (h.readies neighbor) hr n

def disturbed (this : ILS K) (current : Ref) (nivel : ℤ) : Program K Ref := do
  let novaSolucao ← clone current
  modifySolution this.solutionDisturb novaSolucao nivel

theorem ends_disturbed (h : Searches this p f)
    (hr : Evaluated (Sound this.problem f) w r) (nivel : ℤ) :
    Ends (disturbed this r nivel) w fun r' w' => w.Grows (fun _ => False) w' ∧
      Ready this.problem (Valued this.problem f) w' r' := by
  obtain ⟨m, hm⟩ := h.disturb
  unfold disturbed
  refine (ends_clone_ready h.judges (h.judges.ready (Sound.valued hr))).bind ?_
  rintro nova w₁ ⟨-, hgrows₁, hready, -⟩
  rw [hm]
  refine (ends_modifySolution _ (h.readies m) hready nivel).mono ?_
  rintro r' w₂ ⟨hgrows₂, hready', -⟩
  exact ⟨hgrows₁.trans hgrows₂, hready'⟩

inductive Concludes (fields : ILS.Fields) (best found : Ref) (w : World K) : ILS.Fields → Prop where
  | passed (infeasible : ¬Viable w found) : Concludes fields best found w fields
  | compared {b current} (viable : Viable w found) (choice : b = found ∨ b = best)
      (least : w.value b ≤ w.value found ∧ w.value b ≤ w.value best)
      (next : current = found ∨ current = fields.currentSolution) :
      Concludes fields best found w ⟨current, some b⟩

theorem ends_iterate (h : Searches this p f)
    (hcurrent : Evaluated (Sound this.problem f) w fields.currentSolution)
    (hbest : fields.bestSolution = some best) (state : ILS.State) :
    Ends (ILS.iterate this context state) (fields, w) fun _ s => ∃ r w₁ found w₂,
      disturbed this fields.currentSolution state.nivel w = .ok r w₁ ∧
      ILS.search this r context w₁ = .ok found w₂ ∧ s.2.solutions = w₂.solutions ∧
      Concludes fields best found w₂ s.1 := by
  unfold ILS.iterate
  refine ends_fields ?_
  refine ends_call (Q := fun r v => clone fields.currentSolution w = .ok r v)
    (fun r v hclone => hclone) ?_
  intro nova w₁ hclone
  refine ends_call (Q := fun r v => disturbed this fields.currentSolution state.nivel w = .ok r v)
    (fun r v hmodify => ?_) ?_
  · unfold disturbed
    rw [bind_of_ok hclone]
    exact hmodify
  intro r w₂ hdisturbed
  obtain ⟨-, hready⟩ := ends_disturbed h hcurrent state.nivel r w₂ hdisturbed
  refine ends_call (Q := fun found v => ILS.search this r context w₂ = .ok found v)
    (fun found v hsearch => hsearch) ?_
  intro found w₃ hsearch
  have hsearched := ends_search h hready found w₃ hsearch
  refine ends_call (ends_evaluate_again hsearched.evaluated) ?_
  rintro - v hv
  subst v
  refine ends_call (ends_isViable_again hsearched.evaluated) ?_
  rintro viable v ⟨hviable, hv⟩
  subst v
  dsimp only
  split
  next hflag =>
    have hflagged := hviable.1 hflag
    refine ends_fields ?_
    refine ends_call (ends_nonNull _) ?_
    rintro b v ⟨hb, hv⟩
    subst v
    obtain rfl : best = b := Option.some.inj (hbest.symm.trans hb)
    refine ends_call (ends_getBestSolution_min _ _ _) ?_
    rintro b v ⟨hv, hchoice, hleast⟩
    subst v
    refine ends_setFields ?_
    refine ends_call (ends_equals _ _) ?_
    rintro same v ⟨-, hv⟩
    subst v
    split
    · exact ends_setFields (.ret ⟨r, w₂, found, w₃, hdisturbed, hsearch, rfl,
        .compared hflagged hchoice (hleast h.analyser) (Or.inl rfl)⟩)
    · exact .ret ⟨r, w₂, found, w₃, hdisturbed, hsearch, rfl,
        .compared hflagged hchoice (hleast h.analyser) (Or.inr rfl)⟩
  next hflag =>
    exact .ret ⟨r, w₂, found, w₃, hdisturbed, hsearch, rfl,
      .passed fun hv => hflag (hviable.2 hv)⟩

structure Head (this : ILS K) (f : List (Option (Element K)) → K) (w₀ : World K)
    (fields : ILS.Fields) (w : World K) (best : Ref) : Prop where
  stored : fields.bestSolution = some best
  sound : Evaluated (Sound this.problem f) w best
  current : Evaluated (Sound this.problem f) w fields.currentSolution
  grows : w₀.Grows (fun r => w₀.solutions.length ≤ r) w
  visited : ∀ t, w₀.solutions.length ≤ t → Viable w t → Evaluated (Sound this.problem f) w t

/-- The best solution is at least as good as every viable solution that was visited. -/
def Covers (w₀ w : World K) (best : Ref) : Prop :=
  ∀ t, w₀.solutions.length ≤ t → Viable w t → w.value best ≤ w.value t

/-- The iteration searches from an infeasible solution that is better than all feasible
neighbours it meets, although one of these is better than the best solution so far. -/
def Overlooks (this : ILS K) (context : Context) (state : ILS.State)
    (s : ILS.Fields × World K) : Prop :=
  ∃ r w₁ found w₂ best, disturbed this s.1.currentSolution state.nivel s.2 = .ok r w₁ ∧
    ILS.search this r context w₁ = .ok found w₂ ∧ s.1.bestSolution = some best ∧
    ¬Viable w₂ w₁.solutions.length ∧
    (∀ t, w₁.solutions.length < t → Viable w₂ t →
      w₂.value w₁.solutions.length < w₂.value t) ∧
    ∃ t, w₁.solutions.length < t ∧ Viable w₂ t ∧ w₂.value t < w₂.value best

theorem Head.length_le (h : Head this f w₀ fields w best) :
    w₀.solutions.length ≤ w.solutions.length :=
  h.grows.length_le fun _ hr hle => absurd hr (not_lt.2 hle)

theorem Head.drawn (h : Head this f w₀ fields w best) (hw : w'.solutions = w.solutions) :
    Head this f w₀ fields w' best := by
  have hgrows : w.Grows (fun _ => False) w' := .of_eq _ hw
  exact
    { stored := h.stored
      sound := hgrows.evaluated h.sound
      current := hgrows.evaluated h.current
      grows := h.grows.trans (hgrows.any _)
      visited := fun t ht hv => hgrows.evaluated (h.visited t ht (hgrows.viable_before t hv)) }

theorem Covers.of_eq (hw : w'.solutions = w.solutions) :
    Covers w₀ w' best ↔ Covers w₀ w best := by
  simp [Covers, Viable, World.value, World.valueOf, hw]

theorem overlooks_iff {s : ILS.Fields × World K}
    (hdisturbed : disturbed this s.1.currentSolution state.nivel s.2 = .ok r w₁)
    (hsearch : ILS.search this r context w₁ = .ok found w₂)
    (hbest : s.1.bestSolution = some best) :
    Overlooks this context state s ↔ ¬Viable w₂ w₁.solutions.length ∧
      (∀ t, w₁.solutions.length < t → Viable w₂ t →
        w₂.value w₁.solutions.length < w₂.value t) ∧
      ∃ t, w₁.solutions.length < t ∧ Viable w₂ t ∧ w₂.value t < w₂.value best := by
  constructor
  · rintro ⟨r', w₁', found', w₂', best', hdisturbed', hsearch', hbest', hoverlooks⟩
    rw [hdisturbed] at hdisturbed'
    cases hdisturbed'
    rw [hsearch] at hsearch'
    cases hsearch'
    rw [hbest] at hbest'
    cases hbest'
    exact hoverlooks
  · intro hoverlooks
    exact ⟨r, w₁, found, w₂, best, hdisturbed, hsearch, hbest, hoverlooks⟩

structure Passes (w₀ w w₁ w₂ : World K) : Prop where
  grows : w.Grows (fun r => w.solutions.length ≤ r) w₂
  begins : w₀.solutions.length ≤ w₁.solutions.length
  viable : ∀ t, Viable w₂ t → Viable w t ∨ w₁.solutions.length ≤ t

theorem Head.passes (h : Head this f w₀ fields w best) {P : Solution K → Prop}
    (hgrows : w.Grows (fun _ => False) w₁) (hsearched : Searched P w₁ r found w₂) :
    Passes w₀ w w₁ w₂ := by
  have hlength := hgrows.length_le fun _ _ hfalse => hfalse
  refine ⟨(hgrows.any _).trans (hsearched.grows.mono fun t ht => hlength.trans ht),
    h.length_le.trans hlength, fun t hv => ?_⟩
  exact (hsearched.grows.viable_or hv).imp_left (hgrows.viable_before t)

theorem Head.visits (h : Head this f w₀ fields w best) (hpasses : Passes w₀ w w₁ w₂)
    (hsearched : Searched (Valued this.problem f) w₁ r found w₂) (t : Ref)
    (ht : w₀.solutions.length ≤ t) (hv : Viable w₂ t) :
    Evaluated (Sound this.problem f) w₂ t := by
  rcases hpasses.viable t hv with hold | hnew
  · exact hpasses.grows.evaluated (h.visited t ht hold)
  · exact Valued.sound (hsearched.visited t hnew hv).1 hv

/-- One iteration: the best solution does not get worse, and it still covers what was
visited if and only if nothing is overlooked. -/
theorem Head.next (h : Searches this p f) (hhead : Head this f w₀ fields w best)
    (state : ILS.State) :
    Ends (ILS.iterate this context state) (fields, w) fun _ s => ∃ b,
      Head this f w₀ s.1 s.2 b ∧ s.2.value b ≤ w.value best ∧
      (Covers w₀ w best → (Covers w₀ s.2 b ↔ ¬Overlooks this context state (fields, w))) := by
  intro state' ⟨fields', w'⟩ hiterate
  obtain ⟨r, w₁, found, w₂, hdisturbed, hsearch, hw', hconcludes⟩ :=
    ends_iterate h hhead.current hhead.stored state _ _ hiterate
  obtain ⟨hgrows₁, hready⟩ := ends_disturbed h hhead.current state.nivel r w₁ hdisturbed
  have hsearched := ends_search h hready found w₂ hsearch
  have hpasses := hhead.passes hgrows₁ hsearched
  have hbest := hpasses.grows.value_eq hhead.sound
  have hcurrent := hpasses.grows.evaluated hhead.current
  have hgrows := hhead.grows.trans (hpasses.grows.mono fun t ht => hhead.length_le.trans ht)
  rw [overlooks_iff hdisturbed hsearch hhead.stored]
  dsimp only at hw' hconcludes ⊢
  cases hconcludes with
  | passed infeasible =>
      obtain ⟨hfound, hbelow⟩ := hsearched.origin.resolve_right infeasible
      rw [hfound] at infeasible
      have hhead' : Head this f w₀ fields w₂ best :=
        ⟨hhead.stored, hpasses.grows.evaluated hhead.sound, hcurrent, hgrows,
          hhead.visits hpasses hsearched⟩
      refine ⟨best, hhead'.drawn hw', ?_, fun hcovers => ?_⟩
      · rw [show w'.value best = w₂.value best by simp [World.value, World.valueOf, hw'], hbest]
      · rw [Covers.of_eq hw']
        constructor
        · rintro hcovers' ⟨-, -, t, ht, hv, hlt⟩
          exact absurd (hcovers' t (hpasses.begins.trans ht.le) hv) (not_le.2 hlt)
        · intro hnot t ht hv
          rcases hpasses.viable t hv with hold | hnew
          · rw [hbest, hpasses.grows.value_eq (hhead.visited t ht hold)]
            exact hcovers t ht hold
          · by_contra hlt
            have hne : w₁.solutions.length ≠ t := by
              rintro rfl
              exact infeasible hv
            exact hnot ⟨infeasible, hbelow, t, lt_of_le_of_ne hnew hne, hv, not_le.1 hlt⟩
  | compared viable choice least next =>
      rename_i b current
      have hfound := Valued.sound hsearched.evaluated viable
      have hhead' : Head this f w₀ ⟨current, some b⟩ w₂ b := by
        refine ⟨rfl, ?_, ?_, hgrows, hhead.visits hpasses hsearched⟩
        · rcases choice with heq | heq
          · exact heq ▸ hfound
          · exact heq ▸ hpasses.grows.evaluated hhead.sound
        · rcases next with heq | heq
          · exact heq ▸ hfound
          · exact heq ▸ hcurrent
      refine ⟨b, hhead'.drawn hw', ?_, fun hcovers => ?_⟩
      · rw [show w'.value b = w₂.value b by simp [World.value, World.valueOf, hw'], ← hbest]
        exact least.2
      · rw [Covers.of_eq hw']
        refine iff_of_true ?_ ?_
        · intro t ht hv
          rcases hpasses.viable t hv with hold | hnew
          · rw [hpasses.grows.value_eq (hhead.visited t ht hold)]
            exact least.2.trans (hbest.le.trans (hcovers t ht hold))
          · exact least.1.trans (hsearched.visited t hnew hv).2
        · -- what the search has found is not above its start
          rintro ⟨hstart, hbelow, -⟩
          have hlt : w₁.solutions.length < found := by
            refine lt_of_le_of_ne hsearched.new ?_
            rintro rfl
            exact hstart viable
          exact absurd hsearched.le_start (not_le.2 (hbelow found hlt viable))

end Iterations

/-! ## Runs -/

section Runs

variable {this : ILS K} {p : BenchmarkProblem K} {f : List (Option (Element K)) → K}
  {context : Context} {fuel : ℕ} {externalSolution : List Ref} {w w₁ w₂ : World K}
  {first best : Ref} {fields : ILS.Fields}

def choose (this : ILS K) (externalSolution : List Ref) : Program K Ref := do
  let chosen ← modifyCollection this.modifiesSolutionCollections this.problem externalSolution
    this.metaHeuristicParameters.toCollectionParameters (some 1)
  nth chosen 0

def initialState (this : ILS K) : ILS.State :=
  ⟨this.metaHeuristicParameters.initialDisturbLevel.getD 2, 0, 0, 0⟩

abbrev Stands (this : ILS K) (context : Context) (best : Ref) (w₂ : World K) (state : ILS.State)
    (s : ILS.Fields × World K) : Prop :=
  Visits (ILS.goesOn this) (ILS.iterate this context) (initialState this) (⟨best, some best⟩, w₂)
    state s

/-- No iteration of the run overlooks anything. -/
def Heedful (this : ILS K) (context : Context) (best : Ref) (w₂ : World K) : Prop :=
  ∀ state s s' state' s'', Stands this context best w₂ state s →
    ILS.goesOn this state s = .ok true s' → ILS.iterate this context state s' = .ok state' s'' →
    ¬Overlooks this context state s'

theorem ends_goesOn (this : ILS K) (state : ILS.State) (s : ILS.Fields × World K) :
    Ends (ILS.goesOn this state) s fun _ s' => s'.1 = s.1 ∧ s'.2.solutions = s.2.solutions := by
  unfold ILS.goesOn
  refine ends_call ((draws_solutions s.2).isSatisfied rfl _ _ _ _) ?_
  intro satisfied v hv
  exact .ret ⟨rfl, hv⟩

theorem head_of_search (h : Searches this p f) (hfirst : Evaluated (Sound this.problem f) w₁ first)
    (hsearch : ILS.search this first context w₁ = .ok best w₂) :
    Head this f w₁ ⟨best, some best⟩ w₂ best ∧ Covers w₁ w₂ best ∧
      w₂.value best ≤ w₁.value first := by
  have hsearched := ends_search h (h.judges.ready (Sound.valued hfirst)) best w₂ hsearch
  have hbest : Evaluated (Sound this.problem f) w₂ best := by
    rcases hsearched.origin with ⟨hstart, -⟩ | hviable
    · rw [hstart]
      exact hsearched.copied _ (sound_tame _ _) hfirst
    · exact Valued.sound hsearched.evaluated hviable
  have hstart : w₂.value w₁.solutions.length = w₁.value first := by
    obtain ⟨s, hs, hchanged, -⟩ := hfirst
    obtain ⟨t, ht, -, hsame⟩ := hsearched.copied (fun t => t.functionValue = s.functionValue)
      (fun _ _ hsame => hsame) ⟨s, hs, hchanged, rfl⟩
    simp [World.value, World.valueOf, hs, ht, hsame]
  refine ⟨⟨rfl, hbest, hbest, hsearched.grows, fun t ht hv =>
    Valued.sound (hsearched.visited t ht hv).1 hv⟩,
    fun t ht hv => (hsearched.visited t ht hv).2, ?_⟩
  rw [← hstart]
  exact hsearched.le_start

theorem stands_head (h : Searches this p f) (hfirst : Evaluated (Sound this.problem f) w₁ first)
    (hsearch : ILS.search this first context w₁ = .ok best w₂) {state : ILS.State}
    {s : ILS.Fields × World K} (hstands : Stands this context best w₂ state s) :
    ∃ b, Head this f w₁ s.1 s.2 b ∧ s.2.value b ≤ w₁.value first := by
  obtain ⟨hhead, -, hle⟩ := head_of_search h hfirst hsearch
  refine hstands.keeps (I := fun _ s => ∃ b, Head this f w₁ s.1 s.2 b ∧
    s.2.value b ≤ w₁.value first) ⟨best, hhead, hle⟩ ?_
  rintro state state' ⟨fields, w⟩ ⟨fields', w'⟩ s'' ⟨b, hhead, hle⟩ hgoes hdone
  obtain ⟨hfields, hw⟩ := ends_goesOn this state _ _ _ hgoes
  dsimp only at hfields hw
  subst hfields
  obtain ⟨b', hhead', hle', -⟩ := (hhead.drawn hw).next h state _ _ hdone
  refine ⟨b', hhead', hle'.trans (le_trans (le_of_eq ?_) hle)⟩
  simp [World.value, World.valueOf, hw]

theorem covers_turn (h : Searches this p f) {w₀ : World K} {b : Ref} {state state' : ILS.State}
    {s s' s'' : ILS.Fields × World K} (hhead : Head this f w₀ s.1 s.2 b) (hcovers : Covers w₀ s.2 b)
    (hgoes : ILS.goesOn this state s = .ok true s')
    (hdone : ILS.iterate this context state s' = .ok state' s'') :
    ∃ b', Head this f w₀ s''.1 s''.2 b' ∧
      (Covers w₀ s''.2 b' ↔ ¬Overlooks this context state s') := by
  obtain ⟨fields, w⟩ := s
  obtain ⟨fields', w'⟩ := s'
  obtain ⟨hfields, hw⟩ := ends_goesOn this state _ _ _ hgoes
  dsimp only at hfields hw
  subst hfields
  obtain ⟨b', hhead', -, hiff⟩ := (hhead.drawn hw).next h state _ _ hdone
  exact ⟨b', hhead', hiff ((Covers.of_eq hw).2 hcovers)⟩

/-- The best solution covers what was visited wherever the loop stands, if and only if no
iteration overlooks anything. -/
theorem stands_covers_iff (h : Searches this p f)
    (hfirst : Evaluated (Sound this.problem f) w₁ first)
    (hsearch : ILS.search this first context w₁ = .ok best w₂) :
    (∀ state s, Stands this context best w₂ state s →
      ∃ b, s.1.bestSolution = some b ∧ Covers w₁ s.2 b) ↔ Heedful this context best w₂ := by
  constructor
  · intro hall state s s' state' s'' hstands hgoes hdone
    obtain ⟨b, hhead, -⟩ := stands_head h hfirst hsearch hstands
    obtain ⟨c, hc, hcovers⟩ := hall state s hstands
    obtain rfl : b = c := Option.some.inj (hhead.stored.symm.trans hc)
    obtain ⟨b', hhead', hiff⟩ := covers_turn h hhead hcovers hgoes hdone
    obtain ⟨c', hc', hcovers'⟩ := hall state' s'' (hstands.next hgoes hdone)
    obtain rfl : b' = c' := Option.some.inj (hhead'.stored.symm.trans hc')
    exact hiff.1 hcovers'
  · intro hheedful state s hstands
    suffices hhead : ∃ b, Head this f w₁ s.1 s.2 b ∧ Covers w₁ s.2 b by
      obtain ⟨b, hhead, hcovers⟩ := hhead
      exact ⟨b, hhead.stored, hcovers⟩
    induction hstands with
    | start =>
        obtain ⟨hhead, hcovers, -⟩ := head_of_search h hfirst hsearch
        exact ⟨best, hhead, hcovers⟩
    | next before hgoes hdone ih =>
        obtain ⟨b, hhead, hcovers⟩ := ih
        obtain ⟨b', hhead', hiff⟩ := covers_turn h hhead hcovers hgoes hdone
        exact ⟨b', hhead', hiff.2 (hheedful _ _ _ _ _ before hgoes hdone)⟩

/-- A run returns the best solution of the place where its loop ends. -/
theorem ends_run (this : ILS K) (fuel : ℕ) (externalSolution : List Ref) (context : Context)
    (fields : ILS.Fields) (hchoose : choose this externalSolution w = .ok first w₁)
    (hne : externalSolution ≠ []) :
    Ends (ILS.runMetaHeuristic this fuel externalSolution context) (fields, w) fun result s =>
      ∃ best w₂ state s' r, ILS.search this first context w₁ = .ok best w₂ ∧
        Stands this context best w₂ state s' ∧ ILS.goesOn this state s' = .ok false s ∧
        result = some [r] ∧ s'.1.bestSolution = some r := by
  unfold ILS.runMetaHeuristic
  rw [if_neg (by simpa using hne)]
  refine ends_call (Q := fun chosen v => modifyCollection this.modifiesSolutionCollections
    this.problem externalSolution this.metaHeuristicParameters.toCollectionParameters (some 1) w =
      .ok chosen v) (fun chosen v hchosen => hchosen) ?_
  intro chosen v hchosen
  refine ends_call (Q := fun r v => choose this externalSolution w = .ok r v)
    (fun r v' hnth => ?_) ?_
  · unfold choose
    rw [bind_of_ok hchosen]
    exact hnth
  intro current v hcurrent
  rw [hchoose] at hcurrent
  cases hcurrent
  refine ends_setFields ?_
  refine ends_call (Q := fun r v => ILS.search this first context w₁ = .ok r v)
    (fun r v hsearch => hsearch) ?_
  intro best w₂ hsearch
  refine ends_setFields ?_
  unfold ILS.metodoILS
  refine Ends.bind (Q := fun r s => ∃ state s', Stands this context best w₂ state s' ∧
    ILS.goesOn this state s' = .ok false s ∧ s'.1.bestSolution = some r) ?_ ?_
  · refine ends_fields ?_
    refine ends_call (ends_nonNull _) ?_
    rintro b v ⟨hb, hv⟩
    subst v
    cases hb
    refine ends_setFields ?_
    refine Ends.bind (Q := fun state s => ∃ s', Stands this context best w₂ state s' ∧
      ILS.goesOn this state s' = .ok false s) (fun _ _ h => visits_of_repeatWhile h) ?_
    rintro state ⟨fields', w'⟩ ⟨s', hstands, hstops⟩
    have hsame := (ends_goesOn this state _ _ _ hstops).1
    refine ends_fields ?_
    refine Ends.onState ((ends_nonNull _).mono ?_)
    rintro r v ⟨hr, hv⟩
    subst v
    exact ⟨state, s', hstands, hstops, hsame ▸ hr⟩
  · rintro r ⟨fields', w'⟩ ⟨state, s', hstands, hstops, hr⟩
    have hsame : fields' = s'.1 := (ends_goesOn this state _ _ _ hstops).1
    refine ends_setFields (.ret ⟨best, w₂, state, s', r, hsearch, hstands, ?_, rfl, hr⟩)
    rw [← hr, ← hsame]
    exact hstops

/-- A run returns a solution with a viable vector that is not worse than the start.  Wherever
the loop stands, the best solution is at least as good as every viable solution that was
visited if and only if no iteration overlooks anything, and then the returned one is. -/
theorem run_covers_iff (h : Searches this p f) (fuel : ℕ) (context : Context) (fields : ILS.Fields)
    (hne : externalSolution ≠ []) (hchoose : choose this externalSolution w = .ok first w₁)
    (hfirst : Evaluated (Sound this.problem f) w₁ first) :
    (∀ best w₂, ILS.search this first context w₁ = .ok best w₂ →
      ((∀ state s, Stands this context best w₂ state s →
        ∃ b, s.1.bestSolution = some b ∧ Covers w₁ s.2 b) ↔ Heedful this context best w₂)) ∧
    ∀ result s, ILS.runMetaHeuristic this fuel externalSolution context (fields, w) =
        .ok result s →
      ∃ r best w₂, result = some [r] ∧ ILS.search this first context w₁ = .ok best w₂ ∧
        Evaluated (Sound this.problem f) s.2 r ∧ s.2.value r ≤ w₁.value first ∧
        (Heedful this context best w₂ → Covers w₁ s.2 r) := by
  constructor
  · intro best w₂ hsearch
    exact stands_covers_iff h hfirst hsearch
  · intro result s hrun
    obtain ⟨best, w₂, state, s', r, hsearch, hstands, hstops, hresult, hr⟩ :=
      ends_run this fuel externalSolution context fields hchoose hne _ _ hrun
    obtain ⟨b, hhead, hle⟩ := stands_head h hfirst hsearch hstands
    obtain rfl : b = r := Option.some.inj (hhead.stored.symm.trans hr)
    obtain ⟨-, hw⟩ := ends_goesOn this state _ _ _ hstops
    refine ⟨b, best, w₂, hresult, hsearch, (hhead.drawn hw).sound, ?_, fun hheedful => ?_⟩
    · rw [show s.2.value b = s'.2.value b by simp [World.value, World.valueOf, hw]]
      exact hle
    · obtain ⟨c, hc, hcovers⟩ :=
        (stands_covers_iff h hfirst hsearch).2 hheedful state s' hstands
      obtain rfl : b = c := Option.some.inj (hhead.stored.symm.trans hc)
      exact (Covers.of_eq hw).2 hcovers

end Runs

section Example

open DifferentialEvolution (exampleParameters returns of_returns)

def line : BenchmarkProblem ℚ :=
  { id := 0, dimension := 1, lowerBounds := [-1], upperBounds := [4], numberOfConstraints := 0
    evaluator := fun _ x => .ok x.sum
    evaluateConstraint := fun _ => .ok () }

def valueOnLine (vector : List (Option (Element ℚ))) : ℚ :=
  match BenchmarkProblem.toDoubleArray vector with
  | .ok x => x.sum
  | .error _ => 0

def tenths (n : Fin 10) : Core.Draw ℚ where
  value := n / 10
  nonneg := by positivity
  lt_one := by
    have hn : (n : ℚ) ≤ 9 := by exact_mod_cast Nat.le_of_lt_succ n.isLt
    linarith

def lineDraws : ℕ → Core.Draw ℚ
  | 0 => tenths 7
  | 1 => tenths 9
  | 2 => tenths 5
  | 3 => tenths 2
  | _ => .zero

def lineWorld : World ℚ :=
  { solutions := [{ id := 0, problem := line.toProblem, solutionsVector := [some (.function 0 3)]
                    functionValue := some 3, viable := true, changed := false }]
    nextId := 1, nextIdentity := 1, evaluations := 0, invocations := 0, bestSolution := none
    uniforms := lineDraws, choices := fun _ => 1, clock := fun _ => 0 }

def onLine : ILS ℚ :=
  { problem := line.toProblem
    metaHeuristicParameters :=
      { exampleParameters with maxIterations := some 0, initialDisturbLevel := some 1 }
    stopCondition := some .maxIterations, solutionAnalyser := .benchmark
    disturbLevel := 1
    localSearch := some
      ⟨.random, (some (BenchmarkModifier.benchmarkRandom (some 5))).map
        BenchmarkModifier.toSolutionModifier, 1⟩
    modifiesSolutionCollections := some .chooseRandomK
    solutionDisturb := (some (BenchmarkModifier.benchmarkRandom (some 5))).map
        BenchmarkModifier.toSolutionModifier }

theorem line_computes : Computes line.toProblem valueOnLine := by
  intro calls vector x h
  change (line.objectiveFunction calls vector).outcome = .ok x at h
  unfold BenchmarkProblem.objectiveFunction at h
  unfold valueOnLine
  split at h
  next => cases h
  next y hy =>
    rw [hy]
    cases h
    rfl

theorem onLine_searches : Searches onLine line valueOnLine where
  problem := rfl
  analyser := rfl
  search := ⟨some (.benchmarkRandom (some 5)), 1, rfl⟩
  disturb := ⟨some (.benchmarkRandom (some 5)), rfl⟩
  computes := line_computes

/-- The perturbed solution is infeasible and has the value -2, so that its viable neighbour
with the value 1 is dropped.  The start is returned, which has the value 3. -/
theorem run_overlooks_neighbour : ∃ r s,
    ILS.runMetaHeuristic onLine 3 [0] none (⟨0, none⟩, lineWorld) = .ok (some [r]) s ∧
    Viable lineWorld 0 ∧ ∃ t, 1 ≤ t ∧ Viable s.2 t ∧ s.2.value t < s.2.value r := by
  obtain ⟨r, s, hrun, hcheck⟩ := of_returns
    (c := fun r s => decide (Viable s.2 8 ∧ s.2.value 8 < s.2.value r))
    (show returns _ (ILS.runMetaHeuristic onLine 3 [0] none (⟨0, none⟩, lineWorld)) = true by
      decide +kernel)
  obtain ⟨hviable, hlt⟩ := of_decide_eq_true hcheck
  exact ⟨r, s, hrun, ⟨_, rfl, rfl⟩, 8, by decide, hviable, hlt⟩

theorem run_covers_iff_example : ∃ w₁ best w₂ r s,
    ILS.search onLine 0 none w₁ = .ok best w₂ ∧
    ILS.runMetaHeuristic onLine 3 [0] none (⟨0, none⟩, lineWorld) = .ok (some [r]) s ∧
    Evaluated (Sound onLine.problem valueOnLine) s.2 r ∧ s.2.value r ≤ w₁.value 0 ∧
    (Heedful onLine none best w₂ → Covers w₁ s.2 r) := by
  obtain ⟨r, s, hrun, -⟩ := of_returns (c := fun _ _ => true)
    (show returns _ (ILS.runMetaHeuristic onLine 3 [0] none (⟨0, none⟩, lineWorld)) = true by
      decide +kernel)
  obtain ⟨w₁, hchoose, hsolutions⟩ : ∃ w₁, choose onLine [0] lineWorld = .ok 0 w₁ ∧
      w₁.solutions = lineWorld.solutions := ⟨_, rfl, rfl⟩
  have hfirst : Evaluated (Sound onLine.problem valueOnLine) w₁ 0 := by
    have hstart : w₁.solutions[0]? = lineWorld.solutions[0]? := by rw [hsolutions]
    have hvalue : some (3 : ℚ) = some (valueOnLine [some (.function 0 3)]) := by decide +kernel
    exact ⟨_, hstart.trans rfl, rfl, rfl, hvalue, by decide +kernel⟩
  obtain ⟨r', best, w₂, hresult, hsearch, hsound, hle, hcovers⟩ :=
    (run_covers_iff onLine_searches 3 none ⟨0, none⟩ (by decide) hchoose hfirst).2 _ _ hrun
  obtain rfl : r = r' := by simpa using hresult
  exact ⟨w₁, best, w₂, r, s, hsearch, hrun, hsound, hle, hcovers⟩

end Example

end DOptimas.Proofs.LocalSearch
