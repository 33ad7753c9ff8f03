import DOptimas.Heuristics.Benchmark
import DOptimas.Heuristics.Heap
import DOptimas.Support.Rational
/-!
# Differential evolution never loses ground

Each position of the population keeps a solution that is at least as good as
before, and the best solution is at least as good as all of them and as every
viable trial.
-/

namespace DOptimas.Proofs.DifferentialEvolution

open DOptimas.Support DOptimas.Heuristics
open DOptimas.Core (SolutionAnalyser)

variable {K : Type} [RealArith K]

def Computes (problem : Problem K) (f : List (Option (Element K)) → K) : Prop :=
  ∀ calls vector x, (problem.objectiveFunction calls vector).outcome = .ok x → x = f vector

def Carries (f : List (Option (Element K)) → K) (s : Solution K) : Prop :=
  s.functionValue = some (f s.solutionsVector)

omit [RealArith K] in
theorem Computes.establishes {problem : Problem K} {f : List (Option (Element K)) → K}
    (hf : Computes problem f) : Establishes problem (fun _ => True) (Carries f) :=
  fun _ calls x _ _ hx => congrArg some (hf calls _ x hx)

section Values

variable {f : List (Option (Element K)) → K} {w : World K} {r left right : Ref}

theorem value_of {s : Solution K} {x : K} (hs : w.solutions[r]? = some s)
    (hx : s.functionValue = some x) : w.value r = x :=
  World.value_eq (by simp [World.valueOf, hs, hx])

theorem ends_compare_values (hl : Evaluated (Carries f) w left)
    (hr : Evaluated (Carries f) w right) :
    Ends (Heuristics.compare .benchmark left right) w fun c w' =>
      (c < 0 → w.value left ≤ w.value right) ∧ (¬c < 0 → w.value right ≤ w.value left) ∧
      w' = w := by
  obtain ⟨s, hs, -, hx⟩ := hl
  obtain ⟨t, ht, -, hy⟩ := hr
  refine (ends_compare .benchmark left right).mono ?_
  rintro c w' ⟨⟨s', t', hs', ht', hcases⟩, rfl⟩
  obtain rfl : s = s' := Option.some.inj (hs.symm.trans hs')
  obtain rfl : t = t' := Option.some.inj (ht.symm.trans ht')
  rw [value_of hs hx, value_of ht hy]
  rcases hcases with ⟨hneg, x, y, hx', hy', hkeeps⟩ | ⟨hnot, hsame⟩
  · obtain rfl : f s.solutionsVector = x := Option.some.inj (hx.symm.trans hx')
    obtain rfl : f t.solutionsVector = y := Option.some.inj (hy.symm.trans hy')
    exact ⟨fun _ => SolutionAnalyser.keepsLeft_benchmark.1 hkeeps, fun h => absurd hneg h, rfl⟩
  · refine ⟨fun h => absurd h hnot, fun _ => ?_, rfl⟩
    rcases hsame with rfl | hvector | ⟨x, y, hx', hy', hkeeps⟩
    · obtain rfl : s = t := Option.some.inj (hs.symm.trans ht)
      exact le_rfl
    · rw [hvector]
    · obtain rfl : f s.solutionsVector = x := Option.some.inj (hx.symm.trans hx')
      obtain rfl : f t.solutionsVector = y := Option.some.inj (hy.symm.trans hy')
      rw [SolutionAnalyser.keepsLeft_benchmark, not_le] at hkeeps
      exact hkeeps.le

end Values

/-! ## One generation -/

section Generation

variable {this : DE K} {context : Context} {f : List (Option (Element K)) → K} {w : World K}
  {fields : DE.Fields} {n : ℕ}

/-- From the state `s` the trial for position `i` is made of the solution there and of
three donors drawn at distinct positions other than its own. -/
def Donated (this : DE K) (context : Context) (i : ℕ) (s : DE.Fields × World K) (trial : Ref)
    (s' : DE.Fields × World K) : Prop :=
  ∃ r1 r2 r3 own result w₁ w₂ value,
    nextSample (s.1.population.eraseIdx i) 3 s.2 = .ok [r1, r2, r3] w₁ ∧
    DrawnApart [i] s.1.population [r1, r2, r3] ∧ s.1.population[i]? = some own ∧
    modifyCollection this.deSum this.problem [own, r1, r2, r3]
      { probC := some this.probC, scaleFactor := some this.scaleFactor, c1 := none, c2 := none }
      (some 1) w₁ = .ok result w₂ ∧
    result[0]? = some trial ∧ evaluate context trial w₂ = .ok value s'.2 ∧ s'.1 = s.1

omit [RealArith K] in
theorem eq_triple {α : Type} {sample : List α} (hlength : (sample.length : ℤ) = 3) {x y z : α}
    (hx : sample[0]? = some x) (hy : sample[1]? = some y) (hz : sample[2]? = some z) :
    sample = [x, y, z] := by
  match sample, hlength with
  | [a, b, c], _ => simp_all

theorem ends_donated (hn : 4 ≤ n) (i : ℕ) (s : DE.Fields × World K) :
    Ends (DE.offspring this n context i) s (Donated this context i s) := by
  obtain ⟨fields, w⟩ := s
  unfold DE.offspring
  refine ends_fields ?_
  dsimp only
  rw [if_pos hn]
  refine ends_call (Q := fun sample w₁ =>
    nextSample (fields.population.eraseIdx i) 3 w = .ok sample w₁ ∧
      (sample.length : ℤ) = 3 ∧ DrawnFrom (fields.population.eraseIdx i) sample) ?_ ?_
  · intro sample w₁ hsample
    obtain ⟨hdrawn, -⟩ := (draws_solutions w).nextSample rfl _ 3 sample w₁ hsample
    exact ⟨hsample, hdrawn⟩
  rintro sample w₁ ⟨hdraws, hlength, hdrawn⟩
  refine ends_call (ends_nth sample 0) ?_
  rintro r1 _ ⟨h1, rfl⟩
  refine ends_call (ends_nth sample 1) ?_
  rintro r2 _ ⟨h2, rfl⟩
  refine ends_call (ends_nth sample 2) ?_
  rintro r3 _ ⟨h3, rfl⟩
  obtain rfl := eq_triple hlength h1 h2 h3
  refine ends_call (ends_nth fields.population i) ?_
  rintro own w₁ ⟨hown, rfl⟩
  refine ends_call (fun result w₂ hresult => hresult) ?_
  intro result w₂ hresult
  refine ends_call (ends_nth result 0) ?_
  rintro trial w₂ ⟨htrial, rfl⟩
  refine ends_call (fun value w₃ hvalue => hvalue) ?_
  intro value w₃ hvalue
  exact .ret ⟨r1, r2, r3, own, result, w₁, w₂, value, hdraws, hdrawn.apart, hown, hresult,
    htrial, hvalue, rfl⟩

theorem ends_offspring (hf : Computes this.problem f) (hn : 4 ≤ n) {i : ℕ}
    (hpopulation : ∀ r ∈ fields.population, Evaluated (Carries f) w r) :
    Ends (DE.offspring this n context i) (fields, w) fun trial s =>
      s.1 = fields ∧ w.Grows (· = trial) s.2 ∧ Judged (Carries f) s.2 trial := by
  rintro trial s hdone
  obtain ⟨r1, r2, r3, own, result, w₁, w₂, value, hsample, hdrawn, hown, hmodify, htrial,
    hevaluate, hfields⟩ := ends_donated hn i (fields, w) trial s hdone
  have hw₁ : w₁.solutions = w.solutions :=
    ((draws_solutions w).nextSample rfl _ 3 _ _ hsample).2
  have hdonors : ∀ r ∈ [own, r1, r2, r3], Evaluated (Carries f) w r := by
    intro r hr
    rcases List.mem_cons.1 hr with rfl | hr
    · exact hpopulation r (List.mem_of_getElem? hown)
    · exact hpopulation r (hdrawn.mem hr)
  obtain ⟨hgrows, hresult⟩ := ends_modifyCollection _ _ _ _ _ result w₂ hmodify
  have hgrown : w.Grows (fun _ => False) w₂ := (World.Grows.of_eq _ hw₁).trans hgrows
  have hfresh : Judged (Carries f) w₂ trial ∨ Fresh this.problem (fun _ => True) w₂ trial :=
    (hresult trial (List.mem_of_getElem? htrial)).imp_left fun hmem =>
      (hgrown.evaluated (hdonors trial hmem)).judged
  obtain ⟨hgrows', hjudged⟩ := ends_evaluate_judged hf.establishes hfresh value s.2 hevaluate
  exact ⟨hfields, (hgrown.mono fun _ h => h.elim).trans hgrows', hjudged⟩

/-- What takes the place of `current` when `trial` was tried against it. -/
structure Replaces (f : List (Option (Element K)) → K) (w : World K) (current trial r : Ref) :
    Prop where
  evaluated : Evaluated (Carries f) w r
  le_current : w.value r ≤ w.value current
  le_trial : Viable w trial → w.value r ≤ w.value trial
  viable : Viable w current → Viable w r

def GoesOn (f : List (Option (Element K)) → K) (fields : DE.Fields) (w : World K)
    (next : List Ref) (best r : Ref) (out : List Ref × ℤ) (s : DE.Fields × World K) : Prop :=
  s.2 = w ∧ out.1 = next ++ [r] ∧ ∃ best', s.1 = { fields with bestSolution := some best' } ∧
    Evaluated (Carries f) w best' ∧ w.value best' ≤ w.value best ∧ w.value best' ≤ w.value r ∧
    (best' = best ∨ best' = r)

theorem ends_keepBest (hanalyser : this.solutionAnalyser = .benchmark) {next : List Ref}
    {iterationWI : ℤ} {best r : Ref} (hfield : fields.bestSolution = some best)
    (hbest : Evaluated (Carries f) w best) (hr : Evaluated (Carries f) w r) :
    Ends (do
        let bestSolution ← call (nonNull (← Heuristics.fields).bestSolution)
        if (← call (Heuristics.compare this.solutionAnalyser r bestSolution)) < 0 then
          let _ ← call (evaluate context r)
          setFields fun f => { f with bestSolution := some r }
          return (next ++ [r], 0)
        else
          return (next ++ [r], iterationWI)) (fields, w) (GoesOn f fields w next best r) := by
  refine ends_fields ?_
  refine ends_call (ends_nonNull fields.bestSolution) ?_
  rintro best' _ ⟨hbest', rfl⟩
  obtain rfl : best = best' := Option.some.inj (hfield.symm.trans hbest')
  rw [hanalyser]
  refine ends_call (ends_compare_values hr hbest) ?_
  rintro c w ⟨hneg, hnonneg, rfl⟩
  split
  next h =>
    refine ends_call (ends_evaluate_again hr.judged) ?_
    rintro - w rfl
    exact ends_setFields (.ret ⟨rfl, rfl, r, rfl, hr, hneg h, le_rfl, Or.inr rfl⟩)
  next h =>
    refine .ret ⟨rfl, rfl, best, ?_, hbest, le_rfl, hnonneg h, Or.inl rfl⟩
    rw [← hfield]

theorem ends_select (hanalyser : this.solutionAnalyser = .benchmark) {offspring next : List Ref}
    {iterationWI : ℤ} {i : ℕ} {best : Ref} (hfield : fields.bestSolution = some best)
    (hbest : Evaluated (Carries f) w best)
    (hpopulation : ∀ r ∈ fields.population, Evaluated (Carries f) w r)
    (hoffspring : ∀ t ∈ offspring, Judged (Carries f) w t) :
    Ends (DE.select this offspring context (next, iterationWI) i) (fields, w) fun out s =>
      ∃ current trial r, fields.population[i]? = some current ∧ offspring[i]? = some trial ∧
        Replaces f w current trial r ∧ GoesOn f fields w next best r out s := by
  unfold DE.select
  dsimp only
  refine ends_call (ends_nth offspring i) ?_
  rintro trial w ⟨htrial, rfl⟩
  refine ends_fields ?_
  refine ends_call (ends_nth fields.population i) ?_
  rintro current w ⟨hcurrent, rfl⟩
  have hjudged := hoffspring trial (List.mem_of_getElem? htrial)
  have hold := hpopulation current (List.mem_of_getElem? hcurrent)
  refine ends_call (ends_isViable_again hjudged) ?_
  rintro viable w ⟨hviable, rfl⟩
  cases viable with
  | false =>
      have hnot : ¬Viable w trial := fun hv => by simpa using hviable.2 hv
      exact (ends_keepBest hanalyser hfield hbest hold).mono fun _ _ h =>
        ⟨current, trial, current, hcurrent, htrial,
          ⟨hold, le_rfl, fun hv => absurd hv hnot, id⟩, h⟩
  | true =>
      have hnew := hjudged.evaluated (hviable.1 rfl)
      have hcompare := ends_compare_values hnew hold
      rw [← hanalyser] at hcompare
      refine ends_call hcompare ?_
      rintro c w ⟨hneg, hnonneg, rfl⟩
      split
      next h =>
        exact (ends_keepBest hanalyser hfield hbest hnew).mono fun _ _ h' =>
          ⟨current, trial, trial, hcurrent, htrial,
            ⟨hnew, hneg h, fun _ => le_rfl, fun _ => hviable.1 rfl⟩, h'⟩
      next h =>
        exact (ends_keepBest hanalyser hfield hbest hold).mono fun _ _ h' =>
          ⟨current, trial, current, hcurrent, htrial,
            ⟨hold, le_rfl, fun _ => hnonneg h, id⟩, h'⟩

structure Head (f : List (Option (Element K)) → K) (n : ℕ) (fields : DE.Fields) (w : World K)
    (best : Ref) : Prop where
  field : fields.bestSolution = some best
  best : Evaluated (Carries f) w best
  length : fields.population.length = n
  population : ∀ r ∈ fields.population, Evaluated (Carries f) w r

/-- How a generation comes from `s` to `s'`: the trials are made one after the other, and
then each position chooses between its trial and its solution. -/
structure Trials (this : DE K) (context : Context) (counters : ℤ × ℤ) (offspring : List Ref)
    (s s' : DE.Fields × World K) : Prop where
  length : offspring.length = s.1.population.length
  chosen : ∃ stage : ℕ → DE.Fields × World K, stage 0 = s ∧
    (∀ i trial, offspring[i]? = some trial →
      DE.offspring this offspring.length context i (stage i) = .ok trial (stage (i + 1)) ∧
        (stage i).1 = s.1 ∧ Donated this context i (stage i) trial (stage (i + 1))) ∧
    ∃ next iterationWI fields w,
      (List.range offspring.length).foldlM (DE.select this offspring context)
        ([], increment counters.2) (stage offspring.length) =
          .ok (next, iterationWI) (fields, w) ∧
      s' = ({ fields with population := next }, w)

structure Generated (this : DE K) (context : Context) (f : List (Option (Element K)) → K)
    (counters : ℤ × ℤ) (offspring : List Ref) (fields fields' : DE.Fields) (w w' : World K)
    (best best' : Ref) : Prop where
  trials : Trials this context counters offspring (fields, w) (fields', w')
  grows : w.Grows (· ∈ offspring) w'
  judged : ∀ t ∈ offspring, Judged (Carries f) w' t
  le_trial : ∀ t ∈ offspring, Viable w' t → w'.value best' ≤ w'.value t
  le_best : w'.value best' ≤ w'.value best
  best : best' = best ∨ best' ∈ fields'.population
  position : ∀ (i : ℕ) (r : Ref), fields'.population[i]? = some r →
    ∃ current, fields.population[i]? = some current ∧ w'.value r ≤ w'.value current ∧
      w'.value best' ≤ w'.value r ∧ (Viable w' current → Viable w' r)

/-- Every trial of a generation finds the fields as the generation found them. -/
theorem stage_fields (hn : 4 ≤ n) {offspring : List Ref} {stage : ℕ → DE.Fields × World K}
    (hmade : ∀ i trial, offspring[i]? = some trial →
      DE.offspring this n context i (stage i) = .ok trial (stage (i + 1))) {i : ℕ}
    (hi : i ≤ offspring.length) : (stage i).1 = (stage 0).1 := by
  induction i with
  | zero => rfl
  | succ i ih =>
      have hdone := hmade i _ (List.getElem?_eq_getElem hi)
      obtain ⟨-, -, -, -, -, -, -, -, -, -, -, -, -, -, hfields⟩ :=
        ends_donated hn i (stage i) _ _ hdone
      rw [hfields, ih (Nat.le_of_succ_le hi)]

theorem ends_trials (hf : Computes this.problem f) (hn : 4 ≤ n)
    (hpopulation : ∀ r ∈ fields.population, Evaluated (Carries f) w r) :
    Ends ((List.range n).mapM (DE.offspring this n context)) (fields, w) fun offspring s =>
      offspring.length = n ∧ s.1 = fields ∧ w.Grows (· ∈ offspring) s.2 ∧
        ∀ t ∈ offspring, Judged (Carries f) s.2 t := by
  refine (Ends.mapM_idx (I := fun offspring s => s.1 = fields ∧ w.Grows (· ∈ offspring) s.2 ∧
      ∀ t ∈ offspring, Judged (Carries f) s.2 t) ⟨rfl, .refl _ w, by simp⟩ ?_).mono
    fun offspring s ⟨hlength, hrest⟩ => ⟨by simpa using hlength, hrest⟩
  rintro i a - offspring ⟨_, w'⟩ - ⟨rfl, hgrows, hjudged⟩
  have hevaluated := fun r hr => hgrows.evaluated (hpopulation r hr)
  refine (ends_offspring hf hn hevaluated).mono ?_
  rintro trial ⟨_, w''⟩ ⟨rfl, hgrows', hjudged'⟩
  refine ⟨rfl, ?_, ?_⟩
  · exact (hgrows.mono fun t ht => List.mem_append_left _ ht).trans
      (hgrows'.mono fun t ht => ht ▸ List.mem_append_right _ List.mem_cons_self)
  · intro t ht
    rcases List.mem_append.1 ht with ht | ht
    · exact hgrows'.evaluated (hjudged t ht)
    · rw [List.mem_singleton.1 ht]
      exact hjudged'

theorem ends_choices (hanalyser : this.solutionAnalyser = .benchmark) {offspring : List Ref}
    {iterationWI : ℤ} {best : Ref} (hfield : fields.bestSolution = some best)
    (hbest : Evaluated (Carries f) w best)
    (hpopulation : ∀ r ∈ fields.population, Evaluated (Carries f) w r)
    (hoffspring : ∀ t ∈ offspring, Judged (Carries f) w t) :
    Ends ((List.range n).foldlM (DE.select this offspring context) ([], iterationWI)) (fields, w)
      fun out s => s.2 = w ∧ out.1.length = n ∧ ∃ best',
        s.1 = { fields with bestSolution := some best' } ∧ Evaluated (Carries f) w best' ∧
        w.value best' ≤ w.value best ∧ (best' = best ∨ best' ∈ out.1) ∧
        ∀ (i : ℕ) (r : Ref), out.1[i]? = some r → ∃ current trial,
          fields.population[i]? = some current ∧ offspring[i]? = some trial ∧
          Replaces f w current trial r ∧ w.value best' ≤ w.value r := by
  have hfold := Ends.foldlM_idx (List.range n) (f := DE.select this offspring context)
    (b := ([], iterationWI)) (s := (fields, w)) (I := fun k out s => s.2 = w ∧ out.1.length = k ∧
      ∃ best', s.1 = { fields with bestSolution := some best' } ∧ Evaluated (Carries f) w best' ∧
        w.value best' ≤ w.value best ∧ (best' = best ∨ best' ∈ out.1) ∧
        ∀ (i : ℕ) (r : Ref), out.1[i]? = some r → ∃ current trial,
          fields.population[i]? = some current ∧ offspring[i]? = some trial ∧
          Replaces f w current trial r ∧ w.value best' ≤ w.value r)
    ⟨rfl, rfl, best, by rw [← hfield], hbest, le_rfl, Or.inl rfl, by simp⟩ ?_
  · simpa using hfold
  · rintro i a ha ⟨next, wi⟩ ⟨_, _⟩ ⟨rfl, hlength, best', rfl, hbest', hle, hmem, hall⟩
    obtain rfl : i = a := by
      rw [List.getElem?_range (by simpa using (List.getElem?_eq_some_iff.1 ha).1)] at ha
      simpa using ha
    have hfield' : ({ fields with bestSolution := some best' } : DE.Fields).bestSolution =
        some best' := rfl
    refine (ends_select hanalyser hfield' hbest' hpopulation hoffspring).mono ?_
    rintro ⟨out, wi'⟩ ⟨_, _⟩ ⟨current, trial, r, hcurrent, htrial, hreplaces, rfl, rfl, best'',
      rfl, hbest'', hle', hle'', hor⟩
    refine ⟨rfl, by simpa using hlength, best'', rfl, hbest'', hle'.trans hle, ?_, fun k t ht => ?_⟩
    · rcases hor with rfl | rfl
      · exact hmem.imp_right fun h => List.mem_append_left _ h
      · exact Or.inr (List.mem_append_right _ List.mem_cons_self)
    · by_cases hk : k < next.length
      · dsimp only at ht
        rw [List.getElem?_append_left hk] at ht
        obtain ⟨c, o, hc, ho, hr, hb⟩ := hall k t ht
        exact ⟨c, o, hc, ho, hr, hle'.trans hb⟩
      · dsimp only at ht
        rw [List.getElem?_append_right (not_lt.1 hk)] at ht
        obtain rfl := List.mem_singleton.1 (List.mem_of_getElem? ht)
        have hkt : k - next.length < 1 := (List.getElem?_eq_some_iff.1 ht).1
        have hlength' : next.length = i := hlength
        obtain rfl : k = i := by omega
        exact ⟨current, trial, hcurrent, htrial, hreplaces, hle''⟩

theorem ends_generation (hf : Computes this.problem f)
    (hanalyser : this.solutionAnalyser = .benchmark) (hn : 4 ≤ n) {best : Ref}
    (hhead : Head f n fields w best) (counters : ℤ × ℤ) :
    Ends (DE.generation this n context counters) (fields, w) fun _ s =>
      ∃ best' offspring, Head f n s.1 s.2 best' ∧
        Generated this context f counters offspring fields s.1 w s.2 best best' := by
  obtain ⟨hfield, hbest, hlength, hpopulation⟩ := hhead
  unfold DE.generation
  refine Ends.bind (Q := fun offspring s => (offspring.length = n ∧ s.1 = fields ∧
      w.Grows (· ∈ offspring) s.2 ∧ ∀ t ∈ offspring, Judged (Carries f) s.2 t) ∧
      ∃ stage : ℕ → DE.Fields × World K, stage 0 = (fields, w) ∧ stage n = s ∧
        ∀ i trial, offspring[i]? = some trial →
          DE.offspring this n context i (stage i) = .ok trial (stage (i + 1))) ?_ ?_
  · intro offspring s hdone
    have htrials := ends_trials hf hn hpopulation offspring s hdone
    obtain ⟨-, stage, hstart, hend, hsteps⟩ := Ends.mapM_stages _ _ _ offspring s hdone
    rw [List.length_range] at hend
    refine ⟨htrials, stage, hstart, hend, ?_⟩
    intro i trial htrial
    have hi : i < n := htrials.1 ▸ (List.getElem?_eq_some_iff.1 htrial).1
    exact hsteps i i trial (List.getElem?_range hi) htrial
  rintro offspring ⟨fields₁, w₁⟩
    ⟨⟨hcount, hfields, hgrows, hjudged⟩, stage, hstart, hend, hsteps⟩
  obtain rfl : fields₁ = fields := hfields
  obtain rfl : offspring.length = n := hcount
  refine Ends.bind (Q := fun out s => (List.range offspring.length).foldlM
    (DE.select this offspring context) ([], increment counters.2) (fields₁, w₁) = .ok out s)
    (fun _ _ hchosen => hchosen) ?_
  rintro ⟨next, wi⟩ ⟨fields₂, w₂⟩ hchosen
  obtain ⟨hw, hnext, best', hfields, hbest', hle, hmem, hall⟩ :=
    ends_choices hanalyser hfield (hgrows.evaluated hbest)
      (fun r hr => hgrows.evaluated (hpopulation r hr)) hjudged _ _ hchosen
  obtain rfl : w₂ = w₁ := hw
  obtain rfl : fields₂ = { fields₁ with bestSolution := some best' } := hfields
  refine ends_setFields (.ret ⟨best', offspring, ⟨rfl, hbest', hnext, fun r hr => ?_⟩, ?_⟩)
  · obtain ⟨i, hi⟩ := List.getElem?_of_mem hr
    obtain ⟨_, _, -, -, hreplaces, -⟩ := hall i r hi
    exact hreplaces.evaluated
  · refine ⟨⟨hlength.symm, stage, hstart, ?_, next, wi, _, _, ?_, rfl⟩, hgrows, hjudged, ?_, hle,
      hmem, ?_⟩
    · intro i trial htrial
      have hi := (List.getElem?_eq_some_iff.1 htrial).1
      have hdone := hsteps i trial htrial
      refine ⟨hdone, ?_, ends_donated hn i (stage i) trial _ hdone⟩
      rw [stage_fields hn hsteps hi.le, hstart]
    · rw [hend, hchosen]
    · intro t ht hv
      obtain ⟨i, hi⟩ := List.getElem?_of_mem ht
      have hlt : i < next.length := by
        have := (List.getElem?_eq_some_iff.1 hi).1
        dsimp only at hnext
        omega
      obtain ⟨_, trial, -, htrial, hreplaces, hr⟩ := hall i next[i] (List.getElem?_eq_getElem hlt)
      obtain rfl : t = trial := Option.some.inj (hi.symm.trans htrial)
      exact hr.trans (hreplaces.le_trial hv)
    · intro i r hi
      obtain ⟨current, _, hcurrent, -, hreplaces, hr⟩ := hall i r hi
      exact ⟨current, hcurrent, hreplaces.le_current, hr, hreplaces.viable⟩

end Generation

/-! ## The run -/

section Run

variable {this : DE K} {context : Context} {f : List (Option (Element K)) → K} {w w₀ : World K}
  {fields : DE.Fields} {population : List Ref}

theorem Head.of_eq {n : ℕ} {best : Ref} {w' : World K} (h : Head f n fields w best)
    (heq : w'.solutions = w.solutions) : Head f n fields w' best := by
  have hgrows : w.Grows (fun _ => False) w' := .of_eq _ heq
  exact ⟨h.field, hgrows.evaluated h.best, h.length, fun r hr =>
    hgrows.evaluated (h.population r hr)⟩

/-- Where a run that began with `population` stands. -/
structure Standing (f : List (Option (Element K)) → K) (population : List Ref) (w₀ : World K)
    (fields : DE.Fields) (w : World K) (best : Ref) : Prop where
  head : Head f population.length fields w best
  grows : w₀.Grows (fun _ => True) w
  trials : ∀ t, Viable w t → Viable w₀ t ∨ Evaluated (Carries f) w t ∧ w.value best ≤ w.value t
  position : ∀ (i : ℕ) (r : Ref), fields.population[i]? = some r →
    ∃ e, population[i]? = some e ∧ w.value r ≤ w.value e ∧ (Viable w₀ e → Viable w r)
  viable : (∀ e ∈ population, Viable w₀ e) → Viable w best

theorem Standing.of_eq {best : Ref} {w' : World K}
    (h : Standing f population w₀ fields w best) (heq : w'.solutions = w.solutions) :
    Standing f population w₀ fields w' best := by
  have hgrows : w.Grows (fun _ => False) w' := .of_eq _ heq
  have hvalue : ∀ r, w'.value r = w.value r := fun r => by
    simp [World.value, World.valueOf, heq]
  have hviable : ∀ r, Viable w r → Viable w' r := fun r hr => by
    rwa [Viable, heq]
  refine ⟨h.head.of_eq heq, h.grows.trans (.of_eq _ heq), fun t ht => ?_, fun i r hr => ?_,
    fun hall => hviable _ (h.viable hall)⟩
  · rw [hvalue, hvalue]
    have hold : Viable w t := by rwa [Viable, ← heq]
    exact (h.trials t hold).imp_right fun h => ⟨hgrows.evaluated h.1, h.2⟩
  · obtain ⟨e, he, hle, hv⟩ := h.position i r hr
    refine ⟨e, he, ?_, fun h => hviable r (hv h)⟩
    rw [hvalue, hvalue]
    exact hle

theorem Standing.next {best best' : Ref} {offspring : List Ref} {fields' : DE.Fields}
    {w' : World K} (h : Standing f population w₀ fields w best)
    (hevaluated : ∀ e ∈ population, Evaluated (Carries f) w₀ e)
    (hhead : Head f population.length fields' w' best')
    {counters : ℤ × ℤ}
    (hgenerated : Generated this context f counters offspring fields fields' w w' best best') :
    Standing f population w₀ fields' w' best' := by
  have hgrows := hgenerated.grows
  have hvalue : ∀ {r}, Evaluated (Carries f) w r → w'.value r = w.value r :=
    fun hr => hgrows.value_eq hr
  have hbest : w'.value best' ≤ w.value best := by
    rw [← hvalue h.head.best]
    exact hgenerated.le_best
  have hposition : ∀ (i : ℕ) (r : Ref), fields'.population[i]? = some r →
      ∃ e, population[i]? = some e ∧ w'.value r ≤ w'.value e ∧ (Viable w₀ e → Viable w' r) := by
    intro i r hr
    obtain ⟨current, hcurrent, hle, -, hv⟩ := hgenerated.position i r hr
    obtain ⟨e, he, hle', hv'⟩ := h.position i current hcurrent
    have hc := h.head.population current (List.mem_of_getElem? hcurrent)
    have hold := h.grows.evaluated (hevaluated e (List.mem_of_getElem? he))
    refine ⟨e, he, hle.trans ?_, fun hviable => hv ((hgrows.viable_iff hc.judged).2 (hv' hviable))⟩
    rw [hvalue hc, hvalue hold]
    exact hle'
  refine ⟨hhead, h.grows.trans (hgrows.mono fun _ _ => trivial), fun t ht => ?_,
    hposition, fun hall => ?_⟩
  · rcases hgrows.viable_or ht with hold | hmem
    · refine (h.trials t hold).imp_right fun ⟨heval, hle⟩ => ⟨hgrows.evaluated heval, ?_⟩
      rw [hvalue heval]
      exact hbest.trans hle
    · exact Or.inr ⟨(hgenerated.judged t hmem).evaluated ht, hgenerated.le_trial t hmem ht⟩
  · rcases hgenerated.best with rfl | hmem
    · exact (hgrows.viable_iff h.head.best.judged).2 (h.viable hall)
    · obtain ⟨i, hi⟩ := List.getElem?_of_mem hmem
      obtain ⟨e, he, -, hv⟩ := hposition i best' hi
      exact hv (hall e (List.mem_of_getElem? he))

theorem ends_goesOn (counters : ℤ × ℤ) :
    Ends (DE.goesOn this counters) (fields, w) fun _ s =>
      s.1 = fields ∧ s.2.solutions = w.solutions := by
  unfold DE.goesOn
  exact ends_call ((draws_solutions w).isSatisfied rfl _ _ _ _) fun _ _ hw => .ret ⟨rfl, hw⟩

def started (population : List Ref) (first : Ref) : DE.Fields :=
  { population, bestSolution := some first }

/-- Wherever the loop stands: at its start, or with a best solution that is at least
as good as the whole population. -/
theorem visits_standing (hf : Computes this.problem f)
    (hanalyser : this.solutionAnalyser = .benchmark) {first : Ref}
    (hfirst : population[0]? = some first) (hsize : 4 ≤ population.length)
    (hevaluated : ∀ e ∈ population, Evaluated (Carries f) w₀ e) {counters : ℤ × ℤ}
    {s : DE.Fields × World K}
    (h : Visits (DE.goesOn this) (DE.generation this population.length context) (0, 0)
      (started population first, w₀) counters s) :
    ∃ best, Standing f population w₀ s.1 s.2 best ∧
      ((counters, s) = ((0, 0), (started population first, w₀)) ∨
        ∀ r ∈ s.1.population, s.2.value best ≤ s.2.value r) := by
  refine h.keeps (I := fun counters s => ∃ best, Standing f population w₀ s.1 s.2 best ∧
    ((counters, s) = ((0, 0), (started population first, w₀)) ∨
      ∀ r ∈ s.1.population, s.2.value best ≤ s.2.value r)) ?_ ?_
  · have hmem : first ∈ population := List.mem_of_getElem? hfirst
    refine ⟨first, ⟨⟨rfl, hevaluated first hmem, rfl, hevaluated⟩, .refl _ _,
      fun t ht => Or.inl ht, fun i r hr => ?_, fun hall => hall first hmem⟩, Or.inl rfl⟩
    exact ⟨r, hr, le_rfl, id⟩
  · rintro b b' ⟨fields₁, w₁⟩ ⟨fields₂, w₂⟩ ⟨fields₃, w₃⟩ ⟨best, hstanding, -⟩ hgoes hdone
    obtain ⟨rfl, hw⟩ : fields₂ = fields₁ ∧ w₂.solutions = w₁.solutions :=
      ends_goesOn b _ _ hgoes
    have hstanding' := hstanding.of_eq hw
    obtain ⟨best', offspring, hhead, hgenerated⟩ :=
      ends_generation hf hanalyser hsize hstanding'.head b _ _ hdone
    refine ⟨best', hstanding'.next hevaluated hhead hgenerated, Or.inr fun r hr => ?_⟩
    obtain ⟨i, hi⟩ := List.getElem?_of_mem hr
    obtain ⟨_, -, -, hle, -⟩ := hgenerated.position i r hi
    exact hle

theorem goesOn_start (hstop : this.stopCondition = some .maxIterations) {limit : ℤ}
    (hlimit : this.metaHeuristicParameters.maxIterations = some limit) (hnonneg : 0 ≤ limit)
    (s s' : DE.Fields × World K) : DE.goesOn this (0, 0) s ≠ .ok false s' := by
  intro h
  have hgoes : Ends (DE.goesOn this (0, 0)) s fun go _ => go = true := by
    obtain ⟨fields, w⟩ := s
    unfold DE.goesOn
    refine ends_call (Q := fun satisfied _ => satisfied = false) ?_ fun satisfied w' hsat =>
      .ret (by rw [hsat]; rfl)
    unfold isSatisfied
    refine Ends.bind (Q := fun _ _ => True) (.changes trivial) fun time w' _ => ?_
    refine (ends_nonNull this.stopCondition).bind ?_
    rintro c _ ⟨hc, rfl⟩
    obtain rfl : StopCondition.maxIterations = c := Option.some.inj (hstop.symm.trans hc)
    simp only [StopCondition.isSatisfied, hlimit]
    exact .ret (decide_eq_false (not_lt.2 hnonneg))
  exact Bool.false_ne_true (hgoes _ _ h)

theorem ends_run (hf : Computes this.problem f)
    (hanalyser : this.solutionAnalyser = .benchmark)
    (hstop : this.stopCondition = some .maxIterations) {limit : ℤ}
    (hlimit : this.metaHeuristicParameters.maxIterations = some limit) (hnonneg : 0 ≤ limit)
    {first : Ref} (hfirst : population[0]? = some first) (hsize : 4 ≤ population.length)
    (hevaluated : ∀ e ∈ population, Evaluated (Carries f) w₀ e) {fuel : ℕ} :
    Ends (DE.runMetaHeuristic this fuel population context) (fields, w₀) fun result s =>
      ∃ r, result = some [r] ∧ Evaluated (Carries f) s.2 r ∧
        (∀ e ∈ population, Evaluated (Carries f) s.2 e ∧ s.2.value r ≤ s.2.value e) ∧
        (∀ t, w₀.solutions.length ≤ t → Viable s.2 t → s.2.value r ≤ s.2.value t) ∧
        ((∀ e ∈ population, Viable w₀ e) → Viable s.2 r) := by
  obtain ⟨rest, rfl⟩ : ∃ rest, population = first :: rest := by
    cases population with
    | nil => simp at hfirst
    | cons head rest => exact ⟨rest, by rw [Option.some.inj hfirst]⟩
  unfold DE.runMetaHeuristic
  refine ends_setFields (ends_setFields ?_)
  refine Ends.bind (fun counters s' h => visits_of_repeatWhile h) ?_
  rintro counters ⟨fields₂, w₂⟩ ⟨⟨fields₁, w₁⟩, hvisits, hstop'⟩
  obtain ⟨rfl, hw⟩ : fields₂ = fields₁ ∧ w₂.solutions = w₁.solutions :=
    ends_goesOn counters _ _ hstop'
  obtain ⟨best, hstanding, hstart | hcovers⟩ :=
    visits_standing hf hanalyser hfirst hsize hevaluated hvisits
  · obtain rfl : counters = (0, 0) := congrArg Prod.fst hstart
    exact absurd hstop' (goesOn_start hstop hlimit hnonneg _ _)
  have hvalue : ∀ r, w₂.value r = w₁.value r := fun r => by
    simp [World.value, World.valueOf, hw]
  have hstanding' := hstanding.of_eq hw
  refine ends_fields ?_
  rw [show fields₂.bestSolution = some best from hstanding'.head.field]
  refine ends_call (ends_nonNull (some best)) ?_
  rintro best' w₂ ⟨hbest', rfl⟩
  obtain rfl : best = best' := Option.some.inj hbest'
  refine .ret ⟨best, rfl, hstanding'.head.best, fun e he => ?_, fun t ht hv => ?_,
    hstanding'.viable⟩
  · refine ⟨hstanding'.grows.evaluated (hevaluated e he), ?_⟩
    obtain ⟨i, hi⟩ := List.getElem?_of_mem he
    have hlt : i < fields₂.population.length := by
      rw [show fields₂.population.length = _ from hstanding'.head.length]
      exact (List.getElem?_eq_some_iff.1 hi).1
    obtain ⟨e', he', hle, -⟩ := hstanding'.position i fields₂.population[i]
      (List.getElem?_eq_getElem hlt)
    obtain rfl : e = e' := Option.some.inj (hi.symm.trans he')
    refine le_trans ?_ hle
    rw [hvalue, hvalue]
    exact hcovers _ (List.getElem_mem hlt)
  · rcases hstanding'.trials t hv with ⟨o, ho, -⟩ | hnew
    · exact absurd (List.getElem?_eq_some_iff.1 ho).1 (by omega)
    · exact hnew.2

/-- Differential evolution is elitist. -/
theorem run_elitist (hf : Computes this.problem f)
    (hanalyser : this.solutionAnalyser = .benchmark)
    (hstop : this.stopCondition = some .maxIterations) {limit : ℤ}
    (hlimit : this.metaHeuristicParameters.maxIterations = some limit) (hnonneg : 0 ≤ limit)
    {first : Ref} (hfirst : population[0]? = some first) (hsize : 4 ≤ population.length)
    (hevaluated : ∀ e ∈ population, Evaluated (Carries f) w₀ e) :
    (∀ counters s counters' s' s'', Visits (DE.goesOn this)
        (DE.generation this population.length context) (0, 0)
        (started population first, w₀) counters s →
      DE.goesOn this counters s = .ok true s' →
      DE.generation this population.length context counters s' = .ok counters' s'' →
      (∃ offspring : List Ref, Trials this context counters offspring s' s'' ∧
        ∀ t ∈ offspring, Judged (Carries f) s''.2 t) ∧
      s'.1 = s.1 ∧ s.1.population.length = population.length ∧
      s''.1.population.length = population.length ∧
      ∀ (i : ℕ) (r current : Ref), s''.1.population[i]? = some r →
        s.1.population[i]? = some current → s''.2.value r ≤ s''.2.value current) ∧
    ∀ fuel result s, DE.runMetaHeuristic this fuel population context (fields, w₀) = .ok result s →
      ∃ r, result = some [r] ∧ Evaluated (Carries f) s.2 r ∧
        (∀ e ∈ population, Evaluated (Carries f) s.2 e ∧ s.2.value r ≤ s.2.value e) ∧
        (∀ t, w₀.solutions.length ≤ t → Viable s.2 t → s.2.value r ≤ s.2.value t) ∧
        ((∀ e ∈ population, Viable w₀ e) → Viable s.2 r) := by
  constructor
  · rintro counters ⟨fields₁, w₁⟩ counters' ⟨fields₂, w₂⟩ ⟨fields₃, w₃⟩ hvisits hgoes hdone
    obtain ⟨best, hstanding, -⟩ := visits_standing hf hanalyser hfirst hsize hevaluated hvisits
    obtain ⟨rfl, hw⟩ : fields₂ = fields₁ ∧ w₂.solutions = w₁.solutions :=
      ends_goesOn counters _ _ hgoes
    obtain ⟨best', offspring, hhead, hgenerated⟩ :=
      ends_generation hf hanalyser hsize (hstanding.of_eq hw).head counters _ _ hdone
    refine ⟨⟨offspring, hgenerated.trials, hgenerated.judged⟩, rfl, hstanding.head.length,
      hhead.length, fun i r current hr hcurrent => ?_⟩
    obtain ⟨c, hc, hle, -⟩ := hgenerated.position i r hr
    obtain rfl : c = current := Option.some.inj (hc.symm.trans hcurrent)
    exact hle
  · exact fun fuel result s hrun =>
      ends_run hf hanalyser hstop hlimit hnonneg hfirst hsize hevaluated result s hrun

end Run

section Example

def square (x : List ℚ) : ℚ := (x.map fun y => y * y).sum

def bowl : BenchmarkProblem ℚ :=
  { id := 0, dimension := 1, lowerBounds := [-1], upperBounds := [1], numberOfConstraints := 0
    evaluator := fun _ x => .ok (square x)
    evaluateConstraint := fun _ => .ok () }

def valueInBowl (vector : List (Option (Element ℚ))) : ℚ :=
  match BenchmarkProblem.toDoubleArray vector with
  | .ok x => square x
  | .error _ => 0

theorem bowl_computes : Computes bowl.toProblem valueInBowl := by
  intro calls vector x h
  change (bowl.objectiveFunction calls vector).outcome = .ok x at h
  unfold BenchmarkProblem.objectiveFunction at h
  unfold valueInBowl
  split at h
  next => cases h
  next y hy =>
    rw [hy]
    cases h
    rfl

def inBowl (id : ℕ) (x : ℚ) : Solution ℚ :=
  { id, problem := bowl.toProblem, solutionsVector := [some (.function id x)]
    functionValue := some (square [x]), viable := true, changed := false }

def exampleWorld : World ℚ :=
  { solutions := [inBowl 0 1, inBowl 1 (1 / 2), inBowl 2 (-1 / 2), inBowl 3 (1 / 4)]
    nextId := 4, nextIdentity := 4, evaluations := 0, invocations := 0, bestSolution := none
    uniforms := fun _ => ⟨1 / 2, by norm_num, by norm_num⟩, choices := fun _ => 0
    clock := fun _ => 0 }

def exampleParameters : MetaHeuristicParameters ℚ :=
  { probC := none, scaleFactor := none, c1 := none, c2 := none
    maxIterations := some 0, maxIterationsWI := none
    maxNumberOfIterationsTemperature := none, time := none, alpha := none
    stopConditionName := .named .maxIterations
    populationSize := some 4, parentsSize := none, crossoverTax := none, mutationTax := none
    crossProbability := some 1, differentialFactor := some (1 / 2)
    sum := .named .deBenchmarkProblemSum, velocity := .missing, position := .missing
    initialVelocity := .missing, candidatesListName := .missing, localSearchName := .missing
    localSearchNeighbor := .missing, localSearchIterations := none, disturbLevel := none
    initialDisturbLevel := none, disturbThreshold := none, temperatureName := .missing }

def exampleEvolution : DE ℚ :=
  { problem := bowl.toProblem, metaHeuristicParameters := exampleParameters
    stopCondition := some .maxIterations, solutionAnalyser := .benchmark, probC := 1
    scaleFactor := 1 / 2, deSum := some .deBenchmarkProblemSum }

theorem evaluated_inBowl : ∀ e ∈ [0, 1, 2, 3], Evaluated (Carries valueInBowl) exampleWorld e := by
  intro e he
  simp only [List.mem_cons, List.not_mem_nil, or_false] at he
  rcases he with rfl | rfl | rfl | rfl
  · exact ⟨inBowl 0 1, rfl, rfl, rfl⟩
  · exact ⟨inBowl 1 (1 / 2), rfl, rfl, rfl⟩
  · exact ⟨inBowl 2 (-1 / 2), rfl, rfl, rfl⟩
  · exact ⟨inBowl 3 (1 / 4), rfl, rfl, rfl⟩

def returns {F : Type} (c : Ref → F × World ℚ → Bool) :
    EStateM.Result Exception (F × World ℚ) (Option (List Ref)) → Bool
  | .ok (some [r]) s => c r s
  | _ => false

theorem of_returns {F : Type} {c : Ref → F × World ℚ → Bool}
    {run : EStateM.Result Exception (F × World ℚ) (Option (List Ref))}
    (h : returns c run = true) : ∃ r s, run = .ok (some [r]) s ∧ c r s = true := by
  unfold returns at h
  split at h
  next r s => exact ⟨r, s, rfl, h⟩
  next => cases h

theorem run_elitist_example : ∃ r s,
    DE.runMetaHeuristic exampleEvolution 2 [0, 1, 2, 3] (some .benchmark)
      (⟨[], none⟩, exampleWorld) = .ok (some [r]) s ∧
    (∀ e ∈ [0, 1, 2, 3], s.2.value r ≤ s.2.value e) ∧
    ∀ t, 4 ≤ t → Viable s.2 t → s.2.value r ≤ s.2.value t := by
  obtain ⟨r, s, hrun, -⟩ := of_returns (c := fun _ _ => true)
    (show returns _ (DE.runMetaHeuristic exampleEvolution 2 [0, 1, 2, 3] (some .benchmark)
      (⟨[], none⟩, exampleWorld)) = true by decide +kernel)
  obtain ⟨r', hresult, -, hinputs, htrials, -⟩ :=
    (run_elitist (show Computes exampleEvolution.problem valueInBowl from bowl_computes) rfl rfl
      (show exampleParameters.maxIterations = some 0 from rfl) le_rfl
      (show [0, 1, 2, 3][0]? = some 0 from rfl) le_rfl evaluated_inBowl).2 2 (some [r]) s hrun
  obtain rfl : r = r' := by simpa using hresult
  exact ⟨r, s, hrun, fun e he => (hinputs e he).2, htrials⟩

end Example

end DOptimas.Proofs.DifferentialEvolution
