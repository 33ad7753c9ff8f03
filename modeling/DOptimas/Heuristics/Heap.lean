import DOptimas.Heuristics.Invariants
/-!
# What a run leaves alone

A solution that is evaluated and not changed since stays as it is, and one that
is viable was so before or is among those that were judged in between.  The two
facts together carry comparisons of function values from one state of a run to
all later ones.
-/

namespace DOptimas.Heuristics

open DOptimas.Support
open DOptimas.Core (SolutionAnalyser)

variable {K : Type} [RealArith K]

theorem modify_eq_set {α : Type} {xs : List α} {i : ℕ} {x : α} (h : xs[i]? = some x)
    (f : α → α) : xs.modify i f = xs.set i (f x) := by
  apply List.ext_getElem?
  intro j
  rw [List.getElem?_modify, List.getElem?_set]
  by_cases hij : i = j
  · subst hij
    obtain ⟨hlt, hx⟩ := List.getElem?_eq_some_iff.1 h
    simp [hlt, hx]
  · simp [hij]

/-! ## Building, cloning and calculating -/

def Solution.built (problem : Problem K) (id : ℕ) : Solution K :=
  { id, problem
    solutionsVector := if problem.nullInit then List.replicate problem.dimension none else []
    functionValue := some problem.initialValue
    viable := false
    changed := false }

def Solution.calculated (s : Solution K) (value : K) : Solution K :=
  { s with
    functionValue := some value
    viable := (s.problem.checkViability s.solutionsVector).1
    changed := false }

section Objects

variable {w : World K}

theorem ends_buildSolution (problem : Problem K) :
    Ends (buildSolution problem) w fun r w' => r = w.solutions.length ∧
      ∃ id, w'.solutions = w.solutions ++ [Solution.built problem id] := by
  unfold buildSolution
  refine Ends.bind (Q := fun _ w' => w'.solutions = w.solutions) (.changes rfl) ?_
  intro id w' hw
  exact .changes ⟨by rw [hw], id, by rw [hw]; rfl⟩

theorem ends_clone (r : Ref) :
    Ends (clone r) w fun r' w' => r' = w.solutions.length ∧
      ∃ s id, w.solutions[r]? = some s ∧
        w'.solutions = w.solutions ++ [{ s with id, viable := false }] := by
  unfold clone
  refine (ends_deref r).bind ?_
  rintro s w ⟨hs, rfl⟩
  refine Ends.bind (Q := fun _ w' => w'.solutions = w.solutions) (.changes rfl) ?_
  intro id w' hw
  exact .changes ⟨by rw [hw], s, id, hs, by rw [hw]⟩

theorem ends_accept (a : SolutionAnalyser) (r : Ref) :
    Ends (accept a r) w fun _ w' =>
      ∃ clones, w'.solutions = w.solutions ++ clones ∧ ∀ t ∈ clones, t.viable = false := by
  unfold accept
  refine Ends.bind (Q := fun _ w' => w'.solutions = w.solutions) (.modifies rfl) ?_
  intro _ w₁ hw₁
  refine (Ends.reads (Q := fun v w' => v = w₁ ∧ w' = w₁) ⟨rfl, rfl⟩).bind ?_
  rintro v _ ⟨rfl, rfl⟩
  split
  · refine (ends_clone r).bind ?_
    rintro best w₂ ⟨-, s, id, -, hw₂⟩
    refine .modifies ⟨[{ s with id, viable := false }], ?_, by simp⟩
    rw [← hw₁]
    exact hw₂
  next best _ =>
    refine (ends_getBestSolution a best r).bind ?_
    rintro best' _ ⟨-, rfl⟩
    exact .modifies ⟨[], by simpa using hw₁, by simp⟩

def Calculates (r : Ref) (x : K) (w w' : World K) : Prop :=
  ∃ s calls clones, w.solutions[r]? = some s ∧
    (s.problem.objectiveFunction calls s.solutionsVector).outcome = .ok x ∧
    (s.problem.checkViability s.solutionsVector).2 = .ok () ∧
    w'.solutions = w.solutions.set r (s.calculated x) ++ clones ∧ ∀ t ∈ clones, t.viable = false

theorem ends_answered {α : Type} (answer : Answer α) :
    Ends (answered answer) w fun a w' =>
      answer.outcome = .ok a ∧ w'.solutions = w.solutions := by
  unfold answered
  refine Ends.bind (Q := fun _ w' => w'.solutions = w.solutions) (.modifies rfl) ?_
  intro _ w₁ hw₁
  exact (ends_orThrow _).mono fun a w' ⟨ha, heq⟩ => ⟨ha, heq ▸ hw₁⟩

theorem ends_assign (r : Ref) (f : Solution K → Solution K) :
    Ends (assign r f) w fun _ w' => w'.solutions = w.solutions.modify r f := .modifies rfl

theorem ends_calculate (context : Context) (r : Ref) :
    Ends (calculate context r) w fun _ w' => ∃ x, Calculates r x w w' := by
  unfold calculate
  refine (ends_deref r).bind ?_
  rintro s v ⟨hs, hv⟩
  subst v
  refine (Ends.reads (Q := fun v w' => v = w ∧ w' = w) ⟨rfl, rfl⟩).bind ?_
  rintro v v' ⟨hv, hv'⟩
  subst v v'
  refine (ends_answered _).bind ?_
  rintro x w₁ ⟨hx, hw₁⟩
  refine (ends_assign r _).bind ?_
  intro _ w₂ hw₂
  refine (ends_assign r _).bind ?_
  intro _ w₃ hw₃
  refine (ends_orThrow _).bind ?_
  rintro _ w₃ ⟨hviable, rfl⟩
  refine (ends_assign r _).bind ?_
  intro _ w₄ hw₄
  have hset : w₄.solutions = w.solutions.set r (s.calculated x) := by
    rw [hw₄, hw₃, hw₂, hw₁, List.modify_modify_eq, List.modify_modify_eq, modify_eq_set hs]
    rfl
  have hend : ∀ w', (∃ clones, w'.solutions = w₄.solutions ++ clones ∧
      ∀ t ∈ clones, t.viable = false) → ∃ x, Calculates r x w w' := by
    rintro w' ⟨clones, hw', hclones⟩
    exact ⟨x, s, w.evaluations, clones, hs, hx, hviable, by rw [hw', hset], hclones⟩
  cases context with
  | some a => exact (ends_accept a r).mono fun _ w' h => hend w' h
  | none => exact .ret (hend w₄ ⟨[], by simp, by simp⟩)

theorem ends_evaluate (context : Context) (r : Ref) :
    Ends (evaluate context r) w fun value w' => ∃ s, w.solutions[r]? = some s ∧
      (s.changed = false ∧ value = s.functionValue ∧ w' = w ∨
        s.changed = true ∧ ∃ x, value = some x ∧ Calculates r x w w') := by
  unfold evaluate
  refine (ends_deref r).bind ?_
  rintro s w ⟨hs, rfl⟩
  obtain ⟨hlt, -⟩ := List.getElem?_eq_some_iff.1 hs
  split
  next hchanged =>
    refine (ends_calculate context r).bind ?_
    rintro _ w' ⟨x, hcalculates⟩
    refine (ends_deref r).bind ?_
    rintro t w' ⟨ht, rfl⟩
    refine .ret ⟨s, hs, Or.inr ⟨hchanged, x, ?_, hcalculates⟩⟩
    obtain ⟨s', -, clones, hs', -, -, hw', -⟩ := hcalculates
    rw [hw', List.getElem?_append_left (by simpa using hlt), List.getElem?_set_self hlt] at ht
    rw [← Option.some.inj ht]
    rfl
  next hchanged =>
    refine (ends_deref r).bind ?_
    rintro t w ⟨ht, rfl⟩
    obtain rfl : s = t := Option.some.inj (hs.symm.trans ht)
    exact .ret ⟨s, hs, Or.inl ⟨by simpa using hchanged, rfl, rfl⟩⟩

end Objects

/-! ## What stays -/

/-- Solutions stay unless they are in `S` and a change is pending, and those that are
viable were so before or are in `S`. -/
structure World.Grows (S : Ref → Prop) (w w' : World K) : Prop where
  kept : ∀ (r : Ref) (s : Solution K), w.solutions[r]? = some s → (S r → s.changed = false) →
    w'.solutions[r]? = some s
  viable : ∀ (r : Ref) (s : Solution K), w'.solutions[r]? = some s → s.viable = true →
    w.solutions[r]? = some s ∨ S r

/-- No change is pending, and the solution satisfies `P`. -/
def Evaluated (P : Solution K → Prop) (w : World K) (r : Ref) : Prop :=
  ∃ s, w.solutions[r]? = some s ∧ s.changed = false ∧ P s

/-- No change is pending, and the solution satisfies `P` if it is viable. -/
def Judged (P : Solution K → Prop) (w : World K) (r : Ref) : Prop :=
  Evaluated (fun s => s.viable = true → P s) w r

def Establishes (problem : Problem K) (V : List (Option (Element K)) → Prop)
    (P : Solution K → Prop) : Prop :=
  ∀ (s : Solution K) calls x, s.problem = problem → V s.solutionsVector →
    (problem.objectiveFunction calls s.solutionsVector).outcome = .ok x → P (s.calculated x)

def Viable (w : World K) (r : Ref) : Prop := ∃ s, w.solutions[r]? = some s ∧ s.viable = true

omit [RealArith K] in
theorem any_viable_iff (s : Option (Solution K)) :
    s.any (fun s => s.viable) = true ↔ ∃ t, s = some t ∧ t.viable = true := by
  cases s with
  | none => simp
  | some s => simp

instance (w : World K) (r : Ref) : Decidable (Viable w r) :=
  decidable_of_iff _ (any_viable_iff w.solutions[r]?)

def Shaped (problem : Problem K) (V : List (Option (Element K)) → Prop) (w : World K)
    (r : Ref) : Prop :=
  ∀ s, w.solutions[r]? = some s → s.problem = problem ∧ V s.solutionsVector

def Stands (problem : Problem K) (V : List (Option (Element K)) → Prop) (w : World K)
    (r : Ref) : Prop :=
  ∃ s, w.solutions[r]? = some s ∧ s.problem = problem ∧ V s.solutionsVector

def Fresh (problem : Problem K) (V : List (Option (Element K)) → Prop) (w : World K)
    (r : Ref) : Prop :=
  Shaped problem V w r ∧ ¬Viable w r

namespace World.Grows

variable {w w' w'' : World K} {S T : Ref → Prop} {P : Solution K → Prop} {r : Ref}

theorem refl (S : Ref → Prop) (w : World K) : w.Grows S w :=
  ⟨fun _ _ h _ => h, fun _ _ h _ => Or.inl h⟩

theorem of_eq (S : Ref → Prop) (h : w'.solutions = w.solutions) : w.Grows S w' :=
  ⟨fun _ _ hs _ => h ▸ hs, fun _ _ hs _ => Or.inl (h ▸ hs)⟩

theorem mono (h : w.Grows S w') (himp : ∀ r, S r → T r) : w.Grows T w' :=
  ⟨fun r s hs hc => h.kept r s hs fun hr => hc (himp r hr),
    fun r s hs hv => (h.viable r s hs hv).imp_right (himp r)⟩

theorem any (h : w.Grows (fun _ => False) w') (S : Ref → Prop) : w.Grows S w' :=
  h.mono fun _ hr => hr.elim

theorem trans (h : w.Grows S w') (h' : w'.Grows S w'') : w.Grows S w'' := by
  refine ⟨fun r s hs hc => h'.kept r s (h.kept r s hs hc) hc, fun r s hs hv => ?_⟩
  rcases h'.viable r s hs hv with hold | hp
  · exact h.viable r s hold hv
  · exact Or.inr hp

theorem evaluated (h : w.Grows S w') (hr : Evaluated P w r) : Evaluated P w' r := by
  obtain ⟨s, hs, hc, hp⟩ := hr
  exact ⟨s, h.kept r s hs fun _ => hc, hc, hp⟩

theorem value_eq (h : w.Grows S w') (hr : Evaluated P w r) : w'.value r = w.value r := by
  obtain ⟨s, hs, hc, -⟩ := hr
  simp [World.value, World.valueOf, hs, h.kept r s hs fun _ => hc]

theorem viable_iff (h : w.Grows S w') (hr : Evaluated P w r) : Viable w' r ↔ Viable w r := by
  obtain ⟨s, hs, hc, -⟩ := hr
  simp [Viable, hs, h.kept r s hs fun _ => hc]

theorem viable_or (h : w.Grows S w') (hr : Viable w' r) : Viable w r ∨ S r := by
  obtain ⟨s, hs, hv⟩ := hr
  exact (h.viable r s hs hv).imp_left fun hold => ⟨s, hold, hv⟩

theorem viable_before (h : w.Grows (fun _ => False) w') (r : Ref) (hr : Viable w' r) :
    Viable w r :=
  (h.viable_or hr).resolve_right id

theorem getElem?_eq (h : w.Grows S w') (hr : r < w.solutions.length) (hnot : ¬S r) :
    w'.solutions[r]? = w.solutions[r]? := by
  rw [List.getElem?_eq_getElem hr]
  exact h.kept r _ (List.getElem?_eq_getElem hr) fun hs => absurd hs hnot

theorem lt (h : w.Grows S w') (hr : r < w.solutions.length) (hnot : ¬S r) :
    r < w'.solutions.length := by
  have hsome := h.getElem?_eq hr hnot
  rw [List.getElem?_eq_getElem hr] at hsome
  exact (List.getElem?_eq_some_iff.1 hsome).1

theorem length_le (h : w.Grows S w') (hnot : ∀ r, r < w.solutions.length → ¬S r) :
    w.solutions.length ≤ w'.solutions.length := by
  by_contra hlt
  have hr : w'.solutions.length < w.solutions.length := not_le.1 hlt
  exact lt_irrefl _ (h.lt hr (hnot _ hr))

theorem stands {problem : Problem K} {V : List (Option (Element K)) → Prop} (h : w.Grows S w')
    (hs : Stands problem V w r) (hnot : ¬S r) : Stands problem V w' r := by
  obtain ⟨s, hs, hshape⟩ := hs
  exact ⟨s, h.kept r s hs fun hr => absurd hr hnot, hshape⟩

theorem fresh {problem : Problem K} {V : List (Option (Element K)) → Prop} (h : w.Grows S w')
    (hf : Fresh problem V w r) (hr : r < w.solutions.length) (hnot : ¬S r) :
    Fresh problem V w' r := by
  rw [Fresh, Shaped, Viable, h.getElem?_eq hr hnot]
  exact hf

end World.Grows

section Rules

variable {w w' : World K} {P Q : Solution K → Prop} {r : Ref} {x : K} {problem : Problem K}
  {V : List (Option (Element K)) → Prop} {context : Context}

theorem Evaluated.mono (h : Evaluated P w r) (himp : ∀ s, P s → Q s) : Evaluated Q w r := by
  obtain ⟨s, hs, hc, hp⟩ := h
  exact ⟨s, hs, hc, himp s hp⟩

theorem Stands.shaped (h : Stands problem V w r) : Shaped problem V w r := by
  obtain ⟨s, hs, hshape⟩ := h
  intro t ht
  obtain rfl : s = t := Option.some.inj (hs.symm.trans ht)
  exact hshape

theorem Stands.lt (h : Stands problem V w r) : r < w.solutions.length := by
  obtain ⟨s, hs, -⟩ := h
  exact (List.getElem?_eq_some_iff.1 hs).1

theorem Shaped.stands (h : Shaped problem V w r) (hr : r < w.solutions.length) :
    Stands problem V w r :=
  ⟨w.solutions[r], List.getElem?_eq_getElem hr, h _ (List.getElem?_eq_getElem hr)⟩

theorem Evaluated.judged (h : Evaluated P w r) : Judged P w r := h.mono fun _ hp _ => hp

theorem Judged.evaluated (h : Judged P w r) (hv : Viable w r) : Evaluated P w r := by
  obtain ⟨s, hs, hc, hp⟩ := h
  obtain ⟨t, ht, hv⟩ := hv
  obtain rfl : s = t := Option.some.inj (hs.symm.trans ht)
  exact ⟨s, hs, hc, hp hv⟩

theorem ends_evaluate_again (h : Evaluated P w r) :
    Ends (evaluate context r) w fun _ w' => w' = w := by
  obtain ⟨s, hs, hc, -⟩ := h
  intro value w' he
  rw [evaluate_eq hs hc] at he
  cases he
  rfl

theorem ends_isViable_again (h : Evaluated P w r) :
    Ends (isViable context r) w fun viable w' => (viable = true ↔ Viable w r) ∧ w' = w := by
  obtain ⟨s, hs, hc, -⟩ := h
  intro viable w' he
  rw [isViable_eq hs hc] at he
  cases he
  simp [Viable, hs]

theorem Calculates.grows {s : Solution K} (h : Calculates r x w w')
    (hs : w.solutions[r]? = some s) (hchanged : s.changed = true) : w.Grows (· = r) w' := by
  obtain ⟨t, calls, clones, ht, -, -, hw', hclones⟩ := h
  refine ⟨fun r' s' hs' hc => ?_, fun r' s' hs' hv => ?_⟩
  · have hne : r ≠ r' := by
      rintro rfl
      obtain rfl : s = s' := Option.some.inj (hs.symm.trans hs')
      simp [hchanged] at hc
    obtain ⟨hlt, -⟩ := List.getElem?_eq_some_iff.1 hs'
    rw [hw', List.getElem?_append_left (by simpa using hlt), List.getElem?_set_ne hne]
    exact hs'
  · by_cases hr : r' = r
    · exact Or.inr hr
    · left
      rw [hw'] at hs'
      by_cases hlt : r' < w.solutions.length
      · rw [List.getElem?_append_left (by simpa using hlt),
          List.getElem?_set_ne (Ne.symm hr)] at hs'
        exact hs'
      · rw [List.getElem?_append_right (by simpa using hlt)] at hs'
        have hnot := hclones s' (List.mem_of_getElem? hs')
        simp [hnot] at hv

theorem Calculates.evaluated (h : Calculates r x w w') (hp : Establishes problem V P)
    (hshaped : Shaped problem V w r) : Evaluated P w' r := by
  obtain ⟨s, calls, clones, hs, hx, -, hw', -⟩ := h
  obtain ⟨hlt, -⟩ := List.getElem?_eq_some_iff.1 hs
  obtain ⟨hproblem, hvector⟩ := hshaped s hs
  refine ⟨s.calculated x, ?_, rfl, hp s calls x hproblem hvector ?_⟩
  · rw [hw', List.getElem?_append_left (by simpa using hlt), List.getElem?_set_self hlt]
  · rw [← hproblem]
    exact hx

theorem ends_evaluate_judged (hp : Establishes problem V P)
    (h : Judged P w r ∨ Fresh problem V w r) :
    Ends (evaluate context r) w fun _ w' => w.Grows (· = r) w' ∧ Judged P w' r := by
  refine (ends_evaluate context r).mono ?_
  rintro value w' ⟨s, hs, ⟨hchanged, -, rfl⟩ | ⟨hchanged, x, -, hcalculates⟩⟩
  · refine ⟨.refl _ _, ?_⟩
    rcases h with h | h
    · exact h
    · exact ⟨s, hs, hchanged, fun hv => absurd ⟨s, hs, hv⟩ h.2⟩
  · refine ⟨hcalculates.grows hs hchanged, ?_⟩
    rcases h with ⟨t, ht, hc, -⟩ | h
    · obtain rfl : s = t := Option.some.inj (hs.symm.trans ht)
      simp [hchanged] at hc
    · exact (hcalculates.evaluated hp h.1).judged

theorem ends_evaluate_shaped (h : Shaped problem V w r) :
    Ends (evaluate context r) w fun _ w' => w.Grows (· = r) w' ∧
      Evaluated (fun s => s.problem = problem ∧ V s.solutionsVector) w' r := by
  refine (ends_evaluate context r).mono ?_
  rintro value w' ⟨s, hs, ⟨hchanged, -, rfl⟩ | ⟨hchanged, x, -, hcalculates⟩⟩
  · exact ⟨.refl _ _, s, hs, hchanged, h s hs⟩
  · exact ⟨hcalculates.grows hs hchanged,
      hcalculates.evaluated (fun _ _ _ hproblem hvector _ => ⟨hproblem, hvector⟩) h⟩

/-- What a modifier of collections keeps: the old solutions, and that the new
ones were never found viable. -/
theorem builds_fresh (problem : Problem K) (w : World K) :
    Builds (fun w' => (∀ r, r < w.solutions.length → w'.solutions[r]? = w.solutions[r]?) ∧
      w.solutions.length ≤ w'.solutions.length ∧
      ∀ r, w.solutions.length ≤ r → ∀ s, w'.solutions[r]? = some s →
        s.problem = problem ∧ s.viable = false)
      (fun r => w.solutions.length ≤ r) problem where
  draw _ _ _ _ _ h := h
  vector w' r vector hr := by
    rintro ⟨hold, hlength, hfresh⟩
    refine ⟨fun r' hr' => ?_, by simpa using hlength, fun r' hr' s hs => ?_⟩
    · rw [List.getElem?_modify_ne _ _ (by omega)]
      exact hold r' hr'
    · rw [List.getElem?_modify, Option.map_eq_map, Option.map_eq_some_iff] at hs
      obtain ⟨t, ht, rfl⟩ := hs
      obtain ⟨hproblem, hviable⟩ := hfresh r' hr' t ht
      split
      · exact ⟨hproblem, hviable⟩
      · exact ⟨hproblem, hviable⟩
  build w' := by
    rintro ⟨hold, hlength, hfresh⟩
    refine (ends_buildSolution problem).mono ?_
    rintro r w'' ⟨rfl, id, hw''⟩
    refine ⟨hlength, fun r hr => ?_, ?_, fun r hr s hs => ?_⟩
    · rw [hw'', List.getElem?_append_left (by omega)]
      exact hold r hr
    · rw [hw'', List.length_append]
      omega
    · rw [hw''] at hs
      by_cases hlt : r < w'.solutions.length
      · rw [List.getElem?_append_left hlt] at hs
        exact hfresh r hr s hs
      · rw [List.getElem?_append_right (by omega)] at hs
        obtain rfl := List.mem_singleton.1 (List.mem_of_getElem? hs)
        exact ⟨rfl, rfl⟩

theorem ends_modifyCollection (m : Option ModifiesSolutionCollections) (problem : Problem K)
    (rs : List Ref) (parameters : CollectionParameters K) (n : Option ℤ) :
    Ends (modifyCollection m problem rs parameters n) w fun result w' =>
      w.Grows (fun _ => False) w' ∧
        ∀ r ∈ result, r ∈ rs ∨ Fresh problem (fun _ => True) w' r := by
  have hinit : ∀ r, w.solutions.length ≤ r → ∀ s, w.solutions[r]? = some s →
      s.problem = problem ∧ s.viable = false := by
    intro r hr s hs
    obtain ⟨hlt, -⟩ := List.getElem?_eq_some_iff.1 hs
    omega
  refine ((builds_fresh problem w).modifyCollection ⟨fun _ _ => rfl, le_rfl, hinit⟩ m rs
    parameters n).mono ?_
  rintro result w' ⟨hresult, hold, -, hfresh⟩
  refine ⟨⟨fun r s hs _ => ?_, fun r s hs hv => ?_⟩, fun r hr => ?_⟩
  · obtain ⟨hlt, -⟩ := List.getElem?_eq_some_iff.1 hs
    rw [hold r hlt]
    exact hs
  · by_cases hlt : r < w.solutions.length
    · rw [hold r hlt] at hs
      exact Or.inl hs
    · have hnot := (hfresh r (not_lt.1 hlt) s hs).2
      simp [hnot] at hv
  · rcases hresult r hr with hown | hmem
    · refine Or.inr ⟨fun s hs => ⟨(hfresh r hown s hs).1, trivial⟩, ?_⟩
      rintro ⟨s, hs, hv⟩
      rw [(hfresh r hown s hs).2] at hv
      cases hv
    · exact Or.inl hmem

/-! ## Clones -/

theorem grows_of_append {clones : List (Solution K)} (h : w'.solutions = w.solutions ++ clones)
    (hclones : ∀ t ∈ clones, t.viable = false) (S : Ref → Prop) : w.Grows S w' := by
  refine ⟨fun r s hs _ => ?_, fun r s hs hv => ?_⟩
  · obtain ⟨hlt, -⟩ := List.getElem?_eq_some_iff.1 hs
    rw [h, List.getElem?_append_left hlt]
    exact hs
  · rw [h] at hs
    by_cases hlt : r < w.solutions.length
    · rw [List.getElem?_append_left hlt] at hs
      exact Or.inl hs
    · rw [List.getElem?_append_right (not_lt.1 hlt)] at hs
      rw [hclones s (List.mem_of_getElem? hs)] at hv
      cases hv

/-- A fact that depends on neither the identity of a solution nor its flag. -/
def Tame (P : Solution K → Prop) : Prop :=
  ∀ (s : Solution K) (id : ℕ), P s → P { s with id, viable := false }

/-- A clone shares what is tame with what it copies, and it is not flagged as viable. -/
theorem ends_clone_tame (hP : Tame P) (hr : Evaluated P w r) :
    Ends (clone r) w fun r' w' => w.Grows (fun _ => False) w' ∧ r' = w.solutions.length ∧
      Evaluated P w' r' ∧ ¬Viable w' r' ∧ w'.value r' = w.value r := by
  refine (ends_clone r).mono ?_
  rintro r' w' ⟨rfl, s, id, hs, hw'⟩
  obtain ⟨t, ht, hchanged, hp⟩ := hr
  obtain rfl : s = t := Option.some.inj (hs.symm.trans ht)
  have hobject : w'.solutions[w.solutions.length]? = some { s with id, viable := false } := by
    simp [hw']
  refine ⟨grows_of_append hw' (by simp) _, rfl, ⟨_, hobject, hchanged, hP s id hp⟩, ?_, ?_⟩
  · rintro ⟨u, hu, hv⟩
    rw [hobject] at hu
    cases hu
    cases hv
  · simp [World.value, World.valueOf, hobject, hs]

/-- A traversal that appends one solution at each step.  `Q i before t` says what is
appended at step `i`, behind the solutions `before` that were appended so far. -/
theorem ends_appends {α : Type} {xs : List α} {f : α → Program K Ref}
    {Q : ℕ → List (Solution K) → Solution K → Prop}
    (hf : ∀ i a, xs[i]? = some a → ∀ w₁ before, w₁.solutions = w.solutions ++ before →
      Ends (f a) w₁ fun r w₂ => r = w₁.solutions.length ∧
        ∃ t, w₂.solutions = w₁.solutions ++ [t] ∧ Q i before t) :
    Ends (xs.mapM f) w fun rs w' => ∃ new : List (Solution K),
      w'.solutions = w.solutions ++ new ∧ new.length = xs.length ∧
      rs = List.range' w.solutions.length xs.length ∧
      ∀ (i : ℕ) (t : Solution K), new[i]? = some t → Q i (new.take i) t := by
  refine (Ends.mapM_idx (I := fun rs w' => ∃ new : List (Solution K),
      w'.solutions = w.solutions ++ new ∧ new.length = rs.length ∧
      rs = List.range' w.solutions.length rs.length ∧
      ∀ (i : ℕ) (t : Solution K), new[i]? = some t → Q i (new.take i) t)
    ⟨[], by simp, rfl, rfl, by simp⟩ ?_).mono ?_
  · rintro i a ha rs w₁ hlength ⟨new, hw₁, hnew, hrs, hall⟩
    refine (hf i a ha w₁ new hw₁).mono ?_
    rintro r w₂ ⟨rfl, t, hw₂, ht⟩
    have hlast : new.length = i := hnew.trans hlength
    refine ⟨new ++ [t], ?_, by simp [hnew], ?_, fun k u hu => ?_⟩
    · rw [hw₂, hw₁, List.append_assoc]
    · rw [List.length_append, List.length_singleton, List.range'_concat, ← hrs, hw₁,
        List.length_append, hnew, one_mul]
    · by_cases hk : k < new.length
      · rw [List.getElem?_append_left hk] at hu
        rw [List.take_append_of_le_length hk.le]
        exact hall k u hu
      · rw [List.getElem?_append_right (not_lt.1 hk)] at hu
        have hzero : k - new.length < 1 := (List.getElem?_eq_some_iff.1 hu).1
        obtain rfl : k = new.length := by omega
        obtain rfl := List.mem_singleton.1 (List.mem_of_getElem? hu)
        rw [List.take_left' rfl, hlast]
        exact ht
  · rintro rs w' ⟨hlength, new, hw', hnew, hrs, hall⟩
    rw [hlength] at hnew hrs
    exact ⟨new, hw', hnew, hrs, hall⟩

/-- `copyValues` appends a clone of each solution; the copies are the new positions. -/
theorem ends_copyValues (rs : List Ref) :
    Ends (copyValues rs) w fun copies w' => ∃ clones : List (Solution K),
      w'.solutions = w.solutions ++ clones ∧ clones.length = rs.length ∧
      copies = List.range' w.solutions.length rs.length ∧
      ∀ (i : ℕ) (t : Solution K), clones[i]? = some t → ∃ r s id, rs[i]? = some r ∧
        (w.solutions ++ clones.take i)[r]? = some s ∧ t = { s with id, viable := false } := by
  unfold copyValues
  refine ends_appends (Q := fun i before t => ∃ r s id, rs[i]? = some r ∧
    (w.solutions ++ before)[r]? = some s ∧ t = { s with id, viable := false }) ?_
  intro i r hr w₁ before hw₁
  refine (ends_clone r).mono ?_
  rintro r' w₂ ⟨rfl, s, id, hs, hw₂⟩
  exact ⟨rfl, _, hw₂, r, s, id, hr, hw₁ ▸ hs, rfl⟩

theorem ends_copyValues_fresh {rs : List Ref} (h : ∀ r ∈ rs, Shaped problem V w r) :
    Ends (copyValues rs) w fun copies w' => w.Grows (fun _ => False) w' ∧
      copies = List.range' w.solutions.length rs.length ∧
      w'.solutions.length = w.solutions.length + rs.length ∧
      ∀ c ∈ copies, Fresh problem V w' c := by
  refine (ends_copyValues rs).mono ?_
  rintro copies w' ⟨clones, hw', hlength, hcopies, hall⟩
  have hviable : ∀ t ∈ clones, t.viable = false := by
    intro t ht
    obtain ⟨i, hi⟩ := List.getElem?_of_mem ht
    obtain ⟨_, _, _, -, -, rfl⟩ := hall i t hi
    rfl
  -- a reference into the copies themselves finds an earlier one
  have hshaped : ∀ (i : ℕ) (t : Solution K), clones[i]? = some t →
      t.problem = problem ∧ V t.solutionsVector := by
    intro i
    induction i using Nat.strong_induction_on with
    | _ i ih =>
        intro t ht
        obtain ⟨r, s, id, hr, hs, rfl⟩ := hall i t ht
        by_cases hlt : r < w.solutions.length
        · rw [List.getElem?_append_left hlt] at hs
          exact h r (List.mem_of_getElem? hr) s hs
        · rw [List.getElem?_append_right (not_lt.1 hlt), List.getElem?_take] at hs
          split at hs
          next hj => exact ih _ hj s hs
          next => cases hs
  refine ⟨grows_of_append hw' hviable _, hcopies, by rw [hw', List.length_append, hlength],
    fun c hc => ?_⟩
  rw [hcopies, List.mem_range'_1] at hc
  have hobject : ∀ s, w'.solutions[c]? = some s → clones[c - w.solutions.length]? = some s := by
    intro s hs
    rw [hw', List.getElem?_append_right hc.1] at hs
    exact hs
  refine ⟨fun s hs => hshaped _ s (hobject s hs), ?_⟩
  rintro ⟨s, hs, hv⟩
  rw [hviable s (List.mem_of_getElem? (hobject s hs))] at hv
  cases hv

theorem ends_copyValues_values (rs : List Ref) :
    Ends (copyValues rs) w fun _ w' => ∀ (i : ℕ) (e : Ref), rs[i]? = some e →
      Evaluated (fun _ => True) w e → Evaluated (fun _ => True) w' (w.solutions.length + i) ∧
        w'.value (w.solutions.length + i) = w.value e := by
  refine (ends_copyValues rs).mono ?_
  rintro copies w' ⟨clones, hw', hlength, -, hall⟩ i e he ⟨s, hs, hchanged, -⟩
  obtain ⟨hi, -⟩ := List.getElem?_eq_some_iff.1 he
  have hlt : i < clones.length := by omega
  obtain ⟨r, s', id, hr, hs', hclone⟩ := hall i clones[i] (List.getElem?_eq_getElem hlt)
  obtain rfl : e = r := Option.some.inj (he.symm.trans hr)
  obtain ⟨helt, -⟩ := List.getElem?_eq_some_iff.1 hs
  rw [List.getElem?_append_left helt] at hs'
  obtain rfl : s = s' := Option.some.inj (hs.symm.trans hs')
  have hobject : w'.solutions[w.solutions.length + i]? = some { s with id, viable := false } := by
    rw [hw', List.getElem?_append_right (Nat.le_add_right _ _), Nat.add_sub_cancel_left,
      List.getElem?_eq_getElem hlt, hclone]
  refine ⟨⟨_, hobject, hchanged, trivial⟩, ?_⟩
  simp [World.value, World.valueOf, hobject, hs]

theorem ends_copyValues_stands {rs : List Ref} (h : ∀ r ∈ rs, Shaped problem V w r) :
    Ends (copyValues rs) w fun copies w' => w.Grows (fun _ => False) w' ∧
      copies.length = rs.length ∧ ∀ c ∈ copies, Stands problem V w' c := by
  refine (ends_copyValues_fresh h).mono ?_
  rintro copies w' ⟨hgrows, hcopies, hlength, hfresh⟩
  refine ⟨hgrows, by rw [hcopies, List.length_range'], fun c hc => (hfresh c hc).1.stands ?_⟩
  rw [hcopies, List.mem_range'_1] at hc
  rw [hlength]
  exact hc.2

end Rules

end DOptimas.Heuristics
