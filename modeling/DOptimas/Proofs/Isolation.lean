import DOptimas.Heuristics.ProblemParts
import DOptimas.Proofs.AnnealingBest
/-!
# What a run leaves of the solutions it did not build

Solutions are shared by reference between an agent, its region and other agents.
A run adds solutions with new ids and calculates what is pending; four of the six
metaheuristics do not even do that to a solution that they are given.
-/

namespace DOptimas.Proofs.Isolation

open DOptimas.Support DOptimas.Heuristics
open DOptimas.Core (SolutionAnalyser)

variable {K : Type} [RealArith K]

def idOf (w : World K) (r : Ref) : Option ℕ := (w.solutions[r]?).map Solution.id

structure DistinctIds (w : World K) : Prop where
  below : ∀ r i, idOf w r = some i → i < w.nextId
  injective : ∀ r r' i, idOf w r = some i → idOf w r' = some i → r = r'

structure Preserves (Q : Solution K → Solution K → Prop) (w₀ w : World K) : Prop where
  ids : DistinctIds w
  kept : ∀ (r : Ref) (s : Solution K), w₀.solutions[r]? = some s →
    ∃ t : Solution K, w.solutions[r]? = some t ∧ Q s t
  length_le : w₀.solutions.length ≤ w.solutions.length

def CalculatedAtMost (s t : Solution K) : Prop :=
  t = s ∨ s.changed = true ∧ t.id = s.id ∧ t.problem = s.problem ∧
    t.solutionsVector = s.solutionsVector

def Caches (f : Solution K → Solution K) : Prop :=
  ∀ s, (f s).id = s.id ∧ (f s).problem = s.problem ∧ (f s).solutionsVector = s.solutionsVector

section Primitives

variable {Q : Solution K → Solution K → Prop} {w₀ w w' : World K} {r : Ref}

theorem DistinctIds.of_idOf (h : DistinctIds w) (hids : ∀ r, idOf w' r = idOf w r)
    (hnext : w.nextId ≤ w'.nextId) : DistinctIds w' where
  below r i hi := (h.below r i (hids r ▸ hi)).trans_le hnext
  injective r r' i hi hi' := h.injective r r' i (hids r ▸ hi) (hids r' ▸ hi')

theorem idOf_modify (w : World K) (r : Ref) {f : Solution K → Solution K}
    (hf : ∀ s, (f s).id = s.id) (r' : Ref) :
    ((w.solutions.modify r f)[r']?).map Solution.id = idOf w r' := by
  rw [List.getElem?_modify, idOf]
  cases w.solutions[r']? with
  | none => rfl
  | some s =>
      by_cases h : r = r'
      · simp [h, hf]
      · simp [h]

theorem Preserves.of_eq (h : Preserves Q w₀ w) (hsolutions : w'.solutions = w.solutions)
    (hnext : w.nextId ≤ w'.nextId) : Preserves Q w₀ w' where
  ids := h.ids.of_idOf (fun r => by rw [idOf, hsolutions, idOf]) hnext
  kept r s hs := by
    rw [hsolutions]
    exact h.kept r s hs
  length_le := hsolutions ▸ h.length_le

theorem Preserves.modify (h : Preserves Q w₀ w) {f : Solution K → Solution K}
    (hf : ∀ s, (f s).id = s.id)
    (hQ : ∀ s t, w₀.solutions[r]? = some s → Q s t → Q s (f t)) :
    Preserves Q w₀ { w with solutions := w.solutions.modify r f } where
  ids := h.ids.of_idOf (idOf_modify w r hf) le_rfl
  kept r' s hs := by
    obtain ⟨t, ht, hq⟩ := h.kept r' s hs
    by_cases hr : r = r'
    · subst hr
      refine ⟨f t, ?_, hQ s t hs hq⟩
      rw [List.getElem?_modify, ht]
      simp
    · refine ⟨t, ?_, hq⟩
      rw [List.getElem?_modify, ht]
      simp [hr]
  length_le := by
    rw [List.length_modify]
    exact h.length_le

theorem Preserves.append (h : Preserves Q w₀ w) {s : Solution K} (hid : s.id = w.nextId)
    (hsolutions : w'.solutions = w.solutions ++ [s]) (hnext : w'.nextId = w.nextId + 1) :
    Preserves Q w₀ w' := by
  have hidOf : ∀ r i, idOf w' r = some i →
      idOf w r = some i ∨ r = w.solutions.length ∧ i = w.nextId := by
    intro r i hi
    rw [idOf, hsolutions] at hi
    rcases lt_or_ge r w.solutions.length with hr | hr
    · rw [List.getElem?_append_left hr] at hi
      exact Or.inl hi
    · rw [List.getElem?_append_right hr] at hi
      obtain ⟨t, ht, rfl⟩ := Option.map_eq_some_iff.1 hi
      rw [List.getElem?_singleton] at ht
      split at ht
      next hzero =>
        cases ht
        exact Or.inr ⟨Nat.le_antisymm (Nat.sub_eq_zero_iff_le.1 hzero) hr, hid⟩
      next => cases ht
  refine ⟨⟨fun r i hi => ?_, fun r r' i hi hi' => ?_⟩, fun r s' hs => ?_, ?_⟩
  · rw [hnext]
    rcases hidOf r i hi with hold | ⟨-, rfl⟩
    · exact (h.ids.below r i hold).trans (Nat.lt_succ_self _)
    · exact Nat.lt_succ_self _
  · rcases hidOf r i hi with hold | ⟨rfl, rfl⟩
    · rcases hidOf r' i hi' with hold' | ⟨-, rfl⟩
      · exact h.ids.injective r r' i hold hold'
      · exact absurd (h.ids.below r _ hold) (lt_irrefl _)
    · rcases hidOf r' _ hi' with hold' | ⟨rfl, -⟩
      · exact absurd (h.ids.below r' _ hold') (lt_irrefl _)
      · rfl
  · obtain ⟨t, ht, hq⟩ := h.kept r s' hs
    refine ⟨t, ?_, hq⟩
    rw [hsolutions, List.getElem?_append_left (List.getElem?_eq_some_iff.1 ht).1]
    exact ht
  · rw [hsolutions, List.length_append]
    exact h.length_le.trans (Nat.le_add_right _ _)

theorem preserves_buildSolution (h : Preserves Q w₀ w) (problem : Problem K) :
    Ends (buildSolution problem) w fun r w' => w₀.solutions.length ≤ r ∧ Preserves Q w₀ w' := by
  unfold buildSolution
  refine Ends.bind (Q := fun id w' => id = w.nextId ∧ w' = { w with nextId := w.nextId + 1 })
    (.changes ⟨rfl, rfl⟩) ?_
  rintro id w' ⟨rfl, rfl⟩
  exact .changes ⟨h.length_le, h.append rfl rfl rfl⟩

theorem preserves_clone (h : Preserves Q w₀ w) (r : Ref) :
    Ends (clone r) w fun r' w' => w₀.solutions.length ≤ r' ∧ Preserves Q w₀ w' := by
  unfold clone
  refine (ends_deref r).bind ?_
  rintro s w ⟨-, rfl⟩
  refine Ends.bind (Q := fun id w' => id = w.nextId ∧ w' = { w with nextId := w.nextId + 1 })
    (.changes ⟨rfl, rfl⟩) ?_
  rintro id w' ⟨rfl, rfl⟩
  exact .changes ⟨h.length_le, h.append rfl rfl rfl⟩

theorem preserves_accept (h : Preserves Q w₀ w) (a : SolutionAnalyser) (r : Ref) :
    Ends (accept a r) w fun _ => Preserves Q w₀ := by
  unfold accept
  refine Ends.bind (Q := fun _ => Preserves Q w₀) (.modifies (h.of_eq rfl le_rfl))
    fun _ w₁ hw₁ => ?_
  refine (Ends.reads (Q := fun v w' => v = w₁ ∧ w' = w₁) ⟨rfl, rfl⟩).bind ?_
  rintro v _ ⟨rfl, rfl⟩
  split
  · refine (preserves_clone hw₁ r).bind fun best w₂ ⟨_, hw₂⟩ => ?_
    exact .modifies (hw₂.of_eq rfl le_rfl)
  · refine (ends_getBestSolution a _ r).bind ?_
    rintro best v ⟨-, hv⟩
    subst v
    exact .modifies (hw₁.of_eq rfl le_rfl)

theorem preserves_answered {α : Type} (h : Preserves Q w₀ w) (answer : Answer α) :
    Ends (answered answer) w fun _ => Preserves Q w₀ := by
  unfold answered
  refine Ends.bind (Q := fun _ => Preserves Q w₀) (.modifies (h.of_eq rfl le_rfl))
    fun _ w₁ hw₁ => ?_
  refine (ends_orThrow _).mono ?_
  rintro _ w' ⟨-, rfl⟩
  exact hw₁

theorem preserves_calculate (h : Preserves Q w₀ w) (context : Context)
    (hQ : ∀ s t f, Caches f → w₀.solutions[r]? = some s → Q s t → Q s (f t)) :
    Ends (calculate context r) w fun _ => Preserves Q w₀ := by
  have hassign : ∀ {w : World K} {f : Solution K → Solution K}, Caches f → Preserves Q w₀ w →
      Ends (assign r f) w fun _ => Preserves Q w₀ := fun hf hw =>
    .modifies (hw.modify (fun s => (hf s).1) fun s t hs => hQ s t _ hf hs)
  unfold calculate
  refine (ends_deref r).bind ?_
  rintro s v ⟨-, hv⟩
  subst v
  refine (Ends.reads (Q := fun v w' => v = w ∧ w' = w) ⟨rfl, rfl⟩).bind ?_
  rintro v v' ⟨hv, hv'⟩
  subst v v'
  refine (preserves_answered h _).bind fun x w₁ hw₁ => ?_
  refine Ends.bind (Q := fun _ => Preserves Q w₀) (hassign (fun _ => ⟨rfl, rfl, rfl⟩) hw₁)
    fun _ w₂ hw₂ => ?_
  refine Ends.bind (Q := fun _ => Preserves Q w₀) (hassign (fun _ => ⟨rfl, rfl, rfl⟩) hw₂)
    fun _ w₃ hw₃ => ?_
  refine (ends_orThrow _).bind ?_
  rintro - v ⟨-, hv⟩
  subst v
  refine Ends.bind (Q := fun _ => Preserves Q w₀) (hassign (fun _ => ⟨rfl, rfl, rfl⟩) hw₃)
    fun _ w₄ hw₄ => ?_
  cases context with
  | some a => exact preserves_accept hw₄ a r
  | none => exact .ret hw₄

theorem preserves_adaptive (h : Preserves Q w₀ w) (r : Ref) (e : Element K) :
    Ends (adaptiveFunctionValue r e) w fun _ => Preserves Q w₀ := by
  unfold adaptiveFunctionValue
  refine (ends_deref r).bind ?_
  rintro s v ⟨-, hv⟩
  subst v
  refine (Ends.reads (Q := fun v w' => v = w ∧ w' = w) ⟨rfl, rfl⟩).bind ?_
  rintro v v' ⟨hv, hv'⟩
  subst v v'
  exact preserves_answered h _

theorem getElem?_eq_none_of_le {s : Solution K} (hr : w₀.solutions.length ≤ r)
    (hs : w₀.solutions[r]? = some s) : False :=
  absurd (List.getElem?_eq_some_iff.1 hs).1 (not_lt.2 hr)

theorem preserves_keeps (Q : Solution K → Solution K → Prop) (w₀ : World K) (problem : Problem K)
    (context : Context) :
    Keeps (Preserves Q w₀) (fun r => w₀.solutions.length ≤ r) problem context where
  draw _ _ _ _ _ h := h.of_eq rfl le_rfl
  vector _ _ _ hr h := h.modify (fun _ => rfl) fun _ _ hs => (getElem?_eq_none_of_le hr hs).elim
  build _ h := preserves_buildSolution h problem
  clone _ r h := preserves_clone h r
  calculate _ _ hr h := preserves_calculate h context fun _ _ _ _ hs =>
    (getElem?_eq_none_of_le hr hs).elim

theorem preserves_calculates (w₀ : World K) (context : Context) :
    CalculatesAny (Preserves CalculatedAtMost w₀) context := by
  intro w r t ht hchanged h
  refine preserves_calculate h context fun s t' f hf hs hst => ?_
  obtain ⟨hid, hproblem, hvector⟩ := hf t'
  have hpending : s.changed = true := by
    obtain ⟨t'', ht'', hst''⟩ := h.kept r s hs
    obtain rfl : t = t'' := Option.some.inj (ht.symm.trans ht'')
    rcases hst'' with rfl | ⟨hpending, -⟩
    · exact hchanged
    · exact hpending
  rcases hst with rfl | ⟨-, hid', hproblem', hvector'⟩
  · exact Or.inr ⟨hpending, hid, hproblem, hvector⟩
  · exact Or.inr ⟨hpending, hid.trans hid', hproblem.trans hproblem', hvector.trans hvector'⟩

end Primitives

section Runs

variable {Q : Solution K → Solution K → Prop} {w w' : World K} {r : Ref}

/-- Built by the run, under an id that no solution had before it. -/
structure Fresh (w w' : World K) (r : Ref) : Prop where
  added : w.solutions.length ≤ r
  id_ne : ∀ i, idOf w' r = some i → ∀ r', idOf w r' ≠ some i

theorem Preserves.fresh (h : Preserves Q w w') (hQ : ∀ s t, Q s t → t.id = s.id)
    (hr : w.solutions.length ≤ r) : Fresh w w' r := by
  refine ⟨hr, fun i hi r' hi' => ?_⟩
  obtain ⟨s, hs, rfl⟩ := Option.map_eq_some_iff.1 hi'
  obtain ⟨t, ht, hst⟩ := h.kept r' s hs
  have hsame : idOf w' r' = some s.id := by rw [idOf, ht, Option.map_some, hQ s t hst]
  obtain rfl := h.ids.injective r r' _ hi hsame
  exact getElem?_eq_none_of_le hr hs

omit [RealArith K] in
theorem id_calculatedAtMost (s t : Solution K) (h : CalculatedAtMost s t) : t.id = s.id := by
  rcases h with rfl | ⟨-, hid, -⟩
  · rfl
  · exact hid

theorem preserves_start (h : DistinctIds w) (hQ : ∀ s, Q s s) :
    Preserves Q w { w with invocations := 0, bestSolution := none } where
  ids := h.of_idOf (fun _ => rfl) le_rfl
  kept _ s hs := ⟨s, hs, hQ s⟩
  length_le := le_rfl

variable (m : MetaHeuristic K)

theorem ends_process {parts : Parts K} (hparts : parts.Keep) (hm : m.Uses parts)
    (hids : DistinctIds w) (context : Context) (fuel : ℕ) (solutionList : List Ref)
    (hQ : ∀ s, Q s s) (hid : ∀ s t, Q s t → t.id = s.id)
    (hany : m.CalculatesGiven → CalculatesAny (Preserves Q w) context) :
    Ends (MetaHeuristic.processMetaHeuristic fuel solutionList context) (m, w) fun result s =>
      Preserves Q w s.2 ∧
        Gives (fun r => Fresh w s.2 r ∨ m.mayReturn solutionList r) result := by
  refine (MetaHeuristic.keeps_process m hm hparts (preserves_keeps Q w _ context) hany
    (fun _ w' r e _ hw => preserves_adaptive hw r e) (preserves_start hids hQ) fuel
    solutionList).mono ?_
  rintro result ⟨m', w'⟩ ⟨hgives, hend⟩
  exact ⟨hend, fun rs hrs r hr => (hgives rs hrs r hr).imp_left (hend.fresh hid)⟩

/-- A run of any of the six keeps ids distinct, and of each earlier solution its id, its
problem and its vector, and all of it when nothing was pending. -/
theorem process_isolates {p : NumericProblem K} (hm : m.Uses p.parts) (hids : DistinctIds w)
    (context : Context) (fuel : ℕ) (solutionList : List Ref) {result : Option (List Ref)}
    {s : MetaHeuristic K × World K}
    (hrun : MetaHeuristic.processMetaHeuristic fuel solutionList context (m, w) =
      .ok result s) :
    DistinctIds s.2 ∧
      (∀ (r : Ref) (t : Solution K), w.solutions[r]? = some t →
        ∃ t' : Solution K, s.2.solutions[r]? = some t' ∧ CalculatedAtMost t t') ∧
      ∀ rs, result = some rs → ∀ r ∈ rs, Fresh w s.2 r ∨ m.mayReturn solutionList r := by
  obtain ⟨hend, hgives⟩ := ends_process m p.parts_keep hm hids context fuel solutionList
    (fun t => Or.inl rfl) id_calculatedAtMost (fun _ => preserves_calculates w context) result s
    hrun
  exact ⟨hend.ids, hend.kept, hgives⟩

/-- Genetic algorithm, GRASP, iterated local search and simulated annealing leave every
earlier solution as it is, pending or not, and return only what they built. -/
theorem process_leaves_given {p : AnyProblem K} (hm : m.Uses p.parts) (hids : DistinctIds w)
    (context : Context) (fuel : ℕ) (solutionList : List Ref) (hgiven : ¬m.CalculatesGiven)
    {result : Option (List Ref)} {s : MetaHeuristic K × World K}
    (hrun : MetaHeuristic.processMetaHeuristic fuel solutionList context (m, w) =
      .ok result s) :
    DistinctIds s.2 ∧ w.solutions <+: s.2.solutions ∧
      ∀ rs, result = some rs → ∀ r ∈ rs, Fresh w s.2 r := by
  obtain ⟨hend, hgives⟩ := ends_process m p.parts_keep hm hids context fuel solutionList
    (Q := fun t t' => t' = t) (fun _ => rfl) (fun t t' ht => ht ▸ rfl)
    (fun hgiven' => absurd hgiven' hgiven) result s hrun
  refine ⟨hend.ids, ?_, fun rs hrs r hr => ?_⟩
  · rw [List.prefix_iff_eq_take]
    refine List.ext_getElem? fun r => ?_
    rw [List.getElem?_take]
    split
    next hr =>
      obtain ⟨t, ht, rfl⟩ := hend.kept r _ (List.getElem?_eq_getElem hr)
      rw [List.getElem?_eq_getElem hr, ht]
    next hr => exact List.getElem?_eq_none (not_lt.1 hr)
  · refine (hgives rs hrs r hr).resolve_right fun hmay => ?_
    cases m with
    | de => exact hgiven trivial
    | pso => exact hgiven trivial
    | _ => exact hmay

end Runs

section Example

open DifferentialEvolution (bowl exampleEvolution exampleWorld returns of_returns)
open AnnealingBest (slope descent descentWorld)

theorem distinctIds_exampleWorld : DistinctIds exampleWorld where
  below r i hi := by
    match r with
    | 0 | 1 | 2 | 3 => cases hi; decide
    | r + 4 => cases hi
  injective r r' i hi hi' := by
    match r, r' with
    | 0, 0 | 1, 1 | 2, 2 | 3, 3 => rfl
    | 0, 1 | 0, 2 | 0, 3 | 1, 0 | 1, 2 | 1, 3 | 2, 0 | 2, 1 | 2, 3 | 3, 0 | 3, 1 | 3, 2 =>
        cases hi
        cases hi'
    | r + 4, _ => cases hi
    | _, r + 4 => cases hi'

theorem process_isolates_example : ∃ r s,
    MetaHeuristic.processMetaHeuristic 2 [0, 1, 2, 3] (some .benchmark)
      (.de exampleEvolution ⟨[], none⟩, exampleWorld) = .ok (some [r]) s ∧
    DistinctIds s.2 ∧ ∃ t, s.2.solutions[3]? = some t ∧ t.id = 3 := by
  obtain ⟨r, s, hrun, -⟩ := of_returns (c := fun _ _ => true)
    (show returns _ (MetaHeuristic.processMetaHeuristic 2 [0, 1, 2, 3] (some .benchmark)
      (.de exampleEvolution ⟨[], none⟩, exampleWorld)) = true by decide +kernel)
  obtain ⟨hids, hkept, -⟩ := process_isolates (p := .benchmark bowl)
    (.de exampleEvolution ⟨[], none⟩) rfl distinctIds_exampleWorld _ _ _ hrun
  obtain ⟨t, ht, hcalculated⟩ := hkept 3 _ rfl
  refine ⟨r, s, hrun, hids, t, ht, ?_⟩
  rcases hcalculated with rfl | ⟨-, hid, -⟩
  · rfl
  · exact hid

theorem distinctIds_descentWorld : DistinctIds descentWorld where
  below r i hi := by
    match r with
    | 0 => cases hi; decide
    | r + 1 => cases hi
  injective r r' i hi hi' := by
    match r, r' with
    | 0, 0 => rfl
    | r + 1, _ => cases hi
    | _, r + 1 => cases hi'

theorem process_leaves_given_example : ∃ r s,
    MetaHeuristic.processMetaHeuristic 3 [0] none (.sa descent ⟨0, none⟩, descentWorld) =
      .ok (some [r]) s ∧
    descentWorld.solutions <+: s.2.solutions ∧ Fresh descentWorld s.2 r := by
  obtain ⟨r, s, hrun, -⟩ := of_returns (c := fun _ _ => true)
    (show returns _ (MetaHeuristic.processMetaHeuristic 3 [0] none
      (.sa descent ⟨0, none⟩, descentWorld)) = true by decide +kernel)
  obtain ⟨-, hkept, hfresh⟩ := process_leaves_given (p := .numeric (.function slope))
    (.sa descent ⟨0, none⟩)
    ⟨rfl, some .realRandom, rfl⟩ distinctIds_descentWorld _ _ _ id hrun
  exact ⟨r, s, hrun, hkept, hfresh _ rfl r (List.mem_singleton_self r)⟩

end Example

end DOptimas.Proofs.Isolation
