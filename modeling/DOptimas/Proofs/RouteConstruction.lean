import DOptimas.Heuristics.Returning
import DOptimas.Heuristics.Routes
import DOptimas.Proofs.RouteCosts
/-!
# Greedy construction of routes

The construction phase takes the candidates one by one, never a depot after a
depot.  What is left when it stops are depots, so that every client is placed
once, and the least value is always among the restricted candidates.
-/

namespace DOptimas.Proofs.RouteConstruction

open DOptimas.Support DOptimas.Heuristics
open DOptimas.Core (SolutionAnalyser)
open DOptimas.Heuristics.VehicleRoutingTimeWindowProblem (element depot endsAtDepot getCity
  vrtwCandidatesList)

/-! ## Restricted candidates -/

section Restricted

variable {K : Type} [RealArith K]

def restricted (a : SolutionAnalyser) (alpha : K) (values : List (Element K × K)) :
    List (Element K) :=
  match GRASP.maxValue a (values.map Prod.snd), GRASP.minValue a (values.map Prod.snd) with
  | some gtMax, some gtMin =>
      (values.filter fun entry => entry.2 ≤ gtMin + alpha * (gtMax - gtMin)).map Prod.fst
  | _, _ => []

theorem restricted_eq {a : SolutionAnalyser} {alpha : K} {values : List (Element K × K)}
    (h : restricted a alpha values ≠ []) : ∃ gtMax gtMin,
      GRASP.maxValue a (values.map Prod.snd) = some gtMax ∧
      GRASP.minValue a (values.map Prod.snd) = some gtMin ∧
      restricted a alpha values =
        (values.filter fun entry => entry.2 ≤ gtMin + alpha * (gtMax - gtMin)).map Prod.fst := by
  unfold restricted at h ⊢
  cases hmax : GRASP.maxValue a (values.map Prod.snd) with
  | none => simp [hmax] at h
  | some gtMax =>
      cases hmin : GRASP.minValue a (values.map Prod.snd) with
      | none => simp [hmax, hmin] at h
      | some gtMin => exact ⟨gtMax, gtMin, rfl, rfl, rfl⟩

theorem le_foldl_max (a : SolutionAnalyser) (vs : List K) (v : K) :
    v ≤ vs.foldl (fun x y => if 0 ≤ a.compareFunctionValue x y then x else y) v := by
  induction vs generalizing v with
  | nil => exact le_rfl
  | cons u us ih =>
      rw [List.foldl_cons]
      refine le_trans ?_ (ih _)
      split
      next => exact le_rfl
      next hless => exact a.le_of_compareFunctionValue_neg (not_le.1 hless)

theorem foldl_min_le (a : SolutionAnalyser) (vs : List K) (v : K) :
    vs.foldl (fun x y => if a.compareFunctionValue x y ≤ 0 then x else y) v ∈ v :: vs ∧
      vs.foldl (fun x y => if a.compareFunctionValue x y ≤ 0 then x else y) v ≤ v := by
  induction vs generalizing v with
  | nil => exact ⟨List.mem_cons_self, le_rfl⟩
  | cons u us ih =>
      rw [List.foldl_cons]
      split
      next =>
        obtain ⟨hmem, hle⟩ := ih v
        refine ⟨?_, hle⟩
        rcases List.mem_cons.1 hmem with heq | hmem
        · exact List.mem_cons.2 (Or.inl heq)
        · exact List.mem_cons_of_mem v (List.mem_cons_of_mem u hmem)
      next hgreater =>
        obtain ⟨hmem, hle⟩ := ih u
        exact ⟨List.mem_cons_of_mem v hmem,
          hle.trans (a.le_of_compareFunctionValue_pos (not_le.1 hgreater))⟩

theorem restricted_ne_nil (a : SolutionAnalyser) {alpha : K} (halpha : 0 ≤ alpha)
    {values : List (Element K × K)} (h : values ≠ []) : restricted a alpha values ≠ [] := by
  cases values with
  | nil => exact absurd rfl h
  | cons entry rest =>
      have hmax := le_foldl_max a (rest.map Prod.snd) entry.2
      obtain ⟨hmem, hmin⟩ := foldl_min_le a (rest.map Prod.snd) entry.2
      unfold restricted
      simp only [List.map_cons, GRASP.maxValue, GRASP.minValue]
      rw [← List.map_cons] at hmem
      obtain ⟨least, hleast, heq⟩ := List.mem_map.1 hmem
      have hin : least ∈ (entry :: rest).filter fun e => e.2 ≤
          ((rest.map Prod.snd).foldl
              (fun x y => if a.compareFunctionValue x y ≤ 0 then x else y) entry.2) +
            alpha * (((rest.map Prod.snd).foldl
                (fun x y => if 0 ≤ a.compareFunctionValue x y then x else y) entry.2) -
              ((rest.map Prod.snd).foldl
                (fun x y => if a.compareFunctionValue x y ≤ 0 then x else y) entry.2)) := by
        refine List.mem_filter.2 ⟨hleast, decide_eq_true ?_⟩
        rw [heq]
        exact le_add_of_nonneg_right (mul_nonneg halpha (sub_nonneg.2 (hmin.trans hmax)))
      exact List.ne_nil_of_mem (List.mem_map.2 ⟨least, hin, rfl⟩)

end Restricted

/-! ## One turn -/

section Turn

variable {K : Type} [RealArith K] {p : VehicleRoutingTimeWindowProblem K} {infinity alpha : K}
  {this : GRASP K} {solution : Ref} {w w' : World K}

def city {n : ℕ} (i : Fin (n + 1)) : Element K := .vehicleRoutingTimeWindow i

omit [RealArith K] in
theorem city_injective {n : ℕ} : Function.Injective (city (K := K) (n := n)) := by
  intro i j h
  have hcast : ((i : ℕ) : ℤ) = (j : ℕ) := by
    unfold city at h
    injection h
  exact Fin.ext (by omega)

def Allowed {n : ℕ} (placed : List (Fin (n + 1))) (i : Fin (n + 1)) : Prop :=
  (home :: placed).getLast (List.cons_ne_nil home placed) ≠ home ∨ i ≠ home

def Bears (p : VehicleRoutingTimeWindowProblem K) (infinity : K) (solution : Ref)
    (placed : List (Fin (p.clients + 1))) (w : World K) : Prop :=
  ∃ s, w.solutions[solution]? = some s ∧ s.problem = p.toProblem infinity ∧
    s.solutionsVector = placed.map element

theorem Bears.of_eq {placed : List (Fin (p.clients + 1))} (h : Bears p infinity solution placed w)
    (hw : w'.solutions = w.solutions) : Bears p infinity solution placed w' := by
  obtain ⟨s, hs, hshape⟩ := h
  exact ⟨s, hw.symm ▸ hs, hshape⟩

omit [RealArith K] in
theorem endsAtDepot_map {n : ℕ} (placed : List (Fin (n + 1))) :
    endsAtDepot (K := K) (placed.map element) =
      .ok (decide ((0 :: placed).getLast (List.cons_ne_nil 0 placed) = 0)) := by
  rcases List.eq_nil_or_concat placed with rfl | ⟨is, i, rfl⟩
  · rfl
  · rw [List.concat_eq_append, VehicleRoutingTimeWindowProblem.endsAtDepot_append]
    simp

theorem stretches_map (t : ℤ × K) (i : Fin (p.clients + 1)) (js : List (Fin (p.clients + 1))) :
    ∃ t', p.stretches t ((i :: js).map element) = .ok t' := by
  induction js generalizing t i with
  | nil => exact ⟨t, rfl⟩
  | cons j js ih =>
      obtain ⟨t', ht'⟩ := ih (if ((i : ℕ) : ℤ) = 0 then t.1 + 1 else t.1, t.2 + p.distances i j) j
      refine ⟨t', ?_⟩
      rw [← ht']
      simp only [List.map_cons, element, VehicleRoutingTimeWindowProblem.stretches,
        VehicleRoutingTimeWindowProblem.index_coe, getCity, bind, Except.bind]

theorem adaptiveFunctionValue_map (placed : List (Fin (p.clients + 1)))
    (i : Fin (p.clients + 1)) :
    ∃ v, p.adaptiveFunctionValue (placed.map element) (city i) = .ok v ∧
      (v ≠ none ↔ Allowed placed i) := by
  obtain ⟨t, ht⟩ := stretches_map (p := p) (0, 0) 0 (placed ++ [i])
  have hcities : some depot :: placed.map element ++ [some (city (K := K) i)] =
      (0 :: (placed ++ [i])).map element := by
    rw [List.map_cons, List.map_append]
    rfl
  have hcity : getCity (city (K := K) i) = .ok (i : ℕ) := rfl
  unfold VehicleRoutingTimeWindowProblem.adaptiveFunctionValue Allowed
  rw [endsAtDepot_map, hcities, ht, hcity]
  by_cases hlast : (0 :: placed).getLast (List.cons_ne_nil 0 placed) = 0
  · by_cases hi : i = 0
    · exact ⟨none, by simp [hlast, hi, bind, Except.bind]; rfl, by simp [hlast, hi]⟩
    · exact ⟨_, by simp [hlast, hi, bind, Except.bind]; rfl, by simp [hi]⟩
  · exact ⟨_, by simp [hlast, bind, Except.bind]; rfl, by simp [hlast]⟩

theorem returns_adaptiveFunctionValue {placed : List (Fin (p.clients + 1))}
    (h : Bears p infinity solution placed w) (i : Fin (p.clients + 1)) :
    Returns (adaptiveFunctionValue solution (city i)) w fun v w' =>
      p.adaptiveFunctionValue (placed.map element) (city i) = .ok v ∧
        w'.solutions = w.solutions := by
  obtain ⟨s, hs, hproblem, hvector⟩ := h
  obtain ⟨v, hv, -⟩ := adaptiveFunctionValue_map placed i
  unfold adaptiveFunctionValue
  apply (returns_deref hs).bind
  rintro _ v ⟨rfl, hv₀⟩
  rw [hv₀]
  refine Returns.bind (Q := fun _ w₀ => w₀.solutions = w.solutions) (.reads rfl) ?_
  intro v' w₀ hw₀
  unfold answered
  refine Returns.bind (Q := fun _ v => v.solutions = w.solutions) (.modifies hw₀) ?_
  intro _ w₁ hw₁
  rw [hproblem, hvector]
  show Returns (orThrow (p.adaptiveFunctionValue (placed.map element) (city i))) w₁ _
  rw [hv]
  exact .ret ⟨rfl, hw₁⟩

theorem returns_adaptiveFunctionValues {placed : List (Fin (p.clients + 1))}
    (h : Bears p infinity solution placed w) (cs : List (Fin (p.clients + 1))) :
    Returns (GRASP.adaptiveFunctionValues solution (cs.map city)) w fun values w' =>
      w'.solutions = w.solutions ∧
      (∀ entry ∈ values, ∃ i ∈ cs, entry.1 = city i ∧ Allowed placed i) ∧
      ((∃ i ∈ cs, Allowed placed i) → values ≠ []) := by
  unfold GRASP.adaptiveFunctionValues
  refine Returns.bind (Returns.foldlM (cs.map city) (I := fun before values w' =>
      w'.solutions = w.solutions ∧
      (∀ entry ∈ values, ∃ i ∈ cs, entry.1 = city i ∧ Allowed placed i) ∧
      ((∃ i ∈ cs, city i ∈ before ∧ Allowed placed i) → values ≠ [])) ?_ ?_) ?_
  · exact ⟨rfl, by simp, by simp⟩
  · rintro before e he values w₁ ⟨hw₁, hentries, hsome⟩
    obtain ⟨i, hi, rfl⟩ := List.mem_map.1 he
    obtain ⟨v, hv, hallowed⟩ := adaptiveFunctionValue_map (K := K) placed i
    apply (returns_adaptiveFunctionValue (h.of_eq hw₁) i).bind
    rintro v' w₂ ⟨hv', hw₂⟩
    obtain rfl : v = v' := Except.ok.inj (hv.symm.trans hv')
    cases v with
    | none =>
        refine .ret ⟨hw₂.trans hw₁, hentries, ?_⟩
        rintro ⟨j, hj, hmem, hjallowed⟩
        rcases List.mem_append.1 hmem with hmem | hmem
        · exact hsome ⟨j, hj, hmem, hjallowed⟩
        · obtain rfl := city_injective (List.mem_singleton.1 hmem)
          exact absurd rfl (hallowed.2 hjallowed)
    | some x =>
        apply (returns_adaptiveFunctionValue (h.of_eq (hw₂.trans hw₁)) i).bind
        rintro v' w₃ ⟨hv', hw₃⟩
        obtain rfl : some x = v' := Except.ok.inj (hv.symm.trans hv')
        apply (returns_nonNull rfl).bind
        rintro _ _ ⟨rfl, rfl⟩
        have hw := hw₃.trans (hw₂.trans hw₁)
        split
        next hany =>
          refine .ret ⟨hw, hentries, fun _ hnil => ?_⟩
          rw [hnil] at hany
          simp at hany
        next =>
          refine .ret ⟨hw, ?_, by simp⟩
          intro entry hentry
          rcases List.mem_append.1 hentry with hentry | hentry
          · exact hentries entry hentry
          · rw [List.mem_singleton.1 hentry]
            exact ⟨i, hi, rfl, hallowed.1 (by simp)⟩
  · rintro values w₁ ⟨hw₁, hentries, hsome⟩
    apply (returns_pick le_rfl).mono
    rintro picked w₂ ⟨hlength, hmem, hw₂⟩
    refine ⟨hw₂.trans hw₁, fun entry hentry => hentries entry (hmem entry hentry), ?_⟩
    rintro ⟨i, hi, hallowed⟩ hnil
    have hne := hsome ⟨i, hi, List.mem_map.2 ⟨i, hi, rfl⟩, hallowed⟩
    rw [hnil, List.length_nil] at hlength
    exact hne (List.eq_nil_of_length_eq_zero hlength.symm)

structure Stage (p : VehicleRoutingTimeWindowProblem K) (infinity : K)
    (initial : List (Fin (p.clients + 1))) (solution : Ref) (candidates : List (Element K))
    (w : World K) (cs idle placed : List (Fin (p.clients + 1))) : Prop where
  shown : candidates = cs.map city
  depots : ∀ i ∈ idle, i = 0
  perm : (cs ++ idle ++ placed).Perm initial
  chain : (0 :: placed).IsChain fun i j => i ≠ 0 ∨ j ≠ 0
  bears : Bears p infinity solution placed w

structure Constructs (this : GRASP K) (p : VehicleRoutingTimeWindowProblem K) (infinity alpha : K) :
    Prop where
  problem : this.problem = p.toProblem infinity
  analyser : this.solutionAnalyser = .vehicleRoutingTimeWindow
  candidatesList : this.candidatesList = some (vrtwCandidatesList p)
  greediness : this.alpha = some alpha
  nonneg : 0 ≤ alpha

section Stages

variable {initial cs idle placed : List (Fin (p.clients + 1))} {candidates : List (Element K)}

/-- Without an allowed candidate all that is left are depots. -/
theorem Stage.stops (h : Stage p infinity initial solution candidates w cs idle placed)
    (hnone : ∀ i ∈ cs, ¬Allowed placed i) (hw : w'.solutions = w.solutions) :
    Stage p infinity initial solution [] w' [] (cs ++ idle) placed := by
  refine ⟨rfl, ?_, by simpa using h.perm, h.chain, h.bears.of_eq hw⟩
  intro i hi
  rcases List.mem_append.1 hi with hi | hi
  · by_contra hne
    exact hnone i hi (Or.inr hne)
  · exact h.depots i hi

theorem Stage.length_lt (h : Stage p infinity initial solution candidates w cs idle placed)
    {i : Fin (p.clients + 1)} (hi : i ∈ cs) : placed.length < initial.length := by
  have hlength := h.perm.length_eq
  have hpos := List.length_pos_of_mem hi
  simp only [List.length_append] at hlength
  omega

theorem Stage.places (h : Stage p infinity initial solution candidates w cs idle placed)
    {i : Fin (p.clients + 1)} (hi : i ∈ cs) (hallowed : Allowed placed i)
    (hbears : Bears p infinity solution (placed ++ [i]) w') :
    Stage p infinity initial solution ((cs.map city).erase (city i)) w' (cs.erase i) idle
      (placed ++ [i]) := by
  refine ⟨(List.map_erase city_injective cs).symm, h.depots, ?_, ?_, hbears⟩
  · have hcount := (List.perm_cons_erase hi).symm
    refine List.Perm.trans ?_ h.perm
    calc cs.erase i ++ idle ++ (placed ++ [i])
        _ = (cs.erase i ++ idle ++ placed) ++ [i] := by simp
        _ |>.Perm (i :: (cs.erase i ++ idle ++ placed)) := List.perm_append_singleton i _
        _ = (i :: cs.erase i) ++ idle ++ placed := by simp
        _ |>.Perm (cs ++ idle ++ placed) := (hcount.append_right idle).append_right placed
  · rw [← List.cons_append]
    refine h.chain.append (List.isChain_singleton i) ?_
    intro x hx y hy
    rw [List.getLast?_eq_some_getLast (List.cons_ne_nil 0 placed)] at hx
    obtain rfl := Option.some.inj hx
    obtain rfl := Option.some.inj hy
    exact hallowed

theorem returns_construct (h : Constructs this p infinity alpha)
    (hinitial : initial.length < p.dimension)
    (hstage : Stage p infinity initial solution candidates w cs idle placed)
    (hne : candidates ≠ []) :
    Returns (GRASP.construct this solution candidates) w fun candidates' w' =>
      (∃ cs idle placed, Stage p infinity initial solution candidates' w' cs idle placed) ∧
        candidates'.length < candidates.length := by
  have hcandidates := hstage.shown
  subst hcandidates
  unfold GRASP.construct
  apply (returns_adaptiveFunctionValues hstage.bears cs).bind
  rintro values w₁ ⟨hw₁, hentries, hsome⟩
  by_cases hnil : values = []
  · have hnone : ∀ i ∈ cs, ¬Allowed placed i := fun i hi hallowed => hsome ⟨i, hi, hallowed⟩ hnil
    subst hnil
    exact .ret ⟨⟨_, _, _, hstage.stops hnone hw₁⟩, List.length_pos_of_ne_nil hne⟩
  · have hrestricted := restricted_ne_nil this.solutionAnalyser h.nonneg hnil
    obtain ⟨gtMax, gtMin, hmax, hmin, heq⟩ := restricted_eq hrestricted
    rw [heq] at hrestricted
    rw [hmax, hmin]
    apply (returns_nonNull h.greediness).bind
    rintro _ v ⟨rfl, hv⟩
    rw [hv]
    dsimp only
    rw [if_neg (by simpa using hrestricted)]
    have hpos := List.length_pos_of_ne_nil hrestricted
    apply (returns_nextInt (by omega)).bind
    rintro index w₂ ⟨hlower, hupper, hw₂⟩
    apply (returns_nth (by omega)).bind
    rintro e v ⟨he, hv⟩
    rw [hv]
    obtain ⟨entry, hentry, rfl⟩ := List.mem_map.1 he
    obtain ⟨i, hi, hcity, hallowed⟩ := hentries entry (List.mem_of_mem_filter hentry)
    rw [hcity]
    obtain ⟨s, hs, hproblem, hvector⟩ := hstage.bears.of_eq (hw₂.trans hw₁)
    have hroom : s.solutionsVector.length < s.problem.dimension := by
      have hlt := hstage.length_lt hi
      rw [hvector, hproblem, List.length_map]
      exact hlt.trans hinitial
    apply (returns_addElement hs hroom (city i)).bind
    intro _ w₃ hw₃
    have hobject : w₃.solutions[solution]? = some { s with
        solutionsVector := s.solutionsVector ++ [some (city i)], changed := true } := by
      rw [hw₃, List.getElem?_set_self (List.getElem?_eq_some_iff.1 hs).1]
    refine .ret ⟨⟨_, _, _, hstage.places hi hallowed ⟨_, hobject, hproblem, ?_⟩⟩, ?_⟩
    · rw [hvector, List.map_append]
      rfl
    · rw [List.length_erase_of_mem (List.mem_map.2 ⟨i, hi, rfl⟩)]
      have hlength := List.length_pos_of_ne_nil hne
      omega

end Stages

end Turn

/-! ## The whole construction -/

section Construction

variable {K : Type} [RealArith K] {p : VehicleRoutingTimeWindowProblem K} {infinity alpha : K}
  {this : GRASP K} {solution : Ref} {w w' : World K}

/-- Every client, and as many depots as there are further trucks. -/
def dealt (n trucks : ℕ) : List (Fin (n + 1)) :=
  (List.finRange n).map Fin.succ ++ List.replicate trucks home

theorem returns_getCandidates (hclients : 1 ≤ p.clients) :
    Returns (vrtwCandidatesList p).getCandidates w fun candidates w' =>
      ∃ trucks < p.clients, candidates = (dealt p.clients trucks).map city ∧
        w'.solutions = w.solutions := by
  unfold vrtwCandidatesList
  apply (returns_nextInt (by omega)).bind
  rintro trucks w₁ ⟨hlower, hupper, hw₁⟩
  refine .ret ⟨trucks.toNat, by omega, ?_, hw₁⟩
  unfold dealt
  rw [List.map_append, List.map_replicate, List.map_map]
  refine congrArg₂ _ ?_ rfl
  apply List.ext_getElem
  · simp
  · intro i hi hi'
    simp [city]

def begins (this : GRASP K) : Program K (Ref × List (Element K)) := do
  let solution ← buildSolution this.problem
  let candidates ← (← nonNull this.candidatesList).getCandidates
  return (solution, candidates)

theorem construcao_eq (this : GRASP K) (fuel : ℕ) :
    GRASP.construcao this fuel = (do
      let (solution, candidates) ← begins this
      let _ ← repeatWhile .unfinished (fun candidates => pure !candidates.isEmpty)
        (GRASP.construct this solution) fuel candidates
      return solution) := by
  unfold GRASP.construcao begins
  simp only [bind_assoc, pure_bind]

theorem returns_begins (h : Constructs this p infinity alpha) (hclients : 1 ≤ p.clients) :
    Returns (begins this) w fun start w' => ∃ trucks < p.clients,
      start.2.length < 2 * p.clients ∧
      Stage p infinity (dealt p.clients trucks) start.1 start.2 w'
        (dealt p.clients trucks) [] [] := by
  unfold begins
  apply (returns_buildSolution this.problem).bind
  rintro solution w₁ ⟨rfl, id, hw₁⟩
  apply (returns_nonNull h.candidatesList).bind
  rintro _ v ⟨rfl, hv⟩
  rw [hv]
  apply (returns_getCandidates hclients).bind
  rintro candidates w₂ ⟨trucks, htrucks, rfl, hw₂⟩
  refine .ret ⟨trucks, htrucks, ?_, rfl, by simp, by simp, List.isChain_singleton 0, ?_⟩
  · simp [dealt]
    omega
  · refine ⟨Solution.built this.problem id, ?_, h.problem, ?_⟩
    · rw [hw₂, hw₁, List.getElem?_append_right le_rfl, Nat.sub_self]
      rfl
    · rw [h.problem]
      rfl

/-- Every client once, and no idle stop at a depot. -/
structure WellFormed {n : ℕ} (placed : List (Fin (n + 1))) : Prop where
  once : ∀ c : Fin n, placed.count c.succ = 1
  starts : placed.head? ≠ some 0
  apart : ∀ i : ℕ, ¬(placed[i]? = some 0 ∧ placed[i + 1]? = some 0)
  short : placed.length < 2 * n

theorem count_dealt {n trucks : ℕ} (c : Fin n) : (dealt n trucks).count c.succ = 1 := by
  unfold dealt
  rw [List.count_append, List.count_map_of_injective _ _ (Fin.succ_injective n)]
  have hcount : (List.finRange n).count c = 1 :=
    List.count_eq_one_of_mem (List.nodup_finRange n) (List.mem_finRange c)
  rw [hcount, List.count_replicate]
  simp [(Fin.succ_ne_zero c).symm]

theorem Stage.wellFormed {trucks : ℕ} {idle placed : List (Fin (p.clients + 1))}
    (h : Stage p infinity (dealt p.clients trucks) solution [] w [] idle placed)
    (htrucks : trucks < p.clients) : WellFormed placed := by
  have hchain := List.isChain_iff_getElem.1 h.chain
  refine ⟨fun c => ?_, ?_, ?_, ?_⟩
  · have hcount := h.perm.count_eq c.succ
    have hidle : idle.count c.succ = 0 :=
      List.count_eq_zero.2 fun hmem => Fin.succ_ne_zero c (h.depots _ hmem)
    rw [List.nil_append, List.count_append, hidle, zero_add, count_dealt] at hcount
    exact hcount
  · intro hhead
    obtain ⟨rest, rfl⟩ := List.head?_eq_some_iff.1 hhead
    have hfirst := hchain 0 (by simp)
    simp at hfirst
  · rintro i ⟨hi, hnext⟩
    obtain ⟨hlt, hi⟩ := List.getElem?_eq_some_iff.1 hi
    obtain ⟨hlt', hnext⟩ := List.getElem?_eq_some_iff.1 hnext
    have hpair := hchain (i + 1) (by simpa using hlt')
    simp [hi, hnext] at hpair
  · have hlength := h.perm.length_eq
    simp [dealt] at hlength
    omega

theorem visits_stage (h : Constructs this p infinity alpha)
    {initial cs idle placed : List (Fin (p.clients + 1))} (hinitial : initial.length < p.dimension)
    {candidates₀ candidates : List (Element K)}
    (hstage : Stage p infinity initial solution candidates₀ w cs idle placed)
    (hvisits : Visits (fun candidates => pure !candidates.isEmpty)
      (GRASP.construct this solution) candidates₀ w candidates w') :
    ∃ cs idle placed, Stage p infinity initial solution candidates w' cs idle placed := by
  refine hvisits.keeps (I := fun candidates w =>
    ∃ cs idle placed, Stage p infinity initial solution candidates w cs idle placed)
    ⟨cs, idle, placed, hstage⟩ ?_
  rintro b b' s s' s'' ⟨cs, idle, placed, hstage⟩ hgoes hdone
  injection hgoes with hempty hs
  subst hs
  have hne : b ≠ [] := by
    rintro rfl
    simp at hempty
  exact ((returns_construct h hinitial hstage hne).ends b' s'' hdone).1

theorem Stage.restricted_ne_nil (h : Constructs this p infinity alpha)
    {trucks : ℕ} {cs idle placed : List (Fin (p.clients + 1))} {candidates : List (Element K)}
    (hstage : Stage p infinity (dealt p.clients trucks) solution candidates w cs idle placed)
    {c : Fin p.clients} (hc : c.succ ∉ placed) {values : List (Element K × K)}
    (hvalues : GRASP.adaptiveFunctionValues solution candidates w = .ok values w') :
    restricted this.solutionAnalyser alpha values ≠ [] := by
  have hcount := hstage.perm.count_eq c.succ
  have hidle : idle.count c.succ = 0 :=
    List.count_eq_zero.2 fun hmem => Fin.succ_ne_zero c (hstage.depots _ hmem)
  rw [List.count_append, List.count_append, hidle, List.count_eq_zero.2 hc, count_dealt] at hcount
  have hmem : c.succ ∈ cs := List.count_pos_iff.1 (by omega)
  rw [hstage.shown] at hvalues
  have hends := (returns_adaptiveFunctionValues hstage.bears cs).ends values w' hvalues
  exact RouteConstruction.restricted_ne_nil this.solutionAnalyser h.nonneg
    (hends.2.2 ⟨c.succ, hmem, Or.inr (Fin.succ_ne_zero c)⟩)

theorem Bears.unique {placed placed' : List (Fin (p.clients + 1))}
    (h : Bears p infinity solution placed w) (h' : Bears p infinity solution placed' w) :
    placed = placed' := by
  obtain ⟨s, hs, -, hvector⟩ := h
  obtain ⟨s', hs', -, hvector'⟩ := h'
  obtain rfl : s = s' := Option.some.inj (hs.symm.trans hs')
  have hinjective : Function.Injective (element (K := K) (n := p.clients)) := by
    intro i j hij
    exact city_injective (Option.some.inj hij)
  exact hinjective.list_map (hvector.symm.trans hvector')

/-- The construction ends with every client placed once, and as long as a client is not
placed there are restricted candidates. -/
theorem construcao_wellFormed (h : Constructs this p infinity alpha) (hclients : 1 ≤ p.clients)
    (w : World K) :
    (∀ fuel, 2 * p.clients ≤ fuel → ∃ solution w', GRASP.construcao this fuel w = .ok solution w' ∧
      ∃ placed, Bears p infinity solution placed w' ∧ WellFormed placed) ∧
    ∀ solution candidates₀ w₀ candidates w',
      begins this w = .ok (solution, candidates₀) w₀ →
      Visits (fun candidates => pure !candidates.isEmpty) (GRASP.construct this solution)
        candidates₀ w₀ candidates w' →
      ∀ placed, Bears p infinity solution placed w' → (∃ c : Fin p.clients, c.succ ∉ placed) →
      ∀ values w'', GRASP.adaptiveFunctionValues solution candidates w' = .ok values w'' →
        restricted this.solutionAnalyser alpha values ≠ [] := by
  have hfits : ∀ trucks < p.clients, (dealt p.clients trucks).length < p.dimension := by
    intro trucks htrucks
    simp only [dealt, List.length_append, List.length_map, List.length_finRange,
      List.length_replicate, VehicleRoutingTimeWindowProblem.dimension]
    omega
  constructor
  · intro fuel hfuel
    suffices hreturns : Returns (GRASP.construcao this fuel) w fun solution w' =>
        ∃ placed, Bears p infinity solution placed w' ∧ WellFormed placed from hreturns
    rw [construcao_eq]
    apply (returns_begins h hclients).bind
    rintro ⟨solution, candidates⟩ w₁ ⟨trucks, htrucks, hlength, hstage⟩
    refine Returns.bind (Returns.repeatWhile (m := List.length) (I := fun candidates w =>
        ∃ cs idle placed,
          Stage p infinity (dealt p.clients trucks) solution candidates w cs idle placed)
      (S := fun _ w => ∃ placed, Bears p infinity solution placed w ∧ WellFormed placed)
      ?_ ⟨_, _, _, hstage⟩ (Nat.lt_of_lt_of_le hlength hfuel)) ?_
    · rintro candidates w ⟨cs, idle, placed, hstage⟩
      refine .ret ?_
      split
      next hgoes =>
        exact returns_construct h (hfits trucks htrucks) hstage (by simpa using hgoes)
      next hstops =>
        have hempty : candidates = [] := by simpa using hstops
        subst hempty
        obtain rfl : cs = [] := List.map_eq_nil_iff.1 hstage.shown.symm
        exact ⟨placed, hstage.bears, hstage.wellFormed htrucks⟩
    · intro _ w' hformed
      exact .ret hformed
  · rintro solution candidates₀ w₀ candidates w' hbegins hvisits placed hbears ⟨c, hc⟩ values w''
      hvalues
    obtain ⟨trucks, htrucks, -, hstage⟩ :=
      (returns_begins h hclients).ends (solution, candidates₀) w₀ hbegins
    obtain ⟨cs, idle, placed', hstage'⟩ := visits_stage h (hfits trucks htrucks) hstage hvisits
    rw [hbears.unique hstage'.bears] at hc
    exact hstage'.restricted_ne_nil h hc hvalues

end Construction

section Example

open RouteCosts (twoClients)

def exampleConstruction : GRASP ℚ :=
  { problem := twoClients.toProblem 1000
    metaHeuristicParameters :=
      { probC := none, scaleFactor := none, c1 := none, c2 := none
        maxIterations := some 0, maxIterationsWI := none
        maxNumberOfIterationsTemperature := none, time := none, alpha := some (1 / 2)
        stopConditionName := .named .maxIterations
        populationSize := none, parentsSize := none, crossoverTax := none, mutationTax := none
        crossProbability := none, differentialFactor := none
        sum := .missing, velocity := .missing, position := .missing
        initialVelocity := .missing, candidatesListName := .missing, localSearchName := .missing
        localSearchNeighbor := .missing, localSearchIterations := none, disturbLevel := none
        initialDisturbLevel := none, disturbThreshold := none, temperatureName := .missing }
    stopCondition := some .maxIterations
    solutionAnalyser := .vehicleRoutingTimeWindow
    alpha := some (1 / 2)
    candidatesList := some (vrtwCandidatesList twoClients)
    localSearch := none }

def emptyWorld : World ℚ :=
  { solutions := [], nextId := 0, nextIdentity := 0, evaluations := 0, invocations := 0
    bestSolution := none, uniforms := fun _ => .zero, choices := fun n => n, clock := fun _ => 0 }

theorem exampleConstruction_constructs :
    Constructs exampleConstruction twoClients 1000 (1 / 2) :=
  ⟨rfl, rfl, rfl, rfl, by norm_num⟩

theorem construcao_wellFormed_example :
    Constructs exampleConstruction twoClients 1000 (1 / 2) ∧
    ∃ solution w', GRASP.construcao exampleConstruction 4 emptyWorld = .ok solution w' ∧
      ∃ placed, Bears twoClients 1000 solution placed w' ∧ WellFormed placed :=
  ⟨exampleConstruction_constructs,
    (construcao_wellFormed exampleConstruction_constructs (by decide) emptyWorld).1 4 (by decide)⟩

end Example

end DOptimas.Proofs.RouteConstruction
