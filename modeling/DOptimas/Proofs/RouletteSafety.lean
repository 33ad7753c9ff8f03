import DOptimas.Actors.SimulationActor
import DOptimas.Support.Rational
import DOptimas.Support.Runs
import DOptimas.Util.RegionSelection
/-!
# The leader's roulette

When the roulette returns a registered region on all draws, as a condition on
the summaries and references that the leader holds.
-/

namespace DOptimas.Proofs.RouletteSafety

open DOptimas.Support DOptimas.Core DOptimas.Actors DOptimas.Util DOptimas.Util.RegionSelector

variable {K : Type} [RealArith K] [CommonsMath K] {n m : ℕ}

def selector (s : SimulationActor K n m) : RegionSelector K n m :=
  ⟨s.regionUsedIds, s.regions, s.regionsSummary⟩

/-- The region has no finite weight: no summary, or a rate of zero or NaN. -/
def Degenerate (summary : Option (SummaryStatistics K)) : Prop :=
  ∀ s, summary = some s → variationRate s.toStatisticalSummary = .fin 0 ∨
    variationRate s.toStatisticalSummary = .nan

/-- The region has no weight: its rate is infinite. -/
def Weightless (summary : Option (SummaryStatistics K)) : Prop :=
  ∃ s, summary = some s ∧ variationRate s.toStatisticalSummary = .posInf

/-- The draws are enough for the roulette: at least one, and where it draws
regions until one is registered, one that hits a registered region. -/
def Suffice (r : RegionSelector K n m) (draws : List (Draw K)) : Prop :=
  draws ≠ [] ∧ ((∃ id ∈ r.regionUsedIds, Degenerate (r.regionsSummary id)) →
    ∃ draw ∈ draws, ∃ id, r.regionUsedIds[position .fin draw r.regionUsedIds.length]? = some id ∧
      r.regions id ≠ none)

/-- On all draws that suffice the leader, which computes exactly, picks a used region
that is registered. -/
def ChoosesRegistered (s : SimulationActor K n m) : Prop :=
  ∀ draws, Suffice (selector s) draws → ∃ id ∈ s.regionUsedIds, s.regions id ≠ none ∧
    SimulationActor.selectRegion .fin draws s = .ret id s

/-- With one used region, or one without a finite weight, the roulette is safe.
Otherwise some region has weight, and the first region and every region with
weight are registered. -/
def Balanced (s : SimulationActor K n m) : Prop :=
  match s.regionUsedIds with
  | first :: _ :: _ =>
      (∃ id ∈ s.regionUsedIds, Degenerate (s.regionsSummary id)) ∨
      ((∃ id ∈ s.regionUsedIds, ¬Weightless (s.regionsSummary id)) ∧ s.regions first ≠ none ∧
        ∀ id ∈ s.regionUsedIds, ¬Weightless (s.regionsSummary id) → s.regions id ≠ none)
  | _ => True

/-! ## Weights and rates -/

omit [CommonsMath K] in
theorem variationRate_cases (s : StatisticalSummary K) :
    (∃ x, variationRate s = .fin x) ∨ variationRate s = .posInf ∨ variationRate s = .nan := by
  unfold variationRate
  cases s.standardDeviation.div s.mean <;> simp [JDouble.abs]

theorem weight_finite_iff (summary : Option (SummaryStatistics K)) :
    (∃ x, weight .fin summary = .fin x) ↔ ¬Degenerate summary := by
  cases summary with
  | none => simp [weight, Degenerate, JDouble.div]
  | some s =>
      simp only [weight, Degenerate, Option.some.injEq, forall_eq']
      rcases variationRate_cases s.toStatisticalSummary with ⟨x, hx⟩ | hx | hx
      · by_cases hzero : x = 0
        · simp [hx, hzero, JDouble.div]
        · simp [hx, hzero, JDouble.div]
      · simp [hx, JDouble.div]
      · simp [hx, JDouble.div]

theorem weight_zero_iff (summary : Option (SummaryStatistics K)) :
    weight .fin summary = .fin 0 ↔ Weightless summary := by
  cases summary with
  | none => simp [weight, Weightless, JDouble.div]
  | some s =>
      simp only [weight, Weightless, Option.some.injEq, exists_eq_left']
      rcases variationRate_cases s.toStatisticalSummary with ⟨x, hx⟩ | hx | hx
      · by_cases hzero : x = 0
        · simp [hx, hzero, JDouble.div]
        · simp [hx, hzero, JDouble.div]
      · simp [hx, JDouble.div]
      · simp [hx, JDouble.div]

omit [CommonsMath K] in
theorem foldl_add_fin {ws : List (JDouble K)} (h : ∀ w ∈ ws, ∃ x, w = .fin x) (a : K) :
    ∃ x, ws.foldl JDouble.add (.fin a) = .fin x := by
  induction ws generalizing a with
  | nil => exact ⟨a, rfl⟩
  | cons w ws ih =>
      obtain ⟨x, rfl⟩ := h w List.mem_cons_self
      exact ih (fun w' hw' => h w' (List.mem_cons_of_mem _ hw')) (a + x)

variable {r : RegionSelector K n m}

theorem total_exceptional_iff :
    ((total .fin r).isInfinite || (total .fin r).isNaN) = true ↔
      ∃ id ∈ r.regionUsedIds, Degenerate (r.regionsSummary id) := by
  constructor
  · intro hexceptional
    by_contra hnone
    have hfinite : ∀ w ∈ weights .fin r, ∃ x, w = .fin x := by
      intro w hw
      obtain ⟨id, hid, rfl⟩ := List.mem_map.1 hw
      exact (weight_finite_iff _).2 fun hdegenerate => hnone ⟨id, hid, hdegenerate⟩
    obtain ⟨x, hx⟩ := foldl_add_fin hfinite 0
    rw [show (total .fin r) = .fin x from (total_fin r).trans hx] at hexceptional
    simp [JDouble.isInfinite, JDouble.isNaN] at hexceptional
  · rintro ⟨id, hid, hdegenerate⟩
    by_contra hfinite
    obtain ⟨w, hw⟩ : ∃ w, (total .fin r) = .fin w := by
      cases htotal : (total .fin r) <;> simp_all [JDouble.isInfinite, JDouble.isNaN]
    obtain ⟨hweights, -⟩ := weights_of_total hw
    exact (weight_finite_iff _).1 ⟨_, (hweights id hid).1⟩ hdegenerate

theorem total_zero_iff (hfinite : ¬∃ id ∈ r.regionUsedIds, Degenerate (r.regionsSummary id)) :
    (total .fin r) = .fin 0 ↔ ∀ id ∈ r.regionUsedIds, Weightless (r.regionsSummary id) := by
  have hnumber : ¬((total .fin r).isInfinite || (total .fin r).isNaN) = true := fun h =>
    hfinite (total_exceptional_iff.1 h)
  obtain ⟨w, hw⟩ : ∃ w, (total .fin r) = .fin w := by
    cases htotal : (total .fin r) <;> simp_all [JDouble.isInfinite, JDouble.isNaN]
  obtain ⟨hweights, hsum⟩ := weights_of_total hw
  have hzero : w = 0 ↔ ∀ id ∈ r.regionUsedIds, r.value id = 0 := by
    have hnonneg : ∀ x ∈ r.regionUsedIds.map r.value, 0 ≤ x := by
      intro x hx
      obtain ⟨id, hid, rfl⟩ := List.mem_map.1 hx
      exact (hweights id hid).2
    constructor
    · intro hw id hid
      have hle := List.single_le_sum hnonneg _ (List.mem_map.2 ⟨id, hid, rfl⟩)
      rw [← hsum, hw] at hle
      exact le_antisymm hle (hweights id hid).2
    · intro hall
      rw [hsum]
      refine List.sum_eq_zero fun x hx => ?_
      obtain ⟨id, hid, rfl⟩ := List.mem_map.1 hx
      exact hall id hid
  rw [hw]
  constructor
  · intro hnull id hid
    rw [← weight_zero_iff, (hweights id hid).1, hzero.1 (JDouble.fin.inj hnull) id hid]
  · intro hall
    have hvalues : ∀ id ∈ r.regionUsedIds, r.value id = 0 := by
      intro id hid
      have hweight := (weight_zero_iff _).2 (hall id hid)
      rw [(hweights id hid).1] at hweight
      exact JDouble.fin.inj hweight
    rw [hzero.2 hvalues]

/-! ## Draws that suffice -/

theorem mem_of_selectRegion {draws : List (Draw K)} {id : Fin n}
    (h : selectRegion .fin r draws = .chosen id) : id ∈ r.regionUsedIds := by
  unfold selectRegion at h
  split at h
  next first hids =>
    obtain rfl : first = id := by simpa using h
    simp [hids]
  · simp at h
  · split at h
    · obtain ⟨draw, -, hid, -⟩ := exists_of_drawRegistered h
      exact List.mem_of_getElem? hid
    · split at h
      · simp at h
      · obtain ⟨i, hid, -⟩ := spin_eq_chosen_iff.1 h
        exact List.mem_of_getElem? hid

omit [CommonsMath K] in
theorem drawRegistered_ne_exhausted {draws : List (Draw K)}
    (h : ∃ draw ∈ draws, ∃ id,
      r.regionUsedIds[position .fin draw r.regionUsedIds.length]? = some id ∧
        r.regions id ≠ none) : drawRegistered .fin r draws ≠ .exhausted := by
  induction draws with
  | nil => simp at h
  | cons head draws ih =>
      unfold drawRegistered
      split
      · simp
      next id hid =>
        split
        · simp
        next hunregistered =>
          refine ih ?_
          obtain ⟨draw, hdraw, id', hid', hregistered⟩ := h
          rcases List.mem_cons.1 hdraw with rfl | hdraw
          · obtain rfl : id = id' := by simpa [hid] using hid'
            exact absurd (Option.isSome_iff_ne_none.2 hregistered) hunregistered
          · exact ⟨draw, hdraw, id', hid', hregistered⟩

theorem selectRegion_ne_exhausted {draws : List (Draw K)} (h : Suffice r draws) :
    selectRegion .fin r draws ≠ .exhausted := by
  unfold selectRegion
  split
  · simp
  · simp
  · split
    next hexceptional =>
      exact drawRegistered_ne_exhausted (h.2 (total_exceptional_iff.1 hexceptional))
    · cases draws with
      | nil => exact absurd rfl h.1
      | cons draw draws => exact spin_ne_exhausted _ _ _

theorem exists_suffice (h : ∃ id ∈ r.regionUsedIds, r.regions id ≠ none) :
    ∃ draws : List (Draw K), Suffice r draws := by
  obtain ⟨id, hid, hregistered⟩ := h
  obtain ⟨i, hi, rfl⟩ := List.getElem_of_mem hid
  obtain ⟨draw, hdraw⟩ := position_div (K := K) hi
  refine ⟨[draw], by simp, fun _ => ⟨draw, List.mem_cons_self, _, ?_, hregistered⟩⟩
  rw [hdraw, List.getElem?_eq_getElem hi]

theorem selectRegion_insufficient {draws : List (Draw K)}
    (hregistered : ∃ id ∈ r.regionUsedIds, r.regions id ≠ none) (h : ¬Suffice r draws) :
    selectRegion .fin r draws = .exhausted ∨
      ∃ id, selectRegion .fin r draws = .chosen id ∧ r.regions id ≠ none := by
  have hne : r.regionUsedIds ≠ [] := by
    obtain ⟨id, hid, -⟩ := hregistered
    exact List.ne_nil_of_mem hid
  match hids : r.regionUsedIds with
  | [] => exact absurd hids hne
  | [id] =>
      obtain ⟨id', hid', hreg⟩ := hregistered
      obtain rfl : id' = id := by simpa [hids] using hid'
      exact Or.inr ⟨id', selectRegion_singleton _ hids draws, hreg⟩
  | first :: second :: ids =>
      by_cases hexceptional : (total .fin r).isInfinite || (total .fin r).isNaN
      · rw [selectRegion_uniform hids hexceptional]
        exact drawRegistered_ends fun draw _ => position_lt draw (List.length_pos_iff.2 hne)
      · cases draws with
        | nil => exact Or.inl (selectRegion_no_draw hids hexceptional)
        | cons draw draws =>
            refine absurd ⟨by simp, fun hdegenerate => ?_⟩ h
            exact absurd (total_exceptional_iff.2 hdegenerate) hexceptional

/-! ## The leader -/

variable {s : SimulationActor K n m}

theorem selectRegion_ret_iff {draws : List (Draw K)} {id : Fin n} :
    SimulationActor.selectRegion .fin draws s = .ret id s ↔
      selectRegion .fin (selector s) draws = .chosen id := by
  unfold SimulationActor.selectRegion
  cases hselect : selectRegion .fin (selector s) draws with
  | chosen id' =>
      rw [show RegionSelector.selectRegion .fin
        ⟨s.regionUsedIds, s.regions, s.regionsSummary⟩ draws = _ from hselect]
      simp
  | indexOutOfBounds =>
      rw [show RegionSelector.selectRegion .fin
        ⟨s.regionUsedIds, s.regions, s.regionsSummary⟩ draws = _ from hselect]
      simp
  | exhausted =>
      rw [show RegionSelector.selectRegion .fin
        ⟨s.regionUsedIds, s.regions, s.regionsSummary⟩ draws = _ from hselect]
      simp

theorem choosesRegistered_iff_safe (h : ∃ id ∈ s.regionUsedIds, s.regions id ≠ none) :
    ChoosesRegistered s ↔ Safe .fin Set.univ (selector s) := by
  constructor
  · intro hchooses
    have hall : ∀ draws, Suffice (selector s) draws →
        ∃ id, selectRegion .fin (selector s) draws = .chosen id ∧ s.regions id ≠ none := by
      intro draws hdraws
      obtain ⟨id, -, hregistered, hselect⟩ := hchooses draws hdraws
      exact ⟨id, selectRegion_ret_iff.1 hselect, hregistered⟩
    refine ⟨fun draws _ => ?_, ?_⟩
    · by_cases hdraws : Suffice (selector s) draws
      · exact Or.inr (hall draws hdraws)
      · exact selectRegion_insufficient h hdraws
    · obtain ⟨draws, hdraws⟩ := exists_suffice (r := selector s) h
      obtain ⟨id, hselect, hregistered⟩ := hall draws hdraws
      exact ⟨draws, fun draw _ => Set.mem_univ draw, id, hselect, hregistered⟩
  · intro hsafe draws hdraws
    rcases hsafe.ends draws (fun draw _ => Set.mem_univ draw) with
      hexhausted | ⟨id, hselect, hregistered⟩
    · exact absurd hexhausted (selectRegion_ne_exhausted hdraws)
    · exact ⟨id, mem_of_selectRegion hselect, hregistered, selectRegion_ret_iff.2 hselect⟩

theorem safe_iff_balanced (h : ∃ id ∈ s.regionUsedIds, s.regions id ≠ none) :
    Safe .fin Set.univ (selector s) ↔ Balanced s := by
  have hne : s.regionUsedIds ≠ [] := by
    obtain ⟨id, hid, -⟩ := h
    exact List.ne_nil_of_mem hid
  unfold Balanced
  match hids : s.regionUsedIds with
  | [] => exact absurd hids hne
  | [id] =>
      obtain ⟨id', hid', hregistered⟩ := h
      obtain rfl : id' = id := by simpa [hids] using hid'
      have hused : (selector s).regionUsedIds = [id'] := hids
      rw [safe_iff_selectable]
      simp only [Selectable, hused, iff_true]
      exact hregistered
  | first :: second :: ids =>
      have hused : (selector s).regionUsedIds = first :: second :: ids := hids
      by_cases hexceptional :
          (total .fin (selector s)).isInfinite || (total .fin (selector s)).isNaN
      · rw [safe_iff_drawable hused hexceptional, drawable_exact_iff (by simp [hused])]
        have hdegenerate := total_exceptional_iff.1 hexceptional
        rw [hused] at hdegenerate
        refine iff_of_true h (Or.inl hdegenerate)
      · have hfinite := fun hdegenerate => hexceptional (total_exceptional_iff.2 hdegenerate)
        rw [safe_exact_iff hused hexceptional, ne_eq, total_zero_iff hfinite]
        rw [hused] at hfinite ⊢
        simp only [weight_zero_iff, ne_eq, not_forall, exists_prop]
        constructor
        · exact Or.inr
        · rintro (hdegenerate | hall)
          · exact absurd hdegenerate hfinite
          · exact hall

/-- In every state of the leader with a registered used region, the roulette
picks a registered region on all draws exactly when the weights are balanced. -/
theorem chooses_registered_iff_balanced (h : ∃ id ∈ s.regionUsedIds, s.regions id ≠ none) :
    ChoosesRegistered s ↔ Balanced s := by
  rw [choosesRegistered_iff_safe h, safe_iff_balanced h]

/-! ## Leaders that only deal with regions -/

structure Input (K : Type) [RealArith K] (n m : ℕ) where
  oracle : Oracle K
  sender : ActorRef n m
  message : Message K n m

def Listed : Message K n m → Prop
  | .solutionResult _ => True
  | .regionSplit _ _ _ => True
  | .regionRegister _ _ => True
  | .updateRegionSummary _ _ => True
  | .regionRelease _ => True
  | _ => False

def handled (settings : SimulationSettings) (k : ℕ) (s : SimulationActor K n m)
    (i : Input K n m) : Option (SimulationActor K n m) :=
  match (SimulationActor.receive settings k i.oracle i.sender i.message s).outcome with
  | .done _ t => some t
  | _ => none

def Reachable (settings : SimulationSettings) (k : ℕ) (s : SimulationActor K n m) : Prop :=
  ∃ is : List (Input K n m), (∀ i ∈ is, Listed i.message) ∧
    run (handled settings k) { SimulationActor.new settings with amILeader := true } is = some s

section Example

def exampleSettings : SimulationSettings :=
  { region := ⟨2, 10⟩, problem := ⟨1, 1, .benchmark⟩, benchmark := true, executionTime := 0
    hasCooperation := true }

def first : Fin 2 := ⟨0, Nat.two_pos⟩

def second : Fin 2 := ⟨1, Nat.one_lt_two⟩

def exampleSolution (x : ℚ) : Solution ℚ :=
  { id := 0, agent := none, solutionsVector := [some x], functionValue := some x
    viable := true, changed := false }

def quiet : Oracle ℚ := ⟨fun _ => [], [], .fin⟩

def input (sender : Address 2 1) (message : Message ℚ 2 1) : Input ℚ 2 1 :=
  ⟨quiet, .actor sender, message⟩

def exampleInputs : List (Input ℚ 2 1) :=
  [input .main (.solutionResult [exampleSolution (-1), exampleSolution 1]),
   input .main (.solutionResult [exampleSolution (-2), exampleSolution 2]),
   input (.region first) (.regionRegister first ⟨[-1, 1]⟩),
   input (.region second) (.regionRegister second ⟨[-2, 2]⟩)]

def zeroDraw : Draw ℚ := .zero

theorem exampleInputs_listed : ∀ i ∈ exampleInputs, Listed i.message := by
  simp [exampleInputs, input, Listed]

theorem exampleInputs_run :
    (run (handled exampleSettings 0) { SimulationActor.new exampleSettings with amILeader := true }
      exampleInputs).map (fun s => (s.regionUsedIds, (s.regions first).isSome,
        selectRegion .fin (selector s) [zeroDraw])) =
      some ([first, second], true, .indexOutOfBounds) := by
  decide +kernel

theorem exists_registered {s : SimulationActor ℚ 2 1} (hused : s.regionUsedIds = [first, second])
    (hfirst : (s.regions first).isSome) : ∃ id ∈ s.regionUsedIds, s.regions id ≠ none :=
  ⟨first, by simp [hused], Option.isSome_iff_ne_none.1 hfirst⟩

/-- Infinite rates leave every region without weight, and the search for the
drawn share runs past the last region. -/
theorem weightless_regions_are_not_chosen : ∃ s : SimulationActor ℚ 2 1,
    Reachable exampleSettings 0 s ∧ (∃ id ∈ s.regionUsedIds, s.regions id ≠ none) ∧
      ¬ChoosesRegistered s := by
  obtain ⟨s, hs, hknown⟩ := Option.map_eq_some_iff.1 exampleInputs_run
  obtain ⟨hused, hfirst, hselect⟩ : s.regionUsedIds = [first, second] ∧
      (s.regions first).isSome = true ∧
      selectRegion .fin (selector s) [zeroDraw] = .indexOutOfBounds := by
    simpa using hknown
  refine ⟨s, ⟨exampleInputs, exampleInputs_listed, hs⟩, exists_registered hused hfirst,
    fun hchooses => ?_⟩
  have hsuffice : Suffice (selector s) [zeroDraw] := by
    refine ⟨by simp, fun _ => ⟨zeroDraw, List.mem_cons_self, first, ?_,
      Option.isSome_iff_ne_none.1 hfirst⟩⟩
    rw [show (selector s).regionUsedIds = [first, second] from hused]
    decide +kernel
  obtain ⟨id, -, -, hret⟩ := hchooses _ hsuffice
  rw [selectRegion_ret_iff, hselect] at hret
  exact absurd hret (by simp)

theorem chooses_registered_iff_balanced_example : ∃ s : SimulationActor ℚ 2 1,
    Reachable exampleSettings 0 s ∧ (ChoosesRegistered s ↔ Balanced s) := by
  obtain ⟨s, hs, hknown⟩ := Option.map_eq_some_iff.1 exampleInputs_run
  obtain ⟨hused, hfirst, -⟩ : s.regionUsedIds = [first, second] ∧
      (s.regions first).isSome = true ∧
      selectRegion .fin (selector s) [zeroDraw] = .indexOutOfBounds := by
    simpa using hknown
  exact ⟨s, ⟨exampleInputs, exampleInputs_listed, hs⟩,
    chooses_registered_iff_balanced (exists_registered hused hfirst)⟩

end Example

end DOptimas.Proofs.RouletteSafety
