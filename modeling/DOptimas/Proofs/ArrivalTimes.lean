import DOptimas.Proofs.RouteCosts
/-!
# Lateness without travel times

The clock of the objective function waits and serves, but no travel time is ever
added to it, and it also charges the return to the depot.  So the time penalty is
the lateness at arrival if and only if travelling adds as much lateness as the
returns are charged with.
-/

namespace DOptimas.Proofs.ArrivalTimes

open DOptimas.Support DOptimas.Heuristics
open DOptimas.Heuristics.VehicleRoutingTimeWindowProblem (joined closed)

section Schedules

variable {K : Type} [RealArith K] (p : VehicleRoutingTimeWindowProblem K)

/-- The lateness at arrival at some places, after the departure from `i`. -/
def lateAtArrival : Fin (p.clients + 1) → K → List (Fin (p.clients + 1)) → K
  | _, _, [] => 0
  | i, departure, j :: js =>
      let arrival := departure + p.distances i j
      p.late arrival j + lateAtArrival j (p.served arrival j) js

def arrivalLateness (r : Route p.clients) : K := lateAtArrival p home 0 r.places

/-- The lateness at the clients of a route by the code's clock. -/
def clockLateness (r : Route p.clients) : K := p.lateness 0 r.places

/-- What the code charges for the return to the depot. -/
def returnLateness (r : Route p.clients) : K := p.late (p.clock 0 r.places) home

/-- At none of the places after `i` is a truck late because of its travels: it is on
time, or no later than without any travel. -/
def Unhindered : Fin (p.clients + 1) → K → K → List (Fin (p.clients + 1)) → Prop
  | _, _, _, [] => True
  | i, time, departure, j :: js =>
      let arrival := departure + p.distances i j
      (arrival ≤ (p.timeWindow j).2 ∨ arrival = time) ∧
        Unhindered j (p.served time j) (p.served arrival j) js

theorem lateness_append (time : K) (js : List (Fin (p.clients + 1))) (j : Fin (p.clients + 1)) :
    p.lateness time (js ++ [j]) = p.lateness time js + p.late (p.clock time js) j := by
  induction js generalizing time with
  | nil => simp [VehicleRoutingTimeWindowProblem.lateness, VehicleRoutingTimeWindowProblem.clock]
  | cons k js ih =>
      rw [List.cons_append, VehicleRoutingTimeWindowProblem.lateness, ih,
        VehicleRoutingTimeWindowProblem.lateness, add_assoc]
      rfl

theorem routeLateness_eq (r : Route p.clients) :
    p.routeLateness r = clockLateness p r + returnLateness p r :=
  lateness_append p 0 r.places 0

theorem late_mono {time arrival : K} (h : time ≤ arrival) (j : Fin (p.clients + 1)) :
    p.late time j ≤ p.late arrival j := by
  unfold VehicleRoutingTimeWindowProblem.late
  exact max_le_max le_rfl (by linarith)

theorem served_mono {time arrival : K} (h : time ≤ arrival) (j : Fin (p.clients + 1)) :
    p.served time j ≤ p.served arrival j := by
  unfold VehicleRoutingTimeWindowProblem.served
  have hmax := max_le_max_right ((p.timeWindow j).1 : K) h
  linarith

theorem late_eq_iff {time arrival : K} (h : time ≤ arrival) (j : Fin (p.clients + 1)) :
    p.late time j = p.late arrival j ↔ arrival ≤ (p.timeWindow j).2 ∨ arrival = time := by
  unfold VehicleRoutingTimeWindowProblem.late
  constructor
  · intro heq
    by_cases hlate : arrival ≤ (p.timeWindow j).2
    · exact Or.inl hlate
    · right
      rw [max_eq_right (by linarith : (0 : K) ≤ arrival - (p.timeWindow j).2)] at heq
      rcases max_choice (0 : K) (time - (p.timeWindow j).2) with hzero | htime
      · rw [hzero] at heq
        linarith
      · rw [htime] at heq
        linarith
  · intro hcases
    rcases hcases with hearly | heq
    · rw [max_eq_left (by linarith), max_eq_left (by linarith)]
    · rw [heq]

theorem lateness_le (i : Fin (p.clients + 1)) {time departure : K} (h : time ≤ departure)
    (js : List (Fin (p.clients + 1))) :
    p.lateness time js ≤ lateAtArrival p i departure js := by
  induction js generalizing i time departure with
  | nil => exact le_rfl
  | cons j js ih =>
      have harrival : time ≤ departure + p.distances i j := by
        have hdistance := p.distances_nonneg i j
        linarith
      exact add_le_add (late_mono p harrival j) (ih j (served_mono p harrival j))

theorem lateness_eq_iff (i : Fin (p.clients + 1)) {time departure : K} (h : time ≤ departure)
    (js : List (Fin (p.clients + 1))) :
    p.lateness time js = lateAtArrival p i departure js ↔ Unhindered p i time departure js := by
  induction js generalizing i time departure with
  | nil => exact iff_of_true rfl trivial
  | cons j js ih =>
      have harrival : time ≤ departure + p.distances i j := by
        have hdistance := p.distances_nonneg i j
        linarith
      have hrest := lateness_le p j (served_mono p harrival j) js
      have hhere := late_mono p harrival j
      rw [VehicleRoutingTimeWindowProblem.lateness, lateAtArrival, Unhindered,
        ← late_eq_iff p harrival,
        ← ih j (served_mono p harrival j)]
      constructor
      · intro heq
        constructor
        · linarith
        · linarith
      · rintro ⟨heq, heqs⟩
        rw [heq, heqs]

end Schedules

section Penalties

variable {K : Type} [RealArith K] (p : VehicleRoutingTimeWindowProblem K)

def timePenalty (vector : List (Option (Element K))) : Except Exception K :=
  (p.totals vector).map VehicleRoutingTimeWindowProblem.Totals.timePenalty

theorem timePenalty_eq {vector : List (Option (Element K))} {routes : List (Route p.clients)}
    (h : vector = joined routes ∨ vector = closed routes) :
    timePenalty p vector =
      .ok ((routes.map (clockLateness p)).sum + (routes.map (returnLateness p)).sum) := by
  have htotals : p.totals vector = .ok (p.follow .new 0 (routes.flatMap Route.circuit)) := by
    rcases h with rfl | rfl
    · exact p.totals_joined routes
    · exact p.totals_closed routes
  have hlateness : routes.map p.routeLateness =
      routes.map fun r => clockLateness p r + returnLateness p r :=
    List.map_congr_left fun r _ => routeLateness_eq p r
  unfold timePenalty
  rw [htotals, p.follow_routes .new rfl rfl, hlateness, List.sum_map_add]
  exact congrArg Except.ok (zero_add _)

theorem sum_eq_iff_of_le {ι : Type} {f g : ι → K} {xs : List ι} (h : ∀ x ∈ xs, f x ≤ g x) :
    (xs.map f).sum = (xs.map g).sum ↔ ∀ x ∈ xs, f x = g x := by
  induction xs with
  | nil => simp
  | cons x xs ih =>
      have hx := h x List.mem_cons_self
      have hxs : ∀ y ∈ xs, f y ≤ g y := fun y hy => h y (List.mem_cons_of_mem x hy)
      have hsum : (xs.map f).sum ≤ (xs.map g).sum := List.sum_le_sum hxs
      rw [List.map_cons, List.sum_cons, List.map_cons, List.sum_cons, List.forall_mem_cons,
        ← ih hxs]
      constructor
      · intro heq
        exact ⟨by linarith, by linarith⟩
      · rintro ⟨heq, heqs⟩
        rw [heq, heqs]

/-- The time penalty is the lateness at arrival if and only if what travelling adds to the
lateness at the clients is what the returns are charged with.  Where no return is charged,
this is to say that no truck is late at a client because of its travels. -/
theorem penalty_at_arrival_iff {vector : List (Option (Element K))}
    {routes : List (Route p.clients)} (h : vector = joined routes ∨ vector = closed routes) :
    (timePenalty p vector = .ok (routes.map (arrivalLateness p)).sum ↔
      (routes.map fun r => arrivalLateness p r - clockLateness p r).sum =
        (routes.map (returnLateness p)).sum) ∧
    ((∀ r ∈ routes, returnLateness p r = 0) →
      (timePenalty p vector = .ok (routes.map (arrivalLateness p)).sum ↔
        ∀ r ∈ routes, Unhindered p 0 0 0 r.places)) := by
  have hadded : (routes.map fun r => arrivalLateness p r - clockLateness p r).sum =
      (routes.map (arrivalLateness p)).sum - (routes.map (clockLateness p)).sum := by
    rw [eq_sub_iff_add_eq, ← List.sum_map_add]
    simp
  rw [timePenalty_eq p h, hadded, Except.ok.injEq]
  constructor
  · constructor
    · intro heq
      linarith
    · intro heq
      linarith
  · intro hreturns
    have hzero : (routes.map (returnLateness p)).sum = 0 := by
      rw [List.map_congr_left hreturns]
      simp
    have hle : ∀ r ∈ routes, clockLateness p r ≤ arrivalLateness p r :=
      fun r _ => lateness_le p 0 le_rfl r.places
    rw [hzero, add_zero, sum_eq_iff_of_le hle]
    exact forall₂_congr fun r _ => lateness_eq_iff p 0 le_rfl r.places

end Penalties

section Example

open RouteCosts (twoClients firstClient secondClient)

/-- The second client is reached two units after it closes, and nothing is charged. -/
theorem late_arrival_is_free :
    timePenalty twoClients (joined [secondClient]) = .ok 0 ∧
    ([secondClient].map (arrivalLateness twoClients)).sum = 2 ∧
    timePenalty twoClients (joined [secondClient]) ≠
      .ok ([secondClient].map (arrivalLateness twoClients)).sum := by
  have hfree : timePenalty twoClients (joined [secondClient]) = .ok 0 :=
    (timePenalty_eq twoClients (Or.inl rfl)).trans (congrArg Except.ok (by decide +kernel))
  have hlate : ([secondClient].map (arrivalLateness twoClients)).sum = 2 := by decide +kernel
  refine ⟨hfree, hlate, ?_⟩
  rw [hfree, hlate, Ne, Except.ok.injEq]
  norm_num

/-- On a route to the first client alone, the penalty is the lateness at arrival. -/
theorem penalty_at_arrival_iff_example :
    (∀ r ∈ [firstClient], returnLateness twoClients r = 0) ∧
    (∀ r ∈ [firstClient], Unhindered twoClients 0 0 0 r.places) ∧
    timePenalty twoClients (joined [firstClient]) =
      .ok ([firstClient].map (arrivalLateness twoClients)).sum := by
  have hreturns : ∀ r ∈ [firstClient], returnLateness twoClients r = 0 := by
    intro r hr
    rw [List.mem_singleton.1 hr]
    decide +kernel
  have hunhindered : ∀ r ∈ [firstClient], Unhindered twoClients 0 0 0 r.places := by
    intro r hr
    rw [List.mem_singleton.1 hr]
    exact ⟨Or.inl (by decide +kernel), trivial⟩
  exact ⟨hreturns, hunhindered,
    ((penalty_at_arrival_iff twoClients (Or.inl rfl)).2 hreturns).2 hunhindered⟩

end Example

end DOptimas.Proofs.ArrivalTimes
