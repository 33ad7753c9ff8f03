import DOptimas.Heuristics.VehicleRouting
import Mathlib.Tactic.Ring
/-!
# Lists of routes

The vectors that list non-empty routes with a depot marker between them, or one
after each.  The loop of the objective function takes the routes one by one, and
what it adds for a route depends on that route alone.
-/

namespace DOptimas.Heuristics

open DOptimas.Support

structure Route (clients : ℕ) where
  stops : List (Fin clients)
  nonempty : stops ≠ []
  deriving DecidableEq

namespace Route

variable {n : ℕ}

def places (r : Route n) : List (Fin (n + 1)) := r.stops.map Fin.succ

def circuit (r : Route n) : List (Fin (n + 1)) := r.places ++ [home]

theorem places_ne_nil (r : Route n) : r.places ≠ [] := by
  simp [places, r.nonempty]

theorem ne_zero_of_mem_places {r : Route n} {i : Fin (n + 1)} (h : i ∈ r.places) : i ≠ 0 := by
  obtain ⟨j, -, rfl⟩ := List.mem_map.1 h
  exact Fin.succ_ne_zero j

end Route

namespace VehicleRoutingTimeWindowProblem

variable {K : Type} [RealArith K]

def element {n : ℕ} (i : Fin (n + 1)) : Option (Element K) := some (.vehicleRoutingTimeWindow i)

def joined {n : ℕ} (routes : List (Route n)) : List (Option (Element K)) :=
  ([home].intercalate (routes.map Route.places)).map element

/-- The routes with a depot marker after each. -/
def closed {n : ℕ} (routes : List (Route n)) : List (Option (Element K)) :=
  (routes.flatMap Route.circuit).map element

/-! ## The loop on valid places -/

section Loop

variable (p : VehicleRoutingTimeWindowProblem K)

/-- The loop of the objective function from one place through others. -/
def follow : Totals K → Fin (p.clients + 1) → List (Fin (p.clients + 1)) → Totals K
  | t, _, [] => t
  | t, i, j :: js => follow (p.travel t i j) j js

theorem index_coe (i : Fin (p.clients + 1)) : p.index (i : ℕ) = .ok i := by
  unfold index
  rw [dif_pos ⟨by omega, by omega⟩]
  rfl

theorem leg_element (t : Totals K) (i j : Fin (p.clients + 1)) :
    p.leg t (element i) (element j) = .ok (p.travel t i j) := by
  show (do
    let idxClient ← getCity (.vehicleRoutingTimeWindow (K := K) (i : ℕ))
    let idxNextClient ← getCity (.vehicleRoutingTimeWindow (K := K) (j : ℕ))
    return p.travel t (← p.index idxClient) (← p.index idxNextClient)) = _
  simp only [getCity, bind, Except.bind, index_coe]
  rfl

theorem legs_map (t : Totals K) (i : Fin (p.clients + 1)) (js : List (Fin (p.clients + 1))) :
    p.legs t ((i :: js).map element) = .ok (p.follow t i js) := by
  induction js generalizing t i with
  | nil => rfl
  | cons j js ih =>
      have hleg := leg_element p t i j
      show (do p.legs (← p.leg t (element i) (element j)) ((j :: js).map element)) = _
      rw [hleg]
      exact ih (p.travel t i j) j

def distance : Fin (p.clients + 1) → List (Fin (p.clients + 1)) → K
  | _, [] => 0
  | i, j :: js => p.distances i j + distance j js

def load (js : List (Fin (p.clients + 1))) : K := (js.map fun j => (p.clientDemands j : K)).sum

/-- The end of a service that could begin at `time`. -/
def served (time : K) (j : Fin (p.clients + 1)) : K :=
  max time (p.timeWindow j).1 + p.serviceTime j

def late (time : K) (j : Fin (p.clients + 1)) : K := max 0 (time - (p.timeWindow j).2)

/-- The code's clock after some places: it waits and serves, but does not travel. -/
def clock (time : K) (js : List (Fin (p.clients + 1))) : K := js.foldl p.served time

def lateness : K → List (Fin (p.clients + 1)) → K
  | _, [] => 0
  | time, j :: js => p.late time j + lateness (p.served time j) js

theorem late_eq (time penalty : K) (j : Fin (p.clients + 1)) :
    (if (p.timeWindow j).2 < time then penalty + (time - (p.timeWindow j).2) else penalty) =
      penalty + p.late time j := by
  unfold late
  by_cases hlate : ((p.timeWindow j).2 : K) < time
  · rw [if_pos hlate, max_eq_right (by linarith)]
  · rw [if_neg hlate, max_eq_left (by linarith), add_zero]

theorem served_eq (time : K) (j : Fin (p.clients + 1)) :
    (if time < (p.timeWindow j).1 then time + ((p.timeWindow j).1 - time) else time) +
      p.serviceTime j = p.served time j := by
  unfold served
  by_cases hearly : time < ((p.timeWindow j).1 : K)
  · rw [if_pos hearly, max_eq_right hearly.le]
    ring
  · rw [if_neg hearly, max_eq_left (not_lt.1 hearly)]

theorem excess_eq (load penalty : K) :
    (if (p.truckCapacity : K) < load then penalty + |load - p.truckCapacity| else penalty) =
      penalty + max 0 (load - p.truckCapacity) := by
  by_cases hover : (p.truckCapacity : K) < load
  · rw [if_pos hover, max_eq_right (by linarith), abs_of_pos (by linarith)]
  · rw [if_neg hover, max_eq_left (by linarith), add_zero]

theorem travel_client (t : Totals K) {i j : Fin (p.clients + 1)} (hj : j ≠ 0) :
    p.travel t i j =
      { t with
        functionValue := t.functionValue + p.distances i j
        truckLoad := t.truckLoad + p.clientDemands j
        time := p.served t.time j
        timePenalty := t.timePenalty + p.late t.time j } := by
  unfold travel
  rw [if_neg hj, late_eq, served_eq]

theorem travel_depot (t : Totals K) (i : Fin (p.clients + 1)) :
    p.travel t i 0 =
      { functionValue := t.functionValue + p.distances i 0
        truckLoad := 0
        truckPenalty :=
          t.truckPenalty + max 0 (t.truckLoad + p.clientDemands 0 - p.truckCapacity)
        time := 0
        timePenalty := t.timePenalty + p.late t.time 0
        routesCount := t.routesCount + 1 } := by
  unfold travel
  rw [if_pos rfl, late_eq, excess_eq]

/-- A route that is under way, up to its return to the depot. -/
theorem follow_route (t : Totals K) (i : Fin (p.clients + 1)) {js : List (Fin (p.clients + 1))}
    (hjs : ∀ j ∈ js, j ≠ 0) (rest : List (Fin (p.clients + 1))) :
    p.follow t i (js ++ 0 :: rest) =
      p.follow
        { functionValue := t.functionValue + p.distance i (js ++ [0])
          truckLoad := 0
          truckPenalty :=
            t.truckPenalty + max 0 (t.truckLoad + p.load (js ++ [0]) - p.truckCapacity)
          time := 0
          timePenalty := t.timePenalty + p.lateness t.time (js ++ [0])
          routesCount := t.routesCount + 1 } 0 rest := by
  induction js generalizing t i with
  | nil =>
      rw [List.nil_append, List.nil_append, follow, travel_depot]
      simp [distance, load, lateness]
  | cons j js ih =>
      have hj : j ≠ 0 := hjs j List.mem_cons_self
      rw [List.cons_append, follow, travel_client p t hj,
        ih _ j fun k hk => hjs k (List.mem_cons_of_mem j hk)]
      simp only [List.cons_append, distance, load, lateness, List.map_cons, List.sum_cons,
        add_assoc]

end Loop

/-! ## What a route costs -/

section Costs

variable (p : VehicleRoutingTimeWindowProblem K)

def routeDistance (r : Route p.clients) : K := p.distance home r.circuit

def excessLoad (r : Route p.clients) : K := max 0 (p.load r.circuit - p.truckCapacity)

def routeLateness (r : Route p.clients) : K := p.lateness 0 r.circuit

def routeCost (r : Route p.clients) : K :=
  p.routeDistance r + p.truckPenaltyWeight * p.excessLoad r + p.routesPenaltyWeight +
    p.timePenaltyWeight * p.routeLateness r

/-- Nothing leaks from one route into the next. -/
theorem follow_routes (t : Totals K) (hload : t.truckLoad = 0) (htime : t.time = 0)
    (routes : List (Route p.clients)) :
    p.follow t 0 (routes.flatMap Route.circuit) =
      { functionValue := t.functionValue + (routes.map p.routeDistance).sum
        truckLoad := 0
        truckPenalty := t.truckPenalty + (routes.map p.excessLoad).sum
        time := 0
        timePenalty := t.timePenalty + (routes.map p.routeLateness).sum
        routesCount := t.routesCount + routes.length } := by
  induction routes generalizing t with
  | nil =>
      cases t
      simp_all [follow]
  | cons r routes ih =>
      have hroute := follow_route p t 0 (fun _ hj => Route.ne_zero_of_mem_places (r := r) hj)
        (routes.flatMap Route.circuit)
      have hcircuit : (r :: routes).flatMap Route.circuit =
          r.places ++ 0 :: routes.flatMap Route.circuit := by
        simp [Route.circuit]
      rw [hcircuit, hroute]
      refine (ih _ rfl rfl).trans ?_
      simp only [List.map_cons, List.sum_cons, List.length_cons, hload, htime, zero_add,
        routeDistance, excessLoad, routeLateness, Route.circuit, add_assoc, Nat.cast_add,
        Nat.cast_one]
      rw [add_comm (1 : ℤ)]

theorem penalized_routes (routes : List (Route p.clients)) :
    p.penalized (p.follow .new 0 (routes.flatMap Route.circuit)) =
      (routes.map p.routeCost).sum := by
  rw [follow_routes p .new rfl rfl routes]
  induction routes with
  | nil => simp [penalized, Totals.new]
  | cons r routes ih =>
      have hsum : ((r :: routes).map p.routeCost).sum =
          p.routeCost r + (routes.map p.routeCost).sum := by
        rw [List.map_cons, List.sum_cons]
      rw [hsum, ← ih]
      simp only [penalized, Totals.new, routeCost, List.map_cons, List.sum_cons, List.length_cons,
        zero_add]
      push_cast
      ring

end Costs

/-! ## The whole vector -/

section Vectors

variable (p : VehicleRoutingTimeWindowProblem K)

omit [RealArith K] in
theorem endsAtDepot_append {n : ℕ} (is : List (Fin (n + 1))) (i : Fin (n + 1)) :
    endsAtDepot (K := K) ((is ++ [i]).map element) = .ok (decide (i = 0)) := by
  have hlast : (some depot :: (is ++ [i]).map (element (K := K))).getLast (by simp) =
      element i := by
    simp
  unfold endsAtDepot
  rw [hlast]
  simp [element, getCity, Except.map]

theorem intercalate_eq_append {n : ℕ} (r : Route n) (routes : List (Route n)) :
    ∃ is i, [0].intercalate ((r :: routes).map Route.places) = is ++ [i] ∧ i ≠ 0 := by
  induction routes generalizing r with
  | nil =>
      refine ⟨r.places.dropLast, r.places.getLast r.places_ne_nil, ?_, ?_⟩
      · simp [List.intercalate_singleton, List.dropLast_append_getLast]
      · exact Route.ne_zero_of_mem_places (List.getLast_mem r.places_ne_nil)
  | cons r' routes ih =>
      obtain ⟨is, i, hroutes, hi⟩ := ih r'
      refine ⟨r.places ++ [0] ++ is, i, ?_, hi⟩
      rw [List.map_cons, List.map_cons, List.intercalate_cons_cons, ← List.map_cons, hroutes,
        List.append_assoc, List.append_assoc, List.append_assoc]

theorem intercalate_append_depot {n : ℕ} (r : Route n) (routes : List (Route n)) :
    [0].intercalate ((r :: routes).map Route.places) ++ [0] =
      (r :: routes).flatMap Route.circuit := by
  induction routes generalizing r with
  | nil => simp [List.intercalate_singleton, Route.circuit]
  | cons r' routes ih =>
      rw [List.map_cons, List.map_cons, List.intercalate_cons_cons, ← List.map_cons,
        List.append_assoc, ih r']
      rfl

omit [RealArith K] in
theorem getFullRoute_joined {n : ℕ} (r : Route n) (routes : List (Route n)) :
    getFullRoute (K := K) (joined (r :: routes)) =
      .ok ((0 :: (r :: routes).flatMap Route.circuit).map element) := by
  obtain ⟨is, i, hroutes, hi⟩ := intercalate_eq_append r routes
  have hends : endsAtDepot (K := K) (joined (r :: routes)) = .ok false := by
    rw [joined, hroutes, endsAtDepot_append, decide_eq_false hi]
  unfold getFullRoute
  rw [hends, ← intercalate_append_depot, List.map_cons, List.map_append]
  rfl

omit [RealArith K] in
theorem getFullRoute_closed {n : ℕ} (routes : List (Route n)) :
    getFullRoute (K := K) (closed routes) =
      .ok ((0 :: routes.flatMap Route.circuit).map element) := by
  have hends : endsAtDepot (K := K) (closed routes) = .ok true := by
    cases routes with
    | nil => rfl
    | cons r routes =>
        rw [closed, ← intercalate_append_depot, endsAtDepot_append, decide_eq_true rfl]
  unfold getFullRoute
  rw [hends]
  rfl

theorem totals_joined (routes : List (Route p.clients)) :
    p.totals (joined routes) = .ok (p.follow .new 0 (routes.flatMap Route.circuit)) := by
  cases routes with
  | nil => rfl
  | cons r routes =>
      unfold totals
      rw [getFullRoute_joined]
      exact p.legs_map .new 0 _

theorem totals_closed (routes : List (Route p.clients)) :
    p.totals (closed routes) = .ok (p.follow .new 0 (routes.flatMap Route.circuit)) := by
  unfold totals
  rw [getFullRoute_closed]
  exact p.legs_map .new 0 _

theorem objectiveFunction_of_totals {vector : List (Option (Element K))}
    {routes : List (Route p.clients)}
    (h : p.totals vector = .ok (p.follow .new 0 (routes.flatMap Route.circuit)))
    (hempty : vector = [] → routes = []) :
    p.objectiveFunction vector = .ok (routes.map p.routeCost).sum := by
  unfold objectiveFunction
  split
  next hvector =>
    rw [hempty (List.isEmpty_iff.1 hvector)]
    rfl
  next =>
    rw [h]
    exact congrArg Except.ok (p.penalized_routes routes)

end Vectors

end VehicleRoutingTimeWindowProblem

end DOptimas.Heuristics
