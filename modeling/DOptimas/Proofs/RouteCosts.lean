import DOptimas.Heuristics.Routes
import DOptimas.Support.Rational
/-!
# The objective of a list of routes

A list of routes costs the sum of what its routes cost, with or without a depot
marker at the end, and in any order.
-/

namespace DOptimas.Proofs.RouteCosts

open DOptimas.Support DOptimas.Heuristics
open DOptimas.Heuristics.VehicleRoutingTimeWindowProblem (joined closed)

section Costs

variable {K : Type} [RealArith K] (p : VehicleRoutingTimeWindowProblem K)

omit [RealArith K] in
theorem joined_eq_nil {n : ℕ} {routes : List (Route n)} (h : joined (K := K) routes = []) :
    routes = [] := by
  cases routes with
  | nil => rfl
  | cons r routes =>
      obtain ⟨is, i, hroutes, -⟩ :=
        VehicleRoutingTimeWindowProblem.intercalate_eq_append r routes
      rw [joined, hroutes] at h
      simp at h

omit [RealArith K] in
theorem closed_eq_nil {n : ℕ} {routes : List (Route n)} (h : closed (K := K) routes = []) :
    routes = [] := by
  cases routes with
  | nil => rfl
  | cons r routes => simp [closed, Route.circuit] at h

theorem objectiveFunction_joined (routes : List (Route p.clients)) :
    p.objectiveFunction (joined routes) = .ok (routes.map p.routeCost).sum :=
  p.objectiveFunction_of_totals (p.totals_joined routes) joined_eq_nil

theorem objectiveFunction_closed (routes : List (Route p.clients)) :
    p.objectiveFunction (closed routes) = .ok (routes.map p.routeCost).sum :=
  p.objectiveFunction_of_totals (p.totals_closed routes) closed_eq_nil

/-- The function value is the sum of the costs of the routes; so neither a marker at
the end nor the order of the routes changes it. -/
theorem objective_decomposes (routes : List (Route p.clients)) :
    p.objectiveFunction (joined routes) = .ok (routes.map p.routeCost).sum ∧
    p.objectiveFunction (closed routes) = p.objectiveFunction (joined routes) ∧
    ∀ routes' : List (Route p.clients), routes.Perm routes' →
      p.objectiveFunction (joined routes') = p.objectiveFunction (joined routes) ∧
      p.objectiveFunction (closed routes') = p.objectiveFunction (closed routes) := by
  have hjoined := objectiveFunction_joined p routes
  have hclosed := objectiveFunction_closed p routes
  refine ⟨hjoined, by rw [hclosed, hjoined], ?_⟩
  intro routes' hperm
  have hsum : (routes'.map p.routeCost).sum = (routes.map p.routeCost).sum :=
    (hperm.map p.routeCost).sum_eq.symm
  constructor
  · rw [objectiveFunction_joined, hjoined, hsum]
  · rw [objectiveFunction_closed, hclosed, hsum]

end Costs

section Example

def twoClients : VehicleRoutingTimeWindowProblem ℚ :=
  { id := 0, maximize := false, clients := 2, truckCapacity := 1, timePenaltyWeight := 1
    truckPenaltyWeight := 1, routesPenaltyWeight := 1
    timeWindow := fun i => if i = 2 then (0, 2) else (0, 100)
    distances := fun i j => if i = 0 ∧ j = 1 ∨ i = 1 ∧ j = 0 then 3 else
      if i = 0 ∧ j = 2 ∨ i = 2 ∧ j = 0 then 4 else 5
    distances_nonneg := fun i j => by
      split_ifs
      · norm_num
      · norm_num
      · norm_num
    clientDemands := fun i => if i = 0 then 0 else 1
    serviceTime := fun i => if i = 0 then 0 else 10 }

def firstClient : Route 2 := ⟨[0], by simp⟩

def secondClient : Route 2 := ⟨[1], by simp⟩

theorem objective_decomposes_example :
    [firstClient, secondClient].Perm [secondClient, firstClient] ∧
    twoClients.objectiveFunction (joined [secondClient, firstClient]) =
      twoClients.objectiveFunction (joined [firstClient, secondClient]) := by
  have hperm : [firstClient, secondClient].Perm [secondClient, firstClient] := .swap _ _ _
  exact ⟨hperm, ((objective_decomposes twoClients _).2.2 _ hperm).1⟩

end Example

end DOptimas.Proofs.RouteCosts
