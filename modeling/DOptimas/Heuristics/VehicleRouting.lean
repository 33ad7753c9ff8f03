import DOptimas.Heuristics.Solution
import DOptimas.Heuristics.Components
/-!
# Vehicle routing with time windows

A vector lists the clients from one on in the order of their visits, and a zero
wherever a truck returns to the depot.  The objective function follows the whole
vector in one loop, with the load and the clock of the truck that is under way
and the penalties so far.
-/

namespace DOptimas.Heuristics

open DOptimas.Support

/-- The arrays have one place for the depot and one for each client. -/
structure VehicleRoutingTimeWindowProblem (K : Type) [RealArith K] where
  id : ℕ
  maximize : Bool
  clients : ℕ
  truckCapacity : ℤ
  timePenaltyWeight : ℤ
  truckPenaltyWeight : ℤ
  routesPenaltyWeight : ℤ
  /-- Opening and closing time. -/
  timeWindow : Fin (clients + 1) → ℤ × ℤ
  distances : Fin (clients + 1) → Fin (clients + 1) → K
  distances_nonneg : ∀ i j, 0 ≤ distances i j
  clientDemands : Fin (clients + 1) → ℤ
  serviceTime : Fin (clients + 1) → ℤ

abbrev home {n : ℕ} : Fin (n + 1) := 0

namespace VehicleRoutingTimeWindowProblem

variable {K : Type} [RealArith K]

def dimension (p : VehicleRoutingTimeWindowProblem K) : ℕ := 2 * p.clients

def depot : Element K := .vehicleRoutingTimeWindow 0

def getCity : Element K → Except Exception ℤ
  | .vehicleRoutingTimeWindow city => .ok city
  | _ => .error .classCast

def index (p : VehicleRoutingTimeWindowProblem K) (city : ℤ) :
    Except Exception (Fin (p.clients + 1)) :=
  if h : 0 ≤ city ∧ city ≤ p.clients then .ok ⟨city.toNat, by omega⟩
  else .error .indexOutOfBounds

def endsAtDepot (vector : List (Option (Element K))) : Except Exception Bool :=
  match (some depot :: vector).getLast (by simp) with
  | none => .error .nullPointer
  | some e => (getCity e).map fun city => decide (city = 0)

/-- The route from the depot back to the depot. -/
def getFullRoute (vector : List (Option (Element K))) :
    Except Exception (List (Option (Element K))) := do
  if ← endsAtDepot vector then
    return some depot :: vector
  else
    return some depot :: vector ++ [some depot]

structure Totals (K : Type) where
  functionValue : K
  truckLoad : K
  truckPenalty : K
  time : K
  timePenalty : K
  routesCount : ℤ

def Totals.new : Totals K := ⟨0, 0, 0, 0, 0, 0⟩

/-- From one city to the next.  The clock stands at the end of the last service. -/
def travel (p : VehicleRoutingTimeWindowProblem K) (t : Totals K)
    (client nextClient : Fin (p.clients + 1)) : Totals K :=
  let functionValue := t.functionValue + p.distances client nextClient
  let truckLoad := t.truckLoad + p.clientDemands nextClient
  let timePenalty :=
    if (p.timeWindow nextClient).2 < t.time then
      t.timePenalty + (t.time - (p.timeWindow nextClient).2)
    else t.timePenalty
  let time :=
    if t.time < (p.timeWindow nextClient).1 then
      t.time + ((p.timeWindow nextClient).1 - t.time)
    else t.time
  let time := time + p.serviceTime nextClient
  if nextClient = 0 then
    { functionValue, timePenalty
      truckPenalty :=
        if p.truckCapacity < truckLoad then t.truckPenalty + |truckLoad - p.truckCapacity|
        else t.truckPenalty
      truckLoad := 0
      routesCount := t.routesCount + 1
      time := 0 }
  else
    { functionValue, truckLoad, truckPenalty := t.truckPenalty, time, timePenalty
      routesCount := t.routesCount }

/-- A leg between two cities, where a missing element is passed over. -/
def leg (p : VehicleRoutingTimeWindowProblem K) (t : Totals K) :
    Option (Element K) → Option (Element K) → Except Exception (Totals K)
  | some client, some nextClient => do
      let idxClient ← getCity client
      let idxNextClient ← getCity nextClient
      return p.travel t (← p.index idxClient) (← p.index idxNextClient)
  | _, _ => .ok t

def legs (p : VehicleRoutingTimeWindowProblem K) :
    Totals K → List (Option (Element K)) → Except Exception (Totals K)
  | t, client :: nextClient :: cities => do
      legs p (← p.leg t client nextClient) (nextClient :: cities)
  | t, _ => .ok t

def totals (p : VehicleRoutingTimeWindowProblem K) (vector : List (Option (Element K))) :
    Except Exception (Totals K) := do
  p.legs .new (← getFullRoute vector)

def penalized (p : VehicleRoutingTimeWindowProblem K) (t : Totals K) : K :=
  t.functionValue + (p.truckPenaltyWeight * t.truckPenalty +
    p.routesPenaltyWeight * t.routesCount + p.timePenaltyWeight * t.timePenalty)

def objectiveFunction (p : VehicleRoutingTimeWindowProblem K)
    (vector : List (Option (Element K))) : Except Exception K :=
  if vector.isEmpty then .ok 0
  else do return p.penalized (← p.totals vector)

/-- All that the loop over the cities can do to the flag is fail. -/
def checkLegs (p : VehicleRoutingTimeWindowProblem K) :
    List (Option (Element K)) → Except Exception Unit
  | some client :: some nextClient :: cities => do
      let _ ← getCity client
      let _ ← p.index (← getCity nextClient)
      checkLegs p (some nextClient :: cities)
  | _ :: nextClient :: cities => checkLegs p (nextClient :: cities)
  | _ => .ok ()

def checkViability (p : VehicleRoutingTimeWindowProblem K)
    (vector : List (Option (Element K))) : Bool × Except Exception Unit :=
  (true, do p.checkLegs (← getFullRoute vector))

def stretches (p : VehicleRoutingTimeWindowProblem K) :
    ℤ × K → List (Option (Element K)) → Except Exception (ℤ × K)
  | t, some client :: some nextClient :: cities => do
      let idxClient ← getCity client
      let idxNextClient ← getCity nextClient
      let routesCount := if idxClient = 0 then t.1 + 1 else t.1
      let distance := p.distances (← p.index idxClient) (← p.index idxNextClient)
      stretches p (routesCount, t.2 + distance) (some nextClient :: cities)
  | t, _ :: nextClient :: cities => stretches p t (nextClient :: cities)
  | t, _ => .ok t

/-- A depot after a depot has no value. -/
def adaptiveFunctionValue (p : VehicleRoutingTimeWindowProblem K)
    (vector : List (Option (Element K))) (value : Element K) : Except Exception (Option K) := do
  if ← endsAtDepot vector then
    if (← getCity value) = 0 then
      return none
  let (routesCount, totalDistance) ← p.stretches (0, 0) (some depot :: vector ++ [some value])
  return some (routesCount * totalDistance)

/-- `infinity` stands for `Double.POSITIVE_INFINITY`, which is no number of `K`. -/
def toProblem (p : VehicleRoutingTimeWindowProblem K) (infinity : K) : Problem K :=
  { id := p.id
    name := .vehicleRoutingTimeWindow
    dimension := p.dimension
    nullInit := false
    analyser := .vehicleRoutingTimeWindow
    max := p.maximize
    initialValue := infinity
    parsedInitialValue := .ok infinity
    domain := fun _ => .error .classCast
    objectiveFunction := fun _ vector => ⟨0, p.objectiveFunction vector⟩
    checkViability := p.checkViability
    adaptiveFunctionValue := fun _ vector value => ⟨0, p.adaptiveFunctionValue vector value⟩ }

/-- Every client once, and fewer depots than clients. -/
def vrtwCandidatesList (p : VehicleRoutingTimeWindowProblem K) : CandidatesList K where
  getCandidates := do
    let trucks ← nextInt 0 (p.clients - 1)
    return (List.range p.clients).map (fun i => .vehicleRoutingTimeWindow (i + 1)) ++
      List.replicate trucks.toNat depot

end VehicleRoutingTimeWindowProblem

end DOptimas.Heuristics
