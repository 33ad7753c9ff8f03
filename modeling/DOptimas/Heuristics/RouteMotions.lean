import DOptimas.Heuristics.VehicleRouting
/-!
# Motions on routes

A motion clones a solution and moves elements of the clone.  A swap inside a route
draws a route between two borders, and two positions between them.
-/

namespace DOptimas.Heuristics

open DOptimas.Support
open VehicleRoutingTimeWindowProblem (depot getCity)

variable {K : Type} [RealArith K]

def natural : ℤ → Program K ℕ
  | .ofNat i => return i
  | .negSucc _ => throw .indexOutOfBounds

/-- `setElement` with a value that may be `null`: after the change, the log line fails. -/
def setElementOrNull (r : Ref) (index : ℕ) : Option (Element K) → Program K Unit
  | some value => setElement r index value
  | none => do
      let s ← deref r
      if s.problem.dimension ≤ index then throw .illegalArgument
      if s.solutionsVector.length ≤ index then throw .indexOutOfBounds
      assign r fun s =>
        { s with solutionsVector := s.solutionsVector.set index none, changed := true }
      throw .nullPointer

/-- One element is taken out and put in somewhere else. -/
def VRTWChangePerformsMotion.movement (solution : Ref) : Option (List ℤ) → Program K Ref
  | some (pos1 :: pos2 :: _) => do
      let value ← nth (← deref solution).solutionsVector (← natural pos1)
      let moved ← clone solution
      removeElementShifting moved (← natural pos1)
      addElementAt moved (← natural pos2) value
      return moved
  | _ => throw .illegalArgument

/-- Two elements of the original trade places. -/
def VRTWSwapPerformsMotion.movement (solution : Ref) : Option (List ℤ) → Program K Ref
  | some (pos1 :: pos2 :: _) => do
      let moved ← clone solution
      let second ← nth (← deref solution).solutionsVector (← natural pos2)
      setElementOrNull moved (← natural pos1) second
      let first ← nth (← deref solution).solutionsVector (← natural pos1)
      setElementOrNull moved (← natural pos2) first
      return moved
  | _ => throw .illegalArgument

/-- The indexes of the depots up to the first empty slot. -/
def depotsFrom (i : ℤ) : List (Option (Element K)) → Except Exception (List ℤ)
  | some e :: rest => do
      let city ← getCity e
      let depots ← depotsFrom (i + 1) rest
      return if city = 0 then i :: depots else depots
  | _ => return []

def lastIndexOf {α : Type} [DecidableEq α] (x : α) (xs : List α) : ℤ :=
  xs.length - 1 - xs.reverse.idxOf x

/-- The borders of the routes, where a vector that does not end at a depot has one more
behind it. -/
def getRoutes (vector : List (Option (Element K))) : Except Exception (List ℤ) := do
  let routes := -1 :: (← depotsFrom 0 vector)
  return if lastIndexOf (some depot) vector ≠ (vector.length : ℤ) - 1 then
    routes ++ [(vector.length : ℤ)]
  else routes

namespace VRTWSwapInsideRouteSolutionModifier

def drawRoute (routes : List ℤ) : Program K (ℤ × ℤ) := do
  let routeIndex ← nextInt 0 (routes.length - 2)
  let routeBegin ← nth routes (← natural routeIndex)
  let next ← nth routes (← natural (routeIndex + 1))
  return (routeBegin, next - 1)

def single (indexes : ℤ × ℤ) : Bool := indexes.2 - indexes.1 = 1

def choseRoute (fuel : ℕ) (solution : Ref) : Program K (ℤ × ℤ) := do
  let routes ← orThrow (getRoutes (← deref solution).solutionsVector)
  if routes.length ≤ 2 then
    return ((← nth routes 0) + 1, (← nth routes 1) - 1)
  let indexes ← drawRoute routes
  repeatWhile .unfinished (fun indexes => return single indexes) (fun _ => drawRoute routes)
    fuel indexes

def drawCities (fuel : ℕ) (routeBegin routeEnd : ℤ) : Program K (ℤ × ℤ) := do
  let cityA ← nextInt (routeBegin + 1) routeEnd
  let cityB ← nextInt (routeBegin + 1) routeEnd
  let cityB ← repeatWhile .unfinished (fun cityB => return cityB = cityA)
    (fun _ => nextInt (routeBegin + 1) routeEnd) fuel cityB
  return (cityA, cityB)

def swapInsideRoute (fuel : ℕ) (solution : Ref) (routeBegin routeEnd : ℤ) : Program K Ref := do
  let (cityA, cityB) ← drawCities fuel routeBegin routeEnd
  VRTWSwapPerformsMotion.movement solution (some [cityA, cityB])

def motion (fuel : ℕ) (modified : Ref) : Program K Ref := do
  let (routeBegin, routeEnd) ← choseRoute fuel modified
  swapInsideRoute fuel modified routeBegin routeEnd

def modify (fuel : ℕ) (solution : Ref) (motionsCount : ℤ) : Program K Ref := do
  let modified ← clone solution
  (List.range motionsCount.toNat).foldlM (fun modified _ => motion fuel modified) modified

end VRTWSwapInsideRouteSolutionModifier

/-- The routes are looked up and nothing is made of them. -/
def VRTWSwapBetweenRouteSolutionModifier.modify (solution : Ref) : Program K (Option Ref) := do
  let _ ← orThrow (getRoutes (← deref solution).solutionsVector)
  return none

inductive VRTWModifier where
  | vrtwSwapInsideRoute
  | vrtwSwapBetweenRoute
  | otherSolutionClass
  deriving DecidableEq

/-- A caller reads the solution that it is given, which fails on `null`. -/
def VRTWModifier.toSolutionModifier (fuel : ℕ) : VRTWModifier → SolutionModifier K
  | vrtwSwapInsideRoute =>
      ⟨fun solution motionsCount =>
        VRTWSwapInsideRouteSolutionModifier.modify fuel solution motionsCount⟩
  | vrtwSwapBetweenRoute =>
      ⟨fun solution _ => do nonNull (← VRTWSwapBetweenRouteSolutionModifier.modify solution)⟩
  | otherSolutionClass => ⟨fun _ _ => throw .classCast⟩

end DOptimas.Heuristics
