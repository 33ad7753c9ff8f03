import DOptimas.Actors.Messages
/-!
# The region roulette

The leader picks a used region with a probability inversely proportional to its
variation rate.  A zero rate has infinite weight; the roulette then falls back to
a uniform choice among the registered regions.
-/

namespace DOptimas.Util

open DOptimas.Support DOptimas.Core DOptimas.Actors

structure RegionSelector (K : Type) (n m : ℕ) where
  regionUsedIds : List (Fin n)
  regions : Fin n → Option (ActorRef n m)
  regionsSummary : Fin n → Option (SummaryStatistics K)

inductive Selection (n : ℕ) where
  | chosen (id : Fin n)
  | indexOutOfBounds
  /-- Every draw hit a region that is not registered. -/
  | exhausted
  deriving DecidableEq

namespace RegionSelector

variable {K : Type} [RealArith K] [CommonsMath K] {n m : ℕ}

section Rounded

variable (round : K → JDouble K)

/-- `1 / variationRate`, the rate of a missing summary being zero. -/
def weight (summary : Option (SummaryStatistics K)) : JDouble K :=
  ((JDouble.fin 1).div
    (match summary with
      | none => .fin 0
      | some s => (variationRate s.toStatisticalSummary).rounded round)).rounded round

def weights (r : RegionSelector K n m) : List (JDouble K) :=
  r.regionUsedIds.map fun id => weight round (r.regionsSummary id)

def total (r : RegionSelector K n m) : JDouble K :=
  (weights round r).foldl (fun sum w => (sum.add w).rounded round) (.fin 0)

def share (total w : JDouble K) : JDouble K := (w.div total).rounded round

def accumulate (total : JDouble K) : JDouble K → List (JDouble K) → List (JDouble K)
  | _, [] => []
  | acc, w :: ws =>
      let next := ((share round total w).add acc).rounded round
      next :: accumulate total next ws

def accumulated (r : RegionSelector K n m) : List (JDouble K) :=
  match weights round r with
  | [] => []
  | w :: ws =>
      let first := share round (total round r) w
      first :: accumulate round (total round r) first ws

def position (draw : Draw K) (size : ℕ) : ℕ :=
  match round (draw.value * size) with
  | .fin x => ⌊x⌋.toNat
  | .posInf => 2147483647
  | _ => 0

/-- Draw until a registered region comes up. -/
def drawRegistered (r : RegionSelector K n m) : List (Draw K) → Selection n
  | [] => .exhausted
  | draw :: draws =>
      match r.regionUsedIds[position round draw r.regionUsedIds.length]? with
      | none => .indexOutOfBounds
      | some id => if (r.regions id).isSome then .chosen id else drawRegistered r draws

end Rounded

def spin (draw : Draw K) : List (Fin n) → List (JDouble K) → Selection n
  | id :: ids, acc :: accs =>
      if (JDouble.fin draw.value).le acc then .chosen id else spin draw ids accs
  | _, _ => .indexOutOfBounds

/-- `selectRegion`, where `round` is applied to the result of every operation. -/
def selectRegion (round : K → JDouble K) (r : RegionSelector K n m) (draws : List (Draw K)) :
    Selection n :=
  match r.regionUsedIds with
  | [id] => .chosen id
  | [] => .indexOutOfBounds
  | _ =>
      if (total round r).isInfinite || (total round r).isNaN then drawRegistered round r draws
      else
        match draws with
        | [] => .exhausted
        | draw :: _ => spin draw r.regionUsedIds (accumulated round r)

end RegionSelector

end DOptimas.Util
