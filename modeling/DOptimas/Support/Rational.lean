import DOptimas.Support.Statistics
import Mathlib
/-!
# Rational doubles

An executable instance of the arithmetic and of the statistics library, on which
concrete runs are evaluated.  Square roots are exact on squares of rationals.
-/

namespace DOptimas.Support

namespace Rational

def sqrt (x : ℚ) : ℚ := (Nat.sqrt (x.num.toNat * x.den) : ℚ) / x.den

def mean (xs : List ℚ) : JDouble ℚ :=
  if xs.isEmpty then .nan else .fin (xs.sum / xs.length)

/-- The bias-corrected deviation, zero for a single value. -/
def standardDeviation (xs : List ℚ) : JDouble ℚ :=
  match xs with
  | [] => .nan
  | [_] => .fin 0
  | _ =>
      let mean := xs.sum / xs.length
      .fin (sqrt ((xs.map fun x => (x - mean) ^ 2).sum / (xs.length - 1)))

end Rational

instance : RealArith ℚ where
  __ := (inferInstance : Field ℚ)
  __ := (inferInstance : LinearOrder ℚ)
  __ := (inferInstance : IsStrictOrderedRing ℚ)
  __ := (inferInstance : FloorRing ℚ)
  exp x := 1 + x + x ^ 2 / 2 + x ^ 3 / 6
  maxValue := 10 ^ 308

instance : CommonsMath ℚ where
  mean := Rational.mean
  standardDeviation := Rational.standardDeviation
  aggregateMean xss := Rational.mean xss.flatten
  aggregateStandardDeviation xss := Rational.standardDeviation xss.flatten

end DOptimas.Support
