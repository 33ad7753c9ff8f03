import Mathlib.Algebra.Order.Floor.Ring
import Mathlib.Algebra.Order.Floor.Semiring
import Mathlib.Algebra.Order.Field.Basic
/-!
# Java doubles in exact arithmetic

A Java `double` is a number of an ordered field, an infinity or NaN.  The
operations follow the language's rules for infinities and NaN; on numbers they
are exact, and `rounded` is applied to their results where rounding and overflow
are to be represented.  A zero has no sign (every zero that the program divides by
is the result of `Math.abs` or a sum of non-negative terms).
-/

namespace DOptimas.Support

/-- The numbers: an ordered field with a floor, the exponential that the
library's sigmoid uses, and the largest finite double. -/
class RealArith (K : Type) extends Field K, LinearOrder K, IsStrictOrderedRing K, FloorRing K where
  exp : K → K
  maxValue : K

/-- The exponential is increasing, positive and one at zero. -/
structure ExpLaws (K : Type) [RealArith K] : Prop where
  strictMono : StrictMono (RealArith.exp : K → K)
  zero : RealArith.exp (0 : K) = 1
  pos : ∀ x : K, 0 < RealArith.exp x

namespace ExpLaws

variable {K : Type} [RealArith K]

theorem one_lt_iff (h : ExpLaws K) {x : K} : 1 < RealArith.exp x ↔ 0 < x := by
  rw [← h.zero]
  exact h.strictMono.lt_iff_lt

theorem lt_one_iff (h : ExpLaws K) {x : K} : RealArith.exp x < 1 ↔ x < 0 := by
  rw [← h.zero]
  exact h.strictMono.lt_iff_lt

end ExpLaws

inductive JDouble (K : Type) : Type where
  | fin (x : K)
  | posInf
  | negInf
  | nan
  deriving DecidableEq

namespace JDouble

variable {K : Type} [RealArith K]

def neg : JDouble K → JDouble K
  | fin x => fin (-x)
  | posInf => negInf
  | negInf => posInf
  | nan => nan

def add : JDouble K → JDouble K → JDouble K
  | nan, _ => nan
  | _, nan => nan
  | fin x, fin y => fin (x + y)
  | posInf, negInf => nan
  | negInf, posInf => nan
  | posInf, _ => posInf
  | _, posInf => posInf
  | negInf, _ => negInf
  | _, negInf => negInf

def sub (x y : JDouble K) : JDouble K := add x (neg y)

def div : JDouble K → JDouble K → JDouble K
  | nan, _ => nan
  | _, nan => nan
  | fin x, fin y =>
      if y = 0 then
        if x = 0 then nan else if 0 < x then posInf else negInf
      else fin (x / y)
  | fin _, posInf => fin 0
  | fin _, negInf => fin 0
  | posInf, fin y => if y < 0 then negInf else posInf
  | negInf, fin y => if y < 0 then posInf else negInf
  | _, _ => nan

def abs : JDouble K → JDouble K
  | fin x => fin |x|
  | posInf => posInf
  | negInf => posInf
  | nan => nan

/-- `x < y`, false as soon as one side is NaN. -/
def lt : JDouble K → JDouble K → Bool
  | fin x, fin y => decide (x < y)
  | fin _, posInf => true
  | negInf, fin _ => true
  | negInf, posInf => true
  | _, _ => false

/-- `x <= y`, false as soon as one side is NaN. -/
def le : JDouble K → JDouble K → Bool
  | nan, _ => false
  | _, nan => false
  | fin x, fin y => decide (x ≤ y)
  | negInf, _ => true
  | _, posInf => true
  | _, _ => false

/-- The double that stands for an exact result. -/
def rounded (round : K → JDouble K) : JDouble K → JDouble K
  | fin x => round x
  | x => x

omit [RealArith K] in
@[simp] theorem rounded_fin (x : JDouble K) : x.rounded .fin = x := by cases x <;> rfl

def isInfinite : JDouble K → Bool
  | posInf => true
  | negInf => true
  | _ => false

def isNaN : JDouble K → Bool
  | nan => true
  | _ => false

/-- Not negative: a number that is at least zero, positive infinity or NaN. -/
def NonNeg : JDouble K → Prop
  | fin x => 0 ≤ x
  | negInf => False
  | _ => True

theorem nonNeg_abs (x : JDouble K) : NonNeg (abs x) := by
  cases x with
  | fin x => exact abs_nonneg x
  | posInf => trivial
  | negInf => trivial
  | nan => trivial

theorem nonNeg_one_div {x : JDouble K} (h : NonNeg x) : NonNeg (div (fin 1) x) := by
  cases x with
  | fin x =>
      by_cases hx : x = 0
      · simp [div, hx, NonNeg]
      · have : 0 ≤ 1 / x := div_nonneg zero_le_one h
        simpa [div, hx, NonNeg] using this
  | posInf => simp [div, NonNeg]
  | negInf => exact h.elim
  | nan => trivial

end JDouble

end DOptimas.Support
