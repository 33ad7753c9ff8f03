import Mathlib.Algebra.BigOperators.Group.List.Basic
import Mathlib.Algebra.Order.BigOperators.Group.List
import Mathlib.Order.Interval.Set.Defs
/-!
# Roulettes

A roulette lays the shares of its keys end to end and selects the key in whose
share the dice falls.  With positive shares and distinct keys a key is selected on
an interval as long as its share.
-/

namespace DOptimas.Support.Roulette

variable {K α : Type} [AddCommGroup K] [LinearOrder K]

def accumulated : K → List K → List K
  | _, [] => []
  | acc, p :: ps => (acc + p) :: accumulated (acc + p) ps

/-- The first key up to whose share the dice falls. -/
def spin (dice : K) : K → List (α × K) → Option α
  | _, [] => none
  | acc, (key, p) :: shares => if dice ≤ acc + p then some key else spin dice (acc + p) shares

theorem getElem?_findIdx_accumulated (dice acc : K) (shares : List (α × K)) :
    (shares.map Prod.fst)[(accumulated acc (shares.map Prod.snd)).findIdx fun a => dice ≤ a]? =
      spin dice acc shares := by
  induction shares generalizing acc with
  | nil => rfl
  | cons share shares ih =>
      rw [List.map_cons, List.map_cons, accumulated, spin, List.findIdx_cons]
      by_cases h : dice ≤ acc + share.2
      · rw [if_pos h, decide_eq_true h]
        rfl
      · rw [if_neg h, decide_eq_false h]
        exact ih (acc + share.2)

variable [IsOrderedAddMonoid K]

theorem sum_nonneg {shares : List (α × K)} (hpos : ∀ share ∈ shares, 0 < share.2) :
    0 ≤ (shares.map Prod.snd).sum := by
  apply List.sum_nonneg
  intro p hp
  obtain ⟨share, hshare, rfl⟩ := List.mem_map.1 hp
  exact (hpos share hshare).le

end DOptimas.Support.Roulette
