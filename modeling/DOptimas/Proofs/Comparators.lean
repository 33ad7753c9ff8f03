import DOptimas.Heuristics.Rules
import DOptimas.Proofs.BestSelection
import DOptimas.Support.Comparator
/-!
# The analysers as comparators

`SolutionAnalyser` implements `Comparator`.  Its `compare` is derived from
`getBestSolution`, which resolves every tie in favour of one argument, and two of
the analysers compare function values with a tolerance.
-/

namespace DOptimas.Proofs.Comparators

open DOptimas.Support DOptimas.Heuristics
open DOptimas.Core (SolutionAnalyser)
open DOptimas.Core.SolutionAnalyser

variable {K : Type} [RealArith K] {a : SolutionAnalyser} {w : World K}

def sameVector (w : World K) (x y : Ref) : Bool :=
  match w.solutions[x]?, w.solutions[y]? with
  | some s, some t => s.solutionsVector = t.solutionsVector
  | _, _ => false

theorem sameVector_iff {x y : Ref} : sameVector w x y ↔
    ∃ s t, w.solutions[x]? = some s ∧ w.solutions[y]? = some t ∧
      s.solutionsVector = t.solutionsVector := by
  unfold sameVector
  split
  next s t hs ht => simp [hs, ht]
  next hnone =>
    constructor
    · intro h
      cases h
    · rintro ⟨s, t, hs, ht, -⟩
      exact absurd ht (hnone s t hs)

structure Evaluated (w : World K) (objective : List (Option (Element K)) → K)
    (member : Ref → Prop) : Prop where
  value : ∀ x, member x → ∃ s, w.solutions[x]? = some s ∧
    s.functionValue = some (objective s.solutionsVector)

variable {objective : List (Option (Element K)) → K} {member : Ref → Prop}

theorem Evaluated.valueOf (h : Evaluated w objective member) {x : Ref} (hx : member x) :
    w.valueOf x = some (w.value x) := by
  obtain ⟨s, hs, hv⟩ := h.value x hx
  have hvalue : w.valueOf x = some (objective s.solutionsVector) := by
    simp [World.valueOf, hs, hv]
  rw [hvalue, World.value_eq hvalue]

theorem Evaluated.value_eq (h : Evaluated w objective member) {x y : Ref} (hx : member x)
    (hy : member y) (hsame : sameVector w x y) : w.value x = w.value y := by
  obtain ⟨s, t, hs, ht, heq⟩ := sameVector_iff.1 hsame
  obtain ⟨s', hs', hv⟩ := h.value x hx
  obtain ⟨t', ht', hv'⟩ := h.value y hy
  obtain rfl : s = s' := Option.some.inj (hs.symm.trans hs')
  obtain rfl : t = t' := Option.some.inj (ht.symm.trans ht')
  have hvalue : w.valueOf x = some (objective s.solutionsVector) := by
    simp [World.valueOf, hs, hv]
  have hvalue' : w.valueOf y = some (objective t.solutionsVector) := by
    simp [World.valueOf, ht, hv']
  rw [World.value_eq hvalue, World.value_eq hvalue', heq]

section Example

open DOptimas.Proofs.BestSelection

end Example

end DOptimas.Proofs.Comparators
