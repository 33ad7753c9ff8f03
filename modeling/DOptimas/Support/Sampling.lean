import Mathlib.Data.List.Nodup
import Mathlib.Data.List.Perm.Subperm
/-!
# Sampling without replacement

A sample is drawn when its elements stand at distinct positions of the list it
was drawn from.  Drawing one element and going on with the rest of the list draws
a sample.
-/

namespace DOptimas.Support

variable {α : Type}

/-- The elements of `ys` stand at distinct positions of `xs`, none of which is
among `avoided`. -/
def DrawnApart (avoided : List ℕ) (xs ys : List α) : Prop :=
  ∃ positions : List ℕ, (avoided ++ positions).Nodup ∧
    positions.map (fun p => xs[p]?) = ys.map some

abbrev DrawnFrom (xs ys : List α) : Prop := DrawnApart [] xs ys

theorem drawnFrom_nil (xs : List α) : DrawnFrom xs [] := ⟨[], List.nodup_nil, rfl⟩

/-- The position in a list of what stands at position `p` once `i` is erased. -/
def shift (i p : ℕ) : ℕ := if p < i then p else p + 1

theorem shift_ne (i p : ℕ) : shift i p ≠ i := by
  unfold shift
  split
  · omega
  · omega

theorem shift_injective (i : ℕ) : Function.Injective (shift i) := by
  intro p q h
  unfold shift at h
  split at h
  · split at h
    · exact h
    · omega
  · split at h
    · omega
    · omega

theorem getElem?_eraseIdx_shift (xs : List α) (i p : ℕ) :
    (xs.eraseIdx i)[p]? = xs[shift i p]? := by
  rw [List.getElem?_eraseIdx]
  unfold shift
  split
  · rfl
  · rfl

theorem DrawnFrom.apart {xs ys : List α} {i : ℕ} (h : DrawnFrom (xs.eraseIdx i) ys) :
    DrawnApart [i] xs ys := by
  obtain ⟨positions, hnodup, hvalues⟩ := h
  refine ⟨positions.map (shift i), ?_, ?_⟩
  · rw [List.singleton_append, List.nodup_cons]
    refine ⟨fun hmem => ?_, hnodup.map (shift_injective i)⟩
    obtain ⟨p, -, hp⟩ := List.mem_map.1 hmem
    exact shift_ne i p hp
  · rw [← hvalues, List.map_map]
    exact List.map_congr_left fun p _ => (getElem?_eraseIdx_shift xs i p).symm

theorem DrawnFrom.cons {xs ys : List α} {i : ℕ} {x : α} (hx : xs[i]? = some x)
    (h : DrawnFrom (xs.eraseIdx i) ys) : DrawnFrom xs (x :: ys) := by
  obtain ⟨positions, hnodup, hvalues⟩ := h.apart
  exact ⟨i :: positions, hnodup, by rw [List.map_cons, hx, hvalues, List.map_cons]⟩

theorem DrawnApart.mem {avoided : List ℕ} {xs ys : List α} (h : DrawnApart avoided xs ys) {y : α}
    (hy : y ∈ ys) : y ∈ xs := by
  obtain ⟨positions, -, hvalues⟩ := h
  have hmem : some y ∈ positions.map (fun p => xs[p]?) := by
    rw [hvalues]
    exact List.mem_map_of_mem hy
  obtain ⟨p, -, hp⟩ := List.mem_map.1 hmem
  exact List.mem_of_getElem? hp

theorem DrawnFrom.mem_of_length {xs ys : List α} (h : DrawnFrom xs ys)
    (hlength : xs.length ≤ ys.length) {x : α} (hx : x ∈ xs) : x ∈ ys := by
  obtain ⟨positions, hnodup, hvalues⟩ := h
  have hsame : positions.length = ys.length := by
    have hmapped := congrArg List.length hvalues
    rwa [List.length_map, List.length_map] at hmapped
  have hsub : positions ⊆ List.range xs.length := by
    intro p hp
    have hsome : xs[p]? ∈ ys.map some := hvalues ▸ List.mem_map_of_mem hp
    obtain ⟨y, -, hy⟩ := List.mem_map.1 hsome
    exact List.mem_range.2 (List.getElem?_eq_some_iff.1 hy.symm).1
  have hperm : positions.Perm (List.range xs.length) := by
    apply (List.Nodup.subperm (show positions.Nodup from hnodup) hsub).perm_of_length_le
    rw [List.length_range, hsame]
    exact hlength
  obtain ⟨i, hi⟩ := List.getElem?_of_mem hx
  have hposition : i ∈ positions :=
    hperm.mem_iff.2 (List.mem_range.2 (List.getElem?_eq_some_iff.1 hi).1)
  have hsome : some x ∈ ys.map some := by
    rw [← hvalues, ← hi]
    exact List.mem_map_of_mem hposition
  obtain ⟨y, hy, heq⟩ := List.mem_map.1 hsome
  rwa [← Option.some.inj heq]

end DOptimas.Support
