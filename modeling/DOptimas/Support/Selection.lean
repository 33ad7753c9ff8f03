import Mathlib.Data.List.Basic
import Mathlib.Algebra.Order.Field.Basic
import Mathlib.Tactic.Ring
import Mathlib.Tactic.Linarith
/-!
# Selecting one element of a list

A fold that carries one element and, at every next one, keeps the carried
element or takes the next one.  The rule need not be an order: what is said here
holds for rules whose ties are not transitive.
-/

namespace DOptimas.Support

section Select

variable {α : Type} (keeps : α → α → Bool)

/-- The element that the fold ends with when it starts with `b`. -/
def select (b : α) (xs : List α) : α :=
  xs.foldl (fun b x => if keeps b x then b else x) b

@[simp] theorem select_nil (b : α) : select keeps b [] = b := rfl

theorem select_cons (b x : α) (xs : List α) :
    select keeps b (x :: xs) = select keeps (if keeps b x then b else x) xs := rfl

theorem select_append (b : α) (xs ys : List α) :
    select keeps b (xs ++ ys) = select keeps (select keeps b xs) ys :=
  List.foldl_append

theorem select_split (b : α) (xs : List α) :
    ∃ before after, b :: xs = before ++ select keeps b xs :: after ∧
      ∀ x ∈ after, keeps (select keeps b xs) x := by
  induction xs generalizing b with
  | nil => exact ⟨[], [], rfl, by simp⟩
  | cons x xs ih =>
      rw [select_cons]
      by_cases hkeeps : keeps b x
      · rw [if_pos hkeeps]
        obtain ⟨before, after, hlist, hafter⟩ := ih b
        cases before with
        | nil =>
            obtain ⟨hb, hxs⟩ := List.cons.inj hlist
            refine ⟨[], x :: xs, by rw [← hb]; rfl, fun y hy => ?_⟩
            rcases List.mem_cons.1 hy with rfl | hy
            · rwa [← hb]
            · exact hafter y (hxs ▸ hy)
        | cons c before =>
            have hxs : xs = before ++ select keeps b xs :: after := (List.cons.inj hlist).2
            exact ⟨b :: x :: before, after, congrArg (b :: x :: ·) hxs, hafter⟩
      · rw [if_neg hkeeps]
        obtain ⟨before, after, hlist, hafter⟩ := ih x
        exact ⟨b :: before, after, by rw [hlist]; rfl, hafter⟩

theorem select_mem (b : α) (xs : List α) : select keeps b xs ∈ b :: xs := by
  obtain ⟨before, after, hlist, -⟩ := select_split keeps b xs
  have hmem : select keeps b xs ∈ before ++ select keeps b xs :: after := by simp
  rwa [← hlist] at hmem

variable {keeps}

theorem select_of_keeps {b : α} {xs : List α} (h : ∀ x ∈ xs, keeps b x) :
    select keeps b xs = b := by
  induction xs with
  | nil => rfl
  | cons x xs ih =>
      have hx := h x List.mem_cons_self
      rw [select_cons, if_pos hx]
      exact ih fun y hy => h y (List.mem_cons_of_mem x hy)

/-- The selection ends in a set that is closed under being kept, if and only if
the list has an element of the set that is kept at everything after it. -/
theorem select_iff {good : α → Prop} (htrans : ∀ x y z, keeps x y → keeps y z → keeps x z)
    (hgood : ∀ x y, keeps x y → good y → good x) (b : α) (xs : List α) :
    good (select keeps b xs) ↔
      ∃ before x after, b :: xs = before ++ x :: after ∧ good x ∧ ∀ y ∈ after, keeps x y := by
  constructor
  · intro h
    obtain ⟨before, after, hlist, hafter⟩ := select_split keeps b xs
    exact ⟨before, _, after, hlist, h, hafter⟩
  · rintro ⟨before, x, after, hlist, hx, hafter⟩
    cases before with
    | nil =>
        obtain ⟨rfl, rfl⟩ := List.cons.inj hlist
        rwa [select_of_keeps hafter]
    | cons c before =>
        have hxs : xs = before ++ x :: after := (List.cons.inj hlist).2
        rw [hxs, select_append, select_cons]
        by_cases hkeeps : keeps (select keeps b before) x
        · have hall : ∀ y ∈ after, keeps (select keeps b before) y :=
            fun y hy => htrans _ x y hkeeps (hafter y hy)
          rw [if_pos hkeeps, select_of_keeps hall]
          exact hgood _ x hkeeps hx
        · rwa [if_neg hkeeps, select_of_keeps hafter]

end Select

section Drift

variable {K : Type} [Field K] [LinearOrder K] [IsStrictOrderedRing K]

/-- Every step may give up less than one tolerance, so the loss is bounded by
the number of steps. -/
theorem select_le_add {keeps : K → K → Bool} {tolerance : K} (htolerance : 0 ≤ tolerance)
    (hkeeps : ∀ x y, keeps x y → x ≤ y) (htakes : ∀ x y, keeps x y = false → y ≤ x + tolerance)
    (b : K) (xs : List K) {y : K} (hy : y ∈ b :: xs) :
    select keeps b xs ≤ y + xs.length * tolerance := by
  induction xs generalizing b y with
  | nil =>
      have hyb : y = b := List.mem_singleton.1 hy
      simp [hyb]
  | cons x xs ih =>
      have hstep : (((x :: xs).length : ℕ) : K) * tolerance =
          xs.length * tolerance + tolerance := by
        rw [List.length_cons]
        push_cast
        ring
      rw [select_cons, hstep]
      by_cases hkept : keeps b x
      · rw [if_pos hkept]
        have hfromB := ih b List.mem_cons_self
        have hbx := hkeeps b x hkept
        rcases List.mem_cons.1 hy with rfl | hy
        · linarith
        · rcases List.mem_cons.1 hy with rfl | hy
          · linarith
          · have hfromY := ih b (List.mem_cons_of_mem b hy)
            linarith
      · rw [if_neg hkept]
        have hfromX := ih x List.mem_cons_self
        have hxb := htakes b x (by simpa using hkept)
        rcases List.mem_cons.1 hy with rfl | hy
        · linarith
        · have hfromY := ih x hy
          linarith

end Drift

end DOptimas.Support
