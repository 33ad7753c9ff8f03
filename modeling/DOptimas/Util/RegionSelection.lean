import DOptimas.Util.RegionSelector
import Mathlib.Algebra.Order.BigOperators.Group.List
import Mathlib.Data.Set.Basic
import Mathlib.Tactic.Linarith
/-!
# What the region roulette can choose

The regions that some draw chooses, and when every draw that comes to an end
chooses a registered one: first for doubles that are rounded in any way and a
generator that gives some of the numbers below one, then in exact arithmetic.
-/

namespace DOptimas.Util

open DOptimas.Support DOptimas.Core DOptimas.Actors

namespace RegionSelector

variable {K : Type} [RealArith K] {n m : ℕ}

/-! ## Where a draw stops -/

section Stop

def StopsAt (draw : Draw K) (accs : List (JDouble K)) (i : ℕ) : Prop :=
  (∃ acc, accs[i]? = some acc ∧ (JDouble.fin draw.value).le acc = true) ∧
    ∀ j < i, ∀ acc, accs[j]? = some acc → (JDouble.fin draw.value).le acc = false

variable {draw : Draw K} {acc : JDouble K} {accs : List (JDouble K)}

theorem stopsAt_zero (h : (JDouble.fin draw.value).le acc = true) :
    StopsAt draw (acc :: accs) 0 :=
  ⟨⟨acc, rfl, h⟩, fun j hj => absurd hj (Nat.not_lt_zero j)⟩

theorem stopsAt_succ_iff {i : ℕ} :
    StopsAt draw (acc :: accs) (i + 1) ↔
      (JDouble.fin draw.value).le acc = false ∧ StopsAt draw accs i := by
  constructor
  · rintro ⟨hreach, hbefore⟩
    exact ⟨hbefore 0 (Nat.succ_pos i) acc rfl, hreach,
      fun j hj acc' hacc' => hbefore (j + 1) (Nat.succ_lt_succ hj) acc' hacc'⟩
  · rintro ⟨hfirst, hreach, hbefore⟩
    refine ⟨hreach, fun j hj acc' hacc' => ?_⟩
    cases j with
    | zero =>
        obtain rfl : acc = acc' := by simpa using hacc'
        exact hfirst
    | succ j => exact hbefore j (Nat.lt_of_succ_lt_succ hj) acc' hacc'

theorem exists_stopsAt (h : ∃ acc ∈ accs, (JDouble.fin draw.value).le acc = true) :
    ∃ i, i < accs.length ∧ StopsAt draw accs i := by
  induction accs with
  | nil => simp at h
  | cons acc accs ih =>
      cases hfirst : (JDouble.fin draw.value).le acc with
      | true => exact ⟨0, Nat.succ_pos _, stopsAt_zero hfirst⟩
      | false =>
          obtain ⟨acc', hmem, hreach⟩ := h
          rcases List.mem_cons.1 hmem with rfl | hmem
          · rw [hfirst] at hreach
            cases hreach
          · obtain ⟨i, hi, hstop⟩ := ih ⟨acc', hmem, hreach⟩
            exact ⟨i + 1, Nat.succ_lt_succ hi, stopsAt_succ_iff.2 ⟨hfirst, hstop⟩⟩

theorem spin_eq_chosen_iff {ids : List (Fin n)} {id : Fin n} :
    spin draw ids accs = .chosen id ↔ ∃ i, ids[i]? = some id ∧ StopsAt draw accs i := by
  induction ids generalizing accs with
  | nil => simp [spin]
  | cons head ids ih =>
      cases accs with
      | nil => simp [spin, StopsAt]
      | cons acc accs =>
          unfold spin
          cases hfirst : (JDouble.fin draw.value).le acc with
          | true =>
              simp only [if_true, Selection.chosen.injEq]
              constructor
              · rintro rfl
                exact ⟨0, rfl, stopsAt_zero hfirst⟩
              · rintro ⟨i, hid, hstop⟩
                cases i with
                | zero => simpa using hid
                | succ i =>
                    rw [(stopsAt_succ_iff.1 hstop).1] at hfirst
                    cases hfirst
          | false =>
              rw [if_neg (by simp), ih]
              constructor
              · rintro ⟨i, hid, hstop⟩
                exact ⟨i + 1, hid, stopsAt_succ_iff.2 ⟨hfirst, hstop⟩⟩
              · rintro ⟨i, hid, hstop⟩
                cases i with
                | zero =>
                    obtain ⟨acc', hacc', hreach⟩ := hstop.1
                    obtain rfl : acc = acc' := by simpa using hacc'
                    rw [hfirst] at hreach
                    cases hreach
                | succ i => exact ⟨i, hid, (stopsAt_succ_iff.1 hstop).2⟩

theorem spin_ne_exhausted (draw : Draw K) (ids : List (Fin n)) (accs : List (JDouble K)) :
    spin draw ids accs ≠ .exhausted := by
  induction ids generalizing accs with
  | nil => simp [spin]
  | cons head ids ih =>
      cases accs with
      | nil => simp [spin]
      | cons acc accs =>
          unfold spin
          split
          · simp
          · exact ih accs

end Stop

/-! ## The choice -/

variable [CommonsMath K] {round : K → JDouble K} {r : RegionSelector K n m}
  {first second : Fin n} {ids : List (Fin n)}

omit [CommonsMath K] in
theorem length_accumulate (total acc : JDouble K) (ws : List (JDouble K)) :
    (accumulate round total acc ws).length = ws.length := by
  induction ws generalizing acc with
  | nil => rfl
  | cons w ws ih => simp [accumulate, ih]

theorem length_accumulated : (accumulated round r).length = r.regionUsedIds.length := by
  have hweights : (weights round r).length = r.regionUsedIds.length := List.length_map _
  unfold accumulated
  split
  next hnone => rw [← hweights, hnone]
  next w ws hws => rw [← hweights, hws, List.length_cons, length_accumulate, List.length_cons]

variable (round) in
theorem selectRegion_singleton (h : r.regionUsedIds = [first]) (draws : List (Draw K)) :
    selectRegion round r draws = .chosen first := by
  simp [selectRegion, h]

theorem selectRegion_uniform (h : r.regionUsedIds = first :: second :: ids)
    (htotal : (total round r).isInfinite || (total round r).isNaN) (draws : List (Draw K)) :
    selectRegion round r draws = drawRegistered round r draws := by
  unfold selectRegion
  rw [h]
  simp only [htotal, if_true]

theorem selectRegion_spin (h : r.regionUsedIds = first :: second :: ids)
    (htotal : ¬((total round r).isInfinite || (total round r).isNaN)) (draw : Draw K)
    (draws : List (Draw K)) :
    selectRegion round r (draw :: draws) = spin draw r.regionUsedIds (accumulated round r) := by
  unfold selectRegion
  rw [h]
  simp only [htotal]
  rfl

theorem selectRegion_no_draw (h : r.regionUsedIds = first :: second :: ids)
    (htotal : ¬((total round r).isInfinite || (total round r).isNaN)) :
    selectRegion round r [] = .exhausted := by
  unfold selectRegion
  rw [h]
  simp only [htotal]
  rfl

/-! ## Safe roulettes -/

/-- With what the generator gives, every draw that comes to an end chooses a
registered region, and some draw comes to an end. -/
structure Safe (round : K → JDouble K) (sampled : Set (Draw K)) (r : RegionSelector K n m) :
    Prop where
  ends : ∀ draws, (∀ draw ∈ draws, draw ∈ sampled) → selectRegion round r draws = .exhausted ∨
    ∃ id, selectRegion round r draws = .chosen id ∧ r.regions id ≠ none
  chooses : ∃ draws, (∀ draw ∈ draws, draw ∈ sampled) ∧
    ∃ id, selectRegion round r draws = .chosen id ∧ r.regions id ≠ none

/-- Every drawn position is one of a used region, and one of them is registered. -/
def Drawable (round : K → JDouble K) (sampled : Set (Draw K)) (r : RegionSelector K n m) : Prop :=
  (∀ draw ∈ sampled, position round draw r.regionUsedIds.length < r.regionUsedIds.length) ∧
    ∃ draw ∈ sampled, ∃ id,
      r.regionUsedIds[position round draw r.regionUsedIds.length]? = some id ∧
        r.regions id ≠ none

/-- Every drawn value is at most some share as it is computed, and where one stops,
the region is registered. -/
def Spinnable (round : K → JDouble K) (sampled : Set (Draw K)) (r : RegionSelector K n m) : Prop :=
  sampled.Nonempty ∧
    (∀ draw ∈ sampled, ∃ acc ∈ accumulated round r, (JDouble.fin draw.value).le acc = true) ∧
    ∀ draw ∈ sampled, ∀ i id, StopsAt draw (accumulated round r) i →
      r.regionUsedIds[i]? = some id → r.regions id ≠ none

def Selectable (round : K → JDouble K) (sampled : Set (Draw K)) (r : RegionSelector K n m) :
    Prop :=
  match r.regionUsedIds with
  | [] => False
  | [id] => r.regions id ≠ none
  | _ =>
      if (total round r).isInfinite || (total round r).isNaN then Drawable round sampled r
      else Spinnable round sampled r

variable {sampled : Set (Draw K)}

theorem selectable_uniform (h : r.regionUsedIds = first :: second :: ids)
    (htotal : (total round r).isInfinite || (total round r).isNaN) :
    Selectable round sampled r ↔ Drawable round sampled r := by
  unfold Selectable
  rw [h]
  simp only [htotal, if_true]

theorem selectable_spin (h : r.regionUsedIds = first :: second :: ids)
    (htotal : ¬((total round r).isInfinite || (total round r).isNaN)) :
    Selectable round sampled r ↔ Spinnable round sampled r := by
  unfold Selectable
  rw [h]
  simp only [htotal]
  rfl

omit [CommonsMath K] in
/-- A uniform draw that ends has found a registered region. -/
theorem drawRegistered_ends {draws : List (Draw K)}
    (h : ∀ draw ∈ draws, position round draw r.regionUsedIds.length < r.regionUsedIds.length) :
    drawRegistered round r draws = .exhausted ∨
      ∃ id, drawRegistered round r draws = .chosen id ∧ r.regions id ≠ none := by
  induction draws with
  | nil => exact Or.inl rfl
  | cons draw draws ih =>
      obtain ⟨hlt, hrest⟩ := List.forall_mem_cons.1 h
      rw [drawRegistered, List.getElem?_eq_getElem hlt]
      dsimp only
      split
      next hregistered => exact Or.inr ⟨_, rfl, Option.isSome_iff_ne_none.1 hregistered⟩
      · exact ih hrest

omit [CommonsMath K] in
theorem exists_of_drawRegistered {draws : List (Draw K)} {id : Fin n}
    (h : drawRegistered round r draws = .chosen id) : ∃ draw ∈ draws,
      r.regionUsedIds[position round draw r.regionUsedIds.length]? = some id ∧
        r.regions id ≠ none := by
  induction draws with
  | nil => simp [drawRegistered] at h
  | cons draw draws ih =>
      rw [drawRegistered] at h
      split at h
      · simp at h
      next id' hid' =>
        split at h
        next hregistered =>
          obtain rfl : id' = id := by simpa using h
          exact ⟨draw, List.mem_cons_self, hid', Option.isSome_iff_ne_none.1 hregistered⟩
        · obtain ⟨draw', hmem, hfound⟩ := ih h
          exact ⟨draw', List.mem_cons_of_mem draw hmem, hfound⟩

theorem safe_iff_drawable (h : r.regionUsedIds = first :: second :: ids)
    (htotal : (total round r).isInfinite || (total round r).isNaN) :
    Safe round sampled r ↔ Drawable round sampled r := by
  constructor
  · intro hsafe
    refine ⟨fun draw hdraw => ?_, ?_⟩
    · by_contra hbeyond
      have hends := hsafe.ends [draw] (by simpa using hdraw)
      rw [selectRegion_uniform h htotal, drawRegistered,
        List.getElem?_eq_none (not_lt.1 hbeyond)] at hends
      simp at hends
    · obtain ⟨draws, hdraws, id, hchosen, -⟩ := hsafe.chooses
      rw [selectRegion_uniform h htotal] at hchosen
      obtain ⟨draw, hmem, hid, hreg⟩ := exists_of_drawRegistered hchosen
      exact ⟨draw, hdraws draw hmem, id, hid, hreg⟩
  · rintro ⟨hlt, draw, hdraw, id, hid, hreg⟩
    refine ⟨fun draws hdraws => ?_, [draw], by simpa using hdraw, id, ?_, hreg⟩
    · rw [selectRegion_uniform h htotal]
      exact drawRegistered_ends fun d hd => hlt d (hdraws d hd)
    · rw [selectRegion_uniform h htotal, drawRegistered, hid]
      simp [Option.isSome_iff_ne_none.2 hreg]

theorem safe_iff_spinnable (h : r.regionUsedIds = first :: second :: ids)
    (htotal : ¬((total round r).isInfinite || (total round r).isNaN)) :
    Safe round sampled r ↔ Spinnable round sampled r := by
  have hone : ∀ draw : Draw K, selectRegion round r [draw] =
      spin draw r.regionUsedIds (accumulated round r) :=
    fun draw => selectRegion_spin h htotal draw []
  constructor
  · intro hsafe
    have hspin : ∀ draw ∈ sampled, ∃ id,
        spin draw r.regionUsedIds (accumulated round r) = .chosen id ∧ r.regions id ≠ none := by
      intro draw hdraw
      have hends := hsafe.ends [draw] (by simpa using hdraw)
      rw [hone] at hends
      exact hends.resolve_left (spin_ne_exhausted _ _ _)
    refine ⟨?_, fun draw hdraw => ?_, fun draw hdraw i id hstop hid => ?_⟩
    · obtain ⟨draws, hdraws, id, hchosen, -⟩ := hsafe.chooses
      cases draws with
      | nil =>
          rw [selectRegion_no_draw h htotal] at hchosen
          cases hchosen
      | cons draw draws => exact ⟨draw, hdraws draw List.mem_cons_self⟩
    · obtain ⟨id, hchosen, -⟩ := hspin draw hdraw
      obtain ⟨i, -, ⟨acc, hacc, hreach⟩, -⟩ := spin_eq_chosen_iff.1 hchosen
      exact ⟨acc, List.mem_of_getElem? hacc, hreach⟩
    · obtain ⟨id', hchosen, hreg⟩ := hspin draw hdraw
      rw [spin_eq_chosen_iff.2 ⟨i, hid, hstop⟩] at hchosen
      obtain rfl : id = id' := Selection.chosen.inj hchosen
      exact hreg
  · rintro ⟨⟨draw, hdraw⟩, hreach, hreg⟩
    have hspin : ∀ draw ∈ sampled, ∃ id,
        spin draw r.regionUsedIds (accumulated round r) = .chosen id ∧ r.regions id ≠ none := by
      intro draw hdraw
      obtain ⟨i, hi, hstop⟩ := exists_stopsAt (hreach draw hdraw)
      rw [length_accumulated] at hi
      have hid := List.getElem?_eq_getElem hi
      exact ⟨_, spin_eq_chosen_iff.2 ⟨i, hid, hstop⟩, hreg draw hdraw i _ hstop hid⟩
    refine ⟨fun draws hdraws => ?_, [draw], by simpa using hdraw, ?_⟩
    · cases draws with
      | nil => exact Or.inl (selectRegion_no_draw h htotal)
      | cons draw draws =>
          rw [selectRegion_spin h htotal]
          exact Or.inr (hspin draw (hdraws draw List.mem_cons_self))
    · rw [hone]
      exact hspin draw hdraw

/-- The roulette always ends on a registered region exactly when it can. -/
theorem safe_iff_selectable : Safe round sampled r ↔ Selectable round sampled r := by
  match h : r.regionUsedIds with
  | [] =>
      refine iff_of_false (fun hsafe => ?_) (by simp [Selectable, h])
      obtain ⟨draws, -, id, hchosen, -⟩ := hsafe.chooses
      simp [selectRegion, h] at hchosen
  | [id] =>
      have hsel := selectRegion_singleton round h
      have hiff : Selectable round sampled r ↔ r.regions id ≠ none := by simp [Selectable, h]
      rw [hiff]
      constructor
      · intro hsafe
        obtain ⟨draws, -, id', hchosen, hreg⟩ := hsafe.chooses
        rw [hsel] at hchosen
        obtain rfl : id = id' := by simpa using hchosen
        exact hreg
      · exact fun hreg => ⟨fun draws _ => Or.inr ⟨id, hsel draws, hreg⟩, [], by simp, id, hsel [],
          hreg⟩
  | first :: second :: ids =>
      by_cases htotal : (total round r).isInfinite || (total round r).isNaN
      · rw [selectable_uniform h htotal]
        exact safe_iff_drawable h htotal
      · rw [selectable_spin h htotal]
        exact safe_iff_spinnable h htotal

/-! ## Shares in exact arithmetic -/

section Exact

variable {v : Fin n → K} {w : K}

def shares (v : Fin n → K) (w : K) : K → List (Fin n) → List (JDouble K)
  | _, [] => []
  | a, id :: ids => .fin (v id / w + a) :: shares v w (v id / w + a) ids

omit [CommonsMath K] in
theorem accumulate_eq_shares (hw : w ≠ 0) (wt : Fin n → JDouble K) (a : K) {ids : List (Fin n)}
    (h : ∀ id ∈ ids, wt id = .fin (v id)) :
    accumulate .fin (.fin w) (.fin a) (ids.map wt) = shares v w a ids := by
  induction ids generalizing a with
  | nil => rfl
  | cons id ids ih =>
      have hshare : ((share .fin (.fin w) (wt id)).add (.fin a)).rounded .fin =
          .fin (v id / w + a) := by
        rw [h id List.mem_cons_self]
        simp [share, JDouble.div, hw, JDouble.add]
      rw [List.map_cons, accumulate, hshare, shares,
        ih _ fun id' hid' => h id' (List.mem_cons_of_mem id hid')]

omit [CommonsMath K] in
theorem spin_shares (hw : 0 < w) {draw : Draw K} {ids : List (Fin n)} {a : K}
    (ha : a < draw.value) (htotal : draw.value ≤ a + (ids.map v).sum / w) :
    ∃ id ∈ ids, spin draw ids (shares v w a ids) = .chosen id ∧ 0 < v id := by
  induction ids generalizing a with
  | nil =>
      rw [List.map_nil, List.sum_nil, zero_div, add_zero] at htotal
      exact absurd ha (not_lt.2 htotal)
  | cons id ids ih =>
      by_cases hstop : draw.value ≤ v id / w + a
      · refine ⟨id, List.mem_cons_self, by simp [shares, spin, JDouble.le, hstop], ?_⟩
        have hpos : 0 < v id / w := by linarith
        exact (div_pos_iff_of_pos_right hw).1 hpos
      · have hrest : draw.value ≤ v id / w + a + (ids.map v).sum / w := by
          rw [List.map_cons, List.sum_cons, add_div] at htotal
          linarith
        obtain ⟨id', hid', hspin, hpos⟩ := ih (not_le.1 hstop) hrest
        refine ⟨id', List.mem_cons_of_mem id hid', ?_, hpos⟩
        simpa [shares, spin, JDouble.le, hstop] using hspin

omit [CommonsMath K] in
theorem exists_spin_shares (hw : 0 < w) {ids : List (Fin n)} {a : K} (ha : 0 ≤ a)
    (hv : ∀ id ∈ ids, 0 ≤ v id) (htotal : a + (ids.map v).sum / w ≤ 1) {id : Fin n}
    (hid : id ∈ ids) (hpos : 0 < v id) :
    ∃ draw : Draw K, a < draw.value ∧ spin draw ids (shares v w a ids) = .chosen id := by
  induction ids generalizing a with
  | nil => simp at hid
  | cons head ids ih =>
      rw [List.map_cons, List.sum_cons, add_div] at htotal
      have hshare : 0 ≤ v head / w := div_nonneg (hv head List.mem_cons_self) hw.le
      have hnonneg : 0 ≤ (ids.map v).sum / w := by
        refine div_nonneg (List.sum_nonneg fun x hx => ?_) hw.le
        obtain ⟨id', hid', rfl⟩ := List.mem_map.1 hx
        exact hv id' (List.mem_cons_of_mem head hid')
      by_cases hhead : head = id
      · subst hhead
        have hp : 0 < v head / w := div_pos hpos hw
        refine ⟨⟨a + v head / w / 2, by linarith, by linarith⟩, by simpa using hp, ?_⟩
        have hstop : a + v head / w / 2 ≤ v head / w + a := by linarith
        simp [shares, spin, JDouble.le, hstop]
      · have hid' : id ∈ ids := (List.mem_cons.1 hid).resolve_left fun h => hhead h.symm
        obtain ⟨draw, hdraw, hspin⟩ := ih (a := v head / w + a) (by linarith)
          (fun id' h => hv id' (List.mem_cons_of_mem head h)) (by linarith) hid'
        refine ⟨draw, by linarith, ?_⟩
        simpa [shares, spin, JDouble.le, not_le.2 hdraw] using hspin

omit [CommonsMath K] in
theorem spin_nan (draw : Draw K) (ids : List (Fin n)) {accs : List (JDouble K)}
    (h : ∀ acc ∈ accs, acc = .nan) : spin draw ids accs = .indexOutOfBounds := by
  induction accs generalizing ids with
  | nil => cases ids <;> rfl
  | cons acc accs ih =>
      cases ids with
      | nil => rfl
      | cons id ids =>
          have hle : (JDouble.fin draw.value).le (.nan : JDouble K) = false := rfl
          rw [spin, h acc List.mem_cons_self, hle]
          exact ih ids fun acc' h' => h acc' (List.mem_cons_of_mem acc h')

omit [CommonsMath K] in
theorem accumulate_nan (total : JDouble K) (ws : List (JDouble K)) :
    ∀ acc ∈ accumulate .fin total .nan ws, acc = .nan := by
  induction ws with
  | nil => simp [accumulate]
  | cons w ws ih =>
      intro acc hacc
      have hnan : ((share .fin total w).add .nan).rounded .fin = .nan := by
        cases share .fin total w <;> rfl
      rw [accumulate, hnan] at hacc
      rcases List.mem_cons.1 hacc with rfl | hacc
      · rfl
      · exact ih acc hacc

omit [CommonsMath K] in
theorem add_eq_fin {x y : JDouble K} {z : K} (h : x.add y = .fin z) :
    ∃ a b, x = .fin a ∧ y = .fin b ∧ z = a + b := by
  cases x <;> cases y <;> simp_all [JDouble.add]

omit [CommonsMath K] in
theorem foldl_add_eq_fin {ws : List (JDouble K)} {acc : JDouble K} {w : K}
    (h : ws.foldl JDouble.add acc = .fin w) :
    ∃ (a : K) (xs : List K), acc = .fin a ∧ ws = xs.map JDouble.fin ∧ w = a + xs.sum := by
  induction ws generalizing acc with
  | nil => exact ⟨w, [], h, rfl, by simp⟩
  | cons y ws ih =>
      obtain ⟨b, xs, hadd, rfl, rfl⟩ := ih h
      obtain ⟨a, x, rfl, rfl, rfl⟩ := add_eq_fin hadd
      exact ⟨a, x :: xs, rfl, rfl, by rw [List.sum_cons, add_assoc]⟩

theorem total_fin (r : RegionSelector K n m) :
    total .fin r = (weights .fin r).foldl JDouble.add (.fin 0) := by
  simp [total]

theorem weight_nonNeg (summary : Option (SummaryStatistics K)) :
    (weight .fin summary).NonNeg := by
  unfold weight
  rw [JDouble.rounded_fin]
  refine JDouble.nonNeg_one_div ?_
  cases summary with
  | none => exact le_refl (0 : K)
  | some s =>
      dsimp only
      rw [JDouble.rounded_fin]
      exact JDouble.nonNeg_abs _

def value (r : RegionSelector K n m) (id : Fin n) : K :=
  match weight .fin (r.regionsSummary id) with
  | .fin x => x
  | _ => 0

theorem weights_of_total {w : K} (h : total .fin r = .fin w) :
    (∀ id ∈ r.regionUsedIds,
      weight .fin (r.regionsSummary id) = .fin (r.value id) ∧ 0 ≤ r.value id) ∧
      w = (r.regionUsedIds.map r.value).sum := by
  rw [total_fin] at h
  obtain ⟨a, xs, ha, hxs, hw⟩ := foldl_add_eq_fin h
  obtain rfl : 0 = a := JDouble.fin.inj ha
  have hall : ∀ id ∈ r.regionUsedIds, weight .fin (r.regionsSummary id) = .fin (r.value id) ∧
      0 ≤ r.value id := by
    intro id hid
    have hmem : weight .fin (r.regionsSummary id) ∈ xs.map JDouble.fin := by
      rw [← hxs]
      exact List.mem_map.2 ⟨id, hid, rfl⟩
    obtain ⟨x, -, hx⟩ := List.mem_map.1 hmem
    have hvalue : r.value id = x := by simp [value, ← hx]
    have hnonneg := weight_nonNeg (r.regionsSummary id)
    rw [← hx] at hnonneg ⊢
    exact ⟨by rw [hvalue], by rw [hvalue]; exact hnonneg⟩
  refine ⟨hall, ?_⟩
  have hmap : xs.map JDouble.fin = (r.regionUsedIds.map r.value).map JDouble.fin := by
    rw [← hxs, List.map_map]
    exact List.map_congr_left fun id hid => (hall id hid).1
  have hinj : Function.Injective (JDouble.fin : K → JDouble K) := fun _ _ => JDouble.fin.inj
  rw [hw, zero_add, List.map_injective_iff.2 hinj hmap]

/-- The shares of the used regions, when their weights add up to a positive number. -/
theorem accumulated_shares {w : K} (hw : total .fin r = .fin w) (hne : w ≠ 0) :
    accumulated .fin r = shares r.value w 0 r.regionUsedIds := by
  obtain ⟨hweights, -⟩ := weights_of_total hw
  unfold accumulated weights
  cases hids : r.regionUsedIds with
  | nil => rfl
  | cons id ids =>
      rw [hids] at hweights
      have hfirst : share .fin (.fin w) (weight .fin (r.regionsSummary id)) =
          .fin (r.value id / w + 0) := by
        rw [(hweights id List.mem_cons_self).1]
        simp [share, JDouble.div, hne]
      have hrest := accumulate_eq_shares hne (fun id => weight .fin (r.regionsSummary id))
        (r.value id / w + 0) fun id' h' => (hweights id' (List.mem_cons_of_mem id h')).1
      rw [List.map_cons]
      dsimp only
      rw [hw, hfirst, hrest, shares]

theorem accumulated_nan (hw : total .fin r = .fin 0) :
    ∀ acc ∈ accumulated .fin r, acc = .nan := by
  obtain ⟨hweights, hsum⟩ := weights_of_total hw
  have hzero : ∀ id ∈ r.regionUsedIds, r.value id = 0 := by
    intro id hid
    have hle : r.value id ≤ (r.regionUsedIds.map r.value).sum :=
      List.single_le_sum (fun x hx => by
        obtain ⟨id', hid', rfl⟩ := List.mem_map.1 hx
        exact (hweights id' hid').2) _ (List.mem_map.2 ⟨id, hid, rfl⟩)
    exact le_antisymm (hsum ▸ hle) (hweights id hid).2
  unfold accumulated weights
  cases hids : r.regionUsedIds with
  | nil => simp
  | cons id ids =>
      have hfirst : share .fin (.fin 0) (weight .fin (r.regionsSummary id)) = .nan := by
        have hid : id ∈ r.regionUsedIds := by rw [hids]; exact List.mem_cons_self
        rw [(hweights id hid).1, hzero id hid]
        simp [share, JDouble.div]
      intro acc hacc
      rw [List.map_cons] at hacc
      dsimp only at hacc
      rw [hw, hfirst] at hacc
      rcases List.mem_cons.1 hacc with rfl | hacc
      · rfl
      · exact accumulate_nan _ _ acc hacc

theorem spin_zero {w : K} (hw : 0 < w) (hv : 0 ≤ r.value first) :
    spin ⟨0, le_refl 0, zero_lt_one⟩ (first :: ids) (shares r.value w 0 (first :: ids)) =
      .chosen first := by
  have hle : (0 : K) ≤ r.value first / w + 0 := by
    rw [add_zero]
    exact div_nonneg hv hw.le
  simp only [shares, spin, JDouble.le, hle, decide_true, if_true]

omit [CommonsMath K] in
theorem position_lt (draw : Draw K) {size : ℕ} (h : 0 < size) :
    position .fin draw size < size := by
  have hcast : (0 : K) < size := Nat.cast_pos.2 h
  have hlt : draw.value * size < (size : ℤ) := by
    calc draw.value * size < 1 * size := mul_lt_mul_of_pos_right draw.lt_one hcast
      _ = (size : ℤ) := by simp
  have hfloor := Int.floor_lt.2 hlt
  unfold position
  dsimp only
  omega

omit [CommonsMath K] in
theorem position_div {size i : ℕ} (h : i < size) :
    ∃ draw : Draw K, position .fin draw size = i := by
  have hcast : (0 : K) < size := Nat.cast_pos.2 (Nat.zero_lt_of_lt h)
  refine ⟨⟨(i : K) / size, div_nonneg (Nat.cast_nonneg i) hcast.le, ?_⟩, ?_⟩
  · rw [div_lt_one hcast]
    exact_mod_cast h
  · simp [position, div_mul_cancel₀ (i : K) hcast.ne']

/-! ## Safe roulettes in exact arithmetic -/

omit [CommonsMath K] in
theorem drawable_exact_iff (hne : r.regionUsedIds ≠ []) :
    Drawable .fin Set.univ r ↔ ∃ id ∈ r.regionUsedIds, r.regions id ≠ none := by
  have hpos : 0 < r.regionUsedIds.length := List.length_pos_iff.2 hne
  constructor
  · rintro ⟨-, draw, -, id, hid, hreg⟩
    exact ⟨id, List.mem_of_getElem? hid, hreg⟩
  · rintro ⟨id, hid, hreg⟩
    obtain ⟨i, hi, rfl⟩ := List.getElem_of_mem hid
    obtain ⟨draw, hdraw⟩ := position_div (K := K) hi
    refine ⟨fun draw _ => position_lt draw hpos, draw, Set.mem_univ draw, _, ?_, hreg⟩
    rw [hdraw, List.getElem?_eq_getElem hi]

theorem Safe.registered {round : K → JDouble K} (hsafe : Safe round Set.univ r)
    {draws : List (Draw K)} {id : Fin n} (hchosen : selectRegion round r draws = .chosen id) :
    r.regions id ≠ none := by
  rcases hsafe.ends draws (fun draw _ => Set.mem_univ draw) with hex | ⟨id', hid', hreg⟩
  · rw [hex] at hchosen
    simp at hchosen
  · rw [hchosen] at hid'
    obtain rfl : id = id' := by simpa using hid'
    exact hreg

section Weights

variable (h : r.regionUsedIds = first :: second :: ids)
  (htotal : ¬((total .fin r).isInfinite || (total .fin r).isNaN))

include h htotal

/-- Without any weight the shares are no numbers. -/
theorem not_safe_of_total_zero (hzero : total .fin r = .fin 0) : ¬Safe .fin Set.univ r := by
  intro hsafe
  obtain ⟨draws, -, id, hchosen, -⟩ := hsafe.chooses
  cases draws with
  | nil => simp [selectRegion_no_draw h htotal] at hchosen
  | cons draw draws =>
      rw [selectRegion_spin h htotal, spin_nan draw _ (accumulated_nan hzero)] at hchosen
      simp at hchosen

variable {w : K} (hw : total .fin r = .fin w) (hpos : 0 < w)

include hw hpos

theorem selectRegion_zero (draws : List (Draw K)) :
    selectRegion .fin r (⟨0, le_refl 0, zero_lt_one⟩ :: draws) = .chosen first := by
  have hfirst : first ∈ r.regionUsedIds := by
    rw [h]
    exact List.mem_cons_self
  rw [selectRegion_spin h htotal, accumulated_shares hw hpos.ne', h]
  exact spin_zero hpos ((weights_of_total hw).1 first hfirst).2

theorem selectRegion_positive {draw : Draw K} (hdraw : 0 < draw.value) (draws : List (Draw K)) :
    ∃ id ∈ r.regionUsedIds, selectRegion .fin r (draw :: draws) = .chosen id ∧
      weight .fin (r.regionsSummary id) ≠ .fin 0 := by
  obtain ⟨hweights, hsum⟩ := weights_of_total hw
  have htot : (r.regionUsedIds.map r.value).sum / w = 1 := by rw [← hsum, div_self hpos.ne']
  obtain ⟨id, hid, hspin, hvalue⟩ := spin_shares hpos hdraw
    (by rw [htot, zero_add]; exact draw.lt_one.le)
  refine ⟨id, hid, ?_, ?_⟩
  · rw [selectRegion_spin h htotal, accumulated_shares hw hpos.ne', hspin]
  · rw [(hweights id hid).1]
    exact fun hfin => hvalue.ne' (JDouble.fin.inj hfin)

theorem exists_draw_of_weight {id : Fin n} (hid : id ∈ r.regionUsedIds)
    (hweight : weight .fin (r.regionsSummary id) ≠ .fin 0) :
    ∃ draw, selectRegion .fin r [draw] = .chosen id := by
  obtain ⟨hweights, hsum⟩ := weights_of_total hw
  have htot : (r.regionUsedIds.map r.value).sum / w = 1 := by rw [← hsum, div_self hpos.ne']
  have hvalue : 0 < r.value id := by
    refine lt_of_le_of_ne (hweights id hid).2 fun hnull => hweight ?_
    rw [(hweights id hid).1, ← hnull]
  obtain ⟨draw, -, hspin⟩ := exists_spin_shares hpos le_rfl (fun id hid => (hweights id hid).2)
    (by rw [htot, zero_add]) hid hvalue
  exact ⟨draw, by rw [selectRegion_spin h htotal, accumulated_shares hw hpos.ne', hspin]⟩

end Weights

/-- The first region stops the draw of zero, and every region with weight some draw. -/
theorem safe_exact_iff (h : r.regionUsedIds = first :: second :: ids)
    (htotal : ¬((total .fin r).isInfinite || (total .fin r).isNaN)) :
    Safe .fin Set.univ r ↔ total .fin r ≠ .fin 0 ∧ r.regions first ≠ none ∧
      ∀ id ∈ r.regionUsedIds, weight .fin (r.regionsSummary id) ≠ .fin 0 →
        r.regions id ≠ none := by
  by_cases hzero : total .fin r = .fin 0
  · exact iff_of_false (not_safe_of_total_zero h htotal hzero) fun hsel => hsel.1 hzero
  obtain ⟨w, hw⟩ : ∃ w, total .fin r = .fin w := by
    cases htot : total .fin r <;> simp_all [JDouble.isInfinite, JDouble.isNaN]
  obtain ⟨hweights, hsum⟩ := weights_of_total hw
  have hpos : 0 < w := by
    refine lt_of_le_of_ne ?_ fun hnull => hzero (hnull ▸ hw)
    rw [hsum]
    refine List.sum_nonneg fun x hx => ?_
    obtain ⟨id, hid, rfl⟩ := List.mem_map.1 hx
    exact (hweights id hid).2
  constructor
  · intro hsafe
    refine ⟨hzero, hsafe.registered (selectRegion_zero h htotal hw hpos []), fun id hid hweight =>
      ?_⟩
    obtain ⟨draw, hchosen⟩ := exists_draw_of_weight h htotal hw hpos hid hweight
    exact hsafe.registered hchosen
  · rintro ⟨-, hreg, hall⟩
    refine ⟨fun draws _ => ?_, _, fun draw _ => Set.mem_univ draw, first,
      selectRegion_zero h htotal hw hpos [], hreg⟩
    cases draws with
    | nil => exact Or.inl (selectRegion_no_draw h htotal)
    | cons draw draws =>
        refine Or.inr ?_
        rcases draw.nonneg.lt_or_eq with hlt | hzeroValue
        · obtain ⟨id, hid, hchosen, hweight⟩ :=
            selectRegion_positive h htotal hw hpos hlt draws
          exact ⟨id, hchosen, hall id hid hweight⟩
        · have hdraw : draw = ⟨0, le_refl 0, zero_lt_one⟩ := by
            cases draw
            simp only [Draw.mk.injEq]
            exact hzeroValue.symm
          rw [hdraw]
          exact ⟨first, selectRegion_zero h htotal hw hpos draws, hreg⟩

end Exact

end RegionSelector

end DOptimas.Util
