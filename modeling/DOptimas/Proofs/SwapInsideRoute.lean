import DOptimas.Heuristics.RouteMotions
import DOptimas.Proofs.RouteConstruction
/-!
# Swaps inside one route

The borders of the routes are the positions of the depots between two sentinels.
Between two neighbouring borders there are clients only, and at least one of
them, so that a plan with a second route offers every pair of clients of one
route.  With a single route the first border is counted twice, and the first
client stays where it is.
-/

namespace DOptimas.Proofs.SwapInsideRoute

open DOptimas.Support DOptimas.Heuristics
open DOptimas.Heuristics.VehicleRoutingTimeWindowProblem (element depot getCity vrtwCandidatesList)
open DOptimas.Heuristics.VRTWSwapInsideRouteSolutionModifier
open DOptimas.Proofs.RouteConstruction (Bears Constructs Stage WellFormed)

/-! ## Borders -/

section Borders

variable {n : ℕ} {placed : List (Fin (n + 1))} {routes : List ℤ}

def Client (placed : List (Fin (n + 1))) (k : ℕ) : Prop :=
  k < placed.length ∧ placed[k]? ≠ some home

def SameRoute (placed : List (Fin (n + 1))) (i j : ℕ) : Prop :=
  ∀ k, min i j ≤ k → k ≤ max i j → Client placed k

def Several (placed : List (Fin (n + 1))) : Prop :=
  ∃ k, placed[k]? = some home ∧ k + 1 < placed.length

inductive Border (placed : List (Fin (n + 1))) : ℤ → Prop where
  | start : Border placed (-1)
  | depot (k : ℕ) (h : placed[k]? = some home) : Border placed k
  | behind (h : placed.getLast? ≠ some home) : Border placed placed.length

theorem Border.range {x : ℤ} (h : Border placed x) : -1 ≤ x ∧ x ≤ placed.length := by
  cases h with
  | start => omega
  | depot k h =>
      obtain ⟨hlt, -⟩ := List.getElem?_eq_some_iff.1 h
      omega
  | behind => omega

theorem Client.not_border {k : ℕ} (h : Client placed k) : ¬Border placed k := by
  obtain ⟨hlt, hclient⟩ := h
  intro hborder
  generalize hx : (k : ℤ) = x at hborder
  cases hborder with
  | start => omega
  | depot k' h =>
      have heq : k = k' := by omega
      exact hclient (heq ▸ h)
  | behind => omega

theorem Client.border_behind {k : ℕ} (h : Client placed k) :
    ∃ x, Border placed x ∧ (k : ℤ) < x := by
  obtain ⟨hlt, hclient⟩ := h
  by_cases hlast : placed.getLast? = some home
  · rw [List.getLast?_eq_getElem?] at hlast
    have hne : k ≠ placed.length - 1 := by
      intro heq
      exact hclient (heq ▸ hlast)
    exact ⟨(placed.length - 1 : ℕ), .depot _ hlast, by omega⟩
  · exact ⟨placed.length, .behind hlast, by omega⟩

theorem client_of_not_border {k : ℕ} (hlt : k < placed.length) (h : ¬Border placed k) :
    Client placed k := ⟨hlt, fun hdepot => h (.depot k hdepot)⟩

structure Lists (placed : List (Fin (n + 1))) (routes : List ℤ) : Prop where
  ordered : routes.Pairwise (· < ·)
  complete : ∀ x, x ∈ routes ↔ Border placed x

/-- What a motion needs of a plan, and keeps. -/
structure Plan (placed : List (Fin (n + 1))) : Prop where
  starts : placed[0]? ≠ some home
  apart : ∀ i : ℕ, ¬(placed[i]? = some home ∧ placed[i + 1]? = some home)
  short : placed.length < 2 * n
  pair : ∃ i j, i ≠ j ∧ SameRoute placed i j

theorem Plan.first_pair (h : Plan placed) (hsingle : ¬Several placed) : SameRoute placed 0 1 := by
  obtain ⟨i, j, hne, hroute⟩ := h.pair
  obtain ⟨hlt, hlast⟩ := hroute (max i j) (by omega) le_rfl
  intro k _ hk
  refine ⟨by omega, fun hdepot => ?_⟩
  by_cases hnext : k + 1 < placed.length
  · exact hsingle ⟨k, hdepot, hnext⟩
  · have heq : max i j = k := by omega
    exact hlast (heq ▸ hdepot)

/-- Two indexes with clients only behind the first and up to the second. -/
structure Route (placed : List (Fin (n + 1))) (indexes : ℤ × ℤ) : Prop where
  begins : -1 ≤ indexes.1
  nonempty : indexes.1 < indexes.2
  clients : ∀ k : ℕ, indexes.1 < k → (k : ℤ) ≤ indexes.2 → Client placed k

theorem Plan.ne_nil (h : Plan placed) : placed ≠ [] := by
  obtain ⟨i, j, -, hroute⟩ := h.pair
  obtain ⟨hlt, -⟩ := hroute i (by omega) (by omega)
  exact List.ne_nil_of_length_pos (by omega)

namespace Lists

theorem lt (h : Lists placed routes) {t u : ℕ} (htu : t < u) (hu : u < routes.length) :
    routes[t] < routes[u] :=
  List.pairwise_iff_getElem.1 h.ordered t u (by omega) hu htu

theorem border (h : Lists placed routes) {t : ℕ} (ht : t < routes.length) :
    Border placed routes[t] := (h.complete _).1 (List.getElem_mem ht)

theorem length_pos (h : Lists placed routes) : 0 < routes.length :=
  List.length_pos_of_mem ((h.complete (-1)).2 .start)

theorem first (h : Lists placed routes) (hpos : 0 < routes.length) : routes[0] = -1 := by
  obtain ⟨u, hu, heq⟩ := List.mem_iff_getElem.1 ((h.complete (-1)).2 .start)
  have hrange := (h.border hpos).range
  rcases Nat.eq_zero_or_pos u with hzero | hlater
  · subst hzero
    exact heq
  · have hlt := h.lt hlater hu
    omega

theorem not_between (h : Lists placed routes) {t : ℕ} (ht : t + 1 < routes.length) {x : ℤ}
    (hlow : routes[t] < x) (hhigh : x < routes[t + 1]) : ¬Border placed x := by
  intro hx
  obtain ⟨u, hu, heq⟩ := List.mem_iff_getElem.1 ((h.complete x).2 hx)
  rcases Nat.lt_trichotomy u t with hlt | heq' | hgt
  · have := h.lt hlt (by omega)
    omega
  · subst heq'
    omega
  · rcases Nat.eq_or_lt_of_le (show t + 1 ≤ u from hgt) with heq' | hlt
    · subst heq'
      omega
    · have := h.lt hlt hu
      omega

theorem gap (h : Lists placed routes) (hplan : Plan placed) {t : ℕ} (ht : t + 1 < routes.length) :
    routes[t] + 1 < routes[t + 1] := by
  have hlt := h.lt (show t < t + 1 by omega) ht
  by_contra hnot
  have hnext : routes[t + 1] = routes[t] + 1 := by omega
  have hleft := h.border (show t < routes.length by omega)
  have hright := h.border ht
  rw [hnext] at hright
  have hpos := List.length_pos_of_ne_nil hplan.ne_nil
  generalize routes[t] = a at hleft hright
  generalize hb : a + 1 = b at hright
  cases hleft with
  | start =>
      cases hright with
      | start => omega
      | depot k' hk' =>
          have hzero : k' = 0 := by omega
          exact hplan.starts (hzero ▸ hk')
      | behind => omega
  | depot k hk =>
      cases hright with
      | start => omega
      | depot k' hk' =>
          have hsucc : k' = k + 1 := by omega
          exact hplan.apart k ⟨hk, hsucc ▸ hk'⟩
      | behind hlast =>
          have hpred : placed.length - 1 = k := by omega
          rw [List.getLast?_eq_getElem?, hpred] at hlast
          exact hlast hk
  | behind =>
      have hrange := hright.range
      omega

theorem route (h : Lists placed routes) (hplan : Plan placed) {t : ℕ}
    (ht : t + 1 < routes.length) : Route placed (routes[t], routes[t + 1] - 1) := by
  have hgap := h.gap hplan ht
  have hleft := (h.border (show t < routes.length by omega)).range
  have hright := (h.border ht).range
  refine ⟨hleft.1, by dsimp only; omega, fun k hlow hhigh => ?_⟩
  dsimp only at hlow hhigh
  exact client_of_not_border (by omega) (h.not_between ht hlow (by omega))

/-- Two positions of one route lie between two neighbours. -/
theorem exists_route (h : Lists placed routes) {i j : ℕ} (hroute : SameRoute placed i j) :
    ∃ t, ∃ ht : t + 1 < routes.length, routes[t] < min i j ∧ (max i j : ℕ) < routes[t + 1] := by
  have hclient : Client placed (min i j) := hroute _ le_rfl (by omega)
  obtain ⟨x, hx, hlt⟩ := hclient.border_behind
  have hu : routes.findIdx (fun y => ((min i j : ℕ) : ℤ) < y) < routes.length :=
    List.findIdx_lt_length_of_exists ⟨x, (h.complete x).2 hx, by simpa using hlt⟩
  have hfound := List.findIdx_getElem (w := hu)
  generalize hdef : routes.findIdx (fun y => ((min i j : ℕ) : ℤ) < y) = u at hu hfound
  have hpos : u ≠ 0 := by
    intro hzero
    subst hzero
    rw [h.first hu] at hfound
    simp at hfound
    omega
  obtain ⟨t, rfl⟩ := Nat.exists_eq_succ_of_ne_zero hpos
  refine ⟨t, hu, ?_, ?_⟩
  · have hbefore := @List.not_of_lt_findIdx _ (fun y => ((min i j : ℕ) : ℤ) < y) routes t
      (by omega)
    have hne : routes[t] ≠ ((min i j : ℕ) : ℤ) := by
      intro heq
      have hborder := h.border (show t < routes.length by omega)
      rw [heq] at hborder
      exact hclient.not_border hborder
    simp at hbefore
    omega
  · by_contra hnot
    have hborder := h.border hu
    have hrange : ((min i j : ℕ) : ℤ) < routes[t + 1] := by simpa using hfound
    have hinside : Client placed (routes[t + 1]).toNat := hroute _ (by omega) (by omega)
    have hcast : ((routes[t + 1]).toNat : ℤ) = routes[t + 1] := Int.toNat_of_nonneg (by omega)
    apply hinside.not_border
    rw [hcast]
    exact hborder

theorem two_lt_length_of_several (h : Lists placed routes) (hseveral : Several placed) :
    2 < routes.length := by
  obtain ⟨k, hk, hlt⟩ := hseveral
  have hthird : ∃ x, Border placed x ∧ (k : ℤ) < x := by
    by_cases hlast : placed.getLast? = some home
    · rw [List.getLast?_eq_getElem?] at hlast
      exact ⟨(placed.length - 1 : ℕ), .depot _ hlast, by omega⟩
    · exact ⟨placed.length, .behind hlast, by omega⟩
  obtain ⟨x, hx, hkx⟩ := hthird
  have hsubset : [-1, (k : ℤ), x] ⊆ routes := by
    intro y hy
    simp only [List.mem_cons, List.not_mem_nil, or_false] at hy
    apply (h.complete y).2
    rcases hy with rfl | rfl | rfl
    · exact .start
    · exact .depot k hk
    · exact hx
  have hnodup : [-1, (k : ℤ), x].Nodup := by
    simp
    omega
  exact (List.subperm_of_subset hnodup hsubset).length_le

theorem length_le_of_not_several (h : Lists placed routes) (hplan : Plan placed)
    (hsingle : ¬Several placed) : routes.length ≤ 2 := by
  have hpos := List.length_pos_of_ne_nil hplan.ne_nil
  have hlast : ∀ k : ℕ, placed[k]? = some home → k = placed.length - 1 := by
    intro k hk
    obtain ⟨hlt, -⟩ := List.getElem?_eq_some_iff.1 hk
    by_contra hne
    exact hsingle ⟨k, hk, by omega⟩
  have hsubset : ∃ last, routes ⊆ [-1, last] := by
    by_cases hends : placed.getLast? = some home
    · refine ⟨(placed.length - 1 : ℕ), fun x hx => ?_⟩
      cases (h.complete x).1 hx with
      | start => simp
      | depot k hk =>
          have heq := hlast k hk
          simp [heq]
      | behind hnot => exact absurd hends hnot
    · refine ⟨placed.length, fun x hx => ?_⟩
      cases (h.complete x).1 hx with
      | start => simp
      | depot k hk =>
          rw [List.getLast?_eq_getElem?, ← hlast k hk] at hends
          exact absurd hk hends
      | behind => simp
  obtain ⟨last, hsubset⟩ := hsubset
  have hnodup : routes.Nodup := h.ordered.imp fun hlt => hlt.ne
  exact (List.subperm_of_subset hnodup hsubset).length_le

end Lists

end Borders

/-! ## The list of borders -/

section Listing

variable {K : Type} [RealArith K] {n : ℕ} {placed : List (Fin (n + 1))}

omit [RealArith K] in
theorem depotsFrom_map (placed : List (Fin (n + 1))) (i : ℤ) :
    ∃ depots, depotsFrom (K := K) i (placed.map element) = .ok depots ∧
      depots.Pairwise (· < ·) ∧
      ∀ x, x ∈ depots ↔ ∃ k : ℕ, x = i + k ∧ placed[k]? = some home := by
  induction placed generalizing i with
  | nil => exact ⟨[], rfl, .nil, by simp⟩
  | cons c rest ih =>
      obtain ⟨depots, hdepots, hordered, hmem⟩ := ih (i + 1)
      have hrest : ∀ x, (∃ k : ℕ, x = i + k ∧ (c :: rest)[k]? = some home) ↔
          (x = i ∧ c = home) ∨ x ∈ depots := by
        intro x
        rw [hmem]
        constructor
        · rintro ⟨k, hx, hk⟩
          cases k with
          | zero => exact Or.inl ⟨by omega, by simpa using hk⟩
          | succ k => exact Or.inr ⟨k, by omega, by simpa using hk⟩
        · rintro (⟨hx, hc⟩ | ⟨k, hx, hk⟩)
          · exact ⟨0, by omega, by simpa using hc⟩
          · exact ⟨k + 1, by omega, by simpa using hk⟩
      have heq : depotsFrom (K := K) i ((c :: rest).map element) =
          .ok (if ((c : ℕ) : ℤ) = 0 then i :: depots else depots) := by
        simp only [List.map_cons, element, depotsFrom, getCity, hdepots]
        rfl
      refine ⟨_, heq, ?_, fun x => ?_⟩
      · split
        next =>
          refine List.pairwise_cons.2 ⟨fun x hx => ?_, hordered⟩
          obtain ⟨k, hx, -⟩ := (hmem x).1 hx
          omega
        next => exact hordered
      · rw [hrest]
        by_cases hc : c = home
        · subst hc
          simp
        · simp [hc]

omit [RealArith K] in
theorem element_eq_depot (c : Fin (n + 1)) : element (K := K) c = some depot ↔ c = home := by
  unfold element depot
  rw [Option.some.injEq, Element.vehicleRoutingTimeWindow.injEq]
  constructor
  · intro h
    exact Fin.ext (by simpa using h)
  · rintro rfl
    rfl

theorem lastIndexOf_append_singleton {α : Type} [DecidableEq α] (x y : α) (xs : List α) :
    lastIndexOf x (xs ++ [y]) = ((xs ++ [y]).length : ℤ) - 1 ↔ y = x := by
  unfold lastIndexOf
  rw [List.reverse_append, List.reverse_singleton, List.singleton_append, List.idxOf_cons]
  by_cases heq : y = x
  · simp [heq]
  · have hfalse : (y == x) = false := by simpa using heq
    rw [hfalse, List.length_append, List.length_singleton]
    simp only [cond_false, heq, iff_false]
    omega

/-- The last depot is the last element of a plan that ends at a depot. -/
theorem lastIndexOf_map (hne : placed ≠ []) :
    lastIndexOf (some (depot : Element K)) (placed.map element) =
        ((placed.map (element (K := K))).length : ℤ) - 1 ↔
      placed.getLast? = some home := by
  obtain ⟨front, last, rfl⟩ := List.eq_nil_or_concat placed |>.resolve_left hne
  rw [List.concat_eq_append, List.getLast?_concat, Option.some.injEq, List.map_append,
    List.map_singleton, lastIndexOf_append_singleton, element_eq_depot]

theorem getRoutes_map (hne : placed ≠ []) :
    ∃ routes, getRoutes (placed.map (element (K := K))) = .ok routes ∧ Lists placed routes := by
  obtain ⟨depots, hdepots, hordered, hmem⟩ := depotsFrom_map (K := K) placed 0
  have hnatural : ∀ x, x ∈ depots ↔ ∃ k : ℕ, x = k ∧ placed[k]? = some home := by
    intro x
    simpa using hmem x
  have hstart : ((-1) :: depots).Pairwise (· < ·) := by
    refine List.pairwise_cons.2 ⟨fun x hx => ?_, hordered⟩
    obtain ⟨k, rfl, -⟩ := (hnatural x).1 hx
    omega
  unfold getRoutes
  rw [hdepots]
  by_cases hlast : placed.getLast? = some home
  · refine ⟨-1 :: depots, ?_, hstart, fun x => ?_⟩
    · show Except.ok (if _ then _ else _) = _
      rw [if_neg (not_not.2 ((lastIndexOf_map hne).2 hlast))]
    · rw [List.mem_cons, hnatural]
      constructor
      · rintro (rfl | ⟨k, rfl, hk⟩)
        · exact .start
        · exact .depot k hk
      · intro hborder
        cases hborder with
        | start => exact Or.inl rfl
        | depot k hk => exact Or.inr ⟨k, rfl, hk⟩
        | behind hnot => exact absurd hlast hnot
  · refine ⟨(-1 :: depots) ++ [(placed.length : ℤ)], ?_, ?_, fun x => ?_⟩
    · show Except.ok (if _ then _ else _) = _
      rw [if_pos fun h => hlast ((lastIndexOf_map hne).1 h), List.length_map]
    · refine List.pairwise_append.2 ⟨hstart, List.pairwise_singleton _ _, fun x hx y hy => ?_⟩
      rw [List.mem_singleton.1 hy]
      rcases List.mem_cons.1 hx with rfl | hx
      · omega
      · obtain ⟨k, rfl, hk⟩ := (hnatural x).1 hx
        obtain ⟨hlt, -⟩ := List.getElem?_eq_some_iff.1 hk
        omega
    · rw [List.mem_append, List.mem_cons, List.mem_singleton, hnatural]
      constructor
      · rintro ((rfl | ⟨k, rfl, hk⟩) | rfl)
        · exact .start
        · exact .depot k hk
        · exact .behind hlast
      · intro hborder
        cases hborder with
        | start => exact Or.inl (Or.inl rfl)
        | depot k hk => exact Or.inl (Or.inr ⟨k, rfl, hk⟩)
        | behind => exact Or.inr rfl

end Listing

/-! ## What a swap keeps -/

section Swaps

variable {n : ℕ} {placed placed' placed'' : List (Fin (n + 1))} {i j : ℕ}

/-- The same depots, and in every route the same clients. -/
structure Rearranged (placed placed' : List (Fin (n + 1))) : Prop where
  length : placed'.length = placed.length
  depots : ∀ k : ℕ, placed'[k]? = some home ↔ placed[k]? = some home
  routes : List.Forall₂ List.Perm (placed.splitOn home) (placed'.splitOn home)

theorem Rearranged.refl (placed : List (Fin (n + 1))) : Rearranged placed placed :=
  ⟨rfl, fun _ => Iff.rfl, List.forall₂_same.2 fun route _ => List.Perm.refl route⟩

theorem forall₂_perm_trans {α : Type} {xs ys zs : List (List α)}
    (h : List.Forall₂ List.Perm xs ys) (h' : List.Forall₂ List.Perm ys zs) :
    List.Forall₂ List.Perm xs zs := by
  induction h generalizing zs with
  | nil => exact h'
  | cons hxy _ ih =>
      cases h' with
      | cons hyz hrest => exact .cons (hxy.trans hyz) (ih hrest)

theorem Rearranged.trans (h : Rearranged placed placed') (h' : Rearranged placed' placed'') :
    Rearranged placed placed'' :=
  ⟨h'.length.trans h.length, fun k => (h'.depots k).trans (h.depots k),
    forall₂_perm_trans h.routes h'.routes⟩

theorem Rearranged.client_iff (h : Rearranged placed placed') {k : ℕ} :
    Client placed' k ↔ Client placed k := by
  unfold Client
  rw [h.length, ne_eq, h.depots]

theorem Rearranged.sameRoute_iff (h : Rearranged placed placed') :
    SameRoute placed' i j ↔ SameRoute placed i j := by
  unfold SameRoute
  simp only [h.client_iff]

theorem Rearranged.plan (h : Rearranged placed placed') (hplan : Plan placed) : Plan placed' := by
  refine ⟨fun hzero => hplan.starts ((h.depots 0).1 hzero), ?_, ?_, ?_⟩
  · rintro i ⟨hi, hnext⟩
    exact hplan.apart i ⟨(h.depots i).1 hi, (h.depots (i + 1)).1 hnext⟩
  · rw [h.length]
    exact hplan.short
  · obtain ⟨i, j, hne, hroute⟩ := hplan.pair
    exact ⟨i, j, hne, h.sameRoute_iff.2 hroute⟩

theorem Rearranged.several_iff (h : Rearranged placed placed') :
    Several placed' ↔ Several placed := by
  unfold Several
  rw [h.length]
  simp only [h.depots]

theorem splitOn_append (segment rest : List (Fin (n + 1))) (hclients : ∀ c ∈ segment, c ≠ home) :
    (segment ++ rest).splitOn home = (rest.splitOn home).modifyHead (segment ++ ·) := by
  induction segment with
  | nil =>
      rw [List.nil_append]
      cases rest.splitOn home with
      | nil => rfl
      | cons route routes => rfl
  | cons c segment ih =>
      have hc : (c == home) = false := by simpa using hclients c List.mem_cons_self
      rw [List.cons_append, List.splitOn_cons_eq_if_modifyHead, hc,
        ih fun d hd => hclients d (List.mem_cons_of_mem c hd), if_neg Bool.false_ne_true]
      cases rest.splitOn home with
      | nil => rfl
      | cons route routes => rfl

theorem splitOn_perm (front segment segment' rest : List (Fin (n + 1)))
    (hperm : segment.Perm segment') (hclients : ∀ c ∈ segment, c ≠ home) :
    List.Forall₂ List.Perm ((front ++ (segment ++ rest)).splitOn home)
      ((front ++ (segment' ++ rest)).splitOn home) := by
  induction front with
  | nil =>
      have hclients' : ∀ c ∈ segment', c ≠ home := fun c hc => hclients c (hperm.mem_iff.2 hc)
      rw [List.nil_append, List.nil_append, splitOn_append segment rest hclients,
        splitOn_append segment' rest hclients']
      cases rest.splitOn home with
      | nil => exact .nil
      | cons route routes =>
          exact .cons (hperm.append_right route)
            (List.forall₂_same.2 fun route _ => List.Perm.refl route)
  | cons c front ih =>
      rw [List.cons_append, List.cons_append, List.splitOn_cons_eq_if_modifyHead,
        List.splitOn_cons_eq_if_modifyHead]
      generalize (front ++ (segment ++ rest)).splitOn home = routes at ih
      generalize (front ++ (segment' ++ rest)).splitOn home = routes' at ih
      split
      · exact .cons (List.Perm.refl []) ih
      · cases ih with
        | nil => exact .nil
        | cons hroute hroutes => exact .cons (hroute.cons c) hroutes

def swapped (placed : List (Fin (n + 1))) (i j : ℕ) (hi : i < placed.length)
    (hj : j < placed.length) : List (Fin (n + 1)) :=
  (placed.set i placed[j]).set j placed[i]

theorem swapped_append (front segment rest : List (Fin (n + 1))) (i j : ℕ)
    (hi : i < segment.length) (hj : j < segment.length) :
    swapped (front ++ (segment ++ rest)) (front.length + i) (front.length + j)
        (by simp; omega) (by simp; omega) =
      front ++ (swapped segment i j hi hj ++ rest) := by
  unfold swapped
  simp only [List.getElem_append_right (Nat.le_add_right _ _), Nat.add_sub_cancel_left,
    List.getElem_append_left hi, List.getElem_append_left hj,
    List.set_append_right _ _ (Nat.le_add_right _ _)]
  rw [List.set_append_left _ _ hi, List.set_append_left _ _ (by simpa using hj)]

theorem SameRoute.split (h : SameRoute placed i j) : ∃ front segment rest i' j',
    placed = front ++ (segment ++ rest) ∧ i = front.length + i' ∧ j = front.length + j' ∧
      i' < segment.length ∧ j' < segment.length ∧ ∀ c ∈ segment, c ≠ home := by
  obtain ⟨hhigh, -⟩ := h (max i j) (by omega) le_rfl
  refine ⟨placed.take (min i j), (placed.drop (min i j)).take (max i j - min i j + 1),
    (placed.drop (min i j)).drop (max i j - min i j + 1), i - min i j, j - min i j, ?_, ?_, ?_,
    ?_, ?_, fun c hc hhome => ?_⟩
  · rw [List.take_append_drop, List.take_append_drop]
  · rw [List.length_take]
    omega
  · rw [List.length_take]
    omega
  · rw [List.length_take, List.length_drop]
    omega
  · rw [List.length_take, List.length_drop]
    omega
  · obtain ⟨k, hk, heq⟩ := List.mem_iff_getElem.1 hc
    rw [List.length_take, List.length_drop] at hk
    rw [List.getElem_take, List.getElem_drop] at heq
    obtain ⟨hlt, hclient⟩ := h (min i j + k) (by omega) (by omega)
    rw [List.getElem?_eq_getElem hlt, heq, hhome] at hclient
    exact hclient rfl

theorem rearranged_swapped (hi : i < placed.length) (hj : j < placed.length)
    (h : SameRoute placed i j) : Rearranged placed (swapped placed i j hi hj) := by
  obtain ⟨-, hfirst⟩ := h i (by omega) (by omega)
  obtain ⟨-, hsecond⟩ := h j (by omega) (by omega)
  refine ⟨by simp [swapped], fun k => ?_, ?_⟩
  · unfold swapped
    by_cases hkj : j = k
    · subst hkj
      rw [List.getElem?_set_self (by simpa using hj), ← List.getElem?_eq_getElem hi]
      exact iff_of_false hfirst hsecond
    · rw [List.getElem?_set_ne hkj]
      by_cases hki : i = k
      · subst hki
        rw [List.getElem?_set_self hi, ← List.getElem?_eq_getElem hj]
        exact iff_of_false hsecond hfirst
      · rw [List.getElem?_set_ne hki]
  · obtain ⟨front, segment, rest, i', j', rfl, rfl, rfl, hi', hj', hclients⟩ := h.split
    rw [swapped_append front segment rest i' j' hi' hj']
    exact splitOn_perm front segment _ rest (List.set_set_perm hi' hj').symm hclients

end Swaps

/-! ## The draws -/

section Draws

variable {K : Type} [RealArith K] {p : VehicleRoutingTimeWindowProblem K} {infinity : K}
  {placed : List (Fin (p.clients + 1))} {routes : List ℤ} {modified : Ref} {w : World K}

theorem drawRoute_eq (h : 2 ≤ routes.length) :
    ∃ t, ∃ ht : t + 1 < routes.length, t = w.choices 0 % (routes.length - 1) ∧
      drawRoute routes w = .ok (routes[t], routes[t + 1] - 1)
        { w with choices := fun n => w.choices (n + 1) } := by
  have hlt : w.choices 0 % (routes.length - 1) < routes.length - 1 :=
    Nat.mod_lt _ (by omega)
  refine ⟨w.choices 0 % (routes.length - 1), by omega, rfl, ?_⟩
  have hindex : (0 : ℤ) + (w.choices 0 : ℤ) % ((routes.length : ℤ) - 2 - 0 + 1) =
      ((w.choices 0 % (routes.length - 1) : ℕ) : ℤ) := by
    have hcast : (routes.length : ℤ) - 2 - 0 + 1 = ((routes.length - 1 : ℕ) : ℤ) := by omega
    rw [hcast, zero_add]
    rfl
  unfold drawRoute
  rw [bind_of_ok (nextInt_eq (by omega)), hindex]
  show (nth routes (w.choices 0 % (routes.length - 1)) >>= _) _ = _
  rw [bind_of_ok (nth_eq (by omega))]
  show (nth routes (w.choices 0 % (routes.length - 1) + 1) >>= _) _ = _
  rw [bind_of_ok (nth_eq (by omega))]
  rfl

/-- Some draw leaves the loop that draws once more as long as `again` says so. -/
def HasExit {α : Type} (draw : Program K α) (again : α → Bool) : Prop :=
  ∃ c : ℕ, ∀ w : World K, w.choices 0 = c → Returns draw w fun a _ => again a = false

theorem hasExit_drawRoute (h : Lists placed routes) (hplan : Plan placed) :
    HasExit (K := K) (drawRoute routes) single := by
  obtain ⟨i, j, hne, hroute⟩ := hplan.pair
  obtain ⟨t, ht, hlow, hhigh⟩ := h.exists_route hroute
  refine ⟨t, fun w hw => ?_⟩
  obtain ⟨t', ht', hdraw, heq⟩ := drawRoute_eq (w := w) (show 2 ≤ routes.length by omega)
  rw [hw, Nat.mod_eq_of_lt (by omega)] at hdraw
  subst hdraw
  refine ⟨_, _, heq, ?_⟩
  unfold single
  exact decide_eq_false (by dsimp only; omega)

theorem hasExit_nextInt {lower upper : ℤ} (h : lower < upper) (cityA : ℤ) :
    HasExit (K := K) (nextInt lower upper) fun cityB => cityB = cityA := by
  have hmod : ∀ c : ℕ, c ≤ 1 → lower + (c : ℤ) % (upper - lower + 1) = lower + c := by
    intro c hc
    rw [Int.emod_eq_of_lt (by omega) (by omega)]
  by_cases hfirst : lower = cityA
  · refine ⟨1, fun w hw => ⟨_, _, nextInt_eq (by omega), ?_⟩⟩
    rw [hw, hmod 1 le_rfl]
    exact decide_eq_false (by omega)
  · refine ⟨0, fun w hw => ⟨_, _, nextInt_eq (by omega), ?_⟩⟩
    rw [hw, hmod 0 (by omega)]
    exact decide_eq_false (by omega)

theorem returns_choseRoute (hbears : Bears p infinity modified placed w) (hplan : Plan placed)
    (hseveral : Several placed) (fuel : ℕ) :
    ReturnsUnless .unfinished (choseRoute fuel modified) w fun indexes w' =>
      Route placed indexes ∧ indexes.1 + 2 ≤ indexes.2 ∧ w'.solutions = w.solutions := by
  obtain ⟨s, hs, -, hvector⟩ := hbears
  obtain ⟨routes, hroutes, hlists⟩ := getRoutes_map (K := K) hplan.ne_nil
  have hlength := hlists.two_lt_length_of_several hseveral
  have hdraw : ∀ w₁ : World K, w₁.solutions = w.solutions →
      Returns (drawRoute routes) w₁ fun indexes w' =>
        Route placed indexes ∧ w'.solutions = w.solutions := by
    intro w₁ hw₁
    obtain ⟨t, ht, -, heq⟩ := drawRoute_eq (w := w₁) (show 2 ≤ routes.length by omega)
    exact ⟨_, _, heq, hlists.route hplan ht, hw₁⟩
  unfold choseRoute
  apply ReturnsUnless.bind (Or.inr (returns_deref hs))
  rintro _ v ⟨rfl, hv⟩
  rw [hv, hvector, hroutes]
  show ReturnsUnless Exception.unfinished (if routes.length ≤ 2 then _ else _) w _
  rw [if_neg (by omega)]
  apply ReturnsUnless.bind (Or.inr (hdraw w rfl))
  intro indexes w₁ hstart
  refine ReturnsUnless.repeatWhile
    (I := fun indexes w' => Route placed indexes ∧ w'.solutions = w.solutions) ?_ hstart
  rintro indexes w₂ ⟨hroute, hw₂⟩
  refine .ret ?_
  split
  next => exact Or.inr (hdraw w₂ hw₂)
  next hstops =>
    unfold single at hstops
    have hne : indexes.2 - indexes.1 ≠ 1 := by simpa using hstops
    have hnonempty := hroute.nonempty
    exact ⟨hroute, by omega, hw₂⟩

theorem returns_drawCities {routeBegin routeEnd : ℤ} (h : routeBegin + 2 ≤ routeEnd) (fuel : ℕ) :
    ReturnsUnless .unfinished (drawCities fuel routeBegin routeEnd : Program K (ℤ × ℤ)) w
      fun cities w' => cities.1 ≠ cities.2 ∧
        (routeBegin < cities.1 ∧ cities.1 ≤ routeEnd) ∧
        (routeBegin < cities.2 ∧ cities.2 ≤ routeEnd) ∧ w'.solutions = w.solutions := by
  have hdraw : ∀ w₁ : World K, w₁.solutions = w.solutions →
      Returns (nextInt (routeBegin + 1) routeEnd) w₁ fun city w' =>
        (routeBegin < city ∧ city ≤ routeEnd) ∧ w'.solutions = w.solutions := by
    intro w₁ hw₁
    apply (returns_nextInt (by omega)).mono
    rintro city w' ⟨hlow, hhigh, hw'⟩
    exact ⟨⟨by omega, hhigh⟩, hw'.trans hw₁⟩
  unfold drawCities
  apply ReturnsUnless.bind (Or.inr (hdraw w rfl))
  rintro cityA w₁ ⟨hcityA, hw₁⟩
  apply ReturnsUnless.bind (Or.inr (hdraw w₁ hw₁))
  intro cityB w₂ hcityB
  apply ReturnsUnless.bind (ReturnsUnless.repeatWhile
    (I := fun city w' => (routeBegin < city ∧ city ≤ routeEnd) ∧ w'.solutions = w.solutions)
    (S := fun city w' => city ≠ cityA ∧ (routeBegin < city ∧ city ≤ routeEnd) ∧
      w'.solutions = w.solutions) ?_ hcityB)
  · rintro cityB w₃ ⟨hne, hrange, hw₃⟩
    exact .ret ⟨hne.symm, hcityA, hrange, hw₃⟩
  · rintro city w₃ ⟨hrange, hw₃⟩
    refine .ret ?_
    split
    next => exact Or.inr (hdraw w₃ hw₃)
    next hstops => exact ⟨by simpa using hstops, hrange, hw₃⟩

end Draws

/-! ## Motions -/

section Motions

variable {K : Type} [RealArith K] {p : VehicleRoutingTimeWindowProblem K} {infinity : K}
  {placed : List (Fin (p.clients + 1))} {solution modified : Ref} {w : World K} {fuel : ℕ}

theorem returns_movement {i j : ℕ} (hbears : Bears p infinity modified placed w)
    (hshort : placed.length < 2 * p.clients) (hi : i < placed.length) (hj : j < placed.length) :
    Returns (VRTWSwapPerformsMotion.movement modified (some [(i : ℤ), (j : ℤ)])) w fun moved w' =>
      w.solutions <+: w'.solutions ∧ Bears p infinity moved (swapped placed i j hi hj) w' := by
  obtain ⟨s, hs, hproblem, hvector⟩ := hbears
  have hlt : modified < w.solutions.length := (List.getElem?_eq_some_iff.1 hs).1
  have hlength : s.solutionsVector.length = placed.length := by rw [hvector, List.length_map]
  have hdimension : placed.length < s.problem.dimension := by
    rw [hproblem]
    exact hshort
  have hat : ∀ k (hk : k < placed.length) (hk' : k < s.solutionsVector.length),
      s.solutionsVector[k] = some (.vehicleRoutingTimeWindow placed[k]) := by
    intro k hk hk'
    simp only [hvector, List.getElem_map]
    rfl
  unfold VRTWSwapPerformsMotion.movement
  apply (returns_clone hs).bind
  rintro _ w₁ ⟨rfl, id, hw₁⟩
  have hkept : ∀ x, (w.solutions ++ [x])[modified]? = some s := by
    intro x
    rw [List.getElem?_append_left hlt]
    exact hs
  have hlast : ∀ x, (w.solutions ++ [x])[w.solutions.length]? = some x := by
    intro x
    rw [List.getElem?_append_right le_rfl, Nat.sub_self]
    rfl
  have hclone : w₁.solutions[w.solutions.length]? = some { s with id, viable := false } := by
    rw [hw₁]
    exact hlast _
  apply Returns.after (deref_eq (hw₁ ▸ hkept _))
  apply Returns.after (show (natural (j : ℤ) : Program K ℕ) w₁ = .ok j w₁ from rfl)
  apply Returns.after (nth_eq (show j < s.solutionsVector.length by omega))
  rw [hat j hj (by omega)]
  apply Returns.after (show (natural (i : ℤ) : Program K ℕ) w₁ = .ok i w₁ from rfl)
  apply Returns.after (setElement_eq hclone (hi.trans hdimension)
    (show i < s.solutionsVector.length by omega) _)
  rw [hw₁, set_last]
  apply Returns.after (deref_eq (hkept _))
  apply Returns.after (show (natural (i : ℤ) : Program K ℕ) _ = .ok i _ from rfl)
  apply Returns.after (nth_eq (show i < s.solutionsVector.length by omega))
  rw [hat i hi (by omega)]
  apply Returns.after (show (natural (j : ℤ) : Program K ℕ) _ = .ok j _ from rfl)
  refine Returns.after (setElement_eq (hlast _) ?_ ?_ _) ?_
  · exact hj.trans hdimension
  · dsimp only
    rw [List.length_set]
    omega
  · rw [set_last]
    refine .ret ⟨List.prefix_append _ _, _, hlast _, hproblem, ?_⟩
    dsimp only
    rw [hvector]
    unfold swapped
    rw [List.map_set, List.map_set]
    rfl

def positions (fuel : ℕ) (modified : Ref) : Program K (ℤ × ℤ) := do
  let (routeBegin, routeEnd) ← choseRoute fuel modified
  drawCities fuel routeBegin routeEnd

theorem motion_eq (fuel : ℕ) (modified : Ref) :
    (motion fuel modified : Program K Ref) = (do
      let cities ← positions fuel modified
      VRTWSwapPerformsMotion.movement modified (some [cities.1, cities.2])) := by
  unfold motion positions swapInsideRoute
  rw [bind_assoc]

/-- A motion of the plan, with whatever is drawn. -/
structure Moves (p : VehicleRoutingTimeWindowProblem K) (infinity : K)
    (placed : List (Fin (p.clients + 1))) (modified : Ref) (w : World K) : Prop where
  choseExit : ∀ routes, getRoutes (placed.map (element (K := K))) = .ok routes →
    2 < routes.length → HasExit (K := K) (drawRoute routes) single
  drawExit : ∀ fuel routeBegin routeEnd w₁ cityA w₂,
    choseRoute fuel modified w = .ok (routeBegin, routeEnd) w₁ →
    nextInt (routeBegin + 1) routeEnd w₁ = .ok cityA w₂ →
    HasExit (K := K) (nextInt (routeBegin + 1) routeEnd) fun cityB => cityB = cityA
  swaps : ∀ fuel, ReturnsUnless .unfinished (motion fuel modified) w fun moved w' =>
    w.solutions <+: w'.solutions ∧ ∃ i j hi hj, i ≠ j ∧ SameRoute placed i j ∧
      Bears p infinity moved (swapped placed i j hi hj) w'
  pairs : ∀ i j, i ≠ j → SameRoute placed i j → ∃ choices fuel w',
    positions fuel modified { w with choices } = .ok (i, j) w' ∨
      positions fuel modified { w with choices } = .ok (j, i) w'

/-- The motions throw nothing, and each of them moves two clients of one route; the
original stays as it is. -/
def Permutes (p : VehicleRoutingTimeWindowProblem K) (infinity : K)
    (placed : List (Fin (p.clients + 1))) : Prop :=
  ∀ (w : World K) solution, Bears p infinity solution placed w → ∀ fuel motionsCount,
    ReturnsUnless .unfinished (modify fuel solution motionsCount) w fun modified w' =>
      w.solutions <+: w'.solutions ∧ ∃ placed', Bears p infinity modified placed' w' ∧
        Rearranged placed placed' ∧ Moves p infinity placed' modified w'

theorem returns_positions (hbears : Bears p infinity modified placed w) (hplan : Plan placed)
    (hseveral : Several placed) (fuel : ℕ) :
    ReturnsUnless .unfinished (positions fuel modified) w fun cities w' =>
      w'.solutions = w.solutions ∧
        ∃ i j : ℕ, cities = ((i : ℤ), (j : ℤ)) ∧ i ≠ j ∧ SameRoute placed i j := by
  unfold positions
  apply (returns_choseRoute hbears hplan hseveral fuel).bind
  rintro ⟨routeBegin, routeEnd⟩ w₁ ⟨hroute, hroom, hw₁⟩
  apply (returns_drawCities hroom fuel).mono
  rintro ⟨cityA, cityB⟩ w₂ ⟨hne, hcityA, hcityB, hw₂⟩
  have hbegins := hroute.begins
  dsimp only at hne hcityA hcityB hbegins
  refine ⟨hw₂.trans hw₁, cityA.toNat, cityB.toNat, ?_, by omega, fun k hlow hhigh => ?_⟩
  · rw [Int.toNat_of_nonneg (by omega), Int.toNat_of_nonneg (by omega)]
  · exact hroute.clients k (by dsimp only; omega) (by dsimp only; omega)

theorem returns_motion (hbears : Bears p infinity modified placed w) (hplan : Plan placed)
    (hseveral : Several placed) (fuel : ℕ) :
    ReturnsUnless .unfinished (motion fuel modified) w fun moved w' =>
      w.solutions <+: w'.solutions ∧ ∃ i j hi hj, i ≠ j ∧ SameRoute placed i j ∧
        Bears p infinity moved (swapped placed i j hi hj) w' := by
  rw [motion_eq]
  apply (returns_positions hbears hplan hseveral fuel).bind
  rintro _ w₁ ⟨hw₁, i, j, rfl, hne, hroute⟩
  obtain ⟨hi, -⟩ := hroute i (by omega) (by omega)
  obtain ⟨hj, -⟩ := hroute j (by omega) (by omega)
  right
  apply (returns_movement (hbears.of_eq hw₁) hplan.short hi hj).mono
  rintro moved w₂ ⟨hgrown, hmoved⟩
  exact ⟨hw₁ ▸ hgrown, i, j, hi, hj, hne, hroute, hmoved⟩

theorem choseRoute_eq {s : Solution K} {routes : List ℤ} {indexes : ℤ × ℤ} {w₁ : World K}
    (hs : w.solutions[modified]? = some s) (hroutes : getRoutes s.solutionsVector = .ok routes)
    (hlength : 2 < routes.length) (hdraw : drawRoute routes w = .ok indexes w₁)
    (hstops : single indexes = false) :
    choseRoute 1 modified w = .ok indexes w₁ := by
  unfold choseRoute
  rw [bind_of_ok (deref_eq hs), hroutes]
  show (if routes.length ≤ 2 then _ else _ : Program K (ℤ × ℤ)) w = _
  rw [if_neg (by omega), bind_of_ok hdraw]
  show (if single indexes = true then _ else _ : Program K (ℤ × ℤ)) w₁ = _
  rw [hstops]
  rfl

theorem nextInt_of_choice {lower upper city : ℤ} (hlow : lower ≤ city) (hhigh : city ≤ upper)
    (hchoice : w.choices 0 = (city - lower).toNat) :
    (nextInt lower upper : Program K ℤ) w =
      .ok city { w with choices := fun n => w.choices (n + 1) } := by
  rw [nextInt_eq (by omega), hchoice, Int.toNat_of_nonneg (by omega),
    Int.emod_eq_of_lt (by omega) (by omega)]
  congr
  omega

theorem drawCities_eq {routeBegin routeEnd cityA cityB : ℤ} {w₁ w₂ : World K}
    (hfirst : nextInt (routeBegin + 1) routeEnd w = .ok cityA w₁)
    (hsecond : nextInt (routeBegin + 1) routeEnd w₁ = .ok cityB w₂) (hne : cityB ≠ cityA) :
    drawCities 1 routeBegin routeEnd w = .ok (cityA, cityB) w₂ := by
  unfold drawCities
  rw [bind_of_ok hfirst, bind_of_ok hsecond]
  show (((if decide (cityB = cityA) = true then _ else pure cityB) >>= _ :
    Program K (ℤ × ℤ)) w₂) = _
  rw [if_neg (by simpa using hne)]
  rfl

def draws (t i j : ℕ) : ℕ → ℕ
  | 0 => t
  | 1 => i
  | _ => j

theorem exists_positions (hbears : Bears p infinity modified placed w) (hplan : Plan placed)
    (hseveral : Several placed) {i j : ℕ} (hne : i ≠ j) (hroute : SameRoute placed i j) :
    ∃ choices w', positions 1 modified { w with choices } = .ok ((i : ℤ), (j : ℤ)) w' := by
  obtain ⟨s, hs, -, hvector⟩ := hbears
  obtain ⟨routes, hroutes, hlists⟩ := getRoutes_map (K := K) hplan.ne_nil
  have hlength := hlists.two_lt_length_of_several hseveral
  obtain ⟨t, ht, hlow, hhigh⟩ := hlists.exists_route hroute
  have hbegins := (hlists.border (show t < routes.length by omega)).range.1
  let choices := draws t (i - routes[t] - 1).toNat (j - routes[t] - 1).toNat
  refine ⟨choices, ?_⟩
  obtain ⟨t', ht', hchosen, hdraw⟩ :=
    drawRoute_eq (w := { w with choices }) (show 2 ≤ routes.length by omega)
  have heq : t' = t := by
    rw [hchosen]
    exact Nat.mod_eq_of_lt (show t < routes.length - 1 by omega)
  subst heq
  have hsingle : single (routes[t'], routes[t' + 1] - 1) = false := by
    unfold single
    exact decide_eq_false (by dsimp only; omega)
  have hchose := choseRoute_eq (w := { w with choices }) hs (hvector ▸ hroutes) hlength hdraw
    hsingle
  have hfirst := nextInt_of_choice (K := K)
    (w := { w with choices := fun n => choices (n + 1) })
    (show routes[t'] + 1 ≤ (i : ℤ) by omega) (show (i : ℤ) ≤ routes[t' + 1] - 1 by omega)
    (show (i - routes[t'] - 1).toNat = _ by congr 1; omega)
  have hsecond := nextInt_of_choice (K := K)
    (w := { w with choices := fun n => choices (n + 1 + 1) })
    (show routes[t'] + 1 ≤ (j : ℤ) by omega) (show (j : ℤ) ≤ routes[t' + 1] - 1 by omega)
    (show (j - routes[t'] - 1).toNat = _ by congr 1; omega)
  unfold positions
  rw [bind_of_ok hchose]
  exact ⟨_, drawCities_eq hfirst hsecond (by omega)⟩

/-- In a plan with a second route a motion does all that it should. -/
theorem moves (hbears : Bears p infinity modified placed w) (hplan : Plan placed)
    (hseveral : Several placed) : Moves p infinity placed modified w := by
  refine ⟨?_, ?_, returns_motion hbears hplan hseveral, ?_⟩
  · intro routes hroutes _
    obtain ⟨routes', hroutes', hlists⟩ := getRoutes_map (K := K) hplan.ne_nil
    obtain rfl : routes = routes' := Except.ok.inj (hroutes.symm.trans hroutes')
    exact hasExit_drawRoute hlists hplan
  · intro fuel routeBegin routeEnd w₁ cityA w₂ hchose _
    rcases returns_choseRoute hbears hplan hseveral fuel with ⟨w', herror⟩ | hreturns
    · rw [hchose] at herror
      cases herror
    · obtain ⟨-, hroom, -⟩ := hreturns.ends _ _ hchose
      dsimp only at hroom
      exact hasExit_nextInt (by omega) cityA
  · intro i j hne hroute
    obtain ⟨choices, w', hdrawn⟩ := exists_positions hbears hplan hseveral hne hroute
    exact ⟨choices, 1, w', Or.inl hdrawn⟩

theorem permutes_of_several (hplan : Plan placed) (hseveral : Several placed) :
    Permutes p infinity placed := by
  intro w solution hbears fuel motionsCount
  obtain ⟨s, hs, hproblem, hvector⟩ := hbears
  unfold VRTWSwapInsideRouteSolutionModifier.modify
  apply ReturnsUnless.bind (Or.inr (returns_clone hs))
  rintro _ w₁ ⟨rfl, id, hw₁⟩
  have hclone : Bears p infinity w.solutions.length placed w₁ := by
    refine ⟨{ s with id, viable := false }, ?_, hproblem, hvector⟩
    rw [hw₁, List.getElem?_append_right le_rfl, Nat.sub_self]
    rfl
  apply ReturnsUnless.mono (ReturnsUnless.foldlM (I := fun modified w' =>
    w.solutions <+: w'.solutions ∧ ∃ placed', Bears p infinity modified placed' w' ∧
      Rearranged placed placed') ?_ ?_)
  · rintro modified w' ⟨hgrown, placed', hbears, hsame⟩
    exact ⟨hgrown, placed', hbears, hsame,
      moves hbears (hsame.plan hplan) (hsame.several_iff.2 hseveral)⟩
  · exact ⟨hw₁ ▸ List.prefix_append _ _, placed, hclone, .refl placed⟩
  · rintro _ _ modified w₂ ⟨hgrown, placed', hbears, hsame⟩
    apply (returns_motion hbears (hsame.plan hplan) (hsame.several_iff.2 hseveral) fuel).mono
    rintro moved w₃ ⟨hgrown', i, j, hi, hj, -, hroute, hmoved⟩
    exact ⟨hgrown.trans hgrown', _, hmoved, hsame.trans (rearranged_swapped hi hj hroute)⟩

theorem ends_nextInt (lower upper : ℤ) :
    Ends (nextInt lower upper : Program K ℤ) w fun i _ => lower ≤ i := by
  by_cases hlt : upper < lower
  · unfold nextInt
    rw [if_pos hlt]
    exact .throws _
  · refine (returns_nextInt (not_lt.1 hlt)).ends.mono ?_
    rintro i w' ⟨hlower, -, -⟩
    exact hlower

theorem ends_positions (hbears : Bears p infinity modified placed w) (hplan : Plan placed)
    (hsingle : ¬Several placed) (fuel : ℕ) :
    Ends (positions fuel modified) w fun cities _ => 1 ≤ cities.1 ∧ 1 ≤ cities.2 := by
  obtain ⟨s, hs, -, hvector⟩ := hbears
  obtain ⟨routes, hroutes, hlists⟩ := getRoutes_map (K := K) hplan.ne_nil
  have hchose : Ends (choseRoute fuel modified) w fun indexes _ => indexes.1 = 0 := by
    unfold choseRoute
    refine (returns_deref hs).ends.bind ?_
    rintro _ v ⟨rfl, hv⟩
    rw [hv, hvector, hroutes]
    show Ends (if routes.length ≤ 2 then _ else _) w _
    rw [if_pos (hlists.length_le_of_not_several hplan hsingle)]
    refine (ends_nth routes 0).bind ?_
    rintro first w₁ ⟨hfirst, -⟩
    rw [List.getElem?_eq_getElem hlists.length_pos, hlists.first hlists.length_pos] at hfirst
    obtain rfl := Option.some.inj hfirst
    refine (ends_nth routes 1).bind ?_
    intro last w₂ _
    exact .ret rfl
  unfold positions
  refine hchose.bind ?_
  rintro ⟨routeBegin, routeEnd⟩ w₁ hbegin
  dsimp only at hbegin
  subst hbegin
  refine (ends_nextInt 1 routeEnd).bind ?_
  intro cityA w₂ hcityA
  refine (ends_nextInt 1 routeEnd).bind ?_
  intro cityB w₃ hcityB
  refine Ends.bind (Ends.repeatWhile (I := fun city _ => 1 ≤ city) ?_ ?_ hcityB) ?_
  · intro city w₄ hcity
    exact .ret hcity
  · intro city w₄ _
    exact ends_nextInt 1 routeEnd
  · intro city w₄ hcity
    exact .ret ⟨hcityA, hcity⟩

/-- Without a second route the first client is in no pair. -/
theorem not_permutes_of_single (hplan : Plan placed) (hsingle : ¬Several placed) :
    ¬Permutes p infinity placed := by
  intro hpermutes
  let s : Solution K :=
    { id := 0, problem := p.toProblem infinity, solutionsVector := placed.map element
      functionValue := none, viable := false, changed := false }
  let w : World K :=
    { solutions := [s], nextId := 1, nextIdentity := 0, evaluations := 0, invocations := 0
      bestSolution := none, uniforms := fun _ => .zero, choices := fun _ => 0, clock := fun _ => 0 }
  have hs : w.solutions[0]? = some s := rfl
  have hreturns : Returns (VRTWSwapInsideRouteSolutionModifier.modify 0 0 0 : Program K Ref) w
      fun _ _ => True := by
    unfold VRTWSwapInsideRouteSolutionModifier.modify
    apply (returns_clone hs).bind
    intro modified w' _
    exact .ret trivial
  obtain ⟨modified, w', hmodify, -⟩ := hreturns
  rcases hpermutes w 0 ⟨s, hs, rfl, rfl⟩ 0 0 with ⟨w'', herror⟩ | hdone
  · rw [hmodify] at herror
    cases herror
  · obtain ⟨-, placed', hbears, hsame, hmoves⟩ := hdone.ends _ _ hmodify
    have hplan' := hsame.plan hplan
    have hsingle' : ¬Several placed' := fun h => hsingle (hsame.several_iff.1 h)
    obtain ⟨choices, fuel, w₁, hdrawn⟩ := hmoves.pairs 0 1 (by omega) (hplan'.first_pair hsingle')
    have hbehind := ends_positions (w := { w' with choices }) hbears hplan' hsingle' fuel
    rcases hdrawn with hdrawn | hdrawn
    · have hfirst := (hbehind _ _ hdrawn).1
      simp at hfirst
    · have hsecond := (hbehind _ _ hdrawn).2
      simp at hsecond

end Motions

/-! ## Plans of the construction -/

section Plans

variable {K : Type} [RealArith K] {p : VehicleRoutingTimeWindowProblem K} {infinity : K}
  {placed : List (Fin (p.clients + 1))}

/-- The construction phase can end with the plan. -/
def Built (p : VehicleRoutingTimeWindowProblem K) (infinity : K)
    (placed : List (Fin (p.clients + 1))) : Prop :=
  ∃ (alpha : K) (this : GRASP K) (fuel : ℕ) (w : World K) (solution : Ref) (w' : World K),
    Constructs this p infinity alpha ∧ GRASP.construcao this fuel w = .ok solution w' ∧
      Bears p infinity solution placed w'

theorem ends_construcao {this : GRASP K} {alpha : K} (h : Constructs this p infinity alpha)
    (hclients : 1 ≤ p.clients) (fuel : ℕ) (w : World K) :
    Ends (GRASP.construcao this fuel) w fun solution w' =>
      ∃ placed, Bears p infinity solution placed w' ∧ WellFormed placed := by
  have hfits : ∀ trucks < p.clients,
      (RouteConstruction.dealt p.clients trucks).length < p.dimension := by
    intro trucks htrucks
    simp only [RouteConstruction.dealt, List.length_append, List.length_map, List.length_finRange,
      List.length_replicate, VehicleRoutingTimeWindowProblem.dimension]
    omega
  rw [RouteConstruction.construcao_eq]
  refine (RouteConstruction.returns_begins h hclients).ends.bind ?_
  rintro ⟨solution, candidates⟩ w₁ ⟨trucks, htrucks, -, hstage⟩
  refine Ends.bind (Q := fun _ w' => ∃ placed, Bears p infinity solution placed w' ∧
    WellFormed placed) ?_ ?_
  · intro candidates' w₂ hloop
    obtain ⟨w₃, hvisits, hstops⟩ := visits_of_repeatWhile hloop
    obtain ⟨cs, idle, placed, hlast⟩ :=
      RouteConstruction.visits_stage h (hfits trucks htrucks) hstage hvisits
    injection hstops with hempty hw
    subst hw
    have hnil : candidates' = [] := by simpa using hempty
    subst hnil
    obtain rfl : cs = [] := List.map_eq_nil_iff.1 hlast.shown.symm
    exact ⟨placed, hlast.bears, hlast.wellFormed htrucks⟩
  · intro _ w₂ hformed
    exact .ret hformed

theorem Built.wellFormed (h : Built p infinity placed) (hclients : 1 ≤ p.clients) :
    WellFormed placed := by
  obtain ⟨alpha, this, fuel, w, solution, w', hthis, hrun, hbears⟩ := h
  obtain ⟨placed', hbears', hformed⟩ := ends_construcao hthis hclients fuel w _ _ hrun
  rw [hbears.unique hbears']
  exact hformed

def vectorOf : EStateM.Result Exception (World K) Ref → Option (List (Option (Element K)))
  | .ok r w => w.solutions[r]?.map fun s => s.solutionsVector
  | .error _ _ => none

theorem built_of_vectorOf {this : GRASP K} {alpha : K} (h : Constructs this p infinity alpha)
    (hclients : 1 ≤ p.clients) (fuel : ℕ) (w : World K)
    (hvector : vectorOf (GRASP.construcao this fuel w) = some (placed.map element)) :
    Built p infinity placed := by
  cases hrun : GRASP.construcao this fuel w with
  | error e w' =>
      rw [hrun] at hvector
      cases hvector
  | ok solution w' =>
      obtain ⟨placed', ⟨s, hs, hproblem, -⟩, -⟩ :=
        ends_construcao h hclients fuel w solution w' hrun
      rw [hrun, vectorOf, hs, Option.map_some, Option.some.injEq] at hvector
      exact ⟨alpha, this, fuel, w, solution, w', h, hrun, s, hs, hproblem, hvector⟩

theorem Built.plan (h : Built p infinity placed) (hpair : ∃ i j, i ≠ j ∧ SameRoute placed i j) :
    Plan placed := by
  have hclients : 1 ≤ p.clients := by
    obtain ⟨i, j, -, hroute⟩ := hpair
    obtain ⟨hlt, hclient⟩ := hroute i (by omega) (by omega)
    rw [List.getElem?_eq_getElem hlt, ne_eq, Option.some.injEq] at hclient
    have hne : (placed[i] : ℕ) ≠ 0 := fun hzero => hclient (Fin.ext hzero)
    have hbound := placed[i].isLt
    omega
  have hformed := h.wellFormed hclients
  refine ⟨?_, hformed.apart, hformed.short, hpair⟩
  rw [← List.head?_eq_getElem?]
  exact hformed.starts

/-- What the construction builds is permuted as it should be if and only if the plan goes on
behind one of its depots. -/
theorem permutes_iff (h : Built p infinity placed)
    (hpair : ∃ i j, i ≠ j ∧ SameRoute placed i j) :
    Permutes p infinity placed ↔ ∃ k, placed[k]? = some home ∧ k + 1 < placed.length := by
  have hplan := h.plan hpair
  constructor
  · intro hpermutes
    by_contra hsingle
    exact not_permutes_of_single hplan hsingle hpermutes
  · exact permutes_of_several hplan

end Plans

section Example

open RouteConstruction (exampleConstruction emptyWorld)

def threeClients : VehicleRoutingTimeWindowProblem ℚ :=
  { id := 0, maximize := false, clients := 3, truckCapacity := 1, timePenaltyWeight := 1
    truckPenaltyWeight := 1, routesPenaltyWeight := 1
    timeWindow := fun _ => (0, 100)
    distances := fun _ _ => 1
    distances_nonneg := fun _ _ => zero_le_one
    clientDemands := fun _ => 1
    serviceTime := fun _ => 10 }

def threeClientsConstruction : GRASP ℚ :=
  { exampleConstruction with
    problem := threeClients.toProblem 1000
    candidatesList := some (vrtwCandidatesList threeClients)
    alpha := some 1 }

theorem threeClientsConstruction_constructs :
    Constructs threeClientsConstruction threeClients 1000 1 :=
  ⟨rfl, rfl, rfl, rfl, zero_le_one⟩

theorem built_twoRoutes : Built threeClients 1000 [3, 0, 1, 2] :=
  built_of_vectorOf threeClientsConstruction_constructs (by decide) 6
    { emptyWorld with choices := fun _ => 1 } (by decide +kernel)

theorem built_oneRoute : Built threeClients 1000 [1, 2, 3] :=
  built_of_vectorOf threeClientsConstruction_constructs (by decide) 6
    { emptyWorld with choices := fun _ => 0 } (by decide +kernel)

theorem sameRoute_twoRoutes : SameRoute ([3, 0, 1, 2] : List (Fin 4)) 2 3 := by
  intro k hlow hhigh
  have hk : k = 2 ∨ k = 3 := by omega
  unfold Client
  rcases hk with rfl | rfl
  · decide
  · decide

theorem sameRoute_oneRoute : SameRoute ([1, 2, 3] : List (Fin 4)) 0 1 := by
  intro k hlow hhigh
  have hk : k = 0 ∨ k = 1 := by omega
  unfold Client
  rcases hk with rfl | rfl
  · decide
  · decide

theorem permutes_iff_example :
    Built threeClients 1000 [3, 0, 1, 2] ∧
    (∃ i j, i ≠ j ∧ SameRoute ([3, 0, 1, 2] : List (Fin 4)) i j) ∧
    Permutes threeClients 1000 [3, 0, 1, 2] := by
  have hpair : ∃ i j, i ≠ j ∧ SameRoute ([3, 0, 1, 2] : List (Fin 4)) i j :=
    ⟨2, 3, by decide, sameRoute_twoRoutes⟩
  exact ⟨built_twoRoutes, hpair,
    (permutes_iff built_twoRoutes hpair).2 ⟨1, by decide, by decide⟩⟩

/-- With one route the motions never move the first client. -/
theorem oneRoute_not_permutes :
    Built threeClients 1000 [1, 2, 3] ∧
    (∃ i j, i ≠ j ∧ SameRoute ([1, 2, 3] : List (Fin 4)) i j) ∧
    ¬Permutes threeClients 1000 [1, 2, 3] := by
  have hpair : ∃ i j, i ≠ j ∧ SameRoute ([1, 2, 3] : List (Fin 4)) i j :=
    ⟨0, 1, by decide, sameRoute_oneRoute⟩
  refine ⟨built_oneRoute, hpair, not_permutes_of_single (built_oneRoute.plan hpair) ?_⟩
  rintro ⟨k, hk, hlt⟩
  have hat : k = 0 ∨ k = 1 := by
    simp only [List.length_cons, List.length_nil] at hlt
    omega
  rcases hat with rfl | rfl
  · exact absurd hk (by decide)
  · exact absurd hk (by decide)

end Example

end DOptimas.Proofs.SwapInsideRoute
