import DOptimas.Proofs.QTableBounds
import DOptimas.Support.Rational
/-!
# Updating the region ids twice

One update keeps the best entries of its ids.  An id that the cut has dropped looks
new at the next call, where it comes back with value zero: it replaces an entry with
a negative value, and may replace one with value zero, depending on the order in
which the hash map is iterated.
-/

namespace DOptimas.Proofs.RegionUpdate

open DOptimas.Core DOptimas.Core.QLearningMemory DOptimas.Support

variable {K : Type} [RealArith K]

structure Updated (before : List (ℤ × K)) (ids : List ℤ) (after : List (ℤ × K)) : Prop where
  keys : ∀ e ∈ after, e.1 ∈ ids
  nodup : (after.map Prod.fst).Nodup
  size : after.length = min ids.length maxRegions
  kept : ∀ e ∈ after, HasKey before e.1 → e ∈ before
  new : ∀ e ∈ after, ¬HasKey before e.1 → e.2 = 0
  best : ∀ e ∈ after, ∀ id ∈ ids, ¬HasKey after id →
    (∀ d ∈ before, d.1 = id → d.2 ≤ e.2) ∧ (¬HasKey before id → 0 ≤ e.2)

theorem le_of_cut {table : List (ℤ × K)} (hsorted : table.Pairwise fun a b => b.2 ≤ a.2) {k : ℕ}
    {e d : ℤ × K} (he : e ∈ table.take k) (hd : d ∈ table) (hnot : d ∉ table.take k) :
    d.2 ≤ e.2 := by
  rw [← List.take_append_drop k table] at hsorted hd
  rcases List.mem_append.1 hd with htake | hdrop
  · exact absurd htake hnot
  · exact (List.pairwise_append.1 hsorted).2.2 e he d hdrop

section Update

variable {memory : QLearningMemory K} {ids : List ℤ} {iteration : Iteration K}

theorem mem_renewed_of_mem {e : ℤ × K}
    (he : e ∈ (memory.updateRegionIdsIn iteration ids).qTable) : e ∈ memory.renewed ids :=
  sorted_perm.mem_iff.1 (List.mem_of_mem_take he)

theorem nodup_sorted (htable : (memory.qTable.map Prod.fst).Nodup) (hids : ids.Nodup) :
    ((sorted iteration memory ids).map Prod.fst).Nodup :=
  (sorted_perm.map Prod.fst).nodup_iff.2 (nodup_renewed htable hids)

/-- An entry that the update drops is not better than the entries it keeps. -/
theorem le_of_dropped {e d : ℤ × K} (he : e ∈ (memory.updateRegionIdsIn iteration ids).qTable)
    (hd : d ∈ memory.renewed ids)
    (hnot : d ∉ (memory.updateRegionIdsIn iteration ids).qTable) : d.2 ≤ e.2 :=
  le_of_cut sorted_pairwise he (sorted_perm.mem_iff.2 hd) hnot

theorem size_updated (htable : (memory.qTable.map Prod.fst).Nodup) (hids : ids.Nodup) :
    (memory.updateRegionIdsIn iteration ids).qTable.length = min ids.length maxRegions := by
  rw [qTable_updateRegionIdsIn, List.length_take, sorted_perm.length_eq,
    length_renewed htable hids, min_comm]

theorem nodup_updated (htable : (memory.qTable.map Prod.fst).Nodup) (hids : ids.Nodup) :
    ((memory.updateRegionIdsIn iteration ids).qTable.map Prod.fst).Nodup := by
  rw [qTable_updateRegionIdsIn, List.map_take]
  exact (nodup_sorted htable hids).sublist (List.take_sublist _ _)

theorem updated (hzero : sigmoid (0 : K) = 0) (htable : (memory.qTable.map Prod.fst).Nodup)
    (hids : ids.Nodup) (iteration : Iteration K) :
    Updated memory.qTable ids (memory.updateRegionIdsIn iteration ids).qTable where
  keys e he := ((mem_renewed_iff hids).1 (mem_renewed_of_mem he)).1
  nodup := nodup_updated htable hids
  size := size_updated htable hids
  kept e he hkey := by
    rcases ((mem_renewed_iff hids).1 (mem_renewed_of_mem he)).2 with hmem | ⟨hnot, -⟩
    · exact hmem
    · exact absurd hkey hnot
  new e he hkey := by
    rcases ((mem_renewed_iff hids).1 (mem_renewed_of_mem he)).2 with hmem | ⟨-, hvalue⟩
    · exact absurd (List.mem_map_of_mem hmem) hkey
    · rw [hvalue, hzero]
  best e he id hid hdropped := by
    have hnot : ∀ d : ℤ × K, d.1 = id →
        d ∉ (memory.updateRegionIdsIn iteration ids).qTable := by
      intro d hd hmem
      exact hdropped (hd ▸ List.mem_map_of_mem hmem)
    constructor
    · intro d hd hkey
      have hrenewed : d ∈ memory.renewed ids := (mem_renewed_iff hids).2 ⟨hkey ▸ hid, Or.inl hd⟩
      exact le_of_dropped he hrenewed (hnot d hkey)
    · intro hkey
      have hrenewed : (id, (0 : K)) ∈ memory.renewed ids :=
        (mem_renewed_iff hids).2 ⟨hid, Or.inr ⟨hkey, hzero.symm⟩⟩
      exact le_of_dropped he hrenewed (hnot _ rfl)

end Update

/-- The table after an update with `ids`, updated with the same ids again. -/
def twice (first second : Iteration K) (memory : QLearningMemory K) (ids : List ℤ) :
    QLearningMemory K :=
  (memory.updateRegionIdsIn first ids).updateRegionIdsIn second ids

def Unchanged (first second : Iteration K) (memory : QLearningMemory K) (ids : List ℤ) : Prop :=
  (twice first second memory ids).qTable.Perm (memory.updateRegionIdsIn first ids).qTable

section Twice

variable {memory : QLearningMemory K} {ids : List ℤ} {first second : Iteration K}

/-- The second update looks at the entries of the first and at the ids it dropped. -/
theorem mem_renewed_twice (hzero : sigmoid (0 : K) = 0)
    (hids : ids.Nodup) {e : ℤ × K} :
    e ∈ (memory.updateRegionIdsIn first ids).renewed ids ↔
      e ∈ (memory.updateRegionIdsIn first ids).qTable ∨
        e.1 ∈ ids ∧ ¬HasKey (memory.updateRegionIdsIn first ids).qTable e.1 ∧ e.2 = 0 := by
  rw [mem_renewed_iff hids, hzero]
  constructor
  · rintro ⟨hid, hmem | hnew⟩
    · exact Or.inl hmem
    · exact Or.inr ⟨hid, hnew⟩
  · rintro (hmem | ⟨hid, hnew⟩)
    · exact ⟨((mem_renewed_iff hids).1 (mem_renewed_of_mem hmem)).1, Or.inl hmem⟩
    · exact ⟨hid, Or.inr hnew⟩

theorem size_twice (htable : (memory.qTable.map Prod.fst).Nodup) (hids : ids.Nodup) :
    (twice first second memory ids).qTable.length =
      (memory.updateRegionIdsIn first ids).qTable.length := by
  rw [twice, size_updated (nodup_updated htable hids) hids, size_updated htable hids]

theorem nodup_twice (htable : (memory.qTable.map Prod.fst).Nodup) (hids : ids.Nodup) :
    (twice first second memory ids).qTable.Nodup :=
  (nodup_updated (nodup_updated htable hids) hids).of_map _

/-- The two tables have one size: they agree unless an entry was dropped. -/
theorem unchanged_iff (htable : (memory.qTable.map Prod.fst).Nodup) (hids : ids.Nodup) :
    Unchanged first second memory ids ↔
      ∀ e ∈ (memory.updateRegionIdsIn first ids).qTable,
        e ∈ (twice first second memory ids).qTable := by
  constructor
  · intro h e he
    exact h.mem_iff.2 he
  · intro h
    have hsubperm := List.subperm_of_subset ((nodup_updated htable hids).of_map _) h
    exact (hsubperm.perm_of_length_le (size_twice htable hids).le).symm

theorem exists_dropped (htable : (memory.qTable.map Prod.fst).Nodup) (hids : ids.Nodup)
    (hlarge : maxRegions < ids.length) :
    ∃ id ∈ ids, ¬HasKey (memory.updateRegionIdsIn first ids).qTable id := by
  by_contra! hall
  have hle := (List.subperm_of_subset hids hall).length_le
  rw [List.length_map, size_updated htable hids] at hle
  omega

theorem unchanged_of_fits (hzero : sigmoid (0 : K) = 0)
    (htable : (memory.qTable.map Prod.fst).Nodup) (hids : ids.Nodup)
    (hfits : ids.length ≤ maxRegions) : Unchanged first second memory ids := by
  rw [unchanged_iff htable hids]
  intro e he
  have hrenewed := (mem_renewed_twice hzero hids).2 (Or.inl he)
  have hsorted : e ∈ sorted second (memory.updateRegionIdsIn first ids) ids :=
    sorted_perm.mem_iff.2 hrenewed
  have hlength : (sorted second (memory.updateRegionIdsIn first ids) ids).length ≤ maxRegions := by
    rw [sorted_perm.length_eq, length_renewed (nodup_updated htable hids) hids]
    exact hfits
  rw [twice, qTable_updateRegionIdsIn, List.take_of_length_le hlength]
  exact hsorted

theorem unchanged_of_pos (hzero : sigmoid (0 : K) = 0)
    (htable : (memory.qTable.map Prod.fst).Nodup) (hids : ids.Nodup)
    (hpos : ∀ e ∈ (memory.updateRegionIdsIn first ids).qTable, 0 < e.2) :
    Unchanged first second memory ids := by
  by_contra hchanged
  have hdrop : ∃ e ∈ (memory.updateRegionIdsIn first ids).qTable,
      e ∉ (twice first second memory ids).qTable := by
    rw [unchanged_iff htable hids] at hchanged
    push Not at hchanged
    exact hchanged
  obtain ⟨e, he, hnot⟩ := hdrop
  have hnew : ∃ d ∈ (twice first second memory ids).qTable,
      d ∉ (memory.updateRegionIdsIn first ids).qTable := by
    by_contra! hall
    have hsubperm := List.subperm_of_subset (nodup_twice htable hids) hall
    have hperm := hsubperm.perm_of_length_le (size_twice htable hids).ge
    exact hchanged hperm
  obtain ⟨d, hd, hdnot⟩ := hnew
  have hvalue : d.2 = 0 := by
    rcases (mem_renewed_twice hzero hids).1 (mem_renewed_of_mem hd) with hmem | hdropped
    · exact absurd hmem hdnot
    · exact hdropped.2.2
  have hle : e.2 ≤ d.2 :=
    le_of_dropped hd ((mem_renewed_twice hzero hids).2 (Or.inl he)) hnot
  rw [hvalue] at hle
  exact absurd (hpos e he) (not_lt.2 hle)

theorem nonneg_of_unchanged (hzero : sigmoid (0 : K) = 0)
    (htable : (memory.qTable.map Prod.fst).Nodup) (hids : ids.Nodup)
    (hlarge : maxRegions < ids.length) (h : Unchanged first second memory ids) :
    ∀ e ∈ (memory.updateRegionIdsIn first ids).qTable, 0 ≤ e.2 := by
  intro e he
  obtain ⟨id, hid, hkey⟩ := @exists_dropped K _ _ _ first htable hids hlarge
  have hrenewed : (id, (0 : K)) ∈ (memory.updateRegionIdsIn first ids).renewed ids :=
    (mem_renewed_twice hzero hids).2 (Or.inr ⟨hid, hkey, rfl⟩)
  have hnot : (id, (0 : K)) ∉ (twice first second memory ids).qTable := by
    intro hmem
    exact hkey (List.mem_map_of_mem (h.mem_iff.1 hmem))
  exact le_of_dropped (h.mem_iff.2 he) hrenewed hnot

end Twice

section Orders

theorem meetsFirst_perm (d : ℤ × K) (table : List (ℤ × K)) :
    (if d ∈ table then d :: table.erase d else table).Perm table := by
  split
  next hmem => exact (List.perm_cons_erase hmem).symm
  next => exact List.Perm.refl table

def meetsFirst (d : ℤ × K) : Iteration K :=
  ⟨fun table => if d ∈ table then d :: table.erase d else table, meetsFirst_perm d⟩

theorem mem_take_of_before {α : Type} {table : List α} {a b : α} {k : ℕ} (hnodup : table.Nodup)
    (hbefore : [a, b].Sublist table) (hb : b ∈ table.take k) : a ∈ table.take k := by
  rw [← List.take_append_drop k table] at hbefore hnodup
  obtain ⟨left, right, heq, hleft, hright⟩ := List.sublist_append_iff.1 hbefore
  cases left with
  | nil =>
      have hdrop : b ∈ table.drop k := by
        apply hright.subset
        rw [List.nil_append] at heq
        rw [← heq]
        exact List.mem_cons_of_mem a List.mem_cons_self
      exact absurd hdrop (List.disjoint_of_nodup_append hnodup hb)
  | cons c left =>
      have hhead : a = c := (List.cons.inj heq).1
      rw [hhead]
      exact hleft.subset List.mem_cons_self

variable {memory : QLearningMemory K} {ids : List ℤ} {first : Iteration K}

/-- In some order, an entry with value zero is replaced. -/
theorem pos_of_unchanged (hzero : sigmoid (0 : K) = 0)
    (htable : (memory.qTable.map Prod.fst).Nodup) (hids : ids.Nodup)
    (hlarge : maxRegions < ids.length) (h : ∀ second, Unchanged first second memory ids) :
    ∀ e ∈ (memory.updateRegionIdsIn first ids).qTable, 0 < e.2 := by
  intro e he
  by_contra hle
  obtain ⟨id, hid, hkey⟩ := @exists_dropped K _ _ _ first htable hids hlarge
  have hrenewed : (id, (0 : K)) ∈ (memory.updateRegionIdsIn first ids).renewed ids :=
    (mem_renewed_twice hzero hids).2 (Or.inr ⟨hid, hkey, rfl⟩)
  have hne : e ≠ (id, 0) := by
    intro heq
    rw [heq] at he
    exact hkey (List.mem_map_of_mem he)
  have hmet : [(id, (0 : K)), e].Sublist ((meetsFirst (id, 0)).order
      ((memory.updateRegionIdsIn first ids).renewed ids)) := by
    unfold meetsFirst
    dsimp only
    rw [if_pos hrenewed]
    apply List.Sublist.cons_cons
    rw [List.singleton_sublist, List.mem_erase_of_ne hne]
    exact (mem_renewed_twice hzero hids).2 (Or.inl he)
  have hsorted := sorted_stable (not_lt.1 hle) hmet
  have hkept : e ∈ (twice first (meetsFirst (id, 0)) memory ids).qTable :=
    (h (meetsFirst (id, 0))).mem_iff.2 he
  have hback := mem_take_of_before ((nodup_sorted (nodup_updated htable hids) hids).of_map _)
    hsorted hkept
  exact hkey (List.mem_map_of_mem ((h (meetsFirst (id, 0))).mem_iff.1 hback))

end Orders

section Conditions

variable {memory : QLearningMemory K} {ids : List ℤ} {iteration : Iteration K}

/-- A full table of positive entries, all of whose ids stay, stays. -/
theorem pos_of_full (htable : (memory.qTable.map Prod.fst).Nodup) (hids : ids.Nodup)
    (hfull : memory.qTable.length = maxRegions)
    (hall : ∀ e ∈ memory.qTable, e.1 ∈ ids ∧ 0 < e.2) :
    ∀ e ∈ (memory.updateRegionIdsIn iteration ids).qTable, 0 < e.2 := by
  intro e he
  by_contra hle
  have hkept : ∀ d ∈ memory.qTable, d ∈ (memory.updateRegionIdsIn iteration ids).qTable := by
    intro d hd
    by_contra hnot
    have hrenewed := (mem_renewed_iff hids).2 ⟨(hall d hd).1, Or.inl hd⟩
    have hdle := le_of_dropped he hrenewed hnot
    exact hle (lt_of_lt_of_le (hall d hd).2 hdle)
  have hlength : (memory.updateRegionIdsIn iteration ids).qTable.length ≤ memory.qTable.length := by
    rw [size_updated htable hids, hfull]
    exact min_le_right _ _
  have hperm := (List.subperm_of_subset (htable.of_map _) hkept).perm_of_length_le hlength
  exact hle (hall e (hperm.mem_iff.2 he)).2

theorem full_of_pos (hzero : sigmoid (0 : K) = 0) (htable : (memory.qTable.map Prod.fst).Nodup)
    (hids : ids.Nodup) (hsize : memory.qTable.length ≤ maxRegions)
    (hlarge : maxRegions < ids.length)
    (hpos : ∀ e ∈ (memory.updateRegionIdsIn iteration ids).qTable, 0 < e.2) :
    memory.qTable.length = maxRegions ∧ ∀ e ∈ memory.qTable, e.1 ∈ ids ∧ 0 < e.2 := by
  have hupdated := updated hzero htable hids iteration
  have hold : ∀ e ∈ (memory.updateRegionIdsIn iteration ids).qTable, e ∈ memory.qTable := by
    intro e he
    apply hupdated.kept e he
    by_contra hnew
    have hvalue := hupdated.new e he hnew
    exact absurd (hpos e he) (by rw [hvalue]; exact lt_irrefl 0)
  have hlength : (memory.updateRegionIdsIn iteration ids).qTable.length = maxRegions := by
    rw [size_updated htable hids]
    exact min_eq_right hlarge.le
  have hperm := (List.subperm_of_subset (hupdated.nodup.of_map _) hold).perm_of_length_le
    (hlength ▸ hsize)
  constructor
  · rw [← hperm.length_eq, hlength]
  · intro e he
    have hmem := hperm.mem_iff.2 he
    exact ⟨hupdated.keys e hmem, hpos e hmem⟩

def negativeIds (memory : QLearningMemory K) (ids : List ℤ) : List ℤ :=
  (memory.qTable.filter fun e => decide (e.2 < 0) && ids.contains e.1).map Prod.fst

/-- A table without negative values after the cut leaves room for the negative ids. -/
theorem negativeIds_le (hzero : sigmoid (0 : K) = 0)
    (htable : (memory.qTable.map Prod.fst).Nodup) (hids : ids.Nodup)
    (hlarge : maxRegions < ids.length)
    (hnonneg : ∀ e ∈ (memory.updateRegionIdsIn iteration ids).qTable, 0 ≤ e.2) :
    maxRegions + (negativeIds memory ids).length ≤ ids.length := by
  have hupdated := updated hzero htable hids iteration
  have hnegative : (negativeIds memory ids).Nodup :=
    htable.sublist (List.filter_sublist.map Prod.fst)
  have hdisjoint : ((memory.updateRegionIdsIn iteration ids).qTable.map Prod.fst).Disjoint
      (negativeIds memory ids) := by
    intro id hid hneg
    obtain ⟨e, he, rfl⟩ := List.mem_map.1 hid
    obtain ⟨d, hd, hkey⟩ := List.mem_map.1 hneg
    obtain ⟨hd, hvalue⟩ := List.mem_filter.1 hd
    have hlt : d.2 < 0 := of_decide_eq_true (Bool.and_eq_true_iff.1 hvalue).1
    have hmem := hupdated.kept e he (hkey ▸ List.mem_map_of_mem hd)
    have heq : d = e := List.inj_on_of_nodup_map htable hd hmem hkey
    rw [heq] at hlt
    exact absurd (hnonneg e he) (not_le.2 hlt)
  have hsubset : ∀ id ∈ (memory.updateRegionIdsIn iteration ids).qTable.map Prod.fst ++
      negativeIds memory ids, id ∈ ids := by
    intro id hid
    rcases List.mem_append.1 hid with hkey | hneg
    · obtain ⟨e, he, rfl⟩ := List.mem_map.1 hkey
      exact hupdated.keys e he
    · obtain ⟨d, hd, rfl⟩ := List.mem_map.1 hneg
      have hcontains := (Bool.and_eq_true_iff.1 (List.mem_filter.1 hd).2).2
      exact List.contains_iff_mem.1 hcontains
  have hle := (List.subperm_of_subset (hupdated.nodup.append hnegative hdisjoint)
    hsubset).length_le
  rw [List.length_append, List.length_map, hupdated.size, min_eq_right hlarge.le] at hle
  exact hle

end Conditions

/-- In every order of the hash maps one update keeps the best entries and a second one
changes nothing: exactly when the ids fit, or ten positive entries stay.  With more ids
an order that changes nothing needs ten ids without a negative value. -/
theorem update_twice_iff (h : ExpLaws K) (memory : QLearningMemory K) (ids : List ℤ)
    (hsize : memory.qTable.length ≤ maxRegions) (htable : (memory.qTable.map Prod.fst).Nodup)
    (hids : ids.Nodup) :
    ((∀ first second : Iteration K,
        Updated memory.qTable ids (memory.updateRegionIdsIn first ids).qTable ∧
          Unchanged first second memory ids) ↔
      ids.length ≤ maxRegions ∨
        memory.qTable.length = maxRegions ∧ ∀ e ∈ memory.qTable, e.1 ∈ ids ∧ 0 < e.2) ∧
    (∀ first : Iteration K,
      Updated memory.qTable ids (memory.updateRegionIdsIn first ids).qTable) ∧
    ∀ first second : Iteration K, Unchanged first second memory ids →
      ids.length ≤ maxRegions ∨ maxRegions + (negativeIds memory ids).length ≤ ids.length := by
  have hzero : sigmoid (0 : K) = 0 := QTableBounds.sigmoid_zero h
  refine ⟨⟨fun hall => ?_, fun hcond first second => ?_⟩, fun first => ?_,
    fun first second hun => ?_⟩
  · by_cases hfits : ids.length ≤ maxRegions
    · exact Or.inl hfits
    · right
      have hlarge := not_le.1 hfits
      have hpos := @pos_of_unchanged K _ _ _ ⟨id, fun _ => List.Perm.refl _⟩ hzero htable hids
        hlarge fun second => (hall _ second).2
      exact full_of_pos hzero htable hids hsize hlarge hpos
  · refine ⟨updated hzero htable hids first, ?_⟩
    rcases hcond with hfits | ⟨hfull, hall⟩
    · exact unchanged_of_fits hzero htable hids hfits
    · exact unchanged_of_pos hzero htable hids (pos_of_full htable hids hfull hall)
  · exact updated hzero htable hids first
  · by_cases hfits : ids.length ≤ maxRegions
    · exact Or.inl hfits
    · right
      have hlarge := not_le.1 hfits
      have hnonneg := nonneg_of_unchanged hzero htable hids hlarge hun
      exact negativeIds_le hzero htable hids hlarge hnonneg

def inOrder : Iteration K := ⟨id, fun _ => List.Perm.refl _⟩

/-- A region found and one that is new. -/
theorem update_twice_iff_example :
    Unchanged (inOrder (K := ℝ)) inOrder ⟨none, .benchmark, [(1, 1 / 2)]⟩ [1, 2] := by
  have htwice := update_twice_iff expLaws_real ⟨none, .benchmark, [(1, 1 / 2)]⟩ [1, 2] (by decide)
    (by decide) (by decide)
  exact (htwice.1.2 (Or.inl (by decide)) inOrder inOrder).2

/-- Eight good regions, two bad ones and a new one: the worst is dropped, and comes
back in the place of the second worst. -/
def worn : QLearningMemory ℚ :=
  ⟨none, .benchmark, [(1, 1), (2, 1), (3, 1), (4, 1), (5, 1), (6, 1), (7, 1), (8, 1),
    (9, -1 / 2), (10, -1)]⟩

theorem worn_changes_again :
    ¬Unchanged inOrder inOrder worn [1, 2, 3, 4, 5, 6, 7, 8, 9, 10, 11] := by
  intro hunchanged
  have hzero : sigmoid (0 : ℚ) = 0 := by decide +kernel
  have htable : (worn.qTable.map Prod.fst).Nodup := by decide
  have hnonneg := nonneg_of_unchanged hzero htable (by decide) (by decide) hunchanged
  have hle := negativeIds_le hzero htable (by decide) (by decide) hnonneg
  have hnegative : (negativeIds worn [1, 2, 3, 4, 5, 6, 7, 8, 9, 10, 11]).length = 2 := by
    decide +kernel
  rw [hnegative] at hle
  exact absurd hle (by decide)

end DOptimas.Proofs.RegionUpdate
