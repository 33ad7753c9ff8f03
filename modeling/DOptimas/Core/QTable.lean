import DOptimas.Core.Agent
import DOptimas.Support.Roulette
import Mathlib.Data.List.Perm.Basic
import Mathlib.Tactic.Linarith
/-!
# The Q-table as a map

What putting, removing and cutting do to keys and values.  The order in which a
hash map is iterated is not specified, so the cut takes it as an argument.
-/

namespace DOptimas.Core

open DOptimas.Support

namespace QLearningMemory

variable {K : Type}

section Tables

variable {table : List (ℤ × K)} {key : ℤ} {value : K} {e : ℤ × K}

abbrev HasKey (table : List (ℤ × K)) (key : ℤ) : Prop := key ∈ table.map Prod.fst

theorem any_key_iff : (table.any fun e => e.1 = key) = true ↔ HasKey table key := by
  simp [HasKey]

theorem put_of_not_hasKey (h : ¬HasKey table key) :
    put table key value = table ++ [(key, value)] := by
  unfold put
  rw [if_neg (by rwa [any_key_iff])]

theorem mem_put (h : e ∈ put table key value) : e ∈ table ∨ e.2 = value := by
  unfold put at h
  split at h
  · obtain ⟨e', he', rfl⟩ := List.mem_map.1 h
    split
    · exact Or.inr rfl
    · exact Or.inl he'
  · rcases List.mem_append.1 h with h | h
    · exact Or.inl h
    · exact Or.inr (by rw [List.mem_singleton.1 h])

theorem length_put_le (table : List (ℤ × K)) (key : ℤ) (value : K) :
    (put table key value).length ≤ table.length + 1 := by
  unfold put
  split
  · rw [List.length_map]
    omega
  · rw [List.length_append, List.length_singleton]

/-- Every value after putting one value under some keys is that one, or was there before. -/
theorem mem_foldl_put {ids : List ℤ}
    (h : e ∈ ids.foldl (fun table id => put table id value) table) :
    e ∈ table ∨ e.2 = value := by
  induction ids generalizing table with
  | nil => exact Or.inl h
  | cons id ids ih =>
      rcases ih h with hput | heq
      · exact mem_put hput
      · exact Or.inr heq

theorem length_foldl_put_le (ids : List ℤ) (table : List (ℤ × K)) (value : K) :
    (ids.foldl (fun table id => put table id value) table).length ≤ table.length + ids.length := by
  induction ids generalizing table with
  | nil => exact le_refl _
  | cons id ids ih =>
      have hstep := length_put_le table id value
      have hrest := ih (put table id value)
      rw [List.length_cons]
      exact hrest.trans (by omega)

theorem foldl_put_new {ids : List ℤ} (hids : ids.Nodup) (h : ∀ id ∈ ids, ¬HasKey table id) :
    ids.foldl (fun table id => put table id value) table =
      table ++ ids.map fun id => (id, value) := by
  induction ids generalizing table with
  | nil => exact (List.append_nil table).symm
  | cons id ids ih =>
      obtain ⟨hid, hids⟩ := List.nodup_cons.1 hids
      rw [List.foldl_cons, put_of_not_hasKey (h id List.mem_cons_self), ih hids, List.append_assoc]
      · rfl
      · intro id' hid' hkey
        rw [HasKey, List.map_append, List.mem_append] at hkey
        rcases hkey with hkey | hkey
        · exact h id' (List.mem_cons_of_mem id hid') hkey
        · obtain rfl : id' = id := by simpa using hkey
          exact hid hid'

theorem foldl_remove (ids : List ℤ) (table : List (ℤ × K)) :
    ids.foldl remove table = table.filter fun e => !ids.contains e.1 := by
  induction ids generalizing table with
  | nil => simp
  | cons id ids ih =>
      rw [List.foldl_cons, ih, remove, List.filter_filter]
      refine List.filter_congr fun e _ => ?_
      by_cases he : e.1 = id
      · simp [he]
      · simp [he]

end Tables

variable [RealArith K]

/-- An order in which the entries of a hash map are met. -/
structure Iteration (K : Type) where
  order : List (ℤ × K) → List (ℤ × K)
  perm : ∀ table, (order table).Perm table

def renewed (memory : QLearningMemory K) (updatedIds : List ℤ) : List (ℤ × K) :=
  let regionIds := memory.qTable.map Prod.fst
  let stay := updatedIds.filter fun id => regionIds.contains id
  let toRemove := regionIds.filter fun id => !stay.contains id
  let toAdd := updatedIds.filter fun id => !stay.contains id
  toAdd.foldl (fun table id => put table id (sigmoid 0)) (toRemove.foldl remove memory.qTable)

/-- `updateRegionIds`, where the entries are met in any order. -/
def updateRegionIdsIn (iteration : Iteration K) (memory : QLearningMemory K)
    (updatedIds : List ℤ) : QLearningMemory K :=
  { memory with
    qTable := ((iteration.order (memory.renewed updatedIds)).mergeSort
      fun a b => decide (b.2 ≤ a.2)).take maxRegions }

theorem updateRegionIds_eq (memory : QLearningMemory K) (updatedIds : List ℤ) :
    memory.updateRegionIds updatedIds =
      memory.updateRegionIdsIn ⟨id, fun _ => List.Perm.refl _⟩ updatedIds := rfl

/-- `Agent.updateMemory`, on the memory. -/
def updateMemory (iteration : Iteration K) (choices : List ℕ) (memory : QLearningMemory K)
    (ids : List ℤ) : QLearningMemory K :=
  if memory.isEmpty then memory.initializeIds choices ids
  else memory.updateRegionIdsIn iteration ids

theorem updateMemory_agent [MetaHeuristics K] (a : Agent K) (choices : List ℕ) (ids : List ℤ) :
    (a.updateMemory choices ids).qLearningMemory =
      updateMemory ⟨id, fun _ => List.Perm.refl _⟩ choices a.qLearningMemory ids := rfl

section Renewed

variable {memory : QLearningMemory K} {ids : List ℤ}

theorem renewed_eq (hids : ids.Nodup) :
    memory.renewed ids = memory.qTable.filter (fun e => ids.contains e.1) ++
      (ids.filter fun id => !(memory.qTable.map Prod.fst).contains id).map
        fun id => (id, sigmoid 0) := by
  have hstay : ∀ id, (ids.filter fun id => (memory.qTable.map Prod.fst).contains id).contains id =
      (ids.contains id && (memory.qTable.map Prod.fst).contains id) := by
    intro id
    rw [Bool.eq_iff_iff, Bool.and_eq_true, List.contains_iff_mem, List.mem_filter,
      List.contains_iff_mem, List.contains_iff_mem]
  have hremoved : ((memory.qTable.map Prod.fst).filter fun id =>
      !(ids.filter fun id => (memory.qTable.map Prod.fst).contains id).contains id).foldl remove
        memory.qTable = memory.qTable.filter fun e => ids.contains e.1 := by
    rw [foldl_remove]
    refine List.filter_congr fun e he => ?_
    have hkey : e.1 ∈ memory.qTable.map Prod.fst := List.mem_map_of_mem he
    rw [Bool.eq_iff_iff, Bool.not_eq_true', ← Bool.not_eq_true, List.contains_iff_mem,
      List.mem_filter, Bool.not_eq_true', ← Bool.not_eq_true, hstay, Bool.and_eq_true,
      List.contains_iff_mem, List.contains_iff_mem]
    simp [hkey]
  have hadd : (ids.filter fun id =>
      !(ids.filter fun id => (memory.qTable.map Prod.fst).contains id).contains id) =
        ids.filter fun id => !(memory.qTable.map Prod.fst).contains id := by
    refine List.filter_congr fun id hid => ?_
    rw [hstay, List.contains_iff_mem.2 hid, Bool.true_and]
  unfold renewed
  dsimp only
  rw [hremoved, hadd, foldl_put_new (hids.filter _)]
  intro id hid hkey
  have hnot : id ∉ memory.qTable.map Prod.fst := by simpa using (List.mem_filter.1 hid).2
  obtain ⟨e, he, rfl⟩ := List.mem_map.1 hkey
  exact hnot (List.mem_map_of_mem (List.mem_of_mem_filter he))

theorem mem_renewed_iff (hids : ids.Nodup) {e : ℤ × K} :
    e ∈ memory.renewed ids ↔ e.1 ∈ ids ∧
      (e ∈ memory.qTable ∨ ¬HasKey memory.qTable e.1 ∧ e.2 = sigmoid 0) := by
  rw [renewed_eq hids, List.mem_append, List.mem_filter, List.contains_iff_mem]
  constructor
  · rintro (⟨he, hid⟩ | he)
    · exact ⟨hid, Or.inl he⟩
    · obtain ⟨id, hid, rfl⟩ := List.mem_map.1 he
      obtain ⟨hid, hnot⟩ := List.mem_filter.1 hid
      exact ⟨hid, Or.inr ⟨by simpa using hnot, rfl⟩⟩
  · rintro ⟨hid, he | ⟨hnot, hvalue⟩⟩
    · exact Or.inl ⟨he, hid⟩
    · refine Or.inr (List.mem_map.2 ⟨e.1, List.mem_filter.2 ⟨hid, by simpa using hnot⟩, ?_⟩)
      rw [← hvalue]

theorem keys_renewed (hids : ids.Nodup) :
    (memory.renewed ids).map Prod.fst =
      (memory.qTable.map Prod.fst).filter (fun id => ids.contains id) ++
        ids.filter fun id => !(memory.qTable.map Prod.fst).contains id := by
  rw [renewed_eq hids, List.map_append, List.map_map, List.filter_map]
  refine congrArg₂ _ rfl ?_
  exact List.map_id _

theorem nodup_renewed (htable : (memory.qTable.map Prod.fst).Nodup) (hids : ids.Nodup) :
    ((memory.renewed ids).map Prod.fst).Nodup := by
  rw [keys_renewed hids]
  refine (htable.filter _).append (hids.filter _) ?_
  intro id hid hid'
  have hnot : id ∉ memory.qTable.map Prod.fst := by simpa using (List.mem_filter.1 hid').2
  exact hnot (List.mem_of_mem_filter hid)

theorem length_renewed (htable : (memory.qTable.map Prod.fst).Nodup) (hids : ids.Nodup) :
    (memory.renewed ids).length = ids.length := by
  have hperm : ((memory.renewed ids).map Prod.fst).Perm ids := by
    rw [List.perm_ext_iff_of_nodup (nodup_renewed htable hids) hids]
    intro id
    rw [keys_renewed hids, List.mem_append, List.mem_filter, List.mem_filter,
      List.contains_iff_mem]
    by_cases hkey : id ∈ memory.qTable.map Prod.fst
    · simp [hkey]
    · simp [hkey]
  rw [← List.length_map, hperm.length_eq]

end Renewed

section Extremes

variable {table : List (ℤ × K)} {e : ℤ × K}

/-- The entry with a minimal value is in the table, and no value is smaller. -/
theorem minEntry_spec (h : minEntry table = some e) :
    e ∈ table ∧ ∀ e' ∈ table, e.2 ≤ e'.2 := by
  have hfold : ∀ (es : List (ℤ × K)) (a : ℤ × K),
      es.foldl (fun a b => if b.2 < a.2 then b else a) a ∈ a :: es ∧
        ∀ b ∈ a :: es, (es.foldl (fun a b => if b.2 < a.2 then b else a) a).2 ≤ b.2 := by
    intro es
    induction es with
    | nil => exact fun a => ⟨List.mem_cons_self, fun b hb => by rw [List.mem_singleton.1 hb]; rfl⟩
    | cons b es ih =>
        intro a
        rw [List.foldl_cons]
        by_cases hlt : b.2 < a.2
        · rw [if_pos hlt]
          obtain ⟨hmem, hle⟩ := ih b
          refine ⟨List.mem_cons_of_mem a hmem, fun c hc => ?_⟩
          rcases List.mem_cons.1 hc with rfl | hc
          · exact (hle b List.mem_cons_self).trans hlt.le
          · exact hle c hc
        · rw [if_neg hlt]
          obtain ⟨hmem, hle⟩ := ih a
          constructor
          · rcases List.mem_cons.1 hmem with heq | hmem
            · rw [heq]
              exact List.mem_cons_self
            · exact List.mem_cons_of_mem a (List.mem_cons_of_mem b hmem)
          · intro c hc
            rcases List.mem_cons.1 hc with rfl | hc
            · exact hle c List.mem_cons_self
            · rcases List.mem_cons.1 hc with rfl | hc
              · exact (hle a List.mem_cons_self).trans (not_lt.1 hlt)
              · exact hle c (List.mem_cons_of_mem a hc)
  cases table with
  | nil => cases h
  | cons a es =>
      obtain rfl := Option.some.inj h
      exact hfold es a

theorem minEntry_ne_none (h : table ≠ []) : ∃ e, minEntry table = some e := by
  cases table with
  | nil => exact absurd rfl h
  | cons a es => exact ⟨_, rfl⟩

theorem maxValueOf_mem (table : List (ℤ × K)) :
    table = [] ∧ maxValueOf table = 0 ∨ ∃ e ∈ table, maxValueOf table = e.2 := by
  have hfold : ∀ (es : List (ℤ × K)) (x : K),
      es.foldl (fun a b => max a b.2) x = x ∨
        ∃ e ∈ es, es.foldl (fun a b => max a b.2) x = e.2 := by
    intro es
    induction es with
    | nil => exact fun x => Or.inl rfl
    | cons b es ih =>
        intro x
        rw [List.foldl_cons]
        rcases ih (max x b.2) with h | ⟨e, he, h⟩
        · rw [h]
          rcases max_choice x b.2 with hx | hb
          · exact Or.inl hx
          · exact Or.inr ⟨b, List.mem_cons_self, hb⟩
        · exact Or.inr ⟨e, List.mem_cons_of_mem b he, h⟩
  cases table with
  | nil => exact Or.inl ⟨rfl, rfl⟩
  | cons a es =>
      right
      rcases hfold es a.2 with h | ⟨e, he, h⟩
      · exact ⟨a, List.mem_cons_self, h⟩
      · exact ⟨e, List.mem_cons_of_mem a he, h⟩

end Extremes

section Roulette

/-- `chooseRegion` at a dice: the keys and the running sums are two arrays. -/
def chooseRegionAt (memory : QLearningMemory K) (dice : K) : Except Failure (Option ℤ) :=
  match minEntry memory.qTable with
  | none => .ok none
  | some least =>
      let rewards := (normalizeRewards memory.qTable least.2).map Prod.snd
      let total := rewards.sum
      if total = 0 then .ok none
      else
        let ids := memory.qTable.map Prod.fst
        let accumulated := Roulette.accumulated 0 (rewards.map fun q => q / total)
        match ids[accumulated.findIdx fun p => dice ≤ p]? with
        | some id => .ok (some id)
        | none => .error .indexOutOfBounds

theorem spin_eq (dice total acc : K) (table : List (ℤ × K)) :
    spin dice total acc table = Roulette.spin dice acc (table.map fun e => (e.1, e.2 / total)) := by
  induction table generalizing acc with
  | nil => rfl
  | cons e table ih =>
      rw [spin, List.map_cons, Roulette.spin, ih]

theorem getElem?_accumulated (table : List (ℤ × K)) (dice total minReward : K) :
    (table.map Prod.fst)[(Roulette.accumulated 0 (((normalizeRewards table minReward).map
      Prod.snd).map fun q => q / total)).findIdx fun p => dice ≤ p]? =
        spin dice total 0 (normalizeRewards table minReward) := by
  have hkeys : table.map Prod.fst =
      ((normalizeRewards table minReward).map fun e => (e.1, e.2 / total)).map Prod.fst := by
    unfold normalizeRewards
    rw [List.map_map, List.map_map]
    rfl
  have hshares : ((normalizeRewards table minReward).map Prod.snd).map (fun q => q / total) =
      ((normalizeRewards table minReward).map fun e => (e.1, e.2 / total)).map Prod.snd := by
    rw [List.map_map, List.map_map]
    rfl
  rw [spin_eq, ← Roulette.getElem?_findIdx_accumulated, ← hkeys, ← hshares]

theorem chooseRegion_eq (memory : QLearningMemory K) (dice : Draw K) :
    memory.chooseRegion dice = memory.chooseRegionAt dice.value := by
  unfold chooseRegion chooseRegionAt
  cases minEntry memory.qTable with
  | none => rfl
  | some least =>
      have hfound := getElem?_accumulated memory.qTable dice.value
        ((normalizeRewards memory.qTable least.2).map Prod.snd).sum least.2
      dsimp only
      generalize (memory.qTable.map Prod.fst)[(_ : ℕ)]? = found at hfound ⊢
      subst hfound
      cases spin dice.value ((normalizeRewards memory.qTable least.2).map Prod.snd).sum 0
          (normalizeRewards memory.qTable least.2) with
      | some id => rfl
      | none => rfl

end Roulette

section Cut

variable {iteration : Iteration K} {memory : QLearningMemory K} {ids : List ℤ}

def sorted (iteration : Iteration K) (memory : QLearningMemory K) (ids : List ℤ) :
    List (ℤ × K) :=
  (iteration.order (memory.renewed ids)).mergeSort fun a b => decide (b.2 ≤ a.2)

theorem qTable_updateRegionIdsIn :
    (memory.updateRegionIdsIn iteration ids).qTable =
      (sorted iteration memory ids).take maxRegions :=
  rfl

theorem sorted_perm : (sorted iteration memory ids).Perm (memory.renewed ids) :=
  (List.mergeSort_perm _ _).trans (iteration.perm _)

theorem sorted_pairwise : (sorted iteration memory ids).Pairwise fun a b => b.2 ≤ a.2 := by
  have hpairwise := @List.pairwise_mergeSort (ℤ × K) (fun a b => decide (b.2 ≤ a.2))
    (fun a b c hab hbc => decide_eq_true ((of_decide_eq_true hbc).trans (of_decide_eq_true hab)))
    (fun a b => by
      rcases le_total b.2 a.2 with h | h
      · simp [h]
      · simp [h])
    (iteration.order (memory.renewed ids))
  exact hpairwise.imp fun h => of_decide_eq_true h

/-- Entries with the same value keep the order in which they were met. -/
theorem sorted_stable {a b : ℤ × K} (hle : b.2 ≤ a.2)
    (h : [a, b].Sublist (iteration.order (memory.renewed ids))) :
    [a, b].Sublist (sorted iteration memory ids) := by
  refine List.pair_sublist_mergeSort ?_ ?_ (decide_eq_true hle) h
  · exact fun a b c hab hbc =>
      decide_eq_true ((of_decide_eq_true hbc).trans (of_decide_eq_true hab))
  · intro a b
    rcases le_total b.2 a.2 with h | h
    · simp [h]
    · simp [h]

end Cut

end QLearningMemory

end DOptimas.Core
