import DOptimas.Heuristics.Breeding
/-!
# Crossing over and choosing solutions of full dimension

The elements of two parents are dealt out to two new solutions, position by
position, so that children of parents of full dimension have it too.  A random
choice gives as many solutions as it is asked for.
-/

namespace DOptimas.Heuristics

open DOptimas.Support

variable {K : Type} [RealArith K]

def FullDimension (problem : Problem K) (vector : List (Option (Element K))) : Prop :=
  vector.length = problem.dimension ∧ none ∉ vector

def Solution.filled (problem : Problem K) (id : ℕ) (vector : List (Option (Element K))) :
    Solution K :=
  { Solution.built problem id with solutionsVector := vector, changed := true }

section Rules

variable {w : World K} {problem : Problem K} {this : GA K}
  {V : List (Option (Element K)) → Prop}

theorem ends_setSolutionsVector {r : Ref} {s : Solution K} (hs : w.solutions[r]? = some s)
    {vector : List (Option (Element K))} (hlength : vector.length ≤ s.problem.dimension) :
    Ends (setSolutionsVector r vector) w fun _ w' => w'.solutions =
      w.solutions.set r { s with solutionsVector := vector, changed := true } := by
  unfold setSolutionsVector
  refine (ends_deref r).bind ?_
  rintro t w ⟨ht, rfl⟩
  obtain rfl : s = t := Option.some.inj (hs.symm.trans ht)
  rw [if_neg (not_lt.2 hlength)]
  exact .modifies (modify_eq_set hs _)

theorem ends_dealt (cut : ℤ) (father1 father2 : List (Option (Element K))) (n : ℕ) :
    Ends ((List.range n).mapM fun i => do
        let e1 ← nth father1 i
        let e2 ← nth father2 i
        return if i < cut then (e1, e2) else (e2, e1) : Program K _) w fun elements w' =>
      w' = w ∧ elements.length = n ∧ ∀ x ∈ elements,
        (x.1 ∈ father1 ∨ x.1 ∈ father2) ∧ (x.2 ∈ father1 ∨ x.2 ∈ father2) := by
  refine (Ends.mapM_idx (I := fun elements w' => w' = w ∧ ∀ x ∈ elements,
      (x.1 ∈ father1 ∨ x.1 ∈ father2) ∧ (x.2 ∈ father1 ∨ x.2 ∈ father2)) ⟨rfl, by simp⟩ ?_).mono ?_
  · rintro i a - elements w - ⟨rfl, hall⟩
    refine (ends_nth father1 a).bind ?_
    rintro e1 w ⟨h1, rfl⟩
    refine (ends_nth father2 a).bind ?_
    rintro e2 w ⟨h2, rfl⟩
    refine .ret ⟨rfl, fun x hx => ?_⟩
    rcases List.mem_append.1 hx with hx | hx
    · exact hall x hx
    · rw [List.mem_singleton.1 hx]
      split
      · exact ⟨Or.inl (List.mem_of_getElem? h1), Or.inr (List.mem_of_getElem? h2)⟩
      · exact ⟨Or.inr (List.mem_of_getElem? h2), Or.inl (List.mem_of_getElem? h1)⟩
  · rintro elements w' ⟨hlength, hw, hall⟩
    exact ⟨hw, by simpa using hlength, hall⟩

theorem ends_children {vector1 vector2 : List (Option (Element K))}
    (hlength1 : vector1.length ≤ problem.dimension)
    (hlength2 : vector2.length ≤ problem.dimension) :
    Ends (do
        let s1 ← buildSolution problem
        let s2 ← buildSolution problem
        setSolutionsVector s1 vector1
        setSolutionsVector s2 vector2
        return [s1, s2] : Program K (List Ref)) w fun children w' =>
      children = [w.solutions.length, w.solutions.length + 1] ∧ ∃ id1 id2, w'.solutions =
        w.solutions ++
          [Solution.filled problem id1 vector1, Solution.filled problem id2 vector2] := by
  refine (ends_buildSolution problem).bind ?_
  rintro _ w₁ ⟨rfl, id1, hw₁⟩
  refine (ends_buildSolution problem).bind ?_
  rintro _ w₂ ⟨rfl, id2, hw₂⟩
  have hlength : w₁.solutions.length = w.solutions.length + 1 := by simp [hw₁]
  have hbuilt : w₂.solutions =
      w.solutions ++ [Solution.built problem id1, Solution.built problem id2] := by
    simp [hw₂, hw₁]
  have hfirst : w₂.solutions[w.solutions.length]? = some (Solution.built problem id1) := by
    simp [hbuilt]
  refine (ends_setSolutionsVector hfirst hlength1).bind ?_
  intro _ w₃ hw₃
  have hfilled : w₃.solutions =
      w.solutions ++ [Solution.filled problem id1 vector1, Solution.built problem id2] := by
    rw [hw₃, hbuilt, List.set_append_right _ _ le_rfl, Nat.sub_self]
    rfl
  have hsecond : w₃.solutions[w₁.solutions.length]? = some (Solution.built problem id2) := by
    simp [hfilled, hlength]
  refine (ends_setSolutionsVector hsecond hlength2).bind ?_
  intro _ w₄ hw₄
  refine .ret ⟨by rw [hlength], id1, id2, ?_⟩
  rw [hw₄, hfilled, hlength, List.set_append_right _ _ (Nat.le_succ _), Nat.succ_sub le_rfl,
    Nat.sub_self]
  rfl

theorem ends_binaryCrossover {parents : List Ref}
    (hparents : ∀ r ∈ parents, Stands problem (FullDimension problem) w r) :
    Ends (binaryCrossover problem parents) w fun children w' =>
      w.Grows (fun _ => False) w' ∧ children.length = 2 ∧
        ∀ r ∈ children, Shaped problem (FullDimension problem) w' r := by
  unfold binaryCrossover
  refine ((draws_solutions w).nextInt rfl 0 _).bind fun cut w₁ hw₁ => ?_
  refine (ends_nth parents 0).bind ?_
  rintro r1 w₁ ⟨h1, rfl⟩
  refine (ends_deref r1).bind ?_
  rintro father1 w₁ ⟨hf1, rfl⟩
  refine (ends_nth parents 1).bind ?_
  rintro r2 w₁ ⟨h2, rfl⟩
  refine (ends_deref r2).bind ?_
  rintro father2 w₁ ⟨hf2, rfl⟩
  rw [hw₁] at hf1 hf2
  have hfull1 := (hparents r1 (List.mem_of_getElem? h1)).shaped father1 hf1
  have hfull2 := (hparents r2 (List.mem_of_getElem? h2)).shaped father2 hf2
  refine (ends_dealt cut father1.solutionsVector father2.solutionsVector problem.dimension).bind ?_
  rintro elements w₁ ⟨rfl, hlength, hdealt⟩
  have hvectors : FullDimension problem (elements.map Prod.fst) ∧
      FullDimension problem (elements.map Prod.snd) := by
    refine ⟨⟨by simp [hlength], fun hmem => ?_⟩, ⟨by simp [hlength], fun hmem => ?_⟩⟩
    · obtain ⟨x, hx, hnone⟩ := List.mem_map.1 hmem
      rcases (hdealt x hx).1 with hold | hold
      · exact hfull1.2.2 (hnone ▸ hold)
      · exact hfull2.2.2 (hnone ▸ hold)
    · obtain ⟨x, hx, hnone⟩ := List.mem_map.1 hmem
      rcases (hdealt x hx).2 with hold | hold
      · exact hfull1.2.2 (hnone ▸ hold)
      · exact hfull2.2.2 (hnone ▸ hold)
  refine (ends_children hvectors.1.1.le hvectors.2.1.le).mono ?_
  rintro children w₂ ⟨rfl, id1, id2, hw₂⟩
  rw [hw₁] at hw₂
  refine ⟨grows_of_append hw₂ (by simp [Solution.filled, Solution.built]) _, rfl, ?_⟩
  intro r hr s hs
  have hnew : w.solutions.length ≤ r := by
    rw [hw₁] at hr
    rcases List.mem_pair.1 hr with rfl | rfl
    · exact le_rfl
    · exact Nat.le_succ _
  rw [hw₂, List.getElem?_append_right hnew] at hs
  rcases List.mem_pair.1 (List.mem_of_getElem? hs) with rfl | rfl
  · exact ⟨rfl, hvectors.1⟩
  · exact ⟨rfl, hvectors.2⟩

theorem ends_chooseRandomK (rs : List Ref) (parameters : CollectionParameters K) (n : Option ℤ) :
    Ends (modifyCollection (some .chooseRandomK) problem rs parameters n) w fun chosen w' =>
      w'.solutions = w.solutions ∧ n = some (chosen.length : ℤ) ∧ ∀ r ∈ chosen, r ∈ rs := by
  refine (ends_nonNull (some ModifiesSolutionCollections.chooseRandomK)).bind ?_
  rintro m w ⟨hm, rfl⟩
  obtain rfl := Option.some.inj hm
  refine (ends_nonNull n).bind ?_
  rintro k w ⟨rfl, rfl⟩
  refine ((draws_solutions w).nextSample rfl rs k).mono ?_
  rintro chosen w' ⟨⟨hlength, hdrawn⟩, hw'⟩
  exact ⟨hw', by rw [hlength], fun r hr => hdrawn.mem hr⟩

end Rules

namespace GA

variable {this : GA K} {V : List (Option (Element K)) → Prop}

theorem yields_chooseRandomK (this : GA K) (n : Option ℤ)
    (V : List (Option (Element K)) → Prop) :
    Yields this (some .chooseRandomK) n V fun size => n = some (size : ℤ) := by
  intro w solutions hsolutions
  refine (ends_chooseRandomK solutions _ n).mono ?_
  rintro chosen w' ⟨hw', hlength, hmem⟩
  have hgrows : w.Grows (fun _ => False) w' := .of_eq _ hw'
  exact ⟨hgrows, hlength, fun r hr => (hgrows.stands (hsolutions r (hmem r hr)) id).shaped⟩

theorem yields_binaryCrossover (this : GA K) (n : Option ℤ) :
    Yields this (some .binaryCrossover) n (FullDimension this.problem) (· = 2) := by
  intro w parents hparents
  refine (ends_nonNull (some ModifiesSolutionCollections.binaryCrossover)).bind ?_
  rintro m w ⟨hm, rfl⟩
  obtain rfl := Option.some.inj hm
  exact ends_binaryCrossover hparents

end GA

end DOptimas.Heuristics
