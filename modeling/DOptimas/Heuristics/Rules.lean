import DOptimas.Heuristics.PopulationHeuristics
import DOptimas.Core.Analyser
/-!
# How the primitives run

Rules for programs that only read solutions.  They find what they look up and
leave the world as it is, which an evaluation does too where nothing is pending.
-/

namespace DOptimas.Heuristics

open DOptimas.Support
open DOptimas.Core (SolutionAnalyser)

variable {K : Type} [RealArith K]

def World.valueOf (w : World K) (r : Ref) : Option K :=
  (w.solutions[r]?).bind Solution.functionValue

section Equations

variable {w : World K} {r left right : Ref} {s : Solution K} {x y : K}

theorem deref_eq (h : w.solutions[r]? = some s) : deref r w = .ok s w := by
  unfold deref
  rw [bind_of_ok (show (get : Program K (World K)) w = .ok w w from rfl), h]
  rfl

def World.value (w : World K) (r : Ref) : K := (w.valueOf r).getD 0

theorem World.value_eq (h : w.valueOf r = some x) : w.value r = x := by
  simp [World.value, h]

def World.keeps (w : World K) (a : SolutionAnalyser) (left right : Ref) : Bool :=
  a.keepsLeft (w.value left) (w.value right)

theorem evaluate_eq {context : Context} (h : w.solutions[r]? = some s)
    (hchanged : s.changed = false) : evaluate context r w = .ok s.functionValue w := by
  unfold evaluate
  rw [bind_of_ok (deref_eq h), hchanged]
  exact bind_of_ok (deref_eq h)

theorem isViable_eq {context : Context} (h : w.solutions[r]? = some s)
    (hchanged : s.changed = false) : isViable context r w = .ok s.viable w := by
  unfold isViable
  rw [bind_of_ok (deref_eq h), hchanged]
  exact bind_of_ok (deref_eq h)

end Equations

section Reading

variable {w : World K} {α : Type}

theorem ends_nonNull (x : Option α) :
    Ends (nonNull x : Program K α) w fun a w' => x = some a ∧ w' = w := by
  cases x with
  | none => exact .throws _
  | some a => exact .ret ⟨rfl, rfl⟩

theorem ends_nth (xs : List α) (i : ℕ) :
    Ends (nth xs i : Program K α) w fun a w' => xs[i]? = some a ∧ w' = w := by
  unfold nth
  split
  next x hx => exact .ret ⟨hx, rfl⟩
  · exact .throws _

theorem ends_orThrow (x : Except Exception α) :
    Ends (orThrow x : Program K α) w fun a w' => x = .ok a ∧ w' = w := by
  cases x with
  | error e => exact .throws e
  | ok a => exact .ret ⟨rfl, rfl⟩

theorem ends_deref (r : Ref) :
    Ends (deref r) w fun s w' => w.solutions[r]? = some s ∧ w' = w := by
  unfold deref
  refine (Ends.reads (Q := fun v w' => v = w ∧ w' = w) ⟨rfl, rfl⟩).bind ?_
  rintro _ _ ⟨rfl, rfl⟩
  exact ends_nonNull _

theorem ends_getFunctionValue (r : Ref) :
    Ends (getFunctionValue r) w fun value w' => w.valueOf r = value ∧ w' = w := by
  unfold getFunctionValue
  refine (ends_deref r).bind ?_
  rintro s _ ⟨hs, rfl⟩
  exact .ret ⟨by simp [World.valueOf, hs], rfl⟩

theorem ends_getBestSolution (a : SolutionAnalyser) (left right : Ref) :
    Ends (getBestSolution a left right) w fun best w' =>
      (∃ x y, w.valueOf left = some x ∧ w.valueOf right = some y ∧
        best = if a.keepsLeft x y then left else right) ∧ w' = w := by
  unfold getBestSolution
  refine (ends_deref left).bind ?_
  rintro s _ ⟨hs, rfl⟩
  refine (ends_nonNull _).bind ?_
  rintro x w ⟨hx, rfl⟩
  refine (ends_deref right).bind ?_
  rintro t _ ⟨ht, rfl⟩
  refine (ends_nonNull _).bind ?_
  rintro y w ⟨hy, rfl⟩
  exact .ret ⟨⟨x, y, by simp [World.valueOf, hs, hx], by simp [World.valueOf, ht, hy], rfl⟩, rfl⟩

theorem ends_findBestSolution (a : SolutionAnalyser) (rs : List Ref) :
    Ends (findBestSolution a rs) w fun best w' =>
      (∀ b, best = some b → b ∈ rs) ∧ (best = none → rs = []) ∧ w' = w := by
  cases rs with
  | nil => exact .ret ⟨by simp, fun _ => rfl, rfl⟩
  | cons r rs =>
      have hfold : Ends (rs.foldlM (getBestSolution a) r) w fun b w' => b ∈ r :: rs ∧ w' = w := by
        refine .foldlM ⟨List.mem_cons_self, rfl⟩ fun x hx b v ⟨hb, hv⟩ => ?_
        subst hv
        refine (ends_getBestSolution a b x).mono ?_
        rintro best _ ⟨⟨_, _, _, _, rfl⟩, rfl⟩
        refine ⟨?_, rfl⟩
        split
        · exact hb
        · exact List.mem_cons_of_mem r hx
      exact hfold.bind fun b v ⟨hb, hv⟩ =>
        .ret ⟨fun _ h => Option.some.inj h ▸ hb, fun h => by simp at h, hv⟩

theorem ends_getBestSolution_keeps (a : SolutionAnalyser) (left right : Ref) :
    Ends (getBestSolution a left right) w fun best w' => w' = w ∧
      best = (if w.keeps a left right then left else right) ∧
      (a = .benchmark → w.value best ≤ w.value left ∧ w.value best ≤ w.value right) := by
  refine (ends_getBestSolution a left right).mono ?_
  rintro best w' ⟨⟨x, y, hx, hy, rfl⟩, rfl⟩
  have hleft : w'.value left = x := World.value_eq hx
  have hright : w'.value right = y := World.value_eq hy
  have hsame : w'.keeps a left right = a.keepsLeft x y := by rw [World.keeps, hleft, hright]
  rw [hsame]
  refine ⟨rfl, rfl, fun ha => ?_⟩
  by_cases hkeeps : a.keepsLeft x y = true
  · rw [if_pos hkeeps, hleft, hright]
    rw [ha, SolutionAnalyser.keepsLeft_benchmark] at hkeeps
    exact ⟨le_rfl, hkeeps⟩
  · rw [if_neg hkeeps, hleft, hright]
    rw [ha, SolutionAnalyser.keepsLeft_benchmark, not_le] at hkeeps
    exact ⟨hkeeps.le, le_rfl⟩

theorem ite_eq_or {α : Type} (c : Prop) [Decidable c] (x y : α) :
    (if c then x else y) = x ∨ (if c then x else y) = y := by
  by_cases h : c
  · exact Or.inl (if_pos h)
  · exact Or.inr (if_neg h)

/-- One of the two is chosen, and by the benchmark's analyser a smaller value. -/
theorem ends_getBestSolution_min (a : SolutionAnalyser) (left right : Ref) :
    Ends (getBestSolution a left right) w fun best w' => w' = w ∧ (best = left ∨ best = right) ∧
      (a = .benchmark → w.value best ≤ w.value left ∧ w.value best ≤ w.value right) := by
  refine (ends_getBestSolution_keeps a left right).mono ?_
  rintro best w' ⟨hw', rfl, hmin⟩
  exact ⟨hw', ite_eq_or _ left right, hmin⟩

theorem ends_findBestSolution_min (rs : List Ref) :
    Ends (findBestSolution .benchmark rs) w fun best w' =>
      (∀ b, best = some b → ∀ t ∈ rs, w.value b ≤ w.value t) ∧ w' = w := by
  cases rs with
  | nil => exact .ret ⟨by simp, rfl⟩
  | cons r rs =>
      have hfold := Ends.foldlM_idx rs (f := getBestSolution .benchmark) (b := r) (s := w)
        (I := fun i b w' => (∀ t ∈ r :: rs.take i, w.value b ≤ w.value t) ∧ w' = w)
        ⟨by simp, rfl⟩ ?_
      · refine hfold.bind fun b v ⟨hb, hv⟩ => .ret ⟨fun b' hb' t ht => ?_, hv⟩
        rw [List.take_length] at hb
        rw [← Option.some.inj hb']
        exact hb t ht
      · rintro i a ha b w ⟨hb, rfl⟩
        refine (ends_getBestSolution_min .benchmark b a).mono ?_
        rintro best w ⟨rfl, -, hmin⟩
        refine ⟨fun t ht => ?_, rfl⟩
        rw [List.take_add_one, ha] at ht
        rcases List.mem_append.1 (List.cons_append ▸ ht) with ht | ht
        · exact (hmin rfl).1.trans (hb t ht)
        · rw [List.mem_singleton.1 ht]
          exact (hmin rfl).2

theorem ends_equals (left right : Ref) :
    Ends (equals left right) w fun same w' =>
      (∃ s t, w.solutions[left]? = some s ∧ w.solutions[right]? = some t ∧
        same = (left = right || s.solutionsVector = t.solutionsVector)) ∧ w' = w := by
  unfold equals
  refine (ends_deref left).bind ?_
  rintro s _ ⟨hs, rfl⟩
  refine (ends_deref right).bind ?_
  rintro t _ ⟨ht, rfl⟩
  exact .ret ⟨⟨s, t, hs, ht, rfl⟩, rfl⟩

theorem ends_compare (a : SolutionAnalyser) (left right : Ref) :
    Ends (Heuristics.compare a left right) w fun c w' =>
      (∃ s t, w.solutions[left]? = some s ∧ w.solutions[right]? = some t ∧
        (c < 0 ∧ (∃ x y, s.functionValue = some x ∧ t.functionValue = some y ∧ a.keepsLeft x y) ∨
          ¬c < 0 ∧ (left = right ∨ s.solutionsVector = t.solutionsVector ∨
            ∃ x y, s.functionValue = some x ∧ t.functionValue = some y ∧ ¬a.keepsLeft x y))) ∧
      w' = w := by
  unfold Heuristics.compare
  refine (ends_equals left right).bind ?_
  rintro same _ ⟨⟨s, t, hs, ht, rfl⟩, rfl⟩
  split
  next hsame =>
    refine .ret ⟨⟨s, t, hs, ht, Or.inr ⟨by simp, ?_⟩⟩, rfl⟩
    have hor : left = right ∨ s.solutionsVector = t.solutionsVector := by simpa using hsame
    exact hor.imp_right Or.inl
  next hsame =>
    have hne : left ≠ right := fun h => hsame (by simp [h])
    refine (ends_getBestSolution a left right).bind ?_
    rintro best _ ⟨⟨x, y, hx, hy, rfl⟩, rfl⟩
    have hx' : s.functionValue = some x := by simpa [World.valueOf, hs] using hx
    have hy' : t.functionValue = some y := by simpa [World.valueOf, ht] using hy
    refine .ret ⟨⟨s, t, hs, ht, ?_⟩, rfl⟩
    by_cases hkeeps : a.keepsLeft x y = true
    · exact Or.inl ⟨by simp [hkeeps], x, y, hx', hy', hkeeps⟩
    · refine Or.inr ⟨?_, Or.inr (Or.inr ⟨x, y, hx', hy', hkeeps⟩)⟩
      simp [hkeeps, hne.symm]

def World.vectorOf (w : World K) (r : Ref) : Option (List (Option (Element K))) :=
  (w.solutions[r]?).map Solution.solutionsVector

/-- `compare` is negative: the vectors differ and the left solution is chosen. -/
def World.precedes (w : World K) (a : SolutionAnalyser) (left right : Ref) : Prop :=
  w.vectorOf left ≠ w.vectorOf right ∧ w.keeps a left right

theorem ends_equals_vectorOf (left right : Ref) :
    Ends (equals left right) w fun same w' =>
      (same = true ↔ w.vectorOf left = w.vectorOf right) ∧ w' = w := by
  refine (ends_equals left right).mono ?_
  rintro same w' ⟨⟨s, t, hs, ht, rfl⟩, rfl⟩
  refine ⟨?_, rfl⟩
  rw [World.vectorOf, World.vectorOf, hs, ht, Bool.or_eq_true, decide_eq_true_eq,
    decide_eq_true_eq, Option.map_some, Option.map_some, Option.some.injEq, or_iff_right_iff_imp]
  rintro rfl
  obtain rfl : s = t := Option.some.inj (hs.symm.trans ht)
  rfl

theorem ends_compare_precedes (a : SolutionAnalyser) (left right : Ref) :
    Ends (Heuristics.compare a left right) w fun c w' =>
      (c < 0 ↔ w.precedes a left right) ∧ w' = w := by
  unfold Heuristics.compare
  refine (ends_equals_vectorOf left right).bind ?_
  rintro same v ⟨hsame, hv⟩
  subst v
  split
  next h => exact .ret ⟨⟨fun hc => absurd hc (lt_irrefl 0), fun hp => absurd (hsame.1 h) hp.1⟩, rfl⟩
  next h =>
    have hvector : w.vectorOf left ≠ w.vectorOf right := fun heq => h (hsame.2 heq)
    have hne : left ≠ right := fun heq => hvector (by rw [heq])
    refine (ends_getBestSolution_keeps a left right).bind ?_
    rintro best v ⟨hv, hbest, -⟩
    subst v
    refine .ret ⟨?_, rfl⟩
    rw [World.precedes, and_iff_right hvector, hbest]
    by_cases hkeeps : w.keeps a left right = true
    · simp [hkeeps]
    · simp [hkeeps, Ne.symm hne]

theorem ends_getDoubleValue (r : Ref) (i : ℕ) :
    Ends (getDoubleValue r i) w fun x w' =>
      (∃ s e, w.solutions[r]? = some s ∧ s.solutionsVector[i]? = some (some e) ∧
        x = e.toDoubleValue) ∧ w' = w := by
  unfold getDoubleValue
  refine (ends_deref r).bind ?_
  rintro s _ ⟨hs, rfl⟩
  dsimp only
  split
  · exact (Ends.throws _).bind fun _ _ h => h
  · split
    · exact (Ends.throws _).bind fun _ _ h => h
    · refine (ends_nth _ i).bind ?_
      rintro e _ ⟨he, rfl⟩
      refine (ends_nonNull e).bind ?_
      rintro e' _ ⟨rfl, rfl⟩
      exact .ret ⟨⟨s, e', hs, he, rfl⟩, rfl⟩

theorem ends_subList (xs : List α) (lower upper : ℤ) :
    Ends (subList (K := K) xs lower upper) w fun ys w' =>
      ys = (xs.drop lower.toNat).take (upper - lower).toNat ∧ w' = w := by
  unfold subList
  dsimp only
  split
  · exact (Ends.throws _).bind fun _ _ h => h
  · split
    · exact (Ends.throws _).bind fun _ _ h => h
    · split
      · exact (Ends.throws _).bind fun _ _ h => h
      · exact .ret ⟨rfl, rfl⟩

theorem ends_stop (s : StopCondition) (time : K) (it wi : ℤ)
    (parameters : MetaHeuristicParameters K) :
    Ends (s.isSatisfied time it wi parameters) w fun _ w' => w' = w := by
  cases s with
  | mix =>
      simp only [StopCondition.isSatisfied]
      split
      · exact .throws _
      · exact .ret rfl
      · exact .ret rfl
      · exact .ret rfl
  | f0 => exact .ret rfl
  | _ =>
      simp only [StopCondition.isSatisfied]
      split
      · exact .ret rfl
      · exact .ret rfl

end Reading

/-! ## Methods -/

section Methods

variable {F α β : Type} {x : F} {w : World K} {S : β → F × World K → Prop}

theorem ends_fields {g : F → Method F K β} (h : Ends (g x) (x, w) S) :
    Ends (fields >>= g) (x, w) S := by
  have hfields : Ends (fields : Method F K F) (x, w) fun a s => a = x ∧ s = (x, w) := by
    unfold fields
    exact (Ends.reads (Q := fun v s => v = (x, w) ∧ s = (x, w)) ⟨rfl, rfl⟩).bind
      fun v s ⟨hv, hs⟩ => .ret ⟨by rw [hv], hs⟩
  refine hfields.bind ?_
  rintro _ _ ⟨rfl, rfl⟩
  exact h

theorem ends_setFields {f : F → F} {g : Unit → Method F K β} (h : Ends (g ()) (f x, w) S) :
    Ends (setFields f >>= g) (x, w) S := by
  refine Ends.bind (Q := fun _ s => s = (f x, w)) (.modifies rfl) ?_
  rintro _ _ rfl
  exact h

theorem ends_call {p : Program K α} {Q : α → World K → Prop} (hp : Ends p w Q)
    {g : α → Method F K β} (hg : ∀ a w', Q a w' → Ends (g a) (x, w') S) :
    Ends (call p >>= g) (x, w) S := by
  refine (Ends.onState (S := fun a s => s.1 = x ∧ Q a s.2) (hp.mono fun _ _ h => ⟨rfl, h⟩)).bind ?_
  rintro a ⟨_, w'⟩ ⟨rfl, h⟩
  exact hg a w' h

end Methods

end DOptimas.Heuristics
