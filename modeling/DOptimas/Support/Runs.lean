import Mathlib.Data.List.Basic
/-!
# Runs of a guarded transition system

A run is a list of scheduler choices applied to a start state.  `Always P`
follows a run and asks for `P` in every state it reaches; `Guarded G` asks that
every choice be made in a state that allows it.  `Guarded.safe` is the one
induction that every invariant of a guarded run goes through.
-/

namespace DOptimas.Support

variable {σ ι : Type} {step : σ → ι → Option σ}

/-- `P` holds in every state that the run `es` reaches from `s`. -/
def Always (step : σ → ι → Option σ) (P : σ → Prop) : σ → List ι → Prop
  | s, [] => P s
  | s, e :: es => P s ∧ ∀ t, step s e = some t → Always step P t es

/-- Every choice of the run `es` from `s` is made in a state that `G` allows. -/
def Guarded (step : σ → ι → Option σ) (G : σ → ι → Prop) : σ → List ι → Prop
  | _, [] => True
  | s, e :: es => G s e ∧ ∀ t, step s e = some t → Guarded step G t es

theorem Always.head {P : σ → Prop} {s : σ} {es : List ι} (h : Always step P s es) : P s := by
  cases es with
  | nil => exact h
  | cons e es => exact h.1

/-- An invariant that every allowed step preserves holds along a guarded run, and
so does what it implies of the next step. -/
theorem Guarded.safe {I : σ → Prop} {E : ι → Prop} {G F : σ → ι → Prop}
    (hstep : ∀ s e, I s → E e → G s e → F s e ∧ ∀ t, step s e = some t → I t) {s : σ}
    {es : List ι} (hinit : I s) (hall : ∀ e ∈ es, E e) (hguard : Guarded step G s es) :
    Guarded step F s es ∧ Always step I s es := by
  induction es generalizing s with
  | nil => exact ⟨trivial, hinit⟩
  | cons e es ih =>
      obtain ⟨hsafe, hnext⟩ := hstep s e hinit (hall e List.mem_cons_self) hguard.1
      have hrest : ∀ t, step s e = some t → Guarded step F t es ∧ Always step I t es :=
        fun t ht => ih (hnext t ht) (fun f hf => hall f (List.mem_cons_of_mem e hf))
          (hguard.2 t ht)
      exact ⟨⟨hsafe, fun t ht => (hrest t ht).1⟩, hinit, fun t ht => (hrest t ht).2⟩

def run (step : σ → ι → Option σ) : σ → List ι → Option σ
  | s, [] => some s
  | s, e :: es => (step s e).bind fun t => run step t es

theorem Always.of_run {P : σ → Prop} {s t : σ} {es fs : List ι}
    (h : Always step P s (es ++ fs)) (hrun : run step s es = some t) : P t := by
  induction es generalizing s with
  | nil =>
      obtain rfl : s = t := by simpa [run] using hrun
      exact h.head
  | cons e es ih =>
      obtain ⟨u, hu, hrest⟩ := Option.bind_eq_some_iff.1 hrun
      exact ih (h.2 u hu) hrest

theorem Always.last {P : σ → Prop} {s t : σ} {es : List ι} (h : Always step P s es)
    (hrun : run step s es = some t) : P t := by
  rw [← List.append_nil es] at h
  exact h.of_run hrun

theorem Guarded.of_run {G : σ → ι → Prop} {s t : σ} (es : List ι) {fs : List ι} {e : ι}
    (h : Guarded step G s (es ++ e :: fs)) (hrun : run step s es = some t) : G t e := by
  induction es generalizing s with
  | nil =>
      obtain rfl : s = t := by simpa [run] using hrun
      exact h.1
  | cons e' es ih =>
      obtain ⟨u, hu, hrest⟩ := Option.bind_eq_some_iff.1 hrun
      exact ih (h.2 u hu) hrest

/-- Two guards that agree wherever an invariant holds, which the allowed steps
preserve, allow the same runs. -/
theorem guarded_congr {I : σ → Prop} {E : ι → Prop} {G G' : σ → ι → Prop}
    (hstep : ∀ s e t, I s → E e → G s e → step s e = some t → I t)
    (hguard : ∀ s e, I s → E e → (G s e ↔ G' s e)) {s : σ} {es : List ι} (hinit : I s)
    (hall : ∀ e ∈ es, E e) : Guarded step G s es ↔ Guarded step G' s es := by
  induction es generalizing s with
  | nil => exact Iff.rfl
  | cons e es ih =>
      have he := hall e List.mem_cons_self
      have hrest : G s e → ∀ t, step s e = some t →
          (Guarded step G t es ↔ Guarded step G' t es) := fun hg t ht =>
        ih (hstep s e t hinit he hg ht) fun f hf => hall f (List.mem_cons_of_mem e hf)
      constructor
      · rintro ⟨hg, hnext⟩
        exact ⟨(hguard s e hinit he).1 hg, fun t ht => (hrest hg t ht).1 (hnext t ht)⟩
      · rintro ⟨hg, hnext⟩
        have hg' := (hguard s e hinit he).2 hg
        exact ⟨hg', fun t ht => (hrest hg' t ht).2 (hnext t ht)⟩

theorem guarded_and {G G' : σ → ι → Prop} {s : σ} {es : List ι} :
    Guarded step (fun s e => G s e ∧ G' s e) s es ↔
      Guarded step G s es ∧ Guarded step G' s es := by
  induction es generalizing s with
  | nil => exact (and_self_iff).symm
  | cons e es ih =>
      constructor
      · rintro ⟨⟨hg, hg'⟩, hnext⟩
        exact ⟨⟨hg, fun t ht => (ih.1 (hnext t ht)).1⟩, hg', fun t ht => (ih.1 (hnext t ht)).2⟩
      · rintro ⟨⟨hg, hnext⟩, hg', hnext'⟩
        exact ⟨⟨hg, hg'⟩, fun t ht => ih.2 ⟨hnext t ht, hnext' t ht⟩⟩

theorem guarded_cons_none {G : σ → ι → Prop} {s : σ} {e : ι} {es : List ι}
    (h : step s e = none) : Guarded step G s (e :: es) ↔ G s e := by
  simp [Guarded, h]

theorem guarded_cons_some {G : σ → ι → Prop} {s t : σ} {e : ι} {es : List ι}
    (h : step s e = some t) : Guarded step G s (e :: es) ↔ G s e ∧ Guarded step G t es := by
  simp [Guarded, h]

instance decidableGuarded (G : σ → ι → Prop) [∀ s e, Decidable (G s e)] :
    ∀ s es, Decidable (Guarded step G s es)
  | _, [] => isTrue trivial
  | s, e :: es =>
      match h : step s e with
      | none => decidable_of_iff _ (guarded_cons_none h).symm
      | some t =>
          have := decidableGuarded G t es
          decidable_of_iff _ (guarded_cons_some h).symm

/-! ## Accounts

What the steps of a run are worth adds up along it. -/

section Accounted

variable {M : Type} [Add M] {worth : σ → ι → σ → M}

/-- The system with the sum of what its steps have been worth so far. -/
def accounted (step : σ → ι → Option σ) (worth : σ → ι → σ → M) (s : σ × M) (e : ι) :
    Option (σ × M) :=
  (step s.1 e).map fun t => (t, s.2 + worth s.1 e t)

theorem accounted_eq_some {s t : σ × M} {e : ι} (h : accounted step worth s e = some t) :
    step s.1 e = some t.1 ∧ t.2 = s.2 + worth s.1 e t.1 := by
  obtain ⟨u, hu, rfl⟩ := Option.map_eq_some_iff.1 h
  exact ⟨hu, rfl⟩

theorem guarded_accounted {G : σ → ι → Prop} {s : σ × M} {es : List ι} :
    Guarded (accounted step worth) (fun s e => G s.1 e) s es ↔ Guarded step G s.1 es := by
  induction es generalizing s with
  | nil => exact Iff.rfl
  | cons e es ih =>
      constructor
      · rintro ⟨hg, hnext⟩
        refine ⟨hg, fun t ht => ?_⟩
        exact (ih (s := (t, s.2 + worth s.1 e t))).1 (hnext _ (by simp [accounted, ht]))
      · rintro ⟨hg, hnext⟩
        refine ⟨hg, fun t ht => ?_⟩
        exact ih.2 (hnext t.1 (accounted_eq_some ht).1)

end Accounted

theorem Always.mono {P Q : σ → Prop} (hPQ : ∀ s, P s → Q s) {s : σ} {es : List ι}
    (h : Always step P s es) : Always step Q s es := by
  induction es generalizing s with
  | nil => exact hPQ s h
  | cons e es ih => exact ⟨hPQ s h.1, fun t ht => ih (h.2 t ht)⟩

end DOptimas.Support
