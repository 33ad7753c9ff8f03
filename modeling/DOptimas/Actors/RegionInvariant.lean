import DOptimas.Actors.RegionHandlers
import DOptimas.Support.Contract
/-!
# The invariant of a region actor

Which fields are set together, whatever messages the actor has handled and
however often it has been restarted.  The only thing asked of the messages is
that a region is created with at least one solution.
-/

namespace DOptimas.Actors.RegionActor

open DOptimas.Support DOptimas.Core Handler

variable {K : Type} {n m : ℕ}

structure Ready (r : Region K) (leader : Option (ActorRef n m)) : Prop where
  consistent : r.Consistent
  best : r.bestSolution ≠ none
  leader : leader ≠ none

def SavedSound (saved : Option (RegionActorSnapshot K n m)) : Prop :=
  ∀ snapshot, saved = some snapshot → ∀ r, snapshot.region = some r → Ready r snapshot.leader

structure Sound (s : RegionActor K n m) : Prop where
  /-- The timer is scheduled with the problem. -/
  timer : s.problem ≠ none → s.internalTask ≠ none
  ready : ∀ r, s.region = some r → Ready r s.leader
  problem : ∀ p r, s.problem = some p → s.region = some r → r.problem = p
  saved : SavedSound s.saved
  /-- A region that merged itself away is gone from the journal too. -/
  dissolved : s.region = none → ∀ snapshot, s.saved = some snapshot → snapshot.region = none

def Creating : Message K n m → Prop
  | .createRegion _ _ solutions _ _ => solutions ≠ []
  | _ => True

theorem sound_new : Sound (new : RegionActor K n m) :=
  { timer := fun h => absurd rfl h
    ready := fun r hr => by simp [new] at hr
    problem := fun p r hp => by simp [new] at hp
    saved := fun snapshot hs => by simp [new] at hs
    dissolved := fun _ snapshot hs => by simp [new] at hs }

theorem saved_recover (s : RegionActor K n m) : (recover s).saved = s.saved := by
  unfold recover
  split
  next h => exact h.symm
  · rfl

theorem problem_recover (s : RegionActor K n m) : (recover s).problem = none := by
  unfold recover
  split <;> rfl

theorem region_recover {s : RegionActor K n m} {r : Region K} (h : (recover s).region = some r) :
    ∃ snapshot, s.saved = some snapshot ∧ snapshot.region = some r ∧
      (recover s).leader = snapshot.leader := by
  unfold recover at h ⊢
  split at h
  · simp [new] at h
  next snapshot hs => exact ⟨snapshot, hs, h, rfl⟩

theorem sound_recover {s : RegionActor K n m} (h : SavedSound s.saved) : Sound (recover s) where
  timer hp := absurd (problem_recover s) hp
  ready r hr := by
    obtain ⟨snapshot, hs, hregion, hleader⟩ := region_recover hr
    rw [hleader]
    exact h snapshot hs r hregion
  problem p r hp := by simp [problem_recover] at hp
  saved := by
    rw [saved_recover]
    exact h
  dissolved hnone snapshot hs := by
    rw [saved_recover] at hs
    simpa [recover, hs] using hnone

def RegionSends (id : Fin n) : Message K n m → Prop
  | .solutionResponse i _ _ => i = id
  | .regionRegister i _ => i = id
  | .regionRelease i => i = id
  | .updateRegionSummary i _ => i = id
  | .mergeRequest i _ _ _ => i = id
  | .mergeResponse i _ => i = id
  | .mergeResult i _ _ => i = id
  | .regionSplit i _ _ => i = id
  | _ => False

/-- Region handlers ask no questions and end in a sound state or a restart. -/
def soundContract (K : Type) (m : ℕ) (id : Fin n) :
    Contract Failure (RegionActor K n m) (ActorRef n m) (Message K n m) Unit :=
  { Contract.plain (fun _ sender message => sender = self id ∧ RegionSends id message)
      (fun _ _ _ => False) fun _ s => SavedSound s.saved with
    stuckOk := False }

section Handlers

variable {s : RegionActor K n m} (id : Fin n) (sender : ActorRef n m) {p : Problem} {r : Region K}

theorem Sound.stored {kept : Region K} (h : Sound s) (hr : s.region = some r)
    (hkept : kept.Consistent) (hbest : kept.bestSolution ≠ none)
    (hsame : Region.SameRegion r kept) : Sound (stored s kept) where
  timer := h.timer
  ready r' hr' := by
    obtain rfl : kept = r' := by simpa [RegionActor.stored] using hr'
    exact ⟨hkept, hbest, (h.ready r hr).leader⟩
  problem q r' hq hr' := by
    obtain rfl : kept = r' := by simpa [RegionActor.stored] using hr'
    rw [hsame.problem]
    exact h.problem q r hq hr
  saved snapshot hs r' hr' := by
    obtain rfl : ⟨some kept, s.leader, s.globalSummary⟩ = snapshot := by
      simpa [RegionActor.stored] using hs
    obtain rfl : kept = r' := by simpa using hr'
    exact ⟨hkept, hbest, (h.ready r hr).leader⟩
  dissolved hnone := by simp [RegionActor.stored] at hnone

variable [RealArith K]

theorem sat_addSolutions (h : Sound s) (hp : s.problem ≠ none) (solutions : List (Solution K)) :
    (addSolutions id solutions s).Sat (soundContract K m id)
      (fun _ t _ => Sound t ∧ t.problem = s.problem) () := by
  cases hr : s.region with
  | none =>
      rw [addSolutions_missing id hr]
      exact h.saved
  | some r =>
      obtain ⟨p, hp⟩ := Option.ne_none_iff_exists'.1 hp
      have hready := h.ready r hr
      obtain ⟨leader, hl⟩ := Option.ne_none_iff_exists'.1 hready.leader
      by_cases hss : ∀ t ∈ solutions, t.Storable r.problem.dimension
      · obtain ⟨r', hr', hlist, hsame, hbest, hprocess⟩ := addSolutions_storable id hp hl hr
          hready.consistent hss (Or.inl hready.best)
        rw [hprocess]
        exact ⟨⟨rfl, rfl⟩, h.stored hr hr' hbest hsame, rfl⟩
      · obtain ⟨e, s', hprocess, -, hsaved⟩ := addSolutions_not_storable id hr
          hready.consistent hss
        rw [hprocess]
        change SavedSound s'.saved
        rw [hsaved]
        exact h.saved

theorem sat_onCreate (h : Sound s) (settings : RegionSettings) {solutions : List (Solution K)}
    (time : ℕ) (hne : solutions ≠ []) :
    (onCreate id sender settings solutions time p s).Sat (soundContract K m id)
      (fun _ t _ => Sound t ∧ t.problem = some p) () := by
  by_cases hss : ∀ t ∈ solutions, t.Storable p.dimension
  · obtain ⟨r, hr, -, hprob, -, hbest, hprocess⟩ := onCreate_storable id sender
      (s := s) settings time hss hne
    rw [hprocess]
    refine ⟨⟨rfl, rfl⟩, ⟨rfl, rfl⟩, ?_, by simp [created, hprob]⟩
    exact
      { timer := fun _ => by simp [created]
        ready := fun r' hr' => by
          obtain rfl : r = r' := by simpa [created] using hr'
          exact ⟨hr, hbest, by simp [created]⟩
        problem := fun q r' hq hr' => by
          obtain rfl : r = r' := by simpa [created] using hr'
          simpa [created] using hq
        saved := fun snapshot hs r' hr' => by
          obtain rfl : ⟨some r, some sender, s.globalSummary⟩ = snapshot := by
            simpa [created] using hs
          obtain rfl : r = r' := by simpa using hr'
          exact ⟨hr, hbest, by simp⟩
        dissolved := fun hnone => by simp [created] at hnone }
  · obtain ⟨e, s', hprocess, -, hsaved⟩ := onCreate_not_storable id sender
      (s := s) settings time hss
    rw [hprocess]
    change SavedSound s'.saved
    rw [hsaved]
    exact h.saved

theorem sat_problem_addSolutions (h : Sound s) (solutions : List (Solution K)) :
    ((do problemToString; addSolutions id solutions : RegionReceive K n m) s).Sat
      (soundContract K m id) (fun _ t _ => Sound t ∧ t.problem = s.problem) () := by
  cases hp : s.problem with
  | none =>
      simp only [bind_apply, problemToString_none hp, Process.fail_bind]
      exact h.saved
  | some p =>
      simp only [bind_apply, problemToString_some hp, Process.ret_bind]
      rw [← hp]
      exact sat_addSolutions id h (by simp [hp]) solutions

omit [RealArith K] in
theorem sat_onSolutionRequest (h : Sound s) (choices : List ℕ) (receiverId counter : ℤ) :
    (onSolutionRequest id choices sender receiverId counter s).Sat (soundContract K m id)
      (fun _ t _ => Sound t ∧ t.problem = s.problem) () := by
  cases hp : s.problem with
  | none =>
      simp only [onSolutionRequest, bind_apply, problemToString_none hp, Process.fail_bind]
      exact h.saved
  | some p =>
      cases hr : s.region with
      | none =>
          simp only [onSolutionRequest, bind_apply, problemToString_some hp, Process.ret_bind,
            deref_none hr, Process.fail_bind]
          exact h.saved
      | some r =>
          rcases onSolutionRequest_some id sender hp hr choices receiverId
            counter with hprocess | hprocess | ⟨solutions, -, hprocess⟩
          · rw [hprocess]
            exact ⟨h, hp⟩
          · rw [hprocess]
            exact h.saved
          · rw [hprocess]
            exact ⟨⟨rfl, rfl⟩, h, hp⟩

omit [RealArith K] in
theorem sat_onUpdateGlobalSummary (h : Sound s) (summary : Option (StatisticalSummary K))
    (time : ℕ) :
    (onUpdateGlobalSummary summary time s).Sat (soundContract K m id)
      (fun _ t _ => Sound t ∧ t.problem = s.problem)
      () := by
  cases hp : s.problem with
  | none =>
      rw [onUpdateGlobalSummary_none hp]
      exact h.saved
  | some p =>
      rw [onUpdateGlobalSummary_some hp]
      exact ⟨⟨h.timer, h.ready, h.problem, h.saved, h.dissolved⟩, hp⟩

omit [RealArith K] in
theorem sat_onStopSimulation (h : Sound s) :
    (onStopSimulation id sender s).Sat (soundContract K m id)
      (fun _ t _ => Sound t ∧ t.problem = s.problem) () := by
  cases ht : s.internalTask with
  | none =>
      rw [onStopSimulation_no_timer id sender ht]
      exact h.saved
  | some t =>
      cases hr : s.region with
      | none =>
          rw [onStopSimulation_no_region id sender ht hr]
          exact h.saved
      | some r =>
          rw [onStopSimulation_some id sender ht hr]
          have hready := h.ready r hr
          refine ⟨⟨rfl, rfl⟩, ?_, rfl⟩
          exact
            { timer := fun _ => by simp [stopped]
              ready := fun r' hr' => by
                obtain rfl : r.clear = r' := by simpa [stopped] using hr'
                exact ⟨hready.consistent.clear, hready.best, hready.leader⟩
              problem := fun q r' hq hr' => by
                obtain rfl : r.clear = r' := by simpa [stopped] using hr'
                exact h.problem q r hq hr
              saved := h.saved
              dissolved := fun hnone => by simp [stopped] at hnone }

omit [RealArith K] in
theorem sat_onMergeResponse (h : Sound s) (senderId : Fin n) :
    (onMergeResponse id sender senderId s).Sat (soundContract K m id)
      (fun _ t _ => Sound t ∧ t.problem = s.problem)
      () := by
  cases hp : s.problem with
  | none =>
      simp only [onMergeResponse, bind_apply, problemToString_none hp, Process.fail_bind]
      exact h.saved
  | some p =>
      cases hr : s.region with
      | none =>
          rw [onMergeResponse_dissolved id sender hp hr]
          exact ⟨h, hp⟩
      | some r =>
          obtain ⟨leader, hl⟩ := Option.ne_none_iff_exists'.1 (h.ready r hr).leader
          obtain ⟨t, ht⟩ := Option.ne_none_iff_exists'.1 (h.timer (by simp [hp]))
          rw [onMergeResponse_some id sender hp hr hl ht]
          refine ⟨⟨rfl, rfl⟩, ⟨rfl, rfl⟩, ?_, hp⟩
          exact
            { timer := fun _ => by simp [dissolved]
              ready := fun r' hr' => by simp [dissolved] at hr'
              problem := fun q r' _ hr' => by simp [dissolved] at hr'
              saved := fun snapshot hs r' hr' => by
                obtain rfl : ⟨none, s.leader, none⟩ = snapshot := by
                  simpa [dissolved] using hs
                simp at hr'
              dissolved := fun _ snapshot hs => by
                obtain rfl : ⟨none, s.leader, none⟩ = snapshot := by
                  simpa [dissolved] using hs
                rfl }

variable [CommonsMath K]

theorem sat_onMergeRequest (h : Sound s) (senderId : Fin n) (summary : SummaryStatistics K)
    (space : MultivariateSummaryStatistics K) :
    (onMergeRequest id sender senderId summary space s).Sat (soundContract K m id)
      (fun _ t _ => Sound t ∧ t.problem = s.problem) () := by
  cases hp : s.problem with
  | none =>
      simp only [onMergeRequest, bind_apply, problemToString_none hp, Process.fail_bind]
      exact h.saved
  | some p =>
      cases hr : s.region with
      | none =>
          simp only [onMergeRequest, bind_apply, problemToString_some hp, Process.ret_bind,
            deref_none hr, Process.fail_bind]
          exact h.saved
      | some r =>
          rcases onMergeRequest_some id sender hp hr senderId summary space
            with hprocess | ⟨-, hprocess⟩ | hprocess
          · rw [hprocess]
            exact ⟨h, hp⟩
          · rw [hprocess]
            exact h.saved
          · rw [hprocess]
            exact ⟨⟨rfl, rfl⟩, h, hp⟩

theorem sat_onInternalStimulus (h : Sound s) :
    (onInternalStimulus id s).Sat (soundContract K m id)
      (fun _ t _ => Sound t ∧ t.problem = s.problem) () := by
  by_cases hu : Unbalanced s
  · have ⟨r, g, hr, _, _⟩ := hu
    have hready := h.ready r hr
    obtain ⟨leader, hl⟩ := Option.ne_none_iff_exists'.1 hready.leader
    cases hp : s.problem with
    | none =>
        obtain ⟨kept, lower, higher, hprocess⟩ := onInternalStimulus_no_problem id hu hr
          hready.consistent hl hp
        rw [hprocess]
        exact ⟨⟨rfl, rfl⟩, h.saved⟩
    | some p =>
        obtain ⟨kept, lower, higher, -, hkept, hsame, -, hbest, hprocess⟩ :=
          onInternalStimulus_unbalanced id hu hr hready.consistent hl hp
        rw [hprocess]
        exact ⟨⟨rfl, rfl⟩, h.stored hr hkept (fun hnone => hready.best (hbest hnone)) hsame, hp⟩
  · rw [onInternalStimulus_balanced id hu]
    exact ⟨h, rfl⟩

def problemAfter (s : RegionActor K n m) : Message K n m → Option Problem
  | .createRegion _ _ _ _ p => some p
  | _ => s.problem

/-- Every handler keeps the invariant, and a failing one leaves a sound snapshot. -/
theorem sat_receive (h : Sound s) (choices : List ℕ) (message : Message K n m)
    (hcreate : Creating message) :
    (receive id choices sender message s).Sat (soundContract K m id)
      (fun _ t _ => Sound t ∧ t.problem = problemAfter s message) () := by
  cases message with
  | createRegion i settings solutions time p => exact sat_onCreate id sender h settings time hcreate
  | setLeader l =>
      refine And.intro
        { timer := h.timer
          ready := fun r hr => ⟨(h.ready r hr).consistent, (h.ready r hr).best, by simp⟩
          problem := h.problem
          saved := fun snap hs r hr => ?_
          dissolved := fun hnone snap hs => ?_ } rfl
      · obtain rfl := Option.some.inj hs
        exact ⟨(h.ready r hr).consistent, (h.ready r hr).best, by simp [snapshot]⟩
      · obtain rfl := Option.some.inj hs
        exact hnone
  | solutionResponse i j solutions => exact sat_problem_addSolutions id h solutions
  | mergeResult i j solutions => exact sat_problem_addSolutions id h solutions
  | solutionRequest i j counter => exact sat_onSolutionRequest id sender h choices j counter
  | mergeRequest i j summary space => exact sat_onMergeRequest id sender h i summary space
  | mergeResponse i j => exact sat_onMergeResponse id sender h i
  | internalStimulus => exact sat_onInternalStimulus id h
  | updateGlobalSummary i summary time ids => exact sat_onUpdateGlobalSummary id h summary time
  | stopSimulation => exact sat_onStopSimulation id sender h
  | _ => exact ⟨h, rfl⟩

end Handlers

end DOptimas.Actors.RegionActor
