import DOptimas.Actors.Origins
/-!
# What every run of the cluster keeps

The invariant of the region actors together with the origins of the messages in
flight, along every run whose environment only injects external messages.
-/

namespace DOptimas.Actors

open DOptimas.Support DOptimas.Core

variable {K : Type} [RealArith K] [CommonsMath K] [MetaHeuristics K] {n m : ℕ} {d : Deployment K}

structure Initial (c : Cluster n m d) : Prop where
  net : c.net = []
  waiting : ∀ a, c.waiting a = none
  region : ∀ i, c.region i = .new

theorem initial_start (nodes : ℕ → SimulationActor K n m) (agents : Fin m → AgentActor K n m)
    (benchmark : BenchmarkActor) : Initial (Cluster.start d nodes agents benchmark) :=
  ⟨rfl, fun _ => rfl, fun _ => rfl⟩

def ExternalEvent : ClusterEvent K n m → Prop
  | .inject p => External p.message
  | _ => True

structure Sane (c : Cluster n m d) : Prop where
  wired : Config.Wired Origin c
  sound : ∀ i, (c.region i).Sound
  /-- Region handlers ask no questions. -/
  idle : ∀ i, c.waiting (.region i) = none

theorem Initial.sane {c : Cluster n m d} (h : Initial c) : Sane c where
  wired := ⟨by simp [h.net], fun a q next hwait => by simp [h.waiting a] at hwait⟩
  sound i := by
    rw [h.region i]
    exact RegionActor.sound_new
  idle i := h.waiting _

omit [RealArith K] [CommonsMath K] [MetaHeuristics K] in
theorem Origin.creating {src : Address n m} {dst sender : ActorRef n m} {message : Message K n m}
    (h : Origin src dst sender message) : RegionActor.Creating message := by
  cases message <;> first | exact h.2.2 | trivial

theorem region_settle {c c' : Cluster n m d} {i : Fin n}
    {p : Process Failure (RegionActor K n m) (ActorRef n m) (Message K n m) Unit}
    {Q : RegionActor K n m → Prop}
    (hp : p.Sat (RegionActor.soundContract K m i) (fun _ t _ => Q t) ())
    (h : Config.settle c (.region i) p = some c') :
    (∃ t, p.outcome = .done () t ∧ Q t ∧ c' = Config.finish c (.region i) t p.sent) ∨
    (∃ e t, p.outcome = .failed e t ∧ RegionActor.SavedSound t.saved ∧
      c' = Config.finish c (.region i) (RegionActor.recover t) p.sent) := by
  have hend := hp.segment.2
  rcases Config.settle_cases h with ⟨u, t, hout, rfl⟩ | ⟨e, t, hout, rfl⟩ |
    ⟨t, dst, message, next, hout, rfl⟩
  · rw [hout] at hend
    exact Or.inl ⟨t, hout, hend, rfl⟩
  · rw [hout] at hend
    refine Or.inr ⟨e, t, hout, hend, ?_⟩
    simp [Config.crash, actorRestart]
  · rw [hout] at hend
    exact hend.1.elim

theorem region_settle_ne {c c' : Cluster n m d} {a : Address n m} {i : Fin n}
    (ha : a ≠ .region i)
    {p : Process Failure (ActorState K n m a) (ActorRef n m) (Message K n m) Unit}
    (h : Config.settle c a p = some c') :
    c'.region i = c.region i ∧ c'.waiting (.region i) = c.waiting (.region i) := by
  have hne : Address.region i ≠ a := fun h => ha h.symm
  rcases Config.settle_cases h with ⟨u, t, -, rfl⟩ | ⟨e, t, -, rfl⟩ |
    ⟨t, dst, message, next, -, rfl⟩
  · exact ⟨Config.state_finish_ne _ _ _ _ hne, Config.waiting_finish_ne _ _ _ _ hne⟩
  · exact ⟨Config.state_finish_ne _ _ _ _ hne, Config.waiting_finish_ne _ _ _ _ hne⟩
  · exact ⟨Config.state_block_ne _ _ _ _ _ _ _ hne, Config.waiting_block_ne _ _ _ _ _ _ _ hne⟩

theorem region_deliver {c c' : Cluster n m d} (h : Sane c) {src : Address n m} {i : Fin n}
    {choices : Choices K}
    (hstep : Config.step c (.deliver src (.actor (.region i)) choices) = some c') :
    ∃ p rest, take src (.actor (.region i)) c.net = some (p, rest) ∧
      Origin p.src p.dst p.sender p.message ∧
      (RegionActor.receive i choices.choices p.sender p.message (c.region i)).Sat
        (RegionActor.soundContract K m i)
        (fun _ t _ => t.Sound ∧ t.problem = RegionActor.problemAfter (c.region i) p.message) () ∧
      Config.settle { c with net := rest } (.region i)
        (RegionActor.receive i choices.choices p.sender p.message (c.region i)) = some c' := by
  obtain ⟨-, p, rest, htake, hsettle⟩ := Config.step_deliver hstep
  have horigin := h.wired.net p (mem_take htake)
  exact ⟨p, rest, htake, horigin, RegionActor.sat_receive i p.sender (h.sound i) choices.choices
    p.message horigin.creating, hsettle⟩

theorem Sane.step {c c' : Cluster n m d} (h : Sane c) {e : ClusterEvent K n m}
    (hext : ExternalEvent e) (hstep : Config.step c e = some c') : Sane c' := by
  have hwired : Config.Wired Origin c' := by
    refine h.wired.step (cluster_keeps d) (fun p hp => ?_) hstep
    subst hp
    exact External.origin hext _ _ _
  have hregions : ∀ i, (c'.region i).Sound ∧ c'.waiting (.region i) = none := by
    intro i
    cases e with
    | deliver src dst choices =>
        cases dst with
        | actor a =>
            by_cases ha : a = .region i
            · subst ha
              obtain ⟨p, rest, -, -, hsat, hsettle⟩ := region_deliver h hstep
              rcases region_settle (Q := fun t => t.Sound ∧ _) hsat hsettle with
                ⟨t, -, ht, rfl⟩ | ⟨e, t, -, ht, rfl⟩
              · exact ⟨by simpa [Cluster.region] using ht.1, by simp⟩
              · exact ⟨by simpa [Cluster.region] using RegionActor.sound_recover ht, by simp⟩
            · obtain ⟨-, p, rest, -, hsettle⟩ := Config.step_deliver hstep
              obtain ⟨hstate, hwait⟩ := region_settle_ne ha hsettle
              rw [hstate, hwait]
              exact ⟨h.sound i, h.idle i⟩
        | promise a k =>
            obtain ⟨p, rest, -, hanswer⟩ := Config.step_answer hstep
            rcases hanswer with ⟨q, next, hwaiting, -, hsettle⟩ | ⟨-, rfl⟩
            · have ha : a ≠ .region i := by
                rintro rfl
                rw [h.idle i] at hwaiting
                simp at hwaiting
              obtain ⟨hstate, hwait⟩ := region_settle_ne ha hsettle
              rw [hstate, hwait]
              exact ⟨h.sound i, h.idle i⟩
            · exact ⟨h.sound i, h.idle i⟩
    | inject p =>
        obtain rfl := Config.step_inject hstep
        exact ⟨h.sound i, h.idle i⟩
    | expire a =>
        obtain ⟨q, next, hwaiting, hsettle⟩ := Config.step_expire hstep
        have ha : a ≠ .region i := by
          rintro rfl
          rw [h.idle i] at hwaiting
          simp at hwaiting
        obtain ⟨hstate, hwait⟩ := region_settle_ne ha hsettle
        rw [hstate, hwait]
        exact ⟨h.sound i, h.idle i⟩
  exact ⟨hwired, fun i => (hregions i).1, fun i => (hregions i).2⟩

end DOptimas.Actors
