import DOptimas.Actors.SimulationActor
import DOptimas.Support.Moves
/-!
# What stopping keeps

The clock and a stop clear the tables of a manager's regions, but they leave
alone whom it knows, who leads and which problem it works on, and they register
nothing.  What the steps between two questions keep, and the few messages they
send, is kept by every handler of that family.
-/

namespace DOptimas.Actors.SimulationActor

open DOptimas.Support DOptimas.Core Handler

variable {K : Type} {n m : ℕ} {γ : Type}

/-- The fields that neither the clock nor a stop changes; regions are only forgotten. -/
structure Unmoved (s t : SimulationActor K n m) : Prop where
  nodes : t.nodes = s.nodes
  agents : t.agents = s.agents
  regions : ∀ id, t.regions id = s.regions id ∨ t.regions id = none
  amILeader : t.amILeader = s.amILeader
  leader : t.leader = s.leader
  problem : t.problem = s.problem

namespace Unmoved

theorem of_regions {s t : SimulationActor K n m} (hnodes : t.nodes = s.nodes)
    (hagents : t.agents = s.agents) (hregions : t.regions = s.regions)
    (hflag : t.amILeader = s.amILeader) (hleader : t.leader = s.leader)
    (hproblem : t.problem = s.problem) : Unmoved s t :=
  ⟨hnodes, hagents, fun id => Or.inl (by rw [hregions]), hflag, hleader, hproblem⟩

theorem refl (s : SimulationActor K n m) : Unmoved s s := of_regions rfl rfl rfl rfl rfl rfl

theorem trans {s t u : SimulationActor K n m} (h : Unmoved s t) (h' : Unmoved t u) :
    Unmoved s u := by
  refine ⟨h'.nodes.trans h.nodes, h'.agents.trans h.agents, fun id => ?_,
    h'.amILeader.trans h.amILeader, h'.leader.trans h.leader, h'.problem.trans h.problem⟩
  rcases h'.regions id with hid | hid
  · rw [hid]
    exact h.regions id
  · exact Or.inr hid

end Unmoved

structure Informs (P : (α : Type) → SimulationReceive K n m α → Prop) (k : ℕ) : Prop where
  pure : ∀ {α} (a : α), P α (Pure.pure a)
  bind : ∀ {α β} {x : SimulationReceive K n m α} {f : α → SimulationReceive K n m β},
    P α x → (∀ a, P β (f a)) → P β (x >>= f)
  get : ∀ {α} {f : SimulationActor K n m → SimulationReceive K n m α},
    (∀ s, P α (f s)) → P α (Handler.get >>= f)
  summary : ∀ dst id summary time ids,
    P Unit (tell dst (self k) (.updateGlobalSummary id summary time ids))

/-- `P` is closed under everything that the clock and a stop are made of. -/
structure Carries (P : (α : Type) → SimulationReceive K n m α → Prop) (k : ℕ) : Prop
    extends Informs P k where
  update : ∀ {f : SimulationActor K n m → SimulationActor K n m},
    (∀ s, Unmoved s (f s)) → P Unit (Handler.update f)
  finished : ∀ nodes, P Unit (tell (.actor .main) (self k) (.simulationStopped nodes))
  askStop : ∀ target, P (Message K n m) (askStop target)
  statistics : P (StatisticalSummary K)
    (deref (.nullPointer .globalStatistics) (·.globalStatistics))
  stuck : P Unit fun _ => .stuck

namespace Informs

variable {P : (α : Type) → SimulationReceive K n m α → Prop} {k : ℕ}

theorem forEach (h : Informs P k) {ι : Type} {is : List ι} {body : ι → SimulationReceive K n m Unit}
    (hbody : ∀ i ∈ is, P Unit (body i)) : P Unit (forEach is body) := by
  induction is with
  | nil => exact h.pure ()
  | cons i is ih =>
      have hrest := ih fun j hj => hbody j (List.mem_cons_of_mem i hj)
      exact h.bind (hbody i List.mem_cons_self) fun _ => hrest

theorem updateRegions (h : Informs P k) : P Unit (updateRegions k) := by
  refine h.get fun s => h.forEach fun id _ => ?_
  split
  · exact h.pure ()
  · exact h.summary _ _ _ _ _

theorem updateAgents (h : Informs P k) : P Unit (updateAgents k) := by
  refine h.get fun s => h.forEach fun id _ => ?_
  split
  · exact h.pure ()
  · exact h.summary _ _ _ _ _

theorem forwardIfLeader (h : Informs P k) {sender : ActorRef n m} {message : Message K n m}
    (hforward : ∀ dst, P Unit (tell dst sender message)) :
    P Unit (Handler.get >>= fun s =>
      if s.amILeader then forwardToAllNodes k sender message else Pure.pure ()) := by
  refine h.get fun s => ?_
  split
  · refine h.get fun t => h.forEach fun node _ => ?_
    split
    · exact h.pure ()
    · exact hforward node
  · exact h.pure ()

end Informs

namespace Carries

variable {P : (α : Type) → SimulationReceive K n m α → Prop} {k : ℕ}

theorem releaseId (h : Carries P k) (id : Fin n) : P Unit (releaseId id) :=
  h.update fun _ => .of_regions rfl rfl rfl rfl rfl rfl

theorem forgetRegion (h : Carries P k) (id : Fin n) : P Unit (forgetRegion id) := by
  refine h.update fun s => ⟨rfl, rfl, fun i => ?_, rfl, rfl, rfl⟩
  by_cases hi : i = id
  · subst hi
    exact Or.inr (Function.update_self ..)
  · exact Or.inl (Function.update_of_ne hi ..)

variable [CommonsMath K] {settings : SimulationSettings} {stop : SimulationReceive K n m Unit}

theorem resetRegionsData (h : Carries P k) : P Unit resetRegionsData := by
  refine h.bind (h.forEach fun id _ => ?_) fun _ =>
    h.update fun _ => .of_regions rfl rfl rfl rfl rfl rfl
  refine h.get fun s => ?_
  split
  · exact h.pure ()
  · exact h.releaseId id

theorem increaseTime (h : Carries P k) (hstop : P Unit stop) :
    P Unit (increaseTime settings k stop) := by
  refine h.bind (h.update fun _ => .of_regions rfl rfl rfl rfl rfl rfl) fun _ => h.get fun s => ?_
  split
  · exact h.bind hstop fun _ => h.bind h.resetRegionsData fun _ =>
      h.bind (h.update fun _ => .of_regions rfl rfl rfl rfl rfl rfl) fun _ =>
        h.get fun t => h.finished _
  · exact h.pure ()

omit [CommonsMath K] in
theorem logStatistics (h : Carries P k) : P Unit (logStatistics settings) := by
  unfold SimulationActor.logStatistics
  split
  · exact h.bind h.statistics fun _ => h.pure ()
  · exact h.pure ()

theorem calculateGlobalParameters (h : Carries P k) (hstop : P Unit stop) :
    P Unit (calculateGlobalParameters settings k stop) :=
  h.bind (h.increaseTime hstop) fun _ =>
    h.bind (h.update fun _ => .of_regions rfl rfl rfl rfl rfl rfl) fun _ =>
      h.bind h.updateRegions fun _ => h.bind h.updateAgents fun _ => h.logStatistics

theorem onRegionRelease (h : Carries P k) (hstop : P Unit stop) (id : Fin n) :
    P Unit (onRegionRelease settings k stop id) :=
  h.bind (h.releaseId id) fun _ => h.bind (h.forgetRegion id) fun _ =>
    h.calculateGlobalParameters hstop

theorem stopAgentsAndRegions (h : Carries P k) (depth : ℕ) :
    P Unit (stopAgentsAndRegions settings k depth) := by
  induction depth with
  | zero => exact h.stuck
  | succ depth ih =>
      refine h.bind (h.forEach fun id _ => ?_) fun _ => h.forEach fun id _ => ?_
      · refine h.get fun s => ?_
        split
        · exact h.pure ()
        · exact h.bind (h.askStop _) fun _ => h.pure ()
      · refine h.get fun s => ?_
        split
        · exact h.pure ()
        · refine h.bind (h.askStop _) fun answer => ?_
          split
          · exact h.onRegionRelease ih _
          · exact h.pure ()

end Carries

abbrev ticked (s : SimulationActor K n m) : SimulationActor K n m := { s with time := s.time + 1 }

/-- Below the limit, and in a benchmark, the clock does nothing else. -/
theorem increaseTime_early [CommonsMath K] {settings : SimulationSettings} {k : ℕ}
    {s : SimulationActor K n m} (stop : SimulationReceive K n m Unit)
    (h : settings.benchmark = true ∨ (s.time + 1 : ℤ) < settings.executionTime) :
    increaseTime settings k stop s = .ret () (ticked s) := by
  rcases h with hbenchmark | hearly
  · simp [increaseTime, hbenchmark]
  · have hlimit : ¬settings.executionTime ≤ (s.time : ℤ) + 1 := not_le.2 hearly
    simp [increaseTime, hlimit]

/-! ## Contracts -/

theorem informs_of_summary
    {C : Contract Failure (SimulationActor K n m) (ActorRef n m) (Message K n m) γ} {k : ℕ}
    {I : SimulationActor K n m → γ → Prop}
    (h : ∀ s g dst id summary time ids, I s g →
      C.sendOk g ⟨dst, self k, .updateGlobalSummary id summary time ids⟩ ∧
        I s (C.sendNext g ⟨dst, self k, .updateGlobalSummary id summary time ids⟩)) :
    Informs (fun _ x => Meets C I x fun _ => I) k where
  pure a := meets_pure_const a
  bind hx hf := Meets.bind hx hf
  get hf := meets_get_const hf
  summary dst id summary time ids s g hs := h s g dst id summary time ids hs

/-- `I` survives everything that the clock and a stop do under the contract `C`. -/
structure Steady (C : Contract Failure (SimulationActor K n m) (ActorRef n m) (Message K n m) γ)
    (k : ℕ) (I : SimulationActor K n m → γ → Prop) : Prop where
  frame : ∀ s t g, Unmoved s t → I s g → I t g
  summary : ∀ s g dst id summary time ids, I s g →
    C.sendOk g ⟨dst, self k, .updateGlobalSummary id summary time ids⟩ ∧
      I s (C.sendNext g ⟨dst, self k, .updateGlobalSummary id summary time ids⟩)
  finished : ∀ s g nodes, I s g →
    C.sendOk g ⟨.actor .main, self k, .simulationStopped nodes⟩ ∧
      I s (C.sendNext g ⟨.actor .main, self k, .simulationStopped nodes⟩)
  question : ∀ s g dst, I s g → C.askOk s g dst .stopSimulation ∧
    ∀ r, C.answerOk g dst .stopSimulation r → I s (C.answerNext g dst .stopSimulation r)
  timeout : ∀ s g, I s g → C.failOk .askTimeout s g
  statistics : ∀ s g, I s g → C.failOk (.nullPointer .globalStatistics) s g
  stuck : C.stuckOk

namespace Steady

variable {C : Contract Failure (SimulationActor K n m) (ActorRef n m) (Message K n m) γ} {k : ℕ}
  {I : SimulationActor K n m → γ → Prop}

theorem carries (h : Steady C k I) : Carries (fun _ x => Meets C I x fun _ => I) k where
  toInforms := informs_of_summary h.summary
  update hf s g hs := h.frame s _ g (hf s) hs
  finished nodes s g hs := h.finished s g nodes hs
  askStop target s g hs := by
    obtain ⟨hask, hnext⟩ := h.question s g target hs
    refine ⟨hask, fun r hr => ?_⟩
    have hs' := hnext r hr
    cases r with
    | none => exact h.timeout s _ hs'
    | some answer => exact hs'
  statistics := meets_deref_const fun s g hs => h.statistics s g hs
  stuck _ _ _ := h.stuck

end Steady

/-! ## Segments -/

/-- Between two questions the clock and a stop move the fields as they may. -/
theorem carries_moves {R : SimulationActor K n m → SimulationActor K n m → Prop}
    (hR : ∀ s t, Unmoved s t → R s t) (htrans : ∀ s t u, R s t → R t u → R s u) (k : ℕ) :
    Carries (fun _ x => Moves R x) k where
  pure _ s := hR s s (.refl s)
  bind hx hf := Moves.bind htrans hx hf
  get hf s := hf s s
  update hf s := hR s _ (hf s)
  summary _ _ _ _ _ s := hR s s (.refl s)
  finished _ s := hR s s (.refl s)
  askStop _ s := ⟨hR s s (.refl s), fun r => by cases r <;> exact hR s s (.refl s)⟩
  statistics s := by
    cases hstatistics : s.globalStatistics with
    | none =>
        rw [deref_none hstatistics]
        exact hR s s (.refl s)
    | some summary =>
        rw [deref_some hstatistics]
        exact hR s s (.refl s)
  stuck _ := trivial

end DOptimas.Actors.SimulationActor
