import DOptimas.Actors.Origins
import DOptimas.Support.Rational
/-!
# The end of a simulation

Stopping the regions makes each of them release its id, every release advances
the clock, and the clock may stop the remaining regions from inside.  The
handlers of a leader that is not run as a benchmark are followed to their end
while the regions and agents answer, counting the reports to its parent.
-/

namespace DOptimas.Proofs.SimulationEnd

open DOptimas.Support DOptimas.Core DOptimas.Actors DOptimas.Actors.SimulationActor Handler

variable {K : Type} {n m : ℕ}

def registered (s : SimulationActor K n m) : ℕ :=
  (List.finRange n).countP fun id => (s.regions id).isSome

def reportsEnd (x : Sending (ActorRef n m) (Message K n m)) : Bool :=
  match x.dst, x.message with
  | .actor .main, .simulationStopped _ => true
  | _, _ => false

/-- What a stop is answered by: agents reply, and each registered region releases
its id. -/
structure Answers (answer : ActorRef n m → Message K n m → Option (Message K n m))
    (s : SimulationActor K n m) : Prop where
  agents : ∀ id agent, s.agents id = some agent → answer agent .stopSimulation ≠ none
  regions : ∀ id region, s.regions id = some region →
    answer region .stopSimulation = some (.regionRelease id)

/-- The message lets the simulation run on to its time limit. -/
def Progress (settings : SimulationSettings) (s : SimulationActor K n m) : Message K n m → Prop
  | .regionRegister _ _ => settings.executionTime ≤ s.time + 1
  | .regionRelease _ => settings.executionTime ≤ s.time + 1
  | .updateRegionSummary _ _ => settings.executionTime ≤ s.time + 1
  | _ => False

structure Ended (s t : SimulationActor K n m) : Prop where
  time : t.time = 0
  regions : ∀ id, t.regions id = none
  summary : ∀ id, t.regionsSummary id = none
  free : ∀ id, s.regions id ≠ none → t.regionsIds.count id = 1

section EndsOnce

variable [RealArith K] [CommonsMath K]

def handled (settings : SimulationSettings) (k : ℕ) (oracle : Oracle K)
    (answer : ActorRef n m → Message K n m → Option (Message K n m)) (sender : ActorRef n m)
    (message : Message K n m) (s : SimulationActor K n m) :
    List (Sending (ActorRef n m) (Message K n m)) ×
      Outcome Failure (SimulationActor K n m) (ActorRef n m) (Message K n m) Unit :=
  (receive settings k oracle sender message s).resolve answer

/-- The parent hears of the end at most once and because of progress only, and an
end leaves the tables empty. -/
structure EndsOnce (settings : SimulationSettings) (k : ℕ) (oracle : Oracle K)
    (answer : ActorRef n m → Message K n m → Option (Message K n m)) (sender : ActorRef n m)
    (message : Message K n m) (s : SimulationActor K n m) : Prop where
  once : (handled settings k oracle answer sender message s).1.countP reportsEnd ≤ 1
  progress : 0 < (handled settings k oracle answer sender message s).1.countP reportsEnd →
    Progress settings s message
  ended : message = .stopSimulation ∨ Progress settings s message →
    ∃ t, (handled settings k oracle answer sender message s).2 = .done () t ∧ Ended s t

end EndsOnce

/-- Every summary belongs to a region of `P`, and no such region's id is free. -/
def Tidy (s : SimulationActor K n m) (P : Fin n → Prop) : Prop :=
  (∀ id, s.regionsSummary id ≠ none → P id) ∧ ∀ id, s.regions id ≠ none → id ∉ s.regionsIds

/-- A stop ends before the clock reaches the limit, and the limit is reached by
the release of the last region; the statistics are not logged when none are left. -/
def Orderly (settings : SimulationSettings) (s : SimulationActor K n m) : Message K n m → Prop
  | .stopSimulation =>
      (registered s = 0 ∨ settings.isDebugEnabled = false ∧
          (s.time + registered s : ℤ) < settings.executionTime) ∧
        Tidy s fun id => s.regions id ≠ none
  | .regionRelease id =>
      (s.time + 1 : ℤ) < settings.executionTime ∨
        settings.isDebugEnabled = false ∧ (∀ i, s.regions i ≠ none → i = id) ∧
          Tidy s fun i => i = id
  | .regionRegister _ _ => (s.time + 1 : ℤ) < settings.executionTime
  | .updateRegionSummary _ _ => (s.time + 1 : ℤ) < settings.executionTime
  | _ => True

/-! ## The parts of a stop -/

section Parts

variable {answer : ActorRef n m → Message K n m → Option (Message K n m)} {F : ℕ → Prop} {k : ℕ}

abbrev told (answer : ActorRef n m → Message K n m → Option (Message K n m)) (F : ℕ → Prop) :
    Contract Failure (SimulationActor K n m) (ActorRef n m) (Message K n m) ℕ :=
  Contract.answering answer reportsEnd F

theorem reportsEnd_of_ne {dst sender : ActorRef n m} {message : Message K n m}
    (h : ∀ nodes, message ≠ .simulationStopped nodes) :
    reportsEnd ⟨dst, sender, message⟩ = false := by
  unfold reportsEnd
  split
  next nodes _ hmessage => exact absurd hmessage (h nodes)
  next => rfl

theorem told_quiet {g : ℕ} {dst sender : ActorRef n m} {message : Message K n m}
    (h : ∀ nodes, message ≠ .simulationStopped nodes) :
    (told answer F).sendNext g ⟨dst, sender, message⟩ = g := by
  simp [told, Contract.answering, reportsEnd_of_ne h]

abbrev At (s : SimulationActor K n m) (g : ℕ) (t : SimulationActor K n m) (g' : ℕ) : Prop :=
  t = s ∧ g' = g

theorem quiet_tell (s : SimulationActor K n m) (g : ℕ) {dst sender : ActorRef n m}
    {message : Message K n m} (h : ∀ nodes, message ≠ .simulationStopped nodes) :
    Meets (told answer F) (At s g) (tell dst sender message) fun _ => At s g :=
  fun _ _ ht => ⟨trivial, ht.1, (told_quiet h).trans ht.2⟩

variable (answer F k) in
theorem quiet_informs (s : SimulationActor K n m) (g : ℕ) :
    Informs (fun _ x => Meets (told answer F) (At s g) x fun _ => At s g) k :=
  informs_of_summary fun _ _ _ _ _ _ _ ht => ⟨trivial, ht.1, (told_quiet (by simp)).trans ht.2⟩

variable (answer F k) in
theorem quiet_relay (s : SimulationActor K n m) (g : ℕ) (sender : ActorRef n m)
    (message : Message K n m) (h : ∀ nodes, message ≠ .simulationStopped nodes) :
    Meets (told answer F) (At s g)
      (do
        updateRegions k
        updateAgents k
        if (← get).amILeader then forwardToAllNodes k sender message else pure ())
      fun _ => At s g := by
  have hinforms := quiet_informs answer F k s g
  exact Meets.bind hinforms.updateRegions fun _ => Meets.bind hinforms.updateAgents fun _ =>
    hinforms.forwardIfLeader fun _ => quiet_tell s g h

theorem quiet_logStatistics {settings : SimulationSettings} (s : SimulationActor K n m) {g : ℕ}
    (hlog : settings.isDebugEnabled = true → F g) :
    Meets (told answer F) (At s g) (logStatistics settings) fun _ => At s g := by
  unfold logStatistics
  split
  next hdebug =>
    refine Meets.bind (meets_deref_const fun t g' ht => ?_) fun _ => meets_pure_const ()
    rw [ht.2]
    exact hlog hdebug
  · exact meets_pure_const ()

theorem quiet_stopAgents {s : SimulationActor K n m}
    (hagents : ∀ id agent, s.agents id = some agent → answer agent .stopSimulation ≠ none)
    (g : ℕ) : Meets (told answer F) (At s g) stopAgents fun _ => At s g := by
  refine meets_forEach_const fun id _ => meets_get_bind fun t => ?_
  intro u g' hu
  obtain ⟨rfl, rfl, rfl⟩ := hu
  cases hagent : u.agents id with
  | none => exact ⟨rfl, rfl⟩
  | some agent =>
      refine ⟨trivial, fun r hr => ?_⟩
      have hanswered : r ≠ none := by
        rw [hr]
        exact hagents id agent hagent
      cases r with
      | none => exact absurd rfl hanswered
      | some a => exact ⟨rfl, rfl⟩

variable [CommonsMath K]

theorem quiet_resetRegionsData {s : SimulationActor K n m} (hempty : ∀ id, s.regions id = none)
    (g : ℕ) : Meets (told answer F) (At s g) resetRegionsData
      fun _ => At { s with globalStatistics := aggregate s.regionsStats, time := 0 } g := by
  refine Meets.bind (Q := fun _ => At s g) (meets_forEach_const fun id _ => ?_) fun _ => ?_
  · refine meets_get_bind fun t => ?_
    intro u g' hu
    obtain ⟨rfl, rfl, rfl⟩ := hu
    rw [hempty id]
    exact ⟨rfl, rfl⟩
  · intro u g' hu
    obtain ⟨rfl, rfl⟩ := hu
    exact ⟨rfl, rfl⟩

end Parts

/-! ## The whole stop -/

section Stop

variable {answer : ActorRef n m → Message K n m → Option (Message K n m)} {F : ℕ → Prop} {k : ℕ}

structure Cleared (s t : SimulationActor K n m) : Prop where
  regions : ∀ id, t.regions id = none
  summary : ∀ id, t.regionsSummary id = if (s.regions id).isSome then none else s.regionsSummary id
  free : ∀ id, t.regionsIds.count id =
    s.regionsIds.count id + if (s.regions id).isSome then 1 else 0
  agents : t.agents = s.agents
  amILeader : t.amILeader = s.amILeader

def released (s : SimulationActor K n m) (id : Fin n) : SimulationActor K n m :=
  { s with
    regionsIds := s.regionsIds ++ [id]
    regionUsedIds := s.regionUsedIds.erase id
    regions := Function.update s.regions id none
    regionsSummary := Function.update s.regionsSummary id none }

structure SameTables (s t : SimulationActor K n m) : Prop where
  regions : t.regions = s.regions
  summary : t.regionsSummary = s.regionsSummary
  regionsIds : t.regionsIds = s.regionsIds
  agents : t.agents = s.agents
  amILeader : t.amILeader = s.amILeader

theorem SameTables.registered {s t : SimulationActor K n m} (h : SameTables s t) :
    registered t = registered s := by
  unfold SimulationEnd.registered
  rw [h.regions]

theorem cleared_of_empty {s t : SimulationActor K n m} (hempty : ∀ id, s.regions id = none)
    (h : SameTables s t) : Cleared s t where
  regions id := by rw [h.regions, hempty id]
  summary id := by simp [h.summary, hempty id]
  free id := by simp [h.regionsIds, hempty id]
  agents := h.agents
  amILeader := h.amILeader

theorem Cleared.trans {s t u : SimulationActor K n m} (h : Cleared s t) (h' : Cleared t u) :
    Cleared s u where
  regions := h'.regions
  summary id := by rw [h'.summary, h.regions, ← h.summary]; rfl
  free id := by rw [h'.free, h.regions, h.free]; rfl
  agents := h'.agents.trans h.agents
  amILeader := h'.amILeader.trans h.amILeader

theorem Cleared.of_same {s t u : SimulationActor K n m} (h : SameTables s t)
    (h' : Cleared t u) : Cleared s u where
  regions := h'.regions
  summary id := by rw [h'.summary, h.regions, h.summary]
  free id := by rw [h'.free, h.regions, h.regionsIds]
  agents := h'.agents.trans h.agents
  amILeader := h'.amILeader.trans h.amILeader

theorem Cleared.of_released {s t : SimulationActor K n m} {id : Fin n}
    (hid : (s.regions id).isSome) (h : Cleared (released s id) t) : Cleared s t where
  regions := h.regions
  summary i := by
    rw [h.summary]
    by_cases hi : i = id
    · subst hi
      simp [released, hid]
    · simp [released, hi]
  free i := by
    rw [h.free]
    by_cases hi : i = id
    · subst hi
      simp [released, hid]
    · have hne : id ≠ i := fun h => hi h.symm
      simp [released, hi, hne]
  agents := h.agents
  amILeader := h.amILeader

theorem countP_flip {p q : Fin n → Bool} {id : Fin n} (hp : p id = true) (hq : q id = false)
    (hsame : ∀ i, i ≠ id → q i = p i) {ids : List (Fin n)} (hnodup : ids.Nodup)
    (hmem : id ∈ ids) : ids.countP q + 1 = ids.countP p := by
  induction ids with
  | nil => simp at hmem
  | cons i ids ih =>
      obtain ⟨hi, hnodup⟩ := List.nodup_cons.1 hnodup
      by_cases hid : i = id
      · subst hid
        have hrest : ids.countP q = ids.countP p := by
          refine List.countP_congr fun j hj => ?_
          have hne : j ≠ i := fun h => hi (h ▸ hj)
          rw [hsame j hne]
        rw [List.countP_cons_of_pos hp, List.countP_cons_of_neg (by simp [hq]), hrest]
      · have hmem : id ∈ ids := by
          rcases List.mem_cons.1 hmem with h | h
          · exact absurd h.symm hid
          · exact h
        have hrest := ih hnodup hmem
        rw [List.countP_cons, List.countP_cons, hsame i hid]
        omega

theorem registered_released {s : SimulationActor K n m} {id : Fin n}
    (hid : (s.regions id).isSome) : registered (released s id) + 1 = registered s := by
  refine countP_flip hid ?_ (fun i hi => ?_) (List.nodup_finRange n) (List.mem_finRange id)
  · simp [released]
  · simp [released, hi]

theorem registered_eq_zero {s : SimulationActor K n m} :
    registered s = 0 ↔ ∀ id, s.regions id = none := by
  simp [registered, List.countP_eq_zero]

theorem Answers.of_cleared {s t : SimulationActor K n m} (h : Answers answer s)
    (hregions : ∀ id, t.regions id = none) (hagents : t.agents = s.agents) : Answers answer t where
  agents id agent hid := h.agents id agent (hagents ▸ hid)
  regions id region hid := by
    rw [hregions id] at hid
    simp at hid

/-- The clock reaches its limit before the last region has been released. -/
def Expires (settings : SimulationSettings) (s : SimulationActor K n m) : Prop :=
  registered s ≠ 0 ∧ settings.executionTime ≤ s.time + registered s

/-- What the stop of the regions of `s` ends in, after `g` reports. -/
structure Stopped (settings : SimulationSettings) (s : SimulationActor K n m) (g : ℕ)
    (t : SimulationActor K n m) (g' : ℕ) : Prop where
  cleared : Cleared s t
  reports : Expires settings s → g < g'
  silent : ¬Expires settings s → g' = g

variable [CommonsMath K] {settings : SimulationSettings}

theorem increaseTime_limit {s : SimulationActor K n m} (stop : SimulationReceive K n m Unit)
    (hbenchmark : settings.benchmark = false) (h : settings.executionTime ≤ (s.time + 1 : ℤ)) :
    increaseTime settings k stop s =
      (stop (ticked s)).bind fun _ t => (resetRegionsData t).bind fun _ u =>
        .tell (.actor .main) (self k) (.simulationStopped u.nodes)
          (.ret () { u with simulationStarted := false, status := .finished }) := by
  simp [increaseTime, h, hbenchmark]

abbrev announced (s : SimulationActor K n m) : SimulationActor K n m :=
  { s with globalStatistics := aggregate s.regionsStats }

theorem sat_announce (s : SimulationActor K n m) {g : ℕ}
    (hlog : settings.isDebugEnabled = true → F g) :
    ((do
        update fun s => { s with globalStatistics := aggregate s.regionsStats }
        updateRegions k
        updateAgents k
        logStatistics settings : SimulationReceive K n m Unit) s).Sat (told answer F)
      (fun _ t g' => SameTables s t ∧ t.time = s.time ∧ g' = g) g := by
  have hinforms := quiet_informs answer F k (announced s) g
  have hquiet : Meets (told answer F) (At (announced s) g)
      (updateRegions k >>= fun _ => updateAgents k >>= fun _ => logStatistics settings)
      fun _ => At (announced s) g :=
    Meets.bind hinforms.updateRegions fun _ => Meets.bind hinforms.updateAgents fun _ =>
      quiet_logStatistics _ hlog
  refine (hquiet (announced s) g ⟨rfl, rfl⟩).mono fun _ t g' ht => ?_
  obtain ⟨rfl, rfl⟩ := ht
  exact ⟨⟨rfl, rfl, rfl, rfl, rfl⟩, rfl, rfl⟩

theorem sat_calculate_early {s : SimulationActor K n m} (stop : SimulationReceive K n m Unit)
    (h : (s.time + 1 : ℤ) < settings.executionTime) {g : ℕ}
    (hlog : settings.isDebugEnabled = true → F g) :
    (calculateGlobalParameters settings k stop s).Sat (told answer F)
      (fun _ t g' => SameTables s t ∧ t.time = s.time + 1 ∧ g' = g) g := by
  unfold calculateGlobalParameters
  rw [bind_apply, increaseTime_early stop (Or.inr h), Process.ret_bind]
  exact (sat_announce (ticked s) hlog).mono fun _ t g' ht =>
    ⟨⟨ht.1.regions, ht.1.summary, ht.1.regionsIds, ht.1.agents, ht.1.amILeader⟩, ht.2⟩

/-- At the limit the regions that are left are stopped, and the parent hears of it
after all reports from inside that stop. -/
theorem sat_calculate_limit {s : SimulationActor K n m} {stop : SimulationReceive K n m Unit}
    {g : ℕ} (hbenchmark : settings.benchmark = false) (hdebug : settings.isDebugEnabled = false)
    (h : settings.executionTime ≤ (s.time + 1 : ℤ))
    (hstop : (stop (ticked s)).Sat (told answer F)
      (fun _ t g' => Stopped settings (ticked s) g t g') g) :
    (calculateGlobalParameters settings k stop s).Sat (told answer F)
      (fun _ t g' => Cleared s t ∧ t.time = 0 ∧ (registered s = 0 → g' = g + 1) ∧
        (registered s ≠ 0 → g + 1 < g')) g := by
  unfold calculateGlobalParameters
  rw [bind_apply, increaseTime_limit stop hbenchmark h]
  refine Process.Sat.bind (Q := fun _ t g' => Cleared s t ∧ t.time = 0 ∧
    (registered s = 0 → g' = g + 1) ∧ (registered s ≠ 0 → g + 1 < g')) ?_ fun _ t g' ht => ?_
  · refine hstop.bind fun _ t g' ht => ?_
    have hreset : (resetRegionsData t).Sat (told answer F) _ g' :=
      quiet_resetRegionsData ht.cleared.regions g' t g' ⟨rfl, rfl⟩
    refine hreset.bind fun _ u g'' hu => ?_
    obtain ⟨rfl, rfl⟩ := hu
    have hregistered : registered (ticked s) = registered s := rfl
    refine ⟨trivial, ⟨ht.cleared.regions, ht.cleared.summary, ht.cleared.free, ht.cleared.agents,
      ht.cleared.amILeader⟩, rfl, fun hnone => ?_, fun hsome => ?_⟩
    · have hquiet := ht.silent fun hexpires => hexpires.1 (hregistered.trans hnone)
      change g'' + 1 = g + 1
      omega
    · have hreports := ht.reports ⟨hregistered ▸ hsome, by
        change settings.executionTime ≤ ((s.time + 1 : ℕ) : ℤ) + registered s
        push_cast
        omega⟩
      change g + 1 < g'' + 1
      omega
  · refine (sat_announce t (by simp [hdebug])).mono fun _ u g'' hu => ?_
    obtain ⟨hsame, htime, rfl⟩ := hu
    exact ⟨ht.1.trans (cleared_of_empty ht.1.regions hsame), htime.trans ht.2.1, ht.2.2⟩

abbrev stopOne (settings : SimulationSettings) (k : ℕ) (stop : SimulationReceive K n m Unit)
    (id : Fin n) : SimulationReceive K n m Unit := do
  match (← get).regions id with
  | none => pure ()
  | some region => do
      match ← askStop region with
      | .regionRelease senderId => onRegionRelease settings k stop senderId
      | _ => pure ()

theorem stopOne_none {s : SimulationActor K n m} {id : Fin n} (stop : SimulationReceive K n m Unit)
    (h : s.regions id = none) : stopOne settings k stop id s = .ret () s := by
  simp [stopOne, h]

theorem sat_stopOne {s : SimulationActor K n m} {id : Fin n} {stop : SimulationReceive K n m Unit}
    (hanswers : Answers answer s) (hid : s.regions id ≠ none) {g : ℕ}
    {Q : Unit → SimulationActor K n m → ℕ → Prop}
    (h : (calculateGlobalParameters settings k stop (released s id)).Sat (told answer F) Q g) :
    (stopOne settings k stop id s).Sat (told answer F) Q g := by
  obtain ⟨region, hregion⟩ := Option.ne_none_iff_exists'.1 hid
  simp only [stopOne, bind_apply, get_apply, Process.ret_bind, hregion, askStop, ask_apply,
    Process.ask_bind]
  refine ⟨trivial, fun r hr => ?_⟩
  obtain rfl : r = some (.regionRelease id) := hr.trans (hanswers.regions id region hregion)
  exact h

omit [CommonsMath K] in
theorem Answers.released {s : SimulationActor K n m} (h : Answers answer s) (id : Fin n) :
    Answers answer (released s id) where
  agents := h.agents
  regions i region hi := by
    by_cases hid : i = id
    · subst hid
      simp [SimulationEnd.released] at hi
    · have hregion : s.regions i = some region := by
        simpa [SimulationEnd.released, hid] using hi
      exact h.regions i region hregion

omit [CommonsMath K] in
theorem Answers.of_same {s t : SimulationActor K n m} (h : Answers answer s)
    (hsame : SameTables s t) : Answers answer t where
  agents id agent hid := h.agents id agent (hsame.agents ▸ hid)
  regions id region hid := h.regions id region (hsame.regions ▸ hid)

omit [CommonsMath K] in
theorem stopped_of_empty {s t : SimulationActor K n m} (hempty : ∀ id, s.regions id = none)
    (h : SameTables s t) (g : ℕ) : Stopped settings s g t g where
  cleared := cleared_of_empty hempty h
  reports hexpires := absurd (registered_eq_zero.2 hempty) hexpires.1
  silent _ := rfl

/-- No release in the stop of the regions of `s` is logged. -/
def Unlogged (settings : SimulationSettings) (s : SimulationActor K n m) : Prop :=
  settings.isDebugEnabled = true → registered s = 0

omit [CommonsMath K] in
theorem unlogged_of_debug (h : settings.isDebugEnabled = false) (s : SimulationActor K n m) :
    Unlogged settings s :=
  fun hdebug => absurd hdebug (by simp [h])

def Stops (answer : ActorRef n m → Message K n m → Option (Message K n m)) (F : ℕ → Prop)
    (settings : SimulationSettings) (stop : SimulationReceive K n m Unit) (r : ℕ) : Prop :=
  ∀ s g, Answers answer s → registered s < r → Unlogged settings s →
    (stop s).Sat (told answer F) (fun _ t g' => Stopped settings s g t g') g

omit [CommonsMath K] in
theorem mem_of_released {s : SimulationActor K n m} {id : Fin n} {ids : List (Fin n)}
    (h : ∀ i, s.regions i ≠ none → i ∈ id :: ids) {i : Fin n}
    (hi : (released s id).regions i ≠ none) : i ∈ ids := by
  by_cases hne : i = id
  · subst hne
    simp [released] at hi
  · rcases List.mem_cons.1 (h i (by simpa [released, hne] using hi)) with heq | hmem
    · exact absurd heq hne
    · exact hmem

omit [CommonsMath K] in
/-- A release below the limit leaves the rest of the stop to report. -/
theorem Stopped.of_early {s t u : SimulationActor K n m} {id : Fin n} {g g' : ℕ}
    (hid : (s.regions id).isSome)
    (hlimit : ((released s id).time + 1 : ℤ) < settings.executionTime)
    (hsame : SameTables (released s id) t) (htime : t.time = (released s id).time + 1)
    (h : Stopped settings t g u g') : Stopped settings s g u g' := by
  have hcount := registered_released hid
  have hregistered := hsame.registered
  have hbefore : (released s id).time = s.time := rfl
  have hexpires : Expires settings s ↔ Expires settings t := by
    unfold Expires
    rw [htime, hregistered, ← hcount, hbefore]
    rw [hbefore] at hlimit
    push_cast
    omega
  exact ⟨(h.cleared.of_same hsame).of_released hid, fun h' => h.reports (hexpires.1 h'),
    fun h' => h.silent fun h'' => h' (hexpires.2 h'')⟩

omit [CommonsMath K] in
/-- After a release at the limit, which was reported, nothing is left to stop. -/
theorem Stopped.of_limit {s t u : SimulationActor K n m} {id : Fin n} {g g' g'' : ℕ}
    (hid : (s.regions id).isSome)
    (hlimit : settings.executionTime ≤ ((released s id).time + 1 : ℤ))
    (hcleared : Cleared (released s id) t) (hreported : g < g')
    (h : Stopped settings t g' u g'') : Stopped settings s g u g'' := by
  have hcount := registered_released hid
  have hnone := registered_eq_zero.2 hcleared.regions
  have hlast : g'' = g' := h.silent fun h' => h'.1 hnone
  have hbefore : (released s id).time = s.time := rfl
  rw [hbefore] at hlimit
  have hexpires : Expires settings s := ⟨by omega, by omega⟩
  exact ⟨(hcleared.trans h.cleared).of_released hid, fun _ => by omega,
    fun h' => absurd hexpires h'⟩

/-- The loop over the regions, where a stop from inside has one region less. -/
theorem sat_stopLoop {stop : SimulationReceive K n m Unit} {r : ℕ}
    (hbenchmark : settings.benchmark = false) (hstop : Stops answer F settings stop r)
    (ids : List (Fin n)) : ∀ (s : SimulationActor K n m) (g : ℕ), Answers answer s →
      registered s < r + 1 → Unlogged settings s → (∀ id, s.regions id ≠ none → id ∈ ids) →
      (forEach ids (stopOne settings k stop) s).Sat (told answer F)
        (fun _ t g' => Stopped settings s g t g') g := by
  induction ids with
  | nil =>
      intro s g _ _ _ hids
      have hempty : ∀ id, s.regions id = none := by
        intro id
        by_contra hne
        exact List.not_mem_nil (hids id hne)
      exact stopped_of_empty hempty ⟨rfl, rfl, rfl, rfl, rfl⟩ g
  | cons id ids ih =>
      intro s g hanswers hfew hlogs hids
      rw [forEach_cons]
      by_cases hid : s.regions id = none
      · rw [stopOne_none stop hid, Process.ret_bind]
        refine ih s g hanswers hfew hlogs fun i hi => ?_
        rcases List.mem_cons.1 (hids i hi) with rfl | hmem
        · exact absurd hid hi
        · exact hmem
      · have hsome : (s.regions id).isSome := Option.isSome_iff_ne_none.2 hid
        have hcount := registered_released hsome
        have hdebug : settings.isDebugEnabled = false := by
          by_contra hdebug
          have hnone := hlogs (by simpa using hdebug)
          omega
        by_cases hlimit : ((released s id).time + 1 : ℤ) < settings.executionTime
        · -- the clock stays below the limit
          refine (sat_stopOne hanswers hid (sat_calculate_early stop hlimit
            (by simp [hdebug]))).bind fun _ t g' ht => ?_
          obtain ⟨hsame, htime, rfl⟩ := ht
          have hregistered := hsame.registered
          have hnext := ih t g' ((hanswers.released id).of_same hsame) (by omega)
            (unlogged_of_debug hdebug t) fun i hi => mem_of_released hids (hsame.regions ▸ hi)
          exact hnext.mono fun _ u g'' hu => hu.of_early hsome hlimit hsame htime
        · -- the limit is reached: the regions that are left are stopped from inside
          have hlimit : settings.executionTime ≤ ((released s id).time + 1 : ℤ) := not_lt.1 hlimit
          have hinner := hstop (ticked (released s id)) g
            ((hanswers.released id).of_same ⟨rfl, rfl, rfl, rfl, rfl⟩)
            (by change registered (released s id) < r; omega) (unlogged_of_debug hdebug _)
          refine (sat_stopOne hanswers hid
            (sat_calculate_limit hbenchmark hdebug hlimit hinner)).bind fun _ t g' ht => ?_
          obtain ⟨hcleared, -, hzero, hmore⟩ := ht
          have hreported : g < g' := by
            by_cases hnone : registered (released s id) = 0
            · have := hzero hnone
              omega
            · have := hmore hnone
              omega
          have hnone := registered_eq_zero.2 hcleared.regions
          have hnext := ih t g' (hanswers.of_cleared hcleared.regions hcleared.agents) (by omega)
            (unlogged_of_debug hdebug t) fun i hi => absurd (hcleared.regions i) hi
          exact hnext.mono fun _ u g'' hu => hu.of_limit hsome hlimit hcleared hreported

/-- The nested stops come to an end, since each has one region less to stop. -/
theorem stops_stopAgentsAndRegions (hbenchmark : settings.benchmark = false) (depth : ℕ) :
    Stops answer F settings (stopAgentsAndRegions settings k depth) depth := by
  induction depth with
  | zero => exact fun s g _ hfew => absurd hfew (Nat.not_lt_zero _)
  | succ depth ih =>
      intro s g hanswers hfew hlogs
      refine (quiet_stopAgents hanswers.agents g s g ⟨rfl, rfl⟩).bind fun _ t g' ht => ?_
      obtain ⟨rfl, rfl⟩ := ht
      exact sat_stopLoop hbenchmark ih (List.finRange n) t g' hanswers hfew hlogs
        fun id _ => List.mem_finRange id

theorem sat_stopAll (hbenchmark : settings.benchmark = false) {s : SimulationActor K n m}
    (hanswers : Answers answer s) (hlogs : Unlogged settings s) (g : ℕ) :
    (stopAll settings k s).Sat (told answer F) (fun _ t g' => Stopped settings s g t g') g := by
  refine stops_stopAgentsAndRegions hbenchmark (n + 1 + 1) s g hanswers ?_ hlogs
  have hle : registered s ≤ (List.finRange n).length := List.countP_le_length
  rw [List.length_finRange] at hle
  omega

end Stop

/-! ## With debug output -/

section Debug

variable {answer : ActorRef n m → Message K n m → Option (Message K n m)} {k : ℕ}

def Summarised (s : SimulationActor K n m) : Prop := ∃ id, s.regionsSummary id ≠ none

theorem Ended.not_summarised {s t : SimulationActor K n m} (h : Ended s t) : ¬Summarised t := by
  rintro ⟨id, hid⟩
  exact hid (h.summary id)

/-- `x` only returns with a summary left, if `I` holds before. -/
abbrev LeavesSummary (answer : ActorRef n m → Message K n m → Option (Message K n m))
    (I : SimulationActor K n m → Prop) {α : Type} (x : SimulationReceive K n m α) : Prop :=
  Meets (Contract.heeding answer) (fun s _ => I s) x fun _ t _ => Summarised t

variable (answer k) in
theorem informs_heeding (I : SimulationActor K n m → Prop) :
    Informs (fun _ x => Meets (Contract.heeding answer) (fun s _ => I s) x fun _ t _ => I t) k :=
  informs_of_summary fun _ _ _ _ _ _ _ hs => ⟨trivial, hs⟩

variable [CommonsMath K] {settings : SimulationSettings}

theorem summarised_of_aggregate {s : SimulationActor K n m} {t : StatisticalSummary K}
    (h : aggregate s.regionsStats = some t) : Summarised s := by
  by_contra hnone
  have hempty : s.regionsStats = [] := List.filterMap_eq_nil_iff.2 fun id _ => by
    by_contra hid
    exact hnone ⟨id, hid⟩
  rw [hempty] at h
  cases h

theorem leavesSummary_calculate (hdebug : settings.isDebugEnabled = true)
    (stop : SimulationReceive K n m Unit) :
    LeavesSummary answer (fun _ => True) (calculateGlobalParameters settings k stop) := by
  have hinforms := informs_heeding answer k
    fun s : SimulationActor K n m => s.globalStatistics = aggregate s.regionsStats
  refine Meets.bind (Q := fun _ _ _ => True) (fun _ _ _ => Contract.sat_heeding) fun _ =>
    Meets.bind (Q := fun _ (s : SimulationActor K n m) _ =>
      s.globalStatistics = aggregate s.regionsStats) (fun _ _ _ => rfl) fun _ =>
    Meets.bind hinforms.updateRegions fun _ => Meets.bind hinforms.updateAgents fun _ => ?_
  intro s g hs
  rw [logStatistics, if_pos hdebug, bind_apply]
  cases hfield : s.globalStatistics with
  | none =>
      rw [deref_none hfield]
      trivial
  | some t =>
      rw [deref_some hfield]
      exact summarised_of_aggregate (hs.symm.trans hfield)

theorem leavesSummary_onRegionRelease (hdebug : settings.isDebugEnabled = true)
    (stop : SimulationReceive K n m Unit) (id : Fin n) :
    LeavesSummary answer (fun _ => True) (onRegionRelease settings k stop id) :=
  Meets.bind (Q := fun _ _ _ => True) (fun _ _ _ => trivial) fun _ =>
    Meets.bind (Q := fun _ _ _ => True) (fun _ _ _ => trivial) fun _ =>
      leavesSummary_calculate hdebug stop

theorem sat_stopOne_debug (hdebug : settings.isDebugEnabled = true) {s : SimulationActor K n m}
    {id : Fin n} {region : ActorRef n m} (hregion : s.regions id = some region)
    (h : answer region .stopSimulation = some (.regionRelease id) ∨ Summarised s)
    (stop : SimulationReceive K n m Unit) :
    (stopOne settings k stop id s).Sat (Contract.heeding answer) (fun _ t _ => Summarised t)
      () := by
  simp only [stopOne, bind_apply, get_apply, Process.ret_bind, hregion, askStop, ask_apply,
    Process.ask_bind]
  refine ⟨trivial, fun r hr => ?_⟩
  have hheld : ¬Summarised s → r = some (.regionRelease id) := fun hs =>
    hr.trans (h.resolve_right hs)
  cases r with
  | none =>
      trivial
  | some message =>
      cases message with
      | regionRelease i => exact leavesSummary_onRegionRelease hdebug stop i _ () trivial
      | _ =>
          by_contra hs
          simpa using hheld fun hsome => hs hsome

/-- The loop over the regions ends with a summary left, if it releases one at all. -/
theorem sat_stopLoop_debug (hdebug : settings.isDebugEnabled = true)
    (stop : SimulationReceive K n m Unit) (ids : List (Fin n)) : ∀ s : SimulationActor K n m,
      Summarised s ∨ Answers answer s ∧ (∃ id ∈ ids, s.regions id ≠ none) →
      (forEach ids (stopOne settings k stop) s).Sat (Contract.heeding answer)
        (fun _ t _ => Summarised t) () := by
  induction ids with
  | nil =>
      rintro s (hs | ⟨-, id, hid, -⟩)
      · exact hs
      · exact absurd hid List.not_mem_nil
  | cons id ids ih =>
      intro s hs
      rw [forEach_cons]
      cases hregion : s.regions id with
      | none =>
          rw [stopOne_none stop hregion, Process.ret_bind]
          refine ih s (hs.imp_right fun h => ⟨h.1, ?_⟩)
          obtain ⟨i, hi, hsome⟩ := h.2
          rcases List.mem_cons.1 hi with rfl | hi
          · exact absurd hregion hsome
          · exact ⟨i, hi, hsome⟩
      | some region =>
          refine (sat_stopOne_debug hdebug hregion ?_ stop).bind fun _ t _ ht =>
            ih t (Or.inl ht)
          exact (hs.imp_right fun h => h.1.regions id region hregion).symm

theorem sat_onStopSimulation_debug (hdebug : settings.isDebugEnabled = true)
    {s : SimulationActor K n m} (hleader : s.amILeader = true) (hanswers : Answers answer s)
    (hsome : registered s ≠ 0) (sender : ActorRef n m) :
    (onStopSimulation settings k sender s).Sat (Contract.heeding answer)
      (fun _ t _ => Summarised t) () := by
  simp only [onStopSimulation, bind_apply, get_apply, Process.ret_bind, hleader, if_true]
  have hinforms := informs_heeding answer k
    (Summarised : SimulationActor K n m → Prop)
  have hagents : Meets (Contract.heeding answer) (fun t _ => t = s) stopAgents
      fun _ t _ => t = s := by
    refine meets_forEach_const fun id _ => meets_get_const fun t => ?_
    split
    · exact meets_pure_const ()
    · refine fun u _ hu => ⟨trivial, fun r _ => ?_⟩
      cases r with
      | none => trivial
      | some answer => exact hu
  have hreset : Meets (Contract.heeding answer)
      (fun (t : SimulationActor K n m) _ => Summarised t) resetRegionsData
      fun _ t _ => Summarised t := by
    refine Meets.bind (Q := fun _ t _ => Summarised t) (meets_forEach_const fun id _ => ?_)
      fun _ _ _ ht => ht
    refine meets_get_const fun t => ?_
    split
    · exact meets_pure_const ()
    · exact fun _ _ ht => ht
  refine ((hagents s () rfl).bind fun _ t _ ht => ?_).bind fun _ t _ ht =>
    (hreset t () ht).bind fun _ u _ hu => ⟨trivial, hu⟩
  subst ht
  refine sat_stopLoop_debug hdebug _ (List.finRange n) t (Or.inr ⟨hanswers, ?_⟩)
  by_contra hnone
  refine hsome (registered_eq_zero.2 fun id => ?_)
  by_contra hid
  exact hnone ⟨id, List.mem_finRange id, hid⟩

end Debug

/-! ## The handlers of a leader -/

section Leader

variable [RealArith K] [CommonsMath K] {settings : SimulationSettings} {k : ℕ} {oracle : Oracle K}
  {answer : ActorRef n m → Message K n m → Option (Message K n m)} {sender : ActorRef n m}
  {s : SimulationActor K n m}

abbrev Never (_ : ℕ) : Prop := False

theorem handled_of_sat {message : Message K n m} {Q : Unit → SimulationActor K n m → ℕ → Prop}
    (h : (receive settings k oracle sender message s).Sat (told answer Never) Q 0) :
    ∃ t, (handled settings k oracle answer sender message s).2 = .done () t ∧
      Q () t ((handled settings k oracle answer sender message s).1.countP reportsEnd) := by
  rcases Contract.answering_resolve h with ⟨u, t, hdone, hQ⟩ | ⟨-, hfalse⟩
  · rw [Nat.zero_add] at hQ
    exact ⟨t, hdone, hQ⟩
  · exact hfalse.elim

theorem not_endsOnce_of_summarised {message : Message K n m}
    (hsat : (receive settings k oracle sender message s).Sat (Contract.heeding answer)
      (fun _ t _ => Summarised t) ())
    (hends : message = .stopSimulation ∨ Progress settings s message) :
    ¬EndsOnce settings k oracle answer sender message s := by
  intro h
  obtain ⟨t, hdone, hended⟩ := h.ended hends
  exact hended.not_summarised (Contract.heeding_resolve hsat hdone)

omit [RealArith K] [CommonsMath K] in
theorem ended_iff_tidy {t : SimulationActor K n m} (h : Cleared s t) (htime : t.time = 0) :
    Ended s t ↔ Tidy s fun id => s.regions id ≠ none := by
  constructor
  · intro hended
    refine ⟨fun id hsummary hnone => hsummary ?_, fun id hid hmem => ?_⟩
    · have hcleared := h.summary id
      rw [hended.summary id, hnone] at hcleared
      exact hcleared.symm
    · have hcount := h.free id
      rw [hended.free id hid, if_pos (Option.isSome_iff_ne_none.2 hid)] at hcount
      have hpos := List.count_pos_iff.2 hmem
      omega
  · rintro ⟨hsummary, hfree⟩
    refine ⟨htime, h.regions, fun id => ?_, fun id hid => ?_⟩
    · rw [h.summary id]
      split
      · rfl
      next hnone =>
        by_contra hne
        exact hnone (Option.isSome_iff_ne_none.2 (hsummary id hne))
    · rw [h.free id, List.count_eq_zero_of_not_mem (hfree id hid),
        if_pos (Option.isSome_iff_ne_none.2 hid)]

omit [RealArith K] in
theorem sat_onStopSimulation (hbenchmark : settings.benchmark = false)
    (hleader : s.amILeader = true) (hanswers : Answers answer s) (hlogs : Unlogged settings s)
    (hsender : sender ≠ .actor .main) {F : ℕ → Prop} (g : ℕ) :
    (onStopSimulation settings k sender s).Sat (told answer F)
      (fun _ t g' => Cleared s t ∧ t.time = 0 ∧ (Expires settings s → g < g') ∧
        (¬Expires settings s → g' = g)) g := by
  simp only [onStopSimulation, bind_apply, get_apply, Process.ret_bind, hleader, if_true]
  refine (sat_stopAll hbenchmark hanswers hlogs g).bind fun _ t g' ht => ?_
  have hreset : (resetRegionsData t).Sat (told answer F) _ g' :=
    quiet_resetRegionsData ht.cleared.regions g' t g' ⟨rfl, rfl⟩
  refine hreset.bind fun _ u g'' hu => ?_
  obtain ⟨rfl, rfl⟩ := hu
  have hacknowledged : ∀ nodes : List (ActorRef n m),
      reportsEnd (⟨sender, self k, .simulationStopped nodes⟩ : Sending _ (Message K n m)) =
        false := by
    intro nodes
    unfold reportsEnd
    split
    next h _ => exact absurd h hsender
    next => rfl
  have hnext : ∀ nodes : List (ActorRef n m),
      (told answer F).sendNext g'' ⟨sender, self k, .simulationStopped nodes⟩ = g'' := by
    intro nodes
    simp [told, Contract.answering, hacknowledged]
  refine ⟨trivial, ?_⟩
  rw [hnext]
  exact ⟨⟨ht.cleared.regions, ht.cleared.summary, ht.cleared.free, ht.cleared.agents,
    ht.cleared.amILeader⟩, rfl, ht.reports, ht.silent⟩

theorem stopSimulation_endsOnce (hbenchmark : settings.benchmark = false)
    (hleader : s.amILeader = true) (hanswers : Answers answer s)
    (hsender : sender ≠ .actor .main) :
    EndsOnce settings k oracle answer sender .stopSimulation s ↔
      Orderly settings s .stopSimulation := by
  by_cases hlogs : Unlogged settings s
  · have hsat : (receive settings k oracle sender .stopSimulation s).Sat (told answer Never) _ 0 :=
      sat_onStopSimulation hbenchmark hleader hanswers hlogs hsender 0
    obtain ⟨t, hdone, hcleared, htime, hreports, hsilent⟩ := handled_of_sat hsat
    have hexpires : ¬Expires settings s ↔ registered s = 0 ∨
        settings.isDebugEnabled = false ∧
          (s.time + registered s : ℤ) < settings.executionTime := by
      have hquiet : registered s ≠ 0 → settings.isDebugEnabled = false := fun hsome => by
        by_contra hdebug
        exact hsome (hlogs (by simpa using hdebug))
      unfold Expires
      by_cases hnone : registered s = 0
      · simp [hnone]
      · simp [hnone, hquiet hnone]
    have htidy := ended_iff_tidy hcleared htime
    constructor
    · intro h
      refine ⟨hexpires.1 fun hends => h.progress (hreports hends), htidy.1 ?_⟩
      obtain ⟨t', hdone', hended⟩ := h.ended (Or.inl rfl)
      obtain rfl : t = t' := by
        rw [hdone] at hdone'
        simpa using hdone'
      exact hended
    · rintro ⟨hearly, htables⟩
      have hcount := hsilent (hexpires.2 hearly)
      exact ⟨by omega, fun hpos => absurd hcount hpos.ne', fun _ => ⟨t, hdone, htidy.2 htables⟩⟩
  · obtain ⟨hdebug, hsome⟩ : settings.isDebugEnabled = true ∧ registered s ≠ 0 := by
      unfold Unlogged at hlogs
      exact Classical.not_imp.1 hlogs
    have hsat : (receive settings k oracle sender .stopSimulation s).Sat
        (Contract.heeding answer) (fun _ t _ => Summarised t) () :=
      sat_onStopSimulation_debug hdebug hleader hanswers hsome sender
    refine ⟨fun h => absurd h (not_endsOnce_of_summarised hsat (Or.inl rfl)), ?_⟩
    rintro ⟨hnone | ⟨hquiet, -⟩, -⟩
    · exact absurd hnone hsome
    · rw [hdebug] at hquiet
      cases hquiet

theorem endsOnce_of_early {message : Message K n m} {Q : SimulationActor K n m → Prop}
    (hsat : (receive settings k oracle sender message s).Sat (told answer (· = 0))
      (fun _ t g => Q t ∧ g = 0) 0) (hmessage : message ≠ .stopSimulation)
    (hprogress : ¬Progress settings s message) :
    EndsOnce settings k oracle answer sender message s := by
  have hcount : (handled settings k oracle answer sender message s).1.countP reportsEnd = 0 := by
    rcases Contract.answering_resolve hsat with ⟨_, t, -, -, hcount⟩ | ⟨-, hcount⟩
    · rwa [Nat.zero_add] at hcount
    · rwa [Nat.zero_add] at hcount
  refine ⟨by omega, fun hpos => absurd hcount hpos.ne', fun hends => ?_⟩
  rcases hends with h | h
  · exact absurd h hmessage
  · exact absurd h hprogress

omit [RealArith K] [CommonsMath K] in
theorem registered_released_eq_zero {id : Fin n} :
    registered (released s id) = 0 ↔ ∀ i, s.regions i ≠ none → i = id := by
  rw [registered_eq_zero]
  constructor
  · intro hnone i hi
    by_contra hne
    have hregion := hnone i
    simp only [released, ne_eq, hne, not_false_eq_true, Function.update_of_ne] at hregion
    exact hi hregion
  · intro hall i
    by_cases hi : i = id
    · subst hi
      simp [released]
    · have hregion : s.regions i = none := by
        by_contra hne
        exact hi (hall i hne)
      simp [released, hi, hregion]

omit [RealArith K] [CommonsMath K] in
theorem ended_release_iff {t : SimulationActor K n m} {id : Fin n} (h : Cleared (released s id) t)
    (htime : t.time = 0) (hall : ∀ i, s.regions i ≠ none → i = id)
    (hnone : ∀ i, (released s id).regions i = none) : Ended s t ↔ Tidy s fun i => i = id := by
  have hsummary : ∀ i, i ≠ id → t.regionsSummary i = s.regionsSummary i := by
    intro i hi
    have hcleared := h.summary i
    rw [hnone i] at hcleared
    simpa [released, hi] using hcleared
  have hid : t.regionsSummary id = none := by
    have hcleared := h.summary id
    rw [hnone id] at hcleared
    simpa [released] using hcleared
  have hfree : t.regionsIds.count id = s.regionsIds.count id + 1 := by
    have hcleared := h.free id
    rw [hnone id] at hcleared
    simpa [released] using hcleared
  constructor
  · intro hended
    refine ⟨fun i hi => ?_, fun i hi hmem => ?_⟩
    · by_contra hne
      exact hi ((hsummary i hne).symm.trans (hended.summary i))
    · obtain rfl := hall i hi
      rw [hended.free i hi] at hfree
      have hpos := List.count_pos_iff.2 hmem
      omega
  · rintro ⟨htidy, hused⟩
    refine ⟨htime, h.regions, fun i => ?_, fun i hi => ?_⟩
    · by_cases hi : i = id
      · subst hi
        exact hid
      · rw [hsummary i hi]
        by_contra hne
        exact hi (htidy i hne)
    · obtain rfl := hall i hi
      rw [hfree, List.count_eq_zero_of_not_mem (hused i hi)]

omit [RealArith K] in
theorem sat_calculate (hbenchmark : settings.benchmark = false)
    (hdebug : settings.isDebugEnabled = false) (hanswers : Answers answer s)
    (h : settings.executionTime ≤ (s.time + 1 : ℤ)) {F : ℕ → Prop} (g : ℕ) :
    (calculateGlobalParameters settings k (stopAll settings k) s).Sat (told answer F)
      (fun _ t g' => Cleared s t ∧ t.time = 0 ∧ (registered s = 0 → g' = g + 1) ∧
        (registered s ≠ 0 → g + 1 < g')) g :=
  sat_calculate_limit hbenchmark hdebug h (sat_stopAll (s := ticked s) hbenchmark
    (hanswers.of_same ⟨rfl, rfl, rfl, rfl, rfl⟩) (unlogged_of_debug hdebug _) g)

theorem regionRelease_endsOnce (hbenchmark : settings.benchmark = false)
    (hanswers : Answers answer s) (id : Fin n) :
    EndsOnce settings k oracle answer sender (.regionRelease id) s ↔
      Orderly settings s (.regionRelease id) := by
  by_cases hearly : (s.time + 1 : ℤ) < settings.executionTime
  · have hsat : (receive settings k oracle sender (.regionRelease id) s).Sat (told answer (· = 0))
        (fun _ t g => _ ∧ g = 0) 0 :=
      (sat_calculate_early (s := released s id) (F := (· = 0)) _ hearly fun _ => rfl).mono
        fun _ t g ht =>
        ⟨(⟨ht.1, ht.2.1⟩ : SameTables (released s id) t ∧ t.time = s.time + 1), ht.2.2⟩
    have hends := endsOnce_of_early hsat (by simp) (not_le.2 hearly)
    exact ⟨fun _ => Or.inl hearly, fun _ => hends⟩
  have hlimit := not_lt.1 hearly
  cases hdebug : settings.isDebugEnabled with
  | true =>
      have hsat : (receive settings k oracle sender (.regionRelease id) s).Sat
          (Contract.heeding answer) (fun _ t _ => Summarised t) () :=
        leavesSummary_onRegionRelease hdebug _ id s () trivial
      refine ⟨fun h => absurd h (not_endsOnce_of_summarised hsat (Or.inr hlimit)), ?_⟩
      rintro (h | ⟨hquiet, -⟩)
      · exact absurd h hearly
      · rw [hdebug] at hquiet
        cases hquiet
  | false =>
      have hsat : (receive settings k oracle sender (.regionRelease id) s).Sat
          (told answer Never) _ 0 :=
        sat_calculate (s := released s id) hbenchmark hdebug (hanswers.released id) hlimit 0
      obtain ⟨t, hdone, hcleared, htime, hone, hmore⟩ := handled_of_sat hsat
      have hlast : registered (released s id) = 0 ↔ ∀ i, s.regions i ≠ none → i = id :=
        registered_released_eq_zero
      have hended : (∀ i, s.regions i ≠ none → i = id) →
          (Ended s t ↔ Tidy s fun i => i = id) := fun hall =>
        ended_release_iff hcleared htime hall (registered_eq_zero.1 (hlast.2 hall))
      constructor
      · intro h
        have hall : ∀ i, s.regions i ≠ none → i = id := by
          rw [← hlast]
          by_contra hne
          have hcount := hmore hne
          have honce := h.once
          omega
        obtain ⟨t', hdone', hends⟩ := h.ended (Or.inr hlimit)
        obtain rfl : t = t' := by
          rw [hdone] at hdone'
          simpa using hdone'
        exact Or.inr ⟨hdebug, hall, (hended hall).1 hends⟩
      · rintro (h | ⟨-, hall, htidy⟩)
        · exact absurd h hearly
        · have hcount := hone (hlast.2 hall)
          exact ⟨by omega, fun _ => hlimit, fun _ => ⟨t, hdone, (hended hall).2 htidy⟩⟩

theorem updateRegionSummary_endsOnce (hbenchmark : settings.benchmark = false)
    (hanswers : Answers answer s) (id : Fin n) (summary : SummaryStatistics K) :
    EndsOnce settings k oracle answer sender (.updateRegionSummary id summary) s ↔
      Orderly settings s (.updateRegionSummary id summary) := by
  let s₁ : SimulationActor K n m :=
    { s with regionsSummary := Function.update s.regionsSummary id (some summary) }
  by_cases hearly : (s.time + 1 : ℤ) < settings.executionTime
  · have hsat : (receive settings k oracle sender (.updateRegionSummary id summary) s).Sat
        (told answer (· = 0)) (fun _ t g => _ ∧ g = 0) 0 :=
      (sat_calculate_early (s := s₁) (F := (· = 0)) _ hearly fun _ => rfl).mono fun _ t g ht =>
        ⟨(⟨ht.1, ht.2.1⟩ : SameTables s₁ t ∧ t.time = s.time + 1), ht.2.2⟩
    have hends := endsOnce_of_early hsat (by simp) (not_le.2 hearly)
    exact ⟨fun _ => hearly, fun _ => hends⟩
  refine ⟨fun h => ?_, fun h => absurd h hearly⟩
  have hlimit := not_lt.1 hearly
  cases hdebug : settings.isDebugEnabled with
  | true =>
      have hsat : (receive settings k oracle sender (.updateRegionSummary id summary) s).Sat
          (Contract.heeding answer) (fun _ t _ => Summarised t) () :=
        leavesSummary_calculate hdebug _ s₁ () trivial
      exact absurd h (not_endsOnce_of_summarised hsat (Or.inr hlimit))
  | false =>
      have hsat : (receive settings k oracle sender (.updateRegionSummary id summary) s).Sat
          (told answer Never) _ 0 :=
        sat_calculate (s := s₁) hbenchmark hdebug ⟨hanswers.agents, hanswers.regions⟩ hlimit 0
      obtain ⟨t, hdone, hcleared, htime, hone, hmore⟩ := handled_of_sat hsat
      by_cases hnone : registered s₁ = 0
      · -- the summary of a region that is not registered stays
        obtain ⟨t', hdone', hends⟩ := h.ended (Or.inr hlimit)
        obtain rfl : t = t' := by
          rw [hdone] at hdone'
          simpa using hdone'
        have hsummary := hcleared.summary id
        rw [hends.summary id, registered_eq_zero.1 hnone id] at hsummary
        simp [s₁] at hsummary
      · have hcount := hmore hnone
        have honce := h.once
        omega

theorem regionRegister_endsOnce (hbenchmark : settings.benchmark = false)
    (hanswers : Answers answer s) {id : Fin n}
    (hnew : answer sender .stopSimulation = some (.regionRelease id))
    (stats : SummaryStatistics K) :
    EndsOnce settings k oracle answer sender (.regionRegister id stats) s ↔
      Orderly settings s (.regionRegister id stats) := by
  let s₁ : SimulationActor K n m :=
    { s with
      regions := Function.update s.regions id (some sender)
      regionsSummary := Function.update s.regionsSummary id (some stats) }
  by_cases hearly : (s.time + 1 : ℤ) < settings.executionTime
  · have hsat : (receive settings k oracle sender (.regionRegister id stats) s).Sat
        (told answer (· = 0)) (fun _ t g => SameTables s₁ t ∧ g = 0) 0 := by
      refine (sat_calculate_early (s := s₁) (F := (· = 0)) _ hearly fun _ => rfl).bind
        fun _ t g ht => ?_
      refine (quiet_relay answer _ k t g sender (.regionRegister id stats) (by simp) t g
        ⟨rfl, rfl⟩).mono fun _ u g' hu => ?_
      obtain ⟨rfl, rfl⟩ := hu
      exact ⟨ht.1, ht.2.2⟩
    have hends := endsOnce_of_early hsat (by simp) (not_le.2 hearly)
    exact ⟨fun _ => hearly, fun _ => hends⟩
  refine ⟨fun h => ?_, fun h => absurd h hearly⟩
  have hlimit := not_lt.1 hearly
  cases hdebug : settings.isDebugEnabled with
  | true =>
      have hinforms := informs_heeding answer k
        (Summarised : SimulationActor K n m → Prop)
      have hsat : (receive settings k oracle sender (.regionRegister id stats) s).Sat
          (Contract.heeding answer) (fun _ t _ => Summarised t) () := by
        refine (leavesSummary_calculate hdebug _ s₁ () trivial).bind fun _ t g ht => ?_
        refine Meets.bind hinforms.updateRegions (fun _ => Meets.bind hinforms.updateAgents
          fun _ => hinforms.forwardIfLeader fun _ => ?_) t g ht
        exact fun _ _ hu => ⟨trivial, hu⟩
      exact absurd h (not_endsOnce_of_summarised hsat (Or.inr hlimit))
  | false =>
      have hanswers₁ : Answers answer s₁ := by
        refine ⟨hanswers.agents, fun i region hi => ?_⟩
        by_cases hid : i = id
        · subst hid
          obtain rfl : sender = region := by simpa [s₁] using hi
          exact hnew
        · exact hanswers.regions i region (by simpa [s₁, hid] using hi)
      have hsat : (receive settings k oracle sender (.regionRegister id stats) s).Sat
          (told answer Never) (fun _ t g => Cleared s₁ t ∧ t.time = 0 ∧
            (registered s₁ = 0 → g = 0 + 1) ∧ (registered s₁ ≠ 0 → 0 + 1 < g)) 0 := by
        refine (sat_calculate (s := s₁) hbenchmark hdebug hanswers₁ hlimit 0).bind
          fun _ t g ht => ?_
        refine (quiet_relay answer _ k t g sender (.regionRegister id stats) (by simp) t g
          ⟨rfl, rfl⟩).mono fun _ u g' hu => ?_
        obtain ⟨rfl, rfl⟩ := hu
        exact ht
      obtain ⟨t, -, -, -, -, hmore⟩ := handled_of_sat hsat
      -- the region that registers is there to be stopped
      have hcount := hmore fun hnone => by
        have hregion := registered_eq_zero.1 hnone id
        simp [s₁] at hregion
      have honce := h.once
      omega

theorem unclocked_endsOnce {message : Message K n m} (hclocked : ¬Clocked message) :
    EndsOnce settings k oracle answer sender message s := by
  have hsends : SendsOnly
      (fun dst sender message => reportsEnd (⟨dst, sender, message⟩ : Sending _ (Message K n m)) =
        false)
      (fun _ _ => True) (receive settings k oracle sender message) := by
    refine sends_unclocked ?_ oracle sender hclocked fun hrelay dst => reportsEnd_of_ne ?_
    · exact ⟨fun _ _ _ _ _ _ => reportsEnd_of_ne (by simp),
        fun _ _ _ _ => reportsEnd_of_ne (by simp), fun _ _ => reportsEnd_of_ne (by simp),
        fun _ => reportsEnd_of_ne (by simp), fun _ => reportsEnd_of_ne (by simp),
        fun _ _ => reportsEnd_of_ne (by simp)⟩
    · rintro nodes rfl
      exact hrelay
  have hcount : (handled settings k oracle answer sender message s).1.countP reportsEnd = 0 :=
    List.countP_eq_zero.2 fun x hx => by
      have hquiet := Contract.plain_resolve (hsends s () trivial) x hx
      simpa using hquiet
  refine ⟨by omega, fun hpos => absurd hcount hpos.ne', fun hends => ?_⟩
  cases message <;> simp [Clocked, Progress] at hclocked hends

/-- A leader's handling of a message ends the simulation once, because of progress
only and with empty tables, exactly in orderly states. -/
theorem endsOnce_iff_orderly (hbenchmark : settings.benchmark = false)
    (hleader : s.amILeader = true) (hanswers : Answers answer s) {message : Message K n m}
    (hsender : message = .stopSimulation → sender ≠ .actor .main)
    (hnew : ∀ id stats, message = .regionRegister id stats →
      answer sender .stopSimulation = some (.regionRelease id)) :
    EndsOnce settings k oracle answer sender message s ↔ Orderly settings s message := by
  cases message with
  | stopSimulation => exact stopSimulation_endsOnce hbenchmark hleader hanswers (hsender rfl)
  | regionRelease id => exact regionRelease_endsOnce hbenchmark hanswers id
  | updateRegionSummary id summary =>
      exact updateRegionSummary_endsOnce hbenchmark hanswers id summary
  | regionRegister id stats =>
      exact regionRegister_endsOnce hbenchmark hanswers (hnew id stats rfl) stats
  | _ => exact ⟨fun _ => trivial, fun _ => unclocked_endsOnce id⟩

end Leader

section Example

def region : Fin 1 := ⟨0, Nat.zero_lt_one⟩

def exampleSettings : SimulationSettings :=
  { region := ⟨1, 10⟩, problem := ⟨1, 1, .benchmark⟩, benchmark := false, executionTime := 5
    hasCooperation := true }

def leaderAt (time : ℕ) : SimulationActor ℚ 1 0 :=
  { (SimulationActor.new exampleSettings : SimulationActor ℚ 1 0) with
    amILeader := true
    regions := fun _ => some (.actor (.region region))
    regionsIds := []
    regionUsedIds := [region]
    regionsSummary := fun _ => some ⟨[1]⟩
    time := time }

def releases (_ : ActorRef 1 0) (_ : Message ℚ 1 0) : Option (Message ℚ 1 0) :=
  some (.regionRelease region)

def oracle : Oracle ℚ := ⟨fun _ => [], [], .fin⟩

theorem releases_answers (time : ℕ) : Answers releases (leaderAt time) where
  agents id := id.elim0
  regions id _ _ := by
    rw [Subsingleton.elim id region]
    rfl

/-- Stopped through the API just before its limit, the manager reports the end of
the simulation to its parent. -/
theorem api_stop_reports_end :
    ¬EndsOnce exampleSettings 0 oracle releases (.actor (.client 0)) .stopSimulation
      (leaderAt 4) := by
  intro h
  have hreports : 0 < (handled exampleSettings 0 oracle releases (.actor (.client 0))
      .stopSimulation (leaderAt 4)).1.countP reportsEnd := by decide +kernel
  exact h.progress hreports

theorem endsOnce_iff_orderly_example :
    EndsOnce exampleSettings 0 oracle releases (.actor (.client 0)) .stopSimulation
      (leaderAt 0) := by
  refine (endsOnce_iff_orderly rfl rfl (releases_answers 0) (fun _ => by decide)
    fun id stats h => by simp at h).2 ⟨Or.inr ⟨rfl, ?_⟩, fun id _ => ?_, fun id _ => ?_⟩
  · decide
  · simp [leaderAt]
  · simp [leaderAt]

end Example

end DOptimas.Proofs.SimulationEnd
