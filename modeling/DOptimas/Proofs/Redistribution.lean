import DOptimas.Actors.SimulationActor
import DOptimas.Support.Rational
import DOptimas.Util.RegionSelection
/-!
# Redistribution by the leader

The leader forwards the solutions of a `SolutionResult` or of a `RegionSplit`:
to a new region, or to one that the roulette chooses.  What it sends depends on
the free ids left before each request for one, and on what the roulette can
choose.
-/

namespace DOptimas.Proofs.Redistribution

open DOptimas.Support DOptimas.Core DOptimas.Util DOptimas.Actors
  DOptimas.Actors.SimulationActor Handler

variable {K : Type} [RealArith K] [CommonsMath K] {n m : ℕ}

def forwarded : Message K n m → List (Solution K)
  | .createRegion _ _ solutions _ _ => solutions
  | .solutionResponse _ _ solutions => solutions
  | _ => []

abbrev Work (K : Type) (n m : ℕ) : Type :=
  Process Failure (SimulationActor K n m) (ActorRef n m) (Message K n m) Unit

def sentSolutions (p : Work K n m) : List (Solution K) :=
  p.sent.flatMap fun s => forwarded s.message

/-- The handler ends and has forwarded `incoming`, each solution once. -/
def Forwards (p : Work K n m) (incoming : List (Solution K)) : Prop :=
  (∃ t, p.outcome = .done () t) ∧ (sentSolutions p).Perm incoming

/-- The oracle rounds as the machine does and draws what its generator gives. -/
def Admits (round : K → JDouble K) (sampled : Set (Draw K)) (oracle : Oracle K) : Prop :=
  oracle.round = round ∧ ∀ j, ∀ draw ∈ oracle.draws j, draw ∈ sampled

/-- Whatever the roulette draws, `incoming` is forwarded as soon as the draws
come to an end, and some draws do. -/
def Redistributes (round : K → JDouble K) (sampled : Set (Draw K)) (p : Oracle K → Work K n m)
    (incoming : List (Solution K)) : Prop :=
  (∀ oracle, Admits round sampled oracle →
    (p oracle).outcome = .stuck ∨ Forwards (p oracle) incoming) ∧
    ∃ oracle, Admits round sampled oracle ∧ Forwards (p oracle) incoming

def selector (s : SimulationActor K n m) : RegionSelector K n m :=
  ⟨s.regionUsedIds, s.regions, s.regionsSummary⟩

/-! ## Handlers that deliver, and handlers that do not -/

section Shapes

variable (round : K → JDouble K) (sampled : Set (Draw K))

/-- The handler forwards exactly `out`, on every oracle on which it ends. -/
def Delivers (p : Oracle K → Work K n m) (out : List (Solution K)) : Prop :=
  (∀ oracle, Admits round sampled oracle → (p oracle).outcome = .stuck ∨
    (∃ t, (p oracle).outcome = .done () t) ∧ sentSolutions (p oracle) = out) ∧
  ∃ oracle, Admits round sampled oracle ∧
    (∃ t, (p oracle).outcome = .done () t) ∧ sentSolutions (p oracle) = out

/-- Some draws make the handler throw, or none lets it end. -/
def Broken (p : Oracle K → Work K n m) : Prop :=
  (∃ oracle, Admits round sampled oracle ∧ ∃ e t, (p oracle).outcome = .failed e t) ∨
    ∀ oracle, Admits round sampled oracle → ∀ t, (p oracle).outcome ≠ .done () t

omit [CommonsMath K] in
theorem admits_no_draw : Admits round sampled ⟨fun _ => [], [], round⟩ :=
  ⟨rfl, fun _ _ hdraw => absurd hdraw List.not_mem_nil⟩

omit [CommonsMath K] in
theorem delivers_ret (s : SimulationActor K n m) :
    Delivers round sampled (fun _ : Oracle K => .ret () s) [] :=
  ⟨fun _ _ => Or.inr ⟨⟨s, rfl⟩, rfl⟩, _, admits_no_draw round sampled, ⟨s, rfl⟩, rfl⟩

variable {round sampled} {p : Oracle K → Work K n m} {out incoming : List (Solution K)}

omit [CommonsMath K] in
theorem Delivers.redistributes_iff (h : Delivers round sampled p out) :
    Redistributes round sampled p incoming ↔ out.Perm incoming := by
  obtain ⟨hall, oracle, hadmits, hdone, hsent⟩ := h
  constructor
  · rintro ⟨-, oracle', hadmits', ⟨t, ht⟩, hperm⟩
    rcases hall oracle' hadmits' with hstuck | ⟨-, hsent'⟩
    · rw [ht] at hstuck
      simp at hstuck
    · rwa [hsent'] at hperm
  · intro hperm
    refine ⟨fun oracle' hadmits' => (hall oracle' hadmits').imp_right fun h => ⟨h.1, ?_⟩,
      oracle, hadmits, hdone, ?_⟩
    · rwa [h.2]
    · rwa [hsent]

omit [CommonsMath K] in
theorem Broken.not_redistributes (h : Broken round sampled p) :
    ¬Redistributes round sampled p incoming := by
  rintro ⟨hall, oracle, hadmits, ⟨t, ht⟩, -⟩
  rcases h with ⟨oracle', hadmits', e, t', hfail⟩ | hnone
  · rcases hall oracle' hadmits' with hstuck | ⟨⟨t, ht⟩, -⟩
    · rw [hfail] at hstuck
      simp at hstuck
    · rw [hfail] at ht
      simp at ht
  · exact hnone oracle hadmits t ht

omit [CommonsMath K] in
theorem Broken.bind {f : Oracle K → Unit → SimulationActor K n m → Work K n m}
    (h : Broken round sampled p) :
    Broken round sampled fun oracle => (p oracle).bind (f oracle) := by
  rcases h with ⟨oracle, hadmits, e, t, hfail⟩ | hnone
  · exact Or.inl ⟨oracle, hadmits, e, t, by rw [Process.outcome_bind, hfail]⟩
  · refine Or.inr fun oracle hadmits t ht => ?_
    rw [Process.outcome_bind] at ht
    split at ht
    next a s hdone => exact hnone oracle hadmits s hdone
    all_goals simp at ht

omit [CommonsMath K] in
theorem Broken.tell {dst sender : ActorRef n m} {message : Message K n m}
    (h : Broken round sampled p) :
    Broken round sampled fun oracle => .tell dst sender message (p oracle) := h

omit [CommonsMath K] in
theorem Delivers.tell (h : Delivers round sampled p out) (dst sender : ActorRef n m)
    (message : Message K n m) :
    Delivers round sampled (fun oracle => .tell dst sender message (p oracle))
      (forwarded message ++ out) := by
  obtain ⟨hall, oracle, hadmits, hdone, hsent⟩ := h
  refine ⟨fun oracle' hadmits' => (hall oracle' hadmits').imp_right fun h => ⟨h.1, ?_⟩, oracle,
    hadmits, hdone, ?_⟩
  · rw [← h.2]
    rfl
  · rw [← hsent]
    rfl

end Shapes

/-! ## Sending to a chosen region -/

section Send

variable (k : ℕ) {round : K → JDouble K} {sampled : Set (Draw K)} {s : SimulationActor K n m}
  (senderId : ℤ) (solutions : List (Solution K))

theorem sendToRegion_eq (round : K → JDouble K) (draws : List (Draw K)) :
    sendToRegion k round draws senderId solutions s =
      match RegionSelector.selectRegion round (selector s) draws with
      | .exhausted => .stuck
      | .indexOutOfBounds => .fail .indexOutOfBounds s
      | .chosen id =>
          match s.regions id with
          | none => .fail (.nullPointer .actorRef) s
          | some region =>
              .tell region (self k) (.solutionResponse senderId id solutions) (.ret () s) := by
  simp only [sendToRegion, bind_apply, selectRegion]
  have hsel : RegionSelector.selectRegion round
      ⟨s.regionUsedIds, s.regions, s.regionsSummary⟩ draws =
      RegionSelector.selectRegion round (selector s) draws := rfl
  rw [hsel]
  cases RegionSelector.selectRegion round (selector s) draws with
  | exhausted => rfl
  | indexOutOfBounds => rfl
  | chosen id =>
      rw [Process.ret_bind, deref]
      dsimp only
      cases s.regions id with
      | none => rfl
      | some region => rfl

theorem sendToRegion_safe (h : (selector s).Safe round sampled) {draws : List (Draw K)}
    (hdraws : ∀ draw ∈ draws, draw ∈ sampled) :
    sendToRegion k round draws senderId solutions s = .stuck ∨
      ∃ id region, sendToRegion k round draws senderId solutions s =
        .tell region (self k) (.solutionResponse senderId id solutions) (.ret () s) := by
  rw [sendToRegion_eq]
  rcases h.ends draws hdraws with hex | ⟨id, hid, hreg⟩
  · exact Or.inl (by rw [hex])
  · obtain ⟨region, hregion⟩ : ∃ region, s.regions id = some region :=
      Option.ne_none_iff_exists'.1 hreg
    exact Or.inr ⟨id, region, by rw [hid]; simp [hregion]⟩

theorem sendToRegion_chooses (h : (selector s).Safe round sampled) :
    ∃ draws, (∀ draw ∈ draws, draw ∈ sampled) ∧ ∀ k senderId solutions, ∃ id region,
      sendToRegion k round draws senderId solutions s =
        .tell region (self k) (.solutionResponse senderId id solutions) (.ret () s) := by
  obtain ⟨draws, hdraws, id, hid, hreg⟩ := h.chooses
  obtain ⟨region, hregion⟩ : ∃ region, s.regions id = some region :=
    Option.ne_none_iff_exists'.1 hreg
  exact ⟨draws, hdraws, fun k senderId solutions => ⟨id, region, by
    rw [sendToRegion_eq, hid]
    simp [hregion]⟩⟩

theorem delivers_sendToRegion (h : (selector s).Safe round sampled) (j : ℕ)
    (rest : Oracle K → SimulationActor K n m → Work K n m) (out : List (Solution K))
    (hrest : ∀ oracle, Admits round sampled oracle → (rest oracle s).outcome = .stuck ∨
      (∃ t, (rest oracle s).outcome = .done () t) ∧ sentSolutions (rest oracle s) = out)
    (hsome : ∀ draws, (∀ draw ∈ draws, draw ∈ sampled) →
      ∃ oracle, Admits round sampled oracle ∧ oracle.draws j = draws ∧
        (∃ t, (rest oracle s).outcome = .done () t) ∧ sentSolutions (rest oracle s) = out) :
    Delivers round sampled
      (fun oracle => (sendToRegion k oracle.round (oracle.draws j) senderId solutions s).bind
        fun _ t => rest oracle t) (solutions ++ out) := by
  constructor
  · intro oracle hadmits
    dsimp only
    rw [hadmits.1]
    rcases sendToRegion_safe k senderId solutions h (hadmits.2 j) with
      hstuck | ⟨id, region, htell⟩
    · refine Or.inl ?_
      simp only [hstuck]
      rfl
    · simp only [htell]
      rcases hrest oracle hadmits with hstuck | ⟨hdone, hsent⟩
      · exact Or.inl hstuck
      · exact Or.inr ⟨hdone, hsent ▸ rfl⟩
  · obtain ⟨draws, hsampled, hdraws⟩ := sendToRegion_chooses h
    obtain ⟨oracle, hadmits, horacle, hdone, hsent⟩ := hsome draws hsampled
    obtain ⟨id, region, htell⟩ := hdraws k senderId solutions
    refine ⟨oracle, hadmits, ?_⟩
    simp only [hadmits.1, horacle, htell]
    exact ⟨hdone, hsent ▸ rfl⟩

theorem delivers_last_sendToRegion (h : (selector s).Safe round sampled) (j : ℕ) :
    Delivers round sampled
      (fun oracle => sendToRegion k oracle.round (oracle.draws j) senderId solutions s)
      solutions := by
  have hdelivers := delivers_sendToRegion k senderId solutions h j (fun _ t => .ret () t) []
    (fun _ _ => Or.inr ⟨⟨s, rfl⟩, rfl⟩) fun draws hdraws =>
      ⟨⟨fun _ => draws, [], round⟩, ⟨rfl, fun _ => hdraws⟩, rfl, ⟨s, rfl⟩, rfl⟩
  have hlast : (fun oracle : Oracle K =>
      (sendToRegion k oracle.round (oracle.draws j) senderId solutions s).bind
        fun _ t => .ret () t) =
      fun oracle => sendToRegion k oracle.round (oracle.draws j) senderId solutions s :=
    funext fun oracle => Process.bind_ret _
  rwa [hlast, List.append_nil] at hdelivers

theorem delivers_two_sends (h : (selector s).Safe round sampled) {senderId' : ℤ}
    {solutions' : List (Solution K)} {rest : Oracle K → SimulationActor K n m → Work K n m}
    (hrest : ∀ oracle, rest oracle s =
      sendToRegion k oracle.round (oracle.draws 1) senderId' solutions' s) :
    Delivers round sampled
      (fun oracle => (sendToRegion k oracle.round (oracle.draws 0) senderId solutions s).bind
        fun _ t => rest oracle t) (solutions ++ solutions') := by
  obtain ⟨hall, oracle, hadmits, hdone, hsent⟩ :=
    delivers_last_sendToRegion k senderId' solutions' h 1
  refine delivers_sendToRegion k senderId solutions h 0 rest solutions'
    (fun oracle hadmits => ?_) fun draws hdraws => ?_
  · rw [hrest]
    exact hall oracle hadmits
  · refine ⟨⟨fun j => if j = 0 then draws else oracle.draws 1, [], round⟩, ⟨rfl, fun j => ?_⟩, rfl,
      ?_⟩
    · dsimp only
      split
      · exact hdraws
      · exact hadmits.2 1
    · rw [hrest]
      dsimp only at hdone hsent ⊢
      rw [hadmits.1] at hdone hsent
      exact ⟨hdone, hsent⟩

theorem broken_sendToRegion (h : ¬(selector s).Safe round sampled) (j : ℕ) :
    Broken round sampled
      fun oracle => sendToRegion k oracle.round (oracle.draws j) senderId solutions s := by
  by_cases hend : ∀ draws, (∀ draw ∈ draws, draw ∈ sampled) →
      RegionSelector.selectRegion round (selector s) draws = .exhausted ∨
        ∃ id, RegionSelector.selectRegion round (selector s) draws = .chosen id ∧
          (selector s).regions id ≠ none
  · refine Or.inr fun oracle hadmits t ht => h ⟨hend, oracle.draws j, hadmits.2 j, ?_⟩
    dsimp only at ht
    rw [hadmits.1] at ht
    rcases hend (oracle.draws j) (hadmits.2 j) with hex | hchosen
    · simp only [sendToRegion_eq, hex] at ht
      simp [Process.outcome] at ht
    · exact hchosen
  · push Not at hend
    obtain ⟨draws, hdraws, hex, hno⟩ := hend
    refine Or.inl ⟨⟨fun _ => draws, [], round⟩, ⟨rfl, fun _ => hdraws⟩, ?_⟩
    simp only [sendToRegion_eq]
    cases hsel : RegionSelector.selectRegion round (selector s) draws with
    | exhausted => exact absurd hsel hex
    | indexOutOfBounds => exact ⟨_, _, rfl⟩
    | chosen id =>
        have hnone : s.regions id = none := hno id hsel
        exact ⟨.nullPointer .actorRef, s, by simp [hnone]⟩

end Send

/-! ## The two handlers -/

section Receive

variable (round : K → JDouble K) (sampled : Set (Draw K)) (settings : SimulationSettings) (k : ℕ)
  (sender : ActorRef n m) {s : SimulationActor K n m}

def handling (s : SimulationActor K n m) (message : Message K n m) (oracle : Oracle K) :
    Work K n m :=
  receive settings k oracle sender message s

def allocated (s : SimulationActor K n m) (id : Fin n) (ids : List (Fin n)) :
    SimulationActor K n m :=
  { s with regionsIds := ids, regionUsedIds := s.regionUsedIds ++ [id] }

omit [RealArith K] [CommonsMath K] in
theorem nextRegionId_nil (h : s.regionsIds = []) : nextRegionId s = .ret none s := by
  simp [nextRegionId, h]

omit [RealArith K] [CommonsMath K] in
theorem nextRegionId_cons {id : Fin n} {ids : List (Fin n)} (h : s.regionsIds = id :: ids) :
    nextRegionId s = .ret (some id) (allocated s id ids) := by
  simp [nextRegionId, h, allocated]

/-- When a message reaches the leader, some place is left for its solutions. -/
def Forwardable (s : SimulationActor K n m) : Message K n m → Prop
  | .solutionResult solutions =>
      solutions = [] ∨
        if (s.regionUsedIds.length : ℤ) < settings.region.minRegions then s.regionsIds ≠ []
        else (selector s).Selectable round sampled
  | .regionSplit _ [] [] => True
  | .regionSplit _ [] (_ :: _) => s.regionsIds ≠ [] ∨ (selector s).Selectable round sampled
  | .regionSplit _ (_ :: _) [] => s.regionsIds ≠ []
  | .regionSplit _ lower higher =>
      match s.regionsIds with
      | [] => lower.Perm higher ∧ (selector s).Selectable round sampled
      | [id] => (selector (allocated s id [])).Selectable round sampled
      | _ => True
  | _ => True

theorem send_redistributes_iff (j : ℕ) (senderId : ℤ) (solutions incoming : List (Solution K)) :
    Redistributes round sampled
        (fun oracle => sendToRegion k oracle.round (oracle.draws j) senderId solutions s)
        incoming ↔
      (selector s).Selectable round sampled ∧ solutions.Perm incoming := by
  rw [← RegionSelector.safe_iff_selectable]
  by_cases hsafe : (selector s).Safe round sampled
  · rw [(delivers_last_sendToRegion k senderId solutions hsafe j).redistributes_iff,
      and_iff_right hsafe]
  · exact iff_of_false (broken_sendToRegion k senderId solutions hsafe j).not_redistributes
      fun h => hsafe h.1

omit [CommonsMath K] in
theorem create_redistributes_iff (id : Fin n) (solutions incoming : List (Solution K)) :
    Redistributes round sampled (fun _ : Oracle K => createRegion settings k id solutions s)
        incoming ↔
      solutions.Perm incoming := by
  have hdelivers := (delivers_ret round sampled s).tell (.actor (.region id)) (self k)
    (.createRegion id settings.region solutions s.time s.problem)
  rw [List.append_nil] at hdelivers
  exact hdelivers.redistributes_iff

theorem solutionResult_iff (solutions : List (Solution K)) :
    Redistributes round sampled (handling settings k sender s (.solutionResult solutions))
        solutions ↔
      Forwardable round sampled settings s (.solutionResult solutions) := by
  have hhandling : handling settings k sender s (.solutionResult solutions) =
      fun oracle => onSolutionResult settings k oracle solutions s := rfl
  rw [hhandling]
  by_cases hempty : solutions = []
  · subst hempty
    exact iff_of_true ((delivers_ret round sampled s).redistributes_iff.2 (List.Perm.refl _))
      (Or.inl rfl)
  · have hnot : ¬solutions.isEmpty := by simpa using hempty
    simp only [Forwardable, hempty, false_or]
    by_cases hfew : (s.regionUsedIds.length : ℤ) < settings.region.minRegions
    · cases hids : s.regionsIds with
      | nil =>
          -- the solutions are dropped
          have hdrop : (fun oracle : Oracle K => onSolutionResult settings k oracle solutions s) =
              fun _ => .ret () s := by
            funext oracle
            simp [onSolutionResult, hempty, hfew, nextRegionId_nil hids]
          rw [hdrop, (delivers_ret round sampled s).redistributes_iff]
          simp [hfew, hempty]
      | cons id ids =>
          have hcreate : (fun oracle : Oracle K => onSolutionResult settings k oracle solutions s) =
              fun _ => createRegion settings k id solutions (allocated s id ids) := by
            funext oracle
            simp [onSolutionResult, hempty, hfew, nextRegionId_cons hids]
          rw [hcreate, create_redistributes_iff]
          simp [hfew]
    · have hsend : (fun oracle : Oracle K => onSolutionResult settings k oracle solutions s) =
          fun oracle => sendToRegion k oracle.round (oracle.draws 0) 0 solutions s := by
        funext oracle
        simp [onSolutionResult, hempty, hfew]
      rw [hsend, send_redistributes_iff]
      simp [hfew]

theorem placeHalf_empty (round : K → JDouble K) (draws : List (Draw K))
    (fallback : List (Solution K)) :
    placeHalf settings k round draws [] fallback s = .ret () s := rfl

theorem placeHalf_new (round : K → JDouble K) (draws : List (Draw K))
    {solutions : List (Solution K)} (fallback : List (Solution K)) (hne : solutions ≠ [])
    {id : Fin n} {ids : List (Fin n)} (h : s.regionsIds = id :: ids) :
    placeHalf settings k round draws solutions fallback s =
      createRegion settings k id solutions (allocated s id ids) := by
  simp [placeHalf, hne, nextRegionId_cons h]

theorem placeHalf_full (round : K → JDouble K) (draws : List (Draw K))
    {solutions : List (Solution K)} (fallback : List (Solution K)) (hne : solutions ≠ [])
    (h : s.regionsIds = []) :
    placeHalf settings k round draws solutions fallback s =
      sendToRegion k round draws Nobody fallback s := by
  simp [placeHalf, hne, nextRegionId_nil h]

theorem handling_regionSplit (i : Fin n) (lower higher : List (Solution K)) :
    handling settings k sender s (.regionSplit i lower higher) =
      fun oracle => (placeHalf settings k oracle.round (oracle.draws 0) lower higher s).bind
        fun _ t => placeHalf settings k oracle.round (oracle.draws 1) higher higher t := rfl

section Halves

variable (i : Fin n) {lower higher : List (Solution K)} (hlower : lower ≠ [])
  (hhigher : higher ≠ [])

include hlower hhigher

/-- Without a free id both sends carry the higher half. -/
theorem regionSplit_full_iff (hids : s.regionsIds = []) :
    Redistributes round sampled (handling settings k sender s (.regionSplit i lower higher))
        (lower ++ higher) ↔
      lower.Perm higher ∧ (selector s).Selectable round sampled := by
  rw [handling_regionSplit, ← RegionSelector.safe_iff_selectable]
  simp only [placeHalf_full settings k _ _ _ hlower hids]
  by_cases hsafe : (selector s).Safe round sampled
  · have hdelivers := delivers_two_sends k Nobody higher hsafe fun oracle : Oracle K =>
      placeHalf_full settings k oracle.round (oracle.draws 1) higher hhigher hids
    rw [hdelivers.redistributes_iff, List.perm_append_right_iff, and_iff_left hsafe]
    exact List.perm_comm
  · have hbroken := broken_sendToRegion k Nobody higher hsafe 0
    exact iff_of_false hbroken.bind.not_redistributes fun h => hsafe h.2

/-- The last free id is for the lower half. -/
theorem regionSplit_last_iff {id : Fin n} (hids : s.regionsIds = [id]) :
    Redistributes round sampled (handling settings k sender s (.regionSplit i lower higher))
        (lower ++ higher) ↔
      (selector (allocated s id [])).Selectable round sampled := by
  have hfull : (allocated s id []).regionsIds = [] := rfl
  have hsplit : handling settings k sender s (.regionSplit i lower higher) =
      fun oracle => .tell (.actor (.region id)) (self k)
        (.createRegion id settings.region lower s.time s.problem)
        (sendToRegion k oracle.round (oracle.draws 1) Nobody higher (allocated s id [])) := by
    rw [handling_regionSplit]
    funext oracle
    rw [placeHalf_new settings k _ _ _ hlower hids,
      ← placeHalf_full settings k _ _ higher hhigher hfull]
    rfl
  rw [hsplit, ← RegionSelector.safe_iff_selectable]
  by_cases hsafe : (selector (allocated s id [])).Safe round sampled
  · have hdelivers := (delivers_last_sendToRegion k Nobody higher hsafe 1).tell
      (.actor (.region id)) (self k) (.createRegion id settings.region lower s.time s.problem)
    exact iff_of_true (hdelivers.redistributes_iff.2 (List.Perm.refl _)) hsafe
  · have hbroken := broken_sendToRegion k Nobody higher hsafe 1
    exact iff_of_false hbroken.tell.not_redistributes hsafe

theorem regionSplit_new {id id' : Fin n} {ids : List (Fin n)}
    (hids : s.regionsIds = id :: id' :: ids) :
    Redistributes round sampled (handling settings k sender s (.regionSplit i lower higher))
      (lower ++ higher) := by
  have hids' : (allocated s id (id' :: ids)).regionsIds = id' :: ids := rfl
  have hsplit : handling settings k sender s (.regionSplit i lower higher) =
      fun _ => .tell (.actor (.region id)) (self k)
        (.createRegion id settings.region lower s.time s.problem)
        (.tell (.actor (.region id')) (self k)
          (.createRegion id' settings.region higher s.time s.problem)
          (.ret () (allocated (allocated s id (id' :: ids)) id' ids))) := by
    rw [handling_regionSplit]
    funext oracle
    have hsecond := placeHalf_new settings k oracle.round (oracle.draws 1) higher hhigher hids'
    rw [placeHalf_new settings k _ _ _ hlower hids]
    simp only [createRegion, bind_apply, get_apply, Process.ret_bind, tell_apply,
      Process.tell_bind]
    rw [hsecond]
    rfl
  rw [hsplit]
  have hends := delivers_ret round sampled (allocated (allocated s id (id' :: ids)) id' ids)
  have hdelivers := (hends.tell (.actor (.region id')) (self k)
    (.createRegion id' settings.region higher s.time s.problem)).tell
    (.actor (.region id)) (self k) (.createRegion id settings.region lower s.time s.problem)
  exact hdelivers.redistributes_iff.2 (by simp [forwarded])

end Halves

theorem regionSplit_iff (i : Fin n) (lower higher : List (Solution K)) :
    Redistributes round sampled (handling settings k sender s (.regionSplit i lower higher))
        (lower ++ higher) ↔
      Forwardable round sampled settings s (.regionSplit i lower higher) := by
  match lower, higher with
  | [], [] =>
      simp only [handling_regionSplit, placeHalf_empty, Process.ret_bind]
      exact iff_of_true ((delivers_ret round sampled s).redistributes_iff.2 (List.Perm.refl _))
        trivial
  | [], x :: higher =>
      simp only [handling_regionSplit, placeHalf_empty, Process.ret_bind, List.nil_append]
      cases hids : s.regionsIds with
      | nil =>
          simp only [placeHalf_full settings k _ _ _ (List.cons_ne_nil x higher) hids]
          rw [send_redistributes_iff]
          simp [Forwardable, hids]
      | cons id ids =>
          simp only [placeHalf_new settings k _ _ _ (List.cons_ne_nil x higher) hids]
          rw [create_redistributes_iff]
          simp [Forwardable, hids]
  | x :: lower, [] =>
      have hlast : ∀ oracle : Oracle K, (fun (_ : Unit) (t : SimulationActor K n m) =>
          placeHalf settings k oracle.round (oracle.draws 1) [] [] t) = fun _ t => .ret () t :=
        fun _ => rfl
      have hret : ∀ p : Work K n m, (p.bind fun _ t => .ret () t) = p := Process.bind_ret
      simp only [handling_regionSplit, List.append_nil, hlast, hret]
      cases hids : s.regionsIds with
      | nil =>
          -- the chosen region is sent the empty half
          simp only [placeHalf_full settings k _ _ _ (List.cons_ne_nil x lower) hids]
          rw [send_redistributes_iff]
          simp [Forwardable, hids]
      | cons id ids =>
          simp only [placeHalf_new settings k _ _ _ (List.cons_ne_nil x lower) hids]
          rw [create_redistributes_iff]
          simp [Forwardable, hids]
  | x :: lower, y :: higher =>
      have hlower := List.cons_ne_nil x lower
      have hhigher := List.cons_ne_nil y higher
      match hids : s.regionsIds with
      | [] =>
          rw [regionSplit_full_iff round sampled settings k sender i hlower hhigher hids]
          simp [Forwardable, hids]
      | [id] =>
          rw [regionSplit_last_iff round sampled settings k sender i hlower hhigher hids]
          simp [Forwardable, hids]
      | id :: id' :: ids =>
          exact iff_of_true
            (regionSplit_new round sampled settings k sender i hlower hhigher hids)
            (by simp [Forwardable, hids])

/-- However the machine rounds and whatever its generator can give, the leader
redistributes what it receives exactly when it is forwardable. -/
theorem redistributes_iff_forwardable (s : SimulationActor K n m) :
    (∀ solutions,
      Redistributes round sampled (handling settings k sender s (.solutionResult solutions))
        solutions ↔ Forwardable round sampled settings s (.solutionResult solutions)) ∧
      ∀ i lower higher,
        Redistributes round sampled (handling settings k sender s (.regionSplit i lower higher))
          (lower ++ higher) ↔ Forwardable round sampled settings s (.regionSplit i lower higher) :=
  ⟨solutionResult_iff round sampled settings k sender,
    regionSplit_iff round sampled settings k sender⟩

end Receive

section Example

def exampleSettings : SimulationSettings :=
  { region := ⟨1, 10⟩, problem := ⟨1, 1, .benchmark⟩, benchmark := true, executionTime := 0
    hasCooperation := true }

def exampleLeader : SimulationActor ℚ 1 0 :=
  { (SimulationActor.new exampleSettings : SimulationActor ℚ 1 0) with
    amILeader := true
    regions := fun id => some (.actor (.region id))
    regionsIds := []
    regionUsedIds := [⟨0, Nat.zero_lt_one⟩] }

def exampleSolution (x : ℚ) : Solution ℚ :=
  { id := 0, agent := none, solutionsVector := [some x], functionValue := some x
    viable := true, changed := false }

/-- Without a free id the lower half of a split is lost and the higher one sent twice. -/
theorem split_without_free_id :
    exampleLeader.regions 0 ≠ none ∧
      ¬Redistributes .fin Set.univ (handling exampleSettings 0 (.actor (.region 0)) exampleLeader
        (.regionSplit 0 [exampleSolution 1] [exampleSolution 3]))
        [exampleSolution 1, exampleSolution 3] := by
  refine ⟨by simp [exampleLeader], fun h => ?_⟩
  have hforwardable := (regionSplit_iff .fin Set.univ exampleSettings 0 (.actor (.region 0)) 0
    [exampleSolution 1] [exampleSolution 3]).1 h
  have hperm : [exampleSolution 1].Perm [exampleSolution 3] := hforwardable.1
  simp [exampleSolution] at hperm

end Example

end DOptimas.Proofs.Redistribution
