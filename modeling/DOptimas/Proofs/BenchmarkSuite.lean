import DOptimas.Actors.BenchmarkActor
import DOptimas.Core.SampleHeuristics
import DOptimas.Support.Runs
/-!
# Driving a suite of problems

The benchmark actor is followed from its start through evaluations and stops,
together with the number of stops it has sent and seen and the number of values
it has answered on its problem.  The end of a simulation fetches the next
problem and starts it; what happens when there is none is the exception.
-/

namespace DOptimas.Proofs.BenchmarkSuite

open DOptimas.Support DOptimas.Core DOptimas.Actors DOptimas.Actors.BenchmarkActor Handler

variable {K : Type} {n m : ℕ}

structure Input (K : Type) (n m : ℕ) where
  sender : ActorRef n m
  message : Message K n m
  extraction : Extraction

/-- The actor with what an observer has counted. -/
structure Tracked where
  actor : BenchmarkActor
  /-- The `SimulationStopped` messages handled. -/
  ended : ℕ
  /-- The `StopSimulation` messages sent. -/
  stops : ℕ
  /-- The values answered since the last problem was started. -/
  values : ℕ

def IsValue : Message K n m → Bool
  | .evaluateResult (some _) => true
  | _ => false

def IsStop : Message K n m → Bool
  | .stopSimulation => true
  | _ => false

def IsEvaluate : Message K n m → Bool
  | .evaluate _ => true
  | _ => false

def IsEnd : Message K n m → Bool
  | .simulationStopped _ => true
  | _ => false

section Runs

variable (f : Problem → List K → Option K) (suite : List Fetch) (B : ℕ)

def handled (s : BenchmarkActor) (i : Input K n m) :
    Process Failure BenchmarkActor (ActorRef n m) (Message K n m) Unit :=
  receive f i.extraction i.sender i.message s

def count (kind : Message K n m → Bool) (out : List (Sending (ActorRef n m) (Message K n m))) :
    ℕ :=
  out.countP fun s => kind s.message

/-- The observer's counts after a message with these answers. -/
def Tracked.after (t : Tracked) (i : Input K n m)
    (out : List (Sending (ActorRef n m) (Message K n m))) (s : BenchmarkActor) : Tracked where
  actor := s
  ended := t.ended + if IsEnd i.message then 1 else 0
  stops := t.stops + count IsStop out
  values := if IsEvaluate i.message then t.values + count IsValue out else 0

def step (t : Tracked) (i : Input K n m) : Option Tracked :=
  match (handled f t.actor i).outcome with
  | .done _ s => some (t.after i (handled f t.actor i).sent s)
  | .failed _ s => some (t.after i (handled f t.actor i).sent (restart suite s))
  | _ => none

def start : Tracked := ⟨new suite B, 0, 0, 0⟩

/-! ## What one message may do -/

/-- The actor runs `p` from its first evaluation on and has announced it. -/
def Starts (t : Tracked) (i : Input K n m) (p : Problem) : Prop :=
  ∃ s, (handled f t.actor i).outcome = .done () s ∧ s.runningSimulation ∧
    s.benchmarkProblem = some p ∧ s.evaluations = 0 ∧
    (handled f t.actor i).sent = [⟨simulationActor, self, .startSimulation (some p)⟩]

def Terminates (t : Tracked) (i : Input K n m) : Prop :=
  ∃ s, (handled f t.actor i).outcome = .done () s ∧ s.runningSimulation = false ∧
    (∃ m ∈ (handled f t.actor i).sent, m.message = .terminate) ∧
    ∀ m ∈ (handled f t.actor i).sent, ∀ p, m.message ≠ .startSimulation p

def Proceeds (t : Tracked) (i : Input K n m) : Option Fetch → Prop
  | some (.problem p) => Starts f t i p
  | _ => Terminates f t i

/-- A value is answered on the current problem within the budget, and the stop is
sent with the last one. -/
def Evaluates (t : Tracked) (i : Input K n m) (x : List K) : Prop :=
  (∀ m ∈ (handled f t.actor i).sent, ∀ y, m.message = .evaluateResult (some y) →
    t.values < B ∧ t.actor.finalized = false ∧
      ∃ p, suite[t.ended]? = some (.problem p) ∧ f p x = some y) ∧
  count IsValue (handled f t.actor i).sent ≤ 1 ∧
  count IsStop (handled f t.actor i).sent =
    if t.values + count IsValue (handled f t.actor i).sent = B then
      count IsValue (handled f t.actor i).sent else 0

def Drives (t : Tracked) (i : Input K n m) : Prop :=
  match i.message with
  | .evaluate x => Evaluates f suite B t i x
  | .startSimulation _ => Proceeds f t i suite[0]?
  | .simulationStopped _ => Proceeds f t i suite[t.ended + 1]?
  | _ => True

end Runs

/-- Every end of the simulation follows a stop. -/
def Ordered (t : Tracked) (i : Input K n m) : Prop :=
  IsEnd i.message → t.ended < t.stops

/-- The extraction returns and the suite has a next problem. -/
def Continues (suite : List Fetch) (t : Tracked) (i : Input K n m) : Prop :=
  IsEnd i.message → i.extraction = .ioException ∧ ∃ p, suite[t.ended + 1]? = some (.problem p)

def Listed (i : Input K n m) : Prop := IsEvaluate i.message ∨ IsEnd i.message

/-! ## The handlers -/

section Handlers

variable {f : Problem → List K → Option K} {s : BenchmarkActor} {sender : ActorRef n m}
  {p : Problem}

theorem handleEvaluate_idle (h : s.runningSimulation = false) (x : List K) :
    handleEvaluate f sender x s = .tell sender self (.evaluateResult none) (.ret () s) := by
  simp [handleEvaluate, h]

theorem handleEvaluate_unanswered (h : s.runningSimulation) (hp : s.benchmarkProblem = some p)
    {x : List K} (hx : f p x = none) : handleEvaluate f sender x s = .ret () s := by
  simp [handleEvaluate, h, hp, hx]

def evaluated (s : BenchmarkActor) : BenchmarkActor := { s with evaluations := s.evaluations + 1 }

theorem handleEvaluate_within (h : s.runningSimulation) (hp : s.benchmarkProblem = some p)
    {x : List K} {y : K} (hx : f p x = some y)
    (hbudget : (s.evaluations : ℤ) + 1 ≠ s.evaluationsBudget) :
    handleEvaluate f sender x s =
      .tell sender self (.evaluateResult (some y)) (.ret () (evaluated s)) := by
  simp [handleEvaluate, h, hp, hx, checkStopCondition, hbudget, evaluated]

theorem handleEvaluate_last (h : s.runningSimulation) (hp : s.benchmarkProblem = some p)
    {x : List K} {y : K} (hx : f p x = some y)
    (hbudget : (s.evaluations : ℤ) + 1 = s.evaluationsBudget) :
    handleEvaluate f sender x s =
      .tell sender self (.evaluateResult (some y))
        (.tell simulationActor self .stopSimulation
          (.ret () { evaluated s with runningSimulation := false })) := by
  simp [handleEvaluate, h, hp, hx, checkStopCondition, hbudget, evaluated]

def launched (s : BenchmarkActor) (p : Problem) : BenchmarkActor :=
  { s with
    suite := s.suite.tail
    benchmarkProblem := some p
    evaluations := 0
    problemCounter := s.problemCounter + 1
    runningSimulation := true }

theorem startBenchmark_problem (h : s.runningSimulation = false)
    (hp : s.suite.head?.getD .null = .problem p) :
    (startBenchmark : BenchmarkReceive K n m) s =
      .tell simulationActor self (.startSimulation (some p)) (.ret () (launched s p)) := by
  simp [startBenchmark, nextProblem, hp, startSimulation, h, launched]

theorem startBenchmark_missing (hs : s.benchmarkProblem = none)
    (hp : ∀ p, s.suite.head?.getD .null ≠ .problem p) :
    ∃ counter, (startBenchmark : BenchmarkReceive K n m) s =
      .tell (.actor .main) self .terminate
        (.ret () { s with
          suite := s.suite.tail
          benchmarkProblem := none
          finalized := true
          problemCounter := counter }) := by
  cases hfetch : s.suite.head?.getD .null with
  | problem p => exact absurd hfetch (hp p)
  | null =>
      refine ⟨s.problemCounter + 1, ?_⟩
      simp [startBenchmark, nextProblem, hfetch, terminate, stopBenchmark]
  | throws =>
      refine ⟨s.problemCounter, ?_⟩
      simp [startBenchmark, nextProblem, hfetch, terminate, stopBenchmark, hs]

theorem handleSimulationEnd_problem {q : Problem} (hs : s.benchmarkProblem = some q)
    (h : s.runningSimulation = false) (hp : s.suite.head?.getD .null = .problem p) :
    (handleSimulationEnd .ioException : BenchmarkReceive K n m) s =
      .tell simulationActor self (.startSimulation (some p)) (.ret () (launched s p)) := by
  simp [handleSimulationEnd, extractData, deref_some hs, nextProblem, hp, startSimulation, h,
    launched]

/-- After the last problem, or a failed fetch, the actor asks for termination and
then starts a simulation all the same. -/
theorem handleSimulationEnd_missing {q : Problem} (hs : s.benchmarkProblem = some q)
    (h : s.runningSimulation = false) (hp : ∀ p, s.suite.head?.getD .null ≠ .problem p) :
    ∃ problem s', (handleSimulationEnd .ioException : BenchmarkReceive K n m) s =
        .tell (.actor .main) self .terminate
          (.tell simulationActor self (.startSimulation problem) (.ret () s')) ∧
      s'.runningSimulation := by
  cases hfetch : s.suite.head?.getD .null with
  | problem p => exact absurd hfetch (hp p)
  | null =>
      refine ⟨none, { s with
        suite := s.suite.tail
        benchmarkProblem := none
        finalized := true
        problemCounter := s.problemCounter + 1
        evaluations := 0
        runningSimulation := true }, ?_, rfl⟩
      simp [handleSimulationEnd, extractData, deref_some hs, nextProblem, hfetch, terminate,
        stopBenchmark, startSimulation, h]
  | throws =>
      refine ⟨some q, { s with
        suite := s.suite.tail
        benchmarkProblem := some q
        finalized := true
        evaluations := 0
        runningSimulation := true }, ?_, rfl⟩
      simp [handleSimulationEnd, extractData, deref_some hs, nextProblem, hfetch, terminate,
        stopBenchmark, startSimulation, h, hs]

theorem handleSimulationEnd_exit {q : Problem} (hs : s.benchmarkProblem = some q) :
    (handleSimulationEnd .exit : BenchmarkReceive K n m) s = .stuck := by
  have hextract : (extractData .exit : BenchmarkReceive K n m) s = .stuck := by
    change Process.bind (deref (Failure.nullPointer .problem) benchmarkProblem s)
      (fun _ _ => .stuck) = .stuck
    rw [deref_some hs, Process.ret_bind]
  simp [handleSimulationEnd, hextract]

theorem handleSimulationEnd_throws {q : Problem} (hs : s.benchmarkProblem = some q) :
    (handleSimulationEnd .throws : BenchmarkReceive K n m) s = .fail .extraction s := by
  simp [handleSimulationEnd, extractData, deref_some hs]

end Handlers

/-! ## The phases of a run -/

/-- What holds between two messages after the first `StartSimulation`. -/
inductive Phase (suite : List Fetch) (B : ℕ) (t : Tracked) : Prop where
  | running (p : Problem) (current : suite[t.ended]? = some (.problem p))
      (problem : t.actor.benchmarkProblem = some p) (running : t.actor.runningSimulation)
      (evaluations : t.actor.evaluations = t.values) (within : t.values < B)
      (stops : t.stops = t.ended) (finalized : t.actor.finalized = false)
      (budget : t.actor.evaluationsBudget = B) (rest : t.actor.suite = suite.drop (t.ended + 1))
  | stopped (p : Problem) (current : suite[t.ended]? = some (.problem p))
      (problem : t.actor.benchmarkProblem = some p) (running : t.actor.runningSimulation = false)
      (stops : t.stops = t.ended + 1) (finalized : t.actor.finalized = false)
      (budget : t.actor.evaluationsBudget = B) (rest : t.actor.suite = suite.drop (t.ended + 1))
  | finished (running : t.actor.runningSimulation = false) (stops : t.stops = t.ended)

section Steps

variable {f : Problem → List K → Option K} {suite : List Fetch} {B : ℕ} {t t' : Tracked}
  {sender : ActorRef n m} {extraction : Extraction}

theorem step_done {i : Input K n m} {s : BenchmarkActor}
    (h : (handled f t.actor i).outcome = .done () s) (hstep : step f suite t i = some t') :
    t' = t.after i (handled f t.actor i).sent s := by
  unfold step at hstep
  rw [h] at hstep
  simpa using hstep.symm

theorem evaluate_phase (h : Phase suite B t) (x : List K) :
    Evaluates f suite B t ⟨sender, .evaluate x, extraction⟩ x ∧
      ∀ t', step f suite t (⟨sender, .evaluate x, extraction⟩ : Input K n m) = some t' →
        Phase suite B t' := by
  have hhandled : handled f t.actor (⟨sender, .evaluate x, extraction⟩ : Input K n m) =
      handleEvaluate f sender x t.actor := rfl
  have hidle : t.actor.runningSimulation = false →
      Evaluates f suite B t (⟨sender, .evaluate x, extraction⟩ : Input K n m) x ∧
        ∀ t', step f suite t (⟨sender, .evaluate x, extraction⟩ : Input K n m) = some t' →
          t' = t := by
    intro hrunning
    rw [handleEvaluate_idle hrunning] at hhandled
    refine ⟨?_, fun t' hstep => ?_⟩
    · simp [Evaluates, hhandled, count, IsValue, IsStop]
    · rw [step_done (by rw [hhandled]; rfl) hstep]
      simp [Tracked.after, hhandled, IsEvaluate, IsEnd, count, IsValue, IsStop]
  cases h with
  | finished hrunning hstops =>
      refine ⟨(hidle hrunning).1, fun t' hstep => ?_⟩
      rw [(hidle hrunning).2 t' hstep]
      exact .finished hrunning hstops
  | stopped p current problem hrunning stops finalized budget rest =>
      refine ⟨(hidle hrunning).1, fun t' hstep => ?_⟩
      rw [(hidle hrunning).2 t' hstep]
      exact .stopped p current problem hrunning stops finalized budget rest
  | running p current problem running evaluations within stops finalized budget rest =>
      cases hx : f p x with
      | none =>
          rw [handleEvaluate_unanswered running problem hx] at hhandled
          refine ⟨by simp [Evaluates, hhandled, count], fun t' hstep => ?_⟩
          rw [step_done (by rw [hhandled]; rfl) hstep]
          simp only [Tracked.after, hhandled]
          exact .running p current problem running evaluations within stops finalized budget rest
      | some y =>
          by_cases hlast : t.values + 1 = B
          · have hbudget : (t.actor.evaluations : ℤ) + 1 = t.actor.evaluationsBudget := by
              rw [evaluations, budget]
              exact_mod_cast hlast
            rw [handleEvaluate_last running problem hx hbudget] at hhandled
            refine ⟨?_, fun t' hstep => ?_⟩
            · simp [Evaluates, hhandled, count, IsValue, IsStop, hlast, within, finalized, current,
                hx]
            · rw [step_done (by rw [hhandled]; rfl) hstep]
              simp only [Tracked.after, hhandled]
              exact .stopped p current problem rfl (by simp [stops, count, IsStop, IsEnd])
                finalized budget rest
          · have hbudget : (t.actor.evaluations : ℤ) + 1 ≠ t.actor.evaluationsBudget := by
              rw [evaluations, budget]
              exact_mod_cast hlast
            rw [handleEvaluate_within running problem hx hbudget] at hhandled
            refine ⟨?_, fun t' hstep => ?_⟩
            · simp [Evaluates, hhandled, count, IsValue, IsStop, hlast, within, finalized, current,
                hx]
            · rw [step_done (by rw [hhandled]; rfl) hstep]
              simp only [Tracked.after, hhandled]
              refine .running p current problem running ?_ ?_ ?_ finalized budget rest
              · simp [evaluated, evaluations, IsEvaluate, count, IsValue]
              · have hone : t.values + 1 < B := by omega
                simpa [IsEvaluate, count, IsValue] using hone
              · simp [stops, count, IsStop, IsEnd]

theorem end_drives_iff (h : Phase suite B t) {nodes : List (ActorRef n m)}
    (hordered : t.ended < t.stops) :
    Continues suite t (⟨sender, .simulationStopped nodes, extraction⟩ : Input K n m) ↔
      Proceeds f t (⟨sender, .simulationStopped nodes, extraction⟩ : Input K n m)
        suite[t.ended + 1]? := by
  cases h with
  | running p current problem running evaluations within stops finalized budget rest => omega
  | finished running stops => omega
  | stopped q current problem running stops finalized budget rest =>
      have hhandled : handled f t.actor (⟨sender, .simulationStopped nodes, extraction⟩ :
          Input K n m) = handleSimulationEnd extraction t.actor := rfl
      have hhead : t.actor.suite.head? = suite[t.ended + 1]? := by rw [rest, List.head?_drop]
      cases extraction with
      | exit =>
          rw [handleSimulationEnd_exit problem] at hhandled
          refine iff_of_false (fun hc => by simpa using (hc rfl).1) fun hp => ?_
          unfold Proceeds at hp
          split at hp <;> (obtain ⟨s, hs, -⟩ := hp; simp [hhandled, Process.outcome] at hs)
      | throws =>
          rw [handleSimulationEnd_throws problem] at hhandled
          refine iff_of_false (fun hc => by simpa using (hc rfl).1) fun hp => ?_
          unfold Proceeds at hp
          split at hp <;> (obtain ⟨s, hs, -⟩ := hp; simp [hhandled] at hs)
      | ioException =>
          by_cases hnext : ∃ p, suite[t.ended + 1]? = some (.problem p)
          · obtain ⟨p, hp⟩ := hnext
            have hfetch : t.actor.suite.head?.getD .null = .problem p := by rw [hhead, hp]; rfl
            rw [handleSimulationEnd_problem problem running hfetch] at hhandled
            refine iff_of_true (fun _ => ⟨rfl, p, hp⟩) ?_
            rw [hp]
            exact ⟨launched t.actor p, by rw [hhandled]; rfl, rfl, rfl, rfl, by rw [hhandled]; rfl⟩
          · have hfetch : ∀ p, t.actor.suite.head?.getD .null ≠ .problem p := by
              intro p hp
              rw [hhead] at hp
              cases hfetch : suite[t.ended + 1]? with
              | none => simp [hfetch] at hp
              | some fetch => exact hnext ⟨p, by simpa [hfetch] using hp⟩
            obtain ⟨problem', s', hend, -⟩ := handleSimulationEnd_missing (K := K) (n := n)
              (m := m) problem running hfetch
            rw [hend] at hhandled
            refine iff_of_false (fun hc => hnext (hc rfl).2) fun hp => ?_
            unfold Proceeds at hp
            split at hp
            next p hsome => exact hnext ⟨p, hsome⟩
            · obtain ⟨s, -, -, -, hno⟩ := hp
              have hsent : ⟨simulationActor, self, .startSimulation problem'⟩ ∈
                  (handled f t.actor (⟨sender, .simulationStopped nodes, .ioException⟩ :
                    Input K n m)).sent := by
                rw [hhandled]
                simp
              exact hno _ hsent problem' rfl

theorem end_phase (h : Phase suite B t) (hB : 0 < B) {nodes : List (ActorRef n m)}
    (hordered : t.ended < t.stops)
    (hcontinues : Continues suite t (⟨sender, .simulationStopped nodes, extraction⟩ : Input K n m))
    (hstep : step f suite t (⟨sender, .simulationStopped nodes, extraction⟩ : Input K n m) =
      some t') : Phase suite B t' := by
  obtain ⟨rfl, p, hp⟩ := hcontinues rfl
  cases h with
  | running p current problem running evaluations within stops finalized budget rest => omega
  | finished running stops => omega
  | stopped q current problem running stops finalized budget rest =>
      have hhandled : handled f t.actor (⟨sender, .simulationStopped nodes, .ioException⟩ :
          Input K n m) = handleSimulationEnd .ioException t.actor := rfl
      have hfetch : t.actor.suite.head?.getD .null = .problem p := by
        rw [rest, List.head?_drop, hp]
        rfl
      rw [handleSimulationEnd_problem problem running hfetch] at hhandled
      rw [step_done (by rw [hhandled]; rfl) hstep]
      simp only [Tracked.after, hhandled]
      refine .running p ?_ rfl rfl rfl ?_ ?_ finalized budget ?_
      · simpa [IsEnd] using hp
      · simpa [IsEvaluate] using hB
      · simp [stops, count, IsStop, IsEnd]
      · simp [launched, rest, IsEnd]

variable (f suite sender extraction) in
theorem start_phase (hB : 0 < B) (problem : Option Problem) :
    Drives f suite B (start suite B) (⟨sender, .startSimulation problem, extraction⟩ :
        Input K n m) ∧
      ∀ t', step f suite (start suite B) (⟨sender, .startSimulation problem, extraction⟩ :
        Input K n m) = some t' → Phase suite B t' := by
  have hhandled : handled f (start suite B).actor (⟨sender, .startSimulation problem,
      extraction⟩ : Input K n m) = startBenchmark (start suite B).actor := rfl
  have hhead : (start suite B).actor.suite.head? = suite[0]? := List.head?_eq_getElem?
  by_cases hfirst : ∃ p, suite[0]? = some (.problem p)
  · obtain ⟨p, hp⟩ := hfirst
    have hfetch : (start suite B).actor.suite.head?.getD .null = .problem p := by
      rw [hhead, hp]
      rfl
    rw [startBenchmark_problem rfl hfetch] at hhandled
    refine ⟨?_, fun t' hstep => ?_⟩
    · change Proceeds f _ _ suite[0]?
      rw [hp]
      exact ⟨launched (start suite B).actor p, by rw [hhandled]; rfl, rfl, rfl, rfl, by
        rw [hhandled]; rfl⟩
    · rw [step_done (by rw [hhandled]; rfl) hstep]
      simp only [Tracked.after, hhandled]
      refine .running p ?_ rfl rfl rfl ?_ ?_ rfl rfl ?_
      · simpa [IsEnd, start] using hp
      · simpa [IsEvaluate] using hB
      · simp [start, count, IsStop, IsEnd]
      · simp [launched, start, BenchmarkActor.new, IsEnd]
  · have hfetch : ∀ p, (start suite B).actor.suite.head?.getD .null ≠ .problem p := by
      intro p hp
      rw [hhead] at hp
      cases hfetch : suite[0]? with
      | none => simp [hfetch] at hp
      | some fetch => exact hfirst ⟨p, by simpa [hfetch] using hp⟩
    obtain ⟨counter, hmissing⟩ := startBenchmark_missing (K := K) (n := n) (m := m)
      (s := (start suite B).actor) rfl hfetch
    rw [hmissing] at hhandled
    refine ⟨?_, fun t' hstep => ?_⟩
    · change Proceeds f _ _ suite[0]?
      unfold Proceeds
      split
      next p hp => exact absurd ⟨p, hp⟩ hfirst
      · refine ⟨_, by rw [hhandled]; rfl, rfl, ⟨_, by rw [hhandled]; exact List.mem_cons_self, rfl⟩,
          ?_⟩
        rw [hhandled]
        simp
    · rw [step_done (by rw [hhandled]; rfl) hstep]
      simp only [Tracked.after, hhandled]
      exact .finished rfl (by simp [start, count, IsStop, IsEnd])

end Steps

/-- In a run that starts with `StartSimulation` and in which every end follows a
stop, the suite is driven as it should be exactly as long as each extraction
returns and the suite has a next problem. -/
theorem drives_suite_iff (f : Problem → List K → Option K) (suite : List Fetch) (B : ℕ)
    (first : Input K n m) (rest : List (Input K n m)) (problem : Option Problem) (hB : 0 < B)
    (hfirst : first.message = .startSimulation problem) (hlisted : ∀ i ∈ rest, Listed i)
    (hordered : Guarded (step f suite) Ordered (start suite B) (first :: rest)) :
    Guarded (step f suite) (Drives f suite B) (start suite B) (first :: rest) ↔
      Guarded (step f suite) (Continues suite) (start suite B) (first :: rest) := by
  obtain ⟨sender, message, extraction⟩ := first
  obtain rfl : message = .startSimulation problem := hfirst
  obtain ⟨hdrives, hphase⟩ := start_phase f suite sender extraction hB problem
  have hcontinues : Continues suite (start suite B)
      (⟨sender, .startSimulation problem, extraction⟩ : Input K n m) :=
    fun h => by simp [IsEnd] at h
  have hiff : ∀ t (i : Input K n m), Phase suite B t → Listed i →
      (Ordered t i ∧ Continues suite t i ↔ Ordered t i ∧ Drives f suite B t i) := by
    rintro t ⟨sender, message, extraction⟩ ht hlisted
    refine and_congr_right fun hordered => ?_
    cases message with
    | evaluate x =>
        exact iff_of_true (fun h => by simp [IsEnd] at h) (evaluate_phase ht x).1
    | simulationStopped nodes => exact end_drives_iff ht (hordered rfl)
    | _ => simp [Listed, IsEvaluate, IsEnd] at hlisted
  have hstep : ∀ t (i : Input K n m) t', Phase suite B t → Listed i →
      Ordered t i ∧ Continues suite t i → step f suite t i = some t' → Phase suite B t' := by
    rintro t ⟨sender, message, extraction⟩ t' ht hlisted ⟨hordered, hcontinues⟩ hstep
    cases message with
    | evaluate x => exact (evaluate_phase ht x).2 t' hstep
    | simulationStopped nodes => exact end_phase ht hB (hordered rfl) hcontinues hstep
    | _ => simp [Listed, IsEvaluate, IsEnd] at hlisted
  have hrest : ∀ t, step f suite (start suite B)
      (⟨sender, .startSimulation problem, extraction⟩ : Input K n m) = some t →
      (Guarded (step f suite) (Drives f suite B) t rest ↔
        Guarded (step f suite) (Continues suite) t rest) := by
    intro t ht
    have hboth := guarded_congr hstep hiff (hphase t ht) hlisted
    rw [guarded_and, guarded_and] at hboth
    have hord := hordered.2 t ht
    exact ⟨fun h => (hboth.2 ⟨hord, h⟩).2, fun h => (hboth.1 ⟨hord, h⟩).2⟩
  constructor
  · rintro ⟨-, hnext⟩
    exact ⟨hcontinues, fun t ht => (hrest t ht).1 (hnext t ht)⟩
  · rintro ⟨-, hnext⟩
    exact ⟨hdrives, fun t ht => (hrest t ht).2 (hnext t ht)⟩

section Example

def exampleSuite : List Fetch := [.problem ⟨1, 1, .benchmark⟩, .problem ⟨2, 1, .benchmark⟩]

def exampleFunction (_ : Problem) (x : List ℚ) : Option ℚ := x.head?

def input (message : Message ℚ 1 1) : Input ℚ 1 1 := ⟨.actor .main, message, .ioException⟩

def exampleRun : List (Input ℚ 1 1) :=
  [input (.evaluate [1]), input (.simulationStopped []), input (.evaluate [2])]

def first : Input ℚ 1 1 := input (.startSimulation none)

def last : Input ℚ 1 1 := input (.simulationStopped [])

instance (t : Tracked) (i : Input ℚ 1 1) : Decidable (Ordered t i) :=
  inferInstanceAs (Decidable (IsEnd i.message → t.ended < t.stops))

theorem exampleRun_ordered : Guarded (step exampleFunction exampleSuite) Ordered
    (start exampleSuite 1) (first :: (exampleRun ++ [last])) := by decide +kernel

def IsStart : Message ℚ 1 1 → Bool
  | .startSimulation _ => true
  | _ => false

/-- The end of the last problem asks for termination and starts a simulation. -/
theorem last_end_starts_again :
    Guarded (step exampleFunction exampleSuite) Ordered (start exampleSuite 1)
        (first :: (exampleRun ++ [last])) ∧
      ¬Guarded (step exampleFunction exampleSuite) (Drives exampleFunction exampleSuite 1)
        (start exampleSuite 1) (first :: (exampleRun ++ [last])) := by
  refine ⟨exampleRun_ordered, fun hguard => ?_⟩
  have hrun : (run (step exampleFunction exampleSuite) (start exampleSuite 1)
      (first :: exampleRun)).map (fun t => (t.ended,
        (handled exampleFunction t.actor last).sent.any fun s => IsStart s.message)) =
      some (1, true) := by decide +kernel
  obtain ⟨t, ht, hlast⟩ := Option.map_eq_some_iff.1 hrun
  obtain ⟨hended, hstart⟩ := Prod.mk.inj hlast
  have hdrives : Proceeds exampleFunction t last exampleSuite[t.ended + 1]? :=
    Guarded.of_run (first :: exampleRun) hguard ht
  rw [hended] at hdrives
  obtain ⟨s, -, -, -, hno⟩ : Terminates exampleFunction t last := hdrives
  obtain ⟨m, hm, hkind⟩ := List.any_eq_true.1 hstart
  have hnot := hno m hm
  cases hmessage : m.message <;> simp_all [IsStart]

theorem drives_suite_iff_example :
    Guarded (step exampleFunction exampleSuite) (Drives exampleFunction exampleSuite 1)
        (start exampleSuite 1) (first :: (exampleRun ++ [last])) ↔
      Guarded (step exampleFunction exampleSuite) (Continues exampleSuite)
        (start exampleSuite 1) (first :: (exampleRun ++ [last])) :=
  drives_suite_iff exampleFunction exampleSuite 1 first (exampleRun ++ [last]) none
    Nat.one_pos rfl (by simp [exampleRun, last, input, Listed, IsEvaluate, IsEnd])
    exampleRun_ordered

end Example

end DOptimas.Proofs.BenchmarkSuite
