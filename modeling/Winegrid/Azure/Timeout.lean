import Winegrid.Azure.Assignment
import Mathlib.Algebra.Ring.Nat

/-!
# The timeout of the registration

The waiting loop of `run_dps_registration` counts 200 ms an iteration, but an
iteration that finds a poll pending also waits for the two seconds before the
poll.  `timed` puts beside the device when the responses of a call come, in
iterations of its loop.

* `left_next`: every statement of the loop brings its end nearer.
* `waits_reach`: the delays of a call add up to what its responses ask for, in
  every phase.
* `dps_wait_iff`: which responses keep the timeout.
-/

namespace Winegrid.Azure

open Esp

variable {P : Platform} {registrationId : Bytes}

/-! ## One call -/

/-- What was done since `run_dps_registration` was last called. -/
def lastCall (acts : List Act) : List Act :=
  acts.foldl (fun call a => if a = .dpsStart then [] else call ++ [a]) []

theorem lastCall_append {acts es : List Act} (h : .dpsStart ∉ es) :
    lastCall (acts ++ es) = lastCall acts ++ es := by
  induction es using List.reverseRecOn with
  | nil => simp
  | append_singleton es e ih =>
    have hes : .dpsStart ∉ es := fun hmem => h (List.mem_append_left _ hmem)
    have he : e ≠ .dpsStart := fun heq => h (by simp [heq])
    rw [← List.append_assoc, lastCall, List.foldl_append, ← lastCall, ih hes]
    simp [he]

theorem lastCall_start (acts : List Act) : lastCall (acts ++ [.dpsStart]) = [] := by
  simp [lastCall]

/-- What `vTaskDelay` waits for. -/
def Act.ms : Act → Nat
  | .delay ms => ms
  | _ => 0

/-- A response that sets `s_dps_poll_pending`. -/
def asksToPoll (P : Platform) (topic payload : Bytes) : Bool :=
  (P.parse payload).any fun root =>
    !isAssigned root && decide ((statusCode topic).takeWhile (· ≠ 0) = ascii "202")

/-- A response that sets `s_dps_done`. -/
def endsCall (P : Platform) (topic payload : Bytes) : Bool :=
  (P.parse payload).any fun root =>
    isAssigned root || decide ((statusCode topic).takeWhile (· ≠ 0) ≠ ascii "202")

namespace Registration

/-- The sum of all delays of the call. -/
def delayed (s : Registration) : Nat := ((lastCall s.acts).map Act.ms).sum

theorem delayed_go {s : Registration} {acts : List Act} (phase : MainPc) (h : .dpsStart ∉ acts) :
    (s.go phase acts).delayed = s.delayed + (acts.map Act.ms).sum := by
  rw [delayed, go, lastCall_append h, List.map_append, List.sum_append, delayed]

end Registration

/-- A message sets the flag exactly when it asks for a poll. -/
theorem Dps.data_pollPending (P : Platform) (s : Dps) (topic payload : Bytes) :
    (s.data P topic payload).pollPending = (s.pollPending || asksToPoll P topic payload) := by
  have hop : ∀ root, (s.setOperationId root).pollPending = s.pollPending := by
    intro root
    unfold setOperationId
    split <;> rfl
  have hset : ∀ root, ((s.setOperationId root).setAssignment root).pollPending = s.pollPending := by
    intro root
    unfold setAssignment
    split
    · exact hop root
    · exact hop root
  unfold data asksToPoll
  rcases P.parse payload with _ | root
  · simp
  · by_cases hassigned : isAssigned root = true
    · simp [hassigned, hset]
    · rw [Bool.not_eq_true] at hassigned
      by_cases hstatus : (statusCode topic).takeWhile (· ≠ 0) = ascii "202"
      · simp only [hassigned, if_pos hstatus, Option.any_some, decide_eq_true hstatus,
          Bool.false_eq_true, if_false, Bool.not_false, Bool.and_self, Bool.or_true]
      · simp only [hassigned, if_neg hstatus, Option.any_some, decide_eq_false hstatus,
          Bool.false_eq_true, if_false, Bool.and_false, Bool.or_false, hop]

theorem Dps.data_done (P : Platform) (s : Dps) (topic payload : Bytes) :
    (s.data P topic payload).done = (s.done || endsCall P topic payload) := by
  have hop : ∀ root, (s.setOperationId root).done = s.done := by
    intro root
    unfold setOperationId
    split <;> rfl
  unfold data endsCall
  rcases P.parse payload with _ | root
  · simp
  · by_cases hassigned : isAssigned root = true
    · simp [hassigned]
    · rw [Bool.not_eq_true] at hassigned
      by_cases hstatus : (statusCode topic).takeWhile (· ≠ 0) = ascii "202"
      · simp only [hassigned, if_pos hstatus, Option.any_some,
          decide_eq_false (not_not.mpr hstatus), Bool.false_eq_true, if_false, Bool.or_false, hop]
      · simp only [hassigned, if_neg hstatus, Option.any_some, decide_eq_true hstatus,
          Bool.false_eq_true, if_false, Bool.or_true]

/-! ## When the responses come -/

/-- The statements of the waiting loop. -/
def MainPc.loops : MainPc → Bool
  | test _ | check _ | pollDelay _ | poll _ | sleep _ => true
  | _ => false

/-- The iteration whose `if (s_dps_poll_pending)` comes next. -/
def MainPc.nextCheck : MainPc → Nat
  | test w | check w => w / 200
  | pollDelay w | poll w | sleep w => w / 200 + 1
  | _ => 300

/-- The iteration whose loop condition comes next. -/
def MainPc.nextTest : MainPc → Nat
  | test w => w / 200
  | check w | pollDelay w | poll w | sleep w => w / 200 + 1
  | _ => 300

/-- When the responses of a call come, in iterations of its loop: those that
ask for a poll, and the first that ends the call. -/
structure Arrivals where
  polls : List Nat
  final : Option Nat
  deriving DecidableEq

namespace Arrivals

/-- No response came yet. -/
def empty : Arrivals := ⟨[], none⟩

/-- A response comes in a phase of the call. -/
def response (P : Platform) (a : Arrivals) (phase : MainPc) (topic payload : Bytes) : Arrivals where
  polls := if asksToPoll P topic payload then a.polls ++ [phase.nextCheck] else a.polls
  final := a.final.or (if endsCall P topic payload then some phase.nextTest else none)

/-- How many of the first `n` iterations a poll is asked for. -/
def polledBefore (a : Arrivals) (n : Nat) : Nat :=
  (List.range n).countP fun i => decide (i ∈ a.polls)

/-- The iterations until the final response, or until the timeout. -/
def iterations (a : Arrivals) : Nat := min 300 (a.final.getD 300)

/-- How many of these iterations a poll is asked for. -/
def polled (a : Arrivals) : Nat := a.polledBefore a.iterations

/-- One iteration at most is asked for a poll, or the final response is there
in time: the more iterations are, the earlier. -/
def Timely (a : Arrivals) : Prop :=
  a.polled ≤ 1 ∨ ∃ k, a.final = some k ∧ k + 10 * a.polled ≤ 311

end Arrivals

/-- The arrivals after a step.  They start anew with each call. -/
def hear (P : Platform) (a : Arrivals) (s : Registration) : Registration.Label → Arrivals
  | .main _ => if s.phase = .load then .empty else a
  | .event (.data topic payload) => a.response P s.phase topic payload
  | _ => a

/-- The device beside the arrivals of its last call. -/
def timed (P : Platform) (registrationId : Bytes) :
    Machine (Registration × Arrivals) Registration.Label :=
  (registration P registrationId).observed .empty (hear P)

namespace Arrivals

variable {a : Arrivals} {n : Nat}

theorem polledBefore_succ (a : Arrivals) (n : Nat) :
    a.polledBefore (n + 1) = a.polledBefore n + if n ∈ a.polls then 1 else 0 := by
  rw [polledBefore, List.range_succ, List.countP_append, List.countP_singleton, polledBefore]
  simp only [decide_eq_true_eq]

theorem polledBefore_mono (a : Arrivals) {m : Nat} (h : m ≤ n) :
    a.polledBefore m ≤ a.polledBefore n := by
  induction n with
  | zero => rw [Nat.le_zero.mp h]
  | succ n ih =>
    rw [polledBefore_succ]
    rcases Nat.le_succ_iff.mp h with h | rfl
    · exact (ih h).trans (Nat.le_add_right _ _)
    · rw [polledBefore_succ]

theorem iterations_le (a : Arrivals) : a.iterations ≤ 300 := Nat.min_le_left _ _

/-- A response asks no poll of an iteration that is past its check. -/
theorem polledBefore_response {phase : MainPc} (topic payload : Bytes) (h : n ≤ phase.nextCheck) :
    (a.response P phase topic payload).polledBefore n = a.polledBefore n := by
  refine List.countP_congr fun i hi => ?_
  have hlt := List.mem_range.mp hi
  rw [decide_eq_true_iff, decide_eq_true_iff]
  show i ∈ (if asksToPoll P topic payload then a.polls ++ [phase.nextCheck] else a.polls) ↔ _
  split_ifs
  · simp only [List.mem_append, List.mem_singleton, or_iff_left_iff_imp]
    omega
  · exact Iff.rfl

/-- The delays that the responses of a call ask for are within the timeout and
one iteration exactly when they are timely. -/
theorem timely_iff (a : Arrivals) :
    200 * a.iterations + 2000 * a.polled ≤ 62200 ↔ a.Timely := by
  have hle := a.iterations_le
  unfold Timely
  constructor
  · intro h
    by_cases hone : a.polled ≤ 1
    · exact Or.inl hone
    · refine Or.inr ?_
      cases hfinal : a.final with
      | none =>
        rw [iterations, hfinal] at h
        simp only [Option.getD_none] at h
        omega
      | some k =>
        rw [iterations, hfinal] at h
        simp only [Option.getD_some] at h
        exact ⟨k, rfl, by omega⟩
  · rintro (hone | ⟨k, hfinal, hk⟩)
    · omega
    · have hiterations : a.iterations ≤ k := by
        rw [iterations, hfinal]
        exact Nat.min_le_right _ _
      omega

end Arrivals

/-! ## The loop -/

/-- What the delays of the call add up to, by phase. -/
def LoopTime (a : Arrivals) (delayed : Nat) : MainPc → Prop
  | .test w => ∃ n ≤ 300, w = 200 * n ∧ delayed = 200 * n + 2000 * a.polledBefore n
  | .check w => ∃ n < 300, w = 200 * n ∧ delayed = 200 * n + 2000 * a.polledBefore n
  | .pollDelay w =>
    ∃ n < 300, w = 200 * n ∧ delayed + 2000 = 200 * n + 2000 * a.polledBefore (n + 1)
  | .poll w | .sleep w =>
    ∃ n < 300, w = 200 * n ∧ delayed = 200 * n + 2000 * a.polledBefore (n + 1)
  | .stop => delayed = 200 * a.iterations + 2000 * a.polled
  | _ => True

/-- The two flags tell what came, before the check of one iteration and the
test of another. -/
structure Tells (a : Arrivals) (dps : Dps) (check test : Nat) : Prop where
  pending : dps.pollPending = decide (check ∈ a.polls)
  early : ∀ i ∈ a.polls, i ≤ check
  done : dps.done = a.final.isSome
  final : ∀ k, a.final = some k → k = test

/-- The delays add up, and the flags tell what came. -/
structure Waits (s : Registration × Arrivals) : Prop where
  time : LoopTime s.2 s.1.delayed s.1.phase
  tells : s.1.phase.loops = true → Tells s.2 s.1.dps s.1.phase.nextCheck s.1.phase.nextTest
  fresh : s.1.phase = .load → s.1.dps.pollPending = false ∧ s.1.dps.done = false

variable {s t : Registration × Arrivals}

/-- Where the loop is, and what its delays add up to there. -/
theorem LoopTime.cases {a : Arrivals} {delayed : Nat} {phase : MainPc}
    (h : LoopTime a delayed phase) (hloops : phase.loops = true) :
    ∃ n ≤ 300,
      (phase = .test (200 * n) ∧ delayed = 200 * n + 2000 * a.polledBefore n) ∨
      n < 300 ∧
        ((phase = .check (200 * n) ∧ delayed = 200 * n + 2000 * a.polledBefore n) ∨
          (phase = .pollDelay (200 * n) ∧
            delayed + 2000 = 200 * n + 2000 * a.polledBefore (n + 1)) ∨
          ((phase = .poll (200 * n) ∨ phase = .sleep (200 * n)) ∧
            delayed = 200 * n + 2000 * a.polledBefore (n + 1))) := by
  cases phase with
  | test w =>
    obtain ⟨n, hn, rfl, hdelayed⟩ := h
    exact ⟨n, hn, Or.inl ⟨rfl, hdelayed⟩⟩
  | check w =>
    obtain ⟨n, hn, rfl, hdelayed⟩ := h
    exact ⟨n, hn.le, Or.inr ⟨hn, Or.inl ⟨rfl, hdelayed⟩⟩⟩
  | pollDelay w =>
    obtain ⟨n, hn, rfl, hdelayed⟩ := h
    exact ⟨n, hn.le, Or.inr ⟨hn, Or.inr (Or.inl ⟨rfl, hdelayed⟩)⟩⟩
  | poll w =>
    obtain ⟨n, hn, rfl, hdelayed⟩ := h
    exact ⟨n, hn.le, Or.inr ⟨hn, Or.inr (Or.inr ⟨Or.inl rfl, hdelayed⟩)⟩⟩
  | sleep w =>
    obtain ⟨n, hn, rfl, hdelayed⟩ := h
    exact ⟨n, hn.le, Or.inr ⟨hn, Or.inr (Or.inr ⟨Or.inr rfl, hdelayed⟩)⟩⟩
  | off | load | copy | saveHub | saveDeviceId | connect | connected | returned | stop =>
    cases hloops

/-- The time bounds of a phase count polls of iterations that are past their
check. -/
theorem LoopTime.response {a : Arrivals} {delayed : Nat} {phase : MainPc}
    (h : LoopTime a delayed phase) (topic payload : Bytes) :
    LoopTime (a.response P phase topic payload) delayed phase := by
  cases phase with
  | test w | check w =>
    obtain ⟨n, hn, rfl, hdelayed⟩ := h
    refine ⟨n, hn, rfl, ?_⟩
    rw [Arrivals.polledBefore_response]
    · exact hdelayed
    · simp [MainPc.nextCheck]
  | pollDelay w | poll w | sleep w =>
    obtain ⟨n, hn, rfl, hdelayed⟩ := h
    refine ⟨n, hn, rfl, ?_⟩
    rw [Arrivals.polledBefore_response]
    · exact hdelayed
    · simp [MainPc.nextCheck]
  | stop =>
    have hiterations : (a.response P .stop topic payload).iterations = a.iterations := by
      unfold Arrivals.iterations Arrivals.response
      cases a.final with
      | none => split_ifs <;> rfl
      | some k => rfl
    show delayed = 200 * _ + 2000 * _
    rw [Arrivals.polled, hiterations, Arrivals.polledBefore_response _ _ a.iterations_le]
    exact h
  | off | load | copy | saveHub | saveDeviceId | connect | connected | returned => trivial

/-- A message keeps the flags in step with the arrivals. -/
theorem Tells.response {a : Arrivals} {dps : Dps} {phase : MainPc}
    (h : Tells a dps phase.nextCheck phase.nextTest) (topic payload : Bytes) :
    Tells (a.response P phase topic payload) (dps.data P topic payload) phase.nextCheck
      phase.nextTest where
  pending := by
    show (dps.data P topic payload).pollPending = decide (phase.nextCheck ∈
      (if asksToPoll P topic payload then a.polls ++ [phase.nextCheck] else a.polls))
    rw [Dps.data_pollPending, h.pending]
    split_ifs with hasks
    · simp [hasks]
    · simp [hasks]
  early i hi := by
    have hi : i ∈ (if asksToPoll P topic payload then a.polls ++ [phase.nextCheck]
      else a.polls) := hi
    split_ifs at hi
    · rcases List.mem_append.mp hi with hi | hi
      · exact h.early i hi
      · exact (List.mem_singleton.mp hi).le
    · exact h.early i hi
  done := by
    show (dps.data P topic payload).done =
      (a.final.or (if endsCall P topic payload then some phase.nextTest else none)).isSome
    rw [Dps.data_done, h.done, Option.isSome_or]
    split_ifs with hends
    · simp [hends]
    · simp [hends]
  final k hk := by
    have hk : a.final.or (if endsCall P topic payload then some phase.nextTest else none) =
      some k := hk
    rcases Option.or_eq_some_iff.mp hk with hk | ⟨-, hk⟩
    · exact h.final k hk
    · split_ifs at hk
      exact (Option.some.inj hk).symm

/-- A phase outside the loop. -/
theorem Waits.outside {s : Registration} {a : Arrivals} (hloops : s.phase.loops = false)
    (htime : LoopTime a s.delayed s.phase) (hload : s.phase ≠ .load) : Waits (s, a) where
  time := htime
  tells h := absurd h (by simp [hloops])
  fresh h := absurd h hload

/-- The next statement of the loop, after delays or without. -/
theorem Waits.of_go {s : Registration} {a : Arrivals} {phase : MainPc} {acts : List Act}
    (hfree : .dpsStart ∉ acts) (hload : phase ≠ .load)
    (htime : LoopTime a (s.delayed + (acts.map Act.ms).sum) phase)
    (htells : phase.loops = true → Tells a s.dps phase.nextCheck phase.nextTest) :
    Waits (s.go phase acts, a) where
  time := by
    rw [Registration.delayed_go _ hfree]
    exact htime
  tells := htells
  fresh hl := absurd hl hload

/-- The handler runs during the call. -/
theorem waits_event (h : Waits s) (hlistens : s.1.phase.listens = true) (e : DpsEvent) :
    Waits ({ s.1 with dps := (s.1.dps.mqttEventHandler P registrationId e).1 }.go s.1.phase
      (s.1.dps.mqttEventHandler P registrationId e).2, hear P s.2 s.1 (.event e)) := by
  have hload : s.1.phase ≠ .load := by
    intro hload
    rw [hload] at hlistens
    cases hlistens
  have hfree : .dpsStart ∉ (s.1.dps.mqttEventHandler P registrationId e).2 := by
    cases e <;> simp [Dps.mqttEventHandler]
  cases e with
  | connected | other =>
    refine .of_go hfree hload h.time fun hloops => ?_
    have htells := h.tells hloops
    exact ⟨htells.pending, htells.early, htells.done, htells.final⟩
  | data topic payload =>
    exact .of_go hfree hload (h.time.response topic payload)
      fun hloops => (h.tells hloops).response topic payload

/-- A statement of the loop. -/
theorem waits_loop {b : Bool} {r : Registration} (h : Waits s) (hloops : s.1.phase.loops = true)
    (hnext : s.1.appMain b = some r) : Waits (r, s.2) := by
  obtain ⟨s, a⟩ := s
  have htells := h.tells hloops
  obtain ⟨n, hle, ⟨hpc, htime⟩ | ⟨hn, ⟨hpc, htime⟩ | ⟨hpc, htime⟩ | ⟨hpc | hpc, htime⟩⟩⟩ :=
    h.time.cases hloops
  all_goals
    simp only at hpc htime
    have hw : 200 * n / 200 = n := Nat.mul_div_cancel_left n (by decide)
    simp only [hpc, MainPc.nextCheck, MainPc.nextTest, hw] at htells
    simp only [Registration.appMain, hpc, Option.some.injEq] at hnext
    subst hnext
  -- The loop condition, the poll flag, the two seconds, the poll, the 200 ms.
  · split_ifs with hgo
    · rw [Bool.and_eq_true, decide_eq_true_eq, dpsTimeoutMs, Bool.not_eq_true'] at hgo
      refine .of_go (by simp) (by simp) ⟨n, by omega, rfl, htime⟩ fun _ => ?_
      rw [MainPc.nextCheck, hw]
      refine ⟨htells.pending, htells.early, htells.done, fun k hk => ?_⟩
      -- The test found no final response.
      have hnone := htells.done.symm.trans hgo.1
      rw [hk] at hnone
      cases hnone
    · refine .of_go (by simp) (by simp) ?_ fun hl => (by cases hl)
      have hiterations : a.iterations = n := by
        rw [Arrivals.iterations]
        cases hf : a.final with
        | some k =>
          rw [htells.final k hf, Option.getD_some]
          omega
        | none =>
          have hrunning : s.dps.done = false := htells.done.trans (by rw [hf]; rfl)
          rw [hrunning, Bool.not_false, Bool.true_and, decide_eq_true_eq, dpsTimeoutMs] at hgo
          rw [Option.getD_none]
          omega
      show s.delayed + 0 = 200 * a.iterations + 2000 * a.polled
      rw [Arrivals.polled, hiterations]
      exact htime
  · have hlater : n + 1 ∉ a.polls := fun hmem => absurd (htells.early _ hmem) (by omega)
    have hearly : ∀ i ∈ a.polls, i ≤ n + 1 := fun i hi => Nat.le_succ_of_le (htells.early i hi)
    have hpolled := a.polledBefore_succ n
    rw [htells.pending]
    by_cases hasked : n ∈ a.polls
    · rw [if_pos hasked] at hpolled
      rw [decide_eq_true hasked, if_pos rfl]
      refine .of_go (by simp) (by simp) ⟨n, hn, rfl, ?_⟩ fun _ => ?_
      · show s.delayed + 0 + 2000 = _
        rw [hpolled]
        omega
      · rw [MainPc.nextCheck, MainPc.nextTest, hw]
        exact ⟨(decide_eq_false hlater).symm, hearly, htells.done, htells.final⟩
    · rw [if_neg hasked] at hpolled
      rw [decide_eq_false hasked, if_neg Bool.false_ne_true]
      refine .of_go (by simp) (by simp) ⟨n, hn, rfl, ?_⟩ fun _ => ?_
      · rw [hpolled]
        exact htime
      · rw [MainPc.nextCheck, MainPc.nextTest, hw]
        refine ⟨?_, hearly, htells.done, htells.final⟩
        rw [htells.pending, decide_eq_false hasked, decide_eq_false hlater]
  · refine .of_go (by simp) (by simp) ⟨n, hn, rfl, htime⟩ fun _ => ?_
    rw [MainPc.nextCheck, MainPc.nextTest, hw]
    exact htells
  · refine .of_go (by simp) (by simp) ⟨n, hn, rfl, htime⟩ fun _ => ?_
    rw [MainPc.nextCheck, MainPc.nextTest, hw]
    exact ⟨htells.pending, htells.early, htells.done, htells.final⟩
  · refine .of_go (by simp) (by simp) ⟨n + 1, by omega, by omega, ?_⟩ fun _ => ?_
    · show s.delayed + 200 = 200 * (n + 1) + 2000 * a.polledBefore (n + 1)
      omega
    · rw [MainPc.nextCheck, MainPc.nextTest, show (200 * n + 200) / 200 = n + 1 by omega]
      exact htells

/-- A statement of `app_main` around the loop. -/
theorem waits_around {b : Bool} {r : Registration} (h : Waits s)
    (hloops : s.1.phase.loops = false) (hnext : s.1.appMain b = some r) :
    Waits (r, hear P s.2 s.1 (.main b)) := by
  obtain ⟨s, a⟩ := s
  cases hpc : s.phase <;> simp only [hpc, MainPc.loops, Bool.true_eq_false] at hloops
  case off | connected | returned => simp [Registration.appMain, hpc] at hnext
  case load =>
    have hfresh := h.fresh hpc
    simp only [Registration.appMain, hpc] at hnext
    simp only [hear, hpc, if_true]
    split at hnext
    · cases hnext
      exact .outside rfl trivial (by simp [Registration.go])
    · cases hnext
      cases b
      · exact .outside rfl trivial (by simp [Registration.go])
      · have hdelayed : (s.go (.test 0) [.dpsStart]).delayed = 0 := by
          rw [Registration.delayed, Registration.go, lastCall_start]
          rfl
        refine ⟨?_, fun _ => ⟨hfresh.1, fun i hi => ?_, hfresh.2, fun k hk => ?_⟩, fun hl => ?_⟩
        · simp only [if_true, hdelayed]
          exact ⟨0, by decide, rfl, rfl⟩
        · cases hi
        · cases hk
        · cases hl
  case copy =>
    simp only [Registration.appMain, hpc, Option.some.injEq] at hnext
    subst hnext
    split_ifs <;> exact .outside rfl trivial (by simp [Registration.go])
  all_goals
    simp only [Registration.appMain, hpc, Option.some.injEq] at hnext
    subst hnext
    exact .outside rfl trivial (by simp [Registration.go])

/-- Every step keeps the sums. -/
theorem waits_next {l : Registration.Label} (h : Waits s)
    (hnext : (timed P registrationId).next s l = some t) : Waits t := by
  obtain ⟨hstep, hheard⟩ := Machine.observed_next.mp hnext
  obtain ⟨t, a⟩ := t
  simp only at hstep hheard
  subst hheard
  cases l with
  | boot =>
    simp only [registration, Registration.next] at hstep
    split_ifs at hstep
    cases hstep
    exact ⟨trivial, fun hloops => absurd hloops Bool.false_ne_true, fun _ => ⟨rfl, rfl⟩⟩
  | powerLoss =>
    simp only [registration, Registration.next] at hstep
    split_ifs at hstep
    cases hstep
    exact .outside rfl trivial (by simp [Registration.go])
  | event e =>
    simp only [registration, Registration.next] at hstep
    split_ifs at hstep with hlistens
    cases hstep
    exact waits_event h hlistens e
  | main b =>
    by_cases hloops : s.1.phase.loops = true
    · have hkept : hear P s.2 s.1 (.main b) = s.2 := by
        unfold hear
        rw [if_neg]
        intro hload
        rw [hload] at hloops
        cases hloops
      rw [hkept]
      exact waits_loop h hloops hstep
    · exact waits_around h (Bool.not_eq_true _ ▸ hloops) hstep

/-- The delays of a call add up in every phase of every run. -/
theorem waits_reach (h : (timed P registrationId).Reachable s) : Waits s := by
  refine h.invariant (I := Waits) ?_ fun _ _ _ _ hs _ hnext => waits_next hs hnext
  intro s ⟨⟨_, _, hphase, _⟩, _⟩
  have hloops : s.1.phase.loops = false := by rw [hphase]; rfl
  exact .outside hloops (by rw [hphase]; trivial) (by simp [hphase])

/-! ## The end of the loop -/

/-- How many statements of the loop are left at most. -/
def MainPc.left : MainPc → Nat
  | test w => 5 * (300 - w / 200) + 1
  | check w => 5 * (300 - w / 200)
  | pollDelay w => 5 * (300 - w / 200) - 1
  | poll w => 5 * (300 - w / 200) - 2
  | sleep w => 5 * (300 - w / 200) - 3
  | _ => 0

/-- The loop never waits for an event: its next statement runs, takes no delay
back, and leaves less to run. -/
theorem loop_statement (h : Waits s) (hloops : s.1.phase.loops = true) :
    ∃ r, (∀ b, s.1.appMain b = some r) ∧ s.1.delayed ≤ r.delayed ∧
      r.phase.left < s.1.phase.left := by
  obtain ⟨s, a⟩ := s
  have hgo : ∀ (s : Registration) (phase : MainPc) (acts : List Act), .dpsStart ∉ acts →
      s.delayed ≤ (s.go phase acts).delayed := by
    intro s phase acts hfree
    rw [Registration.delayed_go _ hfree]
    exact Nat.le_add_right _ _
  obtain ⟨n, hle, ⟨hpc, htime⟩ | ⟨hn, ⟨hpc, htime⟩ | ⟨hpc, htime⟩ | ⟨hpc | hpc, htime⟩⟩⟩ :=
    h.time.cases hloops
  all_goals
    simp only at hpc
    have hw : 200 * n / 200 = n := Nat.mul_div_cancel_left n (by decide)
    refine ⟨_, fun b => by simp only [Registration.appMain, hpc]; rfl, ?_, ?_⟩
  -- Each statement in the order of the loop: its delays, then what is left.
  · exact hgo _ _ _ (by simp)
  · show MainPc.left (if _ then _ else _) < _
    rw [hpc]
    split_ifs <;> simp only [MainPc.left, hw] <;> omega
  · split_ifs
    · exact hgo s (.pollDelay (200 * n)) [] (by simp)
    · exact hgo _ _ _ (by simp)
  · rw [hpc]
    split_ifs <;> simp only [Registration.go, MainPc.left, hw] <;> omega
  · exact hgo _ _ _ (by simp)
  · simp only [Registration.go, hpc, MainPc.left, hw]
    omega
  · exact hgo s (.sleep (200 * n)) [.publish _ []] (by simp)
  · simp only [Registration.go, hpc, MainPc.left, hw]
    omega
  · exact hgo _ _ _ (by simp)
  · simp only [Registration.go, hpc, MainPc.left, hw]
    omega

/-- A statement of `app_main`. -/
def Registration.Label.isMain : Registration.Label → Bool
  | .main _ => true
  | _ => false

/-- A step while the loop runs. -/
def InLoop (s : Registration × Arrivals) (_ : Registration.Label) : Prop :=
  s.1.phase.loops = true

instance (s : Registration × Arrivals) (l : Registration.Label) : Decidable (InLoop s l) :=
  inferInstanceAs (Decidable (_ = _))

theorem stop_or_loops {phase : MainPc} (h : phase.listens = true) :
    phase = .stop ∨ phase.loops = true := by
  cases phase <;> first | exact Or.inr rfl | exact Or.inl rfl | cases h

theorem listens_of_loops {phase : MainPc} (h : phase.loops = true) : phase.listens = true := by
  cases phase <;> first | rfl | cases h

/-- A step of the loop takes no delay back, and a statement of the loop brings
its end nearer. -/
theorem inLoop_next {l : Registration.Label} (h : Waits s) (hloops : InLoop s l)
    (hnext : (timed P registrationId).next s l = some t) :
    s.1.delayed ≤ t.1.delayed ∧
      t.1.phase.left + (if l.isMain then 1 else 0) ≤ s.1.phase.left := by
  have hlistens := listens_of_loops hloops
  obtain ⟨hstep, -⟩ := Machine.observed_next.mp hnext
  generalize t.1 = t at hstep ⊢
  cases l with
  | boot =>
    simp only [registration, Registration.next] at hstep
    split_ifs at hstep with hoff
    rw [hoff] at hlistens
    cases hlistens
  | powerLoss =>
    simp only [registration, Registration.next] at hstep
    split_ifs at hstep
    cases hstep
    rw [Registration.delayed_go _ (by simp)]
    exact ⟨Nat.le_add_right _ _, Nat.zero_le _⟩
  | event e =>
    simp only [registration, Registration.next, if_pos hlistens] at hstep
    cases hstep
    rw [Registration.delayed_go _ (by cases e <;> simp [Dps.mqttEventHandler])]
    exact ⟨Nat.le_add_right _ _, Nat.le_refl _⟩
  | main b =>
    obtain ⟨r, hmain, hdelayed, hleft⟩ := loop_statement h hloops
    cases (hmain b).symm.trans hstep
    exact ⟨hdelayed, hleft⟩

/-- During the call, no more was waited for than its responses ask for. -/
theorem delayed_le (h : Waits s) (hlistens : s.1.phase.listens = true) :
    s.1.delayed ≤ 200 * s.2.iterations + 2000 * s.2.polled := by
  obtain ⟨s, a⟩ := s
  have hsum : ∀ {n m}, n ≤ a.iterations → m ≤ a.iterations →
      200 * n + 2000 * a.polledBefore m ≤ 200 * a.iterations + 2000 * a.polled := by
    intro n m hn hm
    have hpolled := a.polledBefore_mono hm
    rw [Arrivals.polled]
    omega
  have hlate : ∀ {n test}, n ≤ test → n ≤ 300 → Tells a s.dps s.phase.nextCheck test →
      n ≤ a.iterations := by
    intro n test hn hlast htells
    rw [Arrivals.iterations]
    cases hf : a.final with
    | none => exact Nat.le_min.mpr ⟨hlast, hlast⟩
    | some k =>
      rw [htells.final k hf]
      exact Nat.le_min.mpr ⟨hlast, hn⟩
  rcases stop_or_loops hlistens with hstop | hloops
  · have htime : LoopTime a s.delayed s.phase := h.time
    simp only [show s.phase = .stop from hstop, LoopTime] at htime
    exact htime.le
  have htells := h.tells hloops
  obtain ⟨n, hle, ⟨hpc, htime⟩ | ⟨hn, ⟨hpc, htime⟩ | ⟨hpc, htime⟩ | ⟨hpc | hpc, htime⟩⟩⟩ :=
    h.time.cases hloops
  all_goals
    simp only at hpc htime htells
    simp only [hpc, MainPc.nextTest, Nat.mul_div_cancel_left n (show 0 < 200 by decide)]
      at htells hlate
  · have hn := hlate le_rfl hle htells
    exact htime.le.trans (hsum hn hn)
  · have hn := hlate (Nat.le_succ n) hn.le htells
    exact htime.le.trans (hsum hn hn)
  · have hlater := hlate le_rfl hn htells
    exact (Nat.le_add_right _ 2000).trans (htime.le.trans (hsum (Nat.le_of_succ_le hlater) hlater))
  all_goals
    have hlater := hlate le_rfl hn htells
    exact htime.le.trans (hsum (Nat.le_of_succ_le hlater) hlater)

/-- The next statement of `app_main`, beside the arrivals. -/
theorem timed_main {b : Bool} {r : Registration} (hmain : s.1.appMain b = some r) :
    (timed P registrationId).next s (.main b) = some (r, hear P s.2 s.1 (.main b)) :=
  Machine.observed_next.mpr ⟨hmain, rfl⟩

/-- What one iteration waits for at most. -/
def iterationMs : Nat := 2000 + 200

/-- In every state of a run the delays of the call are within the timeout and
one iteration. -/
def KeepsTimeout (P : Platform) (registrationId : Bytes) (s : Registration × Arrivals)
    (ls : List Registration.Label) (t : Registration × Arrivals) : Prop :=
  (timed P registrationId).Run (fun u _ => u.1.delayed ≤ dpsTimeoutMs + iterationMs) s ls t ∧
    t.1.delayed ≤ dpsTimeoutMs + iterationMs

/-- The delays only grow, and the statements are bounded. -/
theorem inLoop_run {ls : List Registration.Label} (hs : (timed P registrationId).Reachable s)
    (hrun : (timed P registrationId).Run InLoop s ls t) :
    ls.countP Registration.Label.isMain + t.1.phase.left ≤ s.1.phase.left ∧
      (t.1.delayed ≤ dpsTimeoutMs + iterationMs → KeepsTimeout P registrationId s ls t) := by
  induction hrun with
  | nil => exact ⟨by simp, fun h => ⟨.nil _, h⟩⟩
  | @snoc t r ls l hrun hok hnext ih =>
    have hreach : (timed P registrationId).Reachable t :=
      Machine.Run.reach hs (hrun.imp fun _ _ _ _ => trivial)
    obtain ⟨hdelayed, hleft⟩ := inLoop_next (waits_reach hreach) hok hnext
    refine ⟨?_, fun h => ⟨.snoc (ih.2 (hdelayed.trans h)).1 (hdelayed.trans h) hnext, h⟩⟩
    rw [List.countP_append, List.countP_singleton]
    omega

/-- The loop runs at most 1501 statements, and none of them waits for an event.
At its end the delays were within the timeout and one iteration all along if
and only if the responses were timely, and until then they are, as long as the
responses are. -/
theorem dps_wait_iff {ls : List Registration.Label}
    (hs : (timed P registrationId).Reachable s) (hstart : s.1.phase = .test 0)
    (hrun : (timed P registrationId).Run InLoop s ls t) :
    (ls.countP Registration.Label.isMain ≤ 1501 ∧
      (t.1.phase.loops = true → ∀ b, (timed P registrationId).next t (.main b) ≠ none)) ∧
    (t.1.phase.listens = true → t.2.Timely → KeepsTimeout P registrationId s ls t) ∧
    (t.1.phase = .stop → (KeepsTimeout P registrationId s ls t ↔ t.2.Timely)) := by
  have hreach : (timed P registrationId).Reachable t :=
    Machine.Run.reach hs (hrun.imp fun _ _ _ _ => trivial)
  have hwaits := waits_reach hreach
  obtain ⟨hcount, hkeeps⟩ := inLoop_run hs hrun
  have htimely : t.1.phase.listens = true → t.2.Timely →
      KeepsTimeout P registrationId s ls t := by
    intro hlistens htimely
    exact hkeeps ((delayed_le hwaits hlistens).trans (t.2.timely_iff.mpr htimely))
  refine ⟨⟨?_, fun hloops b => ?_⟩, htimely, fun hstop => ⟨fun hkept => ?_, fun h => ?_⟩⟩
  · rw [hstart] at hcount
    exact (Nat.le_add_right _ _).trans hcount
  · obtain ⟨r, hmain, -⟩ := loop_statement hwaits hloops
    rw [timed_main (hmain b)]
    exact Option.some_ne_none _
  · have htime := hwaits.time
    rw [hstop] at htime
    refine t.2.timely_iff.mp ?_
    rw [← htime]
    exact hkept.2
  · exact htimely (by rw [hstop]; rfl) h

/-! ## Runs -/

theorem reachable_main {r : Registration} (hs : (timed P registrationId).Reachable s)
    (hmain : s.1.appMain true = some r) :
    (timed P registrationId).Reachable (r, hear P s.2 s.1 (.main true)) :=
  hs.step trivial (timed_main hmain)

/-- An iteration that finds no poll pending. -/
theorem quiet_iteration {waitedMs : Nat} (hs : (timed P registrationId).Reachable s)
    (hphase : s.1.phase = .test waitedMs) (hdone : s.1.dps.done = false)
    (hpending : s.1.dps.pollPending = false) (hw : waitedMs < dpsTimeoutMs) :
    ∃ t, (timed P registrationId).Reachable t ∧ t.1.phase = .test (waitedMs + 200) ∧
      t.1.dps = s.1.dps ∧ t.2 = s.2 := by
  have htest : s.1.appMain true = some (s.1.go (.check waitedMs) []) := by
    simp only [Registration.appMain, hphase, hdone, Bool.not_false, Bool.true_and,
      decide_eq_true hw, if_true]
  have hcheck : (s.1.go (.check waitedMs) []).appMain true =
      some ((s.1.go (.check waitedMs) []).go (.sleep waitedMs) []) := by
    simp only [Registration.appMain, Registration.go, hpending, Bool.false_eq_true, if_false]
  have hreach := reachable_main (reachable_main (reachable_main hs htest) hcheck) rfl
  refine ⟨_, hreach, rfl, rfl, ?_⟩
  simp only [hear, hphase, Registration.go, reduceCtorEq, if_false]

/-- Iterations without a response. -/
theorem quiet_iterations {waitedMs : Nat} (hs : (timed P registrationId).Reachable s)
    (hphase : s.1.phase = .test waitedMs) (hdone : s.1.dps.done = false)
    (hpending : s.1.dps.pollPending = false) {k : Nat} (hk : waitedMs + 200 * k ≤ dpsTimeoutMs) :
    ∃ t, (timed P registrationId).Reachable t ∧ t.1.phase = .test (waitedMs + 200 * k) ∧
      t.1.dps = s.1.dps ∧ t.2 = s.2 := by
  induction k with
  | zero => exact ⟨s, hs, hphase, rfl, rfl⟩
  | succ k ih =>
    obtain ⟨t, ht, htest, hdps, hheard⟩ := ih (by omega)
    obtain ⟨r, hr, hrtest, hrdps, hrheard⟩ := quiet_iteration ht htest (hdps ▸ hdone)
      (hdps ▸ hpending) (by omega)
    refine ⟨r, hr, ?_, hrdps.trans hdps, hrheard.trans hheard⟩
    rw [hrtest, Nat.mul_succ, Nat.add_assoc]

/-- A response that tells the device to ask again. -/
def assigningPayload : Bytes := ascii "\x7b\"operationId\":\"5.7\",\"status\":\"assigning\"\x7d"

def assigningDoc : CJson :=
  .object [(ascii "operationId", .string (ascii "5.7")),
    (ascii "status", .string (ascii "assigning"))]

/-- A platform whose parser knows it and the assignment. -/
def waitPlatform : Platform :=
  { dpsPlatform with
    parse := fun text =>
      if text = assigningPayload then some assigningDoc else dpsPlatform.parse text }

def assigning : Registration.Label :=
  .event (.data (ascii "$dps/registrations/res/202/?$rid=1&retry-after=3") assigningPayload)

def assigned : Registration.Label :=
  .event (.data (ascii "$dps/registrations/res/200/?$rid=2") assignedPayload)

/-- The device `vine7`, off, and its call up to the loop. -/
def offDevice : Registration × Arrivals := (⟨fun _ => none, .zero, .off, []⟩, .empty)

def called : List Registration.Label := [.boot, .main true]

theorem offDevice_reachable : (timed waitPlatform (ascii "vine7")).Reachable offDevice :=
  .init ⟨⟨rfl, rfl, rfl, rfl⟩, rfl⟩

/-- Two polls in successive iterations, and the assignment after the second. -/
def twoPolls : List Registration.Label :=
  assigning :: List.replicate 5 (.main true) ++ assigning :: List.replicate 5 (.main true) ++
    [assigned, .main true]

/-- Two polls keep the timeout when the assignment comes in time. -/
theorem dps_wait_twoPolls :
    ∃ s t, (timed waitPlatform (ascii "vine7")).exec offDevice called = some s ∧
      t.1.phase = .stop ∧ KeepsTimeout waitPlatform (ascii "vine7") s twoPolls t := by
  obtain ⟨s, hs, hstart, hrest⟩ := Machine.exists_of_any
    (p := fun s : Registration × Arrivals => s.1.phase = .test 0 ∧
      (((timed waitPlatform (ascii "vine7")).guarded InLoop).exec s twoPolls).any (fun t =>
        decide (t.1.phase = .stop ∧ t.2 = ⟨[0, 1], some 2⟩)) = true)
    (o := (timed waitPlatform (ascii "vine7")).exec offDevice called) (by decide +kernel)
  obtain ⟨t, ht, hstop, hheard⟩ := Machine.exists_of_any hrest
  have hrun := Machine.Run.of_guarded (Machine.Run.exec ht)
  have hreach := Machine.Reachable.exec offDevice_reachable hs
  refine ⟨s, t, hs, hstop, ((dps_wait_iff hreach hstart hrun).2.2 hstop).mpr ?_⟩
  rw [hheard]
  exact Or.inr ⟨2, rfl, by decide⟩

/-- Two responses that ask for a poll, and then none until the timeout. -/
theorem dps_wait_exceeded :
    ¬ ∀ (P : Platform) (registrationId : Bytes) (s : Registration × Arrivals),
      (timed P registrationId).Reachable s → s.1.phase = .stop →
      s.1.delayed ≤ dpsTimeoutMs + iterationMs := by
  intro h
  obtain ⟨s, hexec, hphase, hdone, hpending, hheard⟩ := Machine.exists_of_any
    (p := fun s : Registration × Arrivals => s.1.phase = .test 400 ∧
      s.1.dps.done = false ∧ s.1.dps.pollPending = false ∧ s.2 = ⟨[0, 1], none⟩)
    (o := (timed waitPlatform (ascii "vine7")).exec offDevice
      (called ++ assigning :: List.replicate 5 (.main true) ++
        assigning :: List.replicate 5 (.main true))) (by decide +kernel)
  obtain ⟨t, ht, htest, -, htheard⟩ := quiet_iterations (k := 298)
    (Machine.Reachable.exec offDevice_reachable hexec) hphase hdone hpending (by decide)
  have hstop : t.1.appMain true = some (t.1.go .stop []) := by
    simp [Registration.appMain, htest, dpsTimeoutMs]
  have hreach := reachable_main ht hstop
  have hkept : hear waitPlatform t.2 t.1 (.main true) = ⟨[0, 1], none⟩ := by
    simp only [hear, htest, reduceCtorEq, if_false, htheard, hheard]
  rw [hkept] at hreach
  have htime : (t.1.go .stop []).delayed = 200 * _ + 2000 * _ := (waits_reach hreach).time
  have hiterations : (⟨[0, 1], none⟩ : Arrivals).iterations = 300 := rfl
  have hpolled : (⟨[0, 1], none⟩ : Arrivals).polled = 2 := by decide +kernel
  have hle := h _ _ _ hreach rfl
  rw [htime, hiterations, hpolled] at hle
  exact absurd hle (by decide)

end Winegrid.Azure
