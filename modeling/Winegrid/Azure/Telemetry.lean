import Winegrid.Azure.Twin

/-!
# The statements of the telemetry task

`telemetry_task` of `esp-idf-azure-dps/main/app_main.c`, one statement a step,
beside the MQTT events and the updates of the `Client`.  `publishes` and
`loopMs` are ghosts: the calls of `esp_mqtt_client_publish` that the task
made, and the time its loop took since the last of them.

* `turn_statements`: the statements of one turn, in a row, are the turn of the
  `Client`.
* `timer_exact_iff`: `waited_ms` is the time since the last publication
  exactly as long as that time is an `int`.
* `c2d_not_lost`: a C2D message is still to be seen, or it was followed by a
  publication.
-/

namespace Winegrid.Azure

open Esp Client

variable {P : Platform} {c c' : Client}

/-- The statement that the task runs next. -/
inductive TelemetryPc where
  | sample
  | test
  | clear
  | publish
  | delay
  deriving DecidableEq

/-- The static variables, and the local ones of the task. -/
structure TelemetryTask where
  client : Client
  pc : TelemetryPc
  forced : Bool
  publishes : Nat
  loopMs : Nat

namespace TelemetryTask

/-- The next statement of `telemetry_task`. -/
def statement (s : TelemetryTask) : TelemetryTask :=
  match s.pc with
  | .sample => { s with pc := .test, forced := s.client.c2dForceTelemetry }
  | .test =>
    { s with
      pc :=
        if s.client.hubConnected &&
          (s.client.publishIntervalMs ≤ s.client.waitedMs || s.forced) then .clear
        else .delay }
  | .clear =>
    { s with
      pc := .publish
      client := if s.forced then { s.client with c2dForceTelemetry := false } else s.client }
  | .publish =>
    let temperature := 20 + (s.client.fakeTemperature + 1 - 20) % 10
    { s with
      pc := .delay
      client := { s.client with fakeTemperature := temperature, waitedMs := 0 }.emit
        (.publish s.client.hubTelemetryTopic
          (snprintf 64 (ascii "\x7b\"temperature\":" ++ dec temperature.toInt ++ ascii "\x7d")))
      publishes := s.publishes + 1
      loopMs := 0 }
  | .delay =>
    { s with
      pc := .sample
      client := { s.client with waitedMs := s.client.waitedMs + 200 }
      loopMs := s.loopMs + 200 }

inductive Label where
  | statement
  | event (o : Outcomes) (e : Event)
  | update (i : Nat) (o : TaskOutcomes)

def next (P : Platform) (s : TelemetryTask) : Label → Option TelemetryTask
  | .statement => if s.client.halt.isSome then none else some s.statement
  | .event o e => (s.client.next P (.event o e)).map fun c => { s with client := c }
  | .update i o => (s.client.next P (.task i o)).map fun c => { s with client := c }

/-- The task at its start. -/
def start (c : Client) : TelemetryTask := ⟨c, .sample, false, 0, 0⟩

end TelemetryTask

/-- One boot, with the statements of `telemetry_task`. -/
def telemetryTask (P : Platform) : Machine TelemetryTask TelemetryTask.Label where
  init s := ∃ c, (client P).init c ∧ s = .start c
  next := TelemetryTask.next P

variable {s t : TelemetryTask}

/-- What a step can be. -/
inductive TelemetryStep (P : Platform) (s : TelemetryTask) :
    TelemetryTask.Label → TelemetryTask → Prop
  | statement : TelemetryStep P s .statement s.statement
  | event (o : Outcomes) (e : Event) :
      TelemetryStep P s (.event o e) { s with client := hubMqttEventHandler P s.client o e }
  | update {i : Nat} {task : Task} (o : TaskOutcomes) :
      TelemetryStep P s (.update i o) { s with client := s.client.taskStep P i task o }

theorem telemetry_step {l : TelemetryTask.Label} (h : (telemetryTask P).next s l = some t) :
    TelemetryStep P s l t := by
  cases l with
  | statement =>
    simp only [telemetryTask, TelemetryTask.next] at h
    split_ifs at h
    cases h
    exact .statement
  | event o e =>
    obtain ⟨c, hc, rfl⟩ := Option.map_eq_some_iff.mp h
    obtain ⟨-, hstep⟩ := next_step hc
    cases hstep
    exact .event o e
  | update i o =>
    obtain ⟨c, hc, rfl⟩ := Option.map_eq_some_iff.mp h
    obtain ⟨-, hstep⟩ := next_step hc
    cases hstep
    exact .update o

/-! ## A turn -/

theorem statement_next (h : s.client.halt = none) :
    (telemetryTask P).next s .statement = some s.statement := by
  simp [telemetryTask, TelemetryTask.next, h]

theorem statement_halt (s : TelemetryTask) : s.statement.client.halt = s.client.halt := by
  unfold TelemetryTask.statement
  cases s.pc <;> simp only
  case clear => split_ifs <;> rfl
  case publish => rfl

/-- Some statements in a row. -/
theorem statements_run (n : Nat) (h : s.client.halt = none) :
    (telemetryTask P).Run Machine.always s (List.replicate n .statement)
      (TelemetryTask.statement^[n] s) := by
  induction n generalizing s with
  | zero => exact .nil s
  | succ n ih =>
    have hstep : (telemetryTask P).Run Machine.always s [.statement] s.statement :=
      .single trivial (statement_next h)
    exact hstep.trans (ih ((statement_halt s).trans h))

/-- Clearing the flag that was sampled leaves it cleared. -/
theorem clear_client (c : Client) :
    (if c.c2dForceTelemetry then { c with c2dForceTelemetry := false } else c) =
      { c with c2dForceTelemetry := false } := by
  split_ifs with hforced
  · rfl
  · rw [Bool.not_eq_true] at hforced
    rw [← hforced]

/-- The statements of one turn, in a row, are the turn of the client. -/
theorem turn_statements (h : s.pc = .sample) :
    ∃ n, (TelemetryTask.statement^[n] s).client = s.client.telemetry ∧
      (TelemetryTask.statement^[n] s).pc = .sample := by
  have hsample : s.statement =
      { s with pc := .test, forced := s.client.c2dForceTelemetry } := by
    rw [TelemetryTask.statement, h]
  by_cases hdue : (s.client.hubConnected &&
      (s.client.publishIntervalMs ≤ s.client.waitedMs || s.client.c2dForceTelemetry)) = true
  · have htest : ({ s with pc := .test, forced := s.client.c2dForceTelemetry } :
        TelemetryTask).statement =
          { s with pc := .clear, forced := s.client.c2dForceTelemetry } := by
      simp only [TelemetryTask.statement, hdue, if_true]
    refine ⟨5, ?_, ?_⟩ <;>
      simp only [Function.iterate_succ_apply, Function.iterate_zero, id, hsample, htest]
    · rw [telemetry, if_pos hdue]
      simp only [TelemetryTask.statement, clear_client]
    · rfl
  · have htest : ({ s with pc := .test, forced := s.client.c2dForceTelemetry } :
        TelemetryTask).statement =
          { s with pc := .delay, forced := s.client.c2dForceTelemetry } := by
      simp only [TelemetryTask.statement, hdue, Bool.false_eq_true, if_false]
    refine ⟨3, ?_, ?_⟩ <;>
      simp only [Function.iterate_succ_apply, Function.iterate_zero, id, hsample, htest]
    · rw [telemetry, if_neg hdue]
      rfl
    · rfl

/-- Every step of the client is a run of statements and events. -/
def turns (P : Platform) :
    Machine.Simulation (client P) Machine.always (telemetryTask P) Machine.always where
  R c s := s.client = c ∧ s.pc = .sample
  init c hc := ⟨.start c, ⟨c, hc, rfl⟩, rfl, rfl⟩
  step := by
    rintro c l c' s ⟨rfl, hpc⟩ - hnext
    cases l with
    | event o e =>
      exact ⟨[.event o e], { s with client := c' }, .single trivial (by
        simp only [telemetryTask, TelemetryTask.next]
        rw [show s.client.next P (.event o e) = some c' from hnext]
        rfl), rfl, hpc⟩
    | task i o =>
      exact ⟨[.update i o], { s with client := c' }, .single trivial (by
        simp only [telemetryTask, TelemetryTask.next]
        rw [show s.client.next P (.task i o) = some c' from hnext]
        rfl), rfl, hpc⟩
    | telemetry =>
      have hclient : s.client.next P .telemetry = some c' := hnext
      obtain ⟨hhalt, hstep⟩ := next_step hclient
      cases hstep
      obtain ⟨n, hclient, hsample⟩ := turn_statements hpc
      exact ⟨_, _, statements_run n hhalt, hclient, hsample⟩

/-! ## What the others leave alone -/

/-- What events and updates do to the variables of the task. -/
structure Frames (c c' : Client) : Prop where
  waitedMs : c'.waitedMs = c.waitedMs
  c2dTopicPrefix : c'.c2dTopicPrefix = c.c2dTopicPrefix
  forced : c.c2dForceTelemetry = true → c'.c2dForceTelemetry = true

theorem applyDesiredProperties_frames (c : Client) (o : Outcomes) (desired : CJson) :
    Frames c (c.applyDesiredProperties o desired) := by
  have htrigger : ∀ url version, Frames c (c.triggerOta o url version) := by
    intro url version
    simp only [triggerOta]
    split_ifs <;> exact ⟨rfl, rfl, id⟩
  unfold applyDesiredProperties
  rcases fwOffer c.build desired with _ | pair <;> rcases newInterval desired with _ | interval
  · exact ⟨rfl, rfl, id⟩
  · exact ⟨rfl, rfl, id⟩
  · exact htrigger pair.1 pair.2
  · obtain ⟨hwaited, hprefix, hforced⟩ := htrigger pair.1 pair.2
    exact ⟨hwaited, hprefix, hforced⟩

theorem handler_frames (P : Platform) (c : Client) (o : Outcomes) (e : Event) :
    Frames c (hubMqttEventHandler P c o e) := by
  have hmove := handler_cases P c o e
  generalize hubMqttEventHandler P c o e = d at hmove ⊢
  cases hmove with
  | connected _ | disconnected _ | ignored _ => exact ⟨rfl, rfl, id⟩
  | method _ topic =>
    simp only [handleDirectMethodRequest]
    split
    · exact ⟨rfl, rfl, id⟩
    · split_ifs <;> exact ⟨rfl, rfl, id⟩
  | twin _ => exact applyDesiredProperties_frames c o _
  | c2d _ => exact ⟨rfl, rfl, fun _ => rfl⟩

theorem taskStep_frames (P : Platform) (c : Client) (i : Nat) (task : Task) (o : TaskOutcomes) :
    Frames c (c.taskStep P i task o) := by
  unfold taskStep
  cases task.pc <;> simp only
  case read =>
    split
    · exact ⟨rfl, rfl, id⟩
    · exact ⟨rfl, rfl, id⟩
    · split_ifs <;> exact ⟨rfl, rfl, id⟩
  case savePending | restart | done => exact ⟨rfl, rfl, id⟩
  all_goals split_ifs <;> exact ⟨rfl, rfl, id⟩

/-! ## The timer -/

/-- `INT_MAX`. -/
def intMax : Nat := 2147483647

def TelemetryTask.Label.isStatement : TelemetryTask.Label → Bool
  | .statement => true
  | _ => false

/-- `waited_ms` is the time since the last publication, and a test that finds
the hub connected and the interval over leads to a publication two statements
later, whatever happens in between. -/
structure TimerExact (P : Platform) (s : TelemetryTask) : Prop where
  waited : s.client.waitedMs.toInt = s.loopMs
  due : s.pc = .test → s.client.hubConnected = true →
    s.client.publishIntervalMs.toInt ≤ s.loopMs →
    ∀ ls t, (telemetryTask P).Run Machine.always s.statement ls t →
      2 ≤ ls.countP TelemetryTask.Label.isStatement → s.publishes < t.publishes

/-- The delay statement does not take the time since the last publication over
`INT_MAX`. -/
def InRange (s : TelemetryTask) (l : TelemetryTask.Label) : Prop :=
  l = .statement → s.pc = .delay → s.loopMs + 200 ≤ intMax

theorem waitedMs_toInt_add (w : Int32) {n : Nat} (h : w.toInt = n) :
    (w + 200).toInt = (n + 200 : Nat) ↔ n + 200 ≤ intMax := by
  have hlt : w.toInt < 2147483648 := Int32.toInt_lt w
  have hlit : (200 : Int32).toInt = 200 := rfl
  rw [Int32.toInt_add, hlit, h, Int.bmod_eq_emod]
  unfold intMax
  constructor
  · intro heq
    split_ifs at heq <;> omega
  · intro hle
    split_ifs <;> omega

theorem publishes_le_statement (s : TelemetryTask) : s.publishes ≤ s.statement.publishes := by
  unfold TelemetryTask.statement
  cases s.pc <;> simp

/-- Where the task is on its way from the clearing statement to the
publication, by the statements it ran. -/
def OnItsWay (n : Nat) (ls : List TelemetryTask.Label) (s : TelemetryTask) : Prop :=
  n < s.publishes ∨ n = s.publishes ∧
    (s.pc = .clear ∧ ls.countP TelemetryTask.Label.isStatement = 0 ∨
      s.pc = .publish ∧ ls.countP TelemetryTask.Label.isStatement = 1)

theorem onItsWay_next {n : Nat} {ls : List TelemetryTask.Label} {l : TelemetryTask.Label}
    (h : OnItsWay n ls s) (hnext : (telemetryTask P).next s l = some t) :
    OnItsWay n (ls ++ [l]) t := by
  unfold OnItsWay at h ⊢
  rw [List.countP_append]
  cases telemetry_step hnext with
  | event o e => exact h
  | update o => exact h
  | statement =>
    rcases h with hlt | ⟨rfl, ⟨hpc, hcount⟩ | ⟨hpc, hcount⟩⟩
    · exact Or.inl (hlt.trans_le (publishes_le_statement s))
    · refine Or.inr ⟨?_, Or.inr ⟨?_, ?_⟩⟩
      · simp [TelemetryTask.statement, hpc]
      · simp [TelemetryTask.statement, hpc]
      · rw [hcount]
        rfl
    · refine Or.inl ?_
      simp [TelemetryTask.statement, hpc]

/-- From the clearing statement on, two statements publish. -/
theorem publishes_of_clear {ls : List TelemetryTask.Label} (hpc : s.pc = .clear)
    (h : (telemetryTask P).Run Machine.always s ls t)
    (hcount : 2 ≤ ls.countP TelemetryTask.Label.isStatement) : s.publishes < t.publishes := by
  have hway : OnItsWay s.publishes ls t := by
    refine h.invariant (I := OnItsWay s.publishes) (Or.inr ⟨rfl, Or.inl ⟨hpc, rfl⟩⟩) ?_
    intro ls u l v hu _ hnext
    exact onItsWay_next hu hnext
  rcases hway with hlt | ⟨-, ⟨-, h⟩ | ⟨-, h⟩⟩
  · exact hlt
  · omega
  · omega

/-- An exact timer is seen by the test. -/
theorem timerExact_iff : TimerExact P s ↔ s.client.waitedMs.toInt = s.loopMs := by
  refine ⟨TimerExact.waited, fun hwaited => ⟨hwaited, ?_⟩⟩
  intro hpc hconnected hover ls t hrun hcount
  have hdue : s.client.publishIntervalMs ≤ s.client.waitedMs := by
    rw [Int32.le_iff_toInt_le, hwaited]
    exact hover
  have hclear : s.statement.pc = .clear := by
    simp [TelemetryTask.statement, hpc, hconnected, hdue]
  exact (publishes_le_statement s).trans_lt (publishes_of_clear hclear hrun hcount)

/-- A step keeps the timer exact exactly when it does not overflow. -/
theorem timerExact_next {l : TelemetryTask.Label} (h : TimerExact P s)
    (hnext : (telemetryTask P).next s l = some t) : InRange s l ↔ TimerExact P t := by
  have hwaited := h.waited
  rw [timerExact_iff]
  cases telemetry_step hnext with
  | event o e =>
    have hsame : (hubMqttEventHandler P s.client o e).waitedMs = s.client.waitedMs :=
      (handler_frames P s.client o e).waitedMs
    exact ⟨fun _ => by rw [hsame]; exact hwaited, fun _ hl => nomatch hl⟩
  | @update i task o =>
    have hsame : (s.client.taskStep P i task o).waitedMs = s.client.waitedMs :=
      (taskStep_frames P s.client i task o).waitedMs
    exact ⟨fun _ => by rw [hsame]; exact hwaited, fun _ hl => nomatch hl⟩
  | statement =>
    unfold InRange TelemetryTask.statement
    cases hpc : s.pc
    case delay =>
      rw [waitedMs_toInt_add _ hwaited]
      exact ⟨fun hle => hle rfl rfl, fun hle _ _ => hle⟩
    case publish => exact ⟨fun _ => rfl, fun _ _ hdelay => nomatch hdelay⟩
    case clear =>
      refine ⟨fun _ => ?_, fun _ _ hdelay => nomatch hdelay⟩
      split_ifs <;> exact hwaited
    case sample | test => exact ⟨fun _ => hwaited, fun _ _ hdelay => nomatch hdelay⟩

/-- In a run from the start, the timer is exact in all states if and only if
no delay statement takes the time since the last publication over `INT_MAX`. -/
theorem timer_exact_iff {s₀ : TelemetryTask} {ls : List TelemetryTask.Label}
    (hinit : (telemetryTask P).init s₀) (h : (telemetryTask P).Run Machine.always s₀ ls s) :
    ((telemetryTask P).Run (fun s _ => TimerExact P s) s₀ ls s ∧ TimerExact P s) ↔
      (telemetryTask P).Run InRange s₀ ls s := by
  have hstart : TimerExact P s₀ := by
    obtain ⟨c, ⟨build, slot, deviceId, journal, rfl⟩, rfl⟩ := hinit
    exact timerExact_iff.mpr rfl
  exact h.states_iff hstart fun _ _ _ hexact hnext => timerExact_next hexact hnext

/-- The task after `n` turns without a connection. -/
def TelemetryTask.idle (c : Client) (n : Nat) : TelemetryTask :=
  ⟨{ c with waitedMs := Int32.ofNat (200 * n) }, .sample, false, 0, 200 * n⟩

/-- A turn without a connection is a delay. -/
theorem idle_turn (hoff : c.hubConnected = false) (hflag : c.c2dForceTelemetry = false) (n : Nat) :
    TelemetryTask.statement^[3] (.idle c n) = .idle c (n + 1) := by
  simp [TelemetryTask.statement, TelemetryTask.idle, hoff, hflag, Nat.mul_succ]

theorem idle_reach (hc : (client P).init c) (n : Nat) :
    (telemetryTask P).Reachable (.idle c n) := by
  obtain ⟨build, slot, deviceId, journal, rfl⟩ := hc
  induction n with
  | zero => exact .init ⟨_, ⟨build, slot, deviceId, journal, rfl⟩, rfl⟩
  | succ n ih =>
    have hturn := statements_run (P := P) (s := .idle (.fresh build slot deviceId journal) n) 3 rfl
    rw [idle_turn rfl rfl] at hturn
    exact hturn.reach ih

/-- Turns without a connection, for somewhat more than `INT_MAX` milliseconds. -/
def overflowTurns : Nat := 10737419

/-- After them the hub is connected, the interval is over, and the test fails. -/
theorem overflow_starves : ∃ s, (telemetryTask (textPlatform twinDocs)).Reachable s ∧
    s.pc = .test ∧ s.client.hubConnected = true ∧
    s.client.publishIntervalMs.toInt ≤ s.loopMs ∧ s.statement.pc = .delay ∧
    s.client.waitedMs.toInt ≠ s.loopMs := by
  have hidle := idle_reach (P := textPlatform twinDocs) (c := sampleClient) ⟨_, _, _, _, rfl⟩
    overflowTurns
  have hconnected := hidle.step (l := .event sampleOutcomes .connected) trivial rfl
  refine ⟨_, hconnected.step (l := .statement) trivial (statement_next rfl), rfl, rfl, ?_⟩
  decide +kernel

/-- The claim of an exact timer fails once the hub was away for 25 days. -/
theorem timer_overflows : ¬ ∀ (P : Platform) (s : TelemetryTask),
    (telemetryTask P).Reachable s → TimerExact P s := by
  intro h
  obtain ⟨s, hs, -, -, -, -, hwaited⟩ := overflow_starves
  exact hwaited (h _ s hs).waited

/-- The timer is exact after a turn without a connection. -/
theorem timer_exact_idle :
    TimerExact (textPlatform twinDocs) (TelemetryTask.statement^[3] (.start sampleClient)) := by
  have hrun := statements_run (P := textPlatform twinDocs) (s := .start sampleClient) 3 rfl
  refine ((timer_exact_iff ⟨_, ⟨_, _, _, _, rfl⟩, rfl⟩ hrun).mpr ?_).2
  refine .snoc (.snoc (.snoc (.nil _) ?_ rfl) ?_ rfl) ?_ rfl
  · exact fun _ hpc => nomatch hpc
  · exact fun _ hpc => nomatch hpc
  · exact fun _ _ => by decide

/-! ## Cloud-to-device messages -/

/-- A message on the C2D topic of the device. -/
def IsC2d (c : Client) (e : Event) : Prop :=
  ∃ topic payload, e = .data topic payload ∧ c.c2dTopicPrefix <+: topic

/-- No step changes what the C2D topic starts with. -/
theorem c2dTopicPrefix_devices (h : (telemetryTask P).Reachable s) :
    ascii "devices/" <+: s.client.c2dTopicPrefix := by
  refine h.invariant (I := fun s => ascii "devices/" <+: s.client.c2dTopicPrefix) ?_ ?_
  · intro s ⟨c, ⟨build, slot, deviceId, journal, hc⟩, hs⟩
    subst hs hc
    show ascii "devices/" <+: snprintf 192 (ascii "devices/" ++ deviceId ++ _)
    rw [snprintf, List.append_assoc, List.prefix_take_iff]
    exact And.intro (List.prefix_append _ _) (by decide)
  · intro s l t _ hs _ hnext
    cases telemetry_step hnext with
    | event o e => exact (handler_frames P s.client o e).c2dTopicPrefix ▸ hs
    | @update i task o => exact (taskStep_frames P s.client i task o).c2dTopicPrefix ▸ hs
    | statement =>
      unfold TelemetryTask.statement
      cases s.pc <;> simp only
      case clear => split_ifs <;> exact hs
      all_goals exact hs

/-- The handler takes a C2D message for one. -/
theorem handler_c2d {o : Outcomes} {e : Event} (h : (telemetryTask P).Reachable s)
    (hmsg : IsC2d s.client e) : (hubMqttEventHandler P s.client o e).c2dForceTelemetry = true := by
  obtain ⟨topic, payload, rfl, hprefix⟩ := hmsg
  have hdevices : ascii "devices/" <+: topic := (c2dTopicPrefix_devices h).trans hprefix
  simp only [hubMqttEventHandler]
  rw [if_neg (not_startsWith hdevices (by decide) (by decide)),
    if_neg (not_startsWith hdevices (by decide) (by decide)),
    if_neg (not_startsWith hdevices (by decide) (by decide)), if_pos (startsWith_iff.mpr hprefix)]

/-- Where the request is that was handled at `n` publications: in the flag, in
the turn that took it from there, or behind a publication. -/
def Requested (n : Nat) (s : TelemetryTask) : Prop :=
  n ≤ s.publishes ∧ (s.client.c2dForceTelemetry = true ∨ s.pc = .publish ∧ s.forced = true ∨
    n < s.publishes)

theorem requested_statement {n : Nat} (h : Requested n s) : Requested n s.statement := by
  obtain ⟨hle, hwhere⟩ := h
  unfold Requested TelemetryTask.statement
  cases hpc : s.pc <;> simp only
  case publish => exact ⟨by omega, Or.inr (Or.inr (by omega))⟩
  case clear =>
    refine ⟨hle, ?_⟩
    -- The flag is cleared only by a turn that sampled it.
    by_cases hforced : s.forced = true
    · exact Or.inr (Or.inl ⟨trivial, hforced⟩)
    · rw [if_neg hforced]
      rcases hwhere with hflag | ⟨hpublish, -⟩ | hlt
      · exact Or.inl hflag
      · rw [hpc] at hpublish
        cases hpublish
      · exact Or.inr (Or.inr hlt)
  all_goals
    refine ⟨hle, ?_⟩
    rcases hwhere with hflag | ⟨hpublish, -⟩ | hlt
    · exact Or.inl hflag
    · simp [hpc] at hpublish
    · exact Or.inr (Or.inr hlt)

theorem requested_next {n : Nat} {l : TelemetryTask.Label} (h : Requested n s)
    (hnext : (telemetryTask P).next s l = some t) : Requested n t := by
  cases telemetry_step hnext with
  | statement => exact requested_statement h
  | event o e => exact ⟨h.1, h.2.imp_left (handler_frames P s.client o e).forced⟩
  | @update i task o => exact ⟨h.1, h.2.imp_left (taskStep_frames P s.client i task o).forced⟩

/-- After a C2D message was handled, the flag is set, or the task is between
clearing it and the publication, or a publication was made since. -/
theorem c2d_not_lost {s₀ : TelemetryTask} {o : Outcomes} {e : Event}
    {ls : List TelemetryTask.Label} (hs₀ : (telemetryTask P).Reachable s₀)
    (hmsg : IsC2d s₀.client e) (hhandled : (telemetryTask P).next s₀ (.event o e) = some s)
    (hrun : (telemetryTask P).Run Machine.always s ls t) :
    t.client.c2dForceTelemetry = true ∨ t.pc = .publish ∧ t.forced = true ∨
      s.publishes < t.publishes := by
  have hstart : Requested s.publishes s := by
    refine ⟨le_refl _, Or.inl ?_⟩
    cases telemetry_step hhandled
    exact handler_c2d hs₀ hmsg
  have hend : Requested s.publishes t := by
    refine hrun.invariant (I := fun _ t => Requested s.publishes t) hstart ?_
    intro _ u l v hu _ hnext
    exact requested_next hu hnext
  exact hend.2

/-- The topic of the device for C2D messages. -/
def c2dTopic : Bytes := ascii "devices/esp32/messages/devicebound/%24.to=%2Fdevices%2Fesp32"

/-- The hub is connected, and the task is behind its sample of the flag. -/
def sampledTask : TelemetryTask :=
  { TelemetryTask.start (sampleClient.connected sampleOutcomes) with pc := .test }

theorem sampledTask_reachable : (telemetryTask (textPlatform twinDocs)).Reachable sampledTask := by
  have hstart : (telemetryTask (textPlatform twinDocs)).Reachable (.start sampleClient) :=
    .init ⟨_, ⟨_, _, _, _, rfl⟩, rfl⟩
  have hconnected := hstart.step (l := .event sampleOutcomes .connected) trivial rfl
  exact hconnected.step (l := .statement) trivial rfl

/-- A request that comes there is not lost. -/
theorem c2d_not_lost_sampled :
    ∃ s t, (telemetryTask (textPlatform twinDocs)).next sampledTask
        (.event sampleOutcomes (.data c2dTopic [])) = some s ∧
      (telemetryTask (textPlatform twinDocs)).exec s (List.replicate 4 .statement) = some t ∧
      (t.client.c2dForceTelemetry = true ∨ t.pc = .publish ∧ t.forced = true ∨
        s.publishes < t.publishes) := by
  have hmsg : IsC2d sampledTask.client (.data c2dTopic []) :=
    ⟨c2dTopic, [], rfl, by decide⟩
  have hexec : ((telemetryTask (textPlatform twinDocs)).exec sampledTask
      (.event sampleOutcomes (.data c2dTopic []) :: List.replicate 4 .statement)).isSome := by
    decide +kernel
  obtain ⟨t, ht⟩ := Option.isSome_iff_exists.mp hexec
  obtain ⟨s, hs, hst⟩ := Option.bind_eq_some_iff.mp ht
  exact ⟨s, t, hs, hst, c2d_not_lost sampledTask_reachable hmsg hs (.exec hst)⟩

end Winegrid.Azure
