import Winegrid.Lib.History
import Winegrid.Azure.Pending

/-!
# The states that a boot reports

Read back from the journal, the `fw_state` reports of one boot of the Azure
client are those of its attempts, one after the other, whatever MQTT events
and telemetry come between the calls of `ota_task`.

* `TraceLaw` is the language of the traces: failed attempts, and then a part of
  one that goes well.
* `handler_reports` and `taskStep_says`: what one step reports.
* `report_trace` is the law of all runs.
-/

namespace Winegrid.Azure

open Esp Client

variable {P : Platform} {c c' : Client} {t : Task} {trace : List FwState}

/-! ## Traces -/

/-- The reports of an attempt that fails.  Nothing is reported before it when
the version is refused, or the download cannot begin. -/
def FailedAttempt (attempt : List FwState) : Prop :=
  ∃ states, states <+: [.downloading, .verified] ∧ attempt = states ++ [.failed]

/-- Failed attempts, one after the other. -/
def Closed (trace : List FwState) : Prop :=
  ∃ attempts : List (List FwState), (∀ a ∈ attempts, FailedAttempt a) ∧ trace = attempts.flatten

/-- Failed attempts, and then a part of one that goes well. -/
def TraceLaw (trace : List FwState) : Prop :=
  ∃ past last, Closed past ∧ last <+: [.downloading, .verified, .updated] ∧ trace = past ++ last

theorem closed_nil : Closed [] := ⟨[], by simp, rfl⟩

/-- One more failed attempt. -/
theorem Closed.snoc {attempt : List FwState} (h : Closed trace) (hattempt : FailedAttempt attempt) :
    Closed (trace ++ attempt) := by
  obtain ⟨attempts, hattempts, rfl⟩ := h
  refine ⟨attempts ++ [attempt], fun a ha => ?_, by simp⟩
  rcases List.mem_append.mp ha with ha | ha
  · exact hattempts a ha
  · rw [List.mem_singleton.mp ha]
    exact hattempt

theorem Closed.law (h : Closed trace) : TraceLaw trace :=
  ⟨trace, [], h, List.nil_prefix, (List.append_nil trace).symm⟩

/-- The effect before a report of `UPDATED` set the boot partition. -/
def BootsFirst (past : List Effect) (e : Effect) : Prop :=
  stateOf e = some .updated → ∃ slot version, [.setBoot slot version true] <:+ past

/-- Without a report of `UPDATED` there is nothing to order. -/
theorem bootsFirst_of_not_mem {es : List Effect} (h : .updated ∉ reported es) :
    Lawful BootsFirst es := by
  intro past e rest heq hupdated
  refine absurd (List.mem_filterMap.mpr ⟨e, ?_, hupdated⟩) h
  rw [heq]
  exact List.mem_append_right _ List.mem_cons_self

theorem BootsFirst.append {log es : List Effect} (h : Lawful BootsFirst log)
    (hes : Lawful BootsFirst es) : Lawful BootsFirst (log ++ es) := by
  refine h.append fun past e rest heq hupdated => ?_
  obtain ⟨slot, version, hsuffix⟩ := hes past e rest heq hupdated
  exact ⟨slot, version, hsuffix.trans (List.suffix_append _ _)⟩

/-! ## What a step reports -/

/-- What the live task of an attempt has reported before its next call. -/
def TaskPc.states : TaskPc → List FwState
  | .httpInit | .httpOpen | .otaBegin | .savePending | .done => []
  | .read | .cleanup _ => [.downloading]
  | .otaEnd | .setBoot => [.downloading, .verified]
  | .restart => [.downloading, .verified, .updated]

theorem reported_report (topic : Bytes) (state : FwState) :
    reported [.publish topic (fwStatePayload state)] = [state] :=
  List.filterMap_cons_some (stateOf_report topic state)

/-- An event reports nothing, or one refused version while no attempt runs. -/
theorem handler_reports (P : Platform) (c : Client) (o : Outcomes) (e : Event) :
    ∃ es, (hubMqttEventHandler P c o e).journal = c.journal.writes es ∧
      (reported es = [] ∨ reported es = [.failed] ∧ c.otaInProgress = false) := by
  have htrigger : ∀ url version, ∃ es, (c.triggerOta o url version).journal = c.journal.writes es ∧
      (reported es = [] ∨ reported es = [.failed] ∧ c.otaInProgress = false) := by
    intro url version
    simp only [triggerOta]
    split_ifs with hbusy hfailed htask
    · exact ⟨[], rfl, Or.inl rfl⟩
    · exact ⟨_, rfl, Or.inr ⟨reported_report _ .failed, by simpa using hbusy⟩⟩
    · exact ⟨[], rfl, Or.inl rfl⟩
    · exact ⟨[], rfl, Or.inl rfl⟩
  have hchat : ∀ {d : Client}, Chat c d → ∃ es, d.journal = c.journal.writes es ∧
      (reported es = [] ∨ reported es = [.failed] ∧ c.otaInProgress = false) := by
    intro d h
    obtain ⟨es, hjournal, hchats⟩ := h.effects
    exact ⟨es, hjournal, Or.inl (reported_chats hchats)⟩
  have hmove := handler_cases P c o e
  generalize hubMqttEventHandler P c o e = d at hmove ⊢
  cases hmove with
  | connected _ => exact hchat (connected_chat c o)
  | disconnected _ | c2d _ | ignored _ => exact ⟨[], rfl, Or.inl rfl⟩
  | method _ topic => exact hchat (handleDirectMethodRequest_chat c o topic)
  | @twin desired _ =>
    rcases hoffer : fwOffer c.build desired with _ | ⟨url, version⟩ <;>
      rcases hinterval : newInterval desired with _ | interval <;>
      simp only [applyDesiredProperties, hoffer, hinterval]
    · exact ⟨[], rfl, Or.inl rfl⟩
    · exact hchat (reportTwinProperties_chat c interval o)
    · exact htrigger url version
    · obtain ⟨es, hjournal, hreported⟩ := htrigger url version
      obtain ⟨fs, hjournal', hchats⟩ :=
        (reportTwinProperties_chat (c.triggerOta o url version) interval o).effects
      refine ⟨es ++ fs, ?_, ?_⟩
      · rw [hjournal', hjournal, Journal.writes_append]
      · rw [reported_append, reported_chats hchats, List.append_nil]
        exact hreported

/-- What a call of the task leaves of its attempt: the attempt goes on with the
reports, or failed with them, or is over. -/
inductive Says (c : Client) (t : Task) (c' : Client) (es : List Effect) : Prop where
  | goesOn (t' : Task) (htasks : c'.tasks = [t']) (hbusy : c'.otaInProgress = c.otaInProgress)
    (hdone : t'.pc ≠ .done) (hpc : t.pc ≠ .done)
    (hstates : t.pc.states ++ reported es = t'.pc.states) (hboots : Lawful BootsFirst es)
  | failed (t' : Task) (htasks : c'.tasks = [t']) (hbusy : c'.otaInProgress = c.otaInProgress)
    (hdone : t'.pc = .done) (hpc : t.pc ≠ .done)
    (hstates : t.pc.states <+: [.downloading, .verified]) (hreported : reported es = [.failed])
  | ended (htasks : c'.tasks = []) (hpc : t.pc = .done) (hes : es = [])

/-- The call wrote the effects, and says this. -/
def Spoke (c : Client) (t : Task) (c' : Client) : Prop :=
  ∃ es, c'.journal = c.journal.writes es ∧ Says c t c' es

/-- The attempt goes on without a report of `UPDATED`. -/
theorem spoke_goesOn {d : Client} (es : List Effect) (htasks : c.tasks = [t])
    (hsame : d.tasks = c.tasks) (hbusy : d.otaInProgress = c.otaInProgress)
    (hjournal : d.journal = c.journal.writes es) (t' : Task) (hdone : t'.pc ≠ .done)
    (hpc : t.pc ≠ .done) (hstates : t.pc.states ++ reported es = t'.pc.states)
    (hupdated : .updated ∉ reported es) : Spoke c t (d.setTask 0 t') :=
  ⟨es, hjournal, .goesOn t' (setTask_tasks (hsame.trans htasks) t') hbusy hdone hpc hstates
    (bootsFirst_of_not_mem hupdated)⟩

/-- The attempt failed, and was reported so. -/
theorem spoke_failed {d : Client} (es : List Effect) (htasks : c.tasks = [t])
    (hsame : d.tasks = c.tasks) (hbusy : d.otaInProgress = c.otaInProgress)
    (hjournal : d.journal = c.journal.writes es) (t' : Task) (hdone : t'.pc = .done)
    (hpc : t.pc ≠ .done) (hstates : t.pc.states <+: [.downloading, .verified])
    (hreported : reported es = [.failed]) : Spoke c t (d.setTask 0 t') :=
  ⟨es, hjournal, .failed t' (setTask_tasks (hsame.trans htasks) t') hbusy hdone hpc hstates
    hreported⟩

/-- A call of the live task. -/
theorem taskStep_says (htasks : c.tasks = [t]) (o : TaskOutcomes) :
    Spoke c t (c.taskStep P 0 t o) := by
  unfold taskStep
  cases hpc : t.pc with
  | httpInit =>
    simp only
    split_ifs
    · exact spoke_goesOn [] htasks (by rfl) (by rfl) (by rfl) _ (by simp) (by simp [hpc])
        (by rw [hpc]; rfl) (by simp [reported])
    · exact spoke_failed [.publish _ _] htasks (by rfl) (by rfl) (by rfl) _ (by rfl) (by simp [hpc])
        (by rw [hpc]; exact List.nil_prefix) (by exact reported_report _ _)
  | httpOpen =>
    simp only
    split_ifs
    · exact spoke_goesOn [] htasks (by rfl) (by rfl) (by rfl) _ (by simp) (by simp [hpc])
        (by rw [hpc]; rfl) (by simp [reported])
    · exact spoke_failed [.publish _ _] htasks (by rfl) (by rfl) (by rfl) _ (by rfl) (by simp [hpc])
        (by rw [hpc]; exact List.nil_prefix) (by exact reported_report _ _)
  | otaBegin =>
    simp only
    split_ifs
    · exact spoke_goesOn [.otaBegin _] htasks (by rfl) (by rfl) (by rfl) _ (by simp) (by simp [hpc])
        (by rw [hpc]; rfl) (by simp [reported, stateOf])
    · exact spoke_failed [.publish _ _] htasks (by rfl) (by rfl) (by rfl) _ (by rfl) (by simp [hpc])
        (by rw [hpc]; exact List.nil_prefix) (by exact reported_report _ _)
  | savePending =>
    have hreported : reported [.nvsSet .pendingFw t.newVersion,
        .publish (reportedTopic (c.twinRequestId + 1)) (fwStatePayload .downloading)] =
          [.downloading] := reported_report (reportedTopic (c.twinRequestId + 1)) .downloading
    exact spoke_goesOn [.nvsSet .pendingFw t.newVersion,
      .publish (reportedTopic (c.twinRequestId + 1)) (fwStatePayload .downloading)] htasks
      (by rfl) (by rfl) (by rfl) _ (by simp) (by simp [hpc]) (by rw [hpc, hreported]; rfl)
      (by rw [hreported]; decide)
  | read =>
    simp only
    split
    · exact spoke_goesOn [] htasks (by rfl) (by rfl) (by rfl) _ (by simp) (by simp [hpc])
        (by rw [hpc]; rfl) (by simp [reported])
    · exact spoke_goesOn [] htasks (by rfl) (by rfl) (by rfl) _ (by simp) (by simp [hpc])
        (by rw [hpc]; rfl) (by simp [reported])
    · rename_i data _ _
      split_ifs
      · exact ⟨[.otaWrite t.updatePartition data], rfl, .goesOn t htasks rfl (by simp [hpc])
          (by simp [hpc]) (by rw [hpc]; rfl) (bootsFirst_of_not_mem (by simp [reported, stateOf]))⟩
      · exact spoke_goesOn [] htasks (by rfl) (by rfl) (by rfl) _ (by simp) (by simp [hpc])
          (by rw [hpc]; rfl) (by simp [reported])
  | cleanup downloadOk =>
    have hcleanup : t.pc.states = [.downloading] := by rw [hpc]; rfl
    simp only
    split_ifs
    · exact spoke_goesOn [.publish _ (fwStatePayload .verified)] htasks (by rfl) (by rfl) (by rfl)
        _ (by simp) (by simp [hpc]) (by rw [hcleanup, reported_report]; rfl)
        (by rw [reported_report]; decide)
    · exact spoke_failed [.publish _ (fwStatePayload .failed), .nvsErase .pendingFw] htasks (by rfl)
        (by rfl) (by rfl) _ (by rfl) (by simp [hpc]) (by rw [hcleanup]; decide)
        (reported_report (reportedTopic (c.twinRequestId + 1)) .failed)
  | otaEnd =>
    simp only
    split_ifs
    · exact spoke_goesOn [] htasks (by rfl) (by rfl) (by rfl) _ (by simp) (by simp [hpc])
        (by rw [hpc]; rfl) (by simp [reported])
    · exact spoke_failed [.publish _ (fwStatePayload .failed), .nvsErase .pendingFw] htasks (by rfl)
        (by rfl) (by rfl) _ (by rfl) (by simp [hpc]) (by rw [hpc]; decide)
        (reported_report (reportedTopic (c.twinRequestId + 1)) .failed)
  | setBoot =>
    simp only
    set version := (P.build (c.journal.disk.app t.updatePartition)).version
    cases o.setBoot with
    | true =>
      have hboots : Lawful BootsFirst ([.setBoot t.updatePartition version true] ++
          [.publish (reportedTopic (c.twinRequestId + 1)) (fwStatePayload .updated)]) :=
        lawful_concat.mpr ⟨bootsFirst_of_not_mem (by simp [reported, stateOf]),
          fun _ => ⟨t.updatePartition, version, List.suffix_rfl⟩⟩
      have hreported : reported ([.setBoot t.updatePartition version true] ++
          [.publish (reportedTopic (c.twinRequestId + 1)) (fwStatePayload .updated)]) =
            [.updated] := reported_report (reportedTopic (c.twinRequestId + 1)) .updated
      exact ⟨_, rfl, .goesOn { t with pc := .restart } (setTask_tasks htasks _) rfl (by simp)
        (by simp [hpc]) (by rw [hpc, hreported]; rfl) hboots⟩
    | false =>
      exact spoke_failed [.setBoot t.updatePartition version false,
        .publish (reportedTopic (c.twinRequestId + 1)) (fwStatePayload .failed),
        .nvsErase .pendingFw] htasks (by rfl) (by rfl) (by rfl) _ (by rfl) (by simp [hpc])
        (by rw [hpc]; decide) (reported_report (reportedTopic (c.twinRequestId + 1)) .failed)
  | restart =>
    exact ⟨[], rfl, .goesOn t htasks rfl (by simp [hpc]) (by simp [hpc]) (List.append_nil _)
      lawful_nil⟩
  | done => exact ⟨[], rfl, .ended (by simp [htasks]) hpc rfl⟩

/-! ## The trace of a boot -/

/-- Where the trace of a boot stands: no task is alive, or one reported its part
of an attempt, or reported that it failed. -/
inductive Stands (c : Client) (trace : List FwState) : Prop where
  | idle (htasks : c.tasks = []) (hclosed : Closed trace)
  | live (t : Task) (past : List FwState) (htasks : c.tasks = [t])
    (hbusy : c.otaInProgress = true) (hpc : t.pc ≠ .done) (hclosed : Closed past)
    (htrace : trace = past ++ t.pc.states)
  | finished (t : Task) (htasks : c.tasks = [t]) (hbusy : c.otaInProgress = true)
    (hpc : t.pc = .done) (hclosed : Closed trace)

theorem Stands.law (h : Stands c trace) : TraceLaw trace := by
  cases h with
  | idle _ hclosed | finished _ _ _ _ hclosed => exact hclosed.law
  | live t past _ _ _ hclosed htrace =>
    refine ⟨past, t.pc.states, hclosed, ?_, htrace⟩
    cases t.pc <;> simp only [TaskPc.states] <;> decide

/-- A step that leaves the tasks alone and reports nothing. -/
theorem Stands.same (h : Stands c trace) (htasks : c'.tasks = c.tasks)
    (hbusy : c.otaInProgress = true → c'.otaInProgress = true) : Stands c' trace := by
  cases h with
  | idle hnone hclosed => exact .idle (htasks.trans hnone) hclosed
  | live t past hone hb hpc hclosed htrace =>
    exact .live t past (htasks.trans hone) (hbusy hb) hpc hclosed htrace
  | finished t hone hb hpc hclosed => exact .finished t (htasks.trans hone) (hbusy hb) hpc hclosed

/-- While no attempt runs, no task is alive. -/
theorem Stands.closed (h : Stands c trace) (hidle : c.otaInProgress = false) :
    c.tasks = [] ∧ Closed trace := by
  cases h with
  | idle htasks hclosed => exact ⟨htasks, hclosed⟩
  | live _ _ _ hbusy | finished _ _ hbusy =>
    rw [hidle] at hbusy
    cases hbusy

theorem failedAttempt_alone : FailedAttempt [.failed] := ⟨[], List.nil_prefix, rfl⟩

/-- An event keeps the law: a version is refused, or a task started, only while
no attempt runs. -/
theorem stands_event (h : Stands c trace) (P : Platform) (o : Outcomes) (e : Event) :
    ∃ es, (hubMqttEventHandler P c o e).journal = c.journal.writes es ∧ Lawful BootsFirst es ∧
      Stands (hubMqttEventHandler P c o e) (trace ++ reported es) := by
  obtain ⟨es, hjournal, hreported⟩ := handler_reports P c o e
  obtain ⟨fs, htalked, hspawns⟩ := handler_talked P c o e
  have hboots : Lawful BootsFirst es := by
    refine bootsFirst_of_not_mem ?_
    rcases hreported with hnone | ⟨hfailed, -⟩
    · rw [hnone]
      exact List.not_mem_nil
    · rw [hfailed]
      decide
  refine ⟨es, hjournal, hboots, ?_⟩
  rcases hspawns with hsame | ⟨_, url, newVersion, -, -, hnew⟩
  · rcases hreported with hnone | ⟨hfailed, hidle⟩
    · rw [hnone, List.append_nil]
      exact h.same hsame.tasks hsame.busy
    · rw [hfailed]
      obtain ⟨htasks, hclosed⟩ := h.closed hidle
      exact .idle (hsame.tasks.trans htasks) (hclosed.snoc failedAttempt_alone)
  · obtain ⟨htasks, hclosed⟩ := h.closed hnew.idle
    obtain ⟨id, hone⟩ := hnew.tasks
    rw [htasks, List.nil_append] at hone
    have hpast : Closed (trace ++ reported es) := by
      rcases hreported with hnone | ⟨hfailed, -⟩
      · rw [hnone, List.append_nil]
        exact hclosed
      · rw [hfailed]
        exact hclosed.snoc failedAttempt_alone
    exact .live _ _ hone hnew.busy (by simp [newTask]) hpast (List.append_nil _).symm

/-- A call of the task keeps the law. -/
theorem stands_task (h : Stands c trace) (htasks : c.tasks = [t]) (o : TaskOutcomes) :
    ∃ es, (c.taskStep P 0 t o).journal = c.journal.writes es ∧ Lawful BootsFirst es ∧
      Stands (c.taskStep P 0 t o) (trace ++ reported es) := by
  have hlive : t.pc ≠ .done → c.otaInProgress = true ∧
      ∃ past, Closed past ∧ trace = past ++ t.pc.states := by
    intro hpc
    cases h with
    | idle hnone => simp [htasks] at hnone
    | live t' past hone hbusy _ hclosed htrace =>
      rw [htasks, List.cons.injEq] at hone
      exact ⟨hbusy, past, hclosed, hone.1 ▸ htrace⟩
    | finished t' hone _ hdone =>
      rw [htasks, List.cons.injEq] at hone
      exact absurd (hone.1 ▸ hdone) hpc
  obtain ⟨es, hjournal, hsays⟩ := taskStep_says (P := P) htasks o
  refine ⟨es, hjournal, ?_⟩
  cases hsays with
  | goesOn t' hone hbusy hdone hpc hstates hboots =>
    obtain ⟨hbusy', past, hclosed, rfl⟩ := hlive hpc
    refine ⟨hboots, .live t' past hone (hbusy.trans hbusy') hdone hclosed ?_⟩
    rw [List.append_assoc, hstates]
  | failed t' hone hbusy hdone hpc hstates hreported =>
    obtain ⟨hbusy', past, hclosed, rfl⟩ := hlive hpc
    refine ⟨bootsFirst_of_not_mem (by rw [hreported]; decide),
      .finished t' hone (hbusy.trans hbusy') hdone ?_⟩
    rw [List.append_assoc, hreported]
    exact hclosed.snoc ⟨_, hstates, rfl⟩
  | ended hnone hpc hes =>
    subst hes
    refine ⟨lawful_nil, .idle hnone ?_⟩
    cases h with
    | idle _ hclosed | finished _ _ _ _ hclosed => simpa [reported] using hclosed
    | live t' _ hone _ hdone =>
      rw [htasks, List.cons.injEq] at hone
      exact absurd (hone.1 ▸ hpc) hdone

/-- Every step keeps the law. -/
theorem stands_next {l : Label} (h : Stands c trace) (hnext : c.next P l = some c') :
    ∃ es, c'.journal = c.journal.writes es ∧ Lawful BootsFirst es ∧
      Stands c' (trace ++ reported es) := by
  obtain ⟨-, hstep⟩ := next_step hnext
  cases hstep with
  | event o e => exact stands_event h P o e
  | telemetry =>
    have hchat := telemetry_chat c
    obtain ⟨es, hjournal, hchats⟩ := hchat.effects
    have hnone := reported_chats hchats
    refine ⟨es, hjournal, bootsFirst_of_not_mem (by simp [hnone]), ?_⟩
    rw [hnone, List.append_nil]
    exact h.same hchat.tasks fun hbusy => hchat.busy.trans hbusy
  | @task i t o htask _ =>
    have hone : c.tasks = [t] ∧ i = 0 := by
      have hall : ∀ t', c.tasks = [t'] → c.tasks = [t] ∧ i = 0 := by
        intro t' htasks
        rw [htasks, List.getElem?_singleton] at htask
        split_ifs at htask with hi
        cases htask
        exact ⟨htasks, hi⟩
      cases h with
      | idle hnone => simp [hnone] at htask
      | live t' _ htasks | finished t' htasks => exact hall t' htasks
    obtain ⟨htasks, rfl⟩ := hone
    exact stands_task h htasks o

/-- In every run of a boot the reported states are failed attempts, one after
the other, and then a part of one that goes well.  Of the calls of the
task, `UPDATED` follows the one that set the boot partition, and while no task is
alive every attempt so far has reported `FAILED`. -/
theorem report_trace (build : Build) (slot : Slot) (deviceId : Bytes) (j : Log)
    (ls : List Label)
    (h : (client P).Run Machine.always (Client.fresh build slot deviceId j) ls c) :
    TraceLaw (reported (j.since c.journal)) ∧ Lawful BootsFirst (j.since c.journal) ∧
      (c.tasks = [] → Closed (reported (j.since c.journal))) := by
  have hall : j.Extends c.journal ∧ Lawful BootsFirst (j.since c.journal) ∧
      Stands c (reported (j.since c.journal)) := by
    refine h.invariant (I := fun _ c => j.Extends c.journal ∧
      Lawful BootsFirst (j.since c.journal) ∧ Stands c (reported (j.since c.journal))) ?_ ?_
    · have hnone : j.since (Client.fresh build slot deviceId j).journal = [] := j.since_self
      rw [hnone]
      exact ⟨⟨[], rfl⟩, lawful_nil, .idle rfl closed_nil⟩
    · intro ls c l c' ⟨hextends, hlawful, hstands⟩ _ hnext
      obtain ⟨es, hjournal, hboots, hstands'⟩ := stands_next hstands hnext
      have hnew : c.journal.Extends c'.journal := ⟨es, hjournal⟩
      have hsince : j.since c'.journal = j.since c.journal ++ es := by
        rw [Journal.since_trans hextends hnew, hjournal, Journal.since_writes]
      refine ⟨?_, ?_, ?_⟩
      · obtain ⟨fs, hfs⟩ := hextends
        exact ⟨fs ++ es, by rw [Journal.writes_append, ← hfs, hjournal]⟩
      · rw [hsince]
        exact BootsFirst.append hlawful hboots
      · rw [hsince, reported_append]
        exact hstands'
  obtain ⟨-, hlawful, hstands⟩ := hall
  refine ⟨hstands.law, hlawful, fun hnone => ?_⟩
  cases hstands with
  | idle _ hclosed | finished _ _ _ _ hclosed => exact hclosed
  | live t _ htasks =>
    rw [hnone] at htasks
    cases htasks

/-! ## An update at the second try -/

/-- A body of one block. -/
def oneBlock : TaskOutcomes := ⟨true, true, true, some [7], false, true, true, true⟩

/-- The end of a body that is complete. -/
def bodyEnd : TaskOutcomes := ⟨true, true, true, some [], true, true, true, true⟩

def offerEvent : Label := .event sampleOutcomes (.data patchTopic offerText)

/-- The first download ends early, the second one is installed. -/
def secondTry : List Label :=
  offerEvent :: List.replicate 7 (.task 0 shortBody) ++
    offerEvent :: List.replicate 5 (.task 0 oneBlock) ++ .telemetry ::
    List.replicate 4 (.task 0 bodyEnd)

theorem report_trace_sample : ∃ c : Client,
    reported (sampleClient.journal.since c.journal) =
      [.downloading, .failed, .downloading, .verified, .updated] ∧
    TraceLaw (reported (sampleClient.journal.since c.journal)) := by
  obtain ⟨c, hexec, htrace⟩ := Machine.exists_of_any
    (p := fun c : Client => reported (sampleClient.journal.since c.journal) =
      [.downloading, .failed, .downloading, .verified, .updated])
    (o := (client offerPlatform).exec sampleClient secondTry) (by decide +kernel)
  exact ⟨c, htrace, (report_trace _ _ _ _ _ (Machine.Run.exec hexec)).1⟩

end Winegrid.Azure
