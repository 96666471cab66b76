import Winegrid.Azure.Device

/-!
# One update at a time

`trigger_ota` and `ota_task` share `s_ota_in_progress` and a task argument.
`Client.updateVars` is what the two of them change beside the journal, and
`UpdateStep` says what a step of the client does to it.

* `singleFlight_iff`: the flag is set exactly while a task is alive, as long
  as every task that was asked for was created.
* `otaArgument_kept_iff`: a task works with the pair that it was started for
  exactly when the url has no newline and the version fits its buffer.
-/

namespace Winegrid.Azure

open Esp Client

variable {P : Platform} {c c' : Client} {t : Task} {url version : Bytes}

/-! ## What a step does to an update -/

/-- The flag, the live tasks, and the handles of the three resources. -/
structure UpdateVars where
  otaInProgress : Bool
  tasks : List Task
  http : Handles
  ota : Ota
  args : Handles
  deriving DecidableEq

def Client.updateVars (c : Client) : UpdateVars := ⟨c.otaInProgress, c.tasks, c.http, c.ota, c.args⟩

/-- `trigger_ota` from the flag on. -/
def UpdateVars.start (u : UpdateVars) (created : Bool) (arg : Bytes) : UpdateVars :=
  { u with
    otaInProgress := true
    args := u.args.alloc
    tasks := if created then u.tasks ++ [newTask arg u.args.alloc.last] else u.tasks }

/-- `trigger_ota` gets to `xTaskCreate`: no update is in progress, and the
version has not failed. -/
def Client.accepts (c : Client) (version : Bytes) : Bool :=
  !c.otaInProgress && decide (loadNvsStr c.journal.disk.nvs .failedFw 32 ≠ some version)

/-- The pair for which an event gets to `xTaskCreate`. -/
def startedBy (P : Platform) (c : Client) (e : Event) : Option (Bytes × Bytes) :=
  ((twinDoc P e).bind (fwOffer c.build)).filter fun pair => c.accepts pair.2

theorem triggerOta_updateVars (c : Client) (o : Outcomes) (url version : Bytes) :
    (c.triggerOta o url version).updateVars =
      if c.accepts version then c.updateVars.start o.taskCreate (packArg url version)
      else c.updateVars := by
  unfold accepts
  simp only [triggerOta]
  split_ifs with hbusy hfailed htask haccepts haccepts haccepts haccepts <;>
    simp_all [updateVars, UpdateVars.start, reportFwState, emit]

theorem applyDesiredProperties_updateVars (c : Client) (o : Outcomes) (desired : CJson) :
    (c.applyDesiredProperties o desired).updateVars =
      ((fwOffer c.build desired).filter fun pair => c.accepts pair.2).elim c.updateVars
        fun pair => c.updateVars.start o.taskCreate (packArg pair.1 pair.2) := by
  have hreport : ∀ (d : Client) (interval : Int32),
      ({ d with publishIntervalMs := interval }.reportTwinProperties o).updateVars =
        d.updateVars := fun _ _ => rfl
  have hinterval : (c.applyDesiredProperties o desired).updateVars =
      ((fwOffer c.build desired).elim c fun pair => c.triggerOta o pair.1 pair.2).updateVars := by
    unfold applyDesiredProperties
    rcases fwOffer c.build desired with _ | pair <;>
      rcases newInterval desired with _ | interval
    · rfl
    · exact hreport c interval
    · rfl
    · exact hreport _ interval
  rw [hinterval]
  rcases fwOffer c.build desired with _ | pair
  · rfl
  · rw [Option.elim_some, triggerOta_updateVars, Option.filter_some]
    split_ifs <;> rfl

/-- An event starts the update that its document asks for, or none. -/
theorem handler_updateVars (P : Platform) (c : Client) (o : Outcomes) (e : Event) :
    (hubMqttEventHandler P c o e).updateVars = (startedBy P c e).elim c.updateVars
      fun pair => c.updateVars.start o.taskCreate (packArg pair.1 pair.2) := by
  have hmove := handler_cases P c o e
  generalize hubMqttEventHandler P c o e = d at hmove ⊢
  unfold startedBy
  cases hmove with
  | connected hdoc | disconnected hdoc | c2d hdoc | ignored hdoc =>
    rw [hdoc]
    rfl
  | method hdoc topic =>
    rw [hdoc]
    simp only [handleDirectMethodRequest]
    split
    · rfl
    · split_ifs <;> rfl
  | twin hdoc =>
    rw [hdoc]
    exact applyDesiredProperties_updateVars c o _

theorem telemetry_updateVars (c : Client) : c.telemetry.updateVars = c.updateVars := by
  unfold telemetry
  split_ifs <;> rfl

/-- What a step does while at most one task is alive. -/
inductive UpdateStep (P : Platform) (c : Client) : Label → Client → Prop
  /-- Nothing about updates. -/
  | quiet {l : Label} {c' : Client} (hvars : c'.updateVars = c.updateVars)
      (hstart : ∀ o e, l = .event o e → startedBy P c e = none)
      (htask : ∀ i o, l ≠ .task i o) : UpdateStep P c l c'
  /-- `trigger_ota` gets to `xTaskCreate`. -/
  | start {o : Outcomes} {e : Event} {c' : Client} {pair : Bytes × Bytes}
      (hstart : startedBy P c e = some pair)
      (hvars : c'.updateVars = c.updateVars.start o.taskCreate (packArg pair.1 pair.2)) :
      UpdateStep P c (.event o e) c'
  | task {t : Task} {o : TaskOutcomes} (htasks : c.tasks = [t]) (hfits : o.Fits) :
      UpdateStep P c (.task 0 o) (c.taskStep P 0 t o)

theorem next_updateStep {l : Label} (hone : c.tasks.length ≤ 1) (h : c.next P l = some c') :
    UpdateStep P c l c' := by
  obtain ⟨-, hstep⟩ := next_step h
  cases hstep with
  | event o e =>
    have hvars := handler_updateVars P c o e
    rcases hstart : startedBy P c e with _ | pair <;> rw [hstart] at hvars
    · refine .quiet hvars ?_ (by simp)
      intro o' e' hl
      cases hl
      exact hstart
    · exact .start hstart hvars
  | @task i t o htask hfits =>
    obtain ⟨t', htasks⟩ : ∃ t', c.tasks = [t'] := by
      rcases htasks : c.tasks with _ | ⟨t', _ | ⟨t'', rest⟩⟩
      · simp [htasks] at htask
      · exact ⟨t', rfl⟩
      · simp [htasks] at hone
    rw [htasks, List.getElem?_singleton] at htask
    split_ifs at htask with hi
    cases htask
    subst hi
    exact .task htasks hfits
  | telemetry => exact .quiet (telemetry_updateVars c) (by simp) (by simp)

/-- The task `t` goes on as `t'`. -/
structure Continues (c c' : Client) (t t' : Task) : Prop where
  tasks : c'.tasks = [t']
  busy : c'.otaInProgress = c.otaInProgress
  arg : t'.arg = t.arg
  begun : t'.pc ≠ .httpInit
  split : t.pc = .httpInit → t'.url = t.arg.takeWhile (· ≠ 10) ∧
    t'.newVersion = (t.arg.drop ((t.arg.takeWhile (· ≠ 10)).length + 1)).take 31
  pair : t.pc ≠ .httpInit → t'.url = t.url ∧ t'.newVersion = t.newVersion

/-- A step of the task leaves it alive, or is its end. -/
theorem taskStep_continues (htasks : c.tasks = [t]) (o : TaskOutcomes) :
    (∃ t', Continues c (c.taskStep P 0 t o) t t') ∨
      t.pc = .done ∧ (c.taskStep P 0 t o).tasks = [] ∧
        (c.taskStep P 0 t o).otaInProgress = false := by
  have hset : ∀ (d : Client) (t' : Task),
      (d.tasks = c.tasks ∧ d.otaInProgress = c.otaInProgress) →
      (t'.arg = t.arg ∧ t'.pc ≠ .httpInit) →
      (t.pc = .httpInit → t'.url = t.arg.takeWhile (· ≠ 10) ∧
        t'.newVersion = (t.arg.drop ((t.arg.takeWhile (· ≠ 10)).length + 1)).take 31) →
      (t.pc ≠ .httpInit → t'.url = t.url ∧ t'.newVersion = t.newVersion) →
      ∃ next, Continues c (d.setTask 0 t') t next := fun d t' hd ht' hsplit hpair =>
    ⟨t', setTask_tasks (hd.1.trans htasks) t', hd.2, ht'.1, ht'.2, hsplit, hpair⟩
  unfold taskStep
  cases hpc : t.pc <;> simp only
  case done => exact Or.inr ⟨trivial, by simp [htasks], trivial⟩
  all_goals refine Or.inl ?_
  case restart => exact ⟨t, htasks, rfl, rfl, by simp [hpc], by simp [hpc], by simp⟩
  case read =>
    split
    · apply hset <;> simp [hpc]
    · apply hset <;> simp [hpc]
    · split_ifs
      · exact ⟨t, htasks, rfl, rfl, by simp [hpc], by simp [hpc], by simp⟩
      · apply hset <;> simp [hpc]
  case savePending => apply hset <;> simp [hpc, reportFwState, emit]
  all_goals split_ifs <;> apply hset <;> simp [hpc, reportFwState, emit]

/-! ## The flag -/

/-- At most one task is alive, and the flag is set exactly while one is. -/
def SingleFlight (c : Client) : Prop :=
  c.tasks.length ≤ 1 ∧ (c.otaInProgress = true ↔ c.tasks ≠ [])

instance (c : Client) : Decidable (SingleFlight c) := by
  unfold SingleFlight
  infer_instance

/-- A step that asks for a task gets one. -/
def Created (P : Platform) (c : Client) : Label → Prop
  | .event o e => (startedBy P c e).isSome → o.taskCreate = true
  | _ => True

/-- The flag is set, and no task will clear it. -/
def Stuck (c : Client) : Prop := c.otaInProgress = true ∧ c.tasks = []

theorem Stuck.not_singleFlight (h : Stuck c) : ¬ SingleFlight c :=
  fun hsingle => hsingle.2.mp h.1 h.2

/-- With the flag set, no event starts an update. -/
theorem startedBy_eq_none (h : c.otaInProgress = true) (e : Event) : startedBy P c e = none := by
  rw [startedBy, Option.filter_eq_none_iff]
  intro pair _
  simp [accepts, h]

theorem idle_of_startedBy {e : Event} {pair : Bytes × Bytes} (h : startedBy P c e = some pair) :
    c.otaInProgress = false := by
  rw [← Bool.not_eq_true]
  intro hbusy
  rw [startedBy_eq_none hbusy] at h
  cases h

theorem noTask_of_startedBy {e : Event} {pair : Bytes × Bytes}
    (hbusy : c.tasks ≠ [] → c.otaInProgress = true) (h : startedBy P c e = some pair) :
    c.tasks = [] := by
  by_contra hlive
  rw [idle_of_startedBy h] at hbusy
  exact absurd (hbusy hlive) (by decide)

/-- The tasks after `trigger_ota` got to `xTaskCreate`. -/
theorem tasks_of_start {created : Bool} {arg : Bytes} (hnone : c.tasks = [])
    (hvars : c'.updateVars = c.updateVars.start created arg) :
    c'.tasks = if created then [newTask arg c.args.alloc.last] else [] := by
  have htasks := congrArg UpdateVars.tasks hvars
  simpa [UpdateVars.start, updateVars, hnone] using htasks

theorem SingleFlight.of_vars (h : SingleFlight c) (hvars : c'.updateVars = c.updateVars) :
    SingleFlight c' := by
  have htasks : c'.tasks = c.tasks := congrArg UpdateVars.tasks hvars
  have hbusy : c'.otaInProgress = c.otaInProgress := congrArg UpdateVars.otaInProgress hvars
  unfold SingleFlight
  rw [htasks, hbusy]
  exact h

/-- A step that creates what it asks for keeps the flag exact. -/
theorem singleFlight_next {l : Label} (h : SingleFlight c) (hok : Created P c l)
    (hnext : c.next P l = some c') : SingleFlight c' := by
  cases next_updateStep h.1 hnext with
  | quiet hvars _ _ => exact h.of_vars hvars
  | @start o e c' pair hstart hvars =>
    have hcreate : o.taskCreate = true := hok (by simp [hstart])
    have htasks := tasks_of_start (noTask_of_startedBy h.2.mpr hstart) hvars
    rw [hcreate, if_pos rfl] at htasks
    have hbusy : c'.otaInProgress = true := congrArg UpdateVars.otaInProgress hvars
    exact ⟨by simp [htasks], by simp [hbusy, htasks]⟩
  | @task t o htasks hfits =>
    rcases taskStep_continues (P := P) htasks o with ⟨t', hgoes⟩ | ⟨-, hnone, hidle⟩
    · have hbusy : c.otaInProgress = true := h.2.mpr (by simp [htasks])
      exact ⟨by simp [hgoes.tasks], by simp [hgoes.busy, hbusy, hgoes.tasks]⟩
    · exact ⟨by simp [hnone], by simp [hnone, hidle]⟩

/-- A task that was not created leaves the flag set. -/
theorem stuck_of_not_created {l : Label} (h : SingleFlight c) (hok : ¬ Created P c l)
    (hnext : c.next P l = some c') : Stuck c' := by
  cases next_updateStep h.1 hnext with
  | quiet hvars hstart htask =>
    cases l with
    | event o e => exact absurd (by simp [Created, hstart o e rfl]) hok
    | task i o => exact absurd rfl (htask i o)
    | telemetry => exact absurd trivial hok
  | @start o e c' pair hstart hvars =>
    have hfail : o.taskCreate = false := by
      rw [← Bool.not_eq_true]
      exact fun hcreate => hok fun _ => hcreate
    have htasks := tasks_of_start (noTask_of_startedBy h.2.mpr hstart) hvars
    rw [hfail, if_neg Bool.false_ne_true] at htasks
    exact ⟨congrArg UpdateVars.otaInProgress hvars, htasks⟩
  | task => exact absurd trivial hok

/-- Once stuck, the client stays stuck until the next boot. -/
theorem stuck_next {l : Label} (h : Stuck c) (hnext : c.next P l = some c') : Stuck c' := by
  cases next_updateStep (by simp [h.2]) hnext with
  | quiet hvars _ _ =>
    exact ⟨(congrArg UpdateVars.otaInProgress hvars).trans h.1,
      (congrArg UpdateVars.tasks hvars).trans h.2⟩
  | start hstart _ =>
    rw [startedBy_eq_none h.1] at hstart
    cases hstart
  | task htasks _ =>
    rw [h.2] at htasks
    cases htasks

theorem singleFlight_fresh (h : (client P).init c) : SingleFlight c := by
  obtain ⟨build, slot, deviceId, journal, rfl⟩ := h
  exact ⟨Nat.zero_le 1, by simp [Client.fresh]⟩

/-- After any run, the flag is exact if and only if every task that was asked
for in it was created. -/
theorem singleFlight_iff {c₀ : Client} {ls : List Label} (hinit : (client P).init c₀)
    (h : (client P).Run Machine.always c₀ ls c) :
    SingleFlight c ↔ (client P).Run (Created P) c₀ ls c := by
  have hrun : (SingleFlight c ∧ (client P).Run (Created P) c₀ ls c) ∨ Stuck c := by
    induction h with
    | nil => exact Or.inl ⟨singleFlight_fresh hinit, .nil _⟩
    | @snoc c c' ls l _ _ hnext ih =>
      rcases ih with ⟨hsingle, hrun⟩ | hstuck
      · by_cases hok : Created P c l
        · exact Or.inl ⟨singleFlight_next hsingle hok hnext, .snoc hrun hok hnext⟩
        · exact Or.inr (stuck_of_not_created hsingle hok hnext)
      · exact Or.inr (stuck_next hstuck hnext)
  constructor
  · intro hsingle
    rcases hrun with ⟨-, hrun⟩ | hstuck
    · exact hrun
    · exact absurd hsingle hstuck.not_singleFlight
  · intro hcreated
    refine hcreated.invariant (I := fun _ c => SingleFlight c) (singleFlight_fresh hinit) ?_
    exact fun _ _ _ _ hsingle hok hnext => singleFlight_next hsingle hok hnext

/-- The offer of a version, and a first step of its task. -/
def offeredRun : List Label :=
  [patchEvent bothText, .task 0 ⟨true, true, true, none, true, true, true, true⟩]

/-- The flag is exact while a task downloads. -/
theorem singleFlight_downloading :
    ∃ c, (client (textPlatform twinDocs)).exec sampleClient offeredRun = some c ∧
      c.tasks ≠ [] ∧ SingleFlight c := by
  have hexec : ((client (textPlatform twinDocs)).exec sampleClient offeredRun).any
      (fun c => decide (c.tasks ≠ [])) = true := by decide +kernel
  obtain ⟨c, hc, hlive⟩ := Machine.exists_of_any hexec
  have hrun := Machine.Run.exec hc
  refine ⟨c, hc, hlive, (singleFlight_iff ⟨_, _, _, _, rfl⟩ hrun).mpr ?_⟩
  refine hrun.imp fun s l hl _ => ?_
  rcases List.mem_pair.mp hl with rfl | rfl
  · exact fun _ => rfl
  · exact trivial

/-- When the task is not created, the flag is set and no task is alive. -/
theorem singleFlight_broken :
    ¬ ∀ (P : Platform) (c : Client), (client P).Reachable c → SingleFlight c := by
  intro h
  have hexec : ((client (textPlatform twinDocs)).exec sampleClient
      [.event { sampleOutcomes with taskCreate := false } (.data patchTopic bothText)]).any
      (fun c => decide (¬ SingleFlight c)) = true := by decide +kernel
  obtain ⟨c, hc, hbroken⟩ := Machine.exists_of_any hexec
  exact hbroken (h _ c (Machine.Reachable.exec (.init ⟨_, _, _, _, rfl⟩) hc))

/-! ## The argument -/

/-- The task is alive. -/
def Alive (c : Client) (_ : Label) : Prop := c.tasks ≠ []

/-- Once `stored` was left in `pending_fw` and is marked as failed, an offer of
`version` starts nothing. -/
def RefusedAfter (stored version : Bytes) : Prop :=
  ∀ (j : Log) (current : Bytes), j.disk.nvs .pendingFw = some stored → stored ≠ current →
    ∀ (d : Client) (o : Outcomes) (url : Bytes), d.otaInProgress = false →
      d.journal.disk.nvs .failedFw = (reconcilePendingOta current j).disk.nvs .failedFw →
      (d.triggerOta o url version).updateVars = d.updateVars

/-- From `c` on, the task that is alive there downloads from `url`, stores
`version`, and so makes a later offer of `version` refused. -/
structure ArgumentKept (P : Platform) (c : Client) (url version : Bytes) : Prop where
  pair : ∀ ls d t, (client P).Run Alive c ls d → t ∈ d.tasks → t.pc ≠ .httpInit →
    t.url = url ∧ t.newVersion = version
  stored : ∀ ls d l d' x, (client P).Run Alive c ls d → d.tasks ≠ [] → d.next P l = some d' →
    .nvsSet .pendingFw x ∈ d.journal.since d'.journal → x = version ∧ RefusedAfter x version

/-- At most one task is alive, and the flag is set while one is. -/
theorem busy_of_reachable (h : (client P).Reachable c) :
    c.tasks.length ≤ 1 ∧ (c.tasks ≠ [] → c.otaInProgress = true) := by
  have hcases : SingleFlight c ∨ Stuck c := by
    refine h.invariant (I := fun c => SingleFlight c ∨ Stuck c)
      (fun _ hs => Or.inl (singleFlight_fresh hs)) ?_
    intro s l s' _ hs _ hnext
    rcases hs with hsingle | hstuck
    · by_cases hok : Created P s l
      · exact Or.inl (singleFlight_next hsingle hok hnext)
      · exact Or.inr (stuck_of_not_created hsingle hok hnext)
    · exact Or.inr (stuck_next hstuck hnext)
  rcases hcases with hsingle | hstuck
  · exact ⟨hsingle.1, hsingle.2.mpr⟩
  · exact ⟨by simp [hstuck.2], fun _ => hstuck.1⟩

/-- The live task was started for the pair, and splits it at the first
newline. -/
structure Updating (url version : Bytes) (c : Client) (t : Task) : Prop where
  tasks : c.tasks = [t]
  busy : c.otaInProgress = true
  arg : t.arg = packArg url version
  split : t.pc ≠ .httpInit → t.url = t.arg.takeWhile (· ≠ 10) ∧
    t.newVersion = (t.arg.drop ((t.arg.takeWhile (· ≠ 10)).length + 1)).take 31

/-- A step of the client leaves the task of the pair alive, or is its end. -/
theorem updating_next {l : Label} (h : Updating url version c t) (hnext : c.next P l = some c') :
    c'.tasks = [] ∨ ∃ t', Updating url version c' t' := by
  cases next_updateStep (by simp [h.tasks]) hnext with
  | quiet hvars _ _ =>
    exact Or.inr ⟨t, (congrArg UpdateVars.tasks hvars).trans h.tasks,
      (congrArg UpdateVars.otaInProgress hvars).trans h.busy, h.arg, h.split⟩
  | start hstart _ =>
    rw [startedBy_eq_none h.busy] at hstart
    cases hstart
  | @task t' o htasks _ =>
    obtain rfl : t = t' := by simpa [h.tasks] using htasks
    rcases taskStep_continues (P := P) htasks o with ⟨t', hgoes⟩ | ⟨-, hnone, -⟩
    · refine Or.inr ⟨t', hgoes.tasks, hgoes.busy.trans h.busy, hgoes.arg.trans h.arg, fun _ => ?_⟩
      rw [hgoes.arg]
      by_cases hpc : t.pc = .httpInit
      · exact hgoes.split hpc
      · rw [(hgoes.pair hpc).1, (hgoes.pair hpc).2]
        exact h.split hpc
    · exact Or.inl hnone

theorem updating_run {ls : List Label} {d : Client} (h : Updating url version c t)
    (hrun : (client P).Run Alive c ls d) : d.tasks = [] ∨ ∃ t', Updating url version d t' := by
  refine hrun.invariant (I := fun _ d => d.tasks = [] ∨ ∃ t', Updating url version d t')
    (Or.inr ⟨t, h⟩) ?_
  rintro - s l s' hs halive hnext
  rcases hs with hnone | ⟨t', ht'⟩
  · exact absurd hnone halive
  · exact updating_next ht' hnext

/-- Only the step that saves it writes `pending_fw`. -/
theorem pendingFw_stored {l : Label} {x : Bytes} (htasks : c.tasks = [t])
    (hnext : c.next P l = some c') (hx : .nvsSet .pendingFw x ∈ c.journal.since c'.journal) :
    t.pc = .savePending ∧ x = t.newVersion := by
  have htalked : ∀ {d : Client} {es : List Effect}, Talked c d es →
      .nvsSet .pendingFw x ∉ c.journal.since d.journal := by
    intro d es h hmem
    rw [h.journal, Journal.since_writes] at hmem
    exact h.talks _ hmem
  obtain ⟨-, hstep⟩ := next_step hnext
  cases hstep with
  | event o e =>
    obtain ⟨es, h, -⟩ := handler_talked P c o e
    exact absurd hx (htalked h)
  | telemetry =>
    obtain ⟨es, h, -⟩ := telemetry_talked c
    exact absurd hx (htalked h)
  | @task i t' o htask _ =>
    rw [htasks, List.getElem?_singleton] at htask
    split_ifs at htask with hi
    cases htask
    subst hi
    have hwrote : ∀ (es : List Effect) {d : Client}, d.journal = c.journal.writes es →
        .nvsSet .pendingFw x ∈ c.journal.since d.journal → .nvsSet .pendingFw x ∈ es := by
      intro es d h hmem
      rwa [h, Journal.since_writes] at hmem
    have hmove := taskStep_move P c t o
    generalize c.taskStep P 0 t o = c' at hmove hx
    cases hmove with
    | goesOn h _ _ =>
      have hsilent := htalked h
      exact absurd hx hsilent
    | begins _ =>
      have hmem := hwrote [.otaBegin _] rfl hx
      simp at hmem
    | saves hpc =>
      have hmem := hwrote [.nvsSet .pendingFw t.newVersion,
        .publish (reportedTopic (c.twinRequestId + 1)) (fwStatePayload .downloading)] rfl hx
      simp only [List.mem_cons, Effect.nvsSet.injEq, true_and, reduceCtorEq, List.not_mem_nil,
        or_false] at hmem
      exact ⟨hpc, hmem⟩
    | writes _ =>
      have hmem := hwrote [.otaWrite _ _] rfl hx
      simp at hmem
    | @abandons d _ hjournal _ _ =>
      have hmem := hwrote [.publish (reportedTopic (d.twinRequestId + 1))
        (fwStatePayload .failed), .nvsErase .pendingFw] (by rw [← hjournal]; rfl) hx
      simp at hmem
    | fails _ =>
      have hmem := hwrote [.setBoot _ _ false, .publish _ _, .nvsErase .pendingFw] rfl hx
      simp at hmem
    | installs _ =>
      have hmem := hwrote [.setBoot _ _ true, .publish _ _] rfl hx
      simp at hmem
    | restarts _ =>
      have hmem := hwrote [] rfl hx
      simp at hmem
    | ends _ =>
      have hmem := hwrote [] rfl hx
      simp at hmem

/-- A version that fits the buffers is refused after it failed. -/
theorem refusedAfter (h : version.length ≤ 31) : RefusedAfter version version := by
  intro j current hpending hne d o url _ hfailed
  have hload : loadNvsStr j.disk.nvs .pendingFw 32 = some version :=
    loadNvsStr_eq_some.mpr ⟨hpending, by omega⟩
  have hmarked : (reconcilePendingOta current j).disk.nvs .failedFw = some version := by
    simp [reconcilePendingOta, hload, hne, Flash.apply]
  have hrefused : loadNvsStr d.journal.disk.nvs .failedFw 32 = some version :=
    loadNvsStr_eq_some.mpr ⟨hfailed.trans hmarked, by omega⟩
  rw [triggerOta_updateVars, if_neg]
  simp [accepts, hrefused]

theorem applyDesiredProperties_halt (c : Client) (o : Outcomes) (desired : CJson) :
    (c.applyDesiredProperties o desired).halt = c.halt := by
  have htrigger : ∀ url version, (c.triggerOta o url version).halt = c.halt := by
    intro url version
    simp only [triggerOta]
    split_ifs <;> rfl
  unfold applyDesiredProperties
  rcases fwOffer c.build desired with _ | pair <;> rcases newInterval desired with _ | interval
  · rfl
  · rfl
  · exact htrigger pair.1 pair.2
  · exact htrigger pair.1 pair.2

/-- The task that an event starts. -/
theorem updating_start {o : Outcomes} {e : Event} (hc : (client P).Reachable c)
    (hstart : startedBy P c e = some (url, version)) (hcreate : o.taskCreate = true) :
    Updating url version (hubMqttEventHandler P c o e)
      (newTask (packArg url version) c.args.alloc.last) := by
  have hvars := handler_updateVars P c o e
  rw [hstart, Option.elim_some] at hvars
  have htasks := tasks_of_start (noTask_of_startedBy (busy_of_reachable hc).2 hstart) hvars
  rw [hcreate, if_pos rfl] at htasks
  exact ⟨htasks, congrArg UpdateVars.otaInProgress hvars, rfl, fun hpc => absurd rfl hpc⟩

theorem startedBy_halt {e : Event} {pair : Bytes × Bytes} (o : Outcomes)
    (hstart : startedBy P c e = some pair) : (hubMqttEventHandler P c o e).halt = c.halt := by
  have hsome : twinDoc P e ≠ none := by
    intro hdoc
    simp [startedBy, hdoc] at hstart
  have hmove := handler_cases P c o e
  generalize hubMqttEventHandler P c o e = d at hmove ⊢
  cases hmove with
  | connected hdoc | disconnected hdoc | method hdoc | c2d hdoc | ignored hdoc =>
    exact absurd hdoc hsome
  | twin hdoc => exact applyDesiredProperties_halt c o _

/-- The first step of a task shows what became of its argument. -/
theorem pair_of_argumentKept (h : Updating url version c t) (hhalt : c.halt = none)
    (hpc : t.pc = .httpInit) (hkept : ArgumentKept P c url version) :
    url = t.arg.takeWhile (· ≠ 10) ∧
      version = (t.arg.drop ((t.arg.takeWhile (· ≠ 10)).length + 1)).take 31 := by
  let o : TaskOutcomes := ⟨true, true, true, none, true, true, true, true⟩
  have hfits : o.Fits := by
    intro data hdata
    cases hdata
  have hstep : c.next P (.task 0 o) = some (c.taskStep P 0 t o) := by
    simp [Client.next, hhalt, h.tasks, hfits]
  have halive : c.tasks ≠ [] := by simp [h.tasks]
  rcases taskStep_continues (P := P) h.tasks o with ⟨t', hgoes⟩ | ⟨hdone, -⟩
  · have hrun : (client P).Run Alive c [.task 0 o] _ := Machine.Run.single halive hstep
    obtain ⟨hurl, hversion⟩ := hkept.pair _ _ t' hrun (by simp [hgoes.tasks]) hgoes.begun
    obtain ⟨hurl', hversion'⟩ := hgoes.split hpc
    exact ⟨hurl.symm.trans hurl', hversion.symm.trans hversion'⟩
  · rw [hpc] at hdone
    cases hdone

/-- A task keeps a url of one line and a version that fits. -/
theorem argumentKept_of_fits (h : Updating url version c t) (hurl : 10 ∉ url)
    (hlen : version.length ≤ 31) : ArgumentKept P c url version := by
  obtain ⟨htake, hdrop⟩ := packArg_split (v := version) hurl
  have hpair : ∀ {d : Client} {t : Task}, Updating url version d t → t.pc ≠ .httpInit →
      t.url = url ∧ t.newVersion = version := by
    intro d t h hpc
    obtain ⟨hsplit, hsplit'⟩ := h.split hpc
    rw [h.arg, htake] at hsplit
    rw [h.arg, htake, hdrop, List.take_of_length_le hlen] at hsplit'
    exact ⟨hsplit, hsplit'⟩
  refine ⟨fun ls d t hrun ht hpc => ?_, fun ls d l d' x hrun hlive hnext hx => ?_⟩
  · rcases updating_run h hrun with hend | ⟨t', ht'⟩
    · rw [hend] at ht
      exact absurd ht List.not_mem_nil
    · rw [ht'.tasks, List.mem_singleton] at ht
      exact hpair (ht ▸ ht') hpc
  · rcases updating_run h hrun with hend | ⟨t', ht'⟩
    · exact absurd hend hlive
    · obtain ⟨hpc, rfl⟩ := pendingFw_stored ht'.tasks hnext hx
      rw [(hpair ht' (by simp [hpc])).2]
      exact ⟨rfl, refusedAfter hlen⟩

/-- A task works with the pair that it was started for if and only if the url
has no newline and the version fits 31 bytes. -/
theorem otaArgument_kept_iff {o : Outcomes} {e : Event} (hc : (client P).Reachable c)
    (hstart : startedBy P c e = some (url, version)) (hcreate : o.taskCreate = true)
    (hnext : c.next P (.event o e) = some c') :
    ArgumentKept P c' url version ↔ 10 ∉ url ∧ version.length ≤ 31 := by
  obtain ⟨hhalt, hstep⟩ := next_step hnext
  cases hstep
  have hupdating := updating_start hc hstart hcreate
  constructor
  · intro hkept
    obtain ⟨hurl, hversion⟩ :=
      pair_of_argumentKept hupdating ((startedBy_halt o hstart).trans hhalt) rfl hkept
    constructor
    · intro hmem
      rw [hurl] at hmem
      exact absurd (List.mem_takeWhile_imp hmem) (by decide)
    · rw [hversion, List.length_take]
      omega
  · intro ⟨hurl, hlen⟩
    exact argumentKept_of_fits hupdating hurl hlen

/-- A short version and a url of one line reach the task as they are. -/
theorem otaArgument_kept_both : ArgumentKept (textPlatform twinDocs) (patched sampleClient bothText)
    fwUrl (ascii "1.1") := by
  have hnext : sampleClient.next (textPlatform twinDocs) (.event sampleOutcomes
      (.data patchTopic bothText)) = some (patched sampleClient bothText) :=
    patched_next (c := sampleClient) rfl bothText
  exact (otaArgument_kept_iff (.init ⟨_, _, _, _, rfl⟩) (by decide +kernel) rfl hnext).mpr
    ⟨by decide +kernel, by decide⟩

/-- A version of 35 bytes. -/
def longVersion : Bytes := ascii "1.1-vineyard-sensors-2026-10-09-rc1"

def longVersionText : Bytes :=
  ascii "\x7b\"fw_version\":\"" ++ longVersion ++ ascii "\",\"fw_url\":\"" ++ fwUrl ++
    ascii "\"\x7d"

/-- A platform whose parser knows the offer of the long version. -/
def longVersionPlatform : Platform :=
  docPlatform longVersionText [(ascii "fw_version", .string longVersion), urlMember]

/-- The task of the long version works with another one. -/
theorem otaArgument_cut :
    ¬ ∀ (P : Platform) (c c' : Client) (o : Outcomes) (e : Event) (url version : Bytes),
      (client P).Reachable c → startedBy P c e = some (url, version) → o.taskCreate = true →
      c.next P (.event o e) = some c' → ArgumentKept P c' url version := by
  intro h
  have hexec : ((client longVersionPlatform).exec sampleClient [patchEvent longVersionText]).any
      (fun c' => decide (c'.tasks ≠ []) && ((client longVersionPlatform).exec c'
        [.task 0 ⟨true, true, true, none, true, true, true, true⟩]).any fun d =>
          d.tasks.any fun t => decide (t.pc ≠ .httpInit ∧ t.newVersion ≠ longVersion)) = true := by
    decide +kernel
  obtain ⟨c', hc', hcut⟩ := (Option.any_eq_true _ _).mp hexec
  rw [Bool.and_eq_true, decide_eq_true_eq] at hcut
  obtain ⟨halive, hcut⟩ := hcut
  obtain ⟨d, hd, hcut⟩ := (Option.any_eq_true _ _).mp hcut
  obtain ⟨t, ht, hcut⟩ := List.any_eq_true.mp hcut
  obtain ⟨hpc, hversion⟩ := of_decide_eq_true hcut
  obtain ⟨c'', hnext, hnil⟩ := Option.bind_eq_some_iff.mp hc'
  cases hnil
  obtain ⟨d', hnext', hnil'⟩ := Option.bind_eq_some_iff.mp hd
  cases hnil'
  have hkept := h longVersionPlatform sampleClient c' sampleOutcomes _ fwUrl longVersion
    (.init ⟨_, _, _, _, rfl⟩) (by decide +kernel) rfl hnext
  have hrun : (client longVersionPlatform).Run Alive c' _ d := .single halive hnext'
  exact hversion (hkept.pair _ d t hrun ht hpc).2

end Winegrid.Azure
