import Winegrid.Azure.Twin
import Winegrid.Esp.Laws

/-!
# An Azure device over many boots

The start-up of `esp-idf-azure-dps/main/app_main.c`: the hub and the device id
come from NVS, or from a DPS registration that stores them there.

* `taskStep_move`: what a step of `ota_task` can do.
* `follows`: the firmware follows the `pending_fw` protocol.  At most one
  `ota_task` is alive, and how far it is says how far the attempt is.
* `offers`: a client that is offered one version attempts and installs only
  that one.
-/

namespace Winegrid.Azure

open Esp Client

variable {P : Platform} {c c' : Client} {flow : Flow} {flash : Flash} {t : Task}

/-- What the start-up answers: the hub and the device id of a registration, if
it succeeded, and whether the SAS token was built. -/
structure StartOutcomes where
  registered : Option (Bytes × Bytes)
  sasToken : Bool
  deriving DecidableEq

/-- `app_main` from `sync_time` to the SAS token of `connect_to_hub`. -/
def startup (o : StartOutcomes) (nvs : Nvs) : List Effect × Bool :=
  match loadNvsStr nvs .assignedHub 128, loadNvsStr nvs .deviceId 128 with
  | some _, some _ => ([.call .syncTime], o.sasToken)
  | _, _ =>
    match o.registered with
    | none => ([.call .syncTime, .call .provisioning], false)
    | some (hub, deviceId) =>
      ([ .call .syncTime, .call .provisioning, .nvsSet .assignedHub (strncpy 128 hub)
       , .nvsSet .deviceId (strncpy 128 deviceId) ], o.sasToken)

/-- The device id of `connect_to_hub` is the one in NVS. -/
def firmware (P : Platform) : Firmware Client Label StartOutcomes where
  startup := startup
  fresh build slot j := Client.fresh build slot ((j.disk.nvs .deviceId).getD []) j
  next := Client.next P
  journal := Client.journal

/-! ## Events -/

/-- The client `c'` after a step of `c` that only talked. -/
structure Talked (c c' : Client) (es : List Effect) : Prop where
  talks : ∀ e ∈ es, Talks e
  journal : c'.journal = c.journal.writes es
  slot : c'.slot = c.slot

/-- No task was created. -/
structure SameTasks (c c' : Client) : Prop where
  tasks : c'.tasks = c.tasks
  busy : c.otaInProgress = true → c'.otaInProgress = true

/-- A task was created for the pair, which had not failed. -/
structure NewTask (c c' : Client) (url newVersion : Bytes) : Prop where
  idle : c.otaInProgress = false
  failed : c.journal.disk.failed ≠ some newVersion
  tasks : ∃ id, c'.tasks = c.tasks ++ [newTask (packArg url newVersion) id]
  busy : c'.otaInProgress = true

theorem Talked.trans {d : Client} {es fs : List Effect} (h : Talked c c' es) (h' : Talked c' d fs) :
    Talked c d (es ++ fs) := by
  refine ⟨fun e he => ?_, ?_, h'.slot.trans h.slot⟩
  · rcases List.mem_append.mp he with he | he
    · exact h.talks e he
    · exact h'.talks e he
  · rw [h'.journal, h.journal, Journal.writes_append]

theorem triggerOta_talked (c : Client) (o : Outcomes) (url newVersion : Bytes) :
    ∃ es, Talked c (c.triggerOta o url newVersion) es ∧
      (SameTasks c (c.triggerOta o url newVersion) ∨
        NewTask c (c.triggerOta o url newVersion) url newVersion) := by
  simp only [triggerOta]
  split_ifs with hbusy hfailed htask
  · exact ⟨[], ⟨by simp, rfl, rfl⟩, Or.inl ⟨rfl, id⟩⟩
  · exact ⟨[.publish _ _], ⟨by simp [Talks], rfl, rfl⟩, Or.inl ⟨rfl, id⟩⟩
  · exact ⟨[], ⟨by simp, rfl, rfl⟩,
      Or.inr ⟨by simpa using hbusy, hfailed, ⟨_, rfl⟩, rfl⟩⟩
  · exact ⟨[], ⟨by simp, rfl, rfl⟩, Or.inl ⟨rfl, fun _ => rfl⟩⟩

/-- What an event does to the tasks: nothing, or the document it carries
starts one. -/
def Spawns (P : Platform) (c : Client) (e : Event) (c' : Client) : Prop :=
  SameTasks c c' ∨ ∃ desired url newVersion, twinDoc P e = some desired ∧
    fwOffer c.build desired = some (url, newVersion) ∧ NewTask c c' url newVersion

/-- The interval of a document only makes the client talk. -/
theorem reported_talked {d : Client} {e : Event} {es : List Effect} (htalked : Talked c d es)
    (hspawns : Spawns P c e d) (interval : Int32) (o : Outcomes) :
    ∃ es, Talked c ({ d with publishIntervalMs := interval }.reportTwinProperties o) es ∧
      Spawns P c e ({ d with publishIntervalMs := interval }.reportTwinProperties o) := by
  have hreported : Talked d ({ d with publishIntervalMs := interval }.reportTwinProperties o)
      [.publish _ _] := ⟨by simp [Talks], rfl, rfl⟩
  refine ⟨_, htalked.trans hreported, ?_⟩
  rcases hspawns with hsame | ⟨desired, url, version, hdoc, hoffer, hnew⟩
  · exact Or.inl ⟨hsame.tasks, hsame.busy⟩
  · exact Or.inr ⟨desired, url, version, hdoc, hoffer,
      ⟨hnew.idle, hnew.failed, hnew.tasks, hnew.busy⟩⟩

theorem applyDesiredProperties_talked {e : Event} {desired : CJson}
    (hdoc : twinDoc P e = some desired) (o : Outcomes) :
    ∃ es, Talked c (c.applyDesiredProperties o desired) es ∧
      Spawns P c e (c.applyDesiredProperties o desired) := by
  rcases hoffer : fwOffer c.build desired with _ | ⟨url, version⟩
  · have hsilent : Talked c c [] := ⟨by simp, rfl, rfl⟩
    have hsame : Spawns P c e c := Or.inl ⟨rfl, id⟩
    rcases hinterval : newInterval desired with _ | interval <;>
      simp only [applyDesiredProperties, hoffer, hinterval]
    · exact ⟨[], hsilent, hsame⟩
    · exact reported_talked hsilent hsame interval o
  · obtain ⟨es, htalked, htasks⟩ := triggerOta_talked c o url version
    have hspawns : Spawns P c e (c.triggerOta o url version) := by
      rcases htasks with hsame | hnew
      · exact Or.inl hsame
      · exact Or.inr ⟨desired, url, version, hdoc, hoffer, hnew⟩
    rcases hinterval : newInterval desired with _ | interval <;>
      simp only [applyDesiredProperties, hoffer, hinterval]
    · exact ⟨es, htalked, hspawns⟩
    · exact reported_talked htalked hspawns interval o

/-- An event only talks, and may start a task. -/
theorem handler_talked (P : Platform) (c : Client) (o : Outcomes) (e : Event) :
    ∃ es, Talked c (hubMqttEventHandler P c o e) es ∧
      Spawns P c e (hubMqttEventHandler P c o e) := by
  have hnone : ∀ d : Client, d.journal = c.journal → d.slot = c.slot → SameTasks c d →
      ∃ es, Talked c d es ∧ Spawns P c e d :=
    fun d hjournal hslot hsame => ⟨[], ⟨by simp, hjournal, hslot⟩, Or.inl hsame⟩
  have hmove := handler_cases P c o e
  generalize hubMqttEventHandler P c o e = d at hmove ⊢
  cases hmove with
  | connected _ =>
    refine ⟨[ .subscribe directMethodTopicFilter, .subscribe twinResTopicFilter
            , .subscribe twinDesiredTopicFilter, .subscribe _, .publish _ _, .publish _ _],
      ⟨by simp [Talks], rfl, rfl⟩, Or.inl ⟨rfl, id⟩⟩
  | disconnected _ | c2d _ | ignored _ => exact hnone _ rfl rfl ⟨rfl, id⟩
  | method _ topic =>
    simp only [handleDirectMethodRequest]
    split
    · exact hnone _ rfl rfl ⟨rfl, id⟩
    · split_ifs <;>
        exact ⟨[.publish _ _], ⟨by simp [Talks], rfl, rfl⟩, Or.inl ⟨rfl, id⟩⟩
  | twin hdoc => exact applyDesiredProperties_talked hdoc o

/-- A turn of `telemetry_task` only talks. -/
theorem telemetry_talked (c : Client) :
    ∃ es, Talked c c.telemetry es ∧ SameTasks c c.telemetry := by
  unfold telemetry
  split_ifs
  · exact ⟨[.publish _ _], ⟨by simp [Talks], rfl, rfl⟩, rfl, id⟩
  · exact ⟨[], ⟨by simp, rfl, rfl⟩, rfl, id⟩

/-! ## The update task -/

/-- How far the attempt of a task is. -/
@[simp] def TaskPc.progress : TaskPc → Flow
  | read | cleanup _ | otaEnd | setBoot => .attempting
  | restart => .installed
  | httpInit | httpOpen | otaBegin | savePending | done => .idle

/-- The task has its partition. -/
@[simp] def TaskPc.Writes : TaskPc → Prop
  | savePending | read | cleanup _ | otaEnd | setBoot => True
  | httpInit | httpOpen | otaBegin | restart | done => False

/-- The slot of the task holds a download that ended well. -/
@[simp] def TaskPc.Complete (pc : TaskPc) : Prop :=
  pc = .cleanup true ∨ pc = .otaEnd ∨ pc = .setBoot

theorem TaskPc.Complete.writes {pc : TaskPc} (h : pc.Complete) : pc.Writes := by
  rcases h with rfl | rfl | rfl <;> trivial

/-- What a task keeps when it goes on. -/
structure GoesOn (o : TaskOutcomes) (t t' : Task) : Prop where
  progress : t.pc.progress = t'.pc.progress
  partition : t'.pc.Writes → t.pc.Writes ∧ t'.updatePartition = t.updatePartition
  arg : t'.arg = t.arg
  split : t.pc = .httpInit →
    t'.newVersion = (t.arg.drop ((t.arg.takeWhile (· ≠ 10)).length + 1)).take 31
  version : t.pc ≠ .httpInit → t'.newVersion = t.newVersion
  complete : t'.pc.Complete → t.pc.Complete ∨ t.pc = .read ∧ o.read = some [] ∧ o.complete = true

/-- What a step of the task can do. -/
inductive TaskMove (P : Platform) (c : Client) (t : Task) (o : TaskOutcomes) : Client → Prop where
  /-- It goes on in RAM, or ends before its attempt. -/
  | goesOn {d : Client} {es : List Effect} {t' : Task} (htalked : Talked c d es)
      (hsame : SameTasks c d) (hgoes : GoesOn o t t') : TaskMove P c t o (d.setTask 0 t')
  | begins {ota : Ota} {handle : Nat} (hpc : t.pc = .otaBegin) :
      TaskMove P c t o (({ c with ota := ota }.emit (.otaBegin c.slot.other)).setTask 0
        { t with pc := .savePending, updateHandle := handle, updatePartition := c.slot.other })
  | saves (hpc : t.pc = .savePending) :
      TaskMove P c t o (((c.emit (.nvsSet .pendingFw t.newVersion)).reportFwState
        .downloading).setTask 0 { t with pc := .read })
  | writes {ota : Ota} {data : Bytes} (hpc : t.pc = .read) :
      TaskMove P c t o { c.emit (.otaWrite t.updatePartition data) with ota := ota }
  | abandons {d : Client} (hpc : t.pc.progress = .attempting) (hjournal : d.journal = c.journal)
      (hslot : d.slot = c.slot) (hsame : SameTasks c d) : TaskMove P c t o (d.abandon 0 t)
  | fails (hpc : t.pc = .setBoot) :
      TaskMove P c t o ((c.emit (.setBoot t.updatePartition
        (P.version (c.journal.disk.app t.updatePartition)) false)).abandon 0 t)
  | installs (hpc : t.pc = .setBoot) :
      TaskMove P c t o (((c.emit (.setBoot t.updatePartition
        (P.version (c.journal.disk.app t.updatePartition)) true)).reportFwState .updated).setTask 0
          { t with pc := .restart })
  | restarts (hpc : t.pc = .restart) : TaskMove P c t o { c with halt := some .restart }
  | ends (hpc : t.pc = .done) :
      TaskMove P c t o { c with
        args := c.args.free t.argId, otaInProgress := false, tasks := c.tasks.eraseIdx 0 }

/-- Setting the one task leaves one task. -/
theorem setTask_tasks {d : Client} (h : d.tasks = [t]) (t' : Task) :
    (d.setTask 0 t').tasks = [t'] := by
  simp [setTask, h]

theorem silent_talked {d : Client} (hjournal : d.journal = c.journal) (hslot : d.slot = c.slot) :
    Talked c d [] :=
  ⟨by simp, hjournal, hslot⟩

theorem report_talked (c d : Client) (state : FwState) (hjournal : d.journal = c.journal)
    (hslot : d.slot = c.slot) : Talked c (d.reportFwState state)
      [.publish (reportedTopic (d.twinRequestId + 1)) (fwStatePayload state)] :=
  ⟨by simp [Talks], by rw [← hjournal]; rfl, hslot⟩

/-- The inversion of a step of the task. -/
theorem taskStep_move (P : Platform) (c : Client) (t : Task) (o : TaskOutcomes) :
    TaskMove P c t o (c.taskStep P 0 t o) := by
  unfold taskStep
  cases hpc : t.pc <;> simp only
  case httpInit =>
    split_ifs
    · exact .goesOn (silent_talked rfl rfl) ⟨rfl, id⟩ (by constructor <;> simp [hpc])
    · exact .goesOn (report_talked c c _ rfl rfl) ⟨rfl, id⟩ (by constructor <;> simp [hpc])
  case httpOpen =>
    split_ifs
    · exact .goesOn (silent_talked rfl rfl) ⟨rfl, id⟩ (by constructor <;> simp [hpc])
    · exact .goesOn (report_talked c c _ rfl rfl) ⟨rfl, id⟩ (by constructor <;> simp [hpc])
  case otaBegin =>
    split_ifs
    · exact .begins hpc
    · exact .goesOn (report_talked c _ _ rfl rfl) ⟨rfl, id⟩ (by constructor <;> simp [hpc])
  case savePending => exact .saves hpc
  case read =>
    split
    · exact .goesOn (silent_talked rfl rfl) ⟨rfl, id⟩ (by constructor <;> simp [hpc])
    · rename_i hread
      exact .goesOn (silent_talked rfl rfl) ⟨rfl, id⟩ (by constructor <;> simp [hpc, hread])
    · split_ifs
      · exact .writes hpc
      · exact .goesOn (silent_talked rfl rfl) ⟨rfl, id⟩ (by constructor <;> simp [hpc])
  case cleanup downloadOk =>
    split_ifs with hdownload
    · exact .goesOn (report_talked c _ _ rfl rfl) ⟨rfl, id⟩
        (by constructor <;> simp [hpc, hdownload])
    · exact .abandons (by rw [hpc]; rfl) rfl rfl ⟨rfl, id⟩
  case otaEnd =>
    split_ifs
    · exact .goesOn (silent_talked rfl rfl) ⟨rfl, id⟩ (by constructor <;> simp [hpc])
    · exact .abandons (by rw [hpc]; rfl) rfl rfl ⟨rfl, id⟩
  case setBoot =>
    cases o.setBoot
    · exact .fails hpc
    · exact .installs hpc
  case restart => exact .restarts hpc
  case done => exact .ends hpc

/-! ## The protocol -/

/-- The one live task is as far as the attempt, and writes to the slot that is
not booted. -/
structure TaskLink (c : Client) (t : Task) (flow : Flow) : Prop where
  tasks : c.tasks = [t]
  busy : c.otaInProgress = true
  progress : flow = t.pc.progress
  partition : t.pc.Writes → t.updatePartition = c.slot.other

/-- At most one task is alive. -/
structure Link (c : Client) (flow : Flow) : Prop where
  task : (c.tasks = [] ∧ flow = .idle) ∨ ∃ t, TaskLink c t flow
  slot : flow ≠ .installed → c.journal.disk.bootSlot = c.slot

/-- From the journal `j`, the client `c'` is reached by a run of the protocol. -/
def Runs (P : Platform) (flash : Flash) (j : Log) (flow : Flow) (c' : Client) : Prop :=
  ∃ es flow', Link c' flow' ∧ ∀ start w, (marker P.version start).Run (InClient flash)
    ⟨j, .up w flow⟩ es ⟨c'.journal, .up w flow'⟩

/-- Talk keeps the link, whatever task it starts. -/
theorem talked_run {es : List Effect} (h : Link c flow) (htalked : Talked c c' es)
    (htasks : SameTasks c c' ∨ ∃ url newVersion, NewTask c c' url newVersion) :
    Runs P c.journal.disk c.journal flow c' := by
  have hslot : flow ≠ .installed → c'.journal.disk.bootSlot = c'.slot := by
    rw [htalked.journal, writes_talk htalked.talks, htalked.slot]
    exact h.slot
  refine ⟨es, flow, ⟨?_, hslot⟩, fun start w => ?_⟩
  · rcases htasks with hsame | ⟨url, newVersion, hnew⟩
    · rcases h.task with ⟨htasks, hflow⟩ | ⟨t, htask⟩
      · exact Or.inl ⟨hsame.tasks.trans htasks, hflow⟩
      · refine Or.inr ⟨t, hsame.tasks.trans htask.tasks, hsame.busy htask.busy, htask.progress, ?_⟩
        rw [htalked.slot]
        exact htask.partition
    · obtain ⟨argId, htasks⟩ := hnew.tasks
      rcases h.task with ⟨hnone, hflow⟩ | ⟨t, htask⟩
      · rw [hnone, List.nil_append] at htasks
        exact Or.inr ⟨_, htasks, hnew.busy, hflow, fun hwrites => absurd hwrites id⟩
      · exact absurd (hnew.idle.symm.trans htask.busy) (by decide)
  · rw [htalked.journal]
    exact talk_run start w flow rfl htalked.talks

/-- A task that abandons its attempt. -/
theorem abandon_run {d : Client} (htasks : d.tasks = [t]) (hbusy : d.otaInProgress = true)
    (hslot : d.journal.disk.bootSlot = d.slot) (hfailed : d.journal.disk.failed = flash.failed) :
    Runs P flash d.journal .attempting (d.abandon 0 t) := by
  refine ⟨[.publish (reportedTopic (d.twinRequestId + 1)) (fwStatePayload .failed)] ++
    [.nvsErase .pendingFw], .idle, ⟨Or.inr ⟨{ t with pc := .done }, ?_, hbusy, rfl, ?_⟩, ?_⟩,
    fun start w => ?_⟩
  · exact setTask_tasks htasks _
  · exact fun hwrites => absurd hwrites id
  · exact fun _ => hslot
  · have herase : (marker P.version start).Run (InClient flash)
        ⟨d.journal.write (.publish (reportedTopic (d.twinRequestId + 1)) (fwStatePayload .failed)),
          .up w .attempting⟩ [.nvsErase .pendingFw] ⟨(d.abandon 0 t).journal, .up w .idle⟩ :=
      up_single hfailed (by simp) (by simp [Phase.next])
    exact (talk_run start w .attempting hfailed (by simp [Talks])).trans herase

/-- A task that makes its image bootable, or fails to. -/
theorem setBoot_run {slot : Slot} (hother : slot = c.journal.disk.bootSlot.other) (ok : Bool)
    (start : Flash → Prop) (w : Bytes) :
    (marker P.version start).Run (InClient c.journal.disk) ⟨c.journal, .up w .attempting⟩
      [.setBoot slot (P.version (c.journal.disk.app slot)) ok]
      ⟨c.journal.write (.setBoot slot (P.version (c.journal.disk.app slot)) ok),
        .up w (if ok then .installed else .attempting)⟩ :=
  up_single rfl (by simp) (by simp [Phase.next, hother])

/-- A task that goes on, after talk. -/
theorem goesOn_run {d : Client} {es : List Effect} {t' : Task} {o : TaskOutcomes}
    (h : TaskLink c t flow) (hslot : flow ≠ .installed → c.journal.disk.bootSlot = c.slot)
    (htalked : Talked c d es) (hsame : SameTasks c d) (hgoes : GoesOn o t t') :
    Runs P c.journal.disk c.journal flow (d.setTask 0 t') := by
  have hjournal : (d.setTask 0 t').journal = c.journal.writes es := htalked.journal
  refine ⟨es, flow, ⟨Or.inr ⟨t', setTask_tasks (hsame.tasks.trans h.tasks) t', hsame.busy h.busy,
    h.progress.trans hgoes.progress, fun hwrites => ?_⟩, fun hflow => ?_⟩, fun start w => ?_⟩
  · obtain ⟨hwrote, hpart⟩ := hgoes.partition hwrites
    exact hpart.trans ((h.partition hwrote).trans (congrArg Slot.other htalked.slot.symm))
  · rw [hjournal, writes_talk htalked.talks]
    exact (hslot hflow).trans htalked.slot.symm
  · rw [hjournal]
    exact talk_run start w flow rfl htalked.talks

/-- A step of the task is a run of the protocol. -/
theorem taskStep_run (h : TaskLink c t flow)
    (hslot : flow ≠ .installed → c.journal.disk.bootSlot = c.slot) (o : TaskOutcomes) :
    Runs P c.journal.disk c.journal flow (c.taskStep P 0 t o) := by
  have hflow := h.progress
  have hpart := h.partition
  have hmove := taskStep_move P c t o
  generalize c.taskStep P 0 t o = c' at hmove ⊢
  cases hmove with
  | goesOn htalked hsame hgoes => exact goesOn_run h hslot htalked hsame hgoes
  | begins hpc =>
    rw [hpc] at hflow
    subst hflow
    have hboot := hslot (by decide)
    refine ⟨[.otaBegin c.slot.other], .idle,
      ⟨Or.inr ⟨_, setTask_tasks h.tasks _, h.busy, rfl, fun _ => rfl⟩, fun _ => hboot⟩,
      fun start w => up_single rfl (by simp) ?_⟩
    simp [Phase.next, hboot]
  | saves hpc =>
    rw [hpc] at hflow hpart
    have hidle : flow = .idle := hflow
    subst hidle
    have hattempt : ∀ start w, (marker P.version start).Run (InClient c.journal.disk)
        ⟨c.journal, .up w .idle⟩ [.nvsSet .pendingFw t.newVersion]
        ⟨c.journal.write (.nvsSet .pendingFw t.newVersion), .up w .attempting⟩ :=
      fun start w => up_single rfl (by simp) (by simp [Phase.next])
    have hreport : ∀ e ∈ [Effect.publish (reportedTopic (c.twinRequestId + 1))
        (fwStatePayload .downloading)], Talks e := by simp [Talks]
    refine ⟨[.nvsSet .pendingFw t.newVersion] ++
      [.publish (reportedTopic (c.twinRequestId + 1)) (fwStatePayload .downloading)], .attempting,
      ⟨Or.inr ⟨_, setTask_tasks h.tasks _, h.busy, rfl, fun _ => hpart trivial⟩,
        fun _ => hslot (by decide)⟩,
      fun start w => (hattempt start w).trans (talk_run start w .attempting ?_ hreport)⟩
    exact failed_nvsSet_of_ne (by decide)
  | @writes ota data hpc =>
    rw [hpc] at hflow hpart
    subst hflow
    have hboot := hslot (by decide)
    have hother := hpart trivial
    refine ⟨[.otaWrite t.updatePartition data], .attempting,
      ⟨Or.inr ⟨t, h.tasks, h.busy, by rw [hpc]; rfl, fun _ => hother⟩, fun _ => hboot⟩,
      fun start w => up_single rfl (by simp) ?_⟩
    simp [Phase.next, hboot, hother]
  | abandons hpc hjournal hslot' hsame =>
    have hboot := hslot (by rw [hflow, hpc]; decide)
    have hattempt := hflow.trans hpc
    subst hattempt
    rw [← hjournal] at hboot ⊢
    exact abandon_run (hsame.tasks.trans h.tasks) (hsame.busy h.busy) (hboot.trans hslot'.symm) rfl
  | fails hpc =>
    rw [hpc] at hflow hpart
    subst hflow
    have hboot := hslot (by decide)
    have hother : t.updatePartition = c.journal.disk.bootSlot.other := by
      rw [hboot]
      exact hpart trivial
    exact prepend_run (setBoot_run hother false)
      (abandon_run (d := c.emit _) h.tasks h.busy hboot rfl)
  | installs hpc =>
    rw [hpc] at hflow hpart
    subst hflow
    have hother : t.updatePartition = c.journal.disk.bootSlot.other := by
      rw [hslot (by decide)]
      exact hpart trivial
    have hreport : ∀ e ∈ [Effect.publish (reportedTopic (c.twinRequestId + 1))
        (fwStatePayload .updated)], Talks e := by simp [Talks]
    refine ⟨[.setBoot t.updatePartition (P.version (c.journal.disk.app t.updatePartition)) true] ++
      [.publish (reportedTopic (c.twinRequestId + 1)) (fwStatePayload .updated)], .installed,
      ⟨Or.inr ⟨_, setTask_tasks h.tasks _, h.busy, rfl, (absurd · id)⟩, (absurd rfl ·)⟩,
      fun start w => (setBoot_run hother true start w).trans
        (talk_run start w .installed ?_ hreport)⟩
    exact failed_setBoot
  | restarts hpc =>
    exact ⟨[], flow, ⟨Or.inr ⟨t, h.tasks, h.busy, hflow, hpart⟩, hslot⟩, fun _ _ => .nil _⟩
  | ends hpc =>
    rw [hpc] at hflow
    subst hflow
    refine ⟨[], .idle, ⟨Or.inl ⟨?_, rfl⟩, fun _ => hslot (by decide)⟩, fun _ _ => .nil _⟩
    simp [h.tasks]

/-- A step of the client is a run of the protocol. -/
theorem next_run {l : Label} (h : Link c flow) (hnext : c.next P l = some c') :
    Runs P c.journal.disk c.journal flow c' := by
  obtain ⟨-, hstep⟩ := next_step hnext
  cases hstep with
  | event o e =>
    obtain ⟨es, htalked, hspawns⟩ := handler_talked P c o e
    refine talked_run h htalked ?_
    rcases hspawns with hsame | ⟨desired, url, newVersion, -, -, hnew⟩
    · exact Or.inl hsame
    · exact Or.inr ⟨url, newVersion, hnew⟩
  | @task i t o htask hfits =>
    rcases h.task with ⟨hnone, -⟩ | ⟨t', hlink⟩
    · simp [hnone] at htask
    · rw [hlink.tasks, List.getElem?_singleton] at htask
      split_ifs at htask with hi
      cases htask
      subst hi
      exact taskStep_run hlink h.slot o
  | telemetry =>
    obtain ⟨es, htalked, hsame⟩ := telemetry_talked c
    exact talked_run h htalked (Or.inl hsame)

/-- The start-up leaves the markers alone. -/
theorem startup_prepares (o : StartOutcomes) (nvs : Nvs) :
    ∀ e ∈ (startup o nvs).1, Prepares e := by
  unfold startup
  split
  · simp [Prepares]
  · split <;> simp [Prepares]

/-- The firmware follows the protocol. -/
def follows (P : Platform) : (firmware P).Follows P where
  Link := Link
  startup := startup_prepares
  journal_fresh _ _ _ := rfl
  fresh _ _ _ hslot := ⟨Or.inl ⟨rfl, rfl⟩, fun _ => hslot⟩
  next _ _ _ _ hlink hnext := next_run hlink hnext

/-! ## One version -/

variable {v : Bytes}

/-- The hub offers only `v`, under a url without a newline, and a download
that is complete is an image of `v`. -/
def OffersOnly (P : Platform) (v : Bytes) (c : Client) : Label → Prop
  | .event _ e => ∀ desired, twinDoc P e = some desired → ∀ url version,
      fwOffer c.build desired = some (url, version) → version = v ∧ 10 ∉ url
  | .task i o => ∀ t, c.tasks[i]? = some t → t.pc = .read → o.read = some [] → o.complete = true →
      P.version (c.journal.disk.app t.updatePartition) = v
  | .telemetry => True

instance (P : Platform) (v : Bytes) (c : Client) (l : Label) : Decidable (OffersOnly P v c l) :=
  match l with
  | .event _ e =>
    decidable_of_iff (∀ desired ∈ twinDoc P e, ∀ pair ∈ fwOffer c.build desired,
        pair.2 = v ∧ 10 ∉ pair.1)
      ⟨fun h desired hdoc url version hoffer => h desired hdoc (url, version) hoffer,
        fun h desired hdoc pair hoffer => h desired hdoc pair.1 pair.2 hoffer⟩
  | .task i o => inferInstanceAs (Decidable (∀ t ∈ c.tasks[i]?, t.pc = .read →
      o.read = some [] → o.complete = true → P.version (c.journal.disk.app t.updatePartition) = v))
  | .telemetry => .isTrue trivial

/-- What is known of the live task: it was started for `v`, which has not
failed, and from the end of the download on its slot holds an image of `v`. -/
structure TaskOf (P : Platform) (v : Bytes) (c : Client) (t : Task) : Prop where
  tasks : c.tasks = [t]
  busy : c.otaInProgress = true
  failed : c.journal.disk.failed ≠ some v
  arg : ∃ url, 10 ∉ url ∧ t.arg = packArg url v
  version : t.pc ≠ .httpInit → t.newVersion = v
  image : t.pc = .cleanup true ∨ t.pc = .otaEnd ∨ t.pc = .setBoot →
    P.version (c.journal.disk.app t.updatePartition) = v

/-- No task is alive, or one that was started for `v`. -/
def OnlyVersion (P : Platform) (v : Bytes) (c : Client) : Prop :=
  c.tasks = [] ∨ ∃ t, TaskOf P v c t

/-- The task splits the argument at the first newline. -/
theorem packArg_split {url v : Bytes} (hurl : 10 ∉ url) :
    (packArg url v).takeWhile (· ≠ 10) = url ∧ (packArg url v).drop (url.length + 1) = v := by
  constructor
  · rw [packArg, List.takeWhile_append_of_pos]
    · simp
    · intro b hb
      simp only [ne_eq, decide_eq_true_eq]
      intro heq
      subst heq
      exact hurl hb
  · simp [packArg, List.drop_append]

/-- A step that attempts and installs only `v`, and starts and goes on with
tasks for `v`. -/
def OffersStep (P : Platform) (v : Bytes) (c c' : Client) : Prop :=
  ∃ es, c'.journal = c.journal.writes es ∧ (∀ e ∈ es, OffersEffect v c.journal.disk e) ∧
    OnlyVersion P v c'

/-- The task goes on. -/
theorem TaskOf.next {t' : Task} (h : TaskOf P v c t) (htasks : c'.tasks = [t'])
    (hbusy : c'.otaInProgress = true)
    (hfailed : c'.journal.disk.failed = c.journal.disk.failed) (harg : t'.arg = t.arg)
    (hversion : t'.newVersion = v)
    (himage : t'.pc = .cleanup true ∨ t'.pc = .otaEnd ∨ t'.pc = .setBoot →
      P.version (c'.journal.disk.app t'.updatePartition) = v) : OnlyVersion P v c' :=
  Or.inr ⟨t', htasks, hbusy, hfailed ▸ h.failed, harg ▸ h.arg, fun _ => hversion, himage⟩

theorem talked_offers {es : List Effect} (h : OnlyVersion P v c) (htalked : Talked c c' es)
    (htasks : SameTasks c c' ∨ ∃ url, 10 ∉ url ∧ NewTask c c' url v) : OffersStep P v c c' := by
  have hdisk : c'.journal.disk = c.journal.disk := by
    rw [htalked.journal, writes_talk htalked.talks]
  refine ⟨es, htalked.journal, fun e he => offersEffect_of_talk (htalked.talks e he), ?_⟩
  rcases htasks with hsame | ⟨url, hurl, hnew⟩
  · rcases h with hnone | ⟨t, ht⟩
    · exact Or.inl (hsame.tasks.trans hnone)
    · exact Or.inr ⟨t, hsame.tasks.trans ht.tasks, hsame.busy ht.busy, hdisk ▸ ht.failed, ht.arg,
        ht.version, hdisk ▸ ht.image⟩
  · obtain ⟨argId, htasks⟩ := hnew.tasks
    rcases h with hnone | ⟨t, ht⟩
    · rw [hnone, List.nil_append] at htasks
      exact Or.inr ⟨_, htasks, hnew.busy, hdisk ▸ hnew.failed, ⟨url, hurl, rfl⟩,
        fun hpc => absurd rfl hpc, fun hpc => by simp [newTask] at hpc⟩
    · exact absurd (hnew.idle.symm.trans ht.busy) (by decide)

/-- A task for `v` that goes on is for `v`. -/
theorem goesOn_offers {d : Client} {es : List Effect} {t' : Task} {o : TaskOutcomes}
    (hv : v.length < 32) (h : TaskOf P v c t) (htalked : Talked c d es) (hsame : SameTasks c d)
    (hgoes : GoesOn o t t')
    (hok : t.pc = .read → o.read = some [] → o.complete = true →
      P.version (c.journal.disk.app t.updatePartition) = v) :
    OffersStep P v c (d.setTask 0 t') := by
  have hjournal : (d.setTask 0 t').journal = c.journal.writes es := htalked.journal
  have hdisk : (d.setTask 0 t').journal.disk = c.journal.disk := by
    rw [hjournal, writes_talk htalked.talks]
  have hversion : t'.newVersion = v := by
    by_cases hinit : t.pc = .httpInit
    · obtain ⟨url, hurl, harg⟩ := h.arg
      obtain ⟨htake, hdrop⟩ := packArg_split (v := v) hurl
      rw [hgoes.split hinit, harg, htake, hdrop, List.take_of_length_le (by omega)]
    · exact (hgoes.version hinit).trans (h.version hinit)
  refine ⟨es, hjournal, fun e he => offersEffect_of_talk (htalked.talks e he),
    h.next (setTask_tasks (hsame.tasks.trans h.tasks) t') (hsame.busy h.busy) (by rw [hdisk])
      hgoes.arg hversion fun hcomplete => ?_⟩
  rw [hdisk, (hgoes.partition (TaskPc.Complete.writes hcomplete)).2]
  rcases hgoes.complete hcomplete with hbefore | ⟨hread, hend, hall⟩
  · exact h.image hbefore
  · exact hok hread hend hall

/-- A task that abandons its attempt. -/
theorem abandon_offers {d : Client} (h : TaskOf P v c t) (hpc : t.pc.progress = .attempting)
    (hjournal : d.journal = c.journal) (hsame : SameTasks c d) :
    OffersStep P v c (d.abandon 0 t) := by
  have hinit : t.pc ≠ .httpInit := by
    intro hinit
    rw [hinit] at hpc
    cases hpc
  refine ⟨[.publish (reportedTopic (d.twinRequestId + 1)) (fwStatePayload .failed),
    .nvsErase .pendingFw], ?_, ?_, ?_⟩
  · rw [← hjournal]
    rfl
  · intro e he
    rcases List.mem_pair.mp he with rfl | rfl
    · exact offersEffect_of_talk trivial
    · exact ⟨by simp, by simp⟩
  · exact h.next (setTask_tasks (hsame.tasks.trans h.tasks) _) (hsame.busy h.busy)
      (by rw [← hjournal]; rfl) rfl (h.version hinit) (by simp)

/-- A step of the task attempts and installs only `v`. -/
theorem taskStep_offers (hv : v.length < 32) (h : TaskOf P v c t) (o : TaskOutcomes)
    (hok : t.pc = .read → o.read = some [] → o.complete = true →
      P.version (c.journal.disk.app t.updatePartition) = v) :
    OffersStep P v c (c.taskStep P 0 t o) := by
  have hmove := taskStep_move P c t o
  generalize c.taskStep P 0 t o = c' at hmove ⊢
  cases hmove with
  | goesOn htalked hsame hgoes => exact goesOn_offers hv h htalked hsame hgoes hok
  | begins hpc =>
    refine ⟨[.otaBegin c.slot.other], rfl, fun e he => ?_,
      h.next (setTask_tasks h.tasks _) h.busy rfl rfl (h.version (by simp [hpc])) (by simp)⟩
    rw [List.mem_singleton.mp he]
    exact ⟨by simp, by simp⟩
  | saves hpc =>
    have hversion := h.version (by simp [hpc])
    refine ⟨[.nvsSet .pendingFw t.newVersion,
      .publish (reportedTopic (c.twinRequestId + 1)) (fwStatePayload .downloading)], rfl,
      fun e he => ?_, h.next (setTask_tasks h.tasks _) h.busy ?_ rfl hversion (by simp)⟩
    · rcases List.mem_pair.mp he with rfl | rfl
      · refine ⟨fun x hx => ?_, by simp⟩
        simp only [Effect.nvsSet.injEq, true_and] at hx
        exact ⟨hx.symm.trans hversion, h.failed⟩
      · exact offersEffect_of_talk trivial
    · exact failed_nvsSet_of_ne (by decide)
  | @writes ota data hpc =>
    refine ⟨[.otaWrite t.updatePartition data], rfl, fun e he => ?_,
      h.next h.tasks h.busy rfl rfl (h.version (by simp [hpc])) (by simp [hpc])⟩
    rw [List.mem_singleton.mp he]
    exact ⟨by simp, by simp⟩
  | abandons hpc hjournal _ hsame => exact abandon_offers h hpc hjournal hsame
  | fails hpc =>
    refine ⟨[.setBoot t.updatePartition (P.version (c.journal.disk.app t.updatePartition)) false,
      .publish (reportedTopic (c.twinRequestId + 1)) (fwStatePayload .failed),
      .nvsErase .pendingFw], rfl, fun e he => ?_,
      h.next (setTask_tasks h.tasks _) h.busy rfl rfl (h.version (by simp [hpc])) (by simp)⟩
    simp only [List.mem_cons, List.not_mem_nil, or_false] at he
    rcases he with rfl | rfl | rfl
    · exact ⟨by simp, by simp⟩
    · exact offersEffect_of_talk trivial
    · exact ⟨by simp, by simp⟩
  | installs hpc =>
    have himage := h.image (by simp [hpc])
    refine ⟨[.setBoot t.updatePartition (P.version (c.journal.disk.app t.updatePartition)) true,
      .publish (reportedTopic (c.twinRequestId + 1)) (fwStatePayload .updated)], rfl,
      fun e he => ?_,
      h.next (setTask_tasks h.tasks _) h.busy ?_ rfl (h.version (by simp [hpc])) (by simp)⟩
    · rcases List.mem_pair.mp he with rfl | rfl
      · refine ⟨by simp, fun slot x hx => ?_⟩
        simp only [Effect.setBoot.injEq] at hx
        exact hx.2.1.symm.trans himage
      · exact offersEffect_of_talk trivial
    · exact failed_setBoot (v := P.version (c.journal.disk.app t.updatePartition))
  | restarts hpc =>
    exact ⟨[], rfl, by simp,
      h.next h.tasks h.busy rfl rfl (h.version (by simp [hpc])) (by simp [hpc])⟩
  | ends hpc => exact ⟨[], rfl, by simp, Or.inl (by simp [h.tasks])⟩

/-- A step of a client that is offered only `v`. -/
theorem next_offers (hv : v.length < 32) {l : Label} (h : OnlyVersion P v c)
    (hok : OffersOnly P v c l) (hnext : c.next P l = some c') : OffersStep P v c c' := by
  obtain ⟨-, hstep⟩ := next_step hnext
  cases hstep with
  | event o e =>
    obtain ⟨es, htalked, hspawns⟩ := handler_talked P c o e
    refine talked_offers h htalked ?_
    rcases hspawns with hsame | ⟨desired, url, newVersion, hdoc, hoffer, hnew⟩
    · exact Or.inl hsame
    · obtain ⟨rfl, hurl⟩ := hok desired hdoc url newVersion hoffer
      exact Or.inr ⟨url, hurl, hnew⟩
  | @task i t o htask hfits =>
    rcases h with hnone | ⟨t', ht'⟩
    · simp [hnone] at htask
    · have hread := hok t htask
      rw [ht'.tasks, List.getElem?_singleton] at htask
      split_ifs at htask with hi
      cases htask
      subst hi
      exact taskStep_offers hv ht' o hread
  | telemetry =>
    obtain ⟨es, htalked, hsame⟩ := telemetry_talked c
    exact talked_offers h htalked (Or.inl hsame)

/-- A client that is offered only `v` attempts and installs only `v`. -/
def offers (P : Platform) (hv : v.length < 32) : (firmware P).Offers v (OffersOnly P v) where
  Keeps := OnlyVersion P v
  fresh _ _ _ := Or.inl rfl
  next c l c' h hok hnext := by
    obtain ⟨es, hjournal, heffects, hkeeps⟩ := next_offers hv h hok hnext
    refine ⟨hkeeps, fun e he => heffects e ?_⟩
    have hsince : c.journal.since c'.journal = es := by rw [hjournal, Journal.since_writes]
    exact hsince ▸ he

end Winegrid.Azure
