import Winegrid.Azure.Device
import Winegrid.Azure.Reports

/-!
# How an update ends

`Attempt` follows the client from the event that starts an `ota_task`, beside a
`Tally` of what the reads and `esp_ota_end` answered.  `AtPc` says of each call
of the task what was done so far.

* `taskStep_progress`: the next call of the task keeps `AtPc`, or the task ends
  with everything `Undone`.
* `attempt_progress`: the same over a whole attempt.
* `attempt_outcome`: a switch of the boot partition is `Earned`, and a task
  that ends without one left nothing behind.
-/

namespace Winegrid.Azure

open Esp Client

variable {P : Platform} {c c' c₀ : Client} {t : Task}

/-! ## Attempts -/

/-- What the calls of a task answered: the bytes of its reads, whether the body
was complete at the last one, and whether `esp_ota_end` succeeded. -/
structure Tally where
  read : Bytes
  complete : Bool
  ended : Bool
  deriving DecidableEq

/-- The tally after one more call of the task. -/
def Tally.observe (tally : Tally) (t : Task) (o : TaskOutcomes) : Tally :=
  match t.pc with
  | .read =>
    match o.read with
    | none => tally
    | some [] => { tally with complete := o.complete }
    | some data => { tally with read := tally.read ++ data }
  | .otaEnd => { tally with ended := o.otaEnd }
  | _ => tally

def Tally.after (tally : Tally) (c : Client) : Label → Tally
  | .task i o =>
    match c.tasks[i]? with
    | some t => tally.observe t o
    | none => tally
  | _ => tally

/-- `Attempt P c₀ tally c`: from `c₀`, with no task alive, one step started a
task, and the client went on to `c` while it was alive. -/
inductive Attempt (P : Platform) (c₀ : Client) : Tally → Client → Prop
  | start {l : Label} {c : Client} (hidle : c₀.tasks = []) (hnext : c₀.next P l = some c)
      (hlive : c.tasks ≠ []) : Attempt P c₀ ⟨[], false, false⟩ c
  | step {tally : Tally} {c c' : Client} {l : Label} (h : Attempt P c₀ tally c)
      (hlive : c.tasks ≠ []) (hnext : c.next P l = some c') : Attempt P c₀ (tally.after c l) c'

/-- The bytes that the effects write to a slot, in order. -/
def written (es : List Effect) : Bytes :=
  es.flatMap fun e => match e with
    | .otaWrite _ data => data
    | _ => []

/-- The boot partition was switched. -/
def Switches (es : List Effect) : Prop := ∃ slot version, .setBoot slot version true ∈ es

@[simp] theorem reported_append (es fs : List Effect) :
    reported (es ++ fs) = reported es ++ reported fs :=
  List.filterMap_append

@[simp] theorem written_append (es fs : List Effect) :
    written (es ++ fs) = written es ++ written fs :=
  List.flatMap_append

theorem switches_append {es fs : List Effect} :
    Switches (es ++ fs) ↔ Switches es ∨ Switches fs := by
  simp only [Switches, List.mem_append, exists_or]

theorem written_chats {es : List Effect} (h : ∀ e ∈ es, Chats e) : written es = [] := by
  rw [written, List.flatMap_eq_nil_iff]
  intro e he
  have htalks := (h e he).1
  cases e <;> first | rfl | exact absurd htalks id

theorem not_switches_chats {es : List Effect} (h : ∀ e ∈ es, Chats e) : ¬ Switches es := by
  rintro ⟨slot, v, hmem⟩
  exact (h _ hmem).1

/-- No task is alive, and nothing of an earlier attempt is left. -/
structure Base (c : Client) : Prop where
  tasks : c.tasks = []
  pending : c.journal.disk.nvs .pendingFw = none
  handles : c.ota.handles = []

/-- What an attempt from `c₀` did so far that the boot partition was not
switched in: the states it reported, `pending_fw`, the open handles, and the
bytes it wrote. -/
structure Facts (c₀ c : Client) (states : List FwState) (pending : Option Bytes)
    (handles : List OtaHandle) (wrote : Bytes) : Prop where
  effects : ∃ es, c.journal = c₀.journal.writes es ∧ reported es = states ∧ written es = wrote ∧
    ¬ Switches es
  nvs : c.journal.disk.nvs = Function.update c₀.journal.disk.nvs .pendingFw pending
  bootSlot : c.journal.disk.bootSlot = c₀.journal.disk.bootSlot
  imgState : c.journal.disk.imgState = c₀.journal.disk.imgState
  openHandles : c.ota.handles = handles
  image : ∀ h ∈ handles, c.journal.disk.app h.slot = h.wrote

variable {states : List FwState} {pending : Option Bytes} {handles : List OtaHandle}
  {wrote : Bytes} {tally : Tally}

/-- One more effect that does not switch the boot partition. -/
theorem Facts.write {states' : List FwState} {pending' : Option Bytes}
    {handles' : List OtaHandle} {wrote' : Bytes} (h : Facts c₀ c states pending handles wrote)
    (e : Effect) (hstates : states ++ reported [e] = states')
    (hwrote : wrote ++ written [e] = wrote') (hjournal : c'.journal = c.journal.write e)
    (hswitch : ∀ slot v, e ≠ .setBoot slot v true)
    (hnvs : (c.journal.disk.apply e).nvs =
      Function.update c₀.journal.disk.nvs .pendingFw pending')
    (hslot : (c.journal.disk.apply e).bootSlot = c.journal.disk.bootSlot)
    (hstate : (c.journal.disk.apply e).imgState = c.journal.disk.imgState)
    (hhandles : c'.ota.handles = handles')
    (himage : ∀ h ∈ handles', (c.journal.disk.apply e).app h.slot = h.wrote) :
    Facts c₀ c' states' pending' handles' wrote' := by
  obtain ⟨es, heffects, hreported, hwritten, hnoswitch⟩ := h.effects
  refine ⟨⟨es ++ [e], ?_, ?_, ?_, ?_⟩, ?_, ?_, ?_, hhandles, ?_⟩
  · rw [hjournal, heffects, Journal.writes_append]
    rfl
  · rw [reported_append, hreported, hstates]
  · rw [written_append, hwritten, hwrote]
  · rw [switches_append, not_or]
    refine ⟨hnoswitch, ?_⟩
    rintro ⟨slot, v, hmem⟩
    exact hswitch slot v (List.mem_singleton.mp hmem).symm
  all_goals rw [hjournal, Journal.write_disk, apply_def]
  · exact hnvs
  · exact hslot.trans h.bootSlot
  · exact hstate.trans h.imgState
  · exact himage

/-- A state is reported. -/
theorem Facts.report (h : Facts c₀ c states pending handles wrote) (state : FwState) :
    Facts c₀ (c.reportFwState state) (states ++ [state]) pending handles wrote :=
  h.write (.publish (reportedTopic (c.twinRequestId + 1)) (fwStatePayload state))
    (by simp [reported]) (List.append_nil wrote) rfl (by simp) h.nvs rfl rfl h.openHandles h.image

/-- Only RAM changes. -/
theorem Facts.silent (h : Facts c₀ c states pending handles wrote)
    (hjournal : c'.journal = c.journal) (hhandles : c'.ota.handles = c.ota.handles) :
    Facts c₀ c' states pending handles wrote :=
  ⟨hjournal ▸ h.effects, hjournal ▸ h.nvs, hjournal ▸ h.bootSlot, hjournal ▸ h.imgState,
    hhandles.trans h.openHandles, hjournal ▸ h.image⟩

/-- The handle is released. -/
theorem Facts.release (h : Facts c₀ c states pending handles wrote)
    (hjournal : c'.journal = c.journal) (hhandles : c'.ota.handles = []) :
    Facts c₀ c' states pending [] wrote :=
  ⟨hjournal ▸ h.effects, hjournal ▸ h.nvs, hjournal ▸ h.bootSlot, hjournal ▸ h.imgState,
    hhandles, by simp⟩

/-- Chat changes nothing. -/
theorem Facts.chat (h : Facts c₀ c states pending handles wrote) (hchat : Chat c c') :
    Facts c₀ c' states pending handles wrote := by
  obtain ⟨fs, hjournal, hchats⟩ := hchat.effects
  obtain ⟨es, heffects, hreported, hwritten, hnoswitch⟩ := h.effects
  have hdisk : c'.journal.disk = c.journal.disk := by
    rw [hjournal, writes_talk fun e he => (hchats e he).1]
  refine ⟨⟨es ++ fs, ?_, ?_, ?_, ?_⟩, hdisk ▸ h.nvs, hdisk ▸ h.bootSlot, hdisk ▸ h.imgState,
    hchat.ota ▸ h.openHandles, hdisk ▸ h.image⟩
  · rw [hjournal, heffects, Journal.writes_append]
  · rw [reported_append, hreported, reported_chats hchats, List.append_nil]
  · rw [written_append, hwritten, written_chats hchats, List.append_nil]
  · rw [switches_append, not_or]
    exact ⟨hnoswitch, not_switches_chats hchats⟩

/-! ## The calls of the task -/

/-- The handle of a task that wrote some bytes. -/
def Task.handle (t : Task) (wrote : Bytes) : OtaHandle := ⟨t.updateHandle, t.updatePartition, wrote⟩

/-- The boot partition was switched after everything went well. -/
structure Earned (c₀ : Client) (tally : Tally) (c : Client) : Prop where
  complete : tally.complete = true
  ended : tally.ended = true
  wrote : written (c₀.journal.since c.journal) = tally.read
  image : c.journal.disk.app c.journal.disk.bootSlot = tally.read

/-- What was done before the next call of the task. -/
def AtPc (c₀ : Client) (tally : Tally) (c : Client) (t : Task) : TaskPc → Prop
  | .httpInit | .httpOpen | .otaBegin => Facts c₀ c [] none [] [] ∧ tally.read = []
  | .savePending => Facts c₀ c [] none [t.handle []] [] ∧ tally.read = []
  | .read =>
    Facts c₀ c [.downloading] (some t.newVersion) [t.handle tally.read] tally.read
  | .cleanup false =>
    ∃ wrote, Facts c₀ c [.downloading] (some t.newVersion) [t.handle wrote] wrote
  | .cleanup true =>
    Facts c₀ c [.downloading] (some t.newVersion) [t.handle tally.read] tally.read ∧
      tally.complete = true
  | .otaEnd =>
    Facts c₀ c [.downloading, .verified] (some t.newVersion) [t.handle tally.read] tally.read ∧
      tally.complete = true
  | .setBoot =>
    Facts c₀ c [.downloading, .verified] (some t.newVersion) [] tally.read ∧
      tally.complete = true ∧ tally.ended = true ∧
      c.journal.disk.app t.updatePartition = tally.read
  | .restart => c₀.journal.Extends c.journal ∧ Earned c₀ tally c
  | .done =>
    ∃ states wrote, Facts c₀ c (states ++ [.failed]) none [] wrote ∧ .updated ∉ states

/-- The task is the one alive, and did what `AtPc` says. -/
structure Progress (c₀ : Client) (tally : Tally) (c : Client) (t : Task) : Prop where
  tasks : c.tasks = [t]
  busy : c.otaInProgress = true
  at_pc : AtPc c₀ tally c t t.pc

/-- The attempt is over, and nothing of it is left but its reports. -/
structure Undone (c₀ c : Client) : Prop where
  tasks : c.tasks = []
  idle : c.otaInProgress = false
  nvs : c.journal.disk.nvs = c₀.journal.disk.nvs
  bootSlot : c.journal.disk.bootSlot = c₀.journal.disk.bootSlot
  imgState : c.journal.disk.imgState = c₀.journal.disk.imgState
  handles : c.ota.handles = []
  failed : (reported (c₀.journal.since c.journal)).getLast? = some .failed
  notUpdated : .updated ∉ reported (c₀.journal.since c.journal)
  notSwitched : ¬ Switches (c₀.journal.since c.journal)

/-- The next call goes on in the same attempt, or it was the last one. -/
def Next (c₀ : Client) (tally : Tally) (c : Client) : Prop :=
  (∃ t, Progress c₀ tally c t) ∨ Undone c₀ c

/-- The task is set, and what `AtPc` says of its next call was done. -/
theorem Progress.next {d : Client} {t' : Task} {tally' : Tally} (h : Progress c₀ tally c t)
    (htasks : d.tasks = c.tasks) (hbusy : d.otaInProgress = c.otaInProgress) (pc : TaskPc)
    (hpc : t'.pc = pc) (hat : AtPc c₀ tally' (d.setTask 0 t') t' pc) :
    Next c₀ tally' (d.setTask 0 t') :=
  Or.inl ⟨t', setTask_tasks (htasks.trans h.tasks) t', hbusy.trans h.busy, hpc ▸ hat⟩

/-- A failure is reported before anything was stored. -/
theorem Progress.failsEarly {d : Client} {t' : Task} {tally' : Tally} (h : Progress c₀ tally c t)
    (hfacts : Facts c₀ d [] none [] []) (htasks : d.tasks = c.tasks)
    (hbusy : d.otaInProgress = c.otaInProgress) (hpc : t'.pc = .done) :
    Next c₀ tally' ((d.reportFwState .failed).setTask 0 t') := by
  refine h.next (by exact htasks) (by exact hbusy) .done hpc ⟨[], [], ?_, by simp⟩
  exact (hfacts.report .failed).silent rfl rfl

/-- A failure is reported and `pending_fw` erased. -/
theorem Progress.abandons {d : Client} {tally' : Tally} (h : Progress c₀ tally c t)
    (hfacts : Facts c₀ d states pending [] wrote) (hstates : .updated ∉ states)
    (htasks : d.tasks = c.tasks) (hbusy : d.otaInProgress = c.otaInProgress) :
    Next c₀ tally' (d.abandon 0 t) := by
  refine h.next (by exact htasks) (by exact hbusy) .done rfl ⟨states, wrote, ?_, hstates⟩
  have hreport := hfacts.report .failed
  exact hreport.write (.nvsErase .pendingFw) (List.append_nil _) (List.append_nil _) rfl (by simp)
    (by rw [Flash.apply, hreport.nvs, Function.update_idem]) rfl rfl hreport.openHandles (by simp)

/-- The calls before `pending_fw` is stored. -/
theorem step_early (h : Progress c₀ tally c t) (o : TaskOutcomes)
    (hpc : t.pc = .httpInit ∨ t.pc = .httpOpen ∨ t.pc = .otaBegin) :
    Next c₀ (tally.observe t o) (c.taskStep P 0 t o) := by
  have hat := h.at_pc
  have hobserve : tally.observe t o = tally := by
    rcases hpc with hpc | hpc | hpc <;> simp only [Tally.observe, hpc]
  rw [hobserve]
  rcases hpc with hpc | hpc | hpc <;> rw [hpc] at hat <;> obtain ⟨hfacts, hread⟩ := hat <;>
    simp only [taskStep, hpc]
  · split_ifs
    · exact h.next rfl rfl .httpOpen rfl ⟨hfacts.silent rfl rfl, hread⟩
    · exact h.failsEarly hfacts rfl rfl rfl
  · split_ifs
    · exact h.next rfl rfl .otaBegin rfl ⟨hfacts.silent rfl rfl, hread⟩
    · exact h.failsEarly hfacts rfl rfl rfl
  · split_ifs
    · refine h.next rfl rfl .savePending rfl ⟨?_, hread⟩
      refine hfacts.write (.otaBegin c.slot.other) rfl rfl rfl (by simp) hfacts.nvs rfl rfl ?_ ?_
      · simp [setTask, emit, Ota.start, hfacts.openHandles, Task.handle]
      · simp [Task.handle, Flash.apply]
    · exact h.failsEarly (hfacts.silent rfl rfl) rfl rfl rfl

/-- `pending_fw` is stored, and the download reported. -/
theorem step_savePending (h : Progress c₀ tally c t) (o : TaskOutcomes)
    (hpc : t.pc = .savePending) : Next c₀ (tally.observe t o) (c.taskStep P 0 t o) := by
  have hat := h.at_pc
  rw [hpc] at hat
  obtain ⟨hfacts, hread⟩ := hat
  have hobserve : tally.observe t o = tally := by simp only [Tally.observe, hpc]
  rw [hobserve]
  simp only [taskStep, hpc]
  have hsave : Facts c₀ (c.emit (.nvsSet .pendingFw t.newVersion)) [] (some t.newVersion)
      [t.handle []] [] :=
    hfacts.write (.nvsSet .pendingFw t.newVersion) rfl rfl rfl (by simp)
      (by rw [Flash.apply, hfacts.nvs, Function.update_idem]) rfl rfl hfacts.openHandles
      hfacts.image
  refine h.next rfl rfl .read rfl ?_
  simp only [AtPc, hread]
  exact (hsave.report .downloading).silent rfl rfl

/-- The handle of the task is the open one, so a write appends to it. -/
theorem append_handle {data : Bytes} (h : c.ota.handles = [t.handle wrote]) :
    (c.ota.append t.updateHandle data).handles = [t.handle (wrote ++ data)] := by
  simp [Ota.append, h, Task.handle]

/-- The handle of the task is the open one, so none is left after its release. -/
theorem release_handle (h : c.ota.handles = [t.handle wrote]) :
    (c.ota.release t.updateHandle).handles = [] := by
  simp [Ota.release, h, Task.handle]

/-- A read writes what it answered, ends the download, or fails. -/
theorem step_read (h : Progress c₀ tally c t) (o : TaskOutcomes) (hpc : t.pc = .read) :
    Next c₀ (tally.observe t o) (c.taskStep P 0 t o) := by
  have hfacts := h.at_pc
  rw [hpc] at hfacts
  have hfails : ∀ tally', Next c₀ tally' (c.setTask 0 { t with pc := .cleanup false }) :=
    fun _ => h.next rfl rfl (.cleanup false) rfl ⟨tally.read, hfacts.silent rfl rfl⟩
  rcases hread : o.read with _ | _ | ⟨b, data⟩ <;> simp only [taskStep, Tally.observe, hpc, hread]
  · exact hfails tally
  · cases hcomplete : o.complete with
    | false => exact hfails _
    | true => exact h.next rfl rfl (.cleanup true) rfl ⟨hfacts.silent rfl rfl, rfl⟩
  · split_ifs
    · refine Or.inl ⟨t, h.tasks, h.busy, ?_⟩
      rw [hpc]
      have hhandles : (c.ota.append t.updateHandle (b :: data)).handles =
          [t.handle (tally.read ++ b :: data)] := append_handle hfacts.openHandles
      refine hfacts.write (.otaWrite t.updatePartition (b :: data)) rfl ?_ rfl (by simp)
        hfacts.nvs rfl rfl hhandles ?_
      · simp [written]
      · have himage := hfacts.image (t.handle tally.read) (by simp)
        simpa [Flash.apply, Task.handle] using himage
    · exact hfails _

/-- The connection is closed, and the download reported or given up. -/
theorem step_cleanup (h : Progress c₀ tally c t) (o : TaskOutcomes) {downloadOk : Bool}
    (hpc : t.pc = .cleanup downloadOk) : Next c₀ (tally.observe t o) (c.taskStep P 0 t o) := by
  have hat := h.at_pc
  have hobserve : tally.observe t o = tally := by simp only [Tally.observe, hpc]
  rw [hobserve]
  simp only [taskStep, hpc]
  cases downloadOk with
  | true =>
    rw [hpc] at hat
    obtain ⟨hfacts, hcomplete⟩ := hat
    refine h.next rfl rfl .otaEnd rfl ⟨?_, hcomplete⟩
    have hclosed : Facts c₀ { c with http := c.http.free t.http } [.downloading]
        (some t.newVersion) [t.handle tally.read] tally.read := hfacts.silent rfl rfl
    exact (hclosed.report .verified).silent rfl rfl
  | false =>
    rw [hpc] at hat
    obtain ⟨wrote, hfacts⟩ := hat
    have hclosed : Facts c₀ { c with
        http := c.http.free t.http, ota := c.ota.release t.updateHandle } [.downloading]
        (some t.newVersion) [] wrote := hfacts.release rfl (release_handle hfacts.openHandles)
    exact h.abandons hclosed (by simp) rfl rfl

/-- `esp_ota_end`. -/
theorem step_otaEnd (h : Progress c₀ tally c t) (o : TaskOutcomes) (hpc : t.pc = .otaEnd) :
    Next c₀ (tally.observe t o) (c.taskStep P 0 t o) := by
  have hat := h.at_pc
  rw [hpc] at hat
  obtain ⟨hfacts, hcomplete⟩ := hat
  have hclosed : Facts c₀ { c with ota := c.ota.release t.updateHandle } [.downloading, .verified]
      (some t.newVersion) [] tally.read := hfacts.release rfl (release_handle hfacts.openHandles)
  simp only [taskStep, Tally.observe, hpc]
  split_ifs with hend
  · refine h.next rfl rfl .setBoot rfl ⟨hclosed.silent rfl rfl, hcomplete, hend, ?_⟩
    exact hfacts.image (t.handle tally.read) (by simp)
  · exact h.abandons hclosed (by simp) rfl rfl

/-- `esp_ota_set_boot_partition`. -/
theorem step_setBoot (h : Progress c₀ tally c t) (o : TaskOutcomes) (hpc : t.pc = .setBoot) :
    Next c₀ (tally.observe t o) (c.taskStep P 0 t o) := by
  have hat := h.at_pc
  rw [hpc] at hat
  obtain ⟨hfacts, hcomplete, hended, himage⟩ := hat
  have hobserve : tally.observe t o = tally := by simp only [Tally.observe, hpc]
  rw [hobserve]
  simp only [taskStep, hpc]
  set version := (P.build (c.journal.disk.app t.updatePartition)).version
  cases hboot : o.setBoot with
  | false =>
    have hfails : Facts c₀ (c.emit (.setBoot t.updatePartition version false))
        [.downloading, .verified] (some t.newVersion) [] tally.read :=
      hfacts.write (.setBoot t.updatePartition version false) rfl (List.append_nil _) rfl (by simp)
        hfacts.nvs rfl rfl hfacts.openHandles (by simp)
    exact h.abandons hfails (by simp) rfl rfl
  | true =>
    obtain ⟨es, heffects, -, hwritten, -⟩ := hfacts.effects
    let fs : List Effect := [.setBoot t.updatePartition version true,
      .publish (reportedTopic (c.twinRequestId + 1)) (fwStatePayload .updated)]
    have hjournal : ((c.emit (.setBoot t.updatePartition version true)).reportFwState
        .updated).journal = c₀.journal.writes (es ++ fs) := by
      rw [Journal.writes_append, ← heffects]
      rfl
    refine h.next rfl rfl .restart rfl ⟨⟨es ++ fs, hjournal⟩, hcomplete, hended, ?_, himage⟩
    show written (c₀.journal.since ((c.emit (.setBoot t.updatePartition version true)).reportFwState
      .updated).journal) = tally.read
    rw [hjournal, Journal.since_writes, written_append, hwritten]
    exact List.append_nil _

/-- The task frees its argument and ends. -/
theorem step_done (hpending : c₀.journal.disk.nvs .pendingFw = none) (h : Progress c₀ tally c t)
    (o : TaskOutcomes) (hpc : t.pc = .done) :
    Next c₀ (tally.observe t o) (c.taskStep P 0 t o) := by
  have hat := h.at_pc
  rw [hpc] at hat
  obtain ⟨states, wrote, hfacts, hstates⟩ := hat
  obtain ⟨es, heffects, hreported, -, hnoswitch⟩ := hfacts.effects
  have hsince : c₀.journal.since c.journal = es := by rw [heffects, Journal.since_writes]
  simp only [taskStep, hpc]
  refine Or.inr {
    tasks := by simp [h.tasks]
    idle := rfl
    nvs := ?_
    bootSlot := hfacts.bootSlot
    imgState := hfacts.imgState
    handles := hfacts.openHandles
    failed := by simp [hsince, hreported]
    notUpdated := by simp [hsince, hreported, hstates]
    notSwitched := by simpa [hsince] using hnoswitch }
  rw [hfacts.nvs, Function.update_eq_self_iff]
  exact hpending.symm

/-- The next call of the task keeps what `AtPc` says, or ends the attempt. -/
theorem taskStep_progress (hpending : c₀.journal.disk.nvs .pendingFw = none)
    (h : Progress c₀ tally c t) (o : TaskOutcomes) :
    Next c₀ (tally.observe t o) (c.taskStep P 0 t o) := by
  cases hpc : t.pc with
  | httpInit => exact step_early h o (Or.inl hpc)
  | httpOpen => exact step_early h o (Or.inr (Or.inl hpc))
  | otaBegin => exact step_early h o (Or.inr (Or.inr hpc))
  | savePending => exact step_savePending h o hpc
  | read => exact step_read h o hpc
  | cleanup downloadOk => exact step_cleanup h o hpc
  | otaEnd => exact step_otaEnd h o hpc
  | setBoot => exact step_setBoot h o hpc
  | restart =>
    have hat := h.at_pc
    simp only [taskStep, Tally.observe, hpc]
    refine Or.inl ⟨t, h.tasks, h.busy, ?_⟩
    rw [hpc] at hat ⊢
    exact ⟨hat.1, hat.2.complete, hat.2.ended, hat.2.wrote, hat.2.image⟩
  | done => exact step_done hpending h o hpc

/-! ## Whole attempts -/

/-- Chat beside the task changes nothing of what it did. -/
theorem AtPc.chat {pc : TaskPc} (h : AtPc c₀ tally c t pc) (hchat : Chat c c') :
    AtPc c₀ tally c' t pc := by
  obtain ⟨es, hjournal, hchats⟩ := hchat.effects
  have hdisk : c'.journal.disk = c.journal.disk := by
    rw [hjournal, writes_talk fun e he => (hchats e he).1]
  cases pc with
  | httpInit => exact ⟨h.1.chat hchat, h.2⟩
  | httpOpen => exact ⟨h.1.chat hchat, h.2⟩
  | otaBegin => exact ⟨h.1.chat hchat, h.2⟩
  | savePending => exact ⟨h.1.chat hchat, h.2⟩
  | read => exact Facts.chat h hchat
  | cleanup downloadOk =>
    cases downloadOk with
    | true => exact ⟨h.1.chat hchat, h.2⟩
    | false =>
      obtain ⟨wrote, hfacts⟩ := h
      exact ⟨wrote, hfacts.chat hchat⟩
  | otaEnd => exact ⟨h.1.chat hchat, h.2⟩
  | setBoot =>
    obtain ⟨hfacts, hcomplete, hended, himage⟩ := h
    exact ⟨hfacts.chat hchat, hcomplete, hended, hdisk ▸ himage⟩
  | restart =>
    obtain ⟨⟨fs, hfs⟩, hearned⟩ := h
    have hall : c'.journal = c₀.journal.writes (fs ++ es) := by
      rw [Journal.writes_append, ← hfs, hjournal]
    refine ⟨⟨fs ++ es, hall⟩, hearned.complete, hearned.ended, ?_, ?_⟩
    · have hwrote := hearned.wrote
      rw [hfs, Journal.since_writes] at hwrote
      rw [hall, Journal.since_writes, written_append, hwrote, written_chats hchats,
        List.append_nil]
    · rw [hdisk]
      exact hearned.image
  | done =>
    obtain ⟨states, wrote, hfacts, hstates⟩ := h
    exact ⟨states, wrote, hfacts.chat hchat, hstates⟩

theorem Progress.chat (h : Progress c₀ tally c t) (hchat : Chat c c') :
    Progress c₀ tally c' t :=
  ⟨hchat.tasks.trans h.tasks, hchat.busy.trans h.busy, h.at_pc.chat hchat⟩

/-- A step of a client whose task is alive. -/
theorem progress_next {l : Label} (hpending : c₀.journal.disk.nvs .pendingFw = none)
    (h : Progress c₀ tally c t) (hnext : c.next P l = some c') :
    Next c₀ (tally.after c l) c' := by
  obtain ⟨-, hstep⟩ := next_step hnext
  cases hstep with
  | event o e =>
    have hbusy := h.busy
    rcases handler_move P c o e with hchat | ⟨hidle, -, -, -⟩ | ⟨hidle, -, -, -, -⟩
    · exact Or.inl ⟨t, h.chat hchat⟩
    · exact absurd (hidle.symm.trans hbusy) (by decide)
    · exact absurd (hidle.symm.trans hbusy) (by decide)
  | telemetry => exact Or.inl ⟨t, h.chat (telemetry_chat c)⟩
  | @task i t' o htask hfits =>
    have hone := htask
    rw [h.tasks, List.getElem?_singleton] at hone
    split_ifs at hone with hi
    cases hone
    subst hi
    simp only [Tally.after, htask]
    exact taskStep_progress hpending h o

/-- The event that starts a task only chats. -/
theorem progress_start {l : Label} (hbase : Base c₀) (hnext : c₀.next P l = some c)
    (hlive : c.tasks ≠ []) : ∃ t, Progress c₀ ⟨[], false, false⟩ c t := by
  obtain ⟨-, hstep⟩ := next_step hnext
  cases hstep with
  | event o e =>
    rcases handler_move P c₀ o e with
      hchat | ⟨-, -, htasks, -⟩ | ⟨-, ⟨es, hjournal, hchats⟩, ⟨arg, argId, htasks⟩, hbusy, hota⟩
    · exact absurd (hchat.tasks.trans hbase.tasks) hlive
    · exact absurd (htasks.trans hbase.tasks) hlive
    · rw [hbase.tasks, List.nil_append] at htasks
      refine ⟨newTask arg argId, htasks, hbusy, ?_, rfl⟩
      have hdisk : (hubMqttEventHandler P c₀ o e).journal.disk = c₀.journal.disk := by
        rw [hjournal, writes_talk fun e he => (hchats e he).1]
      refine ⟨⟨es, hjournal, reported_chats hchats, written_chats hchats,
        not_switches_chats hchats⟩, ?_, by rw [hdisk], by rw [hdisk], ?_, by simp⟩
      · rw [hdisk, eq_comm, Function.update_eq_self_iff]
        exact hbase.pending.symm
      · rw [hota]
        exact hbase.handles
  | telemetry => exact absurd ((telemetry_chat c₀).tasks.trans hbase.tasks) hlive
  | task htask =>
    rw [hbase.tasks] at htask
    cases htask

/-- The invariant of an attempt. -/
theorem attempt_progress (hbase : Base c₀) (h : Attempt P c₀ tally c) : Next c₀ tally c := by
  induction h with
  | start _ hnext hlive => exact Or.inl (progress_start hbase hnext hlive)
  | step _ hlive hnext ih =>
    rcases ih with ⟨t, hprogress⟩ | hundone
    · exact progress_next hbase.pending hprogress hnext
    · exact absurd hundone.tasks hlive

/-- An attempt that switched the boot partition earned it, and one whose task
ended left nothing behind. -/
theorem attempt_outcome (hbase : Base c₀) (h : Attempt P c₀ tally c) :
    (Switches (c₀.journal.since c.journal) → Earned c₀ tally c) ∧
      (c.tasks = [] → Undone c₀ c) := by
  rcases attempt_progress hbase h with ⟨t, hprogress⟩ | hundone
  · refine ⟨fun hswitch => ?_, fun hnone => ?_⟩
    · have hfacts : ∀ {states pending handles wrote},
          ¬ Facts c₀ c states pending handles wrote := by
        intro _ _ _ _ hfacts
        obtain ⟨es, heffects, -, -, hnoswitch⟩ := hfacts.effects
        rw [heffects, Journal.since_writes] at hswitch
        exact hnoswitch hswitch
      have hat := hprogress.at_pc
      rcases hpc : t.pc with _ | _ | _ | _ | _ | downloadOk | _ | _ | _ | _ <;> rw [hpc] at hat
      case restart => exact hat.2
      case read => exact absurd hat hfacts
      case cleanup =>
        cases downloadOk with
        | true => exact absurd hat.1 hfacts
        | false =>
          obtain ⟨wrote, hat⟩ := hat
          exact absurd hat hfacts
      case done =>
        obtain ⟨states, wrote, hat, -⟩ := hat
        exact absurd hat hfacts
      all_goals exact absurd hat.1 hfacts
    · rw [hprogress.tasks] at hnone
      cases hnone
  · exact ⟨fun hswitch => absurd hswitch hundone.notSwitched, fun _ => hundone⟩

end Winegrid.Azure
