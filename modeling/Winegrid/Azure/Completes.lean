import Winegrid.Azure.Trace
import Winegrid.Azure.Update

/-!
# An update from an honest server

The server at the offered url sends the image, in blocks of any size, and no
call of the task fails.  Then the task installs the image, whatever events and
turns of `telemetry_task` come between its calls, as long as none of them asks
for a restart.

* `Honest` is what one step of such a session may be.
* `OnTrack` says what holds before each call of the task.
* `underway_task` is the step lemma, with the calls that are left.
* `update_completes` is the law of the sessions.
-/

namespace Winegrid.Azure

open Esp Client

variable {P : Platform} {c c' c₀ c₁ : Client} {t : Task} {o : TaskOutcomes} {tally : Tally}
  {image url version : Bytes}

/-! ## The server -/

/-- The bytes that a task has written. -/
def got (c : Client) (t : Task) : Bytes :=
  ((c.ota.find t.updateHandle).map OtaHandle.wrote).getD []

/-- The read answers a block of what is left of the image, and an empty one
only at its end. -/
def NextBlock (image got : Bytes) (o : TaskOutcomes) : Prop :=
  ∃ block ∈ o.read, block <+: image.drop got.length ∧
    (block = [] → image.length ≤ got.length ∧ o.complete = true)

/-- No call fails. -/
structure TaskOutcomes.Succeed (o : TaskOutcomes) : Prop where
  httpInit : o.httpInit = true
  httpOpen : o.httpOpen = true
  otaBegin : o.otaBegin = true
  otaWrite : o.otaWrite = true
  otaEnd : o.otaEnd = true
  setBoot : o.setBoot = true

instance (o : TaskOutcomes) : Decidable o.Succeed :=
  decidable_of_iff (o.httpInit ∧ o.httpOpen ∧ o.otaBegin ∧ o.otaWrite ∧ o.otaEnd ∧ o.setBoot)
    ⟨fun ⟨h₁, h₂, h₃, h₄, h₅, h₆⟩ => ⟨h₁, h₂, h₃, h₄, h₅, h₆⟩,
      fun ⟨h₁, h₂, h₃, h₄, h₅, h₆⟩ => ⟨h₁, h₂, h₃, h₄, h₅, h₆⟩⟩

instance (image got : Bytes) (o : TaskOutcomes) : Decidable (NextBlock image got o) := by
  unfold NextBlock
  infer_instance

/-- The calls of the task succeed, and a download from the url reads the image.
No event restarts the device. -/
def Honest (P : Platform) (image url : Bytes) (c : Client) : Label → Prop
  | .event o e => (hubMqttEventHandler P c o e).halt = c.halt
  | .task i o => o.Succeed ∧
    ∀ t ∈ c.tasks[i]?, t.pc = .read → t.url = url → NextBlock image (got c t) o
  | .telemetry => True

instance (P : Platform) (image url : Bytes) (c : Client) (l : Label) :
    Decidable (Honest P image url c l) := by
  cases l <;> unfold Honest <;> infer_instance

def Label.isTask : Label → Bool
  | .task .. => true
  | _ => false

/-- The image is in the other slot, which is started next.  Nothing else was
written, and the version waits for the check of the next boot. -/
structure Installed (c₀ : Client) (image version : Bytes) (c : Client) : Prop where
  journal : c₀.journal.Extends c.journal
  reports : reported (c₀.journal.since c.journal) = [.downloading, .verified, .updated]
  wrote : written (c₀.journal.since c.journal) = image
  image : c.journal.disk.app c₀.slot.other = image
  bootSlot : c.journal.disk.bootSlot = c₀.slot.other
  imgState : c.journal.disk.imgState = .new
  nvs : c.journal.disk.nvs = Function.update c₀.journal.disk.nvs .pendingFw (some version)

/-! ## The way of the task -/

/-- What holds before a call of a task that is on its way to the image. -/
def OnTrack (c₀ : Client) (image url version : Bytes) (tally : Tally) (c : Client) (t : Task) :
    TaskPc → Prop
  | .httpInit => True
  | .httpOpen | .otaBegin => t.url = url ∧ t.newVersion = version
  | .savePending => t.url = url ∧ t.newVersion = version ∧ t.updatePartition = c₀.slot.other
  | .read => t.url = url ∧ t.newVersion = version ∧ t.updatePartition = c₀.slot.other ∧
    tally.read <+: image
  | .cleanup true | .otaEnd | .setBoot =>
    t.newVersion = version ∧ t.updatePartition = c₀.slot.other ∧ tally.read = image
  | .restart => Installed c₀ image version c
  | .cleanup false | .done => False

/-- The calls that are left, with a byte for each read. -/
def callsLeft (image : Bytes) (tally : Tally) : TaskPc → Nat
  | .httpInit => image.length + 9
  | .httpOpen => image.length + 8
  | .otaBegin => image.length + 7
  | .savePending => image.length + 6
  | .read => image.length - tally.read.length + 5
  | .cleanup _ => 4
  | .otaEnd => 3
  | .setBoot => 2
  | .restart => 1
  | .done => 0

/-- The task of the offer is on its way. -/
structure Underway (c₀ : Client) (image url version : Bytes) (tally : Tally) (c : Client)
    (t : Task) : Prop where
  progress : Progress c₀ tally c t
  halt : c.halt = none
  slot : c.slot = c₀.slot
  arg : t.arg = packArg url version
  track : OnTrack c₀ image url version tally c t t.pc

/-- Chat keeps what was installed. -/
theorem Installed.chat (h : Installed c₀ image version c) (hchat : Chat c c') :
    Installed c₀ image version c' := by
  obtain ⟨es, hjournal, hchats⟩ := hchat.effects
  obtain ⟨fs, hfs⟩ := h.journal
  have hdisk : c'.journal.disk = c.journal.disk := by
    rw [hjournal, writes_talk fun e he => (hchats e he).1]
  have hall : c'.journal = c₀.journal.writes (fs ++ es) := by
    rw [Journal.writes_append, ← hfs, hjournal]
  have hreports := h.reports
  have hwrote := h.wrote
  rw [hfs, Journal.since_writes] at hreports hwrote
  refine ⟨⟨fs ++ es, hall⟩, ?_, ?_, ?_, ?_, ?_, ?_⟩
  · rw [hall, Journal.since_writes, reported_append, hreports, reported_chats hchats]
    rfl
  · rw [hall, Journal.since_writes, written_append, hwrote, written_chats hchats,
      List.append_nil]
  · rw [hdisk]
    exact h.image
  · rw [hdisk]
    exact h.bootSlot
  · rw [hdisk]
    exact h.imgState
  · rw [hdisk]
    exact h.nvs

/-- What happens beside the task keeps it on its way. -/
theorem Underway.chat (h : Underway c₀ image url version tally c t) (hchat : Chat c c')
    (hhalt : c'.halt = c.halt) : Underway c₀ image url version tally c' t := by
  refine ⟨h.progress.chat hchat, hhalt.trans h.halt, hchat.slot.trans h.slot, h.arg, ?_⟩
  have htrack := h.track
  cases hpc : t.pc with
  | restart =>
    rw [hpc] at htrack
    exact Installed.chat htrack hchat
  | cleanup downloadOk =>
    rw [hpc] at htrack
    cases downloadOk with
    | true => exact htrack
    | false => exact htrack.elim
  | _ =>
    rw [hpc] at htrack
    exact htrack

/-! ## The calls -/

theorem taskStep_slot (P : Platform) (c : Client) (i : Nat) (t : Task) (o : TaskOutcomes) :
    (c.taskStep P i t o).slot = c.slot := by
  unfold taskStep
  cases t.pc with
  | read =>
    simp only
    split
    · rfl
    · rfl
    · split_ifs <;> rfl
  | savePending | restart | done => rfl
  | _ =>
    simp only
    split_ifs <;> rfl

theorem taskStep_halt (P : Platform) (c : Client) (i : Nat) (o : TaskOutcomes)
    (hpc : t.pc ≠ .restart) : (c.taskStep P i t o).halt = c.halt := by
  unfold taskStep
  cases hat : t.pc with
  | restart => exact absurd hat hpc
  | read =>
    simp only
    split
    · rfl
    · rfl
    · split_ifs <;> rfl
  | savePending | done => rfl
  | _ =>
    simp only
    split_ifs <;> rfl

/-- The task goes on as `t'`, and what `AtPc` says of it was done. -/
theorem Underway.goesOn {t' : Task} (hbase : Base c₀)
    (h : Underway c₀ image url version tally c t) (hpc : t.pc ≠ .restart)
    (htasks : (c.taskStep P 0 t o).tasks = [t']) (harg : t'.arg = t.arg)
    (htrack : OnTrack c₀ image url version (tally.observe t o) (c.taskStep P 0 t o) t' t'.pc) :
    Underway c₀ image url version (tally.observe t o) (c.taskStep P 0 t o) t' := by
  refine ⟨?_, (taskStep_halt P c 0 o hpc).trans h.halt, (taskStep_slot P c 0 t o).trans h.slot,
    harg.trans h.arg, htrack⟩
  rcases taskStep_progress (P := P) hbase.pending h.progress o with ⟨t'', hprogress⟩ | hundone
  · have hsame := hprogress.tasks
    rw [htasks, List.cons.injEq] at hsame
    exact hsame.1 ▸ hprogress
  · have hnone := hundone.tasks
    rw [htasks] at hnone
    cases hnone

/-- The open handle of the task has the bytes of its reads. -/
theorem Underway.handle (h : Underway c₀ image url version tally c t) (hpc : t.pc = .read) :
    c.ota.find t.updateHandle = some (t.handle tally.read) := by
  have hfacts := h.progress.at_pc
  rw [hpc] at hfacts
  have hopen : c.ota.handles = [t.handle tally.read] := Facts.openHandles hfacts
  rw [Ota.find, hopen]
  simp [Task.handle]

theorem Underway.got_eq (h : Underway c₀ image url version tally c t) (hpc : t.pc = .read) :
    got c t = tally.read := by
  rw [got, h.handle hpc]
  rfl

/-- One block more is a longer part of the image. -/
theorem prefix_append {done block : Bytes} (hdone : done <+: image)
    (hblock : block <+: image.drop done.length) : done ++ block <+: image := by
  obtain ⟨rest, rfl⟩ := hdone
  rw [List.drop_left] at hblock
  exact (List.prefix_append_right_inj done).mpr hblock

/-- The read of a block, or of the end of the image. -/
theorem underway_read (hbase : Base c₀) (hroom : image.length ≤ P.partitionSize)
    (h : Underway c₀ image url version tally c t) (hpc : t.pc = .read) (hok : o.Succeed)
    (hblock : NextBlock image (got c t) o) :
    ∃ t' tally', Underway c₀ image url version tally' (c.taskStep P 0 t o) t' ∧
      callsLeft image tally' t'.pc < callsLeft image tally t.pc := by
  have htrack := h.track
  rw [hpc] at htrack
  obtain ⟨hurl, hversion, hpartition, hread⟩ := htrack
  rw [h.got_eq hpc] at hblock
  obtain ⟨block, hanswer, hpart, hend⟩ := hblock
  have hanswer : o.read = some block := hanswer
  rcases block with _ | ⟨b, rest⟩
  · obtain ⟨hall, hcomplete⟩ := hend rfl
    have hobserve : tally.observe t o = { tally with complete := o.complete } := by
      simp only [Tally.observe, hpc, hanswer]
    have htasks : (c.taskStep P 0 t o).tasks = [{ t with pc := .cleanup true }] := by
      simp only [taskStep, hpc, hanswer, hcomplete]
      exact setTask_tasks h.progress.tasks _
    refine ⟨_, _, h.goesOn hbase (by simp [hpc]) htasks rfl ?_, ?_⟩
    · rw [hobserve]
      exact ⟨hversion, hpartition, hread.eq_of_length_le hall⟩
    · simp only [callsLeft, hpc]
      omega
  · have hlonger : tally.read ++ b :: rest <+: image := prefix_append hread hpart
    have hlen := hlonger.length_le
    rw [List.length_append, List.length_cons] at hlen
    have hcan : c.ota.canWrite t.updateHandle P.partitionSize (b :: rest) = true := by
      simp only [Ota.canWrite, h.handle hpc, Task.handle, List.length_cons, decide_eq_true_eq]
      omega
    have hobserve : tally.observe t o = { tally with read := tally.read ++ b :: rest } := by
      simp only [Tally.observe, hpc, hanswer]
    have htasks : (c.taskStep P 0 t o).tasks = [t] := by
      simp only [taskStep, hpc, hanswer, hok.otaWrite, hcan]
      exact h.progress.tasks
    refine ⟨t, _, h.goesOn hbase (by simp [hpc]) htasks rfl ?_, ?_⟩
    · rw [hobserve, hpc]
      exact ⟨hurl, hversion, hpartition, hlonger⟩
    · rw [hobserve]
      simp only [callsLeft, hpc, List.length_append, List.length_cons]
      omega

/-- The switch of the boot partition is the last change of the flash. -/
theorem underway_installed (h : Underway c₀ image url version tally c t)
    (hpc : t.pc = .setBoot) (hok : o.Succeed) :
    Installed c₀ image version (c.taskStep P 0 t o) := by
  have hat := h.progress.at_pc
  have htrack := h.track
  rw [hpc] at hat htrack
  obtain ⟨hfacts, -, -, happ⟩ := hat
  obtain ⟨hversion, hpartition, hread⟩ := htrack
  obtain ⟨es, heffects, hreported, hwritten, -⟩ := hfacts.effects
  let fs : List Effect := [
    .setBoot t.updatePartition (P.build (c.journal.disk.app t.updatePartition)).version true,
    .publish (reportedTopic (c.twinRequestId + 1)) (fwStatePayload .updated)]
  have hstep : (c.taskStep P 0 t o).journal = c.journal.writes fs := by
    simp only [taskStep, hpc, hok.setBoot]
    rfl
  have hall : (c.taskStep P 0 t o).journal = c₀.journal.writes (es ++ fs) := by
    rw [Journal.writes_append, ← heffects, hstep]
  refine ⟨⟨es ++ fs, hall⟩, ?_, ?_, ?_, ?_, ?_, ?_⟩
  · rw [hall, Journal.since_writes, reported_append, hreported]
    exact congrArg ([.downloading, .verified] ++ ·)
      (reported_report (reportedTopic (c.twinRequestId + 1)) .updated)
  · rw [hall, Journal.since_writes, written_append, hwritten, hread]
    exact List.append_nil image
  · rw [hstep, ← hpartition, ← hread]
    exact happ
  · rw [hstep, ← hpartition]
    rfl
  · rw [hstep]
    rfl
  · rw [hstep, ← hversion, ← hfacts.nvs]
    rfl

/-- The argument of the offer is split again. -/
theorem Underway.split (h : Underway c₀ image url version tally c t) (hurl : 10 ∉ url)
    (hversion : version.length ≤ 31) :
    t.arg.takeWhile (· ≠ 10) = url ∧
      (t.arg.drop ((t.arg.takeWhile (· ≠ 10)).length + 1)).take 31 = version := by
  obtain ⟨htake, hdrop⟩ := packArg_split (v := version) hurl
  rw [h.arg, htake, hdrop, List.take_of_length_le hversion]
  exact ⟨rfl, rfl⟩

/-- The task goes on as `t'`, with fewer calls left. -/
theorem Underway.nearer {t' : Task} {pc : TaskPc} (hbase : Base c₀)
    (h : Underway c₀ image url version tally c t) (hpc : t.pc ≠ .restart)
    (htasks : (c.taskStep P 0 t o).tasks = [t']) (harg : t'.arg = t.arg) (hpc' : t'.pc = pc)
    (htrack : OnTrack c₀ image url version (tally.observe t o) (c.taskStep P 0 t o) t' pc)
    (hless : callsLeft image (tally.observe t o) pc < callsLeft image tally t.pc) :
    ∃ t' tally', Underway c₀ image url version tally' (c.taskStep P 0 t o) t' ∧
      callsLeft image tally' t'.pc < callsLeft image tally t.pc := by
  subst hpc'
  exact ⟨t', _, h.goesOn hbase hpc htasks harg htrack, hless⟩

/-- Every call but the last one brings the task nearer to its end. -/
theorem underway_task (hbase : Base c₀) (hurl : 10 ∉ url) (hversion : version.length ≤ 31)
    (hroom : image.length ≤ P.partitionSize) (h : Underway c₀ image url version tally c t)
    (hpc : t.pc ≠ .restart) (hok : o.Succeed)
    (hserves : t.pc = .read → t.url = url → NextBlock image (got c t) o) :
    ∃ t' tally', Underway c₀ image url version tally' (c.taskStep P 0 t o) t' ∧
      callsLeft image tally' t'.pc < callsLeft image tally t.pc := by
  have htrack := h.track
  have hset : ∀ {d : Client} (t' : Task), d.tasks = c.tasks → (d.setTask 0 t').tasks = [t'] :=
    fun t' htasks => setTask_tasks (htasks.trans h.progress.tasks) t'
  cases hat : t.pc with
  | httpInit =>
    obtain ⟨htake, hdrop⟩ := h.split hurl hversion
    have htasks : (c.taskStep P 0 t o).tasks = [{ t with
        url := t.arg.takeWhile (· ≠ 10)
        newVersion := (t.arg.drop ((t.arg.takeWhile (· ≠ 10)).length + 1)).take 31
        pc := .httpOpen, http := c.http.alloc.last }] := by
      simp only [taskStep, hat, hok.httpInit]
      exact hset _ rfl
    rw [← hat]
    refine h.nearer hbase hpc htasks rfl rfl ⟨htake, hdrop⟩ ?_
    simp only [callsLeft, hat]
    omega
  | httpOpen =>
    rw [hat] at htrack
    have htasks : (c.taskStep P 0 t o).tasks = [{ t with pc := .otaBegin }] := by
      simp only [taskStep, hat, hok.httpOpen]
      exact hset _ rfl
    rw [← hat]
    refine h.nearer hbase hpc htasks rfl rfl htrack ?_
    simp only [callsLeft, hat]
    omega
  | otaBegin =>
    rw [hat] at htrack
    have htasks : (c.taskStep P 0 t o).tasks = [{ t with
        pc := .savePending
        updateHandle := (c.ota.start c.slot.other).lastHandle
        updatePartition := c.slot.other }] := by
      simp only [taskStep, hat, hok.otaBegin]
      exact hset _ rfl
    rw [← hat]
    refine h.nearer hbase hpc htasks rfl rfl ⟨htrack.1, htrack.2, congrArg Slot.other h.slot⟩ ?_
    simp only [callsLeft, hat]
    omega
  | savePending =>
    have hat' := h.progress.at_pc
    rw [hat] at htrack hat'
    have hobserve : tally.observe t o = tally := by simp only [Tally.observe, hat]
    have htasks : (c.taskStep P 0 t o).tasks = [{ t with pc := .read }] := by
      simp only [taskStep, hat]
      exact hset _ rfl
    have hnothing : tally.read <+: image := hat'.2 ▸ List.nil_prefix
    rw [← hat]
    refine h.nearer hbase hpc htasks rfl rfl ?_ ?_
    · rw [hobserve]
      exact ⟨htrack.1, htrack.2.1, htrack.2.2, hnothing⟩
    · simp only [callsLeft, hat]
      omega
  | read =>
    rw [hat] at htrack
    rw [← hat]
    exact underway_read hbase hroom h hat hok (hserves hat htrack.1)
  | cleanup downloadOk =>
    rw [hat] at htrack
    cases downloadOk with
    | false => exact htrack.elim
    | true =>
      have hobserve : tally.observe t o = tally := by simp only [Tally.observe, hat]
      have htasks : (c.taskStep P 0 t o).tasks = [{ t with pc := .otaEnd }] := by
        simp only [taskStep, hat, if_true]
        exact hset _ rfl
      rw [← hat]
      refine h.nearer hbase hpc htasks rfl rfl ?_ ?_
      · rw [hobserve]
        exact htrack
      · simp only [callsLeft, hat]
        omega
  | otaEnd =>
    rw [hat] at htrack
    have hobserve : tally.observe t o = { tally with ended := o.otaEnd } := by
      simp only [Tally.observe, hat]
    have htasks : (c.taskStep P 0 t o).tasks = [{ t with pc := .setBoot }] := by
      simp only [taskStep, hat, hok.otaEnd]
      exact hset _ rfl
    rw [← hat]
    refine h.nearer hbase hpc htasks rfl rfl ?_ ?_
    · rw [hobserve]
      exact htrack
    · simp only [callsLeft, hat]
      omega
  | setBoot =>
    have htasks : (c.taskStep P 0 t o).tasks = [{ t with pc := .restart }] := by
      simp only [taskStep, hat, hok.setBoot]
      exact hset _ rfl
    rw [← hat]
    refine h.nearer hbase hpc htasks rfl rfl (underway_installed h hat hok) ?_
    simp only [callsLeft, hat]
    omega
  | restart => exact absurd hat hpc
  | done =>
    rw [hat] at htrack
    exact htrack.elim

/-! ## Sessions -/

/-- Where a session is: the task is on its way with calls left, or the device
restarts into the image. -/
inductive Session (c₀ : Client) (image url version : Bytes) (left : Nat) (c : Client) : Prop
  | underway (tally : Tally) (t : Task) (h : Underway c₀ image url version tally c t)
    (hleft : callsLeft image tally t.pc ≤ left)
  | restarts (hhalt : c.halt = some .restart) (h : Installed c₀ image version c)

/-- The offer is the start of a session. -/
theorem offer_session {e : Event} {answers : Outcomes} (hbase : Base c₀)
    (hstart : startedBy P c₀ e = some (url, version)) (hcreate : answers.taskCreate = true)
    (hoffer : c₀.next P (.event answers e) = some c₁) :
    Session c₀ image url version (image.length + 9) c₁ := by
  obtain ⟨hhalt, hstep⟩ := next_step hoffer
  cases hstep
  have hvars := handler_updateVars P c₀ answers e
  rw [hstart, Option.elim_some] at hvars
  have htasks := tasks_of_start hbase.tasks hvars
  rw [hcreate, if_pos rfl] at htasks
  obtain ⟨t, hprogress⟩ := progress_start hbase hoffer (by simp [htasks])
  obtain rfl : newTask (packArg url version) c₀.args.alloc.last = t := by
    have hsame := hprogress.tasks
    rw [htasks, List.cons.injEq] at hsame
    exact hsame.1
  obtain ⟨es, htalked, -⟩ := handler_talked P c₀ answers e
  exact .underway ⟨[], false, false⟩ _
    ⟨hprogress, (startedBy_halt answers hstart).trans hhalt, htalked.slot, rfl, trivial⟩
    (Nat.le_refl _)

/-- Each call of the task takes one of the calls that are left. -/
theorem session_next {l : Label} {left : Nat} (hbase : Base c₀) (hurl : 10 ∉ url)
    (hversion : version.length ≤ 31) (hroom : image.length ≤ P.partitionSize)
    (h : Session c₀ image url version left c) (hok : Honest P image url c l)
    (hnext : c.next P l = some c') :
    (if l.isTask then 1 else 0) ≤ left ∧
      Session c₀ image url version (left - if l.isTask then 1 else 0) c' := by
  obtain ⟨hhalt, hstep⟩ := next_step hnext
  cases h with
  | restarts hrestart => exact absurd (hrestart.symm.trans hhalt) (by decide)
  | underway tally t h hleft =>
    cases hstep with
    | event o e =>
      refine ⟨Nat.zero_le _, ?_⟩
      rcases handler_move P c o e with hchat | ⟨hidle, -, -, -⟩ | ⟨hidle, -, -, -, -⟩
      · exact .underway tally t (h.chat hchat hok) hleft
      · exact absurd (hidle.symm.trans h.progress.busy) (by decide)
      · exact absurd (hidle.symm.trans h.progress.busy) (by decide)
    | telemetry =>
      have hsame : c.telemetry.halt = c.halt := by
        unfold telemetry
        split_ifs <;> rfl
      exact ⟨Nat.zero_le _, .underway tally t (h.chat (telemetry_chat c) hsame) hleft⟩
    | @task i t' o htask hfits =>
      have hone := htask
      rw [h.progress.tasks, List.getElem?_singleton] at hone
      split_ifs at hone with hi
      cases hone
      subst hi
      have hpos : 0 < callsLeft image tally t.pc := by
        have htrack := h.track
        cases hpc : t.pc <;> simp only [callsLeft] <;> try omega
        rw [hpc] at htrack
        exact htrack.elim
      refine ⟨Nat.le_trans hpos hleft, ?_⟩
      by_cases hpc : t.pc = .restart
      · have hinstalled := h.track
        rw [hpc] at hinstalled
        have hend : c.taskStep P 0 t o = { c with halt := some .restart } := by
          simp only [taskStep, hpc]
        rw [hend]
        exact .restarts rfl ⟨hinstalled.journal, hinstalled.reports, hinstalled.wrote,
          hinstalled.image, hinstalled.bootSlot, hinstalled.imgState, hinstalled.nvs⟩
      · obtain ⟨t', tally', h', hless⟩ := underway_task hbase hurl hversion hroom h hpc hok.1
          (hok.2 t htask)
        refine .underway tally' t' h' ?_
        simp only [Label.isTask, if_true]
        omega

/-- Until the device restarts, the next call of the task can be made. -/
theorem session_enabled {left : Nat} (h : Session c₀ image url version left c)
    (hhalt : c.halt = none) :
    ∃ o c', Honest P image url c (.task 0 o) ∧ c.next P (.task 0 o) = some c' := by
  cases h with
  | restarts hrestart => exact absurd (hrestart.symm.trans hhalt) (by decide)
  | underway tally t h hleft =>
    let block := (image.drop (got c t).length).take readBufSize
    let o : TaskOutcomes := ⟨true, true, true, some block, true, true, true, true⟩
    have hfits : o.Fits := by
      intro data hdata
      cases hdata
      exact List.length_take_le _ _
    refine ⟨o, c.taskStep P 0 t o, ⟨⟨rfl, rfl, rfl, rfl, rfl, rfl⟩, fun t' ht' _ _ => ?_⟩, ?_⟩
    · rw [h.progress.tasks] at ht'
      cases ht'
      refine ⟨block, rfl, List.take_prefix _ _, fun hnone => ⟨?_, rfl⟩⟩
      have hlen : block.length = 0 := by rw [hnone]; rfl
      simp only [block, List.length_take, List.length_drop, readBufSize] at hlen
      omega
    · simp [Client.next, hhalt, h.progress.tasks, hfits]

/-- When the device restarts, the image is installed. -/
theorem Session.installed {left : Nat} (h : Session c₀ image url version left c)
    (hrestart : c.halt = some .restart) : Installed c₀ image version c := by
  cases h with
  | restarts _ h => exact h
  | underway _ _ h => exact absurd (hrestart.symm.trans h.halt) (by decide)

/-- A run from the offer is a session, with a call less for each one made. -/
theorem session_run {e : Event} {answers : Outcomes} {ls : List Label} (hbase : Base c₀)
    (hstart : startedBy P c₀ e = some (url, version)) (hcreate : answers.taskCreate = true)
    (hurl : 10 ∉ url) (hversion : version.length ≤ 31) (hroom : image.length ≤ P.partitionSize)
    (hoffer : c₀.next P (.event answers e) = some c₁)
    (hrun : (client P).Run (Honest P image url) c₁ ls c) :
    ls.countP Label.isTask ≤ image.length + 9 ∧
      Session c₀ image url version (image.length + 9 - ls.countP Label.isTask) c := by
  refine hrun.invariant (I := fun ls c => ls.countP Label.isTask ≤ image.length + 9 ∧
    Session c₀ image url version (image.length + 9 - ls.countP Label.isTask) c)
    ⟨Nat.zero_le _, offer_session hbase hstart hcreate hoffer⟩ ?_
  intro ls c l c' ⟨hcount, hsession⟩ hok hnext
  obtain ⟨hleft, hsession'⟩ := session_next hbase hurl hversion hroom hsession hok hnext
  rw [List.countP_append, List.countP_singleton]
  refine ⟨by omega, ?_⟩
  rw [Nat.sub_sub] at hsession'
  exact hsession'

/-- A client without an attempt gets an offer, and the server at its url sends
the image.  Then the task makes at most nine calls and one for each byte; as
long as the device does not restart, the next one can be made; and when it
restarts, the image is installed. -/
theorem update_completes {e : Event} {answers : Outcomes} {ls : List Label} (hbase : Base c₀)
    (hstart : startedBy P c₀ e = some (url, version)) (hcreate : answers.taskCreate = true)
    (hurl : 10 ∉ url) (hversion : version.length ≤ 31) (hroom : image.length ≤ P.partitionSize)
    (hoffer : c₀.next P (.event answers e) = some c₁)
    (hrun : (client P).Run (Honest P image url) c₁ ls c) :
    ls.countP Label.isTask ≤ image.length + 9 ∧
      (c.halt = none →
        ∃ o c', Honest P image url c (.task 0 o) ∧ c.next P (.task 0 o) = some c') ∧
      (c.halt = some .restart → Installed c₀ image version c) := by
  obtain ⟨hcount, hsession⟩ := session_run hbase hstart hcreate hurl hversion hroom hoffer hrun
  exact ⟨hcount, session_enabled hsession, hsession.installed⟩

/-- Two blocks, with telemetry and the same offer again between them. -/
def honestSession : List Label :=
  List.replicate 4 (.task 0 (reads [])) ++ [.task 0 (reads [7, 8]), .telemetry, offerEvent,
    .task 0 (reads [9])] ++ List.replicate 5 (.task 0 (reads []))

theorem update_completes_sample :
    ∃ c : Client, c.halt = some .restart ∧ Installed sampleClient [7, 8, 9] (ascii "1.1") c := by
  obtain ⟨c, hexec, hrestart⟩ := Machine.exists_of_any
    (p := fun c : Client => c.halt = some .restart)
    (o := ((client offerPlatform).guarded (Honest offerPlatform [7, 8, 9]
      (ascii "http://h/a.bin"))).exec (hubMqttEventHandler offerPlatform sampleClient
        sampleOutcomes (.data patchTopic offerText)) honestSession) (by decide +kernel)
  have hbase : Base sampleClient := ⟨rfl, rfl, rfl⟩
  have hstart : startedBy offerPlatform sampleClient (.data patchTopic offerText) =
      some (ascii "http://h/a.bin", ascii "1.1") := by decide +kernel
  have hcreate : sampleOutcomes.taskCreate = true := rfl
  have hroom : ([7, 8, 9] : Bytes).length ≤ offerPlatform.partitionSize := by decide
  have hcompletes := update_completes hbase hstart hcreate (by decide) (by decide) hroom rfl
    (Machine.Run.of_guarded (Machine.Run.exec hexec))
  exact ⟨c, hrestart, hcompletes.2.2 hrestart⟩

end Winegrid.Azure
