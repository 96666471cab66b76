import Winegrid.Azure.Outcome

/-!
# No update, no `pending_fw`

The law of `ota_task` over a whole device.  `reconcile_pending_ota` erases
every `pending_fw` that fits its buffer, and `ota_task` stores no longer one:
`ShortPending` is kept by every effect, at whatever point power is lost.

* `sane_next`: a client with no task alive is a `Base`, and one with a task is
  in an attempt that began in a `Base`.
* `device_sane`: the same in every reachable state of a device.
* `ota_outcome`: the law of every attempt, and the absence of `pending_fw`
  whenever no task is alive.
-/

namespace Winegrid.Azure

open Esp Client

variable {P : Platform} {c c' c₀ : Client} {t : Task} {j k : Log} {e : Effect}

/-! ## Short markers -/

/-- A stored `pending_fw` fits the buffer of `reconcile_pending_ota`. -/
def ShortPending (flash : Flash) : Prop :=
  ∀ v, flash.nvs .pendingFw = some v → v.length < 32

/-- An effect that stores no longer one. -/
def KeepsShort (e : Effect) : Prop := ∀ v, e = .nvsSet .pendingFw v → v.length < 32

theorem keepsShort_of_talks (h : Talks e) : KeepsShort e := by
  intro v heq
  subst heq
  exact absurd h id

/-- An effect that leaves the marker alone. -/
theorem pendingFw_apply {flash : Flash} (h : KeepsPending e) :
    (flash.apply e).nvs .pendingFw = flash.nvs .pendingFw := by
  cases e with
  | nvsSet key value =>
    have hkey : .pendingFw ≠ key := by
      intro heq
      subst heq
      exact h.1 value rfl
    simp [Flash.apply, hkey]
  | nvsErase key =>
    have hkey : .pendingFw ≠ key := by
      intro heq
      subst heq
      exact h.2 rfl
    simp [Flash.apply, hkey]
  | setBoot slot version ok => cases ok <;> rfl
  | _ => rfl

theorem ShortPending.write {flash : Flash} (h : ShortPending flash) (he : KeepsShort e) :
    ShortPending (flash.apply e) := by
  intro v hv
  by_cases hset : ∃ w, e = .nvsSet .pendingFw w
  · obtain ⟨w, rfl⟩ := hset
    have hsame : w = v := by simpa [Flash.apply] using hv
    exact hsame ▸ he w rfl
  · by_cases herase : e = .nvsErase .pendingFw
    · rw [herase] at hv
      simp [Flash.apply] at hv
    · rw [pendingFw_apply ⟨fun w hw => hset ⟨w, hw⟩, herase⟩] at hv
      exact h v hv

/-- The journal `k` continues `j` with effects that keep the marker short. -/
def Leads (j k : Log) : Prop := ∃ es, k = j.writes es ∧ ∀ e ∈ es, KeepsShort e

theorem ShortPending.writes {es : List Effect} (h : ShortPending j.disk)
    (hes : ∀ e ∈ es, KeepsShort e) : ShortPending (j.writes es).disk := by
  induction es generalizing j with
  | nil => exact h
  | cons e es ih =>
    rw [Journal.writes_cons]
    exact ih (h.write (hes e List.mem_cons_self)) fun e he => hes e (List.mem_cons_of_mem _ he)

theorem Leads.short (h : Leads j k) (hj : ShortPending j.disk) : ShortPending k.disk := by
  obtain ⟨es, rfl, hes⟩ := h
  exact hj.writes hes

/-- However many of the effects were done, the marker is short. -/
theorem Leads.upTo (h : Leads j k) (hj : ShortPending j.disk) (n : Nat) :
    ShortPending (j.upTo k n).disk := by
  obtain ⟨es, rfl, hes⟩ := h
  rw [Journal.upTo, Journal.since_writes]
  exact hj.writes fun e he => hes e (List.mem_of_mem_take he)

theorem Leads.refl (j : Log) : Leads j j := ⟨[], rfl, by simp⟩

theorem Leads.trans {l : Log} (h : Leads j k) (h' : Leads k l) : Leads j l := by
  obtain ⟨es, rfl, hes⟩ := h
  obtain ⟨fs, rfl, hfs⟩ := h'
  refine ⟨es ++ fs, by rw [Journal.writes_append], fun e he => ?_⟩
  rcases List.mem_append.mp he with he | he
  · exact hes e he
  · exact hfs e he

/-! ## `app_main` -/

/-- The reconciliation erases a marker that fits its buffer. -/
theorem reconcilePendingOta_leads (current : Bytes) (hj : ShortPending j.disk) :
    Leads j (reconcilePendingOta current j) ∧
      (reconcilePendingOta current j).disk.nvs .pendingFw = none := by
  unfold reconcilePendingOta
  split
  · rename_i hload
    refine ⟨.refl j, ?_⟩
    rcases hv : j.disk.nvs .pendingFw with _ | v
    · rfl
    · rw [loadNvsStr_eq_some.mpr ⟨hv, hj v hv⟩] at hload
      cases hload
  · rename_i pending hload
    simp only
    split_ifs
    · exact ⟨⟨[_], rfl, by simp [KeepsShort]⟩, by simp [Flash.apply]⟩
    · exact ⟨⟨[_, _], rfl, by simp [KeepsShort]⟩, by simp [Flash.apply]⟩

theorem keepsShort_of_keepsPending (h : KeepsPending e) : KeepsShort e :=
  fun v heq => absurd heq (h.1 v)

theorem keepsPending_of_prepares (h : Prepares e) : KeepsPending e := by
  cases e with
  | call c => exact ⟨by simp, by simp⟩
  | nvsSet key value =>
    refine ⟨fun v heq => ?_, by simp⟩
    cases heq
    exact h.1 rfl
  | _ => exact absurd h id

/-- Effects that leave the marker alone keep its absence. -/
theorem Leads.keeps {es : List Effect} (hj : j.disk.nvs .pendingFw = none)
    (h : ∀ e ∈ es, KeepsPending e) :
    Leads j (j.writes es) ∧ (j.writes es).disk.nvs .pendingFw = none := by
  refine ⟨⟨es, rfl, fun e he => keepsShort_of_keepsPending (h e he)⟩, ?_⟩
  induction es generalizing j with
  | nil => exact hj
  | cons e es ih =>
    rw [Journal.writes_cons]
    refine ih ?_ fun e he => h e (List.mem_cons_of_mem _ he)
    exact (pendingFw_apply (h e List.mem_cons_self)).trans hj

theorem confirmImage_leads (hj : j.disk.nvs .pendingFw = none) :
    Leads j (confirmImage j) ∧ (confirmImage j).disk.nvs .pendingFw = none := by
  unfold confirmImage
  split_ifs
  · exact ⟨⟨[.markValid], rfl, by simp [KeepsShort]⟩, hj⟩
  · exact ⟨.refl j, hj⟩

/-- `app_main` leaves no `pending_fw`. -/
theorem appMain_leads (o : StartOutcomes) (hj : ShortPending j.disk) :
    Leads j ((firmware P).appMain P o j) ∧
      ((firmware P).appMain P o j).disk.nvs .pendingFw = none := by
  let version := (Firmware.bootBuild P j).version
  let j₁ := (j.write (.boot j.disk.bootSelect version)).write (.call .nvsFlashInit)
  have hboot : Leads j j₁ :=
    ⟨[.boot j.disk.bootSelect version, .call .nvsFlashInit], rfl, by simp [KeepsShort]⟩
  obtain ⟨hreconcile, hnone⟩ := reconcilePendingOta_leads version (hboot.short hj)
  obtain ⟨hnetwork, hnone₂⟩ := Leads.keeps hnone
    (show ∀ e ∈ networkCalls, KeepsPending e by simp [networkCalls, KeepsPending])
  obtain ⟨hconfirm, hnone₃⟩ := confirmImage_leads hnone₂
  have hstart : ∀ e ∈ ((firmware P).startup o (Firmware.confirm P j).disk.nvs).1 ++
      (if ((firmware P).startup o (Firmware.confirm P j).disk.nvs).2 then [.call .clientStart]
        else []), KeepsPending e := by
    intro e he
    rcases List.mem_append.mp he with he | he
    · exact keepsPending_of_prepares (startup_prepares o _ e he)
    · split_ifs at he
      · rw [List.mem_singleton.mp he]
        exact ⟨by simp, by simp⟩
      · cases he
  obtain ⟨hstartup, hnone₄⟩ := Leads.keeps hnone₃ hstart
  exact ⟨(((hboot.trans hreconcile).trans hnetwork).trans hconfirm).trans hstartup, hnone₄⟩

/-! ## The client -/

/-- The marker is short, the tasks would store a short one, and the client is
idle or in an attempt that began idle. -/
structure Sane (P : Platform) (c : Client) : Prop where
  short : ShortPending c.journal.disk
  versions : ∀ t ∈ c.tasks, t.newVersion.length < 32
  attempt : Base c ∨ ∃ c₀ tally, Base c₀ ∧ Attempt P c₀ tally c ∧ c.tasks ≠ []

/-- One call of the task stores a version of at most 31 bytes. -/
theorem taskStep_leads (h : c.tasks = [t]) (hversion : t.newVersion.length < 32)
    (o : TaskOutcomes) : Leads c.journal (c.taskStep P 0 t o).journal ∧
      ∀ t' ∈ (c.taskStep P 0 t o).tasks, t'.newVersion.length < 32 := by
  have hmove := taskStep_move P c t o
  generalize c.taskStep P 0 t o = c' at hmove ⊢
  have hone : ∀ {d : Client} {t' : Task}, d.tasks = [t'] → t'.newVersion.length < 32 →
      ∀ t'' ∈ d.tasks, t''.newVersion.length < 32 := by
    intro d t' htasks hlen t'' hmem
    rw [htasks, List.mem_singleton] at hmem
    rwa [hmem]
  have hset : ∀ {d : Client} {t' : Task}, d.tasks = [t] → t'.newVersion.length < 32 →
      ∀ t'' ∈ (d.setTask 0 t').tasks, t''.newVersion.length < 32 :=
    fun htasks => hone (setTask_tasks htasks _)
  cases hmove with
  | @goesOn d es t' htalked hsame hgoes =>
    refine ⟨⟨es, htalked.journal, fun e he => keepsShort_of_talks (htalked.talks e he)⟩,
      hset (hsame.tasks.trans h) ?_⟩
    by_cases hpc : t.pc = .httpInit
    · rw [hgoes.split hpc, List.length_take]
      omega
    · rwa [hgoes.version hpc]
  | begins hpc =>
    exact ⟨⟨[.otaBegin _], rfl, by simp [KeepsShort]⟩, hset h hversion⟩
  | saves hpc =>
    refine ⟨⟨[.nvsSet .pendingFw t.newVersion, .publish _ _], rfl, ?_⟩, hset h hversion⟩
    simpa [KeepsShort] using hversion
  | writes hpc =>
    exact ⟨⟨[.otaWrite _ _], rfl, by simp [KeepsShort]⟩, hone h hversion⟩
  | @abandons d hpc hjournal hslot hsame =>
    refine ⟨?_, hset (hsame.tasks.trans h) hversion⟩
    rw [← hjournal]
    exact ⟨[.publish _ _, .nvsErase .pendingFw], rfl, by simp [KeepsShort]⟩
  | fails hpc =>
    exact ⟨⟨[.setBoot _ _ false, .publish _ _, .nvsErase .pendingFw], rfl, by simp [KeepsShort]⟩,
      hset h hversion⟩
  | installs hpc =>
    exact ⟨⟨[.setBoot _ _ true, .publish _ _], rfl, by simp [KeepsShort]⟩, hset h hversion⟩
  | restarts hpc =>
    exact ⟨.refl _, hone h hversion⟩
  | ends hpc => exact ⟨.refl _, by simp [h]⟩

/-- An event starts at most a task that has stored no version. -/
theorem event_leads (h : ∀ t ∈ c.tasks, t.newVersion.length < 32) (o : Outcomes) (e : Event) :
    Leads c.journal (hubMqttEventHandler P c o e).journal ∧
      ∀ t ∈ (hubMqttEventHandler P c o e).tasks, t.newVersion.length < 32 := by
  rcases handler_move P c o e with
    hchat | ⟨-, ⟨es, hjournal, htalks⟩, htasks, -⟩ |
      ⟨-, ⟨es, hjournal, hchats⟩, ⟨_, _, htasks⟩, -, -⟩
  · obtain ⟨es, hjournal, hchats⟩ := hchat.effects
    rw [hchat.tasks]
    exact ⟨⟨es, hjournal, fun e he => keepsShort_of_talks (hchats e he).1⟩, h⟩
  · rw [htasks]
    exact ⟨⟨es, hjournal, fun e he => keepsShort_of_talks (htalks e he)⟩, h⟩
  · refine ⟨⟨es, hjournal, fun e he => keepsShort_of_talks (hchats e he).1⟩, fun t ht => ?_⟩
    rw [htasks] at ht
    rcases List.mem_append.mp ht with ht | ht
    · exact h t ht
    · rw [List.mem_singleton.mp ht]
      exact Nat.zero_lt_succ 31

theorem next_leads {l : Label} (h : Sane P c) (hnext : c.next P l = some c') :
    Leads c.journal c'.journal ∧ ∀ t ∈ c'.tasks, t.newVersion.length < 32 := by
  obtain ⟨-, hstep⟩ := next_step hnext
  cases hstep with
  | event o e => exact event_leads h.versions o e
  | telemetry =>
    obtain ⟨es, hjournal, hchats⟩ := (telemetry_chat c).effects
    rw [(telemetry_chat c).tasks]
    exact ⟨⟨es, hjournal, fun e he => keepsShort_of_talks (hchats e he).1⟩, h.versions⟩
  | @task i t o htask hfits =>
    rcases h.attempt with hbase | ⟨c₀, tally, hbase, hattempt, hlive⟩
    · rw [hbase.tasks] at htask
      cases htask
    · rcases attempt_progress hbase hattempt with ⟨t', hprogress⟩ | hundone
      · have hversion := h.versions t (List.mem_of_getElem? htask)
        rw [hprogress.tasks, List.getElem?_singleton] at htask
        split_ifs at htask with hi
        cases htask
        subst hi
        exact taskStep_leads hprogress.tasks hversion o
      · exact absurd hundone.tasks hlive

/-- A step of an idle client that starts no task leaves it idle. -/
theorem base_next {l : Label} (h : Base c) (hnext : c.next P l = some c') (hnone : c'.tasks = []) :
    Base c' := by
  have htalked : ∀ es, c'.journal = c.journal.writes es → (∀ e ∈ es, Talks e) →
      c'.ota = c.ota → Base c' := by
    intro es hjournal htalks hota
    refine ⟨hnone, ?_, by rw [hota, h.handles]⟩
    rw [hjournal, writes_talk htalks]
    exact h.pending
  obtain ⟨-, hstep⟩ := next_step hnext
  cases hstep with
  | event o e =>
    rcases handler_move P c o e with
      hchat | ⟨-, ⟨es, hjournal, htalks⟩, -, hota⟩ | ⟨-, -, ⟨_, _, htasks⟩, -, -⟩
    · obtain ⟨es, hjournal, hchats⟩ := hchat.effects
      exact htalked es hjournal (fun e he => (hchats e he).1) hchat.ota
    · exact htalked es hjournal htalks hota
    · rw [htasks] at hnone
      simp at hnone
  | telemetry =>
    obtain ⟨es, hjournal, hchats⟩ := (telemetry_chat c).effects
    exact htalked es hjournal (fun e he => (hchats e he).1) (telemetry_chat c).ota
  | task htask =>
    rw [h.tasks] at htask
    cases htask

/-- What is left of an attempt that is over is an idle client. -/
theorem Undone.base (h : Undone c₀ c) (hbase : Base c₀) : Base c :=
  ⟨h.tasks, by rw [h.nvs, hbase.pending], h.handles⟩

/-- Every step of the client keeps it sane. -/
theorem sane_next {l : Label} (h : Sane P c) (hnext : c.next P l = some c') : Sane P c' := by
  obtain ⟨hleads, hversions⟩ := next_leads h hnext
  refine ⟨hleads.short h.short, hversions, ?_⟩
  by_cases hnone : c'.tasks = []
  · refine Or.inl ?_
    rcases h.attempt with hbase | ⟨c₀, tally, hbase, hattempt, hlive⟩
    · exact base_next hbase hnext hnone
    · have hnext' := hattempt.step hlive hnext
      exact ((attempt_outcome hbase hnext').2 hnone).base hbase
  · refine Or.inr ?_
    rcases h.attempt with hbase | ⟨c₀, tally, hbase, hattempt, hlive⟩
    · exact ⟨c, _, hbase, .start hbase.tasks hnext hnone, hnone⟩
    · exact ⟨c₀, _, hbase, hattempt.step hlive hnext, hnone⟩

/-! ## The device -/

/-- What is known of a device: a short marker while it is off, none when no
client runs, and a sane client. -/
def SaneDevice (P : Platform) : Sys Client → Prop
  | .off j => ShortPending j.disk
  | .offline j => j.disk.nvs .pendingFw = none
  | .up c => Sane P c

theorem shortPending_of_none {flash : Flash} (h : flash.nvs .pendingFw = none) :
    ShortPending flash :=
  fun v hv => absurd (h.symm.trans hv) (by simp)

theorem SaneDevice.short {s : Sys Client} (h : SaneDevice P s) :
    ShortPending ((firmware P).log s).disk := by
  cases s with
  | off j => exact h
  | offline j => exact shortPending_of_none h
  | up c => exact Sane.short h

/-- Work of a device keeps it sane, and its effects keep the marker short. -/
theorem work_sane {s s' : Sys Client} {a : Work Label StartOutcomes} (h : SaneDevice P s)
    (hwork : (firmware P).work P s a = some s') :
    SaneDevice P s' ∧ Leads ((firmware P).log s) ((firmware P).log s') := by
  cases s with
  | offline j => cases a <;> cases hwork
  | off j =>
    cases a with
    | step l => cases hwork
    | boot o =>
      cases hwork
      obtain ⟨hleads, hnone⟩ := appMain_leads (P := P) o h
      rw [(follows P).log_boot]
      refine ⟨?_, hleads⟩
      unfold Firmware.boot
      split_ifs
      · exact ⟨shortPending_of_none hnone, by simp [firmware, Client.fresh],
          Or.inl ⟨rfl, hnone, rfl⟩⟩
      · exact hnone
  | up c =>
    cases a with
    | boot o => cases hwork
    | step l =>
      obtain ⟨c', hnext, rfl⟩ := Option.map_eq_some_iff.mp hwork
      exact ⟨sane_next h hnext, (next_leads h hnext).1⟩

/-- Every reachable device is sane, if no long marker was stored before. -/
theorem device_sane {s : Sys Client} (h : ((firmware P).device P ShortPending).Reachable s) :
    SaneDevice P s := by
  refine h.invariant (I := SaneDevice P) ?_ ?_
  · rintro s ⟨flash, hflash, rfl⟩
    exact hflash
  · intro s l s' _ hs _ hnext
    have hreset : ∀ j : Log, ShortPending j.disk → ShortPending (j.write .reset).disk :=
      fun _ hj => hj
    cases l with
    | done a => exact (work_sane hs hnext).1
    | cut a n =>
      obtain ⟨s'', hwork, rfl⟩ := Option.map_eq_some_iff.mp hnext
      exact hreset _ ((work_sane hs hwork).2.upTo hs.short n)
    | reset =>
      cases hnext
      exact hreset _ hs.short

/-- In every reachable state of a device, `pending_fw` is absent when no task
is alive.  An attempt that starts there and switches the boot partition earned
it, and one whose task ends without that left nothing behind. -/
theorem ota_outcome {s : Sys Client} (h : ((firmware P).device P ShortPending).Reachable s) :
    (∀ j, s = .offline j → j.disk.nvs .pendingFw = none) ∧
      ∀ c, s = .up c → (c.tasks = [] → c.journal.disk.nvs .pendingFw = none) ∧
        ∀ tally c', Attempt P c tally c' →
          (Switches (c.journal.since c'.journal) → Earned c tally c') ∧
            (c'.tasks = [] → Undone c c') := by
  have hsane := device_sane h
  have hbase : ∀ c, s = .up c → c.tasks = [] → Base c := by
    intro c heq hnone
    subst heq
    rcases Sane.attempt hsane with hbase | ⟨-, -, -, -, hlive⟩
    · exact hbase
    · exact absurd hnone hlive
  refine ⟨?_, fun c hc => ⟨fun hnone => (hbase c hc hnone).pending, fun tally c' hattempt => ?_⟩⟩
  · intro j heq
    subst heq
    exact hsane
  · have hidle : c.tasks = [] := by
      clear hbase
      induction hattempt with
      | start hidle _ _ => exact hidle
      | step _ _ _ ih => exact ih
    exact attempt_outcome (hbase c hc hidle) hattempt

/-! ## An attempt that fails, and one that does not -/

def offerText : Bytes :=
  ascii "\x7b\"fw_version\":\"1.1\",\"fw_url\":\"http://h/a.bin\"\x7d"

/-- A platform whose parser knows the offer. -/
def offerPlatform : Platform :=
  docPlatform offerText
    [ (ascii "fw_version", .string (ascii "1.1"))
    , (ascii "fw_url", .string (ascii "http://h/a.bin")) ]

/-- A registered device without a `pending_fw`. -/
def registeredFlash : Flash :=
  ⟨fun key => if key = .assignedHub ∨ key = .deviceId then some (ascii "x") else none,
    fun _ => [], .ota0, .valid⟩

/-- The body ends before it is complete. -/
def shortBody : TaskOutcomes := ⟨true, true, true, some [], false, true, true, true⟩

/-- The patch is handled, and its download ends early. -/
def failedAttempt : List (Esp.Label Label StartOutcomes) :=
  [ .done (.boot ⟨none, true⟩)
  , .done (.step (.event sampleOutcomes (.data patchTopic offerText))) ] ++
    List.replicate 7 (.done (.step (.task 0 shortBody)))

/-- The answers of calls that succeed, with a block for the read. -/
def reads (block : Bytes) : TaskOutcomes := ⟨true, true, true, some block, true, true, true, true⟩

/-- The download of three bytes, with telemetry in between, to the switch of
the boot partition. -/
def switching : List Label :=
  List.replicate 4 (.task 0 (reads [])) ++ [.task 0 (reads [7, 8]), .telemetry,
    .task 0 (reads [9])] ++ List.replicate 4 (.task 0 (reads []))

/-- An attempt goes on over the labels, as long as its task is alive. -/
def attemptExec (P : Platform) : Tally → Client → List Label → Option (Tally × Client)
  | tally, c, [] => some (tally, c)
  | tally, c, l :: ls =>
    if c.tasks = [] then none
    else (c.next P l).bind fun c' => attemptExec P (tally.after c l) c' ls

theorem Attempt.exec {tally tally' : Tally} {ls : List Label} (h : Attempt P c₀ tally c)
    (hexec : attemptExec P tally c ls = some (tally', c')) : Attempt P c₀ tally' c' := by
  induction ls generalizing tally c with
  | nil =>
    simp only [attemptExec, Option.some.injEq, Prod.mk.injEq] at hexec
    obtain ⟨rfl, rfl⟩ := hexec
    exact h
  | cons l ls ih =>
    simp only [attemptExec] at hexec
    split_ifs at hexec with hlive
    obtain ⟨d, hnext, hrest⟩ := Option.bind_eq_some_iff.mp hexec
    exact ih (.step h hlive hnext) hrest

/-- The client that the device starts, and the same after the offer. -/
def idleClient : Client :=
  (firmware offerPlatform).fresh (Firmware.bootBuild offerPlatform ⟨registeredFlash, []⟩) .ota0
    ((firmware offerPlatform).appMain offerPlatform ⟨none, true⟩ ⟨registeredFlash, []⟩)

def offeredClient : Client :=
  hubMqttEventHandler offerPlatform idleClient sampleOutcomes (.data patchTopic offerText)

/-- A task ran and is gone. -/
def attemptOver : Sys Client → Bool
  | .up c => c.tasks.isEmpty && c.triggerCalls.length == 1
  | _ => false

theorem ota_outcome_sample :
    (∃ s, ((firmware offerPlatform).device offerPlatform ShortPending).exec
        (.off ⟨registeredFlash, []⟩) failedAttempt = some s ∧ attemptOver s = true ∧
      ∀ c, s = .up c → c.tasks = [] → c.journal.disk.nvs .pendingFw = none) ∧
    ∃ tally c, Switches (idleClient.journal.since c.journal) ∧ tally.read = [7, 8, 9] ∧
      Earned idleClient tally c := by
  have hinit : ((firmware offerPlatform).device offerPlatform ShortPending).Reachable
      (.off ⟨registeredFlash, []⟩) :=
    .init ⟨registeredFlash, shortPending_of_none rfl, rfl⟩
  constructor
  · have hrun : (((firmware offerPlatform).device offerPlatform ShortPending).exec
        (.off ⟨registeredFlash, []⟩) failedAttempt).any attemptOver = true := by decide +kernel
    obtain ⟨s, hexec, hover⟩ := (Option.any_eq_true _ _).mp hrun
    have hreach := Machine.Reachable.exec hinit hexec
    exact ⟨s, hexec, hover, fun c hc => ((ota_outcome hreach).2 c hc).1⟩
  · have hreach : ((firmware offerPlatform).device offerPlatform ShortPending).Reachable
        (.up idleClient) :=
      .step (l := .done (.boot ⟨none, true⟩)) hinit trivial rfl
    have hlive : offeredClient.tasks ≠ [] := by decide +kernel
    have hstart : Attempt offerPlatform idleClient ⟨[], false, false⟩ offeredClient :=
      .start (l := .event sampleOutcomes (.data patchTopic offerText)) rfl rfl hlive
    obtain ⟨⟨tally, c⟩, hexec, hread, hswitch⟩ := Machine.exists_of_any
      (p := fun x : Tally × Client => x.1.read = [7, 8, 9] ∧
        .setBoot .ota1 (offerPlatform.version [7, 8, 9]) true ∈
          idleClient.journal.since x.2.journal)
      (o := attemptExec offerPlatform ⟨[], false, false⟩ offeredClient switching)
      (by decide +kernel)
    have hswitches : Switches (idleClient.journal.since c.journal) := ⟨_, _, hswitch⟩
    exact ⟨tally, c, hswitches, hread, (((ota_outcome hreach).2 idleClient rfl).2 tally c
      (hstart.exec hexec)).1 hswitches⟩

end Winegrid.Azure
