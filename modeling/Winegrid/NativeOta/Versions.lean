import Winegrid.Lib.History
import Winegrid.NativeOta.Transfer

/-!
# No image is installed twice in a row

The task compares the version that the server offers with the running one and
with the last invalid one.  Between two boots nothing else is remembered, so
what the checks are worth is a law about the log of the device.

* `lastInstall` is the image that was set to boot, until the next download
  starts.
* `Standing` says where that image is now: it runs, or `otadata` marks its slot
  as the last invalid one.
* `native_download_law`: the next download that starts is of another version,
  unless the version check is left out and the image was not rolled back.
* `native_installs_once`: a server that offers one version is obeyed once.
-/

namespace Winegrid.NativeOta

open Esp (Slot)

variable {C : Config} {t : Task} {j : Log} {log : List Effect}

/-! ## What the log says -/

def Effect.install (last : Option (Slot × Bytes)) : Effect → Option (Slot × Bytes)
  | .otaBegin .. => none
  | .setBoot slot version => version.map fun v => (slot, v)
  | _ => last

/-- The image that was set to boot, with its described version, while no
download started since. -/
def lastInstall (log : List Effect) : Option (Slot × Bytes) := log.foldl Effect.install none

def Effect.runs (last : Option Partition) : Effect → Option Partition
  | .boot p => some p
  | _ => last

/-- The partition that was booted last. -/
def lastBoot (log : List Effect) : Option Partition := log.foldl Effect.runs none

@[simp] theorem lastInstall_concat (log : List Effect) (e : Effect) :
    lastInstall (log ++ [e]) = e.install (lastInstall log) := by
  simp [lastInstall, List.foldl_append]

@[simp] theorem lastBoot_concat (log : List Effect) (e : Effect) :
    lastBoot (log ++ [e]) = e.runs (lastBoot log) := by
  simp [lastBoot, List.foldl_append]

/-- The next download after an installation is of the version that was installed
only where the version check is left out and that image is the one that
booted. -/
def DownloadLaw (C : Config) (past : List Effect) (e : Effect) : Prop :=
  ∀ slot slot' v, e = .otaBegin slot v → lastInstall past = some (slot', v) →
    C.skipVersionCheck = true ∧ lastBoot past = some (.ota slot')

/-! ## Where the installed image is -/

/-- The partition that runs, until the task only waits for its restart. -/
def Phase.running : Phase → Option Partition
  | .off => none
  | .diagnostic p | .network p => some p
  | .task t =>
    match t.pc with
    | .exit _ => none
    | _ => some t.running

/-- The installed image is in its slot, and `otadata` still knows it. -/
structure Kept (flash : Flash) (slot : Slot) (v : Bytes) : Prop where
  image : describe (flash.app (.ota slot)) = some v
  latest : flash.latest = slot
  state : flash.entry slot ≠ none

structure Standing (C : Config) (s : Sys) : Prop where
  kept : ∀ slot v, lastInstall s.journal.log = some (slot, v) → Kept s.journal.disk slot v
  booted : ∀ p, s.phase.running = some p → lastBoot s.journal.log = some p
  runs : ∀ p, s.phase.running = some p → ∀ slot v, lastInstall s.journal.log = some (slot, v) →
    p = .ota slot ∨ s.journal.disk.failed slot = true
  begins : ∀ t d, s.phase = .task t → t.pc = .otaBegin d → ∀ slot,
    lastInstall s.journal.log = some (slot, versionField d) →
      C.skipVersionCheck = true ∧ t.running = .ota slot
  written : ∀ t, s.phase = .task t → t.handleOpen = true ∨ t.pc = .setBoot →
    lastInstall s.journal.log = none
  closed : ∀ t, s.phase = .task t → t.pc = .setBoot → t.handleOpen = false
  lawful : Lawful (DownloadLaw C) s.journal.log

/-- The two checks refuse the installed version. -/
theorem refuses_kept {flash : Flash} {slot : Slot} {v : Bytes} {a b : Bytes}
    (hkept : Kept flash slot v) (hruns : t.running = .ota slot ∨ flash.failed slot = true)
    (hnew : t.refuses C flash a b v = false) :
    C.skipVersionCheck = true ∧ t.running = .ota slot := by
  rw [Task.refuses, Bool.or_eq_false_iff] at hnew
  obtain ⟨hinvalid, hversion⟩ := hnew
  by_cases hfailed : flash.failed slot = true
  · -- the slot is the last invalid one, whatever runs
    have hlast : flash.lastInvalid = some slot := by
      have hlatest : flash.failed flash.latest = true := hkept.latest ▸ hfailed
      rw [Flash.lastInvalid, Flash.pick_latest hlatest, hkept.latest]
    rw [Task.invalidVersion, hlast, Option.map_some, hkept.image, Option.getD_some] at hinvalid
    simp at hinvalid
  · have hrunning : t.running = .ota slot := hruns.resolve_right hfailed
    rw [Task.runningVersion, hrunning, hkept.image, Option.getD_some] at hversion
    simp only [beq_self_eq_true, Bool.and_true, Bool.not_eq_false'] at hversion
    exact ⟨hversion, hrunning⟩

/-- After the bootloader the installed image runs, or it failed. -/
theorem Kept.start {flash : Flash} {slot : Slot} {v : Bytes} (h : Kept flash slot v) :
    Kept flash.start slot v ∧
      (flash.bootSelect = .ota slot ∨ flash.start.failed slot = true) := by
  refine ⟨⟨h.image, h.latest, ?_⟩, ?_⟩
  · rw [Flash.entry_start]
    simpa using h.state
  · by_cases hboots : flash.abortPending.boots slot = true
    · left
      have hlatest : flash.abortPending.boots flash.abortPending.latest = true := by
        show flash.abortPending.boots flash.latest = true
        rw [h.latest]
        exact hboots
      rw [Flash.bootSelect, Flash.active, Flash.pick_latest hlatest]
      exact congrArg Partition.ota h.latest
    · right
      rw [← Flash.boots_start, Flash.boots] at hboots
      have hstate := h.state
      rw [Flash.failed]
      rw [Flash.entry_start] at hboots ⊢
      rcases hentry : flash.entry slot with _ | s
      · exact absurd hentry hstate
      · rw [hentry, Option.map_some, Option.any_some, Bool.not_eq_true] at hboots
        rw [Option.map_some, Option.any_some, hboots]
        rfl

/-- A state of a slot keeps the installed image where it is. -/
theorem Kept.setEntry {flash : Flash} {slot slot' : Slot} {v : Bytes} (h : Kept flash slot v)
    (s : ImgState) : Kept (flash.setEntry slot' s) slot v := by
  refine ⟨h.image, h.latest, ?_⟩
  show Function.update flash.entry slot' (some s) slot ≠ none
  by_cases heq : slot = slot'
  · rw [heq, Function.update_self]
    simp
  · rw [Function.update_of_ne heq]
    exact h.state

/-- A silent log says nothing new. -/
theorem log_silent (log : List Effect) {es : List Effect} (h : ∀ e ∈ es, e.silent = true) :
    lastInstall (log ++ es) = lastInstall log ∧ lastBoot (log ++ es) = lastBoot log := by
  induction es using List.reverseRecOn with
  | nil => simp
  | append_singleton es e ih =>
    obtain ⟨hinstall, hboot⟩ := ih fun e he => h e (List.mem_append_left _ he)
    have he : e.silent = true := h e (by simp)
    rw [← List.append_assoc, lastInstall_concat, lastBoot_concat, hinstall, hboot]
    cases e <;> first | exact ⟨rfl, rfl⟩ | cases he

/-- Effects other than the start of a download obey the law. -/
theorem lawful_free {es : List Effect} (h : Lawful (DownloadLaw C) log)
    (hes : ∀ e ∈ es, ∀ slot v, e ≠ .otaBegin slot v) : Lawful (DownloadLaw C) (log ++ es) :=
  h.append_free fun e he _ slot _ v heq => absurd heq (hes e he slot v)

/-! ## Steps -/

theorem running_of_goes (h : ∀ e, t.pc ≠ .exit e) :
    (Phase.task t).running = some t.running := by
  cases hpc : t.pc <;> simp_all [Phase.running]

theorem running_eq {p : Partition} (h : (Phase.task t).running = some p) : p = t.running := by
  cases hpc : t.pc <;> simp_all [Phase.running]

/-- A silent move keeps the invariant. -/
theorem standing_silent {r : Task × Log} (h : Standing C ⟨.task t, j⟩) (hsilent : t.Silent C j r) :
    Standing C ⟨.task r.1, r.2⟩ := by
  obtain ⟨es, hes, hlog⟩ := hsilent.writes
  have hdisk : r.2.disk = j.disk := by rw [hlog, writes_silent hes]
  have heq : r.2.log = j.log ++ es := by rw [hlog, Journal.writes_log]
  obtain ⟨hinstall, hboot⟩ := log_silent j.log hes
  rw [← heq] at hinstall hboot
  have hold := running_of_goes hsilent.goes
  refine ⟨fun slot v hlast => ?_, fun p hp => ?_, fun p hp slot v hlast => ?_,
    fun u d hu hd slot hlast => ?_, fun u hu hopen => ?_, fun u hu hpc => ?_, ?_⟩
  · show Kept r.2.disk slot v
    rw [hdisk]
    exact h.kept slot v (hinstall ▸ hlast)
  · rw [running_eq hp, hsilent.running]
    exact hboot.trans (h.booted _ hold)
  · rw [running_eq hp, hsilent.running]
    show t.running = .ota slot ∨ r.2.disk.failed slot = true
    rw [hdisk]
    exact h.runs _ hold slot v (hinstall ▸ hlast)
  · cases hu
    obtain ⟨a, b, hnew⟩ := hsilent.accepted d hd
    have hlast : lastInstall j.log = some (slot, versionField d) := hinstall ▸ hlast
    rw [hsilent.running]
    exact refuses_kept (h.kept slot _ hlast) (h.runs _ hold slot _ hlast) hnew
  · cases hu
    refine hinstall.trans (h.written t rfl (Or.inl ?_))
    rcases hopen with hopen | hpc
    · exact hsilent.handle hopen
    · exact (hsilent.closed hpc).2
  · cases hu
    exact (hsilent.closed hpc).1
  · show Lawful (DownloadLaw C) r.2.log
    rw [heq]
    refine lawful_free h.lawful fun e he slot v heq' => ?_
    have hes := hes e he
    rw [heq'] at hes
    cases hes

/-- During a download no image is installed. -/
theorem standing_download {u : Task} {e : Effect} (h : Standing C ⟨.task t, j⟩)
    (hgoes : ∀ x, t.pc ≠ .exit x) (hrunning : u.running = t.running)
    (hbegin : ∀ d, u.pc ≠ .otaBegin d) (hset : u.pc ≠ .setBoot)
    (hboot : e.runs (lastBoot j.log) = lastBoot j.log)
    (hnone : lastInstall (j.log ++ [e]) = none) (hlaw : Lawful (DownloadLaw C) (j.log ++ [e])) :
    Standing C ⟨.task u, j.write e⟩ := by
  refine ⟨fun slot v hlast => ?_, fun p hp => ?_, fun p hp slot v hlast => ?_,
    fun t' d ht hd => ?_, fun _ _ _ => hnone, fun t' ht hpc => ?_, hlaw⟩
  · rw [Journal.write_log, hnone] at hlast
    cases hlast
  · rw [running_eq hp, hrunning, Journal.write_log, lastBoot_concat, hboot]
    exact h.booted _ (running_of_goes hgoes)
  · rw [Journal.write_log, hnone] at hlast
    cases hlast
  · cases ht
    exact absurd hd (hbegin d)
  · cases ht
    exact absurd hpc hset

/-- The new boot partition holds the image that is installed. -/
theorem standing_setBoot (h : Standing C ⟨.task t, j⟩) (hpc : t.pc = .setBoot) :
    Standing C ⟨.task { t with pc := .exit .installed }, j.write (.setBoot t.updatePartition
      (describe (j.disk.app (.ota t.updatePartition))))⟩ := by
  have hlast : ∀ slot v, lastInstall (j.log ++ [.setBoot t.updatePartition
      (describe (j.disk.app (.ota t.updatePartition)))]) = some (slot, v) →
      slot = t.updatePartition ∧ describe (j.disk.app (.ota t.updatePartition)) = some v := by
    intro slot v h
    rw [lastInstall_concat] at h
    obtain ⟨v', hv', heq⟩ := Option.map_eq_some_iff.mp h
    cases heq
    exact ⟨rfl, hv'⟩
  refine ⟨fun slot v h => ?_, fun p hp => ?_, fun p hp => ?_, fun u d hu hd => ?_,
    fun u hu hopen => ?_, fun u hu hpc' => ?_, lawful_free h.lawful (by simp)⟩
  · obtain ⟨rfl, hv⟩ := hlast slot v h
    refine ⟨hv, rfl, ?_⟩
    show Function.update j.disk.entry _ (some ImgState.new) _ ≠ none
    rw [Function.update_self]
    simp
  · simp [Phase.running] at hp
  · simp [Phase.running] at hp
  · cases hu
    simp at hd
  · cases hu
    have hclosed := h.closed t rfl hpc
    simp [hclosed] at hopen
  · cases hu
    simp at hpc'

/-- A move of the task keeps the invariant. -/
theorem standing_task {r : Task × Log} (h : Standing C ⟨.task t, j⟩) (hmove : t.Moves C j r) :
    Standing C ⟨.task r.1, r.2⟩ := by
  rcases hmove.cases with hsilent | ⟨d, hpc, hstate, rfl⟩ | ⟨d, hpc, hopen, rfl⟩ |
    ⟨hpc, hvalid, rfl⟩
  · exact standing_silent h hsilent
  · have hgoes : ∀ x, t.pc ≠ .exit x := by simp [hpc]
    refine standing_download h hgoes rfl (by simp) (by simp) rfl (lastInstall_concat ..)
      (lawful_concat.mpr ⟨h.lawful, fun slot slot' v heq hlast => ?_⟩)
    cases heq
    obtain ⟨hskip, hslot⟩ := h.begins t d rfl hpc slot' hlast
    exact ⟨hskip, hslot ▸ h.booted _ (running_of_goes hgoes)⟩
  · refine standing_download h (by simp [hpc]) rfl (by simp) (by simp) rfl ?_
      (lawful_free h.lawful (by simp))
    rw [lastInstall_concat]
    exact h.written t rfl (Or.inl hopen)
  · exact standing_setBoot h hpc

/-- A device that is off keeps what its flash keeps. -/
theorem standing_off {j' : Log}
    (hkept : ∀ slot v, lastInstall j'.log = some (slot, v) → Kept j'.disk slot v)
    (hlawful : Lawful (DownloadLaw C) j'.log) : Standing C ⟨.off, j'⟩ :=
  ⟨hkept, by simp [Phase.running], by simp [Phase.running], by simp, by simp, by simp, hlawful⟩

/-- A move of the device keeps the invariant. -/
theorem standing_moves {s s' : Sys} (h : Standing C s) (hmove : Sys.Moves C s s') :
    Standing C s' := by
  cases hmove with
  | boot j =>
    have hlast : lastInstall (j.log ++ [.boot j.disk.bootSelect]) = lastInstall j.log := by
      rw [lastInstall_concat]
      rfl
    refine ⟨fun slot v hinstall => ?_, fun p hp => ?_, fun p hp slot v hinstall => ?_, by simp,
      by simp, by simp, lawful_free h.lawful (by simp)⟩
    · exact (h.kept slot v (hlast ▸ hinstall)).start.1
    · cases hp
      rw [Journal.write_log, lastBoot_concat]
      rfl
    · cases hp
      exact (h.kept slot v (hlast ▸ hinstall)).start.2
  | confirmed slot j hstate =>
    have hlast : lastInstall (j.log ++ [.markValid slot]) = lastInstall j.log := by
      rw [lastInstall_concat]
      rfl
    refine ⟨fun slot' v hinstall => ?_, fun p hp => ?_, fun p hp slot' v hinstall => ?_, by simp,
      by simp, by simp, lawful_free h.lawful (by simp)⟩
    · exact (h.kept slot' v (hlast ▸ hinstall)).setEntry .valid
    · rw [Journal.write_log, lastBoot_concat]
      exact h.booted p hp
    · rcases h.runs p hp slot' v (hlast ▸ hinstall) with hruns | hfailed
      · exact Or.inl hruns
      · right
        have hne : slot' ≠ slot := by
          rintro rfl
          rw [Flash.failed, hstate] at hfailed
          simp [ImgState.boots] at hfailed
        show (Function.update j.disk.entry slot (some .valid) slot').any _ = true
        rw [Function.update_of_ne hne]
        exact hfailed
  | rolledBack slot j hstate =>
    have hlog : (j.writes [.markInvalid slot, .restart]).log =
        j.log ++ [.markInvalid slot, .restart] := Journal.writes_log ..
    have hlast : lastInstall (j.log ++ [.markInvalid slot, .restart]) = lastInstall j.log := by
      simp [lastInstall, List.foldl_append, Effect.install]
    refine standing_off (fun slot' v hinstall => ?_) ?_
    · rw [hlog, hlast] at hinstall
      exact (h.kept slot' v hinstall).setEntry .invalid
    · rw [hlog]
      exact lawful_free h.lawful (by simp)
  | goesOn running j =>
    exact ⟨h.kept, h.booted, h.runs, by simp, by simp, by simp, h.lawful⟩
  | network running j =>
    refine ⟨h.kept, h.booted, h.runs, fun t d ht hd => ?_, fun t ht hopen => ?_,
      fun t ht hpc => ?_, h.lawful⟩
    · cases ht
      simp [Task.start] at hd
    · cases ht
      simp [Task.start] at hopen
    · cases ht
      simp [Task.start] at hpc
  | noNetwork running j | restart t e j hpc =>
    have hlast : lastInstall (j.log ++ [.restart]) = lastInstall j.log := by
      rw [lastInstall_concat]
      rfl
    exact standing_off (fun slot v hinstall => h.kept slot v (hlast ▸ hinstall))
      (lawful_free h.lawful (by simp))
  | powerLoss p j =>
    have hlast : lastInstall (j.log ++ [.powerLoss]) = lastInstall j.log := by
      rw [lastInstall_concat]
      rfl
    exact standing_off (fun slot v hinstall => h.kept slot v (hlast ▸ hinstall))
      (lawful_free h.lawful (by simp))
  | task hmove => exact standing_task h hmove

variable {start : Flash → Prop}

theorem standing_reach {s : Sys} (h : (device C start).Reachable s) : Standing C s := by
  refine h.invariant (I := Standing C) ?_ fun s l t _ hs _ hnext =>
    standing_moves hs (moves_of_next hnext)
  rintro s ⟨flash, -, rfl⟩
  exact standing_off (by simp [lastInstall]) lawful_nil

/-- The download that starts next after an installation is of another version
than the image that was installed, over all boots, roll-backs and losses of
power.  Without the version check it may be of that version, while that image
itself runs. -/
theorem native_download_law (C : Config) (start : Flash → Prop) (s : Sys)
    (h : (device C start).Reachable s) : Lawful (DownloadLaw C) s.journal.log :=
  (standing_reach h).lawful

/-- Two images are installed one after the other. -/
theorem native_download_law_sample : ∃ s,
    (device sampleConfig (fromFactory (sampleImage 1))).Reachable s ∧
      s.journal.log.filterMap Effect.offer =
        [(.ota0, List.replicate 32 2), (.ota1, List.replicate 32 3)] ∧
      Lawful (DownloadLaw sampleConfig) s.journal.log := by
  obtain ⟨s, hs, hoffers⟩ := Machine.exists_of_any
    (p := fun s : Sys => s.journal.log.filterMap Effect.offer =
      [(.ota0, List.replicate 32 2), (.ota1, List.replicate 32 3)])
    (o := (device sampleConfig (fromFactory (sampleImage 1))).exec ⟨.off, ⟨sampleFlash, []⟩⟩
      (startup ++ sampleSession 2 ++ [.restart] ++ startup ++ sampleSession 3))
    (by decide +kernel)
  have h := Machine.Reachable.exec (.init sample_init) hs
  exact ⟨s, h, hoffers, native_download_law _ _ s h⟩

/-! ## One version -/

def Effect.isInstall : Effect → Bool
  | .setBoot _ version => version.isSome
  | _ => false

/-- How often an image with a description was set to boot. -/
def installs (log : List Effect) : Nat := log.countP Effect.isInstall

/-- The version of a download that was started is in the log. -/
theorem mem_of_begins {slot : Slot} {w : Bytes} (h : (slot, w) ∈ begins log) :
    .otaBegin slot w ∈ log := by
  obtain ⟨e, he, hoffer⟩ := List.mem_filterMap.mp h
  cases e with
  | otaBegin slot' w' =>
    cases hoffer
    exact mem_of_thisBoot he
  | _ => cases hoffer

/-- Only one version is offered. -/
def Offers (v : Bytes) (log : List Effect) : Prop := ∀ slot w, .otaBegin slot w ∈ log → w = v

/-- What one offered version leads to. -/
def Once (v : Bytes) (log : List Effect) : Prop :=
  installs log = 0 ∨ (installs log = 1 ∧ ∃ slot, lastInstall log = some (slot, v))

theorem installs_concat (log : List Effect) (e : Effect) :
    installs (log ++ [e]) = installs log + if e.isInstall then 1 else 0 := by
  simp [installs, List.countP_append, List.countP_singleton]

/-- Effects that neither start a download nor install keep what was said. -/
theorem Once.append {v : Bytes} {es : List Effect} (h : Once v log)
    (hes : ∀ e ∈ es, ∀ last, e.isInstall = false ∧ e.install last = last) :
    Once v (log ++ es) := by
  induction es using List.reverseRecOn with
  | nil => simpa using h
  | append_singleton es e ih =>
    obtain ⟨hinstall, hlast⟩ := hes e (by simp) (lastInstall (log ++ es))
    have hold := ih fun e he => hes e (List.mem_append_left _ he)
    rw [← List.append_assoc, Once, installs_concat, lastInstall_concat, hinstall, hlast]
    exact hold

/-- A move of the task keeps it, when every download is of that version. -/
theorem once_task {v : Bytes} {r : Task × Log} (hskip : C.skipVersionCheck = false)
    (hstanding : Standing C ⟨.task t, j⟩) (htransfer : Transfer C t j) (h : Once v j.log)
    (hmove : t.Moves C j r) (hoffers : Offers v r.2.log) : Once v r.2.log := by
  rcases hmove.cases with hsilent | ⟨d, hpc, hstate, rfl⟩ | ⟨d, hpc, hopen, rfl⟩ |
    ⟨hpc, hvalid, rfl⟩
  · obtain ⟨es, hes, hlog⟩ := hsilent.writes
    rw [hlog, Journal.writes_log]
    refine h.append fun e he last => ?_
    have hes := hes e he
    cases e <;> first | exact ⟨rfl, rfl⟩ | cases hes
  · left
    rw [Journal.write_log, installs_concat]
    rcases h with hnone | ⟨-, slot, hlast⟩
    · rw [hnone]
      rfl
    · -- the version that was installed is not downloaded again
      have hv : versionField d = v :=
        hoffers _ _ (List.mem_append_right _ (List.mem_singleton_self _))
      have hskip' := (hstanding.begins t d rfl hpc slot (hv ▸ hlast)).1
      rw [hskip] at hskip'
      cases hskip'
  · exact h.append fun e he last => by
      cases List.mem_singleton.mp he
      exact ⟨rfl, rfl⟩
  · have hnone : lastInstall j.log = none := hstanding.written t rfl (Or.inr hpc)
    have hzero : installs j.log = 0 := by
      rcases h with hzero | ⟨-, slot, hlast⟩
      · exact hzero
      · rw [hnone] at hlast
        cases hlast
    rw [Transfer, hpc] at htransfer
    rw [Once, Journal.write_log, installs_concat, lastInstall_concat, hzero]
    rcases hdescribe : describe (j.disk.app (.ota t.updatePartition)) with _ | w
    · exact Or.inl rfl
    · refine Or.inr ⟨rfl, t.updatePartition, ?_⟩
      have hwritten := htransfer.written
      rw [List.append_nil] at hwritten
      have hmem : (t.updatePartition, versionField (received j.log)) ∈ begins j.log := by
        rw [htransfer.offers]
        exact List.mem_singleton_self _
      have hw : w = v := by
        rw [describe_eq_some hdescribe, hwritten]
        exact hoffers _ _ (List.mem_append_left _ (mem_of_begins hmem))
      rw [hw]
      rfl

/-- As long as the server offers one version only, an image with a description
is set to boot at most once, whatever the diagnostic says of it, and however
often the device restarts or loses power. -/
theorem native_installs_once (C : Config) (hskip : C.skipVersionCheck = false)
    (start : Flash → Prop) (s : Sys) (h : (device C start).Reachable s) (v : Bytes)
    (hoffers : Offers v s.journal.log) : installs s.journal.log ≤ 1 := by
  have honce : Offers v s.journal.log → Once v s.journal.log := by
    refine h.invariant (I := fun s => Offers v s.journal.log → Once v s.journal.log) ?_ ?_
    · rintro s ⟨flash, -, rfl⟩ -
      exact Or.inl rfl
    · intro s l t hs ih _ hnext hoffers
      have hmove := moves_of_next hnext
      obtain ⟨es, hes⟩ := hmove.extends
      have hold : Offers v s.journal.log := fun slot w hmem => by
        refine hoffers slot w ?_
        rw [hes, Journal.writes_log]
        exact List.mem_append_left _ hmem
      have ih := ih hold
      cases hmove with
      | boot | confirmed | noNetwork | restart | powerLoss =>
        exact ih.append fun e he last => by
          cases List.mem_singleton.mp he
          exact ⟨rfl, rfl⟩
      | rolledBack slot j _ =>
        show Once v (j.writes [.markInvalid slot, .restart]).log
        rw [Journal.writes_log]
        refine ih.append fun e he last => ?_
        rcases List.mem_pair.mp he with rfl | rfl <;> exact ⟨rfl, rfl⟩
      | goesOn | network => exact ih
      | task hmove =>
        exact once_task hskip (standing_reach hs) ((transfers_reach hs).task _ rfl) ih hmove hoffers
  rcases honce hoffers with hzero | ⟨hone, -⟩ <;> omega

/-- The diagnostic fails, the image is rolled back, and the next offer is
refused. -/
theorem native_installs_once_sample : ∃ s,
    (device sampleConfig (fromFactory (sampleImage 1))).Reachable s ∧
      s.phase = .task ⟨.factory, false, false, .exit .noUpdate⟩ ∧
      .markInvalid .ota0 ∈ s.journal.log ∧ installs s.journal.log ≤ 1 := by
  obtain ⟨s, hs, hphase, hinvalid, hoffers⟩ := Machine.exists_of_any
    (p := fun s : Sys => s.phase = .task ⟨.factory, false, false, .exit .noUpdate⟩ ∧
      .markInvalid .ota0 ∈ s.journal.log ∧
      ∀ x ∈ s.journal.log.filterMap Effect.offer, x.2 = List.replicate 32 2)
    (o := (device sampleConfig (fromFactory (sampleImage 1))).exec ⟨.off, ⟨sampleFlash, []⟩⟩
      (startup ++ sampleSession 2 ++ [.restart, .boot, .diagnostic false true] ++ startup ++
        [.read (.data (sampleImage 2)), .header [] []]))
    (by decide +kernel)
  have h := Machine.Reachable.exec (.init sample_init) hs
  exact ⟨s, h, hphase, hinvalid, native_installs_once _ rfl _ s h _ fun slot w hmem =>
    hoffers (slot, w) (List.mem_filterMap.mpr ⟨_, hmem, rfl⟩)⟩

end Winegrid.NativeOta
