import Winegrid.NativeOta.Steps

/-!
# The image that boots is always whole

Power can be lost between any two calls, in the middle of a download too.
Still the bootloader finds a verified image in the partition that it picks.

* `Flash.Safe` is what the flash keeps: a slot that boots holds a valid image,
  or the other slot is picked before it.
* `Runs` is what holds of the running image until the task sets the boot
  partition; it is why a download never touches what boots next.
* `safe_moves` is the step lemma, and `native_always_boots` the law.
-/

namespace Winegrid.NativeOta

open Esp (Slot)

variable {C : Config} {flash : Flash} {slot : Slot}

/-! ## The bootloader -/

namespace Flash

theorem pick_eq_some {p : Slot → Bool} (h : flash.pick p = some slot) :
    p slot = true ∧ (slot = flash.latest ∨ p slot.other = false) := by
  unfold pick at h
  split_ifs at h with hlatest hother
  · cases h
    exact ⟨hlatest, Or.inl rfl⟩
  · cases h
    rw [Slot.other_other]
    exact ⟨hother, Or.inr (Bool.eq_false_iff.mpr hlatest)⟩

theorem pick_eq_none {p : Slot → Bool} (h : flash.pick p = none) (slot : Slot) :
    p slot = false := by
  unfold pick at h
  split_ifs at h with hlatest hother
  rcases Decidable.em (slot = flash.latest) with rfl | hne
  · exact Bool.eq_false_iff.mpr hlatest
  · have hslot : slot = flash.latest.other := by
      cases slot <;> cases hl : flash.latest <;> simp_all [Slot.other]
    exact hslot ▸ Bool.eq_false_iff.mpr hother

theorem pick_latest {p : Slot → Bool} (h : p flash.latest = true) :
    flash.pick p = some flash.latest := by
  rw [pick, if_pos h]

theorem boots_iff : flash.boots slot = true ↔
    flash.entry slot = some .new ∨ flash.entry slot = some .pendingVerify ∨
      flash.entry slot = some .valid := by
  unfold boots
  rcases flash.entry slot with _ | _ | _ | _ | _ | _ <;> simp [ImgState.boots]

/-- After a reset a slot boots if its image is new or valid. -/
theorem boots_abortPending : flash.abortPending.boots slot = true ↔
    flash.entry slot = some .new ∨ flash.entry slot = some .valid := by
  show ((flash.entry slot).map fun s => if s = .pendingVerify then ImgState.aborted else s).any
    ImgState.boots = true ↔ _
  rcases flash.entry slot with _ | _ | _ | _ | _ | _ <;> simp [ImgState.boots]

@[simp] theorem app_start (flash : Flash) : flash.start.app = flash.app := rfl

@[simp] theorem latest_start (flash : Flash) : flash.start.latest = flash.latest := rfl

/-- The states after the bootloader. -/
theorem entry_start (flash : Flash) (slot : Slot) :
    flash.start.entry slot = (flash.entry slot).map fun s =>
      if s = .pendingVerify then .aborted
      else if s = .new ∧ flash.bootSelect = .ota slot then .pendingVerify else s := by
  show ((flash.entry slot).map fun s => if s = .pendingVerify then ImgState.aborted else s).map
    (fun s => if s = .new ∧ flash.bootSelect = .ota slot then .pendingVerify else s) = _
  rcases flash.entry slot with _ | s
  · rfl
  · cases s <;> simp

theorem boots_start : flash.start.boots slot = flash.abortPending.boots slot := by
  unfold boots
  rw [entry_start]
  show _ = ((flash.entry slot).map _).any ImgState.boots
  rcases flash.entry slot with _ | s
  · rfl
  · cases s <;> by_cases hp : flash.bootSelect = .ota slot <;> simp [hp, ImgState.boots]

/-- What the bootloader picks. -/
theorem bootSelect_cases (flash : Flash) :
    (flash.bootSelect = .factory ∧ ∀ slot, flash.abortPending.boots slot = false) ∨
      ∃ slot, flash.bootSelect = .ota slot ∧ flash.abortPending.boots slot = true ∧
        (slot = flash.latest ∨ flash.abortPending.boots slot.other = false) := by
  unfold bootSelect active
  rcases hpick : flash.abortPending.pick flash.abortPending.boots with _ | slot
  · exact Or.inl ⟨rfl, pick_eq_none hpick⟩
  · obtain ⟨hslot, hother⟩ := pick_eq_some hpick
    exact Or.inr ⟨slot, rfl, hslot, hother⟩

/-- The invariant of the flash. -/
structure Safe (C : Config) (flash : Flash) : Prop where
  factory : C.imageValid (flash.app .factory) = true
  slots : ∀ slot, flash.boots slot = true → C.imageValid (flash.app (.ota slot)) = true ∨
    (flash.latest = slot.other ∧ flash.entry slot.other = some .valid)

/-- The bootloader picks a valid image. -/
theorem Safe.bootSelect (h : flash.Safe C) : C.imageValid (flash.app flash.bootSelect) = true := by
  rcases bootSelect_cases flash with ⟨hpick, -⟩ | ⟨slot, hpick, hslot, hother⟩
  · rw [hpick]
    exact h.factory
  · rw [hpick]
    have hboots : flash.boots slot = true := by
      rw [boots_iff]
      rcases boots_abortPending.mp hslot with hnew | hvalid
      · exact Or.inl hnew
      · exact Or.inr (Or.inr hvalid)
    rcases h.slots slot hboots with himage | ⟨hlatest, hvalid⟩
    · exact himage
    · -- the other slot would have been picked
      exfalso
      have hboots' : flash.abortPending.boots slot.other = true :=
        boots_abortPending.mpr (Or.inr hvalid)
      rcases hother with heq | hnone
      · rw [heq] at hlatest
        exact Slot.ne_other _ hlatest
      · rw [hnone] at hboots'
        cases hboots'

theorem Safe.start (h : flash.Safe C) : flash.start.Safe C := by
  refine ⟨h.factory, fun slot hslot => ?_⟩
  rw [boots_start, boots_abortPending] at hslot
  have hboots : flash.boots slot = true := by
    rw [boots_iff]
    tauto
  rcases h.slots slot hboots with himage | ⟨hlatest, hvalid⟩
  · exact Or.inl himage
  · refine Or.inr ⟨hlatest, ?_⟩
    rw [entry_start, hvalid]
    simp

end Flash

/-! ## The running image -/

/-- What holds while an image runs that set no boot partition yet. -/
structure Runs (C : Config) (flash : Flash) (running : Partition) : Prop where
  image : C.imageValid (flash.app running) = true
  factory : running = .factory → ∀ slot, flash.boots slot = false
  state : ∀ slot, running = .ota slot →
    flash.entry slot = some .pendingVerify ∨ flash.entry slot = some .valid
  latest : ∀ slot, running = .ota slot → flash.boots slot.other = true → flash.latest = slot

theorem Flash.Safe.runs (h : flash.Safe C) : Runs C flash.start flash.bootSelect := by
  refine ⟨h.bootSelect, fun hp slot => ?_, fun slot hp => ?_, fun slot hp hother => ?_⟩
  · rw [Flash.boots_start]
    rcases Flash.bootSelect_cases flash with ⟨-, hnone⟩ | ⟨slot', hp', -⟩
    · exact hnone slot
    · rw [hp] at hp'
      cases hp'
  · rcases Flash.bootSelect_cases flash with ⟨hp', -⟩ | ⟨slot', hp', hboots, -⟩
    · rw [hp] at hp'
      cases hp'
    · rw [hp] at hp'
      cases hp'
      rw [Flash.entry_start]
      rcases Flash.boots_abortPending.mp hboots with hnew | hvalid
      · rw [hnew]
        simp [hp]
      · rw [hvalid]
        simp
  · rw [Flash.boots_start] at hother
    rcases Flash.bootSelect_cases flash with ⟨hp', -⟩ | ⟨slot', hp', -, hlatest | hnone⟩
    · rw [hp] at hp'
      cases hp'
    · rw [hp] at hp'
      cases hp'
      exact hlatest.symm
    · rw [hp] at hp'
      cases hp'
      rw [hnone] at hother
      cases hother

/-! ## Steps -/

/-- The invariant of a device: until it sets the boot partition, an image runs
that the next reset can boot again, and it downloads only once confirmed. -/
structure Whole (C : Config) (s : Sys) : Prop where
  safe : s.journal.disk.Safe C
  diagnostic : ∀ running, s.phase = .diagnostic running → Runs C s.journal.disk running
  network : ∀ running, s.phase = .network running → Runs C s.journal.disk running
  task : ∀ t, s.phase = .task t → (∀ e, t.pc ≠ .exit e) → Runs C s.journal.disk t.running
  confirmed : ∀ t, s.phase = .task t → t.handleOpen = true →
    s.journal.disk.stateOf t.running ≠ some .pendingVerify

/-- The update partition is not picked while the confirmed image runs. -/
theorem Runs.update {running : Partition} (h : Runs C flash running)
    (hstate : flash.stateOf running ≠ some .pendingVerify)
    (hboots : flash.boots running.nextUpdate = true) :
    flash.latest = running.nextUpdate.other ∧
      flash.entry running.nextUpdate.other = some .valid := by
  cases running with
  | factory =>
    rw [h.factory rfl] at hboots
    cases hboots
  | ota slot =>
    change flash.boots slot.other = true at hboots
    change flash.latest = slot.other.other ∧ flash.entry slot.other.other = some .valid
    rw [Slot.other_other]
    refine ⟨h.latest slot rfl hboots, ?_⟩
    rcases h.state slot rfl with hpending | hvalid
    · exact absurd hpending hstate
    · exact hvalid

/-- The content of the update partition does not matter. -/
theorem safe_update {running : Partition} (bytes : Bytes) (hsafe : flash.Safe C)
    (hruns : Runs C flash running) (hstate : flash.stateOf running ≠ some .pendingVerify) :
    Flash.Safe C { flash with app := Function.update flash.app (.ota running.nextUpdate) bytes } ∧
      Runs C { flash with app := Function.update flash.app (.ota running.nextUpdate) bytes }
        running := by
  constructor
  · refine ⟨?_, fun slot hslot => ?_⟩
    · show C.imageValid (Function.update flash.app (.ota running.nextUpdate) bytes .factory) = true
      rw [Function.update_of_ne (by simp)]
      exact hsafe.factory
    · show C.imageValid (Function.update flash.app (.ota running.nextUpdate) bytes (.ota slot)) =
        true ∨ _
      by_cases heq : slot = running.nextUpdate
      · subst heq
        exact Or.inr (hruns.update hstate hslot)
      · rw [Function.update_of_ne (by simpa using heq)]
        exact hsafe.slots slot hslot
  · refine ⟨?_, hruns.factory, hruns.state, hruns.latest⟩
    show C.imageValid (Function.update flash.app (.ota running.nextUpdate) bytes running) = true
    rw [Function.update_of_ne (Partition.nextUpdate_ne running).symm]
    exact hruns.image

/-- The image that was set to boot is valid. -/
theorem safe_setBoot {running : Partition} (hsafe : flash.Safe C) (hruns : Runs C flash running)
    (hvalid : C.imageValid (flash.app (.ota running.nextUpdate)) = true) :
    Flash.Safe C { flash.setEntry running.nextUpdate .new with latest := running.nextUpdate } := by
  refine ⟨hsafe.factory, fun slot hslot => Or.inl ?_⟩
  show C.imageValid (flash.app (.ota slot)) = true
  by_cases heq : slot = running.nextUpdate
  · rw [heq]
    exact hvalid
  · have hboots : flash.boots slot = true := by
      change ((Function.update flash.entry running.nextUpdate (some .new)) slot).any
        ImgState.boots = true at hslot
      rwa [Function.update_of_ne heq] at hslot
    cases running with
    | factory =>
      rw [hruns.factory rfl] at hboots
      cases hboots
    | ota slot' =>
      have hslot' : slot = slot' := by
        cases slot <;> cases slot' <;> simp_all [Partition.nextUpdate, Slot.other]
      rw [hslot']
      exact hruns.image

theorem safe_setEntry {s : ImgState} (hsafe : flash.Safe C)
    (hstate : flash.entry slot = some .pendingVerify) : (flash.setEntry slot s).Safe C := by
  have hboots : flash.boots slot = true := Flash.boots_iff.mpr (Or.inr (Or.inl hstate))
  refine ⟨hsafe.factory, fun slot' hslot' => ?_⟩
  show C.imageValid (flash.app (.ota slot')) = true ∨ _
  by_cases heq : slot' = slot
  · subst heq
    rcases hsafe.slots _ hboots with himage | ⟨hlatest, hother⟩
    · exact Or.inl himage
    · refine Or.inr ⟨hlatest, ?_⟩
      show Function.update flash.entry _ _ _ = _
      rw [Function.update_of_ne (Slot.other_ne _)]
      exact hother
  · have hold : flash.boots slot' = true := by
      change ((Function.update flash.entry slot (some s)) slot').any ImgState.boots = true
        at hslot'
      rwa [Function.update_of_ne heq] at hslot'
    have hother : slot'.other = slot := by
      cases slot <;> cases slot' <;> simp_all [Slot.other]
    rcases hsafe.slots slot' hold with himage | ⟨-, hvalid⟩
    · exact Or.inl himage
    · rw [hother, hstate] at hvalid
      simp at hvalid

/-- The running image was confirmed. -/
theorem runs_markValid (hruns : Runs C flash (.ota slot)) :
    Runs C (flash.setEntry slot .valid) (.ota slot) := by
  refine ⟨hruns.image, by simp, fun slot' h => ?_, fun slot' h hother => ?_⟩
  · cases h
    exact Or.inr (Function.update_self ..)
  · cases h
    refine hruns.latest slot rfl ?_
    change ((Function.update flash.entry slot (some .valid)) slot.other).any ImgState.boots = true
      at hother
    rwa [Function.update_of_ne (Slot.other_ne _)] at hother

/-- The download writes to the update partition only. -/
theorem whole_download {t u : Task} {j : Log} {e : Effect} (bytes : Bytes)
    (h : Whole C ⟨.task t, j⟩) (hgoes : ∀ x, t.pc ≠ .exit x)
    (hstate : j.disk.stateOf t.running ≠ some .pendingVerify) (hrunning : u.running = t.running)
    (hwrites : j.disk.apply e =
      { j.disk with app := Function.update j.disk.app (.ota t.running.nextUpdate) bytes }) :
    Whole C ⟨.task u, j.write e⟩ := by
  obtain ⟨hsafe, hruns⟩ := safe_update bytes h.safe (h.task t rfl hgoes) hstate
  rw [← hwrites] at hsafe hruns
  refine ⟨hsafe, by simp, by simp, fun t' ht _ => ?_, fun t' ht _ => ?_⟩
  · cases ht
    rw [hrunning]
    exact hruns
  · cases ht
    rw [hrunning]
    show (j.disk.apply e).stateOf t.running ≠ _
    rw [hwrites]
    exact hstate

/-- A move of the task keeps the invariant. -/
theorem whole_task {t : Task} {j : Log} {r : Task × Log} (h : Whole C ⟨.task t, j⟩)
    (hmove : t.Moves C j r) : Whole C ⟨.task r.1, r.2⟩ := by
  rcases hmove.cases with hsilent | ⟨d, hpc, hstate, rfl⟩ | ⟨d, hpc, hopen, rfl⟩ |
    ⟨hpc, hvalid, rfl⟩
  · obtain ⟨es, hes, hlog⟩ := hsilent.writes
    have hdisk : r.2.disk = j.disk := by rw [hlog, writes_silent hes]
    refine ⟨?_, by simp, by simp, fun u hu _ => ?_, fun u hu hopen => ?_⟩
    · show r.2.disk.Safe C
      rw [hdisk]
      exact h.safe
    · cases hu
      show Runs C r.2.disk r.1.running
      rw [hdisk, hsilent.running]
      exact h.task t rfl hsilent.goes
    · cases hu
      show r.2.disk.stateOf r.1.running ≠ _
      rw [hdisk, hsilent.running]
      exact h.confirmed t rfl (hsilent.handle hopen)
  · exact whole_download [] h (by simp [hpc]) hstate rfl rfl
  · exact whole_download _ h (by simp [hpc]) (h.confirmed t rfl hopen) rfl rfl
  · have hruns := h.task t rfl (by simp [hpc])
    refine ⟨safe_setBoot h.safe hruns hvalid, by simp, by simp, fun u hu hexit => ?_,
      fun u hu hopen => ?_⟩
    · cases hu
      exact absurd rfl (hexit _)
    · cases hu
      have hold := h.confirmed t rfl hopen
      have hne := Partition.nextUpdate_ne t.running
      show Flash.stateOf { j.disk.setEntry t.running.nextUpdate .new with
        latest := t.running.nextUpdate } t.running ≠ _
      cases hrunning : t.running with
      | factory => simp [Flash.stateOf]
      | ota slot =>
        rw [hrunning] at hold hne
        show Function.update j.disk.entry _ _ slot ≠ _
        rw [Function.update_of_ne (by simpa [eq_comm] using hne)]
        exact hold

/-- A move of the device keeps the invariant. -/
theorem whole_moves {s s' : Sys} (h : Whole C s) (hmove : Sys.Moves C s s') : Whole C s' := by
  cases hmove with
  | boot j =>
    refine ⟨h.safe.start, fun running hp => ?_, by simp, by simp, by simp⟩
    cases hp
    exact h.safe.runs
  | confirmed slot j hstate =>
    refine ⟨safe_setEntry h.safe hstate, by simp, fun running hp => ?_, by simp, by simp⟩
    cases hp
    exact runs_markValid (h.diagnostic _ rfl)
  | rolledBack slot j hstate =>
    exact ⟨safe_setEntry h.safe hstate, by simp, by simp, by simp, by simp⟩
  | goesOn running j =>
    refine ⟨h.safe, by simp, fun running' hp => ?_, by simp, by simp⟩
    cases hp
    exact h.diagnostic _ rfl
  | network running j =>
    refine ⟨h.safe, by simp, by simp, fun t ht _ => ?_, fun t ht hopen => ?_⟩
    · cases ht
      exact h.network _ rfl
    · cases ht
      simp [Task.start] at hopen
  | noNetwork running j | restart t e j hpc | powerLoss p j =>
    exact ⟨h.safe, by simp, by simp, by simp, by simp⟩
  | task hmove => exact whole_task h hmove

theorem whole_reach {start : Flash → Prop} (hstart : ∀ flash, start flash → flash.Safe C) {s : Sys}
    (h : (device C start).Reachable s) : Whole C s := by
  refine h.invariant (I := Whole C) ?_ fun s l t _ hs _ hnext =>
    whole_moves hs (moves_of_next hnext)
  rintro s ⟨flash, hflash, rfl⟩
  exact ⟨hstart flash hflash, by simp, by simp, by simp, by simp⟩

/-- A device with a factory image and empty `otadata`. -/
def fromFactory (image : Bytes) (flash : Flash) : Prop :=
  flash.app .factory = image ∧ ∀ slot, flash.entry slot = none

/-- Whenever power is lost, the partition that the bootloader picks holds a
valid image. -/
theorem native_always_boots (C : Config) (image : Bytes) (himage : C.imageValid image = true)
    (s : Sys) (h : (device C (fromFactory image)).Reachable s) :
    C.imageValid (s.journal.disk.app s.journal.disk.bootSelect) = true := by
  refine (whole_reach (fun flash hflash => ?_) h).safe.bootSelect
  refine ⟨hflash.1 ▸ himage, fun slot hslot => ?_⟩
  rw [Flash.boots_iff, hflash.2] at hslot
  simp at hslot

/-! ## A device with images of a few hundred bytes -/

/-- An image that consists of its headers, with a version of equal bytes. -/
def sampleImage (v : UInt8) : Bytes :=
  List.replicate 32 0 ++ appDescMagic ++ List.replicate 12 0 ++ List.replicate 241 v

def sampleConfig : Config := ⟨false, fun image => 289 ≤ image.length⟩

def sampleFlash : Flash where
  app p := if p = .factory then sampleImage 1 else []
  entry _ := none
  latest := .ota0

/-- The answers of `app_main` and of the connection. -/
def startup : List Label :=
  [.boot, .diagnostic true true, .network true, .httpInit true, .httpOpen true]

theorem sample_init :
    (device sampleConfig (fromFactory (sampleImage 1))).init ⟨.off, ⟨sampleFlash, []⟩⟩ :=
  ⟨sampleFlash, ⟨rfl, fun _ => rfl⟩, rfl⟩

/-- Power is lost when the update partition was just erased. -/
theorem native_always_boots_cut : ∃ s,
    (device sampleConfig (fromFactory (sampleImage 1))).Reachable s ∧
      s.journal.disk.app (.ota .ota0) = [] ∧ s.phase = .off ∧
      sampleConfig.imageValid (s.journal.disk.app s.journal.disk.bootSelect) = true := by
  obtain ⟨s, hs, happ, hoff⟩ := Machine.exists_of_any
    (p := fun s : Sys => s.journal.disk.app (.ota .ota0) = [] ∧ s.phase = .off)
    (o := (device sampleConfig (fromFactory (sampleImage 1))).exec ⟨.off, ⟨sampleFlash, []⟩⟩
      (startup ++ [.read (.data (sampleImage 2)), .header [] [], .otaBegin true, .powerLoss]))
    (by decide +kernel)
  have h := Machine.Reachable.exec (.init sample_init) hs
  exact ⟨s, h, happ, hoff, native_always_boots sampleConfig (sampleImage 1) (by decide +kernel) s h⟩

end Winegrid.NativeOta
