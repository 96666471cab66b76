import Winegrid.Esp.Protocol
import Winegrid.Lib.History

/-!
# No image is started that is not whole

A download writes the slot that does not run, and only the call that sets the
boot partition makes the bootloader take that slot.  In the protocol the slot
is left alone from there on, so the bootloader never starts an image that is
half written, wherever power was lost before.

* `Whole` is what the history says of a slot: nothing was ever written to it,
  or nothing since it was made the boot slot.
* `Intact` is the invariant of the protocol, and `intact_move` its step lemma.
* `boots_whole` carries the law to every firmware that follows the protocol.
* `confirms_boot` is what every boot makes of the flash, and `confirm_new` the
  first boot of a new image.
-/

namespace Winegrid.Esp

universe u v w

variable {version : Bytes → Bytes} {flash₀ flash : Flash} {slot : Slot} {v : Bytes}
  {log : List Effect} {e : Effect} {j : Log}

/-! ## Histories -/

/-- The effect erases the slot, or writes to it. -/
def WritesTo (slot : Slot) : Effect → Prop
  | .otaBegin s => s = slot
  | .otaWrite s _ => s = slot
  | _ => False

/-- The device leaves the factory with this flash. -/
def Factory (flash₀ flash : Flash) : Prop := flash = flash₀

/-- Nothing was written to the slot. -/
def Untouched (slot : Slot) (log : List Effect) : Prop := ∀ e ∈ log, ¬ WritesTo slot e

/-- The slot holds an image of version `v` that is whole: the one it had at the
start, or one that was complete when the slot was made the boot slot. -/
def Whole (version : Bytes → Bytes) (flash₀ : Flash) (slot : Slot) (v : Bytes)
    (log : List Effect) : Prop :=
  (Untouched slot log ∧ v = version (flash₀.app slot)) ∨
    ∃ before after, log = before ++ .setBoot slot v true :: after ∧ Untouched slot after

/-- The bootloader starts an image that is whole. -/
def BootsWhole (version : Bytes → Bytes) (flash₀ : Flash) (past : List Effect) (e : Effect) :
    Prop :=
  ∀ slot v, e = .boot slot v → Whole version flash₀ slot v past

theorem Untouched.concat (h : Untouched slot log) (he : ¬ WritesTo slot e) :
    Untouched slot (log ++ [e]) := by
  intro e' hmem
  rcases List.mem_append.mp hmem with hmem | hmem
  · exact h e' hmem
  · rw [List.mem_singleton.mp hmem]
    exact he

theorem Whole.concat (h : Whole version flash₀ slot v log) (he : ¬ WritesTo slot e) :
    Whole version flash₀ slot v (log ++ [e]) := by
  rcases h with ⟨huntouched, hv⟩ | ⟨before, after, rfl, huntouched⟩
  · exact Or.inl ⟨huntouched.concat he, hv⟩
  · exact Or.inr ⟨before, after ++ [e], by simp, huntouched.concat he⟩

/-- A slot is whole once it is made the boot slot. -/
theorem whole_setBoot (version : Bytes → Bytes) (flash₀ : Flash) (slot : Slot) (v : Bytes)
    (log : List Effect) : Whole version flash₀ slot v (log ++ [.setBoot slot v true]) :=
  Or.inr ⟨log, [], rfl, by simp [Untouched]⟩

/-- What does not write to a slot leaves its image as it is. -/
theorem app_apply (h : ¬ WritesTo slot e) : (flash.apply e).app slot = flash.app slot := by
  cases e with
  | otaBegin s => exact Function.update_of_ne (Ne.symm h) _ _
  | otaWrite s data => exact Function.update_of_ne (Ne.symm h) _ _
  | setBoot s v ok => cases ok <;> rfl
  | _ => rfl

/-! ## The invariant -/

/-- The image that the slot holds is whole. -/
def Holds (version : Bytes → Bytes) (flash₀ : Flash) (j : Log) (slot : Slot) : Prop :=
  Whole version flash₀ slot (version (j.disk.app slot)) j.log

/-- The boot slot is whole, and so is the other one while the bootloader may
fall back on it. -/
structure Intact (version : Bytes → Bytes) (flash₀ : Flash) (j : Log) : Prop where
  boot : Holds version flash₀ j j.disk.bootSlot
  other : j.disk.imgState ≠ .valid → Holds version flash₀ j j.disk.bootSlot.other

/-- The state of the image in each phase. -/
def Known (flash : Flash) : Phase → Prop
  | .off => True
  | .booting _ => flash.imgState ≠ .new
  | .up _ flow => flow ≠ .installed → flash.imgState = .valid

theorem Holds.write (h : Holds version flash₀ j slot) (he : ¬ WritesTo slot e) :
    Holds version flash₀ (j.write e) slot := by
  unfold Holds
  rw [Journal.write_disk, apply_def, app_apply he]
  exact h.concat he

/-- An effect that writes to no slot that counts, and leaves the boot data
alone. -/
theorem Intact.write (h : Intact version flash₀ j)
    (hslot : (j.disk.apply e).bootSlot = j.disk.bootSlot)
    (hstate : (j.disk.apply e).imgState = .valid ∨
      (j.disk.apply e).imgState = j.disk.imgState ∧ ∀ slot, ¬ WritesTo slot e)
    (he : ¬ WritesTo j.disk.bootSlot e) : Intact version flash₀ (j.write e) := by
  refine ⟨?_, fun hvalid => ?_⟩
  · rw [Journal.write_disk, apply_def, hslot]
    exact h.boot.write he
  · rw [Journal.write_disk, apply_def] at hvalid ⊢
    rw [hslot]
    rcases hstate with hnow | ⟨hsame, hnone⟩
    · exact absurd hnow hvalid
    · exact (h.other (hsame ▸ hvalid)).write (hnone _)

/-- The slot that the bootloader takes is whole. -/
theorem Intact.select (h : Intact version flash₀ j) : Holds version flash₀ j j.disk.bootSelect := by
  unfold Flash.bootSelect
  split_ifs with hstate
  · exact h.other (by simp [hstate])
  · exact h.boot

/-- The bootloader takes a new image on trial, and falls back after that. -/
theorem Intact.booted (h : Intact version flash₀ j) (w : Bytes) :
    Intact version flash₀ (j.write (.boot j.disk.bootSelect w)) := by
  refine ⟨h.select.write id, fun hvalid => ?_⟩
  have hnew : j.disk.imgState = .new := by
    by_contra hold
    exact hvalid (by simp [Flash.apply, hold])
  have hselect : j.disk.bootSelect = j.disk.bootSlot := by simp [Flash.bootSelect, hnew]
  have hother : (j.write (.boot j.disk.bootSelect w)).disk.bootSlot.other = j.disk.bootSlot.other :=
    congrArg Slot.other hselect
  rw [hother]
  exact (h.other (by simp [hnew])).write id

/-- The slot that was written becomes the boot slot. -/
theorem Intact.install (h : Intact version flash₀ j) :
    Intact version flash₀ (j.write (.setBoot j.disk.bootSlot.other
      (version (j.disk.app j.disk.bootSlot.other)) true)) := by
  refine ⟨whole_setBoot version flash₀ j.disk.bootSlot.other _ j.log, fun _ => ?_⟩
  have hother : (j.write (.setBoot j.disk.bootSlot.other
      (version (j.disk.app j.disk.bootSlot.other)) true)).disk.bootSlot.other =
        j.disk.bootSlot := Slot.other_other _
  rw [hother]
  exact h.boot.write id

/-- Every move of the protocol keeps the slots whole. -/
theorem intact_move {p p' : Phase} (h : Intact version flash₀ j) (hknown : Known j.disk p)
    (hmove : Move version j.disk p e p') :
    Intact version flash₀ (j.write e) ∧ Known (j.write e).disk p' := by
  have hquiet : (∀ slot, ¬ WritesTo slot e) → (j.disk.apply e).bootSlot = j.disk.bootSlot →
      (j.disk.apply e).imgState = j.disk.imgState → Intact version flash₀ (j.write e) :=
    fun hnone hslot hstate => h.write hslot (Or.inr ⟨hstate, hnone⟩) (hnone _)
  cases hmove with
  | reset => exact ⟨hquiet (fun _ => id) rfl rfl, trivial⟩
  | boot =>
    refine ⟨h.booted _, ?_⟩
    simp only [Known, Journal.write_disk, apply_def, Flash.apply]
    split_ifs <;> decide
  | call => exact ⟨hquiet (fun _ => id) rfl rfl, hknown⟩
  | start _ hstate =>
    refine ⟨hquiet (fun _ => id) rfl rfl, fun _ => ?_⟩
    have hvalid : ∀ state : ImgState, state ≠ .new → state ≠ .pendingVerify → state = .valid := by
      intro state
      cases state <;> decide
    exact hvalid _ hknown hstate
  | blame | store | clear => exact ⟨hquiet (fun _ => id) rfl rfl, hknown⟩
  | confirm => exact ⟨h.write rfl (Or.inl rfl) id, by simp [Known, Flash.apply]⟩
  | publish | subscribe => exact ⟨hquiet (fun _ => id) rfl rfl, hknown⟩
  | attempt hflow => exact ⟨hquiet (fun _ => id) rfl rfl, fun _ => hknown hflow⟩
  | abandon => exact ⟨hquiet (fun _ => id) rfl rfl, fun _ => hknown (by decide)⟩
  | otaBegin hflow =>
    exact ⟨h.write rfl (Or.inl (hknown hflow)) (Slot.other_ne _), fun _ => hknown hflow⟩
  | otaWrite hflow =>
    exact ⟨h.write rfl (Or.inl (hknown hflow)) (Slot.other_ne _), fun _ => hknown hflow⟩
  | setBootFailed => exact ⟨hquiet (fun _ => id) rfl rfl, hknown⟩
  | install => exact ⟨h.install, fun hflow => absurd rfl hflow⟩

/-- The invariant of the runs of the protocol. -/
theorem intact_reach {m : Marker} (h : (marker version (Factory flash₀)).Reachable m) :
    Lawful (BootsWhole version flash₀) m.journal.log ∧ Intact version flash₀ m.journal ∧
      Known m.journal.disk m.phase := by
  refine h.invariant (I := fun m => Lawful (BootsWhole version flash₀) m.journal.log ∧
    Intact version flash₀ m.journal ∧ Known m.journal.disk m.phase) ?_ ?_
  · intro m ⟨flash, hflash, hm⟩
    subst hflash hm
    have hstart : ∀ slot, Holds version flash ⟨flash, []⟩ slot :=
      fun slot => Or.inl ⟨by simp [Untouched], rfl⟩
    exact ⟨lawful_nil, ⟨hstart _, fun _ => hstart _⟩, trivial⟩
  · intro m e m' _ ⟨hlawful, hintact, hknown⟩ _ hnext
    obtain ⟨hmove, hjournal⟩ := marker_move hnext
    rw [hjournal, Journal.write_log, lawful_concat]
    refine ⟨⟨hlawful, fun slot v he => ?_⟩, intact_move hintact hknown hmove⟩
    subst he
    generalize m.phase = p at hmove
    generalize m'.phase = p' at hmove
    cases hmove with
    | boot => exact hintact.select

/-! ## Devices -/

variable {σ : Type u} {ℓ : Type v} {ο : Type w} {F : Firmware σ ℓ ο} {P : Platform}
  {start : Flash → Prop}

/-- A device that follows the protocol is a run of it. -/
def deviceSimulation (hF : F.Follows P) (start : Flash → Prop) :
    Machine.Simulation (F.device P start) Machine.always (marker P.version start)
      Machine.always where
  R := hF.Shows
  init := by
    intro s ⟨flash, hflash, hs⟩
    subst hs
    exact ⟨_, ⟨flash, hflash, rfl⟩, rfl⟩
  step := by
    intro s l s' m hm _ h
    cases l with
    | done a =>
      obtain ⟨m', hrun, hm'⟩ := hF.work_run start hm h
      exact ⟨_, m', hrun.imp fun _ _ _ _ => trivial, hm'⟩
    | cut a n =>
      obtain ⟨s'', hwork, hs'⟩ := Option.map_eq_some_iff.mp h
      obtain ⟨u, hu, hjournal⟩ := hF.cut_run start hm hwork n
      subst hs'
      refine ⟨_, _, (hu.imp fun _ _ _ _ => trivial).snoc trivial (next_reset _ _ u), ?_⟩
      rw [hjournal]
      exact rfl
    | reset =>
      cases h
      refine ⟨_, _, .single trivial (next_reset _ _ m), ?_⟩
      rw [hF.shows_journal hm]
      exact rfl

/-- The bootloader starts whole images only, and the slot that it takes next
holds one. -/
theorem boots_whole (hF : F.Follows P) {s : Sys σ} (h : (F.device P (Factory flash₀)).Reachable s) :
    Lawful (BootsWhole P.version flash₀) (F.log s).log ∧
      Holds P.version flash₀ (F.log s) (F.log s).disk.bootSelect := by
  obtain ⟨m, hm, hshows⟩ := (deviceSimulation hF (Factory flash₀)).reach h
  rw [← hF.shows_journal hshows]
  obtain ⟨hlawful, hintact, -⟩ := intact_reach hm
  exact ⟨hlawful, hintact.select⟩

/-- What `app_main` has made of the flash when the image is confirmed, whatever
the boot found. -/
structure ConfirmsBoot (flash flash' : Flash) : Prop where
  app : flash'.app = flash.app
  bootSlot : flash'.bootSlot = flash.bootSelect
  imgState : flash'.imgState = .valid
  nvs : ∀ key, key ≠ .pendingFw → key ≠ .failedFw → flash'.nvs key = flash.nvs key

theorem reconcilePendingOta_disk (w : Bytes) (j : Log) :
    (reconcilePendingOta w j).disk.app = j.disk.app ∧
      (reconcilePendingOta w j).disk.bootSlot = j.disk.bootSlot ∧
      (reconcilePendingOta w j).disk.imgState = j.disk.imgState ∧
      ∀ key, key ≠ .pendingFw → key ≠ .failedFw →
        (reconcilePendingOta w j).disk.nvs key = j.disk.nvs key := by
  unfold reconcilePendingOta
  split
  · exact ⟨rfl, rfl, rfl, fun _ _ _ => rfl⟩
  · simp only
    split_ifs
    · exact ⟨rfl, rfl, rfl, fun key hpending _ => Function.update_of_ne hpending _ _⟩
    · refine ⟨rfl, rfl, rfl, fun key hpending hfailed => ?_⟩
      exact (Function.update_of_ne hpending _ _).trans (Function.update_of_ne hfailed _ _)

theorem confirms_boot (P : Platform) (j : Log) :
    ConfirmsBoot j.disk (Firmware.confirm P j).disk := by
  let w := (Firmware.bootBuild P j).version
  let j₁ := (j.write (.boot j.disk.bootSelect w)).write (.call .nvsFlashInit)
  obtain ⟨happ, hslot, hstate, hnvs⟩ := reconcilePendingOta_disk w j₁
  have hconfirm : Firmware.confirm P j =
      confirmImage ((reconcilePendingOta w j₁).writes networkCalls) := rfl
  have hbooted : j₁.disk.imgState = .pendingVerify ∨ j₁.disk.imgState = .valid := by
    show (if j.disk.imgState = .new then ImgState.pendingVerify else .valid) = .pendingVerify ∨
      (if j.disk.imgState = .new then ImgState.pendingVerify else .valid) = .valid
    split_ifs
    · exact Or.inl rfl
    · exact Or.inr rfl
  rw [hconfirm, confirmImage]
  split_ifs with hpending
  · exact ⟨happ, hslot, rfl, hnvs⟩
  · refine ⟨happ, hslot, ?_, hnvs⟩
    have hsame : ((reconcilePendingOta w j₁).writes networkCalls).disk.imgState =
        j₁.disk.imgState := hstate
    rw [hsame] at hpending ⊢
    exact hbooted.resolve_left hpending

/-- The first boot of a new image clears the marker of its version, and
confirms the image. -/
theorem confirm_new {j : Log} (hstate : j.disk.imgState = .new)
    (hpending : j.disk.pending = some (P.version (j.disk.app j.disk.bootSlot))) :
    (Firmware.confirm P j).disk =
      { j.disk with
        nvs := Function.update j.disk.nvs .pendingFw none
        imgState := .valid } := by
  have hselect : j.disk.bootSelect = j.disk.bootSlot := by simp [Flash.bootSelect, hstate]
  have hload : loadNvsStr j.disk.nvs .pendingFw 32 =
      some (P.version (j.disk.app j.disk.bootSlot)) := hpending
  have hbuild : (Firmware.bootBuild P j).version = P.version (j.disk.app j.disk.bootSlot) := by
    rw [Firmware.bootBuild, hselect]
    rfl
  simp [Firmware.confirm, confirmImage, reconcilePendingOta, hbuild, hselect, Flash.apply, hstate,
    hload, Journal.writes_cons]

end Winegrid.Esp
