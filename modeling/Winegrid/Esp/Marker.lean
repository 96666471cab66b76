import Winegrid.Esp.Flash
import Winegrid.Lib.Machine
import Mathlib.Tactic.SplitIfs

/-!
# The `pending_fw` protocol

What the two clients mean by their NVS markers, apart from how they download:
an attempt stores its version under `pending_fw`, an image that boots compares
the marker with its own version, and a version that did not stick goes to
`failed_fw`.

`marker version` is the machine of the protocol.  Its labels are the effects,
one at a time, and `version` is what is compiled into an image.  `Move` lists
its steps.  Two laws are proved of its runs.

* `Loop`: the image of one version is installed at most once and refused after
  its rollback, when that image never takes its own marker away.
* `Accounted`: a version goes to `failed_fw` only after its image was made the
  boot image and the other image booted, when no reset cuts an attempt and the
  image was built with the version in the marker.
-/

namespace Winegrid.Esp

/-- How far a running device is with an attempt. -/
inductive Flow where
  | idle
  | attempting
  | installed
  deriving DecidableEq

/-- Off, in `app_main` of an image, or with the client of an image started. -/
inductive Phase where
  | off
  | booting (version : Bytes)
  | up (version : Bytes) (flow : Flow)
  deriving DecidableEq

structure Marker where
  journal : Log
  phase : Phase

/-- `pending_fw`, as `load_nvs_str` reads it. -/
def Flash.pending (flash : Flash) : Option Bytes := loadNvsStr flash.nvs .pendingFw 32

/-- `failed_fw`, as `load_nvs_str` reads it. -/
def Flash.failed (flash : Flash) : Option Bytes := loadNvsStr flash.nvs .failedFw 32

@[simp] theorem pending_nvsSet {flash : Flash} {v : Bytes} (hv : v.length < 32) :
    (flash.apply (.nvsSet .pendingFw v)).pending = some v := by
  simp [Flash.pending, Flash.apply, loadNvsStr_eq_some, hv]

@[simp] theorem failed_nvsSet {flash : Flash} {v : Bytes} (hv : v.length < 32) :
    (flash.apply (.nvsSet .failedFw v)).failed = some v := by
  simp [Flash.failed, Flash.apply, loadNvsStr_eq_some, hv]

@[simp] theorem pending_nvsSet_of_ne {flash : Flash} {key : NvsKey} {v : Bytes}
    (h : key ≠ .pendingFw) : (flash.apply (.nvsSet key v)).pending = flash.pending := by
  simp [Flash.pending, Flash.apply, loadNvsStr, Function.update_of_ne h.symm]

@[simp] theorem failed_nvsSet_of_ne {flash : Flash} {key : NvsKey} {v : Bytes}
    (h : key ≠ .failedFw) : (flash.apply (.nvsSet key v)).failed = flash.failed := by
  simp [Flash.failed, Flash.apply, loadNvsStr, Function.update_of_ne h.symm]

@[simp] theorem pending_nvsErase {flash : Flash} :
    (flash.apply (.nvsErase .pendingFw)).pending = none := by
  simp [Flash.pending, Flash.apply, loadNvsStr]

@[simp] theorem failed_nvsErase {flash : Flash} :
    (flash.apply (.nvsErase .pendingFw)).failed = flash.failed := rfl

@[simp] theorem failed_setBoot {flash : Flash} {slot : Slot} {v : Bytes} {ok : Bool} :
    (flash.apply (.setBoot slot v ok)).failed = flash.failed := by
  cases ok <;> rfl

/-- A failed `esp_ota_set_boot_partition` leaves the flash as it is. -/
@[simp] theorem apply_setBoot_false {flash : Flash} {slot : Slot} {v : Bytes} :
    flash.apply (.setBoot slot v false) = flash := rfl

/-- The phase after an effect, when the protocol allows it. -/
def Phase.next (version : Bytes → Bytes) (flash : Flash) : Phase → Effect → Option Phase
  | _, .reset => some .off
  | .off, .boot slot w =>
    if slot = flash.bootSelect ∧ w = version (flash.app slot) then some (.booting w) else none
  | .booting w, .call c =>
    if c = .clientStart then
      if flash.pending = none ∧ flash.imgState ≠ .pendingVerify then some (.up w .idle) else none
    else some (.booting w)
  | .booting w, .nvsSet key v =>
    if key = .pendingFw then none
    else if key = .failedFw then
      if flash.pending = some v ∧ v ≠ w then some (.booting w) else none
    else some (.booting w)
  | .booting w, .nvsErase key =>
    if key = .pendingFw ∧ (flash.pending = some w ∨ flash.pending = flash.failed) then
      some (.booting w)
    else none
  | .booting w, .markValid =>
    if flash.pending = none ∧ flash.imgState = .pendingVerify then some (.booting w) else none
  | .up w flow, .publish .. => some (.up w flow)
  | .up w flow, .subscribe _ => some (.up w flow)
  | .up w flow, .nvsSet key _ =>
    if key = .pendingFw ∧ flow ≠ .installed then some (.up w .attempting) else none
  | .up w flow, .nvsErase key =>
    if key = .pendingFw ∧ flow = .attempting then some (.up w .idle) else none
  | .up w flow, .otaBegin slot =>
    if slot = flash.bootSlot.other ∧ flow ≠ .installed then some (.up w flow) else none
  | .up w flow, .otaWrite slot _ =>
    if slot = flash.bootSlot.other ∧ flow ≠ .installed then some (.up w flow) else none
  | .up w flow, .setBoot slot v ok =>
    if slot = flash.bootSlot.other ∧ v = version (flash.app slot) ∧ flow = .attempting then
      some (.up w (if ok then .installed else .attempting))
    else none
  | _, _ => none

/-- The protocol over the flashes that meet `start`. -/
def marker (version : Bytes → Bytes) (start : Flash → Prop) : Machine Marker Effect where
  init m := ∃ flash, start flash ∧ m = ⟨⟨flash, []⟩, .off⟩
  next m e := (m.phase.next version m.journal.disk e).map fun phase => ⟨m.journal.write e, phase⟩

/-- The steps of the protocol. -/
inductive Move (version : Bytes → Bytes) (flash : Flash) : Phase → Effect → Phase → Prop
  | reset {p : Phase} : Move version flash p .reset .off
  | boot : Move version flash .off
      (.boot flash.bootSelect (version (flash.app flash.bootSelect)))
      (.booting (version (flash.app flash.bootSelect)))
  | call {w : Bytes} {c : Call} : Move version flash (.booting w) (.call c) (.booting w)
  | start {w : Bytes} (hpending : flash.pending = none) (hstate : flash.imgState ≠ .pendingVerify) :
      Move version flash (.booting w) (.call .clientStart) (.up w .idle)
  | blame {w v : Bytes} (hpending : flash.pending = some v) (hne : v ≠ w) :
      Move version flash (.booting w) (.nvsSet .failedFw v) (.booting w)
  | store {w v : Bytes} {key : NvsKey} (hp : key ≠ .pendingFw) (hf : key ≠ .failedFw) :
      Move version flash (.booting w) (.nvsSet key v) (.booting w)
  | clear {w : Bytes} (h : flash.pending = some w ∨ flash.pending = flash.failed) :
      Move version flash (.booting w) (.nvsErase .pendingFw) (.booting w)
  | confirm {w : Bytes} (hpending : flash.pending = none)
      (hstate : flash.imgState = .pendingVerify) :
      Move version flash (.booting w) .markValid (.booting w)
  | publish {w topic payload : Bytes} {flow : Flow} :
      Move version flash (.up w flow) (.publish topic payload) (.up w flow)
  | subscribe {w filter : Bytes} {flow : Flow} :
      Move version flash (.up w flow) (.subscribe filter) (.up w flow)
  | attempt {w v : Bytes} {flow : Flow} (hflow : flow ≠ .installed) :
      Move version flash (.up w flow) (.nvsSet .pendingFw v) (.up w .attempting)
  | abandon {w : Bytes} :
      Move version flash (.up w .attempting) (.nvsErase .pendingFw) (.up w .idle)
  | otaBegin {w : Bytes} {flow : Flow} (hflow : flow ≠ .installed) :
      Move version flash (.up w flow) (.otaBegin flash.bootSlot.other) (.up w flow)
  | otaWrite {w data : Bytes} {flow : Flow} (hflow : flow ≠ .installed) :
      Move version flash (.up w flow) (.otaWrite flash.bootSlot.other data) (.up w flow)
  | setBootFailed {w : Bytes} :
      Move version flash (.up w .attempting)
        (.setBoot flash.bootSlot.other (version (flash.app flash.bootSlot.other)) false)
        (.up w .attempting)
  | install {w : Bytes} :
      Move version flash (.up w .attempting)
        (.setBoot flash.bootSlot.other (version (flash.app flash.bootSlot.other)) true)
        (.up w .installed)

variable {version : Bytes → Bytes} {start : Flash → Prop}

theorem next_move {flash : Flash} {p p' : Phase} {e : Effect}
    (h : p.next version flash e = some p') : Move version flash p e p' := by
  cases p with
  | off =>
    cases e with
    | reset =>
      cases h
      exact .reset
    | boot slot w =>
      simp only [Phase.next] at h
      split_ifs at h with hboot
      obtain ⟨rfl, rfl⟩ := hboot
      cases h
      exact .boot
    | _ => cases h
  | booting w =>
    cases e with
    | reset =>
      cases h
      exact .reset
    | call c =>
      simp only [Phase.next] at h
      split_ifs at h with hc hstart <;> cases h
      · subst hc
        exact .start hstart.1 hstart.2
      · exact .call
    | nvsSet key v =>
      simp only [Phase.next] at h
      split_ifs at h with hp hf hblame <;> cases h
      · subst hf
        exact .blame hblame.1 hblame.2
      · exact .store hp hf
    | nvsErase key =>
      simp only [Phase.next] at h
      split_ifs at h with hclear
      obtain ⟨rfl, hclear⟩ := hclear
      cases h
      exact .clear hclear
    | markValid =>
      simp only [Phase.next] at h
      split_ifs at h with hconfirm
      cases h
      exact .confirm hconfirm.1 hconfirm.2
    | _ => cases h
  | up w flow =>
    cases e with
    | reset =>
      cases h
      exact .reset
    | publish topic payload =>
      cases h
      exact .publish
    | subscribe filter =>
      cases h
      exact .subscribe
    | nvsSet key v =>
      simp only [Phase.next] at h
      split_ifs at h with hattempt
      obtain ⟨rfl, hflow⟩ := hattempt
      cases h
      exact .attempt hflow
    | nvsErase key =>
      simp only [Phase.next] at h
      split_ifs at h with habandon
      obtain ⟨rfl, rfl⟩ := habandon
      cases h
      exact .abandon
    | otaBegin slot =>
      simp only [Phase.next] at h
      split_ifs at h with hbegin
      obtain ⟨rfl, hflow⟩ := hbegin
      cases h
      exact .otaBegin hflow
    | otaWrite slot data =>
      simp only [Phase.next] at h
      split_ifs at h with hwrite
      obtain ⟨rfl, hflow⟩ := hwrite
      cases h
      exact .otaWrite hflow
    | setBoot slot v ok =>
      simp only [Phase.next] at h
      split_ifs at h with hboot hok <;> cases h
      · obtain ⟨rfl, rfl, rfl⟩ := hboot
        subst hok
        exact .install
      · obtain ⟨rfl, rfl, rfl⟩ := hboot
        rw [Bool.not_eq_true] at hok
        subst hok
        exact .setBootFailed
    | _ => cases h

/-- A step of the machine is a move of its phase. -/
theorem marker_move {m m' : Marker} {e : Effect} (h : (marker version start).next m e = some m') :
    Move version m.journal.disk m.phase e m'.phase ∧ m'.journal = m.journal.write e := by
  obtain ⟨phase, hphase, rfl⟩ := Option.map_eq_some_iff.mp h
  exact ⟨next_move hphase, rfl⟩

end Winegrid.Esp
