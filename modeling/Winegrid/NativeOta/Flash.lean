import Winegrid.Lib.CString
import Winegrid.Lib.Journal
import Winegrid.Esp.Flash

/-!
# The flash of the native OTA example

The example has a factory partition beside the two OTA slots, and it looks at
the image states that `otadata` keeps for the slots.  `Flash` is the three
partitions and `otadata`; `Flash.start` is the bootloader with
`CONFIG_BOOTLOADER_APP_ROLLBACK_ENABLE`.

`versionField` is the version that the task compares, and `describe` is
`esp_ota_get_partition_description`.
-/

namespace Winegrid.NativeOta

open Esp (Slot)

/-! ## Partitions -/

inductive Partition where
  | factory
  | ota (slot : Slot)
  deriving DecidableEq

/-- `esp_ota_get_next_update_partition(NULL)`, from the running partition. -/
def Partition.nextUpdate : Partition → Slot
  | factory => .ota0
  | ota slot => slot.other

theorem Partition.nextUpdate_ne (p : Partition) : Partition.ota p.nextUpdate ≠ p := by
  cases p with
  | factory => simp
  | ota slot => simp [nextUpdate]

/-- `esp_ota_img_states_t`. -/
inductive ImgState where
  | new
  | pendingVerify
  | valid
  | invalid
  | aborted
  deriving DecidableEq

/-- The states in which the bootloader starts an image. -/
def ImgState.boots : ImgState → Bool
  | new | pendingVerify | valid => true
  | invalid | aborted => false

/-- The partitions, the state that `otadata` has for each slot, and the slot
whose state was written with the highest sequence number. -/
structure Flash where
  app : Partition → Bytes
  entry : Slot → Option ImgState
  latest : Slot

namespace Flash

/-- Whether the bootloader may start a slot. -/
def boots (flash : Flash) (slot : Slot) : Bool := (flash.entry slot).any ImgState.boots

/-- Whether `otadata` marks a slot as invalid or aborted. -/
def failed (flash : Flash) (slot : Slot) : Bool := (flash.entry slot).any fun s => !s.boots

/-- The slot that is written last among those that meet a condition. -/
def pick (flash : Flash) (p : Slot → Bool) : Option Slot :=
  if p flash.latest then some flash.latest
  else if p flash.latest.other then some flash.latest.other
  else none

/-- The active partition: an OTA slot that boots, else the factory image. -/
def active (flash : Flash) : Partition := ((flash.pick flash.boots).map .ota).getD .factory

/-- `esp_ota_get_last_invalid_partition`. -/
def lastInvalid (flash : Flash) : Option Slot := flash.pick flash.failed

def setEntry (flash : Flash) (slot : Slot) (s : ImgState) : Flash :=
  { flash with entry := Function.update flash.entry slot (some s) }

/-- An image that was to be verified when the device was reset is aborted. -/
def abortPending (flash : Flash) : Flash :=
  { flash with entry := fun slot => (flash.entry slot).map fun s =>
      if s = .pendingVerify then .aborted else s }

/-- A new image gets its one boot. -/
def tryNew (flash : Flash) (p : Partition) : Flash :=
  { flash with entry := fun slot => (flash.entry slot).map fun s =>
      if s = .new ∧ p = .ota slot then .pendingVerify else s }

/-- The partition that the bootloader starts. -/
def bootSelect (flash : Flash) : Partition := flash.abortPending.active

/-- The bootloader. -/
def start (flash : Flash) : Flash := flash.abortPending.tryNew flash.bootSelect

/-- The state of the image in a partition, `esp_ota_get_state_partition`. -/
def stateOf (flash : Flash) : Partition → Option ImgState
  | .factory => none
  | .ota slot => flash.entry slot

end Flash

/-! ## Application descriptions -/

/-- `sizeof(esp_image_header_t) + sizeof(esp_image_segment_header_t)`. -/
def appDescOffset : Nat := 24 + 8

/-- `sizeof(esp_app_desc_t)`. -/
def appDescSize : Nat := 256

/-- `ESP_APP_DESC_MAGIC_WORD`, as it lies in the image. -/
def appDescMagic : Bytes := [0x32, 0x54, 0xCD, 0xAB]

/-- The field `version` of the `esp_app_desc_t` in an image. -/
def versionField (image : Bytes) : Bytes := ((image.drop appDescOffset).drop 16).take 32

/-- `esp_ota_get_partition_description`: the version, where the partition
holds a description. -/
def describe (image : Bytes) : Option Bytes :=
  if appDescOffset + appDescSize ≤ image.length ∧
      (image.drop appDescOffset).take 4 = appDescMagic then
    some (versionField image)
  else none

/-- The version of an image lies in its first bytes. -/
theorem versionField_append {head tail : Bytes} (h : appDescOffset + appDescSize ≤ head.length) :
    versionField (head ++ tail) = versionField head := by
  simp only [appDescOffset, appDescSize] at h
  unfold versionField
  rw [List.drop_drop, List.drop_drop,
    List.drop_append_of_le_length (by simp [appDescOffset]; omega),
    List.take_append_of_le_length]
  simp only [List.length_drop, appDescOffset]
  omega

theorem describe_eq_some {image v : Bytes} (h : describe image = some v) :
    v = versionField image := by
  unfold describe at h
  split_ifs at h
  exact (Option.some.inj h).symm

/-! ## Effects -/

/-- What the firmware does, and what it is told.  `otaBegin` and `setBoot`
also record the version that was compared and the one that was installed. -/
inductive Effect where
  | boot (p : Partition)
  | markValid (slot : Slot)
  | markInvalid (slot : Slot)
  | httpInit
  | httpClose
  | httpCleanup
  | received (data : Bytes)
  | complete
  | otaBegin (slot : Slot) (version : Bytes)
  | otaWrite (slot : Slot) (data : Bytes)
  | otaEnd
  | otaAbort
  | setBoot (slot : Slot) (version : Option Bytes)
  | restart
  | powerLoss
  deriving DecidableEq

def Flash.apply (flash : Flash) : Effect → Flash
  | .boot _ => flash.start
  | .markValid slot => flash.setEntry slot .valid
  | .markInvalid slot => flash.setEntry slot .invalid
  | .otaBegin slot _ => { flash with app := Function.update flash.app (.ota slot) [] }
  | .otaWrite slot data =>
    { flash with app := Function.update flash.app (.ota slot) (flash.app (.ota slot) ++ data) }
  | .setBoot slot _ => { flash.setEntry slot .new with latest := slot }
  | .httpInit | .httpClose | .httpCleanup | .received _ | .complete | .otaEnd | .otaAbort
  | .restart | .powerLoss => flash

instance : Disk Flash Effect := ⟨Flash.apply⟩

@[simp] theorem apply_def (flash : Flash) (e : Effect) : Disk.apply flash e = flash.apply e := rfl

/-- The journal of a device. -/
abbrev Log := Journal Flash Effect

/-- Effects that leave the flash alone, and that no check looks back to. -/
def Effect.silent : Effect → Bool
  | .httpInit | .httpClose | .httpCleanup | .received _ | .complete | .otaEnd | .otaAbort
  | .restart | .powerLoss => true
  | .boot _ | .markValid _ | .markInvalid _ | .otaBegin .. | .otaWrite .. | .setBoot .. => false

theorem Flash.apply_silent {e : Effect} (h : e.silent = true) (flash : Flash) :
    flash.apply e = flash := by
  cases e <;> first | rfl | cases h

theorem writes_silent {es : List Effect} (h : ∀ e ∈ es, e.silent = true) (j : Log) :
    (j.writes es).disk = j.disk := by
  induction es generalizing j with
  | nil => rfl
  | cons e es ih =>
    rw [Journal.writes_cons, ih fun e he => h e (List.mem_cons_of_mem _ he)]
    exact Flash.apply_silent (h e List.mem_cons_self) j.disk

end Winegrid.NativeOta
