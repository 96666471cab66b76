import Winegrid.Lib.CString
import Winegrid.Lib.Journal
import Winegrid.Lib.Ledger
import Winegrid.Esp.Json
import Mathlib.Algebra.Group.Nat.Defs
import Mathlib.Logic.Function.Basic

/-!
# What survives a reset

The flash of the two ESP-IDF clients: the keys of their NVS namespace, the two
application slots, and the choice of the bootloader with
`CONFIG_BOOTLOADER_APP_ROLLBACK_ENABLE`.  An `Effect` is one atomic thing the
firmware does that lasts or that somebody sees, so a journal of effects holds
both what a reset leaves behind and what the device said.

`Ota` is the part of `esp_ota_ops` that lives in RAM: the open handles, with a
log of every `esp_ota_begin`, `esp_ota_end` and `esp_ota_abort`.
-/

namespace Winegrid.Esp

/-! ## NVS -/

/-- The keys that the two clients use: `pending_fw`, `failed_fw`,
`access_token`, `assigned_hub` and `device_id`. -/
inductive NvsKey where
  | pendingFw
  | failedFw
  | accessToken
  | assignedHub
  | deviceId
  deriving DecidableEq

abbrev Nvs := NvsKey → Option Bytes

/-- `load_nvs_str`: a string that does not fit `out_size` bytes with its NUL
is not loaded. -/
def loadNvsStr (nvs : Nvs) (key : NvsKey) (outSize : Nat) : Option Bytes :=
  (nvs key).filter fun value => value.length < outSize

theorem loadNvsStr_eq_some {nvs : Nvs} {key : NvsKey} {outSize : Nat} {v : Bytes} :
    loadNvsStr nvs key outSize = some v ↔ nvs key = some v ∧ v.length < outSize := by
  simp [loadNvsStr, Option.filter_eq_some_iff]

/-! ## The application slots -/

inductive Slot where
  | ota0
  | ota1
  deriving DecidableEq

/-- `esp_ota_get_next_update_partition(NULL)`, from the running slot. -/
def Slot.other : Slot → Slot
  | ota0 => ota1
  | ota1 => ota0

@[simp] theorem Slot.other_other (slot : Slot) : slot.other.other = slot := by
  cases slot <;> rfl

@[simp] theorem Slot.other_ne (slot : Slot) : slot.other ≠ slot := by
  cases slot <;> decide

@[simp] theorem Slot.ne_other (slot : Slot) : slot ≠ slot.other :=
  (slot.other_ne).symm

/-- The state of the image that the boot data points to. -/
inductive ImgState where
  | valid
  | new
  | pendingVerify
  deriving DecidableEq

structure Flash where
  nvs : Nvs
  app : Slot → Bytes
  bootSlot : Slot
  imgState : ImgState

/-- The slot that the bootloader starts.  An image that is still to be
verified had its one boot, so the other slot is taken. -/
def Flash.bootSelect (flash : Flash) : Slot :=
  if flash.imgState = .pendingVerify then flash.bootSlot.other else flash.bootSlot

/-! ## Effects -/

/-- The calls of `app_main` that can take the device down or hang it. -/
inductive Call where
  | nvsFlashInit
  | netifInit
  | eventLoopCreate
  | exampleConnect
  | syncTime
  | provisioning
  | clientStart
  deriving DecidableEq

/-- One atomic action.  `boot` and `setBoot` also record the version that is
compiled into the image, and `setBoot` whether the call succeeded. -/
inductive Effect where
  | boot (slot : Slot) (version : Bytes)
  | call (c : Call)
  | reset
  | publish (topic payload : Bytes)
  | subscribe (filter : Bytes)
  | nvsSet (key : NvsKey) (value : Bytes)
  | nvsErase (key : NvsKey)
  | otaBegin (slot : Slot)
  | otaWrite (slot : Slot) (data : Bytes)
  | setBoot (slot : Slot) (version : Bytes) (ok : Bool)
  | markValid
  deriving DecidableEq

def Flash.apply (flash : Flash) : Effect → Flash
  | .boot slot _ =>
    { flash with
      bootSlot := slot
      imgState := if flash.imgState = .new then .pendingVerify else .valid }
  | .call _ | .reset | .publish .. | .subscribe _ => flash
  | .nvsSet key value => { flash with nvs := Function.update flash.nvs key (some value) }
  | .nvsErase key => { flash with nvs := Function.update flash.nvs key none }
  | .otaBegin slot => { flash with app := Function.update flash.app slot [] }
  | .otaWrite slot data =>
    { flash with app := Function.update flash.app slot (flash.app slot ++ data) }
  | .setBoot slot _ ok => if ok then { flash with bootSlot := slot, imgState := .new } else flash
  | .markValid => { flash with imgState := .valid }

instance : Disk Flash Effect := ⟨Flash.apply⟩

@[simp] theorem apply_def (flash : Flash) (e : Effect) : Disk.apply flash e = flash.apply e := rfl

/-- The journal of a device. -/
abbrev Log := Journal Flash Effect

/-- Effects that only talk to the broker. -/
def Talks : Effect → Prop
  | .publish .. | .subscribe _ => True
  | _ => False

/-- Talk leaves the flash as it is. -/
theorem writes_talk {j : Log} {es : List Effect} (h : ∀ e ∈ es, Talks e) :
    (j.writes es).disk = j.disk := by
  induction es generalizing j with
  | nil => rfl
  | cons e es ih =>
    rw [Journal.writes_cons, ih fun e he => h e (List.mem_cons_of_mem _ he)]
    cases e <;> first | rfl | exact absurd (h _ List.mem_cons_self) id

/-! ## The platform -/

/-- The two macros that tell the images apart. -/
structure Build where
  title : Bytes
  version : Bytes
  deriving DecidableEq

/-- What the firmware runs on: the hash, the JSON parser, the build that an
image is of, and the size of a slot, far below the range of `int`. -/
structure Platform where
  sha256 : Bytes → Bytes
  parse : Bytes → Option CJson
  build : Bytes → Build
  partitionSize : Nat
  partitionSize_lt : partitionSize < 2 ^ 31

/-- A slot of one mebibyte is far below the range of `int`. -/
theorem mebibyte_lt : 1048576 < 2 ^ 31 := by decide

/-! ## The OTA library -/

/-- An open OTA handle and the bytes written to it since `esp_ota_begin`. -/
structure OtaHandle where
  id : Nat
  slot : Slot
  wrote : Bytes
  deriving DecidableEq

structure Ota where
  handles : List OtaHandle
  lastHandle : Nat
  log : List (Use × Nat)
  deriving DecidableEq

namespace Ota

/-- A successful `esp_ota_begin`. -/
def start (ota : Ota) (slot : Slot) : Ota :=
  { handles := ⟨ota.lastHandle + 1, slot, []⟩ :: ota.handles
    lastHandle := ota.lastHandle + 1
    log := ota.log ++ [(.acquired, ota.lastHandle + 1)] }

def find (ota : Ota) (id : Nat) : Option OtaHandle :=
  ota.handles.find? fun h => h.id = id

/-- `esp_ota_write` can succeed: the handle is open and the slot has room. -/
def canWrite (ota : Ota) (id size : Nat) (data : Bytes) : Bool :=
  match ota.find id with
  | some h => h.wrote.length + data.length ≤ size
  | none => false

/-- A successful `esp_ota_write`. -/
def append (ota : Ota) (id : Nat) (data : Bytes) : Ota :=
  { ota with handles := ota.handles.map fun h =>
      if h.id = id then { h with wrote := h.wrote ++ data } else h }

/-- `esp_ota_end` and `esp_ota_abort` release the handle. -/
def release (ota : Ota) (id : Nat) : Ota :=
  { ota with
    handles := ota.handles.filter fun h => h.id ≠ id
    log := ota.log ++ [(.released, id)] }

end Ota

end Winegrid.Esp
