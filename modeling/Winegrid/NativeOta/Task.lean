import Winegrid.Lib.Machine
import Winegrid.NativeOta.Flash

/-!
# `app_main` and `ota_example_task`

The device as a machine.  It is off, or `app_main` is at the diagnostic or at
the network, or `ota_example_task` is at some call.  A label is the answer of
the call that the device is at, so power can be lost between any two calls.

* `Config`: the option `CONFIG_EXAMPLE_SKIP_VERSION_CHECK`, and the image
  verification of the library.
* `Task.step`: one call of the task.
* `device`: the machine.
-/

namespace Winegrid.NativeOta

open Esp (Slot)

structure Config where
  skipVersionCheck : Bool
  /-- The image verification of `esp_ota_end`, of `esp_ota_set_boot_partition`
  and of the bootloader. -/
  imageValid : Bytes → Bool

/-- `BUFFSIZE`. -/
def buffSize : Nat := 1024

/-! ## The task -/

/-- Why the task restarts the device. -/
inductive Exit where
  | fatalError
  | noUpdate
  | installed
  deriving DecidableEq

/-- The call that the task is at.  `exit` is the delay before
`esp_restart`. -/
inductive Pc where
  | httpInit
  | httpOpen
  | read
  | header (data : Bytes)
  | otaBegin (data : Bytes)
  | otaWrite (data : Bytes)
  | checkComplete
  | otaEnd
  | setBoot
  | exit (e : Exit)
  deriving DecidableEq

/-- The variables of the task.  `handleOpen` is whether `update_handle` is an
open OTA handle; before `esp_ota_begin` it is `0`. -/
structure Task where
  running : Partition
  imageHeaderWasChecked : Bool
  handleOpen : Bool
  pc : Pc
  deriving DecidableEq

/-- `update_partition`. -/
def Task.updatePartition (t : Task) : Slot := t.running.nextUpdate

def Task.start (running : Partition) : Task := ⟨running, false, false, .httpInit⟩

/-- The result of `esp_http_client_read`.  With no data, the task looks at
`errno` and at `esp_http_client_is_complete_data_received`. -/
inductive HttpRead where
  | error
  | data (d : Bytes)
  | idle (disconnected complete : Bool)
  deriving DecidableEq

/-- Data is not empty and fits `ota_write_data`. -/
def HttpRead.fits : HttpRead → Bool
  | data d => 0 < d.length && d.length ≤ buffSize
  | error | idle .. => true

inductive Label where
  /-- The bootloader starts. -/
  | boot
  /-- The level of the diagnostic pin, and whether
  `esp_ota_mark_app_invalid_rollback_and_reboot` does not return. -/
  | diagnostic (isOk rebooted : Bool)
  /-- Whether `app_main` gets to `xTaskCreate`. -/
  | network (ok : Bool)
  | httpInit (ok : Bool)
  | httpOpen (ok : Bool)
  | read (r : HttpRead)
  /-- The versions that lie in `running_app_info` and `invalid_app_info` where
  `esp_ota_get_partition_description` does not fill them. -/
  | header (runningAppInfo invalidAppInfo : Bytes)
  | otaBegin (ok : Bool)
  | otaWrite (ok : Bool)
  | checkComplete (complete : Bool)
  | otaEnd (ok : Bool)
  | setBoot (ok : Bool)
  | restart
  | powerLoss
  deriving DecidableEq

namespace Task

/-- `http_cleanup`, then `esp_ota_abort`, then `task_fatal_error`. -/
def abortFatal (t : Task) (j : Log) : Task × Log :=
  ({ t with handleOpen := false, pc := .exit .fatalError },
    j.writes [.httpClose, .httpCleanup, .otaAbort])

/-- `http_cleanup`, then one of the two functions that restart. -/
def leave (t : Task) (e : Exit) (j : Log) : Task × Log :=
  ({ t with pc := .exit e }, j.writes [.httpClose, .httpCleanup])

/-- `running_app_info.version`. -/
def runningVersion (t : Task) (flash : Flash) (stack : Bytes) : Bytes :=
  (describe (flash.app t.running)).getD stack

/-- `invalid_app_info.version`, where there is a last invalid partition. -/
def invalidVersion (flash : Flash) (stack : Bytes) : Option Bytes :=
  flash.lastInvalid.map fun slot => (describe (flash.app (.ota slot))).getD stack

/-- The two version checks.  The second is not compiled with
`CONFIG_EXAMPLE_SKIP_VERSION_CHECK`. -/
def refuses (C : Config) (t : Task) (flash : Flash) (runningAppInfo invalidAppInfo new : Bytes) :
    Bool :=
  (invalidVersion flash invalidAppInfo == some new) ||
    (!C.skipVersionCheck && new == t.runningVersion flash runningAppInfo)

/-- What the task does with the result of `esp_http_client_read`. -/
def afterRead (t : Task) (j : Log) : HttpRead → Task × Log
  | .error => t.leave .fatalError j
  | .data d =>
    let j := j.write (.received d)
    if t.imageHeaderWasChecked then ({ t with pc := .otaWrite d }, j)
    else if appDescOffset + appDescSize < d.length then ({ t with pc := .header d }, j)
    else t.abortFatal j
  | .idle disconnected complete =>
    if disconnected || complete then ({ t with pc := .checkComplete }, j) else (t, j)

/-- One call of `ota_example_task`.  `esp_ota_begin` does not succeed while
the running image is to be verified, `esp_ota_end` and
`esp_ota_set_boot_partition` succeed with a valid image only, and
`esp_ota_end` frees the handle whatever it answers. -/
def step (C : Config) (t : Task) (j : Log) : Label → Option (Task × Log)
  | .httpInit ok =>
    if t.pc = .httpInit then
      if ok then some ({ t with pc := .httpOpen }, j.write .httpInit)
      else some ({ t with pc := .exit .fatalError }, j)
    else none
  | .httpOpen ok =>
    if t.pc = .httpOpen then
      if ok then some ({ t with pc := .read }, j)
      else some ({ t with pc := .exit .fatalError }, j.write .httpCleanup)
    else none
  | .read r =>
    if t.pc = .read ∧ r.fits then some (t.afterRead j r) else none
  | .header runningAppInfo invalidAppInfo =>
    match t.pc with
    | .header d =>
      if t.refuses C j.disk runningAppInfo invalidAppInfo (versionField d) then
        some (t.leave .noUpdate j)
      else some ({ t with imageHeaderWasChecked := true, pc := .otaBegin d }, j)
    | _ => none
  | .otaBegin ok =>
    match t.pc with
    | .otaBegin d =>
      if ok then
        if j.disk.stateOf t.running = some .pendingVerify then none
        else some ({ t with handleOpen := true, pc := .otaWrite d },
          j.write (.otaBegin t.updatePartition (versionField d)))
      else some (t.abortFatal j)
    | _ => none
  | .otaWrite ok =>
    match t.pc with
    | .otaWrite d =>
      if ok then
        if t.handleOpen then
          some ({ t with pc := .read }, j.write (.otaWrite t.updatePartition d))
        else none
      else some (t.abortFatal j)
    | _ => none
  | .checkComplete complete =>
    if t.pc = .checkComplete then
      if complete then some ({ t with pc := .otaEnd }, j.write .complete)
      else some (t.abortFatal j)
    else none
  | .otaEnd ok =>
    if t.pc = .otaEnd then
      if ok then
        if t.handleOpen && C.imageValid (j.disk.app (.ota t.updatePartition)) then
          some ({ t with handleOpen := false, pc := .setBoot }, j.write .otaEnd)
        else none
      else some (({ t with handleOpen := false } : Task).leave .fatalError (j.write .otaEnd))
    else none
  | .setBoot ok =>
    if t.pc = .setBoot then
      if ok then
        if C.imageValid (j.disk.app (.ota t.updatePartition)) then
          some ({ t with pc := .exit .installed },
            j.write (.setBoot t.updatePartition (describe (j.disk.app (.ota t.updatePartition)))))
        else none
      else some (t.leave .fatalError j)
    else none
  | _ => none

end Task

/-! ## The device -/

/-- A device that is off, in `app_main` before or after the diagnostic, or
running the task. -/
inductive Phase where
  | off
  | diagnostic (running : Partition)
  | network (running : Partition)
  | task (t : Task)
  deriving DecidableEq

structure Sys where
  phase : Phase
  journal : Log

/-- The two functions that wait for `OTA_RECHECK_INTERVAL_S` and restart, and
the last call of the task. -/
def Phase.restarts : Phase → Bool
  | .task t =>
    match t.pc with
    | .exit _ => true
    | _ => false
  | _ => false

/-- `app_main` once the image state was read. -/
def diagnose (running : Partition) (isOk rebooted : Bool) (j : Log) : Sys :=
  match running with
  | .factory => ⟨.network running, j⟩
  | .ota slot =>
    if j.disk.entry slot = some .pendingVerify then
      if isOk then ⟨.network running, j.write (.markValid slot)⟩
      else if rebooted then ⟨.off, j.writes [.markInvalid slot, .restart]⟩
      else ⟨.network running, j⟩
    else ⟨.network running, j⟩

def Sys.step (C : Config) (s : Sys) : Label → Option Sys
  | .boot =>
    if s.phase = .off then
      some ⟨.diagnostic s.journal.disk.bootSelect,
        s.journal.write (.boot s.journal.disk.bootSelect)⟩
    else none
  | .diagnostic isOk rebooted =>
    match s.phase with
    | .diagnostic running => some (diagnose running isOk rebooted s.journal)
    | _ => none
  | .network ok =>
    match s.phase with
    | .network running =>
      if ok then some ⟨.task (.start running), s.journal⟩
      else some ⟨.off, s.journal.write .restart⟩
    | _ => none
  | .restart =>
    if s.phase.restarts then some ⟨.off, s.journal.write .restart⟩ else none
  | .powerLoss => some ⟨.off, s.journal.write .powerLoss⟩
  | l =>
    match s.phase with
    | .task t => (t.step C s.journal l).map fun r => ⟨.task r.1, r.2⟩
    | _ => none

/-- A device that starts with some flash, nothing logged. -/
def device (C : Config) (start : Flash → Prop) : Machine Sys Label where
  init s := ∃ flash, start flash ∧ s = ⟨.off, ⟨flash, []⟩⟩
  next := Sys.step C

end Winegrid.NativeOta
