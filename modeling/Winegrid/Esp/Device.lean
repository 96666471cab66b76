import Winegrid.Lib.Machine
import Winegrid.Esp.Flash

/-!
# A device over many boots

The two ESP-IDF clients share their `app_main` up to the call that confirms
the image: `reconcile_pending_ota`, the network, the mark-valid call.  A
`Firmware` is the rest: what is done from there to the start of the client,
and the client itself.

`device` is the machine of a whole device.  It is off, or its client runs, or
`app_main` returned without a client.  Every image runs the same firmware with
its own `Build`, and power can be lost after any number of the effects of any
step, those of `app_main` included.
-/

namespace Winegrid.Esp

universe u v w

/-! ## `app_main` -/

/-- `reconcile_pending_ota`, in an image of version `current`. -/
def reconcilePendingOta (current : Bytes) (j : Log) : Log :=
  match loadNvsStr j.disk.nvs .pendingFw 32 with
  | none => j
  | some pending =>
    let j := if pending = current then j else j.write (.nvsSet .failedFw pending)
    j.write (.nvsErase .pendingFw)

/-- The rollback confirmation of `app_main`. -/
def confirmImage (j : Log) : Log :=
  if j.disk.imgState = .pendingVerify then j.write .markValid else j

/-- What a firmware adds: the effects between the mark-valid call and the
start of the client, with whether it is started; and the client. -/
structure Firmware (σ : Type u) (ℓ : Type v) (ο : Type w) where
  startup : ο → Nvs → List Effect × Bool
  fresh : Build → Slot → Log → σ
  next : σ → ℓ → Option σ
  journal : σ → Log

/-- A device that is off, that has no client, or whose client runs. -/
inductive Sys (σ : Type u) where
  | off (j : Log)
  | offline (j : Log)
  | up (c : σ)

/-- What a device is busy with: `app_main`, or a step of the client. -/
inductive Work (ℓ : Type v) (ο : Type w) where
  | boot (o : ο)
  | step (l : ℓ)

inductive Label (ℓ : Type v) (ο : Type w) where
  /-- Work that runs to its end. -/
  | done (a : Work ℓ ο)
  /-- Work that is cut after `n` effects. -/
  | cut (a : Work ℓ ο) (n : Nat)
  /-- Power is lost between two steps, or a restart is carried out. -/
  | reset

variable {σ : Type u} {ℓ : Type v} {ο : Type w}

namespace Firmware

/-- The build of the image that the bootloader starts. -/
def bootBuild (P : Platform) (j : Log) : Build := P.build (j.disk.app j.disk.bootSelect)

/-- The bootloader and `app_main`, up to the mark-valid call. -/
def confirm (P : Platform) (j : Log) : Log :=
  let version := (bootBuild P j).version
  let j := (j.write (.boot j.disk.bootSelect version)).write (.call .nvsFlashInit)
  let j := reconcilePendingOta version j
  let j := j.writes [.call .netifInit, .call .eventLoopCreate, .call .exampleConnect]
  confirmImage j

/-- All of `app_main`. -/
def appMain (F : Firmware σ ℓ ο) (P : Platform) (o : ο) (j : Log) : Log :=
  let j := confirm P j
  let s := F.startup o j.disk.nvs
  j.writes (s.1 ++ if s.2 then [.call .clientStart] else [])

/-- The device after `app_main`. -/
def boot (F : Firmware σ ℓ ο) (P : Platform) (o : ο) (j : Log) : Sys σ :=
  if (F.startup o (confirm P j).disk.nvs).2 then
    .up (F.fresh (bootBuild P j) j.disk.bootSelect (F.appMain P o j))
  else .offline (F.appMain P o j)

/-- The journal of a device. -/
def log (F : Firmware σ ℓ ο) : Sys σ → Log
  | .off j => j
  | .offline j => j
  | .up c => F.journal c

def work (F : Firmware σ ℓ ο) (P : Platform) : Sys σ → Work ℓ ο → Option (Sys σ)
  | .off j, .boot o => some (F.boot P o j)
  | .up c, .step l => (F.next c l).map .up
  | _, _ => none

def step (F : Firmware σ ℓ ο) (P : Platform) (s : Sys σ) : Label ℓ ο → Option (Sys σ)
  | .done a => F.work P s a
  | .cut a n => (F.work P s a).map fun s' => .off (((F.log s).upTo (F.log s') n).write .reset)
  | .reset => some (.off ((F.log s).write .reset))

/-- A device that starts with some flash. -/
def device (F : Firmware σ ℓ ο) (P : Platform) (start : Flash → Prop) :
    Machine (Sys σ) (Label ℓ ο) where
  init s := ∃ flash, start flash ∧ s = .off ⟨flash, []⟩
  next := F.step P

end Firmware

end Winegrid.Esp
