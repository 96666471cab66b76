import Winegrid.Lib.CString
import Winegrid.Lib.Machine
import Mathlib.Tactic.SplitIfs

/-!
# The Firmware Update object of the LwM2M client

The three callbacks that `init_firmware_update` registers for Object 5.  The
state is `dfu_started`, and the calls that the callbacks make, in order, with
what each of them returned.  What `flash_img` and MCUboot return is an input.

`firmware` is the machine of one boot.  A step is one call of a callback, and
nothing is assumed about the order of the calls.  `next_step` sorts the steps
by what they call.
-/

namespace Winegrid.Lwm2m

/-- What the engine hands to `firmware_block_received_cb`. -/
structure Block where
  offset : Nat
  data : Bytes
  lastBlock : Bool
  deriving DecidableEq

/-- The values that the callbacks write to resource 5/0/5. -/
inductive UpdateResult where
  | success
  | updateFailed
  deriving DecidableEq

/-- The calls that the callbacks make.  `cancel` is the call of
`firmware_cancel_cb` itself, and `setStateIdle` writes resource 5/0/3. -/
inductive Call where
  | flashImgInit (ret : Int)
  | flashImgBufferedWrite (block : Block) (ret : Int)
  | bootRequestUpgrade (ret : Int)
  | cancel
  | setStateIdle
  | setResult (result : UpdateResult)
  | sysReboot
  deriving DecidableEq

structure Dfu where
  dfuStarted : Bool
  calls : List Call
  deriving DecidableEq

def einval : Int := 22
def enospc : Int := 28

namespace Dfu

def call (d : Dfu) (c : Call) : Dfu := { d with calls := d.calls ++ [c] }

/-- `firmware_update_cb`, with what it returns. -/
def firmwareUpdateCb (upgradeRet : Int) (d : Dfu) : Int × Dfu :=
  if !d.dfuStarted then (-einval, d.call (.setResult .updateFailed))
  else
    let d := { d.call (.bootRequestUpgrade upgradeRet) with dfuStarted := false }
    if upgradeRet ≠ 0 then (upgradeRet, d.call (.setResult .updateFailed))
    else (0, ((d.call .setStateIdle).call (.setResult .success)).call .sysReboot)

/-- The write of `firmware_block_received_cb`. -/
def writeBlock (block : Block) (writeRet : Int) (d : Dfu) : Int × Dfu :=
  let d := d.call (.flashImgBufferedWrite block writeRet)
  if writeRet ≠ 0 then (-enospc, { d with dfuStarted := false }) else (0, d)

/-- `firmware_block_received_cb`, with what it returns. -/
def firmwareBlockReceivedCb (block : Block) (initRet writeRet : Int) (d : Dfu) : Int × Dfu :=
  if block.offset = 0 then
    let d := d.call (.flashImgInit initRet)
    if initRet ≠ 0 then (initRet, d)
    else { d with dfuStarted := true }.writeBlock block writeRet
  else d.writeBlock block writeRet

/-- `firmware_cancel_cb`, with what it returns. -/
def firmwareCancelCb (d : Dfu) : Int × Dfu := (0, { d.call .cancel with dfuStarted := false })

end Dfu

/-- A call of one of the callbacks. -/
inductive Label where
  | block (block : Block) (initRet writeRet : Int)
  | cancel
  | update (upgradeRet : Int)

/-- `sys_reboot` does not return. -/
def Dfu.next (d : Dfu) (l : Label) : Option Dfu :=
  if .sysReboot ∈ d.calls then none
  else match l with
    | .block block initRet writeRet => some (d.firmwareBlockReceivedCb block initRet writeRet).2
    | .cancel => some d.firmwareCancelCb.2
    | .update upgradeRet => some (d.firmwareUpdateCb upgradeRet).2

/-- One boot of the client. -/
def firmware : Machine Dfu Label where
  init d := d = ⟨false, []⟩
  next := Dfu.next

/-! ## What a step does -/

/-- Calls that only tell of the outcome. -/
def Reports : Call → Prop
  | .setStateIdle | .setResult _ | .sysReboot => True
  | _ => False

/-- The kinds of step. -/
inductive Step (d : Dfu) : Label → Dfu → Prop
  /-- A first block for which `flash_img_init` fails: the flag stays. -/
  | initFails {b : Block} {ret writeRet : Int} (hoffset : b.offset = 0) (hret : ret ≠ 0) :
      Step d (.block b ret writeRet) ⟨d.dfuStarted, d.calls ++ [.flashImgInit ret]⟩
  /-- A first block. -/
  | first {b : Block} {ret : Int} (hoffset : b.offset = 0) :
      Step d (.block b 0 ret)
        ⟨ret = 0, d.calls ++ [.flashImgInit 0, .flashImgBufferedWrite b ret]⟩
  /-- A block that is not the first: only the write is made. -/
  | more {b : Block} {initRet ret : Int} (hoffset : b.offset ≠ 0) :
      Step d (.block b initRet ret)
        ⟨d.dfuStarted && ret = 0, d.calls ++ [.flashImgBufferedWrite b ret]⟩
  | cancel : Step d .cancel ⟨false, d.calls ++ [.cancel]⟩
  | refuse {ret : Int} (hidle : d.dfuStarted = false) :
      Step d (.update ret) ⟨false, d.calls ++ [.setResult .updateFailed]⟩
  | upgrade {ret : Int} (hstarted : d.dfuStarted = true) (after : List Call)
      (hafter : ∀ c ∈ after, Reports c) :
      Step d (.update ret) ⟨false, d.calls ++ .bootRequestUpgrade ret :: after⟩

private theorem step_block (d : Dfu) (b : Block) (initRet writeRet : Int) :
    Step d (.block b initRet writeRet) (d.firmwareBlockReceivedCb b initRet writeRet).2 := by
  by_cases hoffset : b.offset = 0
  · by_cases hinit : initRet = 0
    · subst hinit
      have heq : (d.firmwareBlockReceivedCb b 0 writeRet).2 =
          ⟨writeRet = 0, d.calls ++ [.flashImgInit 0, .flashImgBufferedWrite b writeRet]⟩ := by
        by_cases hwrite : writeRet = 0 <;>
          simp [Dfu.firmwareBlockReceivedCb, Dfu.writeBlock, Dfu.call, hoffset, hwrite]
      rw [heq]
      exact .first hoffset
    · have heq : (d.firmwareBlockReceivedCb b initRet writeRet).2 =
          ⟨d.dfuStarted, d.calls ++ [.flashImgInit initRet]⟩ := by
        simp [Dfu.firmwareBlockReceivedCb, Dfu.call, hoffset, hinit]
      rw [heq]
      exact .initFails hoffset hinit
  · have heq : (d.firmwareBlockReceivedCb b initRet writeRet).2 =
        ⟨d.dfuStarted && writeRet = 0, d.calls ++ [.flashImgBufferedWrite b writeRet]⟩ := by
      by_cases hwrite : writeRet = 0 <;>
        simp [Dfu.firmwareBlockReceivedCb, Dfu.writeBlock, Dfu.call, hoffset, hwrite]
    rw [heq]
    exact .more hoffset

private theorem step_update (d : Dfu) (ret : Int) :
    Step d (.update ret) (d.firmwareUpdateCb ret).2 := by
  by_cases hstarted : d.dfuStarted = true
  · by_cases hret : ret = 0
    · have heq : (d.firmwareUpdateCb ret).2 = ⟨false, d.calls ++ .bootRequestUpgrade ret ::
          [.setStateIdle, .setResult .success, .sysReboot]⟩ := by
        simp [Dfu.firmwareUpdateCb, Dfu.call, hstarted, hret]
      rw [heq]
      exact .upgrade hstarted _ (by simp [Reports])
    · have heq : (d.firmwareUpdateCb ret).2 =
          ⟨false, d.calls ++ .bootRequestUpgrade ret :: [.setResult .updateFailed]⟩ := by
        simp [Dfu.firmwareUpdateCb, Dfu.call, hstarted, hret]
      rw [heq]
      exact .upgrade hstarted _ (by simp [Reports])
  · have hidle : d.dfuStarted = false := by simpa using hstarted
    have heq : (d.firmwareUpdateCb ret).2 = ⟨false, d.calls ++ [.setResult .updateFailed]⟩ := by
      simp [Dfu.firmwareUpdateCb, Dfu.call, hidle]
    rw [heq]
    exact .refuse hidle

/-- Every step of the machine is of one of the kinds. -/
theorem next_step {d d' : Dfu} {l : Label} (h : firmware.next d l = some d') : Step d l d' := by
  simp only [firmware, Dfu.next] at h
  split_ifs at h
  cases l with
  | block b initRet writeRet =>
    cases h
    exact step_block d b initRet writeRet
  | cancel =>
    cases h
    exact .cancel
  | update ret =>
    cases h
    exact step_update d ret

end Winegrid.Lwm2m
