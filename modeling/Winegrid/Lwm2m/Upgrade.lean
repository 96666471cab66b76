import Winegrid.Lib.History
import Winegrid.Lwm2m.FirmwareUpdate
import Mathlib.Algebra.Ring.Nat

/-!
# When the LwM2M client asks for an upgrade

`dfu_started` is set by a first block and is all that `firmware_update_cb`
looks at.  Two laws of the calls say what it should stand for.

* `CompleteUpgrade`: the blocks written since the last `flash_img_init` are a
  whole image.  `upgrades_complete` proves it of the runs whose blocks come in
  order and whose update comes after the last block, and
  `upgrades_incomplete` shows that the callbacks check neither.
* `LatchedUpgrade`: after a failure, a new transfer was begun.
  `upgrades_latched` proves it of the runs in which `flash_img_init` does not
  fail while the flag is set, and `upgrades_not_latched` shows what happens
  when it does: that exit is the one that leaves the flag as it is.
-/

namespace Winegrid.Lwm2m

/-! ## The image in transfer -/

/-- The blocks written since `flash_img_init`, after one more call. -/
def Call.image (image : Option (List Block)) : Call → Option (List Block)
  | .flashImgInit ret => if ret = 0 then some [] else image
  | .flashImgBufferedWrite b _ => image.map (· ++ [b])
  | _ => image

/-- The blocks passed to `flash_img_buffered_write` since the last successful
`flash_img_init`, if there was one. -/
def imageBlocks (calls : List Call) : Option (List Block) := calls.foldl Call.image none

@[simp] theorem imageBlocks_concat (calls : List Call) (c : Call) :
    imageBlocks (calls ++ [c]) = c.image (imageBlocks calls) := by
  simp [imageBlocks]

/-- How many bytes the blocks hold. -/
def passed (blocks : List Block) : Nat := (blocks.map fun b => b.data.length).sum

/-- The first block begins at `n`, and every other one where the one before
it ended. -/
def Contiguous : Nat → List Block → Prop
  | _, [] => True
  | n, b :: blocks => b.offset = n ∧ Contiguous (n + b.data.length) blocks

theorem contiguous_concat {n : Nat} {blocks : List Block} {b : Block} :
    Contiguous n (blocks ++ [b]) ↔ Contiguous n blocks ∧ b.offset = n + passed blocks := by
  induction blocks generalizing n with
  | nil => simp [Contiguous, passed]
  | cons c blocks ih =>
    have hsum : passed (c :: blocks) = c.data.length + passed blocks := by simp [passed]
    simp only [List.cons_append, Contiguous, ih, hsum, and_assoc, Nat.add_assoc]

/-- A whole image was written: contiguous from its beginning, and up to a
block that was marked as the last one. -/
def CompleteImage (calls : List Call) : Prop :=
  ∃ blocks last, imageBlocks calls = some (blocks ++ [last]) ∧
    Contiguous 0 (blocks ++ [last]) ∧ last.lastBlock = true

/-- An upgrade is requested only for a complete image. -/
def CompleteUpgrade (before : List Call) (c : Call) : Prop :=
  ∀ ret, c = .bootRequestUpgrade ret → CompleteImage before

/-- While a transfer is under way, its next block begins where the last one
ended, and the update comes after a last block. -/
def InOrder (d : Dfu) : Label → Prop
  | .block b _ _ =>
    d.dfuStarted = true → b.offset ≠ 0 → (imageBlocks d.calls).map passed = some b.offset
  | .cancel => True
  | .update _ =>
    d.dfuStarted = true →
      ((imageBlocks d.calls).bind List.getLast?).map Block.lastBlock = some true

theorem upgrade_ne_of_reports {c : Call} (h : Reports c) (ret : Int) :
    c ≠ .bootRequestUpgrade ret := by
  intro heq
  subst heq
  exact h

/-- The blocks of the transfer that `dfu_started` stands for. -/
def Transfer (d : Dfu) : Prop :=
  d.dfuStarted = true → ∃ blocks, imageBlocks d.calls = some blocks ∧ Contiguous 0 blocks

theorem Transfer.completeImage {d : Dfu} {ret : Int} (h : Transfer d)
    (hok : InOrder d (.update ret)) (hstarted : d.dfuStarted = true) : CompleteImage d.calls := by
  obtain ⟨blocks, hblocks, hcontiguous⟩ := h hstarted
  have hlast : blocks.getLast?.map Block.lastBlock = some true := by
    have h := hok hstarted
    rwa [hblocks, Option.bind_some] at h
  rcases List.eq_nil_or_concat blocks with rfl | ⟨init, last, rfl⟩
  · simp at hlast
  · rw [List.concat_eq_append] at hblocks hcontiguous hlast
    refine ⟨init, last, hblocks, hcontiguous, ?_⟩
    simpa using hlast

/-- One step in order keeps the transfer contiguous and the history lawful. -/
theorem transfer_step {d d' : Dfu} {l : Label} (h : Transfer d)
    (hlaw : Lawful CompleteUpgrade d.calls) (hok : InOrder d l) (hstep : Step d l d') :
    Transfer d' ∧ Lawful CompleteUpgrade d'.calls := by
  cases hstep with
  | @initFails b ret writeRet hoffset hret =>
    refine ⟨fun hstarted => ?_, hlaw.append_free (by simp [CompleteUpgrade])⟩
    obtain ⟨blocks, hblocks, hcontiguous⟩ := h hstarted
    exact ⟨blocks, by simp [Call.image, hret, hblocks], hcontiguous⟩
  | @first b ret hoffset =>
    refine ⟨fun _ => ⟨[b], ?_, by simp [Contiguous, hoffset]⟩,
      hlaw.append_free (by simp [CompleteUpgrade])⟩
    simp [imageBlocks, Call.image]
  | @more b initRet ret hoffset =>
    refine ⟨fun hstarted => ?_, hlaw.append_free (by simp [CompleteUpgrade])⟩
    have hbefore : d.dfuStarted = true := (Bool.and_eq_true_iff.mp hstarted).1
    obtain ⟨blocks, hblocks, hcontiguous⟩ := h hbefore
    have hnext : passed blocks = b.offset := by
      have h := hok hbefore hoffset
      rw [hblocks, Option.map_some] at h
      exact Option.some.inj h
    refine ⟨blocks ++ [b], by simp [Call.image, hblocks], contiguous_concat.mpr ⟨hcontiguous, ?_⟩⟩
    omega
  | cancel =>
    exact ⟨by simp [Transfer], hlaw.append_free (by simp [CompleteUpgrade])⟩
  | refuse hidle =>
    exact ⟨by simp [Transfer], hlaw.append_free (by simp [CompleteUpgrade])⟩
  | @upgrade ret hstarted after hafter =>
    refine ⟨by simp [Transfer], ?_⟩
    have hnow : Lawful CompleteUpgrade (d.calls ++ [.bootRequestUpgrade ret]) :=
      lawful_concat.mpr ⟨hlaw, fun _ _ => h.completeImage hok hstarted⟩
    show Lawful CompleteUpgrade (d.calls ++ .bootRequestUpgrade ret :: after)
    rw [List.append_cons]
    exact hnow.append_free fun c hc _ r heq => absurd heq (upgrade_ne_of_reports (hafter c hc) r)

/-- In every run whose blocks and updates come in order, an upgrade is
requested only for a complete image. -/
theorem upgrades_complete {d : Dfu} (h : firmware.Reach InOrder d) :
    Lawful CompleteUpgrade d.calls := by
  have hinv : Transfer d ∧ Lawful CompleteUpgrade d.calls := by
    refine h.invariant (I := fun d => Transfer d ∧ Lawful CompleteUpgrade d.calls) ?_ ?_
    · intro d hd
      rw [hd]
      exact ⟨by simp [Transfer], lawful_nil⟩
    · intro d l d' _ hd hok hnext
      exact transfer_step hd.1 hd.2 hok (next_step hnext)
  exact hinv.2

/-- An image of five bytes in two blocks, and its update. -/
def wholeImage : List Label :=
  [ .block ⟨0, [1, 2, 3], false⟩ 0 0, .block ⟨3, [4, 5], true⟩ 0 0, .update 0 ]

theorem upgrades_complete_whole : ∃ d, firmware.exec ⟨false, []⟩ wholeImage = some d ∧
    .bootRequestUpgrade 0 ∈ d.calls ∧ Lawful CompleteUpgrade d.calls := by
  refine ⟨_, rfl, by decide, upgrades_complete ?_⟩
  let first : Block := ⟨0, [1, 2, 3], false⟩
  let second : Block := ⟨3, [4, 5], true⟩
  have hfirst : firmware.Reach InOrder
      ⟨true, [.flashImgInit 0, .flashImgBufferedWrite first 0]⟩ :=
    .step (l := .block first 0 0) (.init rfl) (fun h => absurd h (by decide)) rfl
  have hsecond : firmware.Reach InOrder
      ⟨true, [.flashImgInit 0, .flashImgBufferedWrite first 0, .flashImgBufferedWrite second 0]⟩ :=
    .step (l := .block second 0 0) hfirst (fun _ _ => rfl) rfl
  exact .step (l := .update 0) hsecond (fun _ => rfl) rfl

/-- One block that is not the last one is enough for an upgrade. -/
theorem upgrades_incomplete :
    ¬ ∀ d, firmware.Reachable d → Lawful CompleteUpgrade d.calls := by
  intro h
  have hreach : firmware.Reachable ⟨false, [.flashImgInit 0,
      .flashImgBufferedWrite ⟨0, [1, 2, 3], false⟩ 0, .bootRequestUpgrade 0, .setStateIdle,
      .setResult .success, .sysReboot]⟩ := by
    have hrun : firmware.exec ⟨false, []⟩ [.block ⟨0, [1, 2, 3], false⟩ 0 0, .update 0] = some _ :=
      rfl
    exact Machine.Reachable.exec (.init rfl) hrun
  obtain ⟨blocks, last, hblocks, -, hlast⟩ :=
    h _ hreach [.flashImgInit 0, .flashImgBufferedWrite ⟨0, [1, 2, 3], false⟩ 0]
      (.bootRequestUpgrade 0) [.setStateIdle, .setResult .success, .sysReboot] rfl 0 rfl
  have hone : some ([] ++ [(⟨0, [1, 2, 3], false⟩ : Block)]) = some (blocks ++ [last]) := hblocks
  obtain ⟨-, hsame⟩ := List.append_inj' (Option.some.inj hone) rfl
  rw [← List.singleton_inj.mp hsame] at hlast
  cases hlast

/-! ## Failures are latched -/

/-- What ends a transfer: a failed call of `flash_img`, a cancel, and an
upgrade that was requested. -/
def Fault : Call → Prop
  | .flashImgInit ret => ret ≠ 0
  | .flashImgBufferedWrite _ ret => ret ≠ 0
  | .cancel | .bootRequestUpgrade _ => True
  | _ => False

/-- A first block was accepted: `flash_img_init` and the write succeeded. -/
def Begun (calls : List Call) (since : List Call) : Prop :=
  ∃ before b, calls = before ++ [.flashImgInit 0, .flashImgBufferedWrite b 0] ++ since ∧
    b.offset = 0

/-- Between a fault and the next request for an upgrade, a first block was
accepted. -/
def LatchedUpgrade (before : List Call) (c : Call) : Prop :=
  ∀ ret past fault since, c = .bootRequestUpgrade ret → before = past ++ fault :: since →
    Fault fault → (∀ r, .bootRequestUpgrade r ∉ since) → ∃ after, Begun since after

/-- `flash_img_init` does not fail while the flag is set. -/
def InitHolds (d : Dfu) : Label → Prop
  | .block b initRet _ => b.offset = 0 → initRet ≠ 0 → d.dfuStarted = false
  | _ => True

/-- While the flag is set, nothing failed since its first block. -/
def Latch (d : Dfu) : Prop :=
  d.dfuStarted = true → ∃ since, Begun d.calls since ∧ ∀ c ∈ since, ¬ Fault c

/-- A fault lies before the first block after which there is none. -/
theorem Begun.after_fault {calls since past rest : List Call} {fault : Call}
    (h : Begun calls since) (hsince : ∀ c ∈ since, ¬ Fault c)
    (hcalls : calls = past ++ fault :: rest) (hfault : Fault fault) : Begun rest since := by
  obtain ⟨before, b, heq, hoffset⟩ := h
  rw [hcalls, List.append_assoc] at heq
  rcases List.append_eq_append_iff.mp heq with ⟨gap, -, hgap⟩ | ⟨gap, -, hgap⟩
  · rcases gap with _ | ⟨g, gap⟩
    · cases hgap
      simp [Fault] at hfault
    · cases hgap
      exact ⟨gap, b, by simp, hoffset⟩
  · rcases gap with _ | ⟨g₁, gap⟩
    · cases hgap
      simp [Fault] at hfault
    · rcases gap with _ | ⟨g₂, gap⟩
      · cases hgap
        simp [Fault] at hfault
      · cases hgap
        exact absurd hfault (hsince fault (by simp))

theorem Begun.append {calls since : List Call} (h : Begun calls since) (more : List Call) :
    Begun (calls ++ more) (since ++ more) := by
  obtain ⟨before, b, rfl, hoffset⟩ := h
  exact ⟨before, b, by simp, hoffset⟩

/-- What is no fault leaves the latch as it is. -/
theorem Latch.append {d : Dfu} {c : Call} (h : Latch d) (hstarted : d.dfuStarted = true)
    (hc : ¬ Fault c) : ∃ since, Begun (d.calls ++ [c]) since ∧ ∀ c ∈ since, ¬ Fault c := by
  obtain ⟨since, hbegun, hsince⟩ := h hstarted
  refine ⟨since ++ [c], hbegun.append [c], fun c' hmem => ?_⟩
  rcases List.mem_append.mp hmem with hmem | hmem
  · exact hsince c' hmem
  · rw [List.mem_singleton.mp hmem]
    exact hc

theorem Latch.latchedUpgrade {d : Dfu} (h : Latch d) (hstarted : d.dfuStarted = true) (c : Call) :
    LatchedUpgrade d.calls c := by
  intro _ past fault rest _ hcalls hfault _
  obtain ⟨since, hbegun, hsince⟩ := h hstarted
  exact ⟨since, hbegun.after_fault hsince hcalls hfault⟩

/-- One step in which no `flash_img_init` fails under the flag keeps the latch
and the history lawful. -/
theorem latch_step {d d' : Dfu} {l : Label} (h : Latch d) (hlaw : Lawful LatchedUpgrade d.calls)
    (hok : InitHolds d l) (hstep : Step d l d') : Latch d' ∧ Lawful LatchedUpgrade d'.calls := by
  cases hstep with
  | @initFails b ret writeRet hoffset hret =>
    have hidle : d.dfuStarted = false := hok hoffset hret
    exact ⟨by simp [Latch, hidle], hlaw.append_free (by simp [LatchedUpgrade])⟩
  | @first b ret hoffset =>
    refine ⟨fun hstarted => ?_, hlaw.append_free (by simp [LatchedUpgrade])⟩
    have hret : ret = 0 := by simpa using hstarted
    subst hret
    exact ⟨[], ⟨d.calls, b, by simp, hoffset⟩, by simp⟩
  | @more b initRet ret hoffset =>
    refine ⟨fun hstarted => ?_, hlaw.append_free (by simp [LatchedUpgrade])⟩
    obtain ⟨hbefore, hret⟩ := Bool.and_eq_true_iff.mp hstarted
    exact h.append hbefore (by simpa [Fault] using hret)
  | cancel =>
    exact ⟨by simp [Latch], hlaw.append_free (by simp [LatchedUpgrade])⟩
  | refuse hidle =>
    exact ⟨by simp [Latch], hlaw.append_free (by simp [LatchedUpgrade])⟩
  | @upgrade ret hstarted after hafter =>
    refine ⟨by simp [Latch], ?_⟩
    have hnow : Lawful LatchedUpgrade (d.calls ++ [.bootRequestUpgrade ret]) :=
      lawful_concat.mpr ⟨hlaw, h.latchedUpgrade hstarted _⟩
    show Lawful LatchedUpgrade (d.calls ++ .bootRequestUpgrade ret :: after)
    rw [List.append_cons]
    exact hnow.append_free fun c hc _ r _ _ _ heq =>
      absurd heq (upgrade_ne_of_reports (hafter c hc) r)

/-- In every run in which `flash_img_init` does not fail while the flag is
set, a first block is accepted between a fault and the next upgrade. -/
theorem upgrades_latched {d : Dfu} (h : firmware.Reach InitHolds d) :
    Lawful LatchedUpgrade d.calls := by
  have hinv : Latch d ∧ Lawful LatchedUpgrade d.calls := by
    refine h.invariant (I := fun d => Latch d ∧ Lawful LatchedUpgrade d.calls) ?_ ?_
    · intro d hd
      rw [hd]
      exact ⟨by simp [Latch], lawful_nil⟩
    · intro d l d' _ hd hok hnext
      exact latch_step hd.1 hd.2 hok (next_step hnext)
  exact hinv.2

/-- A write fails, and the image is downloaded again. -/
theorem upgrades_latched_retry : ∃ d, firmware.exec ⟨false, []⟩
      [.block ⟨0, [1], true⟩ 0 (-5), .block ⟨0, [1], true⟩ 0 0, .update 0] = some d ∧
    .bootRequestUpgrade 0 ∈ d.calls ∧ Lawful LatchedUpgrade d.calls := by
  refine ⟨_, rfl, by decide, upgrades_latched ?_⟩
  let only : Block := ⟨0, [1], true⟩
  have hfails : firmware.Reach InitHolds
      ⟨false, [.flashImgInit 0, .flashImgBufferedWrite only (-5)]⟩ :=
    .step (l := .block only 0 (-5)) (.init rfl) (fun _ h => absurd rfl h) rfl
  have hagain : firmware.Reach InitHolds
      ⟨true, [.flashImgInit 0, .flashImgBufferedWrite only (-5), .flashImgInit 0,
        .flashImgBufferedWrite only 0]⟩ :=
    .step (l := .block only 0 0) hfails (fun _ h => absurd rfl h) rfl
  exact .step (l := .update 0) hagain trivial rfl

/-- A second transfer whose `flash_img_init` fails leaves the flag of the
first one, and the update that follows requests an upgrade. -/
theorem upgrades_not_latched :
    ¬ ∀ d, firmware.Reachable d → Lawful LatchedUpgrade d.calls := by
  intro h
  let only : Block := ⟨0, [1], true⟩
  have hreach : firmware.Reachable ⟨false, [.flashImgInit 0, .flashImgBufferedWrite only 0,
      .flashImgInit (-19), .bootRequestUpgrade 0, .setStateIdle, .setResult .success,
      .sysReboot]⟩ := by
    have hrun : firmware.exec ⟨false, []⟩ [.block only 0 0, .block only (-19) 0, .update 0] =
        some _ := rfl
    exact Machine.Reachable.exec (.init rfl) hrun
  obtain ⟨after, before, b, hbegun, -⟩ :=
    h _ hreach [.flashImgInit 0, .flashImgBufferedWrite only 0, .flashImgInit (-19)]
      (.bootRequestUpgrade 0) [.setStateIdle, .setResult .success, .sysReboot] rfl 0
      [.flashImgInit 0, .flashImgBufferedWrite only 0] (.flashImgInit (-19)) [] rfl rfl
      (by simp [Fault]) (by simp)
  simp at hbegun

end Winegrid.Lwm2m
