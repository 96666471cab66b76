import Winegrid.ThingsBoard.Steps

/-!
# The integrity of a download

While a download is in progress one handle is open, and three accumulators
agree: the bytes written to the handle, the bytes fed to the hash, and the
counter.  The flash of the slot is the fourth.

* `Sound` is the invariant, and `InAttempt` what it says of a download.
* `acceptChunk_inAttempt`, `finishFwUpdate_sound` and `startFwUpdate_sound`
  are the steps, and `sound_next` puts them together.
* `BootsVerified` is what a step that sets the boot partition has checked.
* `ota_integrity` is the law of all runs.
-/

namespace Winegrid.ThingsBoard

open Esp Client

variable {P : Platform} {c c' : Client} {o : Outcomes}

/-- Handle, hash context, counter and flash are in step. -/
def InAttempt (P : Platform) (c : Client) : Prop :=
  ∃ slot, c.ota.handles = [⟨c.dl.otaHandle, slot, c.dl.shaCtx⟩] ∧
    c.dl.updatePartition = some slot ∧ c.journal.disk.app slot = c.dl.shaCtx ∧
    c.dl.shaCtx.length ≤ P.partitionSize ∧ c.dl.received.toInt = c.dl.shaCtx.length

/-- The invariant of a client between two events. -/
structure Sound (P : Platform) (c : Client) : Prop where
  busy : c.halt = none → c.dl.inProgress = true → InAttempt P c
  idle : c.halt = none → c.dl.inProgress = false → c.ota.handles = []

/-- The bytes in the slot are the bytes that were hashed; their number, their
digest and the algorithm are those of the description. -/
def Verified (P : Platform) (c : Client) (slot : Slot) : Prop :=
  c.journal.disk.app slot = c.dl.shaCtx ∧ (c.dl.shaCtx.length : Int) = c.fw.size.toInt ∧
    strcaseeq (hexLower (P.sha256 c.dl.shaCtx)) c.fw.checksum = true ∧
    strcaseeq c.fw.checksumAlgorithm (ascii "SHA256") = true

/-- A step calls `esp_ota_set_boot_partition` only on what it has verified,
and only after it wrote a message to the one open handle. -/
def BootsVerified (P : Platform) (c c' : Client) : Prop :=
  ∀ slot version ok, .setBoot slot version ok ∈ c.journal.since c'.journal →
    Verified P c' slot ∧
      ∃ h data, c.ota.handles = [h] ∧ h.slot = slot ∧ c'.dl.shaCtx = h.wrote ++ data

/-! ## One message -/

/-- An `int` counter does not overflow below the size of a slot. -/
theorem received_add {received : Int32} {n m : Nat} (hn : received.toInt = n)
    (h : n + m < 2 ^ 31) : (received + Int32.ofNat m).toInt = ↑(n + m) := by
  rw [Int32.toInt_add, hn, Int32.toInt_ofNat_of_lt (by omega), ← Int.natCast_add]
  exact Int.bmod_eq_of_le_mul_two (by omega) (by omega)

/-- One message later the accumulators are still in step. -/
theorem acceptChunk_inAttempt {data : Bytes} (h : InAttempt P c)
    (hcan : c.ota.canWrite c.dl.otaHandle P.partitionSize data = true) :
    InAttempt P (c.acceptChunk data) := by
  obtain ⟨slot, hhandles, hpart, hflash, hlen, hreceived⟩ := h
  have hfind : c.ota.find c.dl.otaHandle = some ⟨c.dl.otaHandle, slot, c.dl.shaCtx⟩ := by
    simp [Ota.find, hhandles]
  have hroom : c.dl.shaCtx.length + data.length ≤ P.partitionSize := by
    simpa [Ota.canWrite, hfind] using hcan
  have hsmall := P.partitionSize_lt
  refine ⟨slot, ?_, hpart, ?_, ?_, ?_⟩
  · simp [acceptChunk, Ota.append, hhandles]
  · simp [acceptChunk, emit, hfind, Flash.apply, hflash]
  · simpa [acceptChunk] using hroom
  · have hadd := received_add (m := data.length) hreceived (by omega)
    simpa [acceptChunk] using hadd

/-- Asking for the next chunk keeps the accumulators. -/
theorem nextChunk_inAttempt (h : InAttempt P c) : InAttempt P c.nextChunk := h

/-! ## The end and the start of an attempt -/

/-- An attempt that was given up leaves no handle open. -/
theorem gaveUp_sound {es : List Effect}
    (h : c.dl.inProgress = true → InAttempt P c) (hprog : c.dl.inProgress = true) :
    Sound P (c.gaveUp es) := by
  obtain ⟨slot, hhandles, -⟩ := h hprog
  refine ⟨fun _ hbusy => absurd hbusy (by simp [gaveUp]), fun _ _ => ?_⟩
  simp [gaveUp, Ota.release, hhandles]

theorem finishFwUpdate_sound (h : InAttempt P c) (hprog : c.dl.inProgress = true) (success : Bool) :
    Sound P (c.finishFwUpdate P o success) := by
  rcases finishFwUpdate_cases P c o success with ⟨states, -, heq⟩ | ⟨-, -, slot, -, heq | heq⟩
  · rw [heq]
    exact gaveUp_sound (fun _ => h) hprog
  · rw [heq]
    exact gaveUp_sound (fun _ => h) hprog
  · rw [heq]
    exact ⟨fun hhalt => by simp [installed] at hhalt, fun hhalt => by simp [installed] at hhalt⟩

/-- A download begins with nothing written, nothing hashed and nothing
counted. -/
theorem beginDownload_inAttempt (hidle : c.ota.handles = []) (slot : Slot)
    (hpart : c.dl.updatePartition = some slot) : InAttempt P (c.beginDownload slot) := by
  refine ⟨slot, ?_, hpart, ?_, Nat.zero_le _, rfl⟩
  · simp [beginDownload_eq, Ota.start, hidle]
  · simp [beginDownload_eq, startEffects, fwReport, Journal.writes_cons, Flash.apply]

theorem startFwUpdate_sound (h : Sound P c) (hprog : c.dl.inProgress = false) :
    Sound P (c.startFwUpdate o) := by
  rcases startFwUpdate_cases c o with ⟨-, p, payload, -, heq⟩ | ⟨-, heq⟩
  · rw [heq]
    exact ⟨fun _ hbusy => absurd (hprog.symm.trans hbusy) (by decide), fun hhalt _ =>
      h.idle hhalt hprog⟩
  · rw [heq]
    refine ⟨fun hhalt _ => ?_, fun _ hidle => by simp [beginDownload_eq] at hidle⟩
    have hhalt' : c.halt = none := by simpa [beginDownload_eq, setPartition] using hhalt
    have hidle : (c.setPartition (some c.slot.other)).ota.handles = [] := h.idle hhalt' hprog
    exact beginDownload_inAttempt hidle _ rfl

/-- Attributes do not touch the download. -/
theorem applyAttributes_sound (h : Sound P c) (hhalt : c.halt = none)
    (items : List (Option Bytes × CJson)) : Sound P (c.applyAttributes items) := by
  obtain ⟨interval, fw, halt, heq⟩ := applyAttributes_frame c items
  rw [heq]
  exact ⟨fun _ => h.busy hhalt, fun _ => h.idle hhalt⟩

/-! ## Steps -/

theorem handleFwChunkData_sound (h : Sound P c) (hhalt : c.halt = none) (data : Bytes) :
    Sound P (c.handleFwChunkData P o data) := by
  rcases handleFwChunkData_cases P c o data with
    ⟨-, heq⟩ | ⟨hprog, heq⟩ | ⟨hprog, hcan, -, -, heq⟩ | ⟨hprog, hcan, heq⟩
  · rwa [heq]
  · rw [heq]
    exact finishFwUpdate_sound (h.busy hhalt hprog) hprog false
  · rw [heq]
    have hbusy := acceptChunk_inAttempt (h.busy hhalt hprog) hcan
    exact ⟨fun _ _ => nextChunk_inAttempt hbusy,
      fun _ hidle => absurd (hprog.symm.trans hidle) (by decide)⟩
  · rw [heq]
    exact finishFwUpdate_sound (acceptChunk_inAttempt (h.busy hhalt hprog) hcan) hprog _

/-- Every step keeps the invariant. -/
theorem sound_next {l : Label} (h : Sound P c) (hnext : c.next P l = some c') : Sound P c' := by
  obtain ⟨hhalt, hstep⟩ := next_step hnext
  cases hstep with
  | quiet es htalk hbuild hslot hfw hdl hota hjournal =>
    have hdisk : c'.journal.disk = c.journal.disk := hjournal ▸ writes_talk htalk
    refine ⟨fun _ hbusy => ?_, fun _ hidle => ?_⟩
    · rw [InAttempt, hota, hdl, hdisk]
      exact h.busy hhalt (hdl ▸ hbusy)
    · rw [hota]
      exact h.idle hhalt (hdl ▸ hidle)
  | attributes htopic hparse => exact applyAttributes_sound h hhalt _
  | offer htopic hparse hhalt' hwants =>
    exact startFwUpdate_sound (applyAttributes_sound h hhalt _) (idle_of_wantsUpdate hwants)
  | chunk htopic => exact handleFwChunkData_sound h hhalt _

/-- A list of effects that sets no boot partition. -/
def NoSetBoot (es : List Effect) : Prop := ∀ slot version ok, .setBoot slot version ok ∉ es

theorem noSetBoot_of_talk {es : List Effect} (h : ∀ e ∈ es, Talks e) : NoSetBoot es :=
  fun _ _ _ hmem => h _ hmem

theorem startFwUpdate_noSetBoot (c : Client) (o : Outcomes) :
    NoSetBoot (c.journal.since (c.startFwUpdate o).journal) := by
  rcases startFwUpdate_cases c o with ⟨-, p, payload, -, heq⟩ | ⟨-, heq⟩
  · rw [heq]
    have hj : ((c.setPartition p).sendTelemetryJson payload).journal =
      c.journal.writes [.publish telemetryTopic payload] := rfl
    rw [hj, Journal.since_writes]
    exact noSetBoot_of_talk (by simp [Talks])
  · rw [heq, beginDownload_eq]
    simp only [setPartition, Journal.since_writes]
    simp [NoSetBoot, startEffects, fwReport]

/-- What a finished download makes bootable, or fails to, was verified. -/
theorem finishFwUpdate_verified (h : InAttempt P c) {success : Bool}
    (hsize : success = true → c.dl.received = c.fw.size) {slot : Slot} {version : Bytes} {ok : Bool}
    (hmem : .setBoot slot version ok ∈
      c.journal.since (c.finishFwUpdate P o success).journal) :
    Verified P (c.finishFwUpdate P o success) slot ∧ c.dl.updatePartition = some slot ∧
      (c.finishFwUpdate P o success).dl.shaCtx = c.dl.shaCtx := by
  obtain ⟨slot', -, hpart', hflash, -, hreceived⟩ := h
  rcases finishFwUpdate_cases P c o success with
    ⟨states, -, heq⟩ | ⟨hsuccess, hsum, slot'', hpart, heq⟩
  · rw [heq, gaveUp, Journal.since_writes] at hmem
    simp [failEffects, fwReport] at hmem
  · have hslots : slot'' = slot' := Option.some_inj.mp (hpart.symm.trans hpart')
    simp only [checksumOk, Bool.and_eq_true] at hsum
    have hbytes : (c.dl.shaCtx.length : Int) = c.fw.size.toInt := by
      rw [← hsize hsuccess, hreceived]
    rcases heq with heq | heq
    · rw [heq] at hmem ⊢
      have hslot : slot = slot'' := by
        simp only [gaveUp, Journal.since_writes] at hmem
        simp [failEffects, fwReport] at hmem
        exact hmem.1
      subst hslot
      refine ⟨⟨?_, hbytes, hsum.2, hsum.1⟩, hpart, rfl⟩
      simpa [gaveUp, failEffects, fwReport, Journal.writes_cons, Flash.apply, hslots] using hflash
    · rw [heq] at hmem ⊢
      have hslot : slot = slot'' := by
        simp only [installed, Journal.since_writes] at hmem
        simp [installEffects, fwReport] at hmem
        exact hmem.1
      subst hslot
      refine ⟨⟨?_, hbytes, hsum.2, hsum.1⟩, hpart, rfl⟩
      simpa [installed, installEffects, fwReport, Journal.writes_cons, Flash.apply, hslots]
        using hflash

theorem finishFwUpdate_extends (P : Platform) (c : Client) (o : Outcomes) (success : Bool) :
    c.journal.Extends (c.finishFwUpdate P o success).journal := by
  rcases finishFwUpdate_cases P c o success with ⟨states, -, heq⟩ | ⟨-, -, slot, -, heq | heq⟩ <;>
    rw [heq] <;> exact ⟨_, rfl⟩

theorem handleFwChunkData_verified (h : Sound P c) (hhalt : c.halt = none) (data : Bytes) :
    BootsVerified P c (c.handleFwChunkData P o data) := by
  intro slot version ok hmem
  rcases handleFwChunkData_cases P c o data with
    ⟨-, heq⟩ | ⟨hprog, heq⟩ | ⟨hprog, hcan, -, -, heq⟩ | ⟨hprog, hcan, heq⟩
  · rw [heq, Journal.since_self] at hmem
    cases hmem
  · have hfail : (c.finishFwUpdate P o false).journal = c.journal.writes [fwReport .failed] := rfl
    rw [heq, hfail, Journal.since_writes] at hmem
    simp [fwReport] at hmem
  · rw [heq] at hmem
    simp [nextChunk, requestFwChunk, emit, acceptChunk, Journal.since] at hmem
  · have hattempt := acceptChunk_inAttempt (h.busy hhalt hprog) hcan
    obtain ⟨slot', hhandles, hpart, -⟩ := h.busy hhalt hprog
    have haccept : c.journal.Extends (c.acceptChunk data).journal := c.journal.extends_write _
    rw [heq] at hmem ⊢
    rw [Journal.since_trans haccept (finishFwUpdate_extends P _ o _), List.mem_append] at hmem
    rcases hmem with hmem | hmem
    · simp [acceptChunk, emit, Journal.since] at hmem
    · obtain ⟨hver, hpart', hsha⟩ :=
        finishFwUpdate_verified hattempt (fun hs => of_decide_eq_true hs) hmem
      have hslot : slot' = slot := Option.some_inj.mp (hpart.symm.trans hpart')
      exact ⟨hver, _, data, hhandles, hslot, hsha⟩

/-- Every step checks what it makes bootable. -/
theorem next_verified {l : Label} (h : Sound P c) (hnext : c.next P l = some c') :
    BootsVerified P c c' := by
  obtain ⟨hhalt, hstep⟩ := next_step hnext
  cases hstep with
  | quiet es htalk hbuild hslot hfw hdl hota hjournal =>
    intro slot version ok hmem
    rw [hjournal, Journal.since_writes] at hmem
    exact absurd hmem (noSetBoot_of_talk htalk slot version ok)
  | attributes htopic hparse =>
    intro slot version ok hmem
    simp at hmem
  | offer htopic hparse hhalt' hwants =>
    intro slot version ok hmem
    rw [← applyAttributes_journal c] at hmem
    exact absurd hmem (startFwUpdate_noSetBoot _ _ slot version ok)
  | chunk htopic => exact handleFwChunkData_verified h hhalt _

/-- A client that was just started has no handle. -/
theorem sound_fresh (P : Platform) (build : Build) (slot : Slot) (journal : Log) :
    Sound P (Client.fresh build slot journal) where
  busy _ hbusy := by simp [Client.fresh] at hbusy
  idle _ _ := rfl

/-- In every reachable state between two events the three accumulators agree
on the one open handle, or nothing is in progress and no handle is open; and
every step calls `esp_ota_set_boot_partition` only on verified bytes. -/
theorem ota_integrity (h : (client P).Reachable c) :
    (c.halt = none → c.dl.inProgress = true → InAttempt P c) ∧
      (c.halt = none → c.dl.inProgress = false → c.ota.handles = []) ∧
      ∀ l c', c.next P l = some c' → BootsVerified P c c' := by
  have hsound : Sound P c := by
    refine h.invariant (I := Sound P) ?_ fun _ _ _ _ hs _ hnext => sound_next hs hnext
    rintro c ⟨build, slot, journal, rfl⟩
    exact sound_fresh P build slot journal
  exact ⟨hsound.busy, hsound.idle, fun _ _ hnext => next_verified hsound hnext⟩

/-! ## A sample platform -/

/-- A firmware package as it is published. -/
structure Package where
  title : Bytes
  version : Bytes
  size : Int32
  checksum : Bytes
  checksumAlgorithm : Bytes
  deriving DecidableEq

/-- The shared attributes of a package, as JSON text. -/
def Package.text (p : Package) : Bytes :=
  ascii "\x7b\"fw_title\":\"" ++ p.title ++ ascii "\",\"fw_version\":\"" ++ p.version ++
    ascii "\",\"fw_size\":" ++ dec p.size.toInt ++ ascii ",\"fw_checksum\":\"" ++ p.checksum ++
    ascii "\",\"fw_checksum_algorithm\":\"" ++ p.checksumAlgorithm ++ ascii "\"\x7d"

/-- The attributes, as cJSON parses them. -/
def Package.members (p : Package) : List (Bytes × CJson) :=
  [ (ascii "fw_title", .string p.title)
  , (ascii "fw_version", .string p.version)
  , (ascii "fw_size", .number p.size)
  , (ascii "fw_checksum", .string p.checksum)
  , (ascii "fw_checksum_algorithm", .string p.checksumAlgorithm) ]

/-- The SHA-256 of `abc`. -/
def abcDigest : Bytes :=
  [ 0xba, 0x78, 0x16, 0xbf, 0x8f, 0x01, 0xcf, 0xea, 0x41, 0x41, 0x40,
    0xde, 0x5d, 0xae, 0x22, 0x23, 0xb0, 0x03, 0x61, 0xa3, 0x96, 0x17,
    0x7a, 0x9c, 0xb4, 0x10, 0xff, 0x61, 0xf2, 0x00, 0x15, 0xad ]

/-- The platform on the inputs of the runs below: the digest of one image of
three bytes, and the JSON texts of some packages. -/
def samplePlatform (packages : List Package) : Platform where
  sha256 bytes := if bytes = ascii "abc" then abcDigest else []
  parse text := (packages.find? fun p => p.text = text).map fun p => .object p.members
  build image := ⟨ascii "esp32-winegrid", if image = ascii "abc" then ascii "1.8" else ascii "1.7"⟩
  partitionSize := 1048576
  partitionSize_lt := mebibyte_lt

def sampleBuild : Build := ⟨ascii "esp32-winegrid", ascii "1.7"⟩

/-- Version 1.8 is the image `abc`. -/
def package18 : Package :=
  ⟨ascii "esp32-winegrid", ascii "1.8", 3, hexLower abcDigest, ascii "SHA256"⟩

/-- Every call succeeds. -/
def allOk : Outcomes := ⟨true, true, true, true, true, 200000⟩

/-- A client that runs 1.7 from the first slot. -/
def sampleClient : Client :=
  Client.fresh sampleBuild .ota0 ⟨⟨fun _ => none, fun _ => [], .ota0, .valid⟩, []⟩

/-- The client after the attributes of `p` arrived. -/
def offered (packages : List Package) (p : Package) : Client :=
  mqttEventHandler (samplePlatform packages) sampleClient allOk (.data attributesTopic p.text)

theorem offered_reach {ok : Client → Label → Prop} (packages : List Package) (p : Package)
    (hok : ok sampleClient (.event allOk (.data attributesTopic p.text))) :
    (client (samplePlatform packages)).Reach ok (offered packages p) :=
  .step (.init ⟨_, _, _, rfl⟩) hok rfl

theorem samplePlatform_parse {packages : List Package} {p : Package}
    (h : packages.find? (fun q => q.text = p.text) = some p) :
    (samplePlatform packages).parse p.text = some (.object p.members) := by
  simp only [samplePlatform, h, Option.map_some]

/-- The one chunk of version 1.8. -/
def chunk18 : Event := .data (ascii "v2/fw/response/1/chunk/0") (ascii "abc")

/-- Version 1.8 is offered and its one chunk arrives: what becomes bootable
was verified. -/
theorem ota_integrity_sample :
    ∃ c', (offered [package18] package18).next (samplePlatform [package18])
        (.event allOk chunk18) = some c' ∧
      .setBoot .ota1 (ascii "1.8") true ∈
        (offered [package18] package18).journal.since c'.journal ∧
      Verified (samplePlatform [package18]) c' .ota1 := by
  have hhalt : (offered [package18] package18).halt = none := by decide +kernel
  have hnext := next_event (P := samplePlatform [package18]) hhalt allOk chunk18
  have hmem : .setBoot .ota1 (ascii "1.8") true ∈ (offered [package18] package18).journal.since
      (mqttEventHandler (samplePlatform [package18]) (offered [package18] package18) allOk
        chunk18).journal := by decide +kernel
  exact ⟨_, hnext, hmem,
    ((ota_integrity (offered_reach [package18] package18 trivial)).2.2 _ _ hnext _ _ _ hmem).1⟩

end Winegrid.ThingsBoard
