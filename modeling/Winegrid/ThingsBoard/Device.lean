import Winegrid.Esp.Laws
import Winegrid.ThingsBoard.Packages

/-!
# A ThingsBoard device over many boots

The start-up of `esp-idf-thingsboard/main/app_main.c`: the access token comes
from NVS, or from a provisioning run that stores it there.

* `follows`: the firmware follows the `pending_fw` protocol.
* `offers`: a client that is offered one version attempts and installs only
  that one.
-/

namespace Winegrid.ThingsBoard

open Esp Client

variable {P : Platform} {c c' : Client} {o : Outcomes} {flow : Flow} {start : Flash → Prop}
  {w : Bytes} {flash : Flash}

/-- `app_main` from `load_stored_token` to `save_token`.  A run of
`run_provisioning` answers the token it was issued, if any. -/
def startup (provisioned : Option Bytes) (nvs : Nvs) : List Effect × Bool :=
  match loadNvsStr nvs .accessToken 64 with
  | some _ => ([], true)
  | none =>
    match provisioned with
    | none => ([.call .provisioning], false)
    | some token =>
      if token.length = 0 then ([.call .provisioning], false)
      else ([.call .provisioning, .nvsSet .accessToken (strncpy 64 token)], true)

def firmware (P : Platform) : Firmware Client Label (Option Bytes) where
  startup := startup
  fresh := Client.fresh
  next := Client.next P
  journal := Client.journal

/-! ## The protocol -/

/-- How far a client is: it writes to the slot that is not booted, and a
download in progress has stored its marker. -/
structure Link (P : Platform) (c : Client) (flow : Flow) : Prop where
  sound : Sound P c
  slot : c.halt = none → c.journal.disk.bootSlot = c.slot ∧ flow ≠ .installed
  busy : c.halt = none → c.dl.inProgress = true →
    flow = .attempting ∧ c.dl.updatePartition = some c.slot.other

/-- From the journal `j`, the client `c'` is reached by a run of the protocol. -/
def Runs (P : Platform) (flash : Flash) (j : Log) (flow : Flow) (c' : Client) : Prop :=
  ∃ es flow', Link P c' flow' ∧ ∀ start w, (marker P.version start).Run (InClient flash)
    ⟨j, .up w flow⟩ es ⟨c'.journal, .up w flow'⟩

theorem fwReport_talks (states : List FwState) : ∀ e ∈ states.map fwReport, Talks e := by
  intro e he
  obtain ⟨state, -, rfl⟩ := List.mem_map.mp he
  trivial

/-- A client that gives up reports around effects that leave the flash as it
is. -/
theorem gaveUp_run (hattempt : InAttempt P c) (hprog : c.dl.inProgress = true)
    (hslot : c.journal.disk.bootSlot = c.slot) (hfailed : c.journal.disk.failed = flash.failed)
    (states : List FwState) (es : List Effect)
    (hdisk : ((c.journal.writes (states.map fwReport)).writes es).disk = c.journal.disk)
    (hmid : ∀ start w, (marker P.version start).Run (InClient flash)
      ⟨c.journal.writes (states.map fwReport), .up w .attempting⟩ es
      ⟨(c.journal.writes (states.map fwReport)).writes es, .up w .attempting⟩) :
    Runs P flash c.journal .attempting (c.gaveUp (failEffects states es)) := by
  have hlast : ∀ e ∈ [fwReport .failed], Talks e := by simp [fwReport, Talks]
  have hjournal : (c.gaveUp (failEffects states es)).journal =
      ((c.journal.writes (states.map fwReport)).writes es).writes [fwReport .failed] := by
    rw [gaveUp, failEffects, Journal.writes_append, Journal.writes_append]
  have hend : (c.gaveUp (failEffects states es)).journal.disk = c.journal.disk := by
    rw [hjournal, writes_talk hlast, hdisk]
  refine ⟨states.map fwReport ++ es ++ [fwReport .failed], .attempting, ?_, fun start w => ?_⟩
  · refine ⟨gaveUp_sound (fun _ => hattempt) hprog, fun _ => ⟨?_, by decide⟩, fun _ hbusy => ?_⟩
    · rw [hend]
      exact hslot
    · simp [gaveUp] at hbusy
  · rw [hjournal]
    exact ((talk_run start w .attempting hfailed (fwReport_talks states)).trans
      (hmid start w)).trans (talk_run start w .attempting (hdisk ▸ hfailed) hlast)

/-- `esp_ota_set_boot_partition` on the slot that is not booted. -/
theorem setBoot_run (P : Platform) (start : Flash → Prop) (w : Bytes) {j j' : Log}
    (hdisk : j'.disk = j.disk) (hfailed : j.disk.failed = flash.failed) {slot : Slot}
    (hslot : slot = j.disk.bootSlot.other) (ok : Bool) :
    (marker P.version start).Run (InClient flash) ⟨j', .up w .attempting⟩
      [.setBoot slot (P.version (j.disk.app slot)) ok]
      ⟨j'.write (.setBoot slot (P.version (j.disk.app slot)) ok),
        .up w (if ok then .installed else .attempting)⟩ :=
  up_single (hdisk ▸ hfailed) (by simp) (by simp [Phase.next, hdisk, hslot])

/-- The end of an attempt is a run of the protocol. -/
theorem finishFwUpdate_run (hattempt : InAttempt P c) (hprog : c.dl.inProgress = true)
    (hslot : c.journal.disk.bootSlot = c.slot) (hpart : c.dl.updatePartition = some c.slot.other)
    (hfailed : c.journal.disk.failed = flash.failed) (o : Outcomes) (success : Bool) :
    Runs P flash c.journal .attempting (c.finishFwUpdate P o success) := by
  have hdisk := fun states => writes_talk (j := c.journal) (fwReport_talks states)
  rcases finishFwUpdate_cases P c o success with
    ⟨states, -, heq⟩ | ⟨-, -, slot, hpart', heq | heq⟩
  · rw [heq]
    exact gaveUp_run hattempt hprog hslot hfailed states [] (hdisk states) fun _ _ => .nil _
  · have hother : slot = c.journal.disk.bootSlot.other := by
      rw [hslot]
      exact Option.some_inj.mp (hpart'.symm.trans hpart)
    have hreports := hdisk [.downloaded, .verified, .updating]
    have hend : ((c.journal.writes ([FwState.downloaded, .verified, .updating].map fwReport)).writes
        [.setBoot slot (P.version (c.journal.disk.app slot)) false]).disk = c.journal.disk := by
      rw [Journal.writes_cons, Journal.writes_nil, Journal.write_disk, apply_def,
        apply_setBoot_false, hreports]
    rw [heq]
    exact gaveUp_run hattempt hprog hslot hfailed _ _ hend fun start w =>
      setBoot_run P start w hreports hfailed hother false
  · have hother : slot = c.journal.disk.bootSlot.other := by
      rw [hslot]
      exact Option.some_inj.mp (hpart'.symm.trans hpart)
    have hreports := hdisk [.downloaded, .verified, .updating]
    have hsound : Sound P (c.installed P slot) := heq ▸ finishFwUpdate_sound hattempt hprog success
    have hjournal : (c.installed P slot).journal =
        ((c.journal.writes ([FwState.downloaded, .verified, .updating].map fwReport)).write
          (.setBoot slot (P.version (c.journal.disk.app slot)) true)).writes
            [.publish telemetryTopic (updatedPayload c.fw.title c.fw.version)] := by
      simp only [installed, installEffects, Platform.version, List.map_cons, List.map_nil,
        Journal.writes_cons, Journal.writes_nil]
    rw [heq]
    refine ⟨[FwState.downloaded, .verified, .updating].map fwReport ++
      [.setBoot slot (P.version (c.journal.disk.app slot)) true] ++
      [.publish telemetryTopic (updatedPayload c.fw.title c.fw.version)], .installed, ?_, ?_⟩
    · exact ⟨hsound, fun hhalt => by simp [installed] at hhalt,
        fun hhalt => by simp [installed] at hhalt⟩
    · intro start w
      have hfailed' : ((c.journal.writes
          ([FwState.downloaded, .verified, .updating].map fwReport)).write
            (.setBoot slot (P.version (c.journal.disk.app slot)) true)).disk.failed =
              flash.failed := by
        rw [Journal.write_disk, apply_def, failed_setBoot, hreports, hfailed]
      rw [hjournal]
      exact ((talk_run start w .attempting hfailed (fwReport_talks _)).trans
        (setBoot_run P start w hreports hfailed hother true)).trans
          (talk_run start w .installed hfailed' (by simp [Talks]))

/-- The start of an attempt is a run of the protocol. -/
theorem startFwUpdate_run (hsound : Sound P c)
    (hidle : c.dl.inProgress = false) (hslot : c.journal.disk.bootSlot = c.slot)
    (hflow : flow ≠ .installed) (hfailed : c.journal.disk.failed = flash.failed) (o : Outcomes) :
    Runs P flash c.journal flow (c.startFwUpdate o) := by
  have hsound' : Sound P (c.startFwUpdate o) := startFwUpdate_sound hsound hidle
  rcases startFwUpdate_cases c o with ⟨-, p, payload, -, heq⟩ | ⟨-, heq⟩
  · rw [heq] at hsound' ⊢
    refine ⟨[.publish telemetryTopic payload], flow, ?_, fun start w =>
      talk_run start w flow hfailed (by simp [Talks])⟩
    exact ⟨hsound', fun _ => ⟨hslot, hflow⟩,
      fun _ hbusy => absurd (hidle.symm.trans hbusy) (by decide)⟩
  · rw [heq] at hsound' ⊢
    have hjournal : ((c.setPartition (some c.slot.other)).beginDownload c.slot.other).journal =
        ((c.journal.write (.otaBegin c.slot.other)).write (.nvsSet .pendingFw c.fw.version)).writes
          [fwReport .downloading,
            .publish (requestTopic (c.dl.requestId + 1) 0) chunkSizePayload] := by
      simp only [beginDownload_eq, setPartition, startEffects, Journal.writes_cons]
    have htalk : ∀ e ∈ [fwReport .downloading,
        .publish (requestTopic (c.dl.requestId + 1) 0) chunkSizePayload], Talks e := by
      simp [fwReport, Talks]
    refine ⟨[.otaBegin c.slot.other] ++ [.nvsSet .pendingFw c.fw.version] ++
      [fwReport .downloading, .publish (requestTopic (c.dl.requestId + 1) 0) chunkSizePayload],
      .attempting, ⟨hsound', fun _ => ⟨?_, by decide⟩, fun _ _ => ?_⟩, fun start w => ?_⟩
    · rw [hjournal, writes_talk htalk]
      exact hslot
    · simp only [beginDownload_eq, setPartition, and_self]
    · have hbegin : (marker P.version start).Run (InClient flash) ⟨c.journal, .up w flow⟩
          [.otaBegin c.slot.other] ⟨c.journal.write (.otaBegin c.slot.other), .up w flow⟩ :=
        up_single hfailed (by simp) (by simp [Phase.next, hslot, hflow])
      have hattempt : (marker P.version start).Run (InClient flash)
          ⟨c.journal.write (.otaBegin c.slot.other), .up w flow⟩
          [.nvsSet .pendingFw c.fw.version]
          ⟨(c.journal.write (.otaBegin c.slot.other)).write (.nvsSet .pendingFw c.fw.version),
            .up w .attempting⟩ :=
        up_single hfailed (by simp) (by simp [Phase.next, hflow])
      have hfailed' : ((c.journal.write (.otaBegin c.slot.other)).write
          (.nvsSet .pendingFw c.fw.version)).disk.failed = flash.failed :=
        (failed_nvsSet_of_ne (by decide)).trans hfailed
      rw [hjournal]
      exact (hbegin.trans hattempt).trans
        (talk_run start w .attempting hfailed' htalk)

/-- One message is written to the slot that is not booted. -/
theorem acceptChunk_run (hattempt : InAttempt P c) (hslot : c.journal.disk.bootSlot = c.slot)
    (hpart : c.dl.updatePartition = some c.slot.other)
    (hfailed : c.journal.disk.failed = flash.failed) (data : Bytes) (start : Flash → Prop)
    (w : Bytes) :
    (marker P.version start).Run (InClient flash) ⟨c.journal, .up w .attempting⟩
      [.otaWrite c.slot.other data] ⟨(c.acceptChunk data).journal, .up w .attempting⟩ := by
  obtain ⟨slot, hhandles, hpart', -⟩ := hattempt
  have hother : slot = c.slot.other := Option.some_inj.mp (hpart'.symm.trans hpart)
  have hfind : c.ota.find c.dl.otaHandle = some ⟨c.dl.otaHandle, slot, c.dl.shaCtx⟩ := by
    simp [Ota.find, hhandles]
  have hjournal : (c.acceptChunk data).journal = c.journal.write (.otaWrite c.slot.other data) := by
    simp [acceptChunk, emit, hfind, hother]
  rw [hjournal]
  exact up_single hfailed (by simp) (by simp [Phase.next, hslot])

/-- A firmware message is a run of the protocol. -/
theorem handleFwChunkData_run (h : Link P c flow) (hhalt : c.halt = none) (o : Outcomes)
    (data : Bytes) : Runs P c.journal.disk c.journal flow (c.handleFwChunkData P o data) := by
  obtain ⟨hslot, hflow⟩ := h.slot hhalt
  rcases handleFwChunkData_cases P c o data with
    ⟨hidle, heq⟩ | ⟨hprog, heq⟩ | ⟨hprog, hcan, -, -, heq⟩ | ⟨hprog, hcan, heq⟩
  · rw [heq]
    exact ⟨[], flow, h, fun _ _ => .nil _⟩
  · obtain ⟨rfl, hpart⟩ := h.busy hhalt hprog
    rw [heq]
    exact finishFwUpdate_run (h.sound.busy hhalt hprog) hprog hslot hpart rfl o false
  · obtain ⟨rfl, hpart⟩ := h.busy hhalt hprog
    have hattempt := h.sound.busy hhalt hprog
    have haccept := acceptChunk_inAttempt hattempt hcan
    have hsound : Sound P (c.acceptChunk data).nextChunk :=
      ⟨fun _ _ => nextChunk_inAttempt haccept, fun _ hidle =>
        absurd (hprog.symm.trans hidle) (by decide)⟩
    rw [heq]
    refine prepend_run (acceptChunk_run hattempt hslot hpart rfl data) ?_
    refine ⟨[.publish (requestTopic c.dl.requestId (c.dl.chunkIndex + 1)) chunkSizePayload],
      .attempting, ⟨hsound, fun _ => ⟨hslot, by decide⟩, fun _ _ => ⟨rfl, hpart⟩⟩,
      fun start w => ?_⟩
    exact talk_run start w .attempting rfl (by simp [Talks])
  · obtain ⟨rfl, hpart⟩ := h.busy hhalt hprog
    have hattempt := h.sound.busy hhalt hprog
    rw [heq]
    refine prepend_run (acceptChunk_run hattempt hslot hpart rfl data) ?_
    exact finishFwUpdate_run (acceptChunk_inAttempt hattempt hcan) hprog hslot hpart rfl o _

/-- A step of the client is a run of the protocol. -/
theorem next_run {l : Label} (h : Link P c flow) (hnext : c.next P l = some c') :
    Runs P c.journal.disk c.journal flow c' := by
  have hsound := sound_next h.sound hnext
  obtain ⟨hhalt, hstep⟩ := next_step hnext
  obtain ⟨hslot, hflow⟩ := h.slot hhalt
  cases hstep with
  | quiet es htalk hbuild hslot' hfw hdl hota hjournal =>
    refine ⟨es, flow, ⟨hsound, fun _ => ⟨?_, hflow⟩, fun _ hbusy => ?_⟩, fun start w => ?_⟩
    · rw [hjournal, writes_talk htalk, hslot', hslot]
    · rw [hdl, hslot']
      exact h.busy hhalt (hdl ▸ hbusy)
    · rw [hjournal]
      exact talk_run start w flow rfl htalk
  | attributes htopic hparse =>
    obtain ⟨interval, fw, halt, heq⟩ := applyAttributes_frame c (container _).children
    rw [heq] at hsound ⊢
    exact ⟨[], flow, ⟨hsound, fun _ => ⟨hslot, hflow⟩, fun _ => h.busy hhalt⟩, fun _ _ => .nil _⟩
  | @offer o _ _ root htopic hparse hhalt' hwants =>
    have hidle := idle_of_wantsUpdate hwants
    have hsound' := applyAttributes_sound h.sound hhalt (container root).children
    obtain ⟨interval, fw, halt, heq⟩ := applyAttributes_frame c (container root).children
    rw [heq] at hidle hsound' ⊢
    exact startFwUpdate_run hsound' hidle hslot hflow rfl o
  | chunk htopic => exact handleFwChunkData_run h hhalt _ _

/-- The start-up leaves the markers alone. -/
theorem startup_prepares (provisioned : Option Bytes) (nvs : Nvs) :
    ∀ e ∈ (startup provisioned nvs).1, Prepares e := by
  unfold startup
  split
  · simp
  · split
    · simp [Prepares]
    · split_ifs <;> simp [Prepares]

/-- The firmware follows the protocol. -/
def follows (P : Platform) : (firmware P).Follows P where
  Link := Link P
  startup := startup_prepares
  journal_fresh _ _ _ := rfl
  fresh build slot j hslot := ⟨sound_fresh P build slot j, fun _ => ⟨hslot, by decide⟩,
    fun _ hbusy => by simp [firmware, Client.fresh] at hbusy⟩
  next _ _ _ _ hlink hnext := next_run hlink hnext

/-! ## One version -/

variable {v : Bytes}

/-- The broker offers only `v`: every `fw_version` that it sends is `v`, and a
download that passes the check is an image of `v`. -/
def OffersOnly (P : Platform) (v : Bytes) (c : Client) : Label → Prop
  | .event _ (.data topic payload) =>
    (startsWith topic fwTopicPrefix = false → startsWith topic rpcRequestTopicPrefix = false →
      ∀ root, P.parse payload = some root → ∀ x,
        (some (ascii "fw_version"), .string x) ∈ (container root).children → x = v) ∧
    (startsWith topic fwTopicPrefix = true → checksumOk P c.fw (c.dl.shaCtx ++ payload) = true →
      P.version (c.dl.shaCtx ++ payload) = v)
  | _ => True

/-- `s_fw_version` is `v`, once it is anything. -/
structure OnlyVersion (P : Platform) (v : Bytes) (c : Client) : Prop where
  sound : Sound P c
  version : c.fw.version = [] ∨ c.fw.version = v

/-- Only a `fw_version` string changes `s_fw_version`. -/
theorem applyFwAttribute_version (fw : FwInfo) (key : Bytes) (value : CJson) :
    (applyFwAttribute fw key value).version = fw.version ∨
      ∃ x, key = ascii "fw_version" ∧ value = .string x ∧
        (applyFwAttribute fw key value).version = strncpy 32 x := by
  rw [applyFwAttribute_eq]
  by_cases hkey : key = ascii "fw_version"
  · subst hkey
    cases value with
    | string x => exact Or.inr ⟨x, rfl, rfl, rfl⟩
    | _ => exact Or.inl rfl
  · exact Or.inl (atKey_of_ne hkey _ _)

/-- Attributes in which every version is `v` leave the version or set `v`. -/
theorem applyAttributes_version (hv : v.length < 32) (c : Client)
    {items : List (Option Bytes × CJson)}
    (h : ∀ x, (some (ascii "fw_version"), .string x) ∈ items → x = v) :
    (c.applyAttributes items).fw.version = c.fw.version ∨
      (c.applyAttributes items).fw.version = v := by
  refine applyAttributes_fw (I := fun fw => fw.version = c.fw.version ∨ fw.version = v)
    (fun key value hmem fw hfw => ?_) (Or.inl rfl)
  rcases applyFwAttribute_version fw key value with hsame | ⟨x, rfl, rfl, hx⟩
  · rw [hsame]
    exact hfw
  · have hxv : x = v := h x hmem
    subst hxv
    exact Or.inr (hx.trans (strncpy_eq_self hv))

/-- The end of an attempt stores no marker. -/
theorem finishFwUpdate_noMarker (P : Platform) (c : Client) (o : Outcomes) (success : Bool)
    (x : Bytes) :
    .nvsSet .pendingFw x ∉ c.journal.since (c.finishFwUpdate P o success).journal := by
  rcases finishFwUpdate_cases P c o success with ⟨states, -, heq⟩ | ⟨-, -, slot, -, heq | heq⟩
  · rw [heq, gaveUp, Journal.since_writes]
    simp [failEffects, fwReport]
  · rw [heq, gaveUp, Journal.since_writes]
    simp [failEffects, fwReport]
  · rw [heq, installed, Journal.since_writes]
    simp [installEffects, fwReport]

/-- A firmware message stores no marker. -/
theorem handleFwChunkData_noMarker (P : Platform) (c : Client) (o : Outcomes) (data : Bytes)
    (x : Bytes) :
    .nvsSet .pendingFw x ∉ c.journal.since (c.handleFwChunkData P o data).journal := by
  rcases handleFwChunkData_cases P c o data with
    ⟨-, heq⟩ | ⟨-, heq⟩ | ⟨-, -, -, -, heq⟩ | ⟨-, -, heq⟩
  · simp [heq]
  · rw [heq]
    exact finishFwUpdate_noMarker P c o false x
  · rw [heq]
    simp [nextChunk, requestFwChunk, emit, acceptChunk, Journal.since]
  · have haccept : c.journal.Extends (c.acceptChunk data).journal := c.journal.extends_write _
    rw [heq, Journal.since_trans haccept (finishFwUpdate_extends P _ o _), List.mem_append, not_or]
    exact ⟨by simp [acceptChunk, emit, Journal.since], finishFwUpdate_noMarker P _ o _ x⟩

/-- An offer of `v` attempts `v`, unless it failed before. -/
theorem startFwUpdate_offers (hversion : c.fw.version = v) (o : Outcomes) :
    ∀ e ∈ c.journal.since (c.startFwUpdate o).journal, OffersEffect v c.journal.disk e := by
  intro e he
  rcases startFwUpdate_cases c o with ⟨-, p, payload, -, heq⟩ | ⟨⟨hfailed, -, -⟩, heq⟩
  · have hjournal : ((c.setPartition p).sendTelemetryJson payload).journal =
      c.journal.writes [.publish telemetryTopic payload] := rfl
    rw [heq, hjournal, Journal.since_writes, List.mem_singleton] at he
    subst he
    exact offersEffect_of_talk trivial
  · rw [heq, beginDownload_eq] at he
    simp only [setPartition, Journal.since_writes] at he
    rw [hversion] at hfailed
    simp only [startEffects, List.mem_cons, List.not_mem_nil, or_false] at he
    rcases he with rfl | rfl | rfl | rfl
    · exact ⟨by simp, by simp⟩
    · refine ⟨fun x hx => ?_, by simp⟩
      simp only [Effect.nvsSet.injEq, true_and] at hx
      exact ⟨hx.symm.trans hversion, hfailed⟩
    · exact offersEffect_of_talk trivial
    · exact offersEffect_of_talk trivial

/-- A firmware message installs only an image of `v`. -/
theorem handleFwChunkData_offers (hsound : Sound P c) (hhalt : c.halt = none) (o : Outcomes)
    {data : Bytes} (himage : checksumOk P c.fw (c.dl.shaCtx ++ data) = true →
      P.version (c.dl.shaCtx ++ data) = v) :
    ∀ e ∈ c.journal.since (c.handleFwChunkData P o data).journal,
      OffersEffect v c.journal.disk e := by
  intro e he
  refine ⟨fun x hx => ?_, fun slot x hx => ?_⟩
  · subst hx
    exact absurd he (handleFwChunkData_noMarker P c o data x)
  · subst hx
    obtain ⟨hprog, hcan, -, hsum, hpart, rfl, -⟩ := handleFwChunkData_installs he
    obtain ⟨slot', -, hpart', hflash, -⟩ :=
      acceptChunk_inAttempt (hsound.busy hhalt hprog) hcan
    have hslot : slot' = slot := Option.some_inj.mp (hpart'.symm.trans hpart)
    rw [hslot] at hflash
    have hsha : (c.acceptChunk data).dl.shaCtx = c.dl.shaCtx ++ data := rfl
    rw [hflash, hsha]
    exact himage (hsha ▸ hsum)

/-- A step of a client that is offered only `v`. -/
theorem next_offers (hv : v.length < 32) {l : Label} (h : OnlyVersion P v c)
    (hok : OffersOnly P v c l) (hnext : c.next P l = some c') :
    OnlyVersion P v c' ∧ ∀ e ∈ c.journal.since c'.journal, OffersEffect v c.journal.disk e := by
  have hsound := sound_next h.sound hnext
  obtain ⟨hhalt, hstep⟩ := next_step hnext
  cases hstep with
  | quiet es htalk hbuild hslot hfw hdl hota hjournal =>
    refine ⟨⟨hsound, hfw ▸ h.version⟩, fun e he => ?_⟩
    rw [hjournal, Journal.since_writes] at he
    exact offersEffect_of_talk (htalk e he)
  | attributes htopic hparse hrpc =>
    have hversion := applyAttributes_version hv c (hok.1 htopic hrpc _ hparse)
    refine ⟨⟨hsound, ?_⟩, fun e he => by simp at he⟩
    rcases hversion with hsame | hv'
    · rw [hsame]
      exact h.version
    · exact Or.inr hv'
  | @offer o _ _ root htopic hparse hhalt' hwants hrpc =>
    have hversion : (c.applyAttributes (container root).children).fw.version = v := by
      have hne : 0 < (c.applyAttributes (container root).children).fw.version.length := by
        simp only [wantsUpdate, Bool.and_eq_true, decide_eq_true_eq] at hwants
        exact hwants.1.2
      rcases applyAttributes_version hv c (hok.1 htopic hrpc _ hparse) with hsame | hv'
      · rcases h.version with hnil | hv'
        · rw [hsame, hnil] at hne
          exact absurd hne (by simp)
        · exact hsame.trans hv'
      · exact hv'
    have hoffers := startFwUpdate_offers hversion o
    rw [applyAttributes_journal] at hoffers
    refine ⟨⟨hsound, Or.inr ?_⟩, hoffers⟩
    rw [(startFwUpdate_keeps _ o).fw, hversion]
  | chunk htopic =>
    refine ⟨⟨hsound, ?_⟩, handleFwChunkData_offers h.sound hhalt _ (hok.2 htopic)⟩
    rw [(handleFwChunkData_keeps P c _ _).fw]
    exact h.version

/-- A client that is offered only `v` attempts and installs only `v`. -/
def offers (P : Platform) (hv : v.length < 32) : (firmware P).Offers v (OffersOnly P v) where
  Keeps := OnlyVersion P v
  fresh build slot j := ⟨sound_fresh P build slot j, Or.inl rfl⟩
  next _ _ _ h hok hnext := next_offers hv h hok hnext

end Winegrid.ThingsBoard
