import Winegrid.ThingsBoard.Client
import Mathlib.Tactic.SplitIfs

/-!
# What a step of the ThingsBoard client can do

One inversion lemma for each function of the download, and `next_step`, which
sorts every step of the client into four kinds: a step that only talks, an
attribute payload, an attribute payload that starts a download, and a firmware
message.  The invariants of the client are proved from these lemmas and never
unfold the functions.

* `finishFwUpdate_cases`: the attempt is given up, or the image is verified and
  then installed or given up.
* `startFwUpdate_cases`: nothing starts, or `beginDownload` runs.
* `handleFwChunkData_cases`: ignored, given up, one chunk further, or finished.
* `applyFwAttribute_eq`: an attribute is an update for its own key.
* `handleAttributesPayload_eq`: the attributes are applied, and then an update
  may start.
-/

namespace Winegrid.ThingsBoard

open Esp

/-- The effect of `report_fw_state`. -/
def fwReport (state : FwState) : Effect := .publish telemetryTopic (fwStatePayload state)

namespace Client

/-! ## The end of an attempt -/

/-- The client after an attempt that failed with the effects `es`. -/
def gaveUp (c : Client) (es : List Effect) : Client :=
  { c with
    ota := c.ota.release c.dl.otaHandle
    dl := { c.dl with inProgress := false }
    journal := c.journal.writes es }

/-- What a successful attempt does after the image was verified. -/
def installEffects (fw : FwInfo) (slot : Slot) (version : Bytes) : List Effect :=
  [ fwReport .downloaded, fwReport .verified, fwReport .updating, .setBoot slot version true
  , .publish telemetryTopic (updatedPayload fw.title fw.version) ]

/-- The client after it installed the image in `slot` and called
`esp_restart`. -/
def installed (P : Platform) (c : Client) (slot : Slot) : Client :=
  { c with
    ota := c.ota.release c.dl.otaHandle
    halt := some .restart
    journal := c.journal.writes
      (installEffects c.fw slot (P.build (c.journal.disk.app slot)).version) }

/-- The reports of a failed attempt, around the effects in the middle. -/
def failEffects (states : List FwState) (es : List Effect) : List Effect :=
  states.map fwReport ++ es ++ [fwReport .failed]

/-- The states that a finished attempt reports before it fails, when the call
of `esp_ota_set_boot_partition` is not reached. -/
def FailsAfter (P : Platform) (c : Client) (states : List FwState) : Prop :=
  states <+: [.downloaded, .verified, .updating] ∧
    (.verified ∈ states → checksumOk P c.fw c.dl.shaCtx = true)

/-- An attempt that is finished fails before `esp_ota_set_boot_partition`, or
it verified its image, and the call failed or installed it. -/
theorem finishFwUpdate_cases (P : Platform) (c : Client) (o : Outcomes) (success : Bool) :
    (∃ states, FailsAfter P c states ∧
        c.finishFwUpdate P o success = c.gaveUp (failEffects states [])) ∨
      (success = true ∧ checksumOk P c.fw c.dl.shaCtx = true ∧
        ∃ slot, c.dl.updatePartition = some slot ∧
          (c.finishFwUpdate P o success = c.gaveUp (failEffects [.downloaded, .verified, .updating]
              [.setBoot slot (P.build (c.journal.disk.app slot)).version false]) ∨
            c.finishFwUpdate P o success = c.installed P slot)) := by
  cases success with
  | false => exact Or.inl ⟨[], ⟨List.nil_prefix, by simp⟩, rfl⟩
  | true =>
    by_cases hsum : checksumOk P c.fw c.dl.shaCtx = true
    · by_cases hend : o.otaEnd = true
      · rcases hpart : c.dl.updatePartition with _ | slot
        · refine Or.inl
            ⟨[.downloaded, .verified, .updating], ⟨List.prefix_refl _, fun _ => hsum⟩, ?_⟩
          simp [finishFwUpdate, bootUpdate, reportFwState, sendTelemetryJson, emit, releaseHandle,
            failFwUpdate, gaveUp, failEffects, fwReport, Journal.writes_cons, hsum, hend, hpart]
        · refine Or.inr ⟨rfl, hsum, slot, rfl, ?_⟩
          by_cases hboot : o.setBoot = true
          · refine Or.inr ?_
            simp [finishFwUpdate, bootUpdate, reportFwState, sendTelemetryJson, emit,
              releaseHandle, installed, installEffects, fwReport, Journal.writes_cons, hsum, hend,
              hpart, hboot, Flash.apply]
          · refine Or.inl ?_
            simp [finishFwUpdate, bootUpdate, reportFwState, sendTelemetryJson, emit,
              releaseHandle, failFwUpdate, gaveUp, failEffects, fwReport, Journal.writes_cons, hsum,
              hend, hpart, hboot, Flash.apply]
      · refine Or.inl ⟨[.downloaded, .verified], ⟨by decide, fun _ => hsum⟩, ?_⟩
        simp [finishFwUpdate, reportFwState, sendTelemetryJson, emit, releaseHandle, failFwUpdate,
          gaveUp, failEffects, fwReport, Journal.writes_cons, hsum, hend]
    · refine Or.inl ⟨[.downloaded], ⟨by decide, by simp⟩, ?_⟩
      simp [finishFwUpdate, reportFwState, sendTelemetryJson, emit, releaseHandle, failFwUpdate,
        gaveUp, failEffects, fwReport, Journal.writes_cons, hsum]

/-- An attempt that is finished is over, unless the device restarts. -/
theorem finishFwUpdate_over {P : Platform} {c : Client} {o : Outcomes} {success : Bool}
    (h : (c.finishFwUpdate P o success).halt = none) :
    (c.finishFwUpdate P o success).dl.inProgress = false := by
  rcases finishFwUpdate_cases P c o success with ⟨states, -, heq⟩ | ⟨-, -, slot, -, heq | heq⟩
  · rw [heq]
    rfl
  · rw [heq]
    rfl
  · rw [heq] at h
    cases h

/-! ## The start of an attempt -/

/-- The effects of `start_fw_update` from the successful `esp_ota_begin` on. -/
def startEffects (c : Client) (slot : Slot) : List Effect :=
  [ .otaBegin slot, .nvsSet .pendingFw c.fw.version, fwReport .downloading
  , .publish (requestTopic (c.dl.requestId + 1) 0) chunkSizePayload ]

theorem beginDownload_eq (c : Client) (slot : Slot) :
    c.beginDownload slot =
      { c with
        ota := c.ota.start slot
        dl := { c.dl with
          inProgress := true
          requestId := c.dl.requestId + 1
          chunkIndex := 0
          received := 0
          otaHandle := c.ota.lastHandle + 1
          shaCtx := [] }
        journal := c.journal.writes (startEffects c slot) } := rfl

/-- The client with another `s_update_partition`. -/
def setPartition (c : Client) (p : Option Slot) : Client :=
  { c with dl := { c.dl with updatePartition := p } }

/-- The version did not fail before, and there is a partition that
`esp_ota_begin` accepts. -/
def StartsDownload (c : Client) (o : Outcomes) : Prop :=
  loadNvsStr c.journal.disk.nvs .failedFw 32 ≠ some c.fw.version ∧ o.partition = true ∧
    o.otaBegin = true

/-- Nothing starts, and a failure is reported, or the download begins on the
inactive slot.  A version that failed before never starts. -/
theorem startFwUpdate_cases (c : Client) (o : Outcomes) :
    (¬ StartsDownload c o ∧ ∃ p payload,
        (payload = refusedPayload c.fw.version ∨ payload = fwStatePayload .failed) ∧
          c.startFwUpdate o = (c.setPartition p).sendTelemetryJson payload) ∨
      (StartsDownload c o ∧
        c.startFwUpdate o =
          (c.setPartition (some c.slot.other)).beginDownload c.slot.other) := by
  by_cases hfailed : loadNvsStr c.journal.disk.nvs .failedFw 32 = some c.fw.version
  · refine Or.inl ⟨fun h => h.1 hfailed, c.dl.updatePartition, refusedPayload c.fw.version,
      Or.inl rfl, ?_⟩
    rw [startFwUpdate, if_pos hfailed]
    rfl
  · rw [startFwUpdate, if_neg hfailed]
    by_cases hpart : o.partition = true
    · by_cases hbegin : o.otaBegin = true
      · refine Or.inr ⟨⟨hfailed, hpart, hbegin⟩, ?_⟩
        simp [hpart, hbegin, setPartition]
      · refine Or.inl ⟨fun h => hbegin h.2.2, some c.slot.other, fwStatePayload .failed,
          Or.inr rfl, ?_⟩
        simp [hpart, hbegin, setPartition, reportFwState]
    · refine Or.inl ⟨fun h => hpart h.2.1, none, fwStatePayload .failed, Or.inr rfl, ?_⟩
      simp [hpart, setPartition, reportFwState]

/-! ## A firmware message -/

/-- The client that asks for the next chunk. -/
def nextChunk (c : Client) : Client :=
  { c with dl := { c.dl with chunkIndex := c.dl.chunkIndex + 1 } }.requestFwChunk

/-- A firmware message is ignored, fails to be written, is one chunk, or is
the last one. -/
theorem handleFwChunkData_cases (P : Platform) (c : Client) (o : Outcomes) (data : Bytes) :
    (c.dl.inProgress = false ∧ c.handleFwChunkData P o data = c) ∨
      (c.dl.inProgress = true ∧ c.handleFwChunkData P o data = c.finishFwUpdate P o false) ∨
      (c.dl.inProgress = true ∧ c.ota.canWrite c.dl.otaHandle P.partitionSize data = true ∧
        data ≠ [] ∧ (c.acceptChunk data).dl.received < c.fw.size ∧
        c.handleFwChunkData P o data = (c.acceptChunk data).nextChunk) ∨
      (c.dl.inProgress = true ∧ c.ota.canWrite c.dl.otaHandle P.partitionSize data = true ∧
        c.handleFwChunkData P o data = (c.acceptChunk data).finishFwUpdate P o
          ((c.acceptChunk data).dl.received = c.fw.size)) := by
  unfold handleFwChunkData
  by_cases hprog : c.dl.inProgress = true
  · by_cases hwrite : (o.otaWrite && c.ota.canWrite c.dl.otaHandle P.partitionSize data) = true
    · have hcan := (Bool.and_eq_true_iff.mp hwrite).2
      have hfw : (c.acceptChunk data).fw = c.fw := rfl
      simp only [hprog, hwrite, Bool.not_true, Bool.false_eq_true, if_false, hfw]
      by_cases hlast : data.length = 0 ∨ c.fw.size ≤ (c.acceptChunk data).dl.received
      · exact Or.inr (Or.inr (Or.inr ⟨trivial, hcan, if_pos hlast⟩))
      · rw [not_or] at hlast
        obtain ⟨hdata, hsize⟩ := hlast
        refine Or.inr (Or.inr (Or.inl ⟨trivial, hcan, fun h => hdata (by rw [h]; rfl),
          Int32.not_le.mp hsize, ?_⟩))
        rw [if_neg (not_or.mpr ⟨hdata, hsize⟩)]
        rfl
    · refine Or.inr (Or.inl ⟨hprog, ?_⟩)
      simp only [hprog, hwrite, Bool.not_true, Bool.false_eq_true, if_false, Bool.not_false,
        if_true]
  · refine Or.inl ⟨by simpa using hprog, ?_⟩
    simp [hprog]

/-- A download that goes on after a message wrote it, as one more chunk. -/
theorem handleFwChunkData_goes_on {P : Platform} {c : Client} {o : Outcomes} {data : Bytes}
    (hhalt : (c.handleFwChunkData P o data).halt = none)
    (hbusy : (c.handleFwChunkData P o data).dl.inProgress = true) :
    c.dl.inProgress = true ∧ c.ota.canWrite c.dl.otaHandle P.partitionSize data = true ∧
      data ≠ [] ∧ c.handleFwChunkData P o data = (c.acceptChunk data).nextChunk := by
  rcases handleFwChunkData_cases P c o data with
    ⟨hidle, heq⟩ | ⟨-, heq⟩ | ⟨hprog, hcan, hne, -, heq⟩ | ⟨-, -, heq⟩
  · rw [heq] at hbusy
    exact absurd (hidle.symm.trans hbusy) (by decide)
  · rw [heq] at hhalt hbusy
    exact absurd ((finishFwUpdate_over hhalt).symm.trans hbusy) (by decide)
  · exact ⟨hprog, hcan, hne, heq⟩
  · rw [heq] at hhalt hbusy
    exact absurd ((finishFwUpdate_over hhalt).symm.trans hbusy) (by decide)

/-! ## What the download leaves alone -/

/-- The build, the running slot and the description are the same. -/
structure Keeps (c c' : Client) : Prop where
  build : c'.build = c.build
  slot : c'.slot = c.slot
  fw : c'.fw = c.fw

theorem finishFwUpdate_keeps (P : Platform) (c : Client) (o : Outcomes) (success : Bool) :
    Keeps c (c.finishFwUpdate P o success) := by
  rcases finishFwUpdate_cases P c o success with ⟨states, -, heq⟩ | ⟨-, -, slot, -, heq | heq⟩ <;>
    rw [heq] <;> exact ⟨rfl, rfl, rfl⟩

theorem handleFwChunkData_keeps (P : Platform) (c : Client) (o : Outcomes) (data : Bytes) :
    Keeps c (c.handleFwChunkData P o data) := by
  rcases handleFwChunkData_cases P c o data with
    ⟨-, heq⟩ | ⟨-, heq⟩ | ⟨-, -, -, -, heq⟩ | ⟨-, -, heq⟩
  · rw [heq]
    exact ⟨rfl, rfl, rfl⟩
  · rw [heq]
    exact finishFwUpdate_keeps P c o false
  · rw [heq]
    exact ⟨rfl, rfl, rfl⟩
  · rw [heq]
    obtain ⟨hbuild, hslot, hfw⟩ := finishFwUpdate_keeps P (c.acceptChunk data) o
      ((c.acceptChunk data).dl.received = c.fw.size)
    exact ⟨hbuild, hslot, hfw⟩

theorem startFwUpdate_keeps (c : Client) (o : Outcomes) : Keeps c (c.startFwUpdate o) := by
  rcases startFwUpdate_cases c o with ⟨-, p, payload, -, heq⟩ | ⟨-, heq⟩
  · rw [heq]
    exact ⟨rfl, rfl, rfl⟩
  · rw [heq, beginDownload_eq]
    exact ⟨rfl, rfl, rfl⟩

end Client

/-! ## One attribute -/

section AtKey

variable {κ α : Type} [DecidableEq κ] {name key key' : κ}

/-- An update that is for one key. -/
def atKey (name key : κ) (update : α → α) (old : α) : α := if key = name then update old else old

theorem atKey_of_ne (h : key ≠ name) (update : α → α) (old : α) :
    atKey name key update old = old :=
  if_neg h

/-- Updates that come under different keys commute. -/
theorem atKey_comm (h : key ≠ key') (f g : α → α) (old : α) :
    atKey name key' g (atKey name key f old) = atKey name key f (atKey name key' g old) := by
  unfold atKey
  by_cases hkey : key = name
  · have hkey' : key' ≠ name := fun heq => h (hkey.trans heq.symm)
    rw [if_neg hkey', if_neg hkey']
  · rw [if_neg hkey, if_neg hkey]

end AtKey

/-- `strncpy` of a string attribute. -/
def setText (size : Nat) (value : CJson) (old : Bytes) : Bytes :=
  value.string?.elim old (strncpy size)

/-- A branch of `apply_shared_attribute` is for one key, and reaches one field,
or with `fw_size` two. -/
theorem applyFwAttribute_eq (fw : FwInfo) (key : Bytes) (value : CJson) :
    Client.applyFwAttribute fw key value =
      { title := atKey (ascii "fw_title") key (setText 64 value) fw.title
        version := atKey (ascii "fw_version") key (setText 32 value) fw.version
        checksum := atKey (ascii "fw_checksum") key (setText 65 value) fw.checksum
        checksumAlgorithm :=
          atKey (ascii "fw_checksum_algorithm") key (setText 16 value) fw.checksumAlgorithm
        size := atKey (ascii "fw_size") key (fun old => value.number?.getD old) fw.size
        infoKnown :=
          atKey (ascii "fw_size") key (fun old => value.number?.isSome || old) fw.infoKnown } := by
  by_cases htitle : key = ascii "fw_title"
  · subst htitle
    cases value <;> rfl
  by_cases hversion : key = ascii "fw_version"
  · subst hversion
    cases value <;> rfl
  by_cases hchecksum : key = ascii "fw_checksum"
  · subst hchecksum
    cases value <;> rfl
  by_cases halgorithm : key = ascii "fw_checksum_algorithm"
  · subst halgorithm
    cases value <;> rfl
  by_cases hsize : key = ascii "fw_size"
  · subst hsize
    cases value <;> rfl
  cases value <;> simp only [Client.applyFwAttribute, atKey, htitle, hversion, hchecksum,
    halgorithm, hsize, if_false]

/-- A string attribute fits its array. -/
theorem setText_length {name key old : Bytes} {size : Nat} (value : CJson)
    (h : old.length < size) : (atKey name key (setText size value) old).length < size := by
  unfold atKey setText
  split_ifs
  · cases value.string? with
    | none => exact h
    | some s =>
      have hle := List.length_take_le (size - 1) s
      show (strncpy size s).length < size
      unfold strncpy
      omega
  · exact h

namespace Client

/-! ## Attributes -/

/-- The attributes reach the publish interval, the firmware description, and
with a NULL key the end of the program, and nothing else. -/
theorem applyAttributes_frame (c : Client) (items : List (Option Bytes × CJson)) :
    ∃ interval fw halt, c.applyAttributes items =
      { c with publishIntervalMs := interval, fw := fw, halt := halt } := by
  induction items generalizing c with
  | nil => exact ⟨c.publishIntervalMs, c.fw, c.halt, rfl⟩
  | cons item items ih =>
    have hone : ∃ interval fw halt,
        (if c.halt.isSome then c else c.applySharedAttribute item.1 item.2) =
          { c with publishIntervalMs := interval, fw := fw, halt := halt } := by
      split_ifs
      · exact ⟨c.publishIntervalMs, c.fw, c.halt, rfl⟩
      · rcases item with ⟨_ | key, value⟩
        · exact ⟨c.publishIntervalMs, c.fw, some .fault, rfl⟩
        · exact ⟨applyInterval c.publishIntervalMs key value, applyFwAttribute c.fw key value,
            c.halt, rfl⟩
    obtain ⟨interval, fw, halt, hitem⟩ := hone
    rw [applyAttributes, List.foldl_cons, hitem]
    exact ih { c with publishIntervalMs := interval, fw := fw, halt := halt }

/-- What every attribute keeps of the description, the loop keeps. -/
theorem applyAttributes_fw {I : FwInfo → Prop} {c : Client}
    {items : List (Option Bytes × CJson)}
    (hkeep : ∀ key value, (some key, value) ∈ items → ∀ fw, I fw →
      I (applyFwAttribute fw key value)) (h : I c.fw) : I (c.applyAttributes items).fw := by
  induction items generalizing c with
  | nil => exact h
  | cons item items ih =>
    rw [applyAttributes, List.foldl_cons]
    refine ih (fun key value hmem => hkeep key value (List.mem_cons_of_mem _ hmem)) ?_
    split_ifs
    · exact h
    · rcases item with ⟨_ | key, value⟩
      · exact h
      · exact hkeep key value List.mem_cons_self c.fw h

@[simp] theorem applyAttributes_journal (c : Client) (items : List (Option Bytes × CJson)) :
    (c.applyAttributes items).journal = c.journal := by
  obtain ⟨interval, fw, halt, heq⟩ := applyAttributes_frame c items
  rw [heq]

@[simp] theorem applyAttributes_build (c : Client) (items : List (Option Bytes × CJson)) :
    (c.applyAttributes items).build = c.build := by
  obtain ⟨interval, fw, halt, heq⟩ := applyAttributes_frame c items
  rw [heq]

@[simp] theorem applyAttributes_dl (c : Client) (items : List (Option Bytes × CJson)) :
    (c.applyAttributes items).dl = c.dl := by
  obtain ⟨interval, fw, halt, heq⟩ := applyAttributes_frame c items
  rw [heq]

/-- What is done once all the attributes are in. -/
def offer (c : Client) (o : Outcomes) : Client :=
  if c.halt = none ∧ c.wantsUpdate = true then c.startFwUpdate o else c

theorem handleAttributesPayload_unparsed {P : Platform} {data : Bytes}
    (hparse : P.parse data = none) (c : Client) (o : Outcomes) :
    c.handleAttributesPayload P o data = c := by
  rw [handleAttributesPayload, hparse]

/-- The attributes of a document are applied, and then an update may start. -/
theorem handleAttributesPayload_eq {P : Platform} {data : Bytes} {root : CJson}
    (hparse : P.parse data = some root) (c : Client) (o : Outcomes) :
    c.handleAttributesPayload P o data =
      (c.applyAttributes (container root).children).offer o := by
  unfold handleAttributesPayload offer
  rw [hparse]
  show (if (c.applyAttributes (container root).children).halt.isSome then _ else _) = _
  cases hhalt : (c.applyAttributes (container root).children).halt with
  | none => simp
  | some halt => simp

/-- A client that wants an update has none in progress. -/
theorem idle_of_wantsUpdate {c : Client} (h : c.wantsUpdate = true) : c.dl.inProgress = false := by
  simp only [wantsUpdate, Bool.and_eq_true, Bool.not_eq_true'] at h
  exact h.1.1.2

end Client

/-! ## Steps -/

/-- The kinds of step. -/
inductive Step (P : Platform) (c : Client) : Label → Client → Prop
  /-- Only talk: no field of the download changes. -/
  | quiet {l : Label} {c' : Client} (es : List Effect) (htalk : ∀ e ∈ es, Talks e)
      (hbuild : c'.build = c.build) (hslot : c'.slot = c.slot) (hfw : c'.fw = c.fw)
      (hdl : c'.dl = c.dl) (hota : c'.ota = c.ota) (hjournal : c'.journal = c.journal.writes es) :
      Step P c l c'
  /-- Attributes that start nothing. -/
  | attributes {o : Outcomes} {topic payload : Bytes} {root : CJson}
      (htopic : startsWith topic fwTopicPrefix = false) (hparse : P.parse payload = some root)
      (hrpc : startsWith topic rpcRequestTopicPrefix = false) :
      Step P c (.event o (.data topic payload))
        (c.applyAttributes (Client.container root).children)
  /-- Attributes after which the client wants the firmware they describe. -/
  | offer {o : Outcomes} {topic payload : Bytes} {root : CJson}
      (htopic : startsWith topic fwTopicPrefix = false) (hparse : P.parse payload = some root)
      (hhalt : (c.applyAttributes (Client.container root).children).halt = none)
      (hwants : (c.applyAttributes (Client.container root).children).wantsUpdate = true)
      (hrpc : startsWith topic rpcRequestTopicPrefix = false) :
      Step P c (.event o (.data topic payload))
        ((c.applyAttributes (Client.container root).children).startFwUpdate o)
  /-- A firmware message. -/
  | chunk {o : Outcomes} {topic payload : Bytes} (htopic : startsWith topic fwTopicPrefix = true) :
      Step P c (.event o (.data topic payload)) (c.handleFwChunkData P o payload)

/-- A client that is not halted takes every event. -/
theorem next_event {P : Platform} {c : Client} (h : c.halt = none) (o : Outcomes) (e : Event) :
    c.next P (.event o e) = some (mqttEventHandler P c o e) := by
  simp only [Client.next, h, Option.isSome_none, Bool.false_eq_true, if_false]

private theorem step_rpc (P : Platform) (c : Client) (o : Outcomes) (topic payload : Bytes) :
    Step P c (.event o (.data topic payload)) (c.handleRpcRequest P o topic payload) := by
  have hnone : ∀ l, Step P c l c := fun _ => .quiet [] (by simp) rfl rfl rfl rfl rfl rfl
  have hone : ∀ l halt (replyTopic reply : Bytes),
      Step P c l { c with halt := halt, journal := c.journal.write (.publish replyTopic reply) } :=
    fun _ _ _ _ => .quiet [.publish _ _] (by simp [Talks]) rfl rfl rfl rfl rfl rfl
  unfold Client.handleRpcRequest
  split
  · exact hnone _
  · split
    · exact hnone _
    · split_ifs
      · exact hone _ c.halt _ _
      · exact hone _ (some .restart) _ _
      · exact hone _ c.halt _ _

private theorem step_attributes (P : Platform) (c : Client) (o : Outcomes) {topic payload : Bytes}
    (htopic : startsWith topic fwTopicPrefix = false)
    (hrpc : startsWith topic rpcRequestTopicPrefix = false) :
    Step P c (.event o (.data topic payload)) (c.handleAttributesPayload P o payload) := by
  cases hparse : P.parse payload with
  | none =>
    rw [Client.handleAttributesPayload_unparsed hparse]
    exact .quiet [] (by simp) rfl rfl rfl rfl rfl rfl
  | some root =>
    rw [Client.handleAttributesPayload_eq hparse, Client.offer]
    split_ifs with hoffer
    · exact .offer htopic hparse hoffer.1 hoffer.2 hrpc
    · exact .attributes htopic hparse hrpc

/-- Every step of the client is of one of the kinds. -/
theorem next_step {P : Platform} {c c' : Client} {l : Label} (h : c.next P l = some c') :
    c.halt = none ∧ Step P c l c' := by
  unfold Client.next at h
  split_ifs at h with hhalt
  refine ⟨by simpa using hhalt, ?_⟩
  cases l with
  | telemetry =>
    cases h
    unfold Client.telemetry
    split_ifs
    · exact .quiet [_] (by simp [Talks]) rfl rfl rfl rfl rfl rfl
    · exact .quiet [] (by simp) rfl rfl rfl rfl rfl rfl
  | event o e =>
    cases h
    cases e with
    | connected =>
      exact .quiet (connectEffects c.build) (by simp [connectEffects, Talks]) rfl rfl rfl rfl rfl
        rfl
    | disconnected => exact .quiet [] (by simp) rfl rfl rfl rfl rfl rfl
    | other => exact .quiet [] (by simp) rfl rfl rfl rfl rfl rfl
    | data topic payload =>
      simp only [mqttEventHandler]
      split_ifs with hfw hrpc
      · exact .chunk hfw
      · exact step_rpc P c o topic payload
      · exact step_attributes P c o (by simpa using hfw) (by simpa using hrpc)

end Winegrid.ThingsBoard
