import Winegrid.Lib.Machine
import Winegrid.Esp.Flash

/-!
# The ThingsBoard client

The MQTT side of `esp-idf-thingsboard/main/app_main.c`: shared attributes,
RPC, and the firmware download that pulls one chunk at a time into the
inactive slot.  A `Client` holds the static variables of the file, the open
OTA handles, and the journal.  Every function of the source is a function on
`Client` that writes its effects to the journal, and what the libraries answer
comes in as `Outcomes`.

`client P` is the machine of one boot: it starts where `mqtt_app_start` does,
over any flash, and takes one MQTT event or one turn of `telemetry_task` a
step.  A halted client, one that called `esp_restart` or faulted, takes none.
-/

namespace Winegrid.ThingsBoard

open Esp

/-! ## Constants -/

def telemetryTopic : Bytes := ascii "v1/devices/me/telemetry"
def attributesTopic : Bytes := ascii "v1/devices/me/attributes"
def attributesRequestTopic : Bytes := ascii "v1/devices/me/attributes/request/1"
def attributesResponseTopic : Bytes := ascii "v1/devices/me/attributes/response/+"
def fwResponseTopicFilter : Bytes := ascii "v2/fw/response/+/chunk/+"
def rpcRequestTopicFilter : Bytes := ascii "v1/devices/me/rpc/request/+"
def rpcRequestTopicPrefix : Bytes := ascii "v1/devices/me/rpc/request/"
def fwTopicPrefix : Bytes := ascii "v2/fw/"
def defaultPublishIntervalMs : Int32 := 10000
def fwChunkSize : Nat := 4096

/-! ## State -/

/-- `s_fw_title`, `s_fw_version`, `s_fw_checksum`, `s_fw_checksum_algorithm`,
`s_fw_size` and `s_fw_info_known`. -/
structure FwInfo where
  title : Bytes
  version : Bytes
  checksum : Bytes
  checksumAlgorithm : Bytes
  size : Int32
  infoKnown : Bool
  deriving DecidableEq

/-- `s_fw_update_in_progress`, `s_fw_request_id`, `s_fw_chunk_index`,
`s_fw_received`, `s_ota_handle`, `s_update_partition`, and the bytes fed to
`s_sha_ctx` since it was started. -/
structure Download where
  inProgress : Bool
  requestId : Int32
  chunkIndex : Int32
  received : Int32
  otaHandle : Nat
  updatePartition : Option Slot
  shaCtx : Bytes
  deriving DecidableEq

/-- Why the client takes no further event. -/
inductive Halt where
  | restart
  | fault
  deriving DecidableEq

structure Client where
  build : Build
  slot : Slot
  mqttConnected : Bool
  publishIntervalMs : Int32
  fakeTemperature : Int32
  fw : FwInfo
  dl : Download
  ota : Ota
  halt : Option Halt
  journal : Log

/-- What the calls of one event answer. -/
structure Outcomes where
  partition : Bool
  otaBegin : Bool
  otaWrite : Bool
  otaEnd : Bool
  setBoot : Bool
  freeHeap : UInt32
  deriving DecidableEq

/-! ## Messages -/

inductive FwState where
  | downloading
  | downloaded
  | verified
  | updating
  | updated
  | failed
  deriving DecidableEq

def FwState.text : FwState → Bytes
  | downloading => ascii "DOWNLOADING"
  | downloaded => ascii "DOWNLOADED"
  | verified => ascii "VERIFIED"
  | updating => ascii "UPDATING"
  | updated => ascii "UPDATED"
  | failed => ascii "FAILED"

def fwStatePayload (state : FwState) : Bytes :=
  snprintf 64 (ascii "\x7b\"fw_state\":\"" ++ state.text ++ ascii "\"\x7d")

def refusedPayload (version : Bytes) : Bytes :=
  snprintf 192 (ascii "\x7b\"fw_state\":\"FAILED\",\"fw_error\":\"Version " ++ version ++
    ascii " previously failed - refusing automatic retry\"\x7d")

def updatedPayload (title version : Bytes) : Bytes :=
  snprintf 256 (ascii "\x7b\"current_fw_title\":\"" ++ title ++
    ascii "\",\"current_fw_version\":\"" ++ version ++ ascii "\",\"fw_state\":\"UPDATED\"\x7d")

def currentFwPayload (build : Build) : Bytes :=
  snprintf 128 (ascii "\x7b\"current_fw_title\":\"" ++ build.title ++
    ascii "\",\"current_fw_version\":\"" ++ build.version ++ ascii "\"\x7d")

def requestTopic (requestId chunkIndex : Int32) : Bytes :=
  snprintf 64 (ascii "v2/fw/request/" ++ dec requestId.toInt ++ ascii "/chunk/" ++
    dec chunkIndex.toInt)

def chunkSizePayload : Bytes := snprintf 16 (dec fwChunkSize)

def statusPayload (temperature : Int32) (freeHeap : UInt32) : Bytes :=
  snprintf 128 (ascii "\x7b\"temperature\":" ++ dec temperature.toInt ++ ascii ",\"freeHeap\":" ++
    dec freeHeap.toNat ++ ascii "\x7d")

/-! ## The download -/

namespace Client

def emit (c : Client) (e : Effect) : Client := { c with journal := c.journal.write e }

def sendTelemetryJson (c : Client) (json : Bytes) : Client := c.emit (.publish telemetryTopic json)

def reportFwState (c : Client) (state : FwState) : Client :=
  c.sendTelemetryJson (fwStatePayload state)

def requestFwChunk (c : Client) : Client :=
  c.emit (.publish (requestTopic c.dl.requestId c.dl.chunkIndex) chunkSizePayload)

/-- `start_fw_update` from the successful `esp_ota_begin` on. -/
def beginDownload (c : Client) (slot : Slot) : Client :=
  let ota := c.ota.start slot
  let c := { c with ota := ota, dl := { c.dl with otaHandle := ota.lastHandle, shaCtx := [] } }
  let c := (c.emit (.otaBegin slot)).emit (.nvsSet .pendingFw c.fw.version)
  let c := { c with dl := { c.dl with
    inProgress := true
    received := 0
    chunkIndex := 0
    requestId := c.dl.requestId + 1 } }
  (c.reportFwState .downloading).requestFwChunk

def startFwUpdate (c : Client) (o : Outcomes) : Client :=
  if loadNvsStr c.journal.disk.nvs .failedFw 32 = some c.fw.version then
    c.sendTelemetryJson (refusedPayload c.fw.version)
  else if !o.partition then
    { c with dl := { c.dl with updatePartition := none } }.reportFwState .failed
  else
    let c := { c with dl := { c.dl with updatePartition := some c.slot.other } }
    if !o.otaBegin then c.reportFwState .failed else c.beginDownload c.slot.other

/-- The failed ends of `finish_fw_update`. -/
def failFwUpdate (c : Client) : Client :=
  let c := c.reportFwState .failed
  { c with dl := { c.dl with inProgress := false } }

/-- `esp_ota_end` or `esp_ota_abort` on `s_ota_handle`. -/
def releaseHandle (c : Client) : Client := { c with ota := c.ota.release c.dl.otaHandle }

/-- `checksum_ok`. -/
def checksumOk (P : Platform) (fw : FwInfo) (bytes : Bytes) : Bool :=
  strcaseeq fw.checksumAlgorithm (ascii "SHA256") &&
    strcaseeq (hexLower (P.sha256 bytes)) fw.checksum

/-- `finish_fw_update` from `esp_ota_set_boot_partition` on. -/
def bootUpdate (P : Platform) (c : Client) (o : Outcomes) : Client :=
  match c.dl.updatePartition with
  | none => c.failFwUpdate
  | some slot =>
    let c := c.emit (.setBoot slot (P.build (c.journal.disk.app slot)).version o.setBoot)
    if !o.setBoot then c.failFwUpdate
    else { c.sendTelemetryJson (updatedPayload c.fw.title c.fw.version) with halt := some .restart }

def finishFwUpdate (P : Platform) (c : Client) (o : Outcomes) (success : Bool) : Client :=
  if !success then c.releaseHandle.failFwUpdate
  else
    let c := c.reportFwState .downloaded
    if !checksumOk P c.fw c.dl.shaCtx then c.releaseHandle.failFwUpdate
    else
      let c := (c.reportFwState .verified).releaseHandle
      if !o.otaEnd then c.failFwUpdate
      else (c.reportFwState .updating).bootUpdate P o

/-- A successful `esp_ota_write`, `mbedtls_sha256_update` and the counter. -/
def acceptChunk (c : Client) (data : Bytes) : Client :=
  let slot := (c.ota.find c.dl.otaHandle).elim c.slot.other OtaHandle.slot
  { c.emit (.otaWrite slot data) with
    ota := c.ota.append c.dl.otaHandle data
    dl := { c.dl with
      shaCtx := c.dl.shaCtx ++ data
      received := c.dl.received + Int32.ofNat data.length } }

def handleFwChunkData (P : Platform) (c : Client) (o : Outcomes) (data : Bytes) : Client :=
  if !c.dl.inProgress then c
  else if !(o.otaWrite && c.ota.canWrite c.dl.otaHandle P.partitionSize data) then
    c.finishFwUpdate P o false
  else
    let c := c.acceptChunk data
    if data.length = 0 ∨ c.fw.size ≤ c.dl.received then
      c.finishFwUpdate P o (c.dl.received = c.fw.size)
    else { c with dl := { c.dl with chunkIndex := c.dl.chunkIndex + 1 } }.requestFwChunk

/-! ## Attributes -/

/-- The `fw_*` branches of `apply_shared_attribute`. -/
def applyFwAttribute (fw : FwInfo) (key : Bytes) (value : CJson) : FwInfo :=
  match value with
  | .string s =>
    if key = ascii "fw_title" then { fw with title := strncpy 64 s }
    else if key = ascii "fw_version" then { fw with version := strncpy 32 s }
    else if key = ascii "fw_checksum" then { fw with checksum := strncpy 65 s }
    else if key = ascii "fw_checksum_algorithm" then { fw with checksumAlgorithm := strncpy 16 s }
    else fw
  | .number n =>
    if key = ascii "fw_size" then { fw with size := n, infoKnown := true } else fw
  | _ => fw

/-- The `publishInterval` branch of `apply_shared_attribute`. -/
def applyInterval (interval : Int32) (key : Bytes) (value : CJson) : Int32 :=
  match value with
  | .number n => if key = ascii "publishInterval" ∧ 1000 ≤ n then n else interval
  | _ => interval

/-- `apply_shared_attribute`.  A NULL key faults in `strcmp`. -/
def applySharedAttribute (c : Client) (key : Option Bytes) (value : CJson) : Client :=
  match key with
  | none => { c with halt := some .fault }
  | some key =>
    { c with
      publishIntervalMs := applyInterval c.publishIntervalMs key value
      fw := applyFwAttribute c.fw key value }

/-- The loop of `handle_attributes_payload`. -/
def applyAttributes (c : Client) (items : List (Option Bytes × CJson)) : Client :=
  items.foldl (fun c item => if c.halt.isSome then c else c.applySharedAttribute item.1 item.2) c

/-- The object whose members are the attributes. -/
def container (root : CJson) : CJson := (root.getObjectItem (ascii "shared")).getD root

/-- The condition under which `handle_attributes_payload` starts a download. -/
def wantsUpdate (c : Client) : Bool :=
  c.fw.infoKnown && !c.dl.inProgress && c.fw.version.length > 0 && c.fw.version != c.build.version

def handleAttributesPayload (P : Platform) (c : Client) (o : Outcomes) (data : Bytes) : Client :=
  match P.parse data with
  | none => c
  | some root =>
    let c := c.applyAttributes (container root).children
    if c.halt.isSome then c
    else if c.wantsUpdate then c.startFwUpdate o else c

/-! ## RPC and telemetry -/

def handleRpcRequest (P : Platform) (c : Client) (o : Outcomes) (topic data : Bytes) : Client :=
  let responseTopic := snprintf 64 (ascii "v1/devices/me/rpc/response/" ++
    topic.drop rpcRequestTopicPrefix.length)
  match P.parse data with
  | none => c
  | some root =>
    match (root.getObjectItem (ascii "method")).bind CJson.string? with
    | none => c
    | some method =>
      if method = ascii "getStatus" then
        c.emit (.publish responseTopic (statusPayload c.fakeTemperature o.freeHeap))
      else if method = ascii "reboot" then
        { c.emit (.publish responseTopic (ascii "\x7b\"result\":\"rebooting\"\x7d")) with
          halt := some .restart }
      else c.emit (.publish responseTopic (ascii "\x7b\"error\":\"unknown method\"\x7d"))

/-- One turn of `telemetry_task`. -/
def telemetry (c : Client) : Client :=
  if c.mqttConnected then
    let temperature := 20 + (c.fakeTemperature + 1 - 20) % 10
    { c with fakeTemperature := temperature }.emit (.publish telemetryTopic
      (snprintf 64 (ascii "\x7b\"temperature\":" ++ dec temperature.toInt ++ ascii "\x7d")))
  else c

end Client

/-! ## Events -/

inductive Event where
  | connected
  | disconnected
  | data (topic payload : Bytes)
  | other
  deriving DecidableEq

/-- What `MQTT_EVENT_CONNECTED` sends. -/
def connectEffects (build : Build) : List Effect :=
  [ .publish telemetryTopic (ascii "\x7b\"active\":true\x7d")
  , .subscribe attributesTopic
  , .subscribe attributesResponseTopic
  , .subscribe fwResponseTopicFilter
  , .subscribe rpcRequestTopicFilter
  , .publish attributesRequestTopic (ascii ("\x7b\"sharedKeys\":\"publishInterval,fw_title," ++
      "fw_version,fw_size,fw_checksum,fw_checksum_algorithm\"\x7d"))
  , .publish telemetryTopic (currentFwPayload build) ]

def mqttEventHandler (P : Platform) (c : Client) (o : Outcomes) : Event → Client
  | .connected =>
    { c with mqttConnected := true, journal := c.journal.writes (connectEffects c.build) }
  | .disconnected => { c with mqttConnected := false }
  | .data topic payload =>
    if startsWith topic fwTopicPrefix then c.handleFwChunkData P o payload
    else if startsWith topic rpcRequestTopicPrefix then c.handleRpcRequest P o topic payload
    else c.handleAttributesPayload P o payload
  | .other => c

inductive Label where
  | event (o : Outcomes) (e : Event)
  | telemetry

def Client.next (P : Platform) (c : Client) (l : Label) : Option Client :=
  if c.halt.isSome then none
  else match l with
    | .event o e => some (mqttEventHandler P c o e)
    | .telemetry => some c.telemetry

/-- The static variables as `mqtt_app_start` finds them, over a journal. -/
def Client.fresh (build : Build) (slot : Slot) (journal : Log) : Client :=
  { build := build
    slot := slot
    mqttConnected := false
    publishIntervalMs := defaultPublishIntervalMs
    fakeTemperature := 20
    fw := ⟨[], [], [], [], 0, false⟩
    dl := ⟨false, 0, 0, 0, 0, none, []⟩
    ota := ⟨[], 0, []⟩
    halt := none
    journal := journal }

/-- One boot, from the start of the client. -/
def client (P : Platform) : Machine Client Label where
  init c := ∃ build slot journal, c = Client.fresh build slot journal
  next := Client.next P

@[simp] theorem client_next (P : Platform) (c : Client) (l : Label) :
    (client P).next c l = c.next P l := rfl

end Winegrid.ThingsBoard
