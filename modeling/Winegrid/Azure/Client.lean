import Winegrid.Lib.Machine
import Winegrid.Esp.Flash

/-!
# The Azure IoT Hub client

The hub side of `esp-idf-azure-dps/main/app_main.c`: direct methods, the
device twin, cloud-to-device messages, and the firmware update that a change
of the twin triggers.  The update runs in a task of its own, `ota_task`, beside
the MQTT events and `telemetry_task`.  A step of the task is one call that can
fail, with the reports, the NVS writes and the calls that free something up to
the next such call.

A `Client` holds the static variables of the file, the live tasks, the handles
with the log of what was acquired and released, and the journal.  `triggerCalls`
is a ghost: the arguments of every call of `trigger_ota`, in order.
-/

namespace Winegrid.Azure

open Esp

/-! ## Constants -/

def directMethodTopicFilter : Bytes := ascii "$iothub/methods/POST/#"
def directMethodTopicPrefix : Bytes := ascii "$iothub/methods/POST/"
def twinResTopicFilter : Bytes := ascii "$iothub/twin/res/#"
def twinResTopicPrefix : Bytes := ascii "$iothub/twin/res/"
def twinDesiredTopicFilter : Bytes := ascii "$iothub/twin/PATCH/properties/desired/#"
def twinDesiredTopicPrefix : Bytes := ascii "$iothub/twin/PATCH/properties/desired/"
def twinGetTopicPrefix : Bytes := ascii "$iothub/twin/GET/?$rid="
def twinReportedTopicPrefix : Bytes := ascii "$iothub/twin/PATCH/properties/reported/?$rid="
def minPublishIntervalMs : Int32 := 1000
def telemetryPublishIntervalMsDefault : Int32 := 60000

/-- The size of the read buffer of `ota_task`. -/
def readBufSize : Nat := 1024

/-! ## State -/

/-- Where a live `ota_task` is: the call it makes next. -/
inductive TaskPc where
  | httpInit
  | httpOpen
  | otaBegin
  | savePending
  | read
  | cleanup (downloadOk : Bool)
  | otaEnd
  | setBoot
  | restart
  | done
  deriving DecidableEq

structure Task where
  pc : TaskPc
  arg : Bytes
  argId : Nat
  url : Bytes
  newVersion : Bytes
  http : Nat
  updateHandle : Nat
  updatePartition : Slot
  deriving DecidableEq

/-- Why nothing runs any more. -/
inductive Halt where
  | restart
  deriving DecidableEq

structure Client where
  build : Build
  slot : Slot
  hubConnected : Bool
  publishIntervalMs : Int32
  twinRequestId : Int32
  fakeTemperature : Int32
  waitedMs : Int32
  c2dForceTelemetry : Bool
  hubTelemetryTopic : Bytes
  c2dTopicPrefix : Bytes
  otaInProgress : Bool
  tasks : List Task
  ota : Ota
  http : Handles
  args : Handles
  triggerCalls : List (Bytes × Bytes)
  halt : Option Halt
  journal : Log

/-- What the calls of one event answer.  `rssi` is 0 when there is no access
point. -/
structure Outcomes where
  rssi : Int8
  freeHeap : UInt32
  taskCreate : Bool
  deriving DecidableEq

/-- What the calls of one step of `ota_task` answer.  `read` is `none` for a
negative result. -/
structure TaskOutcomes where
  httpInit : Bool
  httpOpen : Bool
  otaBegin : Bool
  read : Option Bytes
  complete : Bool
  otaWrite : Bool
  otaEnd : Bool
  setBoot : Bool
  deriving DecidableEq

/-! ## Messages -/

inductive FwState where
  | downloading
  | verified
  | updated
  | failed
  deriving DecidableEq

def FwState.text : FwState → Bytes
  | downloading => ascii "DOWNLOADING"
  | verified => ascii "VERIFIED"
  | updated => ascii "UPDATED"
  | failed => ascii "FAILED"

def fwStatePayload (state : FwState) : Bytes :=
  snprintf 64 (ascii "\x7b\"fw_state\":\"" ++ state.text ++ ascii "\"\x7d")

def reportedTopic (requestId : Int32) : Bytes :=
  snprintf 64 (twinReportedTopicPrefix ++ dec requestId.toInt)

def getTopic (requestId : Int32) : Bytes := snprintf 48 (twinGetTopicPrefix ++ dec requestId.toInt)

def twinPayload (build : Build) (interval : Int32) (o : Outcomes) : Bytes :=
  snprintf 224 (ascii "\x7b\"current_fw_title\":\"" ++ build.title ++
    ascii "\",\"current_fw_version\":\"" ++ build.version ++ ascii "\",\"publishInterval\":" ++
    dec interval.toInt ++ ascii ",\"wifiRssi\":" ++ dec o.rssi.toInt ++ ascii ",\"freeHeap\":" ++
    dec o.freeHeap.toNat ++ ascii "\x7d")

def statusPayload (temperature : Int32) (freeHeap : UInt32) : Bytes :=
  snprintf 128 (ascii "\x7b\"temperature\":" ++ dec temperature.toInt ++ ascii ",\"freeHeap\":" ++
    dec freeHeap.toNat ++ ascii "\x7d")

namespace Client

def emit (c : Client) (e : Effect) : Client := { c with journal := c.journal.write e }

def reportTwinProperties (c : Client) (o : Outcomes) : Client :=
  let c := { c with twinRequestId := c.twinRequestId + 1 }
  c.emit (.publish (reportedTopic c.twinRequestId) (twinPayload c.build c.publishIntervalMs o))

def reportFwState (c : Client) (state : FwState) : Client :=
  let c := { c with twinRequestId := c.twinRequestId + 1 }
  c.emit (.publish (reportedTopic c.twinRequestId) (fwStatePayload state))

/-! ## The device twin -/

/-- The task argument: the url, a newline, the version. -/
def packArg (url newVersion : Bytes) : Bytes := url ++ 10 :: newVersion

def newTask (arg : Bytes) (argId : Nat) : Task := ⟨.httpInit, arg, argId, [], [], 0, 0, .ota0⟩

def triggerOta (c : Client) (o : Outcomes) (url newVersion : Bytes) : Client :=
  let c := { c with triggerCalls := c.triggerCalls ++ [(url, newVersion)] }
  if c.otaInProgress then c
  else if loadNvsStr c.journal.disk.nvs .failedFw 32 = some newVersion then c.reportFwState .failed
  else
    let args := c.args.alloc
    let c := { c with otaInProgress := true, args := args }
    if o.taskCreate then { c with tasks := c.tasks ++ [newTask (packArg url newVersion) args.last] }
    else c

/-- The pair that a document asks to be installed. -/
def fwOffer (build : Build) (desired : CJson) : Option (Bytes × Bytes) :=
  match (desired.getObjectItem (ascii "fw_version")).bind CJson.string?,
      (desired.getObjectItem (ascii "fw_url")).bind CJson.string? with
  | some version, some url => if version ≠ build.version then some (url, version) else none
  | _, _ => none

/-- The publish interval that a document sets. -/
def newInterval (desired : CJson) : Option Int32 :=
  match (desired.getObjectItem (ascii "publishInterval")).bind CJson.number? with
  | some interval => if interval < minPublishIntervalMs then none else some interval
  | none => none

def applyDesiredProperties (c : Client) (o : Outcomes) (desired : CJson) : Client :=
  let c := match fwOffer c.build desired with
    | some (url, version) => c.triggerOta o url version
    | none => c
  match newInterval desired with
  | some interval => { c with publishIntervalMs := interval }.reportTwinProperties o
  | none => c

/-! ## Direct methods -/

/-- The loop that copies the method name. -/
def methodName (afterPrefix : Bytes) : Bytes := (afterPrefix.takeWhile (· ≠ 47)).take 31

/-- The loop that looks for `$rid=`, and what follows it. -/
def requestId (afterPrefix : Bytes) : Option Bytes :=
  let start := (methodName afterPrefix).length
  ((List.range' start (afterPrefix.length - 5 - start)).find? fun i =>
    startsWith (afterPrefix.drop i) (ascii "$rid=")).map fun i => afterPrefix.drop (i + 5)

def handleDirectMethodRequest (c : Client) (o : Outcomes) (topic : Bytes) : Client :=
  let afterPrefix := topic.drop directMethodTopicPrefix.length
  -- `strcmp` and `%.*s` stop at a NUL byte.
  let name := (methodName afterPrefix).takeWhile (· ≠ 0)
  match (requestId afterPrefix).map fun rid => rid.takeWhile (· ≠ 0) with
  | none => c
  | some rid =>
    let responseTopic := snprintf 128 (ascii "$iothub/methods/res/200/?$rid=" ++ rid)
    if name = ascii "getStatus" then
      c.emit (.publish responseTopic (statusPayload c.fakeTemperature o.freeHeap))
    else if name = ascii "reboot" then
      { c.emit (.publish responseTopic (ascii "\x7b\"result\":\"rebooting\"\x7d")) with
        halt := some .restart }
    else c.emit (.publish (snprintf 128 (ascii "$iothub/methods/res/404/?$rid=" ++ rid))
      (ascii "\x7b\"error\":\"unknown method\"\x7d"))

/-! ## The update task -/

def setTask (c : Client) (i : Nat) (t : Task) : Client := { c with tasks := c.tasks.set i t }

/-- `goto done` after `FAILED` was reported and `pending_fw` erased. -/
def abandon (c : Client) (i : Nat) (t : Task) : Client :=
  ((c.reportFwState .failed).emit (.nvsErase .pendingFw)).setTask i { t with pc := .done }

/-- One step of the `i`-th task. -/
def taskStep (P : Platform) (c : Client) (i : Nat) (t : Task) (o : TaskOutcomes) : Client :=
  match t.pc with
  | .httpInit =>
    let url := t.arg.takeWhile (· ≠ 10)
    let t := { t with url := url, newVersion := (t.arg.drop (url.length + 1)).take 31 }
    if o.httpInit then
      let http := c.http.alloc
      { c with http := http }.setTask i { t with pc := .httpOpen, http := http.last }
    else (c.reportFwState .failed).setTask i { t with pc := .done }
  | .httpOpen =>
    if o.httpOpen then c.setTask i { t with pc := .otaBegin }
    else (c.reportFwState .failed).setTask i { t with pc := .done }
  | .otaBegin =>
    if o.otaBegin then
      let ota := c.ota.start c.slot.other
      ({ c with ota := ota }.emit (.otaBegin c.slot.other)).setTask i
        { t with
          pc := .savePending
          updateHandle := ota.lastHandle
          updatePartition := c.slot.other }
    else
      let c := { c with http := c.http.free t.http }
      (c.reportFwState .failed).setTask i { t with pc := .done }
  | .savePending =>
    ((c.emit (.nvsSet .pendingFw t.newVersion)).reportFwState .downloading).setTask i
      { t with pc := .read }
  | .read =>
    match o.read with
    | none => c.setTask i { t with pc := .cleanup false }
    | some [] => c.setTask i { t with pc := .cleanup o.complete }
    | some data =>
      if o.otaWrite && c.ota.canWrite t.updateHandle P.partitionSize data then
        { c.emit (.otaWrite t.updatePartition data) with ota := c.ota.append t.updateHandle data }
      else c.setTask i { t with pc := .cleanup false }
  | .cleanup downloadOk =>
    let c := { c with http := c.http.free t.http }
    if downloadOk then (c.reportFwState .verified).setTask i { t with pc := .otaEnd }
    else { c with ota := c.ota.release t.updateHandle }.abandon i t
  | .otaEnd =>
    let c := { c with ota := c.ota.release t.updateHandle }
    if o.otaEnd then c.setTask i { t with pc := .setBoot } else c.abandon i t
  | .setBoot =>
    let c := c.emit (.setBoot t.updatePartition
      (P.build (c.journal.disk.app t.updatePartition)).version o.setBoot)
    if o.setBoot then (c.reportFwState .updated).setTask i { t with pc := .restart }
    else c.abandon i t
  | .restart => { c with halt := some .restart }
  | .done =>
    { c with args := c.args.free t.argId, otaInProgress := false, tasks := c.tasks.eraseIdx i }

/-! ## Telemetry -/

/-- One turn of `telemetry_task`. -/
def telemetry (c : Client) : Client :=
  let c :=
    if c.hubConnected && (c.publishIntervalMs ≤ c.waitedMs || c.c2dForceTelemetry) then
      let temperature := 20 + (c.fakeTemperature + 1 - 20) % 10
      { c with
        c2dForceTelemetry := false
        fakeTemperature := temperature
        waitedMs := 0 }.emit (.publish c.hubTelemetryTopic
          (snprintf 64 (ascii "\x7b\"temperature\":" ++ dec temperature.toInt ++ ascii "\x7d")))
    else c
  { c with waitedMs := c.waitedMs + 200 }

end Client

/-! ## Events -/

inductive Event where
  | connected
  | disconnected
  | data (topic payload : Bytes)
  | other
  deriving DecidableEq

/-- `MQTT_EVENT_CONNECTED`. -/
def Client.connected (c : Client) (o : Outcomes) : Client :=
  let c := { c with
    hubConnected := true
    twinRequestId := c.twinRequestId + 1
    journal := c.journal.writes
      [ .subscribe directMethodTopicFilter
      , .subscribe twinResTopicFilter
      , .subscribe twinDesiredTopicFilter
      , .subscribe (snprintf 200 (c.c2dTopicPrefix ++ ascii "#"))
      , .publish (getTopic (c.twinRequestId + 1)) [] ] }
  c.reportTwinProperties o

def hubMqttEventHandler (P : Platform) (c : Client) (o : Outcomes) : Event → Client
  | .connected => c.connected o
  | .disconnected => { c with hubConnected := false }
  | .data topic payload =>
    if startsWith topic directMethodTopicPrefix then c.handleDirectMethodRequest o topic
    else if startsWith topic twinDesiredTopicPrefix then
      match P.parse payload with
      | some root => c.applyDesiredProperties o root
      | none => c
    else if startsWith topic twinResTopicPrefix then
      match (P.parse payload).bind fun root => root.getObjectItem (ascii "desired") with
      | some desired => c.applyDesiredProperties o desired
      | none => c
    else if startsWith topic c.c2dTopicPrefix then { c with c2dForceTelemetry := true }
    else c
  | .other => c

inductive Label where
  | event (o : Outcomes) (e : Event)
  | task (i : Nat) (o : TaskOutcomes)
  | telemetry

/-- A read answers at most what the buffer holds. -/
def TaskOutcomes.Fits (o : TaskOutcomes) : Prop :=
  ∀ data, o.read = some data → data.length ≤ readBufSize

instance (o : TaskOutcomes) : Decidable o.Fits :=
  match h : o.read with
  | none => .isTrue fun _ hd => by simp [h] at hd
  | some data =>
    if hlen : data.length ≤ readBufSize then
      .isTrue fun _ hd => by rw [h, Option.some_inj] at hd; exact hd ▸ hlen
    else .isFalse fun hfit => hlen (hfit data h)

def Client.next (P : Platform) (c : Client) (l : Label) : Option Client :=
  if c.halt.isSome then none
  else match l with
    | .event o e => some (hubMqttEventHandler P c o e)
    | .task i o =>
      match c.tasks[i]? with
      | some t => if o.Fits then some (c.taskStep P i t o) else none
      | none => none
    | .telemetry => some c.telemetry

/-- The static variables after `connect_to_hub`, over a journal. -/
def Client.fresh (build : Build) (slot : Slot) (deviceId : Bytes) (journal : Log) : Client :=
  { build := build
    slot := slot
    hubConnected := false
    publishIntervalMs := telemetryPublishIntervalMsDefault
    twinRequestId := 0
    fakeTemperature := 20
    waitedMs := 0
    c2dForceTelemetry := false
    hubTelemetryTopic := snprintf 192 (ascii "devices/" ++ deviceId ++
      ascii "/messages/events/$.ct=application%2Fjson&$.ce=utf-8")
    c2dTopicPrefix := snprintf 192 (ascii "devices/" ++ deviceId ++ ascii "/messages/devicebound/")
    otaInProgress := false
    tasks := []
    ota := ⟨[], 0, []⟩
    http := .empty
    args := .empty
    triggerCalls := []
    halt := none
    journal := journal }

/-- One boot, from `connect_to_hub` on. -/
def client (P : Platform) : Machine Client Label where
  init c := ∃ build slot deviceId journal, c = Client.fresh build slot deviceId journal
  next := Client.next P

/-- What a step can be: an event, one call of a live task, or a turn of
`telemetry_task`. -/
inductive Step (P : Platform) (c : Client) : Label → Client → Prop
  | event (o : Outcomes) (e : Event) : Step P c (.event o e) (hubMqttEventHandler P c o e)
  | task {i : Nat} {t : Task} {o : TaskOutcomes} (htask : c.tasks[i]? = some t)
      (hfits : o.Fits) : Step P c (.task i o) (c.taskStep P i t o)
  | telemetry : Step P c .telemetry c.telemetry

theorem next_step {P : Platform} {c c' : Client} {l : Label} (h : c.next P l = some c') :
    c.halt = none ∧ Step P c l c' := by
  unfold Client.next at h
  split at h
  · cases h
  · rename_i hhalt
    refine ⟨by simpa using hhalt, ?_⟩
    cases l with
    | event o e =>
      cases h
      exact .event o e
    | task i o =>
      simp only at h
      split at h
      · rename_i t htask
        split at h
        · rename_i hfits
          cases h
          exact .task htask hfits
        · cases h
      · cases h
    | telemetry =>
      cases h
      exact .telemetry

@[simp] theorem client_next (P : Platform) (c : Client) (l : Label) :
    (client P).next c l = c.next P l := rfl

end Winegrid.Azure
