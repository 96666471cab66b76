import Winegrid.Lib.Machine
import Winegrid.Esp.Flash
import Mathlib.Tactic.SplitIfs

/-!
# The registration with DPS

The part of `app_main` that decides which hub the device connects to: the two
keys in NVS, and `run_dps_registration` when one of them is missing.  The MQTT
task calls `dps_mqtt_event_handler` while the waiting loop runs, so a step is
one event of that task or one statement of `app_main`.  The two meet in the
static variables, `Dps`.

`registration` is the machine of a device over any number of boots.  Power can
be lost in every phase, and takes the static variables with it.  A failing
`ESP_ERROR_CHECK` of `save_nvs_str` is such a loss.
-/

namespace Winegrid.Azure

open Esp

/-! ## The static variables -/

/-- `s_dps_done`, `s_dps_success`, `s_dps_request_id`, `s_dps_operation_id`,
`s_assigned_hub`, `s_device_id` and `s_dps_poll_pending`. -/
structure Dps where
  done : Bool
  success : Bool
  requestId : Int32
  operationId : Bytes
  assignedHub : Bytes
  deviceId : Bytes
  pollPending : Bool
  deriving DecidableEq

/-- The static variables at the start of a boot. -/
def Dps.zero : Dps := ⟨false, false, 0, [], [], [], false⟩

inductive DpsEvent where
  | connected
  | data (topic payload : Bytes)
  | other
  deriving DecidableEq

/-- What the device does in this part.  `handled` is a ghost: it tells which
message the handler was called with. -/
inductive Act where
  | boot
  | powerLoss
  | dpsStart
  | dpsStop
  | subscribe (filter : Bytes)
  | publish (topic payload : Bytes)
  | handled (topic payload : Bytes)
  | delay (ms : Nat)
  | nvsSet (key : NvsKey) (value : Bytes)
  | connectToHub (hub deviceId : Bytes)
  deriving DecidableEq

/-! ## The event handler -/

def dpsResTopicPrefix : Bytes := ascii "$dps/registrations/res/"

/-- The loop that copies the status code out of the topic. -/
def statusCode (topic : Bytes) : Bytes :=
  if startsWith topic dpsResTopicPrefix then
    ((topic.drop dpsResTopicPrefix.length).takeWhile (· ≠ 47)).take 7
  else []

/-- A string member of an object. -/
def stringItem (json : Option CJson) (name : String) : Option Bytes :=
  (json.bind fun json => json.getObjectItem (ascii name)).bind CJson.string?

/-- `strcmp(status->valuestring, "assigned") == 0`. -/
def isAssigned (root : CJson) : Bool := stringItem root "status" = some (ascii "assigned")

/-- The hub and the device id of a response, when both are strings. -/
def assignment (root : CJson) : Option (Bytes × Bytes) :=
  let regState := root.getObjectItem (ascii "registrationState")
  match stringItem regState "assignedHub", stringItem regState "deviceId" with
  | some hub, some deviceId => some (hub, deviceId)
  | _, _ => none

namespace Dps

def setOperationId (s : Dps) (root : CJson) : Dps :=
  match stringItem root "operationId" with
  | some operationId => { s with operationId := strncpy 128 operationId }
  | none => s

/-- The copies of an `assigned` response. -/
def setAssignment (s : Dps) (root : CJson) : Dps :=
  match assignment root with
  | some (hub, deviceId) =>
    { s with
      assignedHub := strncpy 128 hub
      deviceId := strncpy 128 deviceId
      success := true }
  | none => s

/-- `MQTT_EVENT_DATA`. -/
def data (P : Platform) (s : Dps) (topic payload : Bytes) : Dps :=
  match P.parse payload with
  | none => s
  | some root =>
    let s := s.setOperationId root
    if isAssigned root then { s.setAssignment root with done := true }
    else if (statusCode topic).takeWhile (· ≠ 0) = ascii "202" then { s with pollPending := true }
    else { s with done := true }

/-- `dps_mqtt_event_handler`, with what it sends. -/
def mqttEventHandler (P : Platform) (registrationId : Bytes) (s : Dps) : DpsEvent → Dps × List Act
  | .connected =>
    let s := { s with requestId := s.requestId + 1 }
    (s, [ .subscribe (ascii "$dps/registrations/res/#")
        , .publish (snprintf 96 (ascii "$dps/registrations/PUT/iotdps-register/?$rid=" ++
            dec s.requestId.toInt))
          (snprintf 96 (ascii "\x7b\"registrationId\":\"" ++ registrationId ++ ascii "\"\x7d")) ])
  | .data topic payload => (s.data P topic payload, [.handled topic payload])
  | .other => (s, [])

/-- The topic of the next poll. -/
def pollTopic (s : Dps) : Bytes :=
  snprintf 256 (ascii "$dps/registrations/GET/iotdps-get-operationstatus/?$rid=" ++
    dec s.requestId.toInt ++ ascii "&operationId=" ++ s.operationId)

end Dps

/-! ## `app_main` -/

def dpsTimeoutMs : Nat := 60000

/-- The statement that `app_main` runs next.  The phases from `test` to `stop`
are `run_dps_registration`, with its `waited_ms`. -/
inductive MainPc where
  | off
  | load
  | test (waitedMs : Nat)
  | check (waitedMs : Nat)
  | pollDelay (waitedMs : Nat)
  | poll (waitedMs : Nat)
  | sleep (waitedMs : Nat)
  | stop
  | copy
  | saveHub (hub deviceId : Bytes)
  | saveDeviceId (hub deviceId : Bytes)
  | connect (hub deviceId : Bytes)
  | connected
  | returned
  deriving DecidableEq

/-- The MQTT client of DPS is started and not yet stopped. -/
def MainPc.listens : MainPc → Bool
  | test _ | check _ | pollDelay _ | poll _ | sleep _ | stop => true
  | _ => false

structure Registration where
  nvs : Nvs
  dps : Dps
  phase : MainPc
  acts : List Act

namespace Registration

def go (s : Registration) (phase : MainPc) (acts : List Act) : Registration :=
  { s with phase := phase, acts := s.acts ++ acts }

/-- `save_nvs_str`. -/
def saveNvsStr (s : Registration) (key : NvsKey) (value : Bytes) : Registration :=
  { s with nvs := Function.update s.nvs key (some value), acts := s.acts ++ [.nvsSet key value] }

@[simp] theorem saveNvsStr_self (s : Registration) (key : NvsKey) (value : Bytes) :
    (s.saveNvsStr key value).nvs key = some value :=
  Function.update_self ..

@[simp] theorem go_nvs (s : Registration) (phase : MainPc) (acts : List Act) :
    (s.go phase acts).nvs = s.nvs := rfl

/-- The next statement of `app_main`; `sasToken` is what `build_sas_token`
answers in it. -/
def appMain (sasToken : Bool) (s : Registration) : Option Registration :=
  match s.phase with
  | .off | .connected | .returned => none
  | .load =>
    match loadNvsStr s.nvs .assignedHub 128, loadNvsStr s.nvs .deviceId 128 with
    | some hub, some deviceId => some (s.go (.connect hub deviceId) [])
    | _, _ => some (if sasToken then s.go (.test 0) [.dpsStart] else s.go .returned [])
  | .test waitedMs =>
    some (s.go (if !s.dps.done && waitedMs < dpsTimeoutMs then .check waitedMs else .stop) [])
  | .check waitedMs =>
    some (if s.dps.pollPending then
        { s with dps := { s.dps with pollPending := false } }.go (.pollDelay waitedMs) []
      else s.go (.sleep waitedMs) [])
  | .pollDelay waitedMs => some (s.go (.poll waitedMs) [.delay 2000])
  | .poll waitedMs =>
    let s := { s with dps := { s.dps with requestId := s.dps.requestId + 1 } }
    some (s.go (.sleep waitedMs) [.publish s.dps.pollTopic []])
  | .sleep waitedMs => some (s.go (.test (waitedMs + 200)) [.delay 200])
  | .stop => some (s.go .copy [.dpsStop])
  | .copy =>
    some (if !s.dps.done || !s.dps.success then s.go .returned []
      else s.go (.saveHub (strncpy 128 s.dps.assignedHub) (strncpy 128 s.dps.deviceId)) [])
  | .saveHub hub deviceId =>
    some ((s.saveNvsStr .assignedHub hub).go (.saveDeviceId hub deviceId) [])
  | .saveDeviceId hub deviceId =>
    some ((s.saveNvsStr .deviceId deviceId).go (.connect hub deviceId) [])
  | .connect hub deviceId => some (s.go .connected [.connectToHub hub deviceId])

inductive Label where
  /-- Power comes on, and `app_main` reaches the keys in NVS. -/
  | boot
  /-- The next statement of `app_main`. -/
  | main (sasToken : Bool)
  /-- The MQTT task calls the handler. -/
  | event (e : DpsEvent)
  | powerLoss

def next (P : Platform) (registrationId : Bytes) (s : Registration) : Label → Option Registration
  | .boot => if s.phase = .off then some ({ s with dps := .zero }.go .load [.boot]) else none
  | .main sasToken => s.appMain sasToken
  | .event e =>
    if s.phase.listens then
      let r := s.dps.mqttEventHandler P registrationId e
      some ({ s with dps := r.1 }.go s.phase r.2)
    else none
  | .powerLoss => if s.phase = .off then none else some (s.go .off [.powerLoss])

end Registration

/-- A device that was never registered: no device id is stored. -/
def registration (P : Platform) (registrationId : Bytes) :
    Machine Registration Registration.Label where
  init s := s.nvs .deviceId = none ∧ s.dps = .zero ∧ s.phase = .off ∧ s.acts = []
  next := Registration.next P registrationId

/-! ## What the handler does -/

/-- A response that assigns the pair. -/
def Assigns (P : Platform) (payload hub deviceId : Bytes) : Prop :=
  ∃ root, P.parse payload = some root ∧ isAssigned root = true ∧
    assignment root = some (hub, deviceId)

/-- A message leaves the pair and the success flag alone, or it sets all three
from the one assignment it holds. -/
theorem Dps.data_cases (P : Platform) (s : Dps) (topic payload : Bytes) :
    ((s.data P topic payload).assignedHub = s.assignedHub ∧
        (s.data P topic payload).deviceId = s.deviceId ∧
        (s.data P topic payload).success = s.success) ∨
      ∃ hub deviceId, Assigns P payload hub deviceId ∧
        (s.data P topic payload).assignedHub = strncpy 128 hub ∧
        (s.data P topic payload).deviceId = strncpy 128 deviceId := by
  have hop : ∀ root, (s.setOperationId root).assignedHub = s.assignedHub ∧
      (s.setOperationId root).deviceId = s.deviceId ∧
      (s.setOperationId root).success = s.success := by
    intro root
    unfold setOperationId
    split <;> exact ⟨rfl, rfl, rfl⟩
  rcases hparse : P.parse payload with _ | root
  · refine Or.inl ?_
    simp only [data, hparse]
    exact ⟨trivial, trivial, trivial⟩
  · by_cases hassigned : isAssigned root = true
    · rcases hpair : assignment root with _ | ⟨hub, deviceId⟩
      · refine Or.inl ?_
        have hkeep : (s.setOperationId root).setAssignment root = s.setOperationId root := by
          rw [setAssignment, hpair]
        simpa only [data, hparse, hassigned, hkeep, if_true] using hop root
      · refine Or.inr ⟨hub, deviceId, ⟨root, hparse, hassigned, hpair⟩, ?_⟩
        simp only [data, hparse, hassigned, setAssignment, hpair, if_true]
        exact ⟨trivial, trivial⟩
    · refine Or.inl ?_
      rw [Bool.not_eq_true] at hassigned
      simp only [data, hparse, hassigned, Bool.false_eq_true, if_false]
      split_ifs <;> exact hop root

end Winegrid.Azure
