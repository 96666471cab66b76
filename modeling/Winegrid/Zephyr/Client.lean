import Winegrid.Lib.CString

/-!
# The Zephyr ThingsBoard client

The main phase of `thingsboard_mqtt.c`: the string extractor, the RPC
handler, the MQTT event handler and the telemetry publisher.

Zephyr's MQTT library keeps one number that matters here: how much of the
payload of the PUBLISH it is delivering is still unread (`remaining`).  A
read of `n` bytes answers between one byte and `min n remaining`; how many is
an input of the handler.
-/

namespace Winegrid.Zephyr

/-- `sizeof(payload_buf)`. -/
def payloadBufSize : Nat := 512

def rpcRequestTopicFilter : Bytes := ascii "v1/devices/me/rpc/request/+"
def rpcRequestTopicPrefix : Bytes := ascii "v1/devices/me/rpc/request/"
def telemetryTopic : Bytes := ascii "v1/devices/me/telemetry"

/-- What the client hands to the library. -/
inductive Sent where
  | subscribe (filter : Bytes)
  | publish (topic payload : Bytes)
  deriving DecidableEq

/-- The statics of the file, the unread part of the payload in delivery, and
what was sent.  `rebooted` is set by `sys_reboot`. -/
structure Client where
  payloadBuf : Bytes
  fakeTemperature : Int
  remaining : Bytes
  sent : List Sent
  rebooted : Bool
  deriving DecidableEq

/-! ## The string extractor -/

/-- The search loop of `json_extract_string` over the rest of the text: a
match needs at least one byte after the pattern. -/
def extractFrom (pattern : Bytes) (outSize : Nat) : Bytes → Option Bytes
  | [] => none
  | json@(_ :: rest) =>
    if json.length ≤ pattern.length then
      none
    else if startsWith json pattern then
      some (((json.drop pattern.length).takeWhile (· ≠ 34)).take (outSize - 1))
    else
      extractFrom pattern outSize rest

/-- `json_extract_string`: what it leaves in `out`, when it returns true.  The
pattern is `"key":"`, which fits its buffer for keys of up to 35 bytes. -/
def jsonExtractString (json key : Bytes) (outSize : Nat) : Option Bytes :=
  let pattern := [34] ++ key ++ ascii "\":\""
  if json.length ≤ pattern.length then none else extractFrom pattern outSize json

/-! ## The handlers -/

/-- `mqtt_publish`. -/
def Client.mqttPublish (c : Client) (topic payload : Bytes) : Client :=
  { c with sent := c.sent ++ [.publish topic payload] }

/-- `handle_rpc_request`.  `method` is a C string, so a NUL ends it. -/
def handleRpcRequest (uptimeMs : Nat) (topic data : Bytes) (c : Client) : Client :=
  let requestId := topic.drop rpcRequestTopicPrefix.length
  let responseTopic := snprintf 64 (ascii "v1/devices/me/rpc/response/" ++ requestId)
  match jsonExtractString data (ascii "method") 32 with
  | none => c
  | some out =>
    let method := out.takeWhile (· ≠ 0)
    if method = ascii "getStatus" then
      c.mqttPublish responseTopic <| snprintf 128 <|
        ascii "\x7b\"temperature\":" ++ dec c.fakeTemperature ++
          ascii ",\"uptimeMs\":" ++ dec uptimeMs ++ ascii "\x7d"
    else if method = ascii "reboot" then
      { c.mqttPublish responseTopic (ascii "\x7b\"result\":\"rebooting\"\x7d") with
        rebooted := true }
    else
      c.mqttPublish responseTopic (ascii "\x7b\"error\":\"unknown method\"\x7d")

/-- `mqtt_read_publish_payload(client, payload_buf, len)` that read `k` bytes. -/
def Client.readPublishPayload (c : Client) (k : Nat) : Client :=
  { c with
    payloadBuf := c.remaining.take k ++ c.payloadBuf.drop k
    remaining := c.remaining.drop k }

/-- The events of the MQTT library. -/
inductive Evt where
  | connack (result : Int)
  | publish (topic : Bytes) (payloadLen : Nat)
  | disconnect
  | other

/-- The length that `main_evt_handler` asks for: at most what the buffer
holds beside a NUL. -/
def readLen (payloadLen : Nat) : Nat := min payloadLen (payloadBufSize - 1)

/-- `main_evt_handler`; `k` is how many bytes its one read answers.  The
number is not looked at: the handler goes on with the length it asked for. -/
def mainEvtHandler (uptimeMs : Nat) (evt : Evt) (k : Nat) (c : Client) : Client :=
  match evt with
  | .connack result =>
    if result ≠ 0 then c
    else { c with sent := c.sent ++ [.subscribe rpcRequestTopicFilter] }
  | .publish topic payloadLen =>
    let len := readLen payloadLen
    let c := c.readPublishPayload k
    let c := { c with payloadBuf := c.payloadBuf.set len 0 }
    if startsWith topic rpcRequestTopicPrefix then
      handleRpcRequest uptimeMs topic (c.payloadBuf.take len) c
    else c
  | .disconnect => c
  | .other => c

/-- `publish_telemetry`. -/
def publishTelemetry (c : Client) : Client :=
  let c := { c with fakeTemperature := 20 + Int.tmod (c.fakeTemperature + 1 - 20) 10 }
  c.mqttPublish telemetryTopic <| snprintf 64 <|
    ascii "\x7b\"temperature\":" ++ dec c.fakeTemperature ++ ascii "\x7d"

/-! ## What the handlers leave alone -/

/-- Answering an RPC reads nothing more of the payload. -/
@[simp] theorem handleRpcRequest_remaining (uptimeMs : Nat) (topic data : Bytes) (c : Client) :
    (handleRpcRequest uptimeMs topic data c).remaining = c.remaining := by
  simp only [handleRpcRequest]
  split
  · rfl
  · split_ifs <;> rfl

/-- The handler of a PUBLISH consumes what its one read answers, whatever the
topic. -/
theorem mainEvtHandler_remaining (uptimeMs : Nat) (topic : Bytes) (len k : Nat) (c : Client) :
    (mainEvtHandler uptimeMs (.publish topic len) k c).remaining = c.remaining.drop k := by
  simp only [mainEvtHandler]
  split_ifs
  · rw [handleRpcRequest_remaining]
    rfl
  · rfl

@[simp] theorem publishTelemetry_remaining (c : Client) :
    (publishTelemetry c).remaining = c.remaining := rfl

end Winegrid.Zephyr
