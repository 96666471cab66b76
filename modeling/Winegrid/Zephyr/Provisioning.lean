import Winegrid.Zephyr.Extract
import Winegrid.Zephyr.Inbound

/-!
# Provisioning of the Zephyr client

`provisioning_evt_handler` of `thingsboard_mqtt.c`: the request for
credentials at the CONNACK, and the answer to it.  It reads the answer into
the same `payload_buf` as the main phase, and like there the handler goes on
with the length it asked for.  `run_provisioning` waits for the first answer.
-/

namespace Winegrid.Zephyr

def provisionTopicRequest : Bytes := ascii "/provision/request"
def provisionTopicResponse : Bytes := ascii "/provision/response"

/-- `get_device_name`, `CONFIG_TB_PROVISION_KEY` and
`CONFIG_TB_PROVISION_SECRET`. -/
structure Identity where
  deviceName : Bytes
  provisionKey : Bytes
  provisionSecret : Bytes

/-- The client with `s_provisioning_done` and `s_provisioned_token`. -/
structure Provisioning where
  client : Client
  done : Bool
  token : Bytes
  deriving DecidableEq

/-- The request for credentials. -/
def provisionPayload (id : Identity) : Bytes :=
  snprintf 256 (ascii "\x7b\"deviceName\":\"" ++ id.deviceName ++
    ascii "\",\"provisionDeviceKey\":\"" ++ id.provisionKey ++
    ascii "\",\"provisionDeviceSecret\":\"" ++ id.provisionSecret ++ ascii "\"\x7d")

/-- `mqtt_read_publish_payload` that read `k` bytes, and the NUL at `len`. -/
def Client.receive (c : Client) (len k : Nat) : Client :=
  let c := c.readPublishPayload k
  { c with payloadBuf := c.payloadBuf.set len 0 }

/-- The token that an answer brings, if it is a success.  `status` is compared
as a C string. -/
def issuedToken (data : Bytes) : Option Bytes :=
  match jsonExtractString data (ascii "status") 32 with
  | none => none
  | some status =>
    if status.takeWhile (· ≠ 0) = ascii "SUCCESS" then
      jsonExtractString data (ascii "credentialsValue") 64
    else none

/-- `provisioning_evt_handler`. -/
def provisioningEvtHandler (id : Identity) (evt : Evt) (k : Nat) (p : Provisioning) :
    Provisioning :=
  match evt with
  | .connack result =>
    if result ≠ 0 then { p with done := true }
    else
      { p with client := { p.client with sent := p.client.sent ++
        [ .subscribe provisionTopicResponse
        , .publish provisionTopicRequest (provisionPayload id) ] } }
  | .publish _ payloadLen =>
    let len := readLen payloadLen
    let c := p.client.receive len k
    { client := c
      done := true
      token := (issuedToken (c.payloadBuf.take len)).getD p.token }
  | .disconnect => p
  | .other => p

/-! ## The two handlers of a PUBLISH -/

/-- What a handler of a PUBLISH looks at. -/
def Client.received (c : Client) (payloadLen k : Nat) : Bytes :=
  (c.receive (readLen payloadLen) k).payloadBuf.take (readLen payloadLen)

/-- The main phase looks at the topic first, and then at these bytes. -/
theorem mainEvtHandler_publish (uptimeMs : Nat) (topic : Bytes) (payloadLen k : Nat)
    (c : Client) :
    mainEvtHandler uptimeMs (.publish topic payloadLen) k c =
      if startsWith topic rpcRequestTopicPrefix then
        handleRpcRequest uptimeMs topic (c.received payloadLen k)
          (c.receive (readLen payloadLen) k)
      else c.receive (readLen payloadLen) k := rfl

theorem provisioningEvtHandler_publish (id : Identity) (topic : Bytes) (payloadLen k : Nat)
    (p : Provisioning) :
    provisioningEvtHandler id (.publish topic payloadLen) k p =
      { client := p.client.receive (readLen payloadLen) k
        done := true
        token := (issuedToken (p.client.received payloadLen k)).getD p.token } := rfl

/-! ## `run_provisioning` -/

/-- What a turn of the waiting loop delivers; the read of an answer reads `k`
bytes. -/
inductive Turn where
  | idle
  | connack (result : Int)
  | answer (p : Packet) (k : Nat)
  | disconnect

def Provisioning.turn (id : Identity) (p : Provisioning) : Turn → Provisioning
  | .idle => p
  | .connack result => provisioningEvtHandler id (.connack result) 0 p
  | .answer packet k =>
    provisioningEvtHandler id (.publish packet.topic packet.payload.length) k
      { p with client := { p.client with remaining := packet.payload } }
  | .disconnect => provisioningEvtHandler id .disconnect 0 p

/-- The waiting loop, over the turns up to its deadline. -/
def provisioningLoop (id : Identity) : List Turn → Provisioning → Provisioning
  | [], p => p
  | turn :: turns, p => if p.done then p else provisioningLoop id turns (p.turn id turn)

/-- `run_provisioning`: the token that it leaves in `out_token`, when it
returns true.  `connects` tells whether `mqtt_connect` succeeds. -/
def runProvisioning (id : Identity) (connects : Bool) (turns : List Turn) (p : Provisioning) :
    Option Bytes :=
  if !connects then none
  else
    let p := provisioningLoop id turns { p with done := false }
    let token := p.token.takeWhile (· ≠ 0)
    if !p.done || token.length = 0 then none else some (strncpy 64 token)

/-- The statics at the start of a boot. -/
def Provisioning.start : Provisioning :=
  ⟨⟨List.replicate payloadBufSize 0, 20, [], [], false⟩, false, []⟩

/-- A turn that delivers neither an answer nor a refusal. -/
def Turn.Waits : Turn → Prop
  | .connack result => result = 0
  | .answer _ _ => False
  | _ => True

/-- Such a turn leaves the buffer, the flag and the token alone. -/
theorem turn_waits {turn : Turn} (id : Identity) (p : Provisioning) (h : turn.Waits) :
    (p.turn id turn).client.payloadBuf = p.client.payloadBuf ∧
      (p.turn id turn).done = p.done ∧ (p.turn id turn).token = p.token := by
  cases turn with
  | idle | disconnect => exact ⟨rfl, rfl, rfl⟩
  | answer => exact False.elim h
  | connack result =>
    have hzero : result = 0 := h
    subst hzero
    exact ⟨rfl, rfl, rfl⟩

end Winegrid.Zephyr
