import Winegrid.Lib.Machine
import Winegrid.Esp.Flash
import Mathlib.Tactic.SplitIfs

/-!
# Provisioning of the ESP-IDF client

`provisioning_event_handler` and `run_provisioning` of
`esp-idf-thingsboard/main/app_main.c`.  The MQTT task calls the handler while
the waiting loop runs, so a step is one event of that task or one statement of
the loop.  `handled` is a ghost: the payloads that the handler was called with.

* `returned_eq`: what `run_provisioning` returns is decided by these payloads.
-/

namespace Winegrid.ThingsBoard

open Esp

def provisionTopicRequest : Bytes := ascii "/provision/request"
def provisionTopicResponse : Bytes := ascii "/provision/response"
def provisioningTimeoutMs : Nat := 15000

/-- `esp_read_mac`, `CONFIG_TB_PROVISION_KEY` and
`CONFIG_TB_PROVISION_SECRET`. -/
structure Identity where
  mac : Bytes
  provisionKey : Bytes
  provisionSecret : Bytes

/-- `s_provisioning_done` and `s_provisioned_token`. -/
structure Provisioning where
  done : Bool
  token : Bytes
  deriving DecidableEq

inductive ProvisioningEvent where
  | connected
  | data (payload : Bytes)
  | other
  deriving DecidableEq

/-- The request for credentials. -/
def provisionPayload (id : Identity) : Bytes :=
  let deviceName := snprintf 48 (ascii "esp32-" ++ hexLower id.mac)
  snprintf 256 (ascii "\x7b\"deviceName\":\"" ++ deviceName ++
    ascii "\",\"provisionDeviceKey\":\"" ++ id.provisionKey ++
    ascii "\",\"provisionDeviceSecret\":\"" ++ id.provisionSecret ++ ascii "\"\x7d")

/-- The token that a response brings, if it is a success. -/
def issuedToken (P : Platform) (data : Bytes) : Option Bytes :=
  (P.parse data).bind fun root =>
    match (root.getObjectItem (ascii "status")).bind CJson.string?,
        (root.getObjectItem (ascii "credentialsValue")).bind CJson.string? with
    | some status, some value => if status = ascii "SUCCESS" then some (strncpy 64 value) else none
    | _, _ => none

/-- `provisioning_event_handler`, with what it sends. -/
def provisioningEventHandler (P : Platform) (id : Identity) (s : Provisioning) :
    ProvisioningEvent → Provisioning × List Effect
  | .connected =>
    (s, [ .subscribe provisionTopicResponse
        , .publish provisionTopicRequest (provisionPayload id) ])
  | .data payload => (⟨true, (issuedToken P payload).getD s.token⟩, [])
  | .other => (s, [])

/-! ## `run_provisioning` -/

inductive ProvisioningPc where
  | test (waitedMs : Nat)
  | sleep (waitedMs : Nat)
  | stop
  | returned (outToken : Option Bytes)
  deriving DecidableEq

structure ProvisioningRun where
  pc : ProvisioningPc
  vars : Provisioning
  sent : List Effect
  handled : List Bytes

namespace ProvisioningRun

/-- The next statement of `run_provisioning`. -/
def statement (s : ProvisioningRun) : Option ProvisioningRun :=
  match s.pc with
  | .test waitedMs =>
    some { s with
      pc := if !s.vars.done && waitedMs < provisioningTimeoutMs then .sleep waitedMs else .stop }
  | .sleep waitedMs => some { s with pc := .test (waitedMs + 200) }
  | .stop =>
    some { s with
      pc := .returned (if !s.vars.done || s.vars.token.length = 0 then none
        else some (strncpy 64 s.vars.token)) }
  | .returned _ => none

inductive Label where
  | statement
  /-- The MQTT task calls the handler. -/
  | event (e : ProvisioningEvent)

/-- The payload of a message. -/
def payload? : ProvisioningEvent → Option Bytes
  | .data payload => some payload
  | _ => none

def next (P : Platform) (id : Identity) (s : ProvisioningRun) : Label → Option ProvisioningRun
  | .statement => s.statement
  | .event e =>
    match s.pc with
    | .returned _ => none
    | _ =>
      let r := provisioningEventHandler P id s.vars e
      some { s with vars := r.1, sent := s.sent ++ r.2,
                    handled := s.handled ++ (payload? e).toList }

end ProvisioningRun

/-- One call of `run_provisioning`, from the start of its client on. -/
def provisioning (P : Platform) (id : Identity) :
    Machine ProvisioningRun ProvisioningRun.Label where
  init s := s = ⟨.test 0, ⟨false, []⟩, [], []⟩
  next := ProvisioningRun.next P id

/-! ## What is returned -/

variable {P : Platform} {id : Identity} {s t : ProvisioningRun}

/-- The token that the payloads leave behind. -/
def tokenAfter (P : Platform) (payloads : List Bytes) : Bytes :=
  payloads.foldl (fun token payload => (issuedToken P payload).getD token) []

theorem tokenAfter_concat (payloads : List Bytes) (payload : Bytes) :
    tokenAfter P (payloads ++ [payload]) =
      (issuedToken P payload).getD (tokenAfter P payloads) := by
  rw [tokenAfter, List.foldl_append]
  rfl

/-- What `run_provisioning` returns after the payloads. -/
def provisioned (P : Platform) (payloads : List Bytes) : Option Bytes :=
  if payloads = [] ∨ tokenAfter P payloads = [] then none
  else some (strncpy 64 (tokenAfter P payloads))

/-- The static variables are decided by the payloads, and so is what is
returned. -/
structure Handled (P : Platform) (s : ProvisioningRun) : Prop where
  done : s.vars.done = true ↔ s.handled ≠ []
  token : s.vars.token = tokenAfter P s.handled
  returned : ∀ r, s.pc = .returned r → r = provisioned P s.handled

theorem handled_statement (h : Handled P s) (hnext : s.statement = some t) : Handled P t := by
  obtain ⟨hdone, htoken, -⟩ := h
  unfold ProvisioningRun.statement at hnext
  rcases hpc : s.pc with w | w | _ | r <;> rw [hpc] at hnext <;> cases hnext
  · refine ⟨hdone, htoken, fun r hr => ?_⟩
    split_ifs at hr
  · exact ⟨hdone, htoken, fun r hr => nomatch hr⟩
  · refine ⟨hdone, htoken, fun r hr => ?_⟩
    simp only [ProvisioningPc.returned.injEq] at hr
    rw [← hr, provisioned, htoken]
    have hempty : s.handled = [] ↔ s.vars.done = false := by
      rw [← Bool.not_eq_true, hdone, not_not]
    simp only [hempty, Bool.or_eq_true, Bool.not_eq_true', decide_eq_true_eq,
      List.length_eq_zero_iff]

theorem handled_event (h : Handled P s) (e : ProvisioningEvent) (hrun : ∀ r, s.pc ≠ .returned r) :
    Handled P { s with
      vars := (provisioningEventHandler P id s.vars e).1
      sent := s.sent ++ (provisioningEventHandler P id s.vars e).2
      handled := s.handled ++ (ProvisioningRun.payload? e).toList } := by
  obtain ⟨hdone, htoken, -⟩ := h
  cases e with
  | connected | other =>
    refine ⟨?_, ?_, fun r hr => absurd hr (hrun r)⟩
    · simpa [provisioningEventHandler, ProvisioningRun.payload?] using hdone
    · simpa [provisioningEventHandler, ProvisioningRun.payload?] using htoken
  | data payload =>
    refine ⟨?_, ?_, fun r hr => absurd hr (hrun r)⟩
    · simp [provisioningEventHandler, ProvisioningRun.payload?]
    · show (issuedToken P payload).getD s.vars.token = tokenAfter P (s.handled ++ [payload])
      rw [tokenAfter_concat, htoken]

/-- What `run_provisioning` returns is decided by the payloads that were
handled. -/
theorem returned_eq (h : (provisioning P id).Reachable s) : Handled P s := by
  refine h.invariant (I := Handled P) ?_ ?_
  · rintro s rfl
    exact ⟨by simp, rfl, fun r hr => nomatch hr⟩
  · intro s l t _ hs _ hnext
    cases l with
    | statement => exact handled_statement hs hnext
    | event e =>
      simp only [provisioning, ProvisioningRun.next] at hnext
      split at hnext
      · cases hnext
      · rename_i hrun
        cases hnext
        exact handled_event hs e hrun

end Winegrid.ThingsBoard
