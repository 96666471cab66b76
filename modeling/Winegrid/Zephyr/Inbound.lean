import Winegrid.Lib.Machine
import Winegrid.Zephyr.Client
import Mathlib.Tactic.SplitIfs

/-!
# Inbound packets of the Zephyr client

The loop of `thingsboard_run` as a machine.  Packets arrive on the socket at
any time; each turn of the loop calls `mqtt_input`, which refuses to read
anything (`-EBUSY`) while part of an earlier payload is unread, and otherwise
takes the next packet and calls `main_evt_handler`.

* `poll_consumed_iff` says exactly when one packet is read to its end.
* `inbound_never_wedges` is the run law: as long as every packet fits the
  buffer and is answered by one full read, the socket keeps moving.
* `wedged_forever` is the other side: once a byte is left, no later packet is
  ever handled.
-/

namespace Winegrid.Zephyr

structure Packet where
  topic : Bytes
  payload : Bytes
  deriving DecidableEq

/-- The client, and the packets that wait on the socket. -/
structure Sys where
  client : Client
  inbox : List Packet
  deriving DecidableEq

inductive Label where
  /-- A packet arrives on the socket. -/
  | arrive (p : Packet)
  /-- `mqtt_input` runs; the read of a payload it delivers answers `k` bytes. -/
  | poll (uptimeMs k : Nat)
  /-- `publish_telemetry` runs. -/
  | telemetry

/-- What `mqtt_read_publish_payload(buf, n)` may answer with `remaining` bytes
unread: at least one byte unless there is none to read, at most both bounds. -/
def ReadAllowed (n remaining k : Nat) : Prop :=
  k ≤ min n remaining ∧ (0 < min n remaining → 0 < k)

instance (n remaining k : Nat) : Decidable (ReadAllowed n remaining k) := by
  unfold ReadAllowed
  infer_instance

/-- `mqtt_input`: nothing while a payload is unread, else the next packet. -/
def mqttInput (uptimeMs k : Nat) (s : Sys) : Option Sys :=
  match s.client.remaining, s.inbox with
  | _ :: _, _ => some s
  | [], [] => some s
  | [], p :: rest =>
    if ReadAllowed (readLen p.payload.length) p.payload.length k then
      some {
        client := mainEvtHandler uptimeMs (.publish p.topic p.payload.length) k
          { s.client with remaining := p.payload }
        inbox := rest }
    else none

def Sys.next (s : Sys) (l : Label) : Option Sys :=
  if s.client.rebooted then none
  else match l with
    | .arrive p => some { s with inbox := s.inbox ++ [p] }
    | .poll uptimeMs k => mqttInput uptimeMs k s
    | .telemetry => some { s with client := publishTelemetry s.client }

/-- The main loop, entered with a fresh connection. -/
def mainLoop : Machine Sys Label where
  init s := s.client.remaining = [] ∧ s.inbox = [] ∧ s.client.rebooted = false
  next := Sys.next

theorem next_poll {s : Sys} (h : s.client.rebooted = false) (uptimeMs k : Nat) :
    mainLoop.next s (.poll uptimeMs k) = mqttInput uptimeMs k s := by
  simp only [mainLoop, Sys.next, h, Bool.false_eq_true, if_false]

/-- The packet fits the buffer, and its one read answers all of it. -/
def ReadsWhole (p : Packet) (k : Nat) : Prop :=
  p.payload.length ≤ payloadBufSize - 1 ∧ k = p.payload.length

/-- The packet that `mqtt_input` delivers, if any, is read whole. -/
def PollsWhole (s : Sys) : Label → Prop
  | .poll _ k => ∀ p rest, s.client.remaining = [] → s.inbox = p :: rest → ReadsWhole p k
  | _ => True

/-- What is unread after a packet was delivered. -/
theorem mqttInput_cons {uptimeMs k : Nat} {s t : Sys} {p : Packet} {rest : List Packet}
    (hrem : s.client.remaining = []) (hbox : s.inbox = p :: rest)
    (h : mqttInput uptimeMs k s = some t) :
    ReadAllowed (readLen p.payload.length) p.payload.length k ∧
      t.inbox = rest ∧ t.client.remaining = p.payload.drop k := by
  simp only [mqttInput, hrem, hbox] at h
  split_ifs at h with hk
  cases h
  exact ⟨hk, rfl, mainEvtHandler_remaining _ _ _ _ _⟩

/-- Any allowed read delivers the next packet. -/
theorem mqttInput_deliver {uptimeMs k : Nat} {s : Sys} {p : Packet} {rest : List Packet}
    (hrem : s.client.remaining = []) (hbox : s.inbox = p :: rest)
    (hk : ReadAllowed (readLen p.payload.length) p.payload.length k) :
    ∃ t, mqttInput uptimeMs k s = some t := by
  simp only [mqttInput, hrem, hbox, if_pos hk, Option.some.injEq, exists_eq']

/-- A packet is read to its end if and only if it fits the buffer and the one
read answers all of it. -/
theorem poll_consumed_iff {uptimeMs k : Nat} {s t : Sys} {p : Packet} {rest : List Packet}
    (hrem : s.client.remaining = []) (hbox : s.inbox = p :: rest)
    (h : mqttInput uptimeMs k s = some t) :
    t.client.remaining = [] ↔ ReadsWhole p k := by
  obtain ⟨hk, -, hleft⟩ := mqttInput_cons hrem hbox h
  have hlen : k ≤ readLen p.payload.length := Nat.le_trans hk.1 (Nat.min_le_left _ _)
  rw [hleft, List.drop_eq_nil_iff]
  simp only [readLen, payloadBufSize, ReadsWhole] at *
  omega

/-- With nothing to deliver, `mqtt_input` changes nothing. -/
theorem mqttInput_idle {uptimeMs k : Nat} {s t : Sys}
    (hidle : s.client.remaining ≠ [] ∨ s.inbox = [])
    (h : mqttInput uptimeMs k s = some t) : t = s := by
  rcases hrem : s.client.remaining with _ | ⟨b, bs⟩
  · rcases hbox : s.inbox with _ | ⟨p, rest⟩
    · simp only [mqttInput, hrem, hbox, Option.some.injEq] at h
      exact h.symm
    · simp [hrem, hbox] at hidle
  · simp only [mqttInput, hrem, Option.some.injEq] at h
    exact h.symm

/-- One step that reads its packet whole leaves nothing unread. -/
theorem next_remaining_nil {s t : Sys} {l : Label} (hrem : s.client.remaining = [])
    (hok : PollsWhole s l) (h : s.next l = some t) : t.client.remaining = [] := by
  unfold Sys.next at h
  split_ifs at h
  cases l with
  | arrive p =>
    cases h
    exact hrem
  | telemetry =>
    cases h
    simpa using hrem
  | poll uptimeMs k =>
    rcases hbox : s.inbox with _ | ⟨p, rest⟩
    · rw [mqttInput_idle (Or.inr hbox) h]
      exact hrem
    · exact (poll_consumed_iff hrem hbox h).mpr (hok p rest hrem hbox)

/-- In every run that reads each packet whole, every state has nothing
unread, and the next turn of the loop handles the next packet. -/
theorem inbound_never_wedges {s : Sys} (h : mainLoop.Reach PollsWhole s) :
    s.client.remaining = [] ∧
      ∀ p rest uptimeMs k t, s.inbox = p :: rest → s.next (.poll uptimeMs k) = some t →
        t.inbox = rest := by
  have hrem : s.client.remaining = [] :=
    h.invariant (I := fun s => s.client.remaining = []) (fun _ hs => hs.1)
      fun _ _ _ _ hs hok hnext => next_remaining_nil hs hok hnext
  refine ⟨hrem, fun p rest uptimeMs k t hbox hnext => ?_⟩
  unfold Sys.next at hnext
  split_ifs at hnext
  exact (mqttInput_cons hrem hbox hnext).2.1

/-- A fresh connection on which one packet has arrived. -/
def arrived (p : Packet) : Sys :=
  { client := ⟨List.replicate payloadBufSize 0, 20, [], [], false⟩, inbox := [p] }

theorem reach_arrived {ok : Sys → Label → Prop} (p : Packet)
    (hok : ∀ s, ok s (.arrive p)) : mainLoop.Reach ok (arrived p) :=
  .step (s := { arrived p with inbox := [] }) (.init ⟨rfl, rfl, rfl⟩) (hok _) rfl

/-- The run that delivers one packet. -/
theorem reach_delivered {ok : Sys → Label → Prop} {p : Packet} {k : Nat} {t : Sys}
    (hok : ∀ s, ok s (.arrive p)) (hpoll : ok (arrived p) (.poll 0 k))
    (h : mqttInput 0 k (arrived p) = some t) : mainLoop.Reach ok t :=
  .step (reach_arrived p hok) hpoll ((next_poll rfl 0 k).trans h)

/-- A request of 22 bytes, read whole, is behind the client for good. -/
theorem inbound_never_wedges_short :
    ∃ t, mqttInput 0 22 (arrived ⟨ascii "v1/devices/me/rpc/request/7",
        ascii "\x7b\"method\":\"getStatus\"\x7d"⟩) = some t ∧ t.client.remaining = [] := by
  obtain ⟨t, ht⟩ := mqttInput_deliver (s := arrived ⟨ascii "v1/devices/me/rpc/request/7",
    ascii "\x7b\"method\":\"getStatus\"\x7d"⟩) (k := 22) rfl rfl (by decide)
  refine ⟨t, ht, (inbound_never_wedges (reach_delivered (fun _ => trivial) ?_ ht)).1⟩
  rintro p rest - hbox
  cases hbox
  exact ⟨by decide, by decide⟩

/-- A payload of 512 bytes leaves one byte unread, in spite of a full read. -/
theorem inbound_wedges_at_512 : ¬ ∀ s, mainLoop.Reachable s → s.client.remaining = [] := by
  intro h
  let p : Packet := ⟨ascii "v1/devices/me/rpc/request/1", List.replicate 512 0⟩
  have hlen : p.payload.length = 512 := List.length_replicate
  obtain ⟨t, ht⟩ : ∃ t, mqttInput 0 511 (arrived p) = some t :=
    mqttInput_deliver rfl rfl (by rw [hlen]; decide)
  have hleft : t.client.remaining = p.payload.drop 511 := (mqttInput_cons rfl rfl ht).2.2
  have hnil := h t (reach_delivered (fun _ => trivial) trivial ht)
  rw [hleft, List.drop_eq_nil_iff, hlen] at hnil
  exact absurd hnil (by decide)

/-- Once a byte is left unread it stays, and no packet leaves the socket. -/
theorem wedged_forever {s t : Sys} {ls : List Label} (hrem : s.client.remaining ≠ [])
    (h : mainLoop.exec s ls = some t) :
    t.client.remaining = s.client.remaining ∧ s.inbox <+: t.inbox := by
  induction ls generalizing s with
  | nil =>
    cases h
    exact ⟨rfl, List.prefix_refl _⟩
  | cons l ls ih =>
    obtain ⟨r, hr, hrest⟩ := Option.bind_eq_some_iff.mp h
    have hstep : r.client.remaining = s.client.remaining ∧ s.inbox <+: r.inbox := by
      simp only [mainLoop, Sys.next] at hr
      split_ifs at hr
      cases l with
      | arrive p =>
        cases hr
        exact ⟨rfl, List.prefix_append _ _⟩
      | telemetry =>
        cases hr
        exact ⟨rfl, List.prefix_refl _⟩
      | poll uptimeMs k =>
        rw [mqttInput_idle (Or.inl hrem) hr]
        exact ⟨rfl, List.prefix_refl _⟩
    obtain ⟨hr1, hr2⟩ := hstep
    obtain ⟨h1, h2⟩ := ih (hr1 ▸ hrem) hrest
    exact ⟨h1.trans hr1, hr2.trans h2⟩

end Winegrid.Zephyr
