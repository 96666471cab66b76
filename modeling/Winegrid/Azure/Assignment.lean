import Winegrid.Azure.Dps
import Winegrid.Lib.History

/-!
# The hub assignment survives every loss of power

The hub and the device id are copied by the handler, copied again by
`app_main`, and saved under two keys.  `Paired` says that a pair is what one
response assigned, and `Consistent` is the invariant: the device id is stored
last, so a stored device id has its own hub beside it.

* `consistent_reach`: the invariant holds in every reachable state.
* `stored_step`: with both keys stored, a step can only boot, lose power or
  connect to the stored pair.
* `hub_assignment_consistent`: the law of every run.
-/

namespace Winegrid.Azure

open Esp

variable {P : Platform} {registrationId hub deviceId : Bytes} {s t : Registration}

/-- The pair is what one of the responses assigned, cut to the buffers. -/
def Paired (P : Platform) (acts : List Act) (hub deviceId : Bytes) : Prop :=
  ∃ topic payload h d, .handled topic payload ∈ acts ∧ Assigns P payload h d ∧
    hub = strncpy 128 h ∧ deviceId = strncpy 128 d

/-- A pair that the device connects to is the pair of one response. -/
def FromOneResponse (P : Platform) (before : List Act) (a : Act) : Prop :=
  ∀ hub deviceId, a = .connectToHub hub deviceId → Paired P before hub deviceId

/-- What a device does that has a pair: it boots, loses power, and connects to
that pair. -/
def UsesPair (hub deviceId : Bytes) : Act → Prop
  | .boot | .powerLoss => True
  | .connectToHub h d => h = hub ∧ d = deviceId
  | _ => False

theorem Paired.append {acts : List Act} (h : Paired P acts hub deviceId) (more : List Act) :
    Paired P (acts ++ more) hub deviceId := by
  obtain ⟨topic, payload, h', d, hmem, hrest⟩ := h
  exact ⟨topic, payload, h', d, List.mem_append_left _ hmem, hrest⟩

/-- A pair fits the buffers it was cut to. -/
theorem Paired.length_lt {acts : List Act} (h : Paired P acts hub deviceId) :
    hub.length < 128 ∧ deviceId.length < 128 := by
  obtain ⟨-, -, h', d, -, -, rfl, rfl⟩ := h
  have hcut : ∀ bytes, (strncpy 128 bytes).length < 128 := by
    intro bytes
    rw [strncpy, List.length_take]
    omega
  exact ⟨hcut h', hcut d⟩

/-! ## The invariant -/

/-- What is stored while `app_main` is in the phase. -/
def Stored (P : Platform) (s : Registration) : MainPc → Prop
  | .test _ | .check _ | .pollDelay _ | .poll _ | .sleep _ | .stop | .copy =>
    s.nvs .deviceId = none
  | .saveHub hub deviceId => s.nvs .deviceId = none ∧ Paired P s.acts hub deviceId
  | .saveDeviceId hub deviceId =>
    s.nvs .deviceId = none ∧ s.nvs .assignedHub = some hub ∧ Paired P s.acts hub deviceId
  | .connect hub deviceId => s.nvs .assignedHub = some hub ∧ s.nvs .deviceId = some deviceId
  | .off | .load | .connected | .returned => True

/-- A stored device id has its hub beside it, the static variables hold one
assignment or none, and the phase fits what is stored. -/
structure Consistent (P : Platform) (s : Registration) : Prop where
  pair : ∀ deviceId, s.nvs .deviceId = some deviceId →
    ∃ hub, s.nvs .assignedHub = some hub ∧ Paired P s.acts hub deviceId
  dps : s.dps.success = true → Paired P s.acts s.dps.assignedHub s.dps.deviceId
  phase : Stored P s s.phase
  law : Lawful (FromOneResponse P) s.acts

/-- A device with a stored id loads its pair. -/
theorem Consistent.load (h : Consistent P s) (hdev : s.nvs .deviceId = some deviceId) :
    ∃ hub, s.nvs .assignedHub = some hub ∧ loadNvsStr s.nvs .assignedHub 128 = some hub ∧
      loadNvsStr s.nvs .deviceId 128 = some deviceId := by
  obtain ⟨hub, hhub, hpair⟩ := h.pair deviceId hdev
  obtain ⟨hlen, hlen'⟩ := hpair.length_lt
  exact ⟨hub, hhub, loadNvsStr_eq_some.mpr ⟨hhub, hlen⟩, loadNvsStr_eq_some.mpr ⟨hdev, hlen'⟩⟩

/-- A step that leaves NVS, the flag and the pair alone and connects nowhere. -/
theorem Consistent.move (h : Consistent P s) (acts : List Act) (hnvs : t.nvs = s.nvs)
    (hsuccess : t.dps.success = s.dps.success) (hhub : t.dps.assignedHub = s.dps.assignedHub)
    (hdev : t.dps.deviceId = s.dps.deviceId) (hacts : t.acts = s.acts ++ acts)
    (hfree : ∀ a ∈ acts, ∀ hub deviceId, a ≠ .connectToHub hub deviceId)
    (hphase : Stored P t t.phase) : Consistent P t where
  pair deviceId hstored := by
    rw [hnvs] at hstored ⊢
    obtain ⟨hub, hstored', hpair⟩ := h.pair deviceId hstored
    exact ⟨hub, hstored', hacts ▸ hpair.append acts⟩
  dps htrue := by
    rw [hsuccess] at htrue
    rw [hhub, hdev, hacts]
    exact (h.dps htrue).append acts
  phase := hphase
  law := by
    rw [hacts]
    exact h.law.append_free fun a ha _ hub deviceId heq => absurd heq (hfree a ha hub deviceId)

/-- Other static variables, that hold one assignment or none. -/
theorem Consistent.withDps (h : Consistent P s) {dps : Dps}
    (hdps : dps.success = true → Paired P s.acts dps.assignedHub dps.deviceId) :
    Consistent P { s with dps := dps } :=
  ⟨h.pair, hdps, h.phase, h.law⟩

/-- No device id is stored while the registration runs. -/
theorem stored_of_listens {phase : MainPc} (h : phase.listens = true) :
    Stored P s phase ↔ s.nvs .deviceId = none := by
  cases phase <;> simp_all [MainPc.listens, Stored]

/-! ## Steps -/

/-- The waiting loop leaves the pair and NVS alone. -/
theorem consistent_registering {sasToken : Bool} (h : Consistent P s)
    (hlistens : s.phase.listens = true) (hnext : s.appMain sasToken = some t) :
    Consistent P t := by
  have hphase := h.phase
  rcases hpc : s.phase with _ | _ | w | w | w | w | w | _ | _ | ⟨hub, deviceId⟩ |
    ⟨hub, deviceId⟩ | ⟨hub, deviceId⟩ | _ | _ <;>
    rw [hpc] at hphase hlistens <;>
    simp only [Registration.appMain, hpc, MainPc.listens, Bool.false_eq_true, reduceCtorEq]
      at hnext hlistens
  case test =>
    cases hnext
    refine h.move [] rfl rfl rfl rfl rfl (by simp) ?_
    unfold Registration.go
    split_ifs <;> exact hphase
  case check =>
    cases hnext
    split_ifs <;> exact h.move [] rfl rfl rfl rfl rfl (by simp) hphase
  case pollDelay =>
    cases hnext
    exact h.move [.delay 2000] rfl rfl rfl rfl rfl (by simp) hphase
  case poll =>
    cases hnext
    exact h.move [_] rfl rfl rfl rfl rfl (by simp) hphase
  case sleep =>
    cases hnext
    exact h.move [.delay 200] rfl rfl rfl rfl rfl (by simp) hphase
  case stop =>
    cases hnext
    exact h.move [.dpsStop] rfl rfl rfl rfl rfl (by simp) hphase

/-- A pair is saved, the hub first, and then connected to. -/
theorem consistent_saving {sasToken : Bool} (h : Consistent P s)
    (hnext : s.appMain sasToken = some t)
    (hsaving : ∃ hub deviceId, s.phase = .saveHub hub deviceId ∨
      s.phase = .saveDeviceId hub deviceId ∨ s.phase = .connect hub deviceId) :
    Consistent P t := by
  have hphase := h.phase
  obtain ⟨hub, deviceId, hpc | hpc | hpc⟩ := hsaving <;> rw [hpc] at hphase <;>
    simp only [Registration.appMain, hpc] at hnext <;> cases hnext
  · obtain ⟨hnone, hpair⟩ := hphase
    exact {
      pair := fun d hd => absurd (hnone.symm.trans hd) (by simp)
      dps := fun htrue => ((h.dps htrue).append _).append _
      phase := ⟨hnone, s.saveNvsStr_self .assignedHub hub, (hpair.append _).append _⟩
      law := (h.law.append_free (by simp [FromOneResponse])).append_free (by simp) }
  · obtain ⟨-, hhub, hpair⟩ := hphase
    exact {
      pair := fun d hd => by
        rw [Registration.go_nvs, Registration.saveNvsStr_self] at hd
        have hsame : deviceId = d := Option.some.inj hd
        exact ⟨hub, hhub, hsame ▸ (hpair.append _).append _⟩
      dps := fun htrue => ((h.dps htrue).append _).append _
      phase := ⟨hhub, s.saveNvsStr_self .deviceId deviceId⟩
      law := (h.law.append_free (by simp [FromOneResponse])).append_free (by simp) }
  · obtain ⟨hhub, hdev⟩ := hphase
    obtain ⟨hub', hhub', hpair⟩ := h.pair deviceId hdev
    have hsame : hub' = hub := Option.some.inj (hhub'.symm.trans hhub)
    subst hsame
    refine { pair := fun d hd => ?_, dps := fun htrue => (h.dps htrue).append _, phase := trivial,
             law := lawful_concat.mpr ⟨h.law, ?_⟩ }
    · obtain ⟨hub'', hstored, hpair'⟩ := h.pair d hd
      exact ⟨hub'', hstored, hpair'.append _⟩
    · intro hub'' d heq
      cases heq
      exact hpair

/-- The next statement of `app_main` keeps the invariant. -/
theorem consistent_appMain {sasToken : Bool} (h : Consistent P s)
    (hnext : s.appMain sasToken = some t) : Consistent P t := by
  have hphase := h.phase
  rcases hpc : s.phase with _ | _ | w | w | w | w | w | _ | _ | ⟨hub, deviceId⟩ |
    ⟨hub, deviceId⟩ | ⟨hub, deviceId⟩ | _ | _
  case load =>
    simp only [Registration.appMain, hpc] at hnext
    split at hnext
    · rename_i hub deviceId hload hload'
      cases hnext
      exact h.move [] rfl rfl rfl rfl rfl (by simp)
        ⟨(loadNvsStr_eq_some.mp hload).1, (loadNvsStr_eq_some.mp hload').1⟩
    · rename_i hmissing
      have hdev : s.nvs .deviceId = none := by
        rcases hdev : s.nvs .deviceId with _ | deviceId
        · rfl
        · obtain ⟨hub, -, hload, hload'⟩ := h.load hdev
          exact absurd hload' (hmissing hub deviceId hload)
      cases hnext
      split_ifs
      · exact h.move [.dpsStart] rfl rfl rfl rfl rfl (by simp) hdev
      · exact h.move [] rfl rfl rfl rfl rfl (by simp) trivial
  case copy =>
    rw [hpc] at hphase
    simp only [Registration.appMain, hpc] at hnext
    cases hnext
    split_ifs with hfailed
    · exact h.move [] rfl rfl rfl rfl rfl (by simp) trivial
    · have hsuccess : s.dps.success = true := by
        simp only [Bool.or_eq_true, Bool.not_eq_true', not_or, Bool.not_eq_false] at hfailed
        exact hfailed.2
      have hpair := h.dps hsuccess
      have hlen := hpair.length_lt
      refine h.move [] rfl rfl rfl rfl rfl (by simp) ⟨hphase, ?_⟩
      rw [strncpy_eq_self hlen.1, strncpy_eq_self hlen.2]
      exact hpair.append []
  case saveHub => exact consistent_saving h hnext ⟨hub, deviceId, Or.inl hpc⟩
  case saveDeviceId => exact consistent_saving h hnext ⟨hub, deviceId, Or.inr (Or.inl hpc)⟩
  case connect => exact consistent_saving h hnext ⟨hub, deviceId, Or.inr (Or.inr hpc)⟩
  case off => simp [Registration.appMain, hpc] at hnext
  case connected => simp [Registration.appMain, hpc] at hnext
  case returned => simp [Registration.appMain, hpc] at hnext
  all_goals exact consistent_registering h (by rw [hpc]; rfl) hnext

/-- An event leaves the pair alone, or replaces all of it. -/
theorem consistent_event (h : Consistent P s) (hlistens : s.phase.listens = true) (e : DpsEvent) :
    Consistent P ({ s with dps := (s.dps.mqttEventHandler P registrationId e).1 }.go s.phase
      (s.dps.mqttEventHandler P registrationId e).2) := by
  have hnone : s.nvs .deviceId = none := (stored_of_listens hlistens).mp h.phase
  cases e with
  | connected =>
    exact h.move (s.dps.mqttEventHandler P registrationId .connected).2 rfl rfl rfl rfl rfl
      (by simp [Dps.mqttEventHandler]) ((stored_of_listens hlistens).mpr hnone)
  | other =>
    exact h.move [] rfl rfl rfl rfl rfl (by simp) ((stored_of_listens hlistens).mpr hnone)
  | data topic payload =>
    have hacts : Consistent P (s.go s.phase [.handled topic payload]) :=
      h.move [_] rfl rfl rfl rfl rfl (by simp) ((stored_of_listens hlistens).mpr hnone)
    refine hacts.withDps fun hsuccess => ?_
    rcases Dps.data_cases P s.dps topic payload with
      ⟨hhub, hdev, hold⟩ | ⟨hub, deviceId, hassigns, hhub, hdev⟩
    · unfold Dps.mqttEventHandler at hsuccess ⊢
      rw [hhub, hdev]
      exact (h.dps (hold ▸ hsuccess)).append _
    · unfold Dps.mqttEventHandler
      exact ⟨topic, payload, hub, deviceId, by simp [Registration.go], hassigns, hhub, hdev⟩

/-- Every step keeps the invariant. -/
theorem consistent_next {l : Registration.Label} (h : Consistent P s)
    (hnext : s.next P registrationId l = some t) : Consistent P t := by
  cases l with
  | boot =>
    simp only [Registration.next] at hnext
    split_ifs at hnext
    cases hnext
    have hzero : Consistent P { s with dps := .zero } :=
      h.withDps fun htrue => absurd htrue (by decide)
    exact hzero.move [.boot] rfl rfl rfl rfl rfl (by simp) trivial
  | main sasToken => exact consistent_appMain h hnext
  | powerLoss =>
    simp only [Registration.next] at hnext
    split_ifs at hnext
    cases hnext
    exact h.move [.powerLoss] rfl rfl rfl rfl rfl (by simp) trivial
  | event e =>
    simp only [Registration.next] at hnext
    split_ifs at hnext with hlistens
    cases hnext
    exact consistent_event h hlistens e

theorem consistent_reach (h : (registration P registrationId).Reachable s) : Consistent P s := by
  refine h.invariant (I := Consistent P) ?_ fun _ _ _ _ hs _ hnext => consistent_next hs hnext
  rintro s ⟨hdev, hdps, hphase, hacts⟩
  exact {
    pair := fun d hd => absurd (hdev.symm.trans hd) (by simp)
    dps := fun htrue => absurd htrue (by rw [hdps]; decide)
    phase := by rw [hphase]; trivial
    law := by rw [hacts]; exact lawful_nil }

/-! ## A stored pair -/

/-- With both keys stored, `app_main` goes from NVS to the hub. -/
theorem load_stored (h : Consistent P s) (hhub : s.nvs .assignedHub = some hub)
    (hdev : s.nvs .deviceId = some deviceId) (hphase : s.phase = .load) (sasToken : Bool) :
    s.appMain sasToken = some (s.go (.connect hub deviceId) []) := by
  obtain ⟨hub', hhub', hload, hload'⟩ := h.load hdev
  have hsame : hub' = hub := Option.some.inj (hhub'.symm.trans hhub)
  subst hsame
  simp only [Registration.appMain, hphase, hload, hload']

/-- With both keys stored, a step boots, loses power, or connects to the pair,
and NVS stays as it is. -/
theorem stored_step {l : Registration.Label} (h : Consistent P s)
    (hhub : s.nvs .assignedHub = some hub) (hdev : s.nvs .deviceId = some deviceId)
    (hnext : s.next P registrationId l = some t) :
    t.nvs = s.nvs ∧ ∃ es, t.acts = s.acts ++ es ∧ ∀ a ∈ es, UsesPair hub deviceId a := by
  have hphase := h.phase
  have hbusy : ¬ s.nvs .deviceId = none := by simp [hdev]
  cases l with
  | boot =>
    simp only [Registration.next] at hnext
    split_ifs at hnext
    cases hnext
    exact ⟨rfl, [.boot], rfl, by simp [UsesPair]⟩
  | powerLoss =>
    simp only [Registration.next] at hnext
    split_ifs at hnext
    cases hnext
    exact ⟨rfl, [.powerLoss], rfl, by simp [UsesPair]⟩
  | event e =>
    simp only [Registration.next] at hnext
    split_ifs at hnext with hlistens
    exact absurd ((stored_of_listens hlistens).mp hphase) hbusy
  | main sasToken =>
    simp only [Registration.next] at hnext
    rcases hpc : s.phase with _ | _ | w | w | w | w | w | _ | _ | ⟨hub', d⟩ | ⟨hub', d⟩ |
      ⟨hub', d⟩ | _ | _ <;> rw [hpc] at hphase
    case load =>
      rw [load_stored h hhub hdev hpc] at hnext
      cases hnext
      exact ⟨rfl, [], rfl, by simp⟩
    case connect =>
      simp only [Registration.appMain, hpc] at hnext
      cases hnext
      obtain ⟨hhub', hdev'⟩ := hphase
      refine ⟨rfl, [.connectToHub hub' d], rfl, fun a ha => ?_⟩
      rw [List.mem_singleton.mp ha]
      exact ⟨Option.some.inj (hhub'.symm.trans hhub), Option.some.inj (hdev'.symm.trans hdev)⟩
    case saveHub => exact absurd hphase.1 hbusy
    case saveDeviceId => exact absurd hphase.1 hbusy
    case off => simp [Registration.appMain, hpc] at hnext
    case connected => simp [Registration.appMain, hpc] at hnext
    case returned => simp [Registration.appMain, hpc] at hnext
    all_goals exact absurd hphase hbusy

/-- What a run from a state with both keys stored does. -/
theorem stored_run {ls : List Registration.Label} (hs : Consistent P s)
    (hhub : s.nvs .assignedHub = some hub) (hdev : s.nvs .deviceId = some deviceId)
    (hrun : (registration P registrationId).Run Machine.always s ls t) :
    Consistent P t ∧ t.nvs = s.nvs ∧
      ∃ es, t.acts = s.acts ++ es ∧ ∀ a ∈ es, UsesPair hub deviceId a := by
  refine hrun.invariant (I := fun _ t => Consistent P t ∧ t.nvs = s.nvs ∧
    ∃ es, t.acts = s.acts ++ es ∧ ∀ a ∈ es, UsesPair hub deviceId a) ?_ ?_
  · exact ⟨hs, rfl, [], by simp, by simp⟩
  · rintro _ t l u ⟨ht, hnvs, es, hacts, hes⟩ - hnext
    rw [← hnvs] at hhub hdev
    obtain ⟨hnvs', fs, hacts', hfs⟩ := stored_step ht hhub hdev hnext
    refine ⟨consistent_next ht hnext, hnvs'.trans hnvs, es ++ fs, ?_, fun a ha => ?_⟩
    · rw [hacts', hacts, List.append_assoc]
    · rcases List.mem_append.mp ha with ha | ha
      · exact hes a ha
      · exact hfs a ha

/-- Every pair that is connected to is the pair of one response.  Once both
keys are stored, every later boot loads that pair and connects to it, and
nothing else happens. -/
theorem hub_assignment_consistent (h : (registration P registrationId).Reachable s) :
    Lawful (FromOneResponse P) s.acts ∧
      ∀ hub deviceId, s.nvs .assignedHub = some hub → s.nvs .deviceId = some deviceId →
        ∀ ls t, (registration P registrationId).Run Machine.always s ls t →
          t.nvs = s.nvs ∧
          (∃ es, t.acts = s.acts ++ es ∧ ∀ a ∈ es, UsesPair hub deviceId a) ∧
          (t.phase = .load → ∀ sasToken,
            t.appMain sasToken = some (t.go (.connect hub deviceId) [])) := by
  have hs := consistent_reach h
  refine ⟨hs.law, fun hub deviceId hhub hdev ls t hrun => ?_⟩
  obtain ⟨ht, hnvs, hes⟩ := stored_run hs hhub hdev hrun
  exact ⟨hnvs, hes, load_stored ht (hnvs ▸ hhub) (hnvs ▸ hdev)⟩

/-- The text of a response that assigns `iot-b`, and its document. -/
def assignedPayload : Bytes :=
  ascii ("\x7b\"status\":\"assigned\",\"registrationState\":\x7b\"assignedHub\":\"iot-b\"," ++
    "\"deviceId\":\"vine7\"\x7d\x7d")

def assignedDoc : CJson :=
  .object [(ascii "status", .string (ascii "assigned")), (ascii "registrationState",
    .object [(ascii "assignedHub", .string (ascii "iot-b")),
      (ascii "deviceId", .string (ascii "vine7"))])]

/-- A platform whose parser knows that text. -/
def dpsPlatform : Platform :=
  ⟨fun _ => [], fun text => if text = assignedPayload then some assignedDoc else none,
    fun _ => ⟨[], []⟩, 1048576, mebibyte_lt⟩

/-- The hub is assigned, and power is lost between the two saves: the next
boot registers again. -/
def interruptedSave : List Registration.Label :=
  [ .boot, .main true, .event (.data (dpsResTopicPrefix ++ ascii "200/?$rid=1") assignedPayload)
  , .main true, .main true, .main true, .main true, .powerLoss
  , .boot, .main true, .event (.data (dpsResTopicPrefix ++ ascii "200/?$rid=1") assignedPayload)
  , .main true, .main true, .main true, .main true, .main true, .main true ]

theorem hub_assignment_consistent_interrupted : ∃ s,
    (registration dpsPlatform (ascii "vine7")).exec ⟨fun _ => none, .zero, .off, []⟩
      interruptedSave = some s ∧
    .connectToHub (ascii "iot-b") (ascii "vine7") ∈ s.acts ∧
    Lawful (FromOneResponse dpsPlatform) s.acts := by
  have hrun : ((registration dpsPlatform (ascii "vine7")).exec ⟨fun _ => none, .zero, .off, []⟩
      interruptedSave).any (fun s => .connectToHub (ascii "iot-b") (ascii "vine7") ∈ s.acts) =
      true := by decide +kernel
  obtain ⟨s, hexec, hmem⟩ := Machine.exists_of_any hrun
  have hreach : (registration dpsPlatform (ascii "vine7")).Reachable s :=
    Machine.Reachable.exec (.init ⟨rfl, rfl, rfl, rfl⟩) hexec
  exact ⟨s, hexec, hmem, (hub_assignment_consistent hreach).1⟩

end Winegrid.Azure
