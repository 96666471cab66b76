import Winegrid.Zephyr.Application
import Winegrid.Zephyr.History

/-!
# What a session of the Zephyr client says, and when

The abstract session knows how many readings were published and nothing else:
`spoken` is what such a session says of a history.

* `telemetry_on_time`: things happen in order, and in the loop a reading is
  never older than ten seconds and two turns.
* `session_exact`: as long as the payloads are read whole, the client says what
  the abstract session says, and restarts exactly when it was asked to.
-/

namespace Winegrid.Zephyr.App

variable {C : Config} {s t : App} {past : List (Nat × Act)} {pc : Pc} {D k now n : Nat}
  {m : Inbound}

/-! ## Readings in time -/

/-- The statements of the loop. -/
def InLoop : Pc → Prop
  | .waitSocket | .mqttInput | .mqttLive | .check | .publishTelemetry | .next => True
  | _ => False

/-- A turn of the loop takes at most `D` milliseconds. -/
def Prompt (D : Nat) (s : App) : Label → Prop
  | .elapse ms => InLoop s.pc → s.now + ms ≤ s.turnStart + D
  | _ => True

/-- A reading was published at that time, or the loop was entered. -/
def Beat (past : List (Nat × Act)) (t : Nat) : Prop := (t, .telemetry) ∈ past ∨ (t, .enters) ∈ past

/-- In a turn of the loop: how old the turn is, when the next reading is due,
and the last beat. -/
structure OnTime (D : Nat) (s : App) : Prop where
  turn : s.turnStart ≤ s.now ∧ s.now ≤ s.turnStart + D
  due : s.turnStart ≤ s.nextTelemetry
  beat : ∃ u, Beat s.acts u ∧ (s.pc ≠ .next → s.nextTelemetry ≤ u + 10000 + D) ∧
    (s.pc = .next → s.turnStart ≤ u)

theorem Beat.mono {u : Nat} (h : Beat past u) (more : List (Nat × Act)) :
    Beat (past ++ more) u := by
  rcases h with h | h
  · exact Or.inl (List.mem_append_left _ h)
  · exact Or.inr (List.mem_append_left _ h)

/-- A step within a turn. -/
theorem OnTime.within (h : OnTime D s) (more : List (Nat × Act)) (hacts : t.acts = s.acts ++ more)
    (hturn : t.turnStart = s.turnStart) (hnow : t.now = s.now)
    (hnext : t.nextTelemetry = s.nextTelemetry) (hs : s.pc ≠ .next) (ht : t.pc ≠ .next) :
    OnTime D t := by
  obtain ⟨u, hbeat, hlate, -⟩ := h.beat
  refine ⟨?_, ?_, u, ?_, ?_, fun hpc => absurd hpc ht⟩
  · rw [hturn, hnow]
    exact h.turn
  · rw [hturn, hnext]
    exact h.due
  · rw [hacts]
    exact hbeat.mono more
  · intro _
    rw [hnext]
    exact hlate hs

theorem OnTime.goto {pc' : Pc} (h : OnTime D s) (hs : s.pc ≠ .next) (ht : pc' ≠ .next) :
    OnTime D (s.goto pc') := h.within [] (List.append_nil _).symm rfl rfl rfl hs ht

/-- A statement keeps the readings in time. -/
theorem onTime_statement {o : Outcome} (h : InLoop s.pc → OnTime D s)
    (hnext : s.statement C o = some t) (hloop : InLoop t.pc) : OnTime D t := by
  have hin : ∀ {pc}, s.pc = pc → InLoop pc → OnTime D s := fun hpc hloop => h (hpc ▸ hloop)
  have hrequest : ∀ pc', ¬ InLoop pc' → ¬ InLoop (s.request o.ok pc').pc := by
    intro pc' hpc
    unfold request
    split_ifs <;> exact hpc
  cases moves_of_statement hnext with
  -- the statements before the loop: only `enters` leads into it
  | returns | takeSem | tlsInit | resolveBroker | mqttConnect => exact absurd hloop id
  | netIfUp =>
    simp only [goto] at hloop
    split_ifs at hloop <;> exact absurd hloop id
  | wifiAutoConnect => exact absurd hloop (hrequest _ id)
  | connMgrIfConnect =>
    refine absurd hloop (hrequest _ ?_)
    split_ifs <;> exact id
  | runProvisioning =>
    unfold provision at hloop
    cases hprov : Zephyr.runProvisioning C.identity o.ok o.turns s.provisioning <;>
      simp [hprov, InLoop] at hloop
  | firstNext =>
    have hbeat : Beat (s.acts ++ [(s.now, .enters)]) s.now := Or.inr (by simp)
    refine ⟨⟨Nat.le_refl _, Nat.le_add_right _ _⟩, Nat.le_refl _, s.now, hbeat, fun _ => ?_,
      Pc.noConfusion⟩
    show s.now ≤ s.now + 10000 + D
    omega
  | waitSocket hpc =>
    refine (hin hpc trivial).goto (by simp [hpc]) ?_
    cases o.ok <;> exact Pc.noConfusion
  | silent hpc | mqttLive hpc | due hpc =>
    exact (hin hpc trivial).goto (by simp [hpc]) Pc.noConfusion
  | @delivers m rest hpc =>
    obtain ⟨main, isOpen, hframe⟩ :=
      handle_frame (act { s with inbox := rest } (.delivered m)) o.read m
    rw [hframe]
    exact (hin hpc trivial).within [(s.now, .delivered m)] rfl rfl rfl rfl (by simp [hpc])
      Pc.noConfusion
  | notDue hpc hnow =>
    obtain ⟨u, hbeat, hlate, -⟩ := (hin hpc trivial).beat
    exact ⟨⟨Nat.le_refl _, Nat.le_add_right _ _⟩, hnow, u, hbeat,
      fun _ => hlate (by simp [hpc]), Pc.noConfusion⟩
  | publishTelemetry hpc =>
    have hs := hin hpc trivial
    exact ⟨hs.turn, hs.due, s.now, Or.inl (by simp [act]), fun hne => absurd rfl hne,
      fun _ => hs.turn.1⟩
  | next hpc =>
    have hs := hin hpc trivial
    obtain ⟨u, hbeat, -, hstart⟩ := hs.beat
    have hturn := hs.turn.2
    have hu := hstart hpc
    refine ⟨⟨Nat.le_refl _, Nat.le_add_right _ _⟩, Nat.le_add_right _ _, u, hbeat, fun _ => ?_,
      Pc.noConfusion⟩
    show s.now + 10000 ≤ u + 10000 + D
    omega

/-- Every step keeps the readings in time. -/
theorem onTime_step {l : Label} (h : InLoop s.pc → OnTime D s) (hok : Prompt D s l)
    (hnext : s.step C l = some t) (hloop : InLoop t.pc) : OnTime D t := by
  unfold step at hnext
  split_ifs at hnext
  cases l with
  | elapse ms =>
    cases hnext
    have hs := h hloop
    exact ⟨⟨Nat.le_trans hs.turn.1 (Nat.le_add_right _ _), hok hloop⟩, hs.due, hs.beat⟩
  | l4Event connected =>
    cases connected with
    | false =>
      cases hnext
      exact h hloop
    | true =>
      cases hnext
      have hs := h hloop
      obtain ⟨u, hbeat, hlate⟩ := hs.beat
      exact ⟨hs.turn, hs.due, u, hbeat.mono _, hlate⟩
  | arrive m =>
    cases hnext
    have hs := h hloop
    exact ⟨hs.turn, hs.due, hs.beat⟩
  | statement o => exact onTime_statement h hnext hloop

theorem onTime_reach (h : (application C).Reach (Prompt D) s) (hloop : InLoop s.pc) :
    OnTime D s := by
  refine h.invariant (I := fun s => InLoop s.pc → OnTime D s) ?_
    (fun _ _ _ _ hs hok hnext => onTime_step hs hok hnext) hloop
  intro s ⟨now, hs⟩ hloop
  subst hs
  exact absurd hloop id

/-- In every run the history is lawful.  In the loop, when its turns take at
most `D` milliseconds, a reading was published in the last ten seconds and two
turns, or the loop was entered in them. -/
theorem telemetry_on_time (C : Config) (D : Nat) :
    (∀ s, (application C).Reachable s → Lawful AppLaw s.acts) ∧
      ∀ s, (application C).Reach (Prompt D) s → InLoop s.pc →
        ∃ u, Beat s.acts u ∧ s.now ≤ u + 10000 + 2 * D := by
  refine ⟨fun s h => (orderly_reach h).law, fun s h hloop => ?_⟩
  obtain ⟨⟨hstart, hturn⟩, hdue, u, hbeat, hlate, hnext⟩ := onTime_reach h hloop
  refine ⟨u, hbeat, ?_⟩
  by_cases hpc : s.pc = .next
  · have hu := hnext hpc
    omega
  · have hu := hlate hpc
    omega

/-! ## What is said -/

/-- `s_fake_temperature` after `n` readings. -/
def temperature (n : Nat) : Int := 20 + (n % 10 : Nat)

/-- The payload of the `n`th reading. -/
def readingText (n : Nat) : Bytes :=
  ascii "\x7b\"temperature\":" ++ dec (temperature n) ++ ascii "\x7d"

/-- The payload of a reply, `n` readings after the start. -/
def replyText (n now : Nat) : Branch → Bytes
  | .getStatus => snprintf 128 (ascii "\x7b\"temperature\":" ++ dec (temperature n) ++
      ascii ",\"uptimeMs\":" ++ dec now ++ ascii "\x7d")
  | .reboot => ascii "\x7b\"result\":\"rebooting\"\x7d"
  | .unknownMethod => ascii "\x7b\"error\":\"unknown method\"\x7d"

/-- The branch that a message asks for. -/
def asked : Inbound → Option Branch
  | .publish p => if startsWith p.topic rpcRequestTopicPrefix then rpcBranch p.payload else none
  | _ => none

/-- What the abstract session says to a message, `n` readings after the
start. -/
def answer (n now : Nat) : Inbound → List Sent
  | .connack result => if result = 0 then [.subscribe rpcRequestTopicFilter] else []
  | .publish p => (asked (.publish p)).elim [] fun b =>
      [.publish (rpcResponseTopic p.topic) (replyText n now b)]
  | _ => []

def readings (past : List (Nat × Act)) : Nat := past.countP fun a => a.2 = .telemetry

/-- What the abstract session says to an entry of the history. -/
def spokenOne (n : Nat) : Nat × Act → List Sent
  | (_, .telemetry) => [.publish telemetryTopic (readingText (n + 1))]
  | (now, .delivered m) => answer n now m
  | _ => []

/-- What the abstract session says of a history, `n` readings after the
start. -/
def spoken (n : Nat) : List (Nat × Act) → List Sent
  | [] => []
  | a :: rest => spokenOne n a ++ spoken (n + readings [a]) rest

theorem readings_append (past more : List (Nat × Act)) :
    readings (past ++ more) = readings past + readings more := List.countP_append

theorem spoken_concat (n : Nat) (past : List (Nat × Act)) (a : Nat × Act) :
    spoken n (past ++ [a]) = spoken n past ++ spokenOne (n + readings past) a := by
  induction past generalizing n with
  | nil =>
    show spokenOne n a ++ [] = [] ++ spokenOne (n + 0) a
    rw [List.append_nil, List.nil_append, Nat.add_zero]
  | cons b past ih =>
    have hcount : readings (b :: past) = readings [b] + readings past := readings_append [b] past
    rw [List.cons_append, spoken, spoken, ih, hcount, List.append_assoc, Nat.add_assoc]

/-- An entry that is neither a reading nor a message. -/
def Silent (a : Act) : Prop := a ≠ .telemetry ∧ ∀ m, a ≠ .delivered m

theorem spokenOne_silent {a : Act} (h : Silent a) (n now : Nat) :
    spokenOne n (now, a) = [] ∧ readings [(now, a)] = 0 := by
  cases a with
  | telemetry => exact absurd rfl h.1
  | delivered m => exact absurd rfl (h.2 m)
  | _ => exact ⟨rfl, rfl⟩

/-- The client takes the next reading, and all of its text fits. -/
theorem publishTelemetry_eq {c : Client} (h : c.fakeTemperature = temperature n) :
    (Zephyr.publishTelemetry c).sent =
        c.sent ++ [.publish telemetryTopic (readingText (n + 1))] ∧
      (Zephyr.publishTelemetry c).fakeTemperature = temperature (n + 1) := by
  have hstep : 20 + Int.tmod (c.fakeTemperature + 1 - 20) 10 = temperature (n + 1) := by
    rw [h]
    unfold temperature
    rw [Int.tmod_eq_emod_of_nonneg (by omega)]
    omega
  have hfits : ∀ i < 10, snprintf 64 (ascii "\x7b\"temperature\":" ++ dec (20 + (i : Nat)) ++
      ascii "\x7d") = ascii "\x7b\"temperature\":" ++ dec (20 + (i : Nat)) ++ ascii "\x7d" := by
    decide +kernel
  refine ⟨?_, hstep⟩
  have hpayload := hfits ((n + 1) % 10) (Nat.mod_lt _ (by decide))
  simp only [Zephyr.publishTelemetry, Client.mqttPublish, hstep, readingText]
  rw [show temperature (n + 1) = 20 + (((n + 1) % 10 : Nat) : Int) from rfl, hpayload]

/-- A message that is delivered is read whole. -/
def HandlesWhole (k : Nat) : Inbound → Prop
  | .publish p => ReadsWhole p k
  | _ => True

/-- The payloads that the steps deliver are read whole. -/
def WholeReads (s : App) : Label → Prop
  | .statement o => s.pc = .mqttInput → ∀ m ∈ s.inbox.head?, HandlesWhole o.read m
  | _ => True

/-- What a handler is given of a payload that is read whole. -/
theorem received_whole {c : Client} {p : Packet} (hwhole : ReadsWhole p k) :
    { c with remaining := p.payload }.received p.payload.length k = p.payload := by
  obtain ⟨hfits, hk⟩ := hwhole
  have hread : readLen p.payload.length = p.payload.length := Nat.min_eq_left hfits
  have hallowed : ReadAllowed (readLen p.payload.length) p.payload.length k := by
    rw [hread, hk]
    exact ⟨by omega, by omega⟩
  rw [received_eq rfl hallowed, hread, hk, Nat.sub_self, List.take_zero, List.append_nil,
    List.take_length]

/-- A handler says what the abstract session says, keeps the reading, and
restarts exactly if it was asked to. -/
theorem handle_speaks (hwhole : HandlesWhole k m)
    (htemperature : s.main.fakeTemperature = temperature n) (hup : s.main.rebooted = false) :
    (s.handle k m).main.sent = s.main.sent ++ answer n s.now m ∧
      (s.handle k m).main.fakeTemperature = temperature n ∧
      ((s.handle k m).main.rebooted = true ↔ asked m = some .reboot) := by
  cases m with
  | connack result =>
    by_cases hzero : result = 0
    · simp [handle, mainEvtHandler, answer, asked, hzero, htemperature, hup]
    · simp [handle, mainEvtHandler, answer, asked, hzero, htemperature, hup]
  | publish p =>
    have hreceived := received_whole (c := s.main) hwhole
    simp only [handle, answer, asked]
    rw [mainEvtHandler_publish]
    split_ifs
    · rw [handleRpcRequest_eq, hreceived]
      rcases rpcBranch p.payload with _ | b
      · simp [Client.receive, Client.readPublishPayload, htemperature, hup]
      · cases b <;> simp [Client.perform, Client.mqttPublish, Client.receive,
          Client.readPublishPayload, replyText, htemperature, hup]
    · simp [Client.receive, Client.readPublishPayload, htemperature, hup]
  | other | closed =>
    exact ⟨(List.append_nil _).symm, htemperature, by simp [handle, mainEvtHandler, hup, asked]⟩

/-! ## Exactness -/

/-- The statements before the main client connects. -/
def Early : Pc → Prop
  | .netIfUp | .wifiAutoConnect | .connMgrIfConnect _ | .takeSem | .tlsInit | .resolveBroker
  | .runProvisioning | .mqttConnect _ => True
  | _ => False

/-- The last thing that happened is a request to restart. -/
def AskedToRestart (past : List (Nat × Act)) : Prop :=
  ∃ before now m, past = before ++ [(now, .delivered m)] ∧ asked m = some .reboot

/-- Nothing was said, and the statics that provisioning shares with the main
client are as they were. -/
structure Unspoken (s : App) : Prop where
  sent : spoken 0 s.acts = []
  readings : readings s.acts = 0
  temperature : s.provisioning.client.fakeTemperature = 20
  rebooted : s.provisioning.client.rebooted = false

/-- The client is where the abstract session is. -/
structure Exact (s : App) : Prop where
  sent : s.main.sent = spoken 0 s.acts
  reading : s.main.fakeTemperature = temperature (readings s.acts)
  early : Early s.pc → Unspoken s
  restarts : s.main.rebooted = true ↔ AskedToRestart s.acts

theorem askedToRestart_concat {a : Act} :
    AskedToRestart (past ++ [(now, a)]) ↔ ∃ m, a = .delivered m ∧ asked m = some .reboot := by
  constructor
  · intro ⟨before, now', m, heq, hasked⟩
    obtain ⟨-, hlast⟩ := List.append_inj' heq rfl
    exact ⟨m, (Prod.mk.inj (List.cons.inj hlast).1).2, hasked⟩
  · intro ⟨m, ha, hasked⟩
    exact ⟨past, now, m, by rw [ha], hasked⟩

/-- A step that leaves the client and the history alone. -/
theorem Exact.same (h : Exact s) (hacts : t.acts = s.acts) (hmain : t.main = s.main)
    (hearly : Early t.pc → Unspoken t) : Exact t where
  sent := by rw [hmain, hacts, h.sent]
  reading := by rw [hmain, hacts, h.reading]
  early := hearly
  restarts := by rw [hmain, hacts, h.restarts]

/-- A step that says to the entry it adds what the abstract session says. -/
theorem exact_concat {a : Act} (hacts : t.acts = past ++ [(now, a)])
    (hsent : t.main.sent = spoken 0 past ++ spokenOne (readings past) (now, a))
    (hreading : t.main.fakeTemperature = temperature (readings past + readings [(now, a)]))
    (hrestart : t.main.rebooted = true ↔ ∃ m, a = .delivered m ∧ asked m = some .reboot)
    (hearly : Early t.pc → Unspoken t) : Exact t where
  sent := by rw [hacts, spoken_concat, Nat.zero_add, hsent]
  reading := by rw [hacts, readings_append, hreading]
  early := hearly
  restarts := by rw [hacts, askedToRestart_concat, hrestart]

/-- A step that adds something about which nothing is said. -/
theorem exact_silent {a : Act} (ha : Silent a) (hacts : t.acts = past ++ [(now, a)])
    (hsent : t.main.sent = spoken 0 past)
    (hreading : t.main.fakeTemperature = temperature (readings past))
    (hup : t.main.rebooted = false) (hearly : Early t.pc → Unspoken t) : Exact t := by
  obtain ⟨hspoken, hreadings⟩ := spokenOne_silent ha (readings past) now
  refine exact_concat hacts ?_ ?_ ?_ hearly
  · rw [hspoken, List.append_nil, hsent]
  · rw [hreadings, Nat.add_zero, hreading]
  · rw [hup]
    exact iff_of_false (by simp) fun ⟨m, hm, _⟩ => ha.2 m hm

/-- What was not said stays so. -/
theorem Unspoken.silent (h : Unspoken s) {a : Act} (ha : Silent a)
    (hacts : t.acts = s.acts ++ [(now, a)]) (hprov : t.provisioning = s.provisioning) :
    Unspoken t := by
  obtain ⟨hspoken, hreadings⟩ := spokenOne_silent ha (0 + App.readings s.acts) now
  refine ⟨?_, ?_, hprov ▸ h.temperature, hprov ▸ h.rebooted⟩
  · rw [hacts, spoken_concat, hspoken, List.append_nil, h.sent]
  · rw [hacts, readings_append, hreadings, Nat.add_zero, h.readings]

theorem Unspoken.same (h : Unspoken s) (hacts : t.acts = s.acts)
    (hprov : t.provisioning = s.provisioning) : Unspoken t :=
  ⟨hacts ▸ h.sent, hacts ▸ h.readings, hprov ▸ h.temperature, hprov ▸ h.rebooted⟩

/-- Provisioning takes no reading and does not restart. -/
theorem provisioningLoop_frame (id : Identity) (turns : List Turn) (p : Provisioning) :
    (provisioningLoop id turns p).client.fakeTemperature = p.client.fakeTemperature ∧
      (provisioningLoop id turns p).client.rebooted = p.client.rebooted := by
  induction turns generalizing p with
  | nil => exact ⟨rfl, rfl⟩
  | cons turn turns ih =>
    unfold provisioningLoop
    split_ifs
    · exact ⟨rfl, rfl⟩
    · have hturn : (p.turn id turn).client.fakeTemperature = p.client.fakeTemperature ∧
          (p.turn id turn).client.rebooted = p.client.rebooted := by
        cases turn with
        | connack result =>
          simp only [Provisioning.turn, provisioningEvtHandler]
          split_ifs <;> exact ⟨rfl, rfl⟩
        | _ => exact ⟨rfl, rfl⟩
      rw [(ih _).1, (ih _).2, hturn.1, hturn.2]
      exact ⟨rfl, rfl⟩

theorem Exact.goto {pc' : Pc} (h : Exact s) (hearly : Early pc' → Unspoken s) :
    Exact (s.goto pc') := h.same rfl rfl fun hpc => (hearly hpc).same rfl rfl

theorem Exact.request {pc' : Pc} {ok : Bool} (h : Exact s) (hup : s.main.rebooted = false)
    (hnone : Unspoken s) : Exact (s.request ok pc') := by
  unfold App.request
  split_ifs
  · exact exact_silent (a := .requested) ⟨by simp, by simp⟩ rfl h.sent h.reading hup
      fun _ => hnone.silent (a := .requested) ⟨by simp, by simp⟩ rfl rfl
  · exact h.goto fun _ => hnone

/-- Provisioning says nothing to the main client. -/
theorem Exact.provision {o : Outcome} (h : Exact s) (hnone : Unspoken s) :
    Exact (s.provision C o) := by
  refine h.same rfl rfl fun _ => ?_
  obtain ⟨htemperature, hrebooted⟩ :=
    provisioningLoop_frame C.identity o.turns { s.provisioning with done := false }
  refine ⟨hnone.sent, hnone.readings, ?_, ?_⟩ <;> simp only [App.provision] <;> split_ifs
  · exact htemperature.trans hnone.temperature
  · exact hnone.temperature
  · exact hrebooted.trans hnone.rebooted
  · exact hnone.rebooted

theorem Exact.connect {token : Bytes} (hnone : Unspoken s) : Exact (s.connect token) := by
  refine exact_silent (a := .connects token) ⟨by simp, by simp⟩ rfl hnone.sent.symm ?_
    hnone.rebooted fun hfalse => absurd hfalse id
  show s.provisioning.client.fakeTemperature = temperature (App.readings s.acts)
  rw [hnone.readings, hnone.temperature]
  rfl

/-- A message that is delivered. -/
theorem exact_delivered {rest : List Inbound} (h : Exact s) (hup : s.main.rebooted = false)
    (hlate : ¬ Early s.pc) (hwhole : HandlesWhole k m) :
    Exact (({ s with inbox := rest }.act (.delivered m)).handle k m) := by
  obtain ⟨hsent, hreading, hrestart⟩ := handle_speaks
    (s := act { s with inbox := rest } (.delivered m)) hwhole h.reading hup
  obtain ⟨main, isOpen, hframe⟩ :=
    handle_frame (act { s with inbox := rest } (.delivered m)) k m
  rw [hframe] at hsent hreading hrestart ⊢
  refine exact_concat (a := .delivered m) rfl ?_ hreading ?_ fun hearly => absurd hearly hlate
  · exact hsent.trans (congrArg (· ++ _) h.sent)
  · rw [hrestart]
    refine ⟨fun hasked => ⟨m, rfl, hasked⟩, fun h => ?_⟩
    obtain ⟨m', hm, hasked⟩ := h
    cases hm
    exact hasked

/-- A reading. -/
theorem exact_telemetry {pc' : Pc} (h : Exact s) (hup : s.main.rebooted = false)
    (hlate : ¬ Early pc') :
    Exact { s.act .telemetry with main := Zephyr.publishTelemetry s.main, pc := pc' } := by
  obtain ⟨hsent, hreading⟩ := publishTelemetry_eq h.reading
  refine exact_concat (a := .telemetry) rfl ?_ hreading ?_ fun hearly => absurd hearly hlate
  · exact hsent.trans (congrArg (· ++ _) h.sent)
  · show s.main.rebooted = true ↔ _
    rw [hup]
    simp

/-- Every statement says what the abstract session says. -/
theorem exact_statement {o : Outcome} (h : Exact s) (hup : s.main.rebooted = false)
    (hok : WholeReads s (.statement o)) (hnext : s.statement C o = some t) : Exact t := by
  have hfrom : ∀ {pc}, s.pc = pc → Early pc → Unspoken s := fun hpc hearly => h.early (hpc ▸ hearly)
  cases moves_of_statement hnext with
  | returns => exact h.goto fun hfalse => absurd hfalse id
  | netIfUp hpc | tlsInit hpc | resolveBroker hpc => exact h.goto fun _ => hfrom hpc trivial
  | wifiAutoConnect hpc | connMgrIfConnect hpc => exact h.request hup (hfrom hpc trivial)
  | takeSem hpc => exact h.same rfl rfl fun _ => (hfrom hpc trivial).same rfl rfl
  | runProvisioning hpc => exact h.provision (hfrom hpc trivial)
  | mqttConnect hpc => exact .connect (hfrom hpc trivial)
  | firstNext =>
    exact exact_silent (a := .enters) ⟨by simp, by simp⟩ rfl h.sent h.reading hup
      fun hfalse => absurd hfalse id
  | waitSocket =>
    refine h.goto fun hfalse => absurd hfalse ?_
    cases o.ok <;> exact id
  | silent | mqttLive | due => exact h.goto fun hfalse => absurd hfalse id
  | @delivers m rest hpc hbox =>
    have hlate : ¬ Early s.pc := by
      rw [hpc]
      exact id
    have hwhole : HandlesWhole o.read m := hok hpc m (by rw [hbox]; rfl)
    exact (exact_delivered h hup hlate hwhole).goto fun hfalse => absurd hfalse id
  | notDue | next => exact h.same rfl rfl fun hfalse => absurd hfalse id
  | publishTelemetry => exact exact_telemetry h hup id

theorem exact_step {l : Label} (h : Exact s) (hok : WholeReads s l)
    (hnext : s.step C l = some t) : Exact t := by
  unfold step at hnext
  split_ifs at hnext with hdown
  have hup : s.main.rebooted = false := by simpa using hdown
  cases l with
  | elapse ms =>
    cases hnext
    exact h.same rfl rfl fun hearly => (h.early hearly).same rfl rfl
  | l4Event connected =>
    cases connected with
    | false =>
      cases hnext
      exact h
    | true =>
      cases hnext
      exact exact_silent (a := .networkUp) ⟨by simp, by simp⟩ rfl h.sent h.reading hup
        fun hearly => (h.early hearly).silent (a := .networkUp) ⟨by simp, by simp⟩ rfl rfl
  | arrive m =>
    cases hnext
    exact h.same rfl rfl fun hearly => (h.early hearly).same rfl rfl
  | statement o => exact exact_statement h hup hok hnext

/-- In every run that reads each payload whole, the client has said what the
abstract session says of the history, and it restarts exactly when the last
message asked for that. -/
theorem session_exact (h : (application C).Reach WholeReads s) :
    s.main.sent = spoken 0 s.acts ∧ (s.main.rebooted = true ↔ AskedToRestart s.acts) := by
  have hexact : Exact s := by
    refine h.invariant (I := Exact) ?_ fun _ _ _ _ hs hok hnext => exact_step hs hok hnext
    intro s ⟨now, hs⟩
    subst hs
    refine ⟨rfl, rfl, fun _ => ⟨rfl, rfl, rfl, rfl⟩, iff_of_false Bool.false_ne_true ?_⟩
    intro ⟨before, _, _, heq, _⟩
    simp [start] at heq
  exact ⟨hexact.sent, hexact.restarts⟩

instance : DecidablePred InLoop := fun pc => by
  cases pc <;> unfold InLoop <;> infer_instance

instance (D : Nat) (s : App) (l : Label) : Decidable (Prompt D s l) := by
  cases l <;> unfold Prompt <;> infer_instance

instance (k : Nat) (m : Inbound) : Decidable (HandlesWhole k m) := by
  cases m <;> unfold HandlesWhole ReadsWhole <;> infer_instance

instance (s : App) (l : Label) : Decidable (WholeReads s l) := by
  cases l <;> unfold WholeReads <;> infer_instance

/-- A statement whose call succeeds, and reads `k` bytes if it reads. -/
def succeeds (k : Nat) : Label := .statement ⟨true, [], k⟩

def issuedAnswer : Packet :=
  ⟨provisionTopicResponse,
    ascii "\x7b\"status\":\"SUCCESS\",\"credentialsValue\":\"vine\"\x7d"⟩

def statusRequest : Packet :=
  ⟨ascii "v1/devices/me/rpc/request/7", ascii "\x7b\"method\":\"getStatus\"\x7d"⟩

def rebootRequest : Packet :=
  ⟨ascii "v1/devices/me/rpc/request/8", ascii "\x7b\"method\":\"reboot\"\x7d"⟩

/-- The client is provisioned and connects, publishes a reading, answers a
request and is restarted. -/
def sampleSession : List Label :=
  [ succeeds 0, succeeds 0, .l4Event true, succeeds 0, succeeds 0, succeeds 0
  , .statement ⟨true, [.connack 0, .answer issuedAnswer issuedAnswer.payload.length], 0⟩
  , succeeds 0, succeeds 0
  , .arrive (.connack 0), succeeds 0, succeeds 0, succeeds 0, succeeds 0, succeeds 0, succeeds 0
  , .arrive (.publish statusRequest), .elapse 400, succeeds 0, succeeds 22, succeeds 0, succeeds 0
  , .arrive (.publish rebootRequest), .elapse 300, succeeds 0, succeeds 19 ]

def sampleConfig : Config := ⟨false, ⟨ascii "zephyr", ascii "key", ascii "secret"⟩⟩

/-- In the sample the last reading is 700 milliseconds old. -/
theorem telemetry_on_time_sample : ∃ s,
    ((application sampleConfig).guarded (Prompt 500)).exec (start 0) sampleSession = some s ∧
    InLoop s.pc ∧ s.now = 700 ∧ Lawful AppLaw s.acts ∧
    ∃ u, Beat s.acts u ∧ s.now ≤ u + 10000 + 2 * 500 := by
  obtain ⟨s, hexec, hloop, hnow⟩ := Machine.exists_of_any
    (p := fun s : App => InLoop s.pc ∧ s.now = 700)
    (o := ((application sampleConfig).guarded (Prompt 500)).exec (start 0) sampleSession)
    (by decide +kernel)
  have hreach : ((application sampleConfig).guarded (Prompt 500)).Reachable s :=
    Machine.Reachable.exec (.init ⟨0, rfl⟩) hexec
  have hlaws := telemetry_on_time sampleConfig 500
  have hprompt : (application sampleConfig).Reach (Prompt 500) s := .of_guarded hreach
  have hany : (application sampleConfig).Reachable s :=
    hprompt.invariant (I := fun s => (application sampleConfig).Reachable s)
      (fun _ hs => .init hs) fun _ _ _ _ hs _ hnext => hs.step trivial hnext
  exact ⟨s, hexec, hloop, hnow, hlaws.1 s hany, hlaws.2 s hprompt hloop⟩

/-- In the sample four messages were said, and the device restarts. -/
theorem session_exact_sample : ∃ s,
    ((application sampleConfig).guarded WholeReads).exec (start 0) sampleSession = some s ∧
    s.main.sent.length = 4 ∧ s.main.rebooted = true ∧
    s.main.sent = spoken 0 s.acts ∧ AskedToRestart s.acts := by
  obtain ⟨s, hexec, hlength, hdown⟩ := Machine.exists_of_any
    (p := fun s : App => s.main.sent.length = 4 ∧ s.main.rebooted = true)
    (o := ((application sampleConfig).guarded WholeReads).exec (start 0) sampleSession)
    (by decide +kernel)
  have hreach : ((application sampleConfig).guarded WholeReads).Reachable s :=
    Machine.Reachable.exec (.init ⟨0, rfl⟩) hexec
  have hexact := session_exact (Machine.Reach.of_guarded hreach)
  exact ⟨s, hexec, hlength, hdown, hexact.1, hexact.2.mp hdown⟩

end Winegrid.Zephyr.App
