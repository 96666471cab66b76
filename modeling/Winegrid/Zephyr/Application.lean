import Winegrid.Zephyr.Provisioning
import Winegrid.Lib.History

/-!
# The Zephyr application

`main` of `main.c` and `thingsboard_run` of `thingsboard_mqtt.c` as one
machine.  The main thread takes one statement at a time; between two of them
time passes, the network comes up and packets arrive.  A label of the thread
brings the answers of the calls that its statement makes.

`acts` is the history, with the uptime of each entry, and `turnStart` is when
the turn of the loop began.  No statement reads either of them.

* `AppLaw` is what must have happened before.
* `Moves` is what a statement does, and `orderly_reach` the run law.
-/

namespace Winegrid.Zephyr

/-- What `mqtt_input` finds on the main connection.  `other` stands for the
acknowledgements and ping responses. -/
inductive Inbound where
  | connack (result : Int)
  | publish (p : Packet)
  | other
  | closed
  deriving DecidableEq

namespace App

/-- `CONFIG_WIFI`, and what the provisioning request contains. -/
structure Config where
  wifi : Bool
  identity : Identity

inductive Act where
  /-- A request to connect the interface was accepted. -/
  | requested
  /-- `NET_EVENT_L4_CONNECTED`. -/
  | networkUp
  /-- `mqtt_connect` of the main client, with its user name. -/
  | connects (username : Bytes)
  /-- The loop is entered. -/
  | enters
  | delivered (m : Inbound)
  | telemetry
  deriving DecidableEq

/-- The statements of `main` and `thingsboard_run`. -/
inductive Pc where
  | netIfUp
  | wifiAutoConnect
  | connMgrIfConnect (waitForNetwork : Bool)
  | takeSem
  | tlsInit
  | resolveBroker
  | runProvisioning
  | mqttConnect (accessToken : Bytes)
  | firstNext
  | waitSocket
  | mqttInput
  | mqttLive
  | check
  | publishTelemetry
  | next
  | returned
  deriving DecidableEq

/-- The answers of the calls of a statement: whether the call succeeds (or
`wait_socket` is positive), the turns of the waiting loop of
`run_provisioning`, and how many bytes the read of a payload answers. -/
structure Outcome where
  ok : Bool
  turns : List Turn
  read : Nat

end App

/-- The statics of the two files.  `main` is `s_client` with the statics of its
handlers, and `networkUp` is the count of `network_connected_sem`. -/
structure App where
  pc : App.Pc
  networkUp : Bool
  provisioning : Provisioning
  main : Client
  inbox : List Inbound
  isOpen : Bool
  now : Nat
  nextTelemetry : Nat
  turnStart : Nat
  acts : List (Nat × App.Act)

namespace App

inductive Label where
  | elapse (ms : Nat)
  /-- `l4_event_handler`. -/
  | l4Event (connected : Bool)
  | arrive (m : Inbound)
  /-- The next statement of the main thread. -/
  | statement (o : Outcome)

/-- What a read of the provisioning answer may answer. -/
def readsAllowed : Turn → Bool
  | .answer p k => decide (ReadAllowed (readLen p.payload.length) p.payload.length k)
  | _ => true

def act (s : App) (a : Act) : App := { s with acts := s.acts ++ [(s.now, a)] }

def goto (s : App) (pc : Pc) : App := { s with pc := pc }

/-- A request to connect the interface. -/
def request (s : App) (ok : Bool) (pc : Pc) : App :=
  if ok then (s.act .requested).goto pc else s.goto pc

/-- The top of the loop. -/
def turn (s : App) : App := { s with pc := .waitSocket, turnStart := s.now }

/-- `main_evt_handler`, for what was read from the connection. -/
def handle (s : App) (k : Nat) : Inbound → App
  | .connack result => { s with main := mainEvtHandler s.now (.connack result) k s.main }
  | .publish p =>
    let c := { s.main with remaining := p.payload }
    { s with main := mainEvtHandler s.now (.publish p.topic p.payload.length) k c }
  | .other => { s with main := mainEvtHandler s.now .other k s.main }
  | .closed => { s with main := mainEvtHandler s.now .disconnect k s.main, isOpen := false }

/-- The reads of a payload that `mqtt_input` may lead to. -/
def handles (k : Nat) : Inbound → Bool
  | .publish p => decide (ReadAllowed (readLen p.payload.length) p.payload.length k)
  | _ => true

/-- `mqtt_input`: nothing on a closed connection or while a payload is unread,
else the next of what has arrived. -/
def mqttInput (s : App) (k : Nat) : Option App :=
  if !s.isOpen || !s.main.remaining.isEmpty then some s
  else
    match s.inbox with
    | [] => some s
    | m :: rest =>
      if handles k m then some (({ s with inbox := rest }.act (.delivered m)).handle k m) else none

/-- `run_provisioning`, and where its result leads. -/
def provision (C : Config) (o : Outcome) (s : App) : App :=
  let p := if o.ok then provisioningLoop C.identity o.turns { s.provisioning with done := false }
    else s.provisioning
  { s with
    provisioning := p
    pc := match Zephyr.runProvisioning C.identity o.ok o.turns s.provisioning with
      | none => .returned
      | some token => .mqttConnect token }

/-- `client_configure` and `mqtt_connect` of the main client. -/
def connect (s : App) (username : Bytes) : App :=
  { s.act (.connects username) with
    main := { s.provisioning.client with remaining := [], sent := [] }
    isOpen := true
    pc := .firstNext }

/-- The next statement. -/
def statement (C : Config) (s : App) (o : Outcome) : Option App :=
  match s.pc with
  | .netIfUp =>
    if !o.ok then some (s.goto .returned)
    else some (s.goto (if C.wifi then .wifiAutoConnect else .connMgrIfConnect false))
  | .wifiAutoConnect => some (s.request o.ok (.connMgrIfConnect o.ok))
  | .connMgrIfConnect waitForNetwork =>
    some (s.request o.ok (if waitForNetwork || o.ok then .takeSem else .tlsInit))
  | .takeSem => if s.networkUp then some { s with networkUp := false, pc := .tlsInit } else none
  | .tlsInit => some (s.goto (if o.ok then .resolveBroker else .returned))
  | .resolveBroker => some (s.goto (if o.ok then .runProvisioning else .returned))
  | .runProvisioning => if o.turns.all readsAllowed then some (s.provision C o) else none
  | .mqttConnect accessToken =>
    if o.ok then some (s.connect accessToken) else some (s.goto .returned)
  | .firstNext => some { (s.act .enters).turn with nextTelemetry := s.now }
  | .waitSocket => some (s.goto (if o.ok then .mqttInput else .mqttLive))
  | .mqttInput => (s.mqttInput o.read).map (goto · .mqttLive)
  | .mqttLive => some (s.goto .check)
  | .check => if s.nextTelemetry ≤ s.now then some (s.goto .publishTelemetry) else some s.turn
  | .publishTelemetry =>
    some { s.act .telemetry with main := Zephyr.publishTelemetry s.main, pc := .next }
  | .next => some { s.turn with nextTelemetry := s.now + 10000 }
  | .returned => none

/-- A step; after `sys_reboot` there is none. -/
def step (C : Config) (s : App) (l : Label) : Option App :=
  if s.main.rebooted then none
  else match l with
    | .elapse ms => some { s with now := s.now + ms }
    | .l4Event connected =>
      if connected then some ({ s with networkUp := true }.act .networkUp) else some s
    | .arrive m => some { s with inbox := s.inbox ++ [m] }
    | .statement o => s.statement C o

def start (now : Nat) : App :=
  ⟨.netIfUp, false, .start, Provisioning.start.client, [], false, now, 0, 0, []⟩

/-- The application, from its start. -/
def application (C : Config) : Machine App Label where
  init s := ∃ now, s = start now
  next := step C

variable {C : Config} {s t : App} {past : List (Nat × Act)} {pc : Pc}

/-! ## The order of things -/

def Happened (a : Act) (past : List (Nat × Act)) : Prop := ∃ t, (t, a) ∈ past

/-- What must have happened before: the interface is up before the client
connects, if a request to connect it was accepted; the client connects once,
with a token; the loop is entered after that, and in the loop the telemetry is
published at intervals of at least ten seconds. -/
def AppLaw (past : List (Nat × Act)) : Nat × Act → Prop
  | (_, .connects username) =>
    0 < username.length ∧ username.length < 64 ∧ (∀ token, ¬ Happened (.connects token) past) ∧
      (Happened .requested past → Happened .networkUp past)
  | (_, .enters) => ∃ token, Happened (.connects token) past
  | (_, .delivered _) => Happened .enters past
  | (now, .telemetry) =>
    Happened .enters past ∧ ∀ t, (t, .telemetry) ∈ past → t + 10000 ≤ now
  | _ => True

/-- The main client has not connected. -/
def Unconnected (past : List (Nat × Act)) : Prop :=
  (∀ token, ¬ Happened (.connects token) past) ∧ ¬ Happened .telemetry past

def NetworkReady (past : List (Nat × Act)) : Prop :=
  Happened .requested past → Happened .networkUp past

/-- What has happened when the thread is at the statement. -/
def Stage (s : App) : Pc → Prop
  | .netIfUp | .wifiAutoConnect => Unconnected s.acts ∧ ¬ Happened .requested s.acts
  | .connMgrIfConnect waitForNetwork =>
    Unconnected s.acts ∧ (waitForNetwork = false → ¬ Happened .requested s.acts)
  | .takeSem => Unconnected s.acts
  | .tlsInit | .resolveBroker | .runProvisioning => Unconnected s.acts ∧ NetworkReady s.acts
  | .mqttConnect token =>
    Unconnected s.acts ∧ NetworkReady s.acts ∧ 0 < token.length ∧ token.length < 64
  | .firstNext => (∃ token, Happened (.connects token) s.acts) ∧ ¬ Happened .telemetry s.acts
  | .publishTelemetry => Happened .enters s.acts ∧ s.nextTelemetry ≤ s.now
  | .waitSocket | .mqttInput | .mqttLive | .check | .next => Happened .enters s.acts
  | .returned => True

/-- The history is lawful, and the thread fits it. -/
structure Orderly (s : App) : Prop where
  law : Lawful AppLaw s.acts
  clock : ∀ t, (t, .telemetry) ∈ s.acts → t ≤ s.now
  due : s.pc ≠ .next → ∀ t, (t, .telemetry) ∈ s.acts → t + 10000 ≤ s.nextTelemetry
  up : s.networkUp = true → Happened .networkUp s.acts
  stage : Stage s s.pc

theorem Happened.mono {a : Act} (h : Happened a past) (more : List (Nat × Act)) :
    Happened a (past ++ more) := by
  obtain ⟨t, ht⟩ := h
  exact ⟨t, List.mem_append_left _ ht⟩

theorem happened_concat {a b : Act} {now : Nat} :
    Happened a (past ++ [(now, b)]) ↔ Happened a past ∨ a = b := by
  constructor
  · intro ⟨t, ht⟩
    rcases List.mem_append.mp ht with ht | ht
    · exact Or.inl ⟨t, ht⟩
    · exact Or.inr (Prod.mk.inj (List.mem_singleton.mp ht)).2
  · intro h
    rcases h with h | h
    · exact h.mono _
    · exact ⟨now, by simp [h]⟩

theorem Unconnected.concat (h : Unconnected past) {a : Act} {now : Nat}
    (hconnects : ∀ token, a ≠ .connects token) (htelemetry : a ≠ .telemetry) :
    Unconnected (past ++ [(now, a)]) := by
  refine ⟨fun token hmem => ?_, fun hmem => ?_⟩
  · rcases happened_concat.mp hmem with hmem | heq
    · exact h.1 token hmem
    · exact hconnects token heq.symm
  · rcases happened_concat.mp hmem with hmem | heq
    · exact h.2 hmem
    · exact htelemetry heq.symm

/-- A step that adds nothing to the history. -/
theorem Orderly.quiet (h : Orderly s) (hacts : t.acts = s.acts) (hnow : s.now ≤ t.now)
    (hdue : t.pc ≠ .next → ∀ u, (u, .telemetry) ∈ s.acts → u + 10000 ≤ t.nextTelemetry)
    (hup : t.networkUp = true → s.networkUp = true) (hstage : Stage t t.pc) : Orderly t where
  law := hacts ▸ h.law
  clock u hu := Nat.le_trans (h.clock u (hacts ▸ hu)) hnow
  due hpc u hu := hdue hpc u (hacts ▸ hu)
  up htrue := by
    rw [hacts]
    exact h.up (hup htrue)
  stage := hstage

/-- A step that adds something other than telemetry. -/
theorem Orderly.note (h : Orderly s) {a : Act} (hacts : t.acts = s.acts ++ [(s.now, a)])
    (ha : a ≠ .telemetry) (hlaw : AppLaw s.acts (s.now, a)) (hnow : t.now = s.now)
    (hdue : t.pc ≠ .next → ∀ u, (u, .telemetry) ∈ s.acts → u + 10000 ≤ t.nextTelemetry)
    (hup : t.networkUp = true → Happened .networkUp t.acts) (hstage : Stage t t.pc) :
    Orderly t := by
  have hold : ∀ u, (u, .telemetry) ∈ t.acts → (u, .telemetry) ∈ s.acts := by
    intro u hu
    rw [hacts] at hu
    rcases List.mem_append.mp hu with hu | hu
    · exact hu
    · exact absurd (Prod.mk.inj (List.mem_singleton.mp hu)).2.symm ha
  exact {
    law := by
      rw [hacts]
      exact lawful_concat.mpr ⟨h.law, hlaw⟩
    clock := fun u hu => hnow ▸ h.clock u (hold u hu)
    due := fun hpc u hu => hdue hpc u (hold u hu)
    up := hup
    stage := hstage }

/-! ## Steps -/

/-- A token that `run_provisioning` returns fits its buffer. -/
theorem token_fits {id : Identity} {connects : Bool} {turns : List Turn} {p : Provisioning}
    {token : Bytes} (h : Zephyr.runProvisioning id connects turns p = some token) :
    0 < token.length ∧ token.length < 64 := by
  simp only [Zephyr.runProvisioning] at h
  split_ifs at h with _ hfailed
  rw [Bool.or_eq_true, decide_eq_true_eq, not_or] at hfailed
  have hlength := congrArg List.length (Option.some.inj h)
  rw [strncpy, List.length_take] at hlength
  omega

/-- `mqtt_input` adds what it delivers. -/
theorem mqttInput_cases {k : Nat} (h : s.mqttInput k = some t) :
    t = s ∨ ∃ m rest, s.inbox = m :: rest ∧
      t = (({ s with inbox := rest }.act (.delivered m)).handle k m) := by
  unfold mqttInput at h
  split_ifs at h
  · exact Or.inl (Option.some.inj h).symm
  · rcases hbox : s.inbox with _ | ⟨m, rest⟩
    · simp only [hbox] at h
      exact Or.inl (Option.some.inj h).symm
    · simp only [hbox] at h
      split_ifs at h
      exact Or.inr ⟨m, rest, rfl, (Option.some.inj h).symm⟩

/-- A handler changes the client, and whether the connection is open. -/
theorem handle_frame (s : App) (k : Nat) (m : Inbound) :
    ∃ main isOpen, s.handle k m = { s with main := main, isOpen := isOpen } := by
  cases m <;> exact ⟨_, _, rfl⟩

/-- What a statement does. -/
inductive Moves (C : Config) (s : App) (o : Outcome) : App → Prop where
  /-- `main` or `thingsboard_run` gives up. -/
  | returns (hpc : s.pc ≠ .next) : Moves C s o (s.goto .returned)
  | netIfUp (hpc : s.pc = .netIfUp) :
    Moves C s o (s.goto (if C.wifi then .wifiAutoConnect else .connMgrIfConnect false))
  | wifiAutoConnect (hpc : s.pc = .wifiAutoConnect) :
    Moves C s o (s.request o.ok (.connMgrIfConnect o.ok))
  | connMgrIfConnect {w : Bool} (hpc : s.pc = .connMgrIfConnect w) :
    Moves C s o (s.request o.ok (if w || o.ok then .takeSem else .tlsInit))
  | takeSem (hpc : s.pc = .takeSem) (hup : s.networkUp = true) :
    Moves C s o { s with networkUp := false, pc := .tlsInit }
  | tlsInit (hpc : s.pc = .tlsInit) : Moves C s o (s.goto .resolveBroker)
  | resolveBroker (hpc : s.pc = .resolveBroker) : Moves C s o (s.goto .runProvisioning)
  | runProvisioning (hpc : s.pc = .runProvisioning) : Moves C s o (s.provision C o)
  | mqttConnect {token : Bytes} (hpc : s.pc = .mqttConnect token) : Moves C s o (s.connect token)
  | firstNext (hpc : s.pc = .firstNext) :
    Moves C s o { (s.act .enters).turn with nextTelemetry := s.now }
  | waitSocket (hpc : s.pc = .waitSocket) :
    Moves C s o (s.goto (if o.ok then .mqttInput else .mqttLive))
  /-- `mqtt_input` finds nothing. -/
  | silent (hpc : s.pc = .mqttInput) : Moves C s o (s.goto .mqttLive)
  | delivers {m : Inbound} {rest : List Inbound} (hpc : s.pc = .mqttInput)
    (hbox : s.inbox = m :: rest) :
    Moves C s o ((({ s with inbox := rest }.act (.delivered m)).handle o.read m).goto .mqttLive)
  | mqttLive (hpc : s.pc = .mqttLive) : Moves C s o (s.goto .check)
  | due (hpc : s.pc = .check) (hnow : s.nextTelemetry ≤ s.now) :
    Moves C s o (s.goto .publishTelemetry)
  | notDue (hpc : s.pc = .check) (hnow : s.now ≤ s.nextTelemetry) : Moves C s o s.turn
  | publishTelemetry (hpc : s.pc = .publishTelemetry) :
    Moves C s o { s.act .telemetry with main := Zephyr.publishTelemetry s.main, pc := .next }
  | next (hpc : s.pc = .next) : Moves C s o { s.turn with nextTelemetry := s.now + 10000 }

theorem moves_of_statement {o : Outcome} (h : s.statement C o = some t) : s.Moves C o t := by
  unfold statement at h
  cases hpc : s.pc with
  | netIfUp =>
    simp only [hpc] at h
    by_cases hok : (!o.ok) = true
    · rw [if_pos hok] at h
      cases h
      exact .returns (by simp [hpc])
    · rw [if_neg hok] at h
      cases h
      exact .netIfUp hpc
  | wifiAutoConnect =>
    simp only [hpc] at h
    cases h
    exact .wifiAutoConnect hpc
  | connMgrIfConnect w =>
    simp only [hpc] at h
    cases h
    exact .connMgrIfConnect hpc
  | takeSem =>
    simp only [hpc] at h
    split_ifs at h with hup
    cases h
    exact .takeSem hpc hup
  | tlsInit =>
    simp only [hpc] at h
    cases h
    split_ifs
    · exact .tlsInit hpc
    · exact .returns (by simp [hpc])
  | resolveBroker =>
    simp only [hpc] at h
    cases h
    split_ifs
    · exact .resolveBroker hpc
    · exact .returns (by simp [hpc])
  | runProvisioning =>
    simp only [hpc] at h
    split_ifs at h
    cases h
    exact .runProvisioning hpc
  | mqttConnect token =>
    simp only [hpc] at h
    split_ifs at h <;> cases h
    · exact .mqttConnect hpc
    · exact .returns (by simp [hpc])
  | firstNext =>
    simp only [hpc] at h
    cases h
    exact .firstNext hpc
  | waitSocket =>
    simp only [hpc] at h
    cases h
    exact .waitSocket hpc
  | mqttInput =>
    simp only [hpc] at h
    obtain ⟨r, hr, ht⟩ := Option.map_eq_some_iff.mp h
    subst ht
    rcases mqttInput_cases hr with heq | ⟨m, rest, hbox, heq⟩
    · rw [heq]
      exact .silent hpc
    · rw [heq]
      exact .delivers hpc hbox
  | mqttLive =>
    simp only [hpc] at h
    cases h
    exact .mqttLive hpc
  | check =>
    simp only [hpc] at h
    split_ifs at h with hnow <;> cases h
    · exact .due hpc hnow
    · exact .notDue hpc (Nat.le_of_not_le hnow)
  | publishTelemetry =>
    simp only [hpc] at h
    cases h
    exact .publishTelemetry hpc
  | next =>
    simp only [hpc] at h
    cases h
    exact .next hpc
  | returned => simp [hpc] at h

theorem Orderly.goto {pc' : Pc} (h : Orderly s) (hpc : s.pc ≠ .next) (hstage : Stage s pc') :
    Orderly (s.goto pc') :=
  h.quiet rfl (Nat.le_refl _) (fun _ => h.due hpc) id hstage

theorem Orderly.request {pc' : Pc} {ok : Bool} (h : Orderly s) (hpc : s.pc ≠ .next)
    (htrue : ok = true → Stage (s.request true pc') pc') (hfalse : ok = false → Stage s pc') :
    Orderly (s.request ok pc') := by
  cases ok with
  | false => exact h.goto hpc (hfalse rfl)
  | true =>
    exact h.note (a := .requested) rfl (by simp) trivial rfl (fun _ => h.due hpc)
      (fun hup => (h.up hup).mono _) (htrue rfl)

/-- The main client connects, once. -/
theorem Orderly.connect {token : Bytes} (h : Orderly s) (hpc : s.pc = .mqttConnect token) :
    Orderly (s.connect token) := by
  have hstage := h.stage
  rw [hpc] at hstage
  obtain ⟨hnone, hready, hpos, hlt⟩ := hstage
  refine h.note (a := .connects token) rfl (by simp) ⟨hpos, hlt, hnone.1, hready⟩ rfl
    (fun _ => h.due (by simp [hpc])) (fun hup => (h.up hup).mono _)
    ⟨⟨token, happened_concat.mpr (Or.inr rfl)⟩, fun hmem => ?_⟩
  rcases happened_concat.mp hmem with hmem | heq
  · exact hnone.2 hmem
  · cases heq

/-- A reading that is due. -/
theorem Orderly.telemetry {main : Client} (h : Orderly s) (hpc : s.pc = .publishTelemetry) :
    Orderly { s.act .telemetry with main := main, pc := .next } := by
  have hstage := h.stage
  rw [hpc] at hstage
  have hdue := h.due (by simp [hpc])
  exact {
    law := lawful_concat.mpr ⟨h.law, hstage.1, fun u hu => Nat.le_trans (hdue u hu) hstage.2⟩
    clock := fun u hu => by
      rcases List.mem_append.mp hu with hu | hu
      · exact h.clock u hu
      · exact Nat.le_of_eq (Prod.mk.inj (List.mem_singleton.mp hu)).1
    due := fun hne => absurd rfl hne
    up := fun hup => (h.up hup).mono _
    stage := hstage.1.mono _ }

/-- Every statement keeps the order. -/
theorem orderly_statement {o : Outcome} (h : Orderly s) (hnext : s.statement C o = some t) :
    Orderly t := by
  have hstage := h.stage
  cases moves_of_statement hnext with
  | returns hpc => exact h.goto hpc trivial
  | netIfUp hpc =>
    rw [hpc] at hstage
    refine h.goto (by simp [hpc]) ?_
    split_ifs
    · exact hstage
    · exact ⟨hstage.1, fun _ => hstage.2⟩
  | wifiAutoConnect hpc =>
    rw [hpc] at hstage
    refine h.request (by simp [hpc]) (fun hok => ?_) fun hok => ⟨hstage.1, fun _ => hstage.2⟩
    refine ⟨hstage.1.concat (by simp) (by simp), fun hfalse => ?_⟩
    exact absurd (hok.symm.trans hfalse) (by simp)
  | @connMgrIfConnect w hpc =>
    rw [hpc] at hstage
    refine h.request (by simp [hpc]) (fun hok => ?_) (fun hok => ?_)
    · rw [hok, Bool.or_true, if_pos rfl]
      exact hstage.1.concat (by simp) (by simp)
    · rw [hok, Bool.or_false]
      cases w with
      | true => exact hstage.1
      | false => exact ⟨hstage.1, fun hasked => absurd hasked (hstage.2 rfl)⟩
  | takeSem hpc hup =>
    rw [hpc] at hstage
    exact h.quiet rfl (Nat.le_refl _) (fun _ => h.due (by simp [hpc]))
      (fun hfalse => by cases hfalse) ⟨hstage, fun _ => h.up hup⟩
  | tlsInit hpc | resolveBroker hpc | silent hpc | mqttLive hpc =>
    rw [hpc] at hstage
    exact h.goto (by simp [hpc]) hstage
  | runProvisioning hpc =>
    rw [hpc] at hstage
    refine h.quiet rfl (Nat.le_refl _) (fun _ => h.due (by simp [hpc])) id ?_
    unfold provision
    rcases htoken : Zephyr.runProvisioning C.identity o.ok o.turns s.provisioning with _ | token
    · trivial
    · exact ⟨hstage.1, hstage.2, token_fits htoken⟩
  | mqttConnect hpc => exact h.connect hpc
  | firstNext hpc =>
    rw [hpc] at hstage
    obtain ⟨hconnects, hnone⟩ := hstage
    exact h.note (a := .enters) rfl (by simp) hconnects rfl
      (fun _ u hu => absurd ⟨u, hu⟩ hnone) (fun hup => (h.up hup).mono _)
      (happened_concat.mpr (Or.inr rfl))
  | waitSocket hpc =>
    rw [hpc] at hstage
    refine h.goto (by simp [hpc]) ?_
    split_ifs <;> exact hstage
  | @delivers m rest hpc hbox =>
    rw [hpc] at hstage
    obtain ⟨main, isOpen, hframe⟩ := handle_frame ({ s with inbox := rest }.act (.delivered m))
      o.read m
    rw [hframe]
    exact h.note (a := .delivered m) rfl (by simp) hstage rfl (fun _ => h.due (by simp [hpc]))
      (fun hup => (h.up hup).mono _) (Happened.mono hstage _)
  | due hpc hnow =>
    rw [hpc] at hstage
    exact h.goto (by simp [hpc]) ⟨hstage, hnow⟩
  | notDue hpc hnow =>
    rw [hpc] at hstage
    exact h.quiet rfl (Nat.le_refl _) (fun _ => h.due (by simp [hpc])) id hstage
  | publishTelemetry hpc => exact h.telemetry hpc
  | next hpc =>
    rw [hpc] at hstage
    exact h.quiet rfl (Nat.le_refl _)
      (fun _ u hu => Nat.add_le_add_right (h.clock u hu) 10000) id hstage

/-- Nothing waits for the network to stay down. -/
theorem stage_networkUp (h : Stage s pc) :
    Stage (act { s with networkUp := true } .networkUp) pc := by
  have hnone : Unconnected s.acts → Unconnected (s.acts ++ [(s.now, .networkUp)]) :=
    fun h => h.concat (by simp) (by simp)
  have hready : NetworkReady (s.acts ++ [(s.now, .networkUp)]) :=
    fun _ => happened_concat.mpr (Or.inr rfl)
  have hasked : ¬ Happened .requested s.acts →
      ¬ Happened .requested (s.acts ++ [(s.now, .networkUp)]) := by
    intro h hmem
    rcases happened_concat.mp hmem with hmem | heq
    · exact h hmem
    · cases heq
  cases pc with
  | netIfUp | wifiAutoConnect => exact ⟨hnone h.1, hasked h.2⟩
  | connMgrIfConnect w => exact ⟨hnone h.1, fun hw => hasked (h.2 hw)⟩
  | takeSem => exact hnone h
  | tlsInit | resolveBroker | runProvisioning => exact ⟨hnone h.1, hready⟩
  | mqttConnect token => exact ⟨hnone h.1, hready, h.2.2⟩
  | firstNext =>
    obtain ⟨⟨token, htoken⟩, htelemetry⟩ := h
    refine ⟨⟨token, htoken.mono _⟩, fun hmem => ?_⟩
    rcases happened_concat.mp hmem with hmem | heq
    · exact htelemetry hmem
    · cases heq
  | publishTelemetry => exact ⟨h.1.mono _, h.2⟩
  | waitSocket | mqttInput | mqttLive | check | next => exact Happened.mono h _
  | returned => trivial

/-- Every step keeps the order. -/
theorem orderly_step {l : Label} (h : Orderly s) (hnext : s.step C l = some t) : Orderly t := by
  unfold step at hnext
  split_ifs at hnext
  cases l with
  | elapse ms =>
    cases hnext
    have hstage := h.stage
    refine h.quiet rfl (Nat.le_add_right _ _) h.due id ?_
    cases hpc : s.pc with
    | publishTelemetry =>
      rw [hpc] at hstage
      exact ⟨hstage.1, Nat.le_trans hstage.2 (Nat.le_add_right _ _)⟩
    | _ =>
      rw [hpc] at hstage
      exact hstage
  | l4Event connected =>
    cases connected with
    | false =>
      cases hnext
      exact h
    | true =>
      cases hnext
      exact h.note (a := .networkUp) rfl (by simp) trivial rfl h.due
        (fun _ => happened_concat.mpr (Or.inr rfl)) (stage_networkUp h.stage)
  | arrive m =>
    cases hnext
    have hstage := h.stage
    refine h.quiet rfl (Nat.le_refl _) h.due id ?_
    cases hpc : s.pc <;> rw [hpc] at hstage <;> exact hstage
  | statement o => exact orderly_statement h hnext

theorem orderly_reach (h : (application C).Reachable s) : Orderly s := by
  refine h.invariant (I := Orderly) ?_ fun _ _ _ _ hs _ hnext => orderly_step hs hnext
  intro s ⟨now, hs⟩
  subst hs
  have hnone : ∀ a, ¬ Happened a [] := by
    intro a ⟨t, ht⟩
    exact absurd ht List.not_mem_nil
  exact {
    law := lawful_nil
    clock := fun u hu => absurd hu List.not_mem_nil
    due := fun _ u hu => absurd hu List.not_mem_nil
    up := fun hup => by cases hup
    stage := ⟨⟨fun token => hnone _, hnone _⟩, hnone _⟩ }

end App

end Winegrid.Zephyr
