import Winegrid.ThingsBoard.Reports

/-!
# The client and its network

The client asks for one chunk at a time, and only an answer makes it ask for
the next one.  `Net` puts the messages between the two: chunk requests that
the server has not answered, and answers that have not been delivered.  A
disconnect loses every answer on its way, and an answer that is sent while the
client is offline is lost too.

* `net P` is the machine of one boot with its messages, over every order of
  requests, answers, disconnects and reconnects.
* `Flows` is the invariant: a download has exactly one message in flight.
* `flows_next` is the step lemma, and `download_never_stalls` the law of the
  runs that lose no message of the current attempt.
* `lost_answer_stalls` is a run that loses one.
-/

namespace Winegrid.ThingsBoard

open Esp Client

variable {P : Platform} {c c' : Client} {o : Outcomes} {l : Label}

/-! ## Messages -/

/-- The chunk requests among the effects, by their topics. -/
def requested (es : List Effect) : List Bytes := es.filterMap requestOf

/-- The topic of the answer to a request. -/
def answerTopic (request : Bytes) : Bytes :=
  ascii "v2/fw/response/" ++ request.drop fwRequestPrefix.length

/-- The client, the topics of the requests that are not answered yet, and the
answers that are not delivered yet, each with the request it answers. -/
structure Net where
  client : Client
  requests : List Bytes
  responses : List (Bytes × Bytes)

inductive Wire where
  /-- The client takes a step of its own. -/
  | client (l : Label)
  | connect (o : Outcomes)
  | disconnect (o : Outcomes)
  /-- The server answers one of the requests. -/
  | serve (n : Nat) (payload : Bytes)
  /-- One of the answers arrives. -/
  | deliver (n : Nat) (o : Outcomes)

/-- What reaches the client besides the answers: its own timer, and while it
is connected every other message. -/
def Client.admits (c : Client) : Label → Bool
  | .telemetry => true
  | .event _ (.data topic _) => c.mqttConnected && !startsWith topic fwTopicPrefix
  | .event _ .other => true
  | .event _ _ => false

namespace Net

/-- A step of the client sends its requests. -/
def advance (P : Platform) (s : Net) (l : Label) : Option Net :=
  (s.client.next P l).map fun c =>
    { s with
      client := c
      requests := s.requests ++ requested (s.client.journal.since c.journal) }

def next (P : Platform) (s : Net) : Wire → Option Net
  | .client l => if s.client.admits l then s.advance P l else none
  | .connect o => if s.client.mqttConnected then none else s.advance P (.event o .connected)
  | .disconnect o =>
    if s.client.mqttConnected then
      { s with responses := [] }.advance P (.event o .disconnected)
    else none
  | .serve n payload =>
    s.requests[n]?.map fun request =>
      { s with
        requests := s.requests.eraseIdx n
        responses := s.responses ++ if s.client.mqttConnected then [(request, payload)] else [] }
  | .deliver n o =>
    if s.client.mqttConnected then
      s.responses[n]?.bind fun answer =>
        { s with responses := s.responses.eraseIdx n }.advance P
          (.event o (.data (answerTopic answer.1) answer.2))
    else none

/-- The requests behind the messages in flight. -/
def inFlight (s : Net) : List Bytes := s.requests ++ s.responses.map Prod.fst

end Net

/-- One boot, and its messages. -/
def net (P : Platform) : Machine Net Wire where
  init s := ∃ build slot journal, s = ⟨Client.fresh build slot journal, [], []⟩
  next := Net.next P

@[simp] theorem net_next (P : Platform) (s : Net) (w : Wire) : (net P).next s w = s.next P w := rfl

/-- A client that is connected and downloads has a message of its current
attempt in flight. -/
def NeverStalls (s : Net) : Prop :=
  s.client.halt = none → s.client.mqttConnected = true → s.client.dl.inProgress = true →
    ∃ i, requestTopic s.client.dl.requestId i ∈ s.inFlight

/-- No answer of the current attempt is lost: none is on its way at a
disconnect, and none is sent to a client that is offline. -/
def LosesNone (s : Net) : Wire → Prop
  | .disconnect _ => s.client.dl.inProgress = true →
    ∀ i, requestTopic s.client.dl.requestId i ∉ s.responses.map Prod.fst
  | .serve n _ => s.client.dl.inProgress = true → s.client.mqttConnected = false →
    ∀ i, s.requests[n]? ≠ some (requestTopic s.client.dl.requestId i)
  | _ => True

/-- A download has exactly one message in flight, and it is of the current
attempt; without a download there is none. -/
def Carries (c : Client) (messages : List Bytes) : Prop :=
  c.halt = none →
    if c.dl.inProgress then ∃ i, messages = [requestTopic c.dl.requestId i] else messages = []

def Flows (s : Net) : Prop := Carries s.client s.inFlight

/-! ## What a step asks for -/

theorem requested_append (es fs : List Effect) :
    requested (es ++ fs) = requested es ++ requested fs :=
  List.filterMap_append

/-- What a step asks for. -/
inductive Asks (c c' : Client) : List Bytes → Prop where
  | nothing (hprog : c'.dl.inProgress = c.dl.inProgress) (hid : c'.dl.requestId = c.dl.requestId) :
      Asks c c' []
  | first (hidle : c.dl.inProgress = false) (hbusy' : c'.dl.inProgress = true) :
      Asks c c' [requestTopic c'.dl.requestId 0]

theorem asks_nothing (es : List Effect) (hjournal : c'.journal = c.journal.writes es)
    (hes : ∀ e ∈ es, requestOf e = none) (hprog : c'.dl.inProgress = c.dl.inProgress)
    (hid : c'.dl.requestId = c.dl.requestId) :
    Asks c c' (requested (c.journal.since c'.journal)) := by
  have hnone : requested es = [] := List.filterMap_eq_nil_iff.mpr hes
  rw [hjournal, Journal.since_writes, hnone]
  exact .nothing hprog hid

theorem startFwUpdate_asks (hidle : c.dl.inProgress = false) :
    Asks c (c.startFwUpdate o) (requested (c.journal.since (c.startFwUpdate o).journal)) := by
  rcases startFwUpdate_cases c o with ⟨-, p, payload, -, heq⟩ | ⟨-, heq⟩
  · rw [heq]
    refine asks_nothing [.publish telemetryTopic payload] rfl ?_ rfl rfl
    simpa using requestOf_eq_none payload (by decide)
  · rw [heq, beginDownload_eq]
    simp only [setPartition, Journal.since_writes]
    exact .first hidle rfl

theorem handleAttributesPayload_asks (data : Bytes) :
    Asks c (c.handleAttributesPayload P o data)
      (requested (c.journal.since (c.handleAttributesPayload P o data).journal)) := by
  have hsilent : ∀ items, Asks c (c.applyAttributes items)
      (requested (c.journal.since (c.applyAttributes items).journal)) := fun items =>
    asks_nothing [] (applyAttributes_journal c items) (by simp) (by simp) (by simp)
  cases hparse : P.parse data with
  | none =>
    rw [handleAttributesPayload_unparsed hparse]
    exact hsilent []
  | some root =>
    rw [handleAttributesPayload_eq hparse, offer]
    split_ifs with hoffer
    · have hasks := startFwUpdate_asks (o := o) (idle_of_wantsUpdate hoffer.2)
      rw [applyAttributes_journal] at hasks
      generalize requested (c.journal.since
        ((c.applyAttributes (container root).children).startFwUpdate o).journal) = more at hasks ⊢
      cases hasks with
      | nothing hprog hid =>
        rw [applyAttributes_dl] at hprog hid
        exact .nothing hprog hid
      | first hidle hbusy' =>
        rw [applyAttributes_dl] at hidle
        exact .first hidle hbusy'
    · exact hsilent _

/-- A step without a firmware message. -/
theorem next_asks (hadmits : ∀ o topic payload, l = .event o (.data topic payload) →
      startsWith topic fwTopicPrefix = false) (hnext : c.next P l = some c') :
    Asks c c' (requested (c.journal.since c'.journal)) := by
  obtain ⟨-, hmove⟩ := next_move hnext
  cases hmove with
  | aside h =>
    obtain ⟨es, hjournal, hes⟩ := h.effects
    exact asks_nothing _ hjournal (fun e he => (hes e he).requestOf_eq)
      (congrArg Download.inProgress h.dl) (congrArg Download.requestId h.dl)
  | attributes htopic hrpc => exact handleAttributesPayload_asks _
  | chunk htopic => exact absurd ((hadmits _ _ _ rfl).symm.trans htopic) (by decide)

theorem requestOf_telemetry (payload : Bytes) :
    requestOf (.publish telemetryTopic payload) = none :=
  requestOf_eq_none payload (by decide)

theorem requested_failEffects (states : List FwState) {es : List Effect}
    (h : ∀ e ∈ es, requestOf e = none) : requested (failEffects states es) = [] := by
  refine List.filterMap_eq_nil_iff.mpr fun e he => ?_
  simp only [failEffects, List.mem_append, List.mem_map, List.mem_singleton] at he
  rcases he with (⟨state, -, rfl⟩ | he) | rfl
  · exact requestOf_telemetry _
  · exact h e he
  · exact requestOf_telemetry _

theorem requested_installEffects (fw : FwInfo) (slot : Slot) (version : Bytes) :
    requested (installEffects fw slot version) = [] := by
  refine List.filterMap_eq_nil_iff.mpr fun e he => ?_
  simp only [installEffects, List.mem_cons, List.not_mem_nil, or_false] at he
  rcases he with rfl | rfl | rfl | rfl | rfl
  · exact requestOf_telemetry _
  · exact requestOf_telemetry _
  · exact requestOf_telemetry _
  · rfl
  · exact requestOf_telemetry _

/-- The end of an attempt asks for nothing. -/
theorem finishFwUpdate_requested (P : Platform) (c : Client) (o : Outcomes) (success : Bool) :
    requested (c.journal.since (c.finishFwUpdate P o success).journal) = [] := by
  rcases finishFwUpdate_cases P c o success with ⟨states, -, heq⟩ | ⟨-, -, slot, -, heq | heq⟩
  · rw [heq, gaveUp, Journal.since_writes]
    exact requested_failEffects states (by simp)
  · rw [heq, gaveUp, Journal.since_writes]
    exact requested_failEffects _ (by simp [requestOf])
  · rw [heq, installed, Journal.since_writes]
    exact requested_installEffects _ _ _

/-- A firmware message of a download ends it, or asks for one more chunk. -/
theorem handleFwChunkData_carries {data : Bytes} (hbusy : c.dl.inProgress = true) :
    Carries (c.handleFwChunkData P o data)
      (requested (c.journal.since (c.handleFwChunkData P o data).journal)) := by
  have hfinish : ∀ (es : List Effect) {d : Client} {success : Bool},
      d.journal = c.journal.writes es → (∀ e ∈ es, requestOf e = none) →
        Carries (d.finishFwUpdate P o success)
          (requested (c.journal.since (d.finishFwUpdate P o success).journal)) := by
    intro es d success hjournal hes hhalt
    have hnone : requested (c.journal.since d.journal) = [] := by
      rw [hjournal, Journal.since_writes]
      exact List.filterMap_eq_nil_iff.mpr hes
    rw [finishFwUpdate_over hhalt, Journal.since_trans ⟨es, hjournal⟩
      (finishFwUpdate_extends P d o success), requested_append, hnone, finishFwUpdate_requested]
    rfl
  rcases handleFwChunkData_cases P c o data with
    ⟨hidle, -⟩ | ⟨-, heq⟩ | ⟨-, -, -, -, heq⟩ | ⟨-, -, heq⟩
  · exact absurd (hidle.symm.trans hbusy) (by decide)
  · rw [heq]
    exact hfinish [] rfl (by simp)
  · have hjournal : (c.acceptChunk data).nextChunk.journal = c.journal.writes
      [.otaWrite _ data, .publish (requestTopic c.dl.requestId (c.dl.chunkIndex + 1))
        chunkSizePayload] := rfl
    have hprog : (c.acceptChunk data).nextChunk.dl.inProgress = true := hbusy
    intro hhalt
    rw [heq, hprog, hjournal, Journal.since_writes]
    exact ⟨_, rfl⟩
  · rw [heq]
    exact hfinish [.otaWrite _ data] rfl (by simp [requestOf])

/-! ## Steps -/

section Steps

variable {s s' : Net} {w : Wire}

/-- A step of the client alone. -/
theorem flows_advance (h : Flows s)
    (hadmits : ∀ o topic payload, l = .event o (.data topic payload) →
      startsWith topic fwTopicPrefix = false) (hnext : s.advance P l = some s') : Flows s' := by
  obtain ⟨c', hclient, rfl⟩ := Option.map_eq_some_iff.mp hnext
  have hcarries := h (next_step hclient).1
  have hasks := next_asks hadmits hclient
  generalize requested (s.client.journal.since c'.journal) = more at hasks
  intro hhalt'
  unfold Net.inFlight
  cases hasks with
  | nothing hprog hid =>
    rw [List.append_nil, hprog, hid]
    exact hcarries
  | first hidle hbusy' =>
    rw [hidle] at hcarries
    obtain ⟨hrequests, hresponses⟩ := List.append_eq_nil_iff.mp hcarries
    rw [hbusy', hrequests, hresponses]
    exact ⟨0, rfl⟩

/-- The list of one message, without it. -/
theorem eraseIdx_of_singleton {α : Type} {xs : List α} {x : α} {n : Nat} (h : xs[n]? = some x)
    (hlen : xs.length ≤ 1) : xs = [x] ∧ xs.eraseIdx n = [] := by
  obtain ⟨hn, rfl⟩ := List.getElem?_eq_some_iff.mp h
  obtain rfl : n = 0 := by omega
  rcases xs with _ | ⟨x, _ | ⟨y, ys⟩⟩
  · simp at hn
  · exact ⟨rfl, rfl⟩
  · simp at hlen

/-- There is never more than one message in flight. -/
theorem Flows.length_le (h : Flows s) (hhalt : s.client.halt = none) :
    s.requests.length + s.responses.length ≤ 1 := by
  have hlen : s.inFlight.length = s.requests.length + s.responses.length := by
    rw [Net.inFlight, List.length_append, List.length_map]
  have hcarries := h hhalt
  rw [← hlen]
  split at hcarries
  · obtain ⟨i, heq⟩ := hcarries
    rw [heq]
    exact Nat.le_refl 1
  · rw [hcarries]
    exact Nat.zero_le 1

/-- Whoever has a message in flight has a download. -/
theorem Flows.busy (h : Flows s) (hhalt : s.client.halt = none) (hne : s.inFlight ≠ []) :
    s.client.dl.inProgress = true ∧ ∃ i, s.inFlight = [requestTopic s.client.dl.requestId i] := by
  have hcarries := h hhalt
  split at hcarries
  · exact ⟨‹_›, hcarries⟩
  · exact absurd hcarries hne

/-- The client takes the one answer that is on its way. -/
theorem flows_deliver {n : Nat} (h : Flows s) (hnext : s.next P (.deliver n o) = some s') :
    Flows s' := by
  unfold Net.next at hnext
  split_ifs at hnext
  obtain ⟨⟨request, payload⟩, hanswer, hadvance⟩ := Option.bind_eq_some_iff.mp hnext
  obtain ⟨c', hclient, rfl⟩ := Option.map_eq_some_iff.mp hadvance
  have hhalt := (next_step hclient).1
  have hlen := h.length_le hhalt
  obtain ⟨hone, hnone⟩ := eraseIdx_of_singleton hanswer (by omega)
  rw [hone, List.length_singleton] at hlen
  have hrequests : s.requests = [] := List.length_eq_zero_iff.mp (by omega)
  obtain ⟨hbusy, -⟩ := h.busy hhalt (by simp [Net.inFlight, hone])
  have hprefix : startsWith (answerTopic request) fwTopicPrefix = true := rfl
  rw [next_event hhalt, Option.some_inj, mqttEventHandler, if_pos hprefix] at hclient
  subst hclient
  simp only [Flows, Net.inFlight, hnone, hrequests, List.nil_append, List.map_nil, List.append_nil]
  exact handleFwChunkData_carries hbusy

/-- The server answers the one request that there is. -/
theorem flows_serve {n : Nat} {payload : Bytes} (h : Flows s)
    (hloses : LosesNone s (.serve n payload)) (hnext : s.next P (.serve n payload) = some s') :
    Flows s' := by
  obtain ⟨request, hrequest, rfl⟩ := Option.map_eq_some_iff.mp hnext
  intro hhalt
  have hlen := h.length_le hhalt
  obtain ⟨hone, hnone⟩ := eraseIdx_of_singleton hrequest (by omega)
  rw [hone, List.length_singleton] at hlen
  have hresponses : s.responses = [] := List.length_eq_zero_iff.mp (by omega)
  obtain ⟨hbusy, i, hcurrent⟩ := h.busy hhalt (by simp [Net.inFlight, hone])
  have hrequest' : request = requestTopic s.client.dl.requestId i := by
    simpa [Net.inFlight, hone, hresponses] using hcurrent
  have hconnected : s.client.mqttConnected = true := by
    by_contra hoffline
    exact hloses hbusy (by simpa using hoffline) i (hrequest' ▸ hrequest)
  simp only [Net.inFlight, hbusy, hconnected, hnone, hresponses, hrequest', if_true]
  exact ⟨i, rfl⟩

/-- A disconnect finds no answer on its way. -/
theorem flows_disconnect (h : Flows s) (hloses : LosesNone s (.disconnect o))
    (hnext : s.next P (.disconnect o) = some s') : Flows s' := by
  unfold Net.next at hnext
  split_ifs at hnext
  have hhalt : s.client.halt = none := by
    obtain ⟨c', hclient, -⟩ := Option.map_eq_some_iff.mp hnext
    exact (next_step hclient).1
  have hnone : s.responses = [] := by
    by_contra hne
    have hlen := h.length_le hhalt
    have hpos := List.length_pos_iff.mpr hne
    have hrequests : s.requests = [] := List.length_eq_zero_iff.mp (by omega)
    obtain ⟨hbusy, i, hcurrent⟩ := h.busy hhalt (by simp [Net.inFlight, hne])
    refine hloses hbusy i ?_
    rw [Net.inFlight, hrequests, List.nil_append] at hcurrent
    rw [hcurrent]
    exact List.mem_singleton_self _
  have hsame : { s with responses := [] } = s := by rw [← hnone]
  rw [hsame] at hnext
  exact flows_advance h (fun _ _ _ heq => by cases heq) hnext

/-- Every step that loses no answer keeps the messages flowing. -/
theorem flows_next (h : Flows s) (hloses : LosesNone s w) (hnext : s.next P w = some s') :
    Flows s' := by
  cases w with
  | client l =>
    simp only [Net.next] at hnext
    split_ifs at hnext with hadmits
    refine flows_advance h (fun o topic payload heq => ?_) hnext
    subst heq
    simpa using (Bool.and_eq_true_iff.mp hadmits).2
  | connect o =>
    unfold Net.next at hnext
    split_ifs at hnext
    exact flows_advance h (fun _ _ _ heq => by cases heq) hnext
  | disconnect o => exact flows_disconnect h hloses hnext
  | serve n payload => exact flows_serve h hloses hnext
  | deliver n o => exact flows_deliver h hnext

end Steps

/-! ## Runs -/

/-- In every run that loses no answer of the current attempt, a client that is
connected and downloads has a message of that attempt in flight. -/
theorem download_never_stalls {s : Net} (h : (net P).Reach LosesNone s) : NeverStalls s := by
  have hflows : Flows s := by
    refine h.invariant (I := Flows) ?_ fun _ _ _ _ hs hok hnext => flows_next hs hok hnext
    rintro s ⟨build, slot, journal, rfl⟩ -
    exact rfl
  intro hhalt _ hbusy
  have hcarries := hflows hhalt
  rw [hbusy] at hcarries
  obtain ⟨i, heq⟩ := hcarries
  exact ⟨i, heq ▸ List.mem_singleton_self _⟩

/-- A boot without a message. -/
def sampleNet : Net := ⟨sampleClient, [], []⟩

theorem sampleNet_init (packages : List Package) : (net (samplePlatform packages)).init sampleNet :=
  ⟨_, _, _, rfl⟩

/-- The client connects, and version 1.8 is offered. -/
def offerWires : List Wire :=
  [.connect allOk, .client (.event allOk (.data attributesTopic package18.text))]

/-- The connection breaks before the server answers: after the reconnect the
request is still in flight. -/
theorem download_never_stalls_reconnected :
    ∃ s : Net, s.client.mqttConnected = true ∧ s.client.dl.inProgress = true ∧
      ∃ i, requestTopic s.client.dl.requestId i ∈ s.inFlight := by
  have hrun : ((net (samplePlatform [package18])).exec sampleNet offerWires).any (fun s =>
      s.responses = [] ∧ (s.next (samplePlatform [package18]) (.disconnect allOk)).any (fun t =>
        (t.next (samplePlatform [package18]) (.connect allOk)).any (fun u =>
          u.client.halt = none ∧ u.client.mqttConnected = true ∧ u.client.dl.inProgress = true)) =
      true) = true := by decide +kernel
  obtain ⟨s, hexec, hnone, ht⟩ := Machine.exists_of_any hrun
  obtain ⟨t, hdisconnect, hu⟩ := (Option.any_eq_true _ _).mp ht
  obtain ⟨u, hconnect, hhalt, hconnected, hbusy⟩ := Machine.exists_of_any hu
  have hreach : (net (samplePlatform [package18])).Reach LosesNone s := by
    refine Machine.Reach.exec (.init (sampleNet_init _)) (fun w hw _ => ?_) hexec
    simp only [offerWires, List.mem_cons, List.not_mem_nil, or_false] at hw
    rcases hw with rfl | rfl <;> exact trivial
  have hloses : LosesNone s (.disconnect allOk) := fun _ i hmem => by
    rw [hnone] at hmem
    cases hmem
  have hreach' : (net (samplePlatform [package18])).Reach LosesNone u :=
    (hreach.step hloses hdisconnect).step (l := .connect allOk) trivial hconnect
  exact ⟨u, hconnected, hbusy, download_never_stalls hreach' hhalt hconnected hbusy⟩

/-- Version 1.8 is offered, and the connection breaks before the answer
arrives: the client is connected again, and waits for ever. -/
theorem lost_answer_stalls :
    ¬ ∀ s, (net (samplePlatform [package18])).Reachable s → NeverStalls s := by
  intro h
  have hrun : ((net (samplePlatform [package18])).exec sampleNet
      (offerWires ++ [.serve 0 (ascii "abc"), .disconnect allOk, .connect allOk])).any (fun s =>
        s.client.halt = none ∧ s.client.mqttConnected = true ∧ s.client.dl.inProgress = true ∧
          s.inFlight = []) = true := by decide +kernel
  obtain ⟨s, hexec, hhalt, hconnected, hbusy, hnone⟩ := Machine.exists_of_any hrun
  obtain ⟨i, hmem⟩ := h s (Machine.Reachable.exec (.init (sampleNet_init _)) hexec) hhalt hconnected
    hbusy
  rw [hnone] at hmem
  cases hmem

end Winegrid.ThingsBoard
