import Winegrid.Azure.Client
import Mathlib.Tactic.SplitIfs

/-!
# What the device twin makes the client do

Of a twin message only its document matters, and of the document only the
firmware it offers and the publish interval it sets.  `twinDoc` is the
document that an MQTT event hands to `apply_desired_properties`,
`handler_cases` is the inversion of the handler, and `handler_twin` says what
it makes of the document.

* `fragments_agree_iff`: a message that is delivered in pieces acts as the
  whole message exactly when its first piece holds the whole document, or the
  document asks for nothing.
* `patches_agree_iff`: a sequence of patches makes the client call
  `trigger_ota` as the merged document does exactly when one patch carried the
  version and the url together.
-/

namespace Winegrid.Azure

open Esp Client

variable {P : Platform} {c c' : Client} {o : Outcomes}

/-! ## One document -/

/-- The calls of `trigger_ota` that a document makes. -/
def callsOf (build : Build) (desired : CJson) : List (Bytes × Bytes) :=
  (fwOffer build desired).toList

/-- The publish interval after a document. -/
def intervalAfter (interval : Int32) (desired : CJson) : Int32 :=
  (newInterval desired).getD interval

/-- The document that an event hands to `apply_desired_properties`. -/
def twinDoc (P : Platform) : Event → Option CJson
  | .data topic payload =>
    if startsWith topic directMethodTopicPrefix then none
    else if startsWith topic twinDesiredTopicPrefix then P.parse payload
    else if startsWith topic twinResTopicPrefix then
      (P.parse payload).bind fun root => root.getObjectItem (ascii "desired")
    else none
  | _ => none

/-- What the handler makes of an event. -/
inductive HandlerMove (P : Platform) (c : Client) (o : Outcomes) (e : Event) : Client → Prop
  | connected (hdoc : twinDoc P e = none) : HandlerMove P c o e (c.connected o)
  | disconnected (hdoc : twinDoc P e = none) :
      HandlerMove P c o e { c with hubConnected := false }
  | method (hdoc : twinDoc P e = none) (topic : Bytes) :
      HandlerMove P c o e (c.handleDirectMethodRequest o topic)
  | twin {desired : CJson} (hdoc : twinDoc P e = some desired) :
      HandlerMove P c o e (c.applyDesiredProperties o desired)
  | c2d (hdoc : twinDoc P e = none) :
      HandlerMove P c o e { c with c2dForceTelemetry := true }
  | ignored (hdoc : twinDoc P e = none) : HandlerMove P c o e c

/-- The inversion of the handler. -/
theorem handler_cases (P : Platform) (c : Client) (o : Outcomes) (e : Event) :
    HandlerMove P c o e (hubMqttEventHandler P c o e) := by
  cases e with
  | connected => exact .connected rfl
  | disconnected => exact .disconnected rfl
  | other => exact .ignored rfl
  | data topic payload =>
    simp only [hubMqttEventHandler]
    split_ifs with hmethod hdesired hres hc2d
    · exact .method (by rw [twinDoc, if_pos hmethod]) topic
    · have hdoc : twinDoc P (.data topic payload) = P.parse payload := by
        rw [twinDoc, if_neg hmethod, if_pos hdesired]
      rcases hparse : P.parse payload with _ | root
      · exact .ignored (hdoc.trans hparse)
      · exact .twin (hdoc.trans hparse)
    · have hdoc : twinDoc P (.data topic payload) =
          (P.parse payload).bind fun root => root.getObjectItem (ascii "desired") := by
        rw [twinDoc, if_neg hmethod, if_neg hdesired, if_pos hres]
      rcases hparse : (P.parse payload).bind fun root => root.getObjectItem (ascii "desired") with
        _ | desired
      · exact .ignored (hdoc.trans hparse)
      · exact .twin (hdoc.trans hparse)
    · exact .c2d (by rw [twinDoc, if_neg hmethod, if_neg hdesired, if_neg hres])
    · exact .ignored (by rw [twinDoc, if_neg hmethod, if_neg hdesired, if_neg hres])

/-- Two clients that twin messages do not tell apart. -/
structure SameTwin (c c' : Client) : Prop where
  build : c'.build = c.build
  interval : c'.publishIntervalMs = c.publishIntervalMs
  calls : c'.triggerCalls = c.triggerCalls

theorem triggerOta_calls (c : Client) (o : Outcomes) (url newVersion : Bytes) :
    (c.triggerOta o url newVersion).build = c.build ∧
      (c.triggerOta o url newVersion).publishIntervalMs = c.publishIntervalMs ∧
      (c.triggerOta o url newVersion).triggerCalls = c.triggerCalls ++ [(url, newVersion)] := by
  simp only [triggerOta]
  split_ifs <;> exact ⟨rfl, rfl, rfl⟩

theorem applyDesiredProperties_twin (c : Client) (o : Outcomes) (desired : CJson) :
    (c.applyDesiredProperties o desired).build = c.build ∧
      (c.applyDesiredProperties o desired).publishIntervalMs =
        intervalAfter c.publishIntervalMs desired ∧
      (c.applyDesiredProperties o desired).triggerCalls =
        c.triggerCalls ++ callsOf c.build desired := by
  simp only [applyDesiredProperties, callsOf, intervalAfter]
  rcases fwOffer c.build desired with _ | ⟨url, version⟩
  · rcases newInterval desired with _ | interval <;>
      simp [reportTwinProperties, emit]
  · obtain ⟨hbuild, hinterval, hcalls⟩ := triggerOta_calls c o url version
    rcases newInterval desired with _ | interval <;>
      simp [reportTwinProperties, emit, hbuild, hinterval, hcalls]

theorem handleDirectMethodRequest_twin (c : Client) (o : Outcomes) (topic : Bytes) :
    SameTwin c (c.handleDirectMethodRequest o topic) := by
  simp only [handleDirectMethodRequest]
  split
  · exact ⟨rfl, rfl, rfl⟩
  · split_ifs <;> exact ⟨rfl, rfl, rfl⟩

/-- An event acts on the twin state through its document. -/
theorem handler_twin (P : Platform) (c : Client) (o : Outcomes) (e : Event) :
    (hubMqttEventHandler P c o e).build = c.build ∧
      (hubMqttEventHandler P c o e).publishIntervalMs =
        (twinDoc P e).elim c.publishIntervalMs (intervalAfter c.publishIntervalMs) ∧
      (hubMqttEventHandler P c o e).triggerCalls =
        c.triggerCalls ++ (twinDoc P e).elim [] (callsOf c.build) := by
  have hmove := handler_cases P c o e
  generalize hubMqttEventHandler P c o e = d at hmove ⊢
  cases hmove with
  | connected hdoc | disconnected hdoc | c2d hdoc | ignored hdoc =>
    rw [hdoc]
    exact ⟨rfl, rfl, (List.append_nil _).symm⟩
  | method hdoc topic =>
    obtain ⟨hbuild, hinterval, hcalls⟩ := handleDirectMethodRequest_twin c o topic
    rw [hdoc]
    exact ⟨hbuild, hinterval, hcalls.trans (List.append_nil _).symm⟩
  | twin hdoc =>
    rw [hdoc]
    exact applyDesiredProperties_twin c o _

/-! ## Messages in pieces -/

/-- The handler over a list of events, with what the calls answer. -/
def handleAll (P : Platform) (c : Client) (events : List (Outcomes × Event)) : Client :=
  events.foldl (fun c oe => hubMqttEventHandler P c oe.1 oe.2) c

/-- The events of a message that is delivered in pieces: only the first
carries the topic. -/
def inPieces (o : Outcomes) (topic first : Bytes) (rest : List (Outcomes × Bytes)) :
    List (Outcomes × Event) :=
  (o, .data topic first) :: rest.map fun r => (r.1, .data [] r.2)

/-- A complete object is parsed as it is, whatever text follows it. -/
def IgnoresTrailing (parse : Bytes → Option CJson) : Prop :=
  ∀ text more members, parse text = some (.object members) →
    parse (text ++ more) = some (.object members)

/-- The event asks for no firmware and no other interval. -/
def AsksNothing (P : Platform) (c : Client) (e : Event) : Prop :=
  ∀ desired, twinDoc P e = some desired →
    callsOf c.build desired = [] ∧ intervalAfter c.publishIntervalMs desired = c.publishIntervalMs

/-- The document of a device-twin message depends on its parsed text only. -/
theorem twinDoc_congr {topic payload payload' : Bytes} (h : P.parse payload = P.parse payload') :
    twinDoc P (.data topic payload) = twinDoc P (.data topic payload') := by
  simp only [twinDoc, h]

/-- A text that is no object asks for nothing. -/
theorem asksNothing_of_not_object {topic payload : Bytes}
    (h : ∀ members, P.parse payload ≠ some (.object members)) :
    AsksNothing P c (.data topic payload) := by
  have hitem : ∀ root name, P.parse payload = some root → root.getObjectItem name = none := by
    intro root name hroot
    cases root with
    | object members => exact absurd hroot (h members)
    | _ => rfl
  intro desired hdoc
  simp only [twinDoc] at hdoc
  split_ifs at hdoc
  · simp [callsOf, fwOffer, intervalAfter, newInterval, hitem desired _ hdoc]
  · obtain ⟨root, hroot, hitem'⟩ := Option.bind_eq_some_iff.mp hdoc
    rw [hitem root _ hroot] at hitem'
    cases hitem'

/-- An event that asks for nothing changes nothing of the twin state. -/
theorem asksNothing_iff {e : Event} : AsksNothing P c e ↔
    (hubMqttEventHandler P c o e).publishIntervalMs = c.publishIntervalMs ∧
      (hubMqttEventHandler P c o e).triggerCalls = c.triggerCalls := by
  obtain ⟨-, hinterval, hcalls⟩ := handler_twin P c o e
  rw [hinterval, hcalls, AsksNothing]
  rcases twinDoc P e with _ | desired
  · simp
  · simp [and_comm]

/-- The later pieces change nothing. -/
theorem handleAll_rest (rest : List (Outcomes × Bytes)) :
    SameTwin c (handleAll P c (rest.map fun r => (r.1, .data [] r.2))) := by
  induction rest generalizing c with
  | nil => exact ⟨rfl, rfl, rfl⟩
  | cons r rest ih =>
    obtain ⟨hbuild, hinterval, hcalls⟩ := handler_twin P c r.1 (.data [] r.2)
    have hrest := ih (c := hubMqttEventHandler P c r.1 (.data [] r.2))
    exact ⟨hrest.build.trans hbuild, hrest.interval.trans hinterval,
      hrest.calls.trans (hcalls.trans (List.append_nil _))⟩

/-- A message in pieces acts as its first piece. -/
theorem handleAll_inPieces (P : Platform) (c : Client) (o : Outcomes) (topic first : Bytes)
    (rest : List (Outcomes × Bytes)) :
    SameTwin (hubMqttEventHandler P c o (.data topic first))
      (handleAll P c (inPieces o topic first rest)) :=
  handleAll_rest rest

/-- A device-twin message in pieces acts as the whole message if and only if
its first piece holds the whole document, or the message asks for nothing. -/
theorem fragments_agree_iff (hparse : IgnoresTrailing P.parse) {topic first : Bytes}
    (rest : List (Outcomes × Bytes)) (o' : Outcomes) :
    ((handleAll P c (inPieces o topic first rest)).publishIntervalMs =
        (hubMqttEventHandler P c o'
          (.data topic (first ++ (rest.map Prod.snd).flatten))).publishIntervalMs ∧
      (handleAll P c (inPieces o topic first rest)).triggerCalls =
        (hubMqttEventHandler P c o'
          (.data topic (first ++ (rest.map Prod.snd).flatten))).triggerCalls) ↔
    (∃ members, P.parse first = some (.object members)) ∨
      AsksNothing P c (.data topic (first ++ (rest.map Prod.snd).flatten)) := by
  have hpieces := handleAll_inPieces P c o topic first rest
  rw [hpieces.interval, hpieces.calls]
  by_cases hfirst : ∃ members, P.parse first = some (.object members)
  · -- The pieces and the whole hand over the same document.
    obtain ⟨members, hmembers⟩ := hfirst
    have hsame : twinDoc P (.data topic first) =
        twinDoc P (.data topic (first ++ (rest.map Prod.snd).flatten)) :=
      twinDoc_congr (hmembers.trans (hparse first _ members hmembers).symm)
    obtain ⟨-, hinterval, hcalls⟩ := handler_twin P c o (.data topic first)
    obtain ⟨-, hinterval', hcalls'⟩ :=
      handler_twin P c o' (.data topic (first ++ (rest.map Prod.snd).flatten))
    rw [hinterval, hcalls, hinterval', hcalls', hsame]
    exact ⟨fun _ => Or.inl ⟨members, hmembers⟩, fun _ => ⟨rfl, rfl⟩⟩
  · -- The first piece asks for nothing, so the whole must ask for nothing.
    have hasks : AsksNothing P c (.data topic first) :=
      asksNothing_of_not_object (not_exists.mp hfirst)
    obtain ⟨hinterval, hcalls⟩ := (asksNothing_iff (o := o)).mp hasks
    rw [hinterval, hcalls, or_iff_right hfirst, asksNothing_iff (o := o')]
    exact and_congr eq_comm eq_comm

/-- A platform whose parser knows one JSON text. -/
def docPlatform (text : Bytes) (doc : List (Bytes × CJson)) : Platform where
  sha256 _ := []
  parse t := if startsWith t text then some (.object doc) else none
  build _ := ⟨ascii "azure-dps-example", ascii "1.0"⟩
  partitionSize := 1048576
  partitionSize_lt := mebibyte_lt

theorem docPlatform_ignoresTrailing (text : Bytes) (doc : List (Bytes × CJson)) :
    IgnoresTrailing (docPlatform text doc).parse := by
  intro t more members h
  simp only [docPlatform] at h ⊢
  split_ifs at h with hstart
  have hmore : startsWith (t ++ more) text = true :=
    startsWith_iff.mpr
      ((startsWith_iff.mp hstart).trans (List.prefix_append t more))
  rw [if_pos hmore, h]

theorem docPlatform_parse (text : Bytes) (doc : List (Bytes × CJson)) :
    (docPlatform text doc).parse text = some (.object doc) :=
  if_pos (startsWith_iff.mpr (List.prefix_refl text))

/-- A patch of more than 1024 bytes that sets the interval to 5 s. -/
def longPatch : Bytes :=
  ascii "\x7b\"publishInterval\":5000,\"note\":\"" ++ List.replicate 1100 120 ++ ascii "\"\x7d"

def longPatchDoc : List (Bytes × CJson) :=
  [(ascii "publishInterval", .number 5000), (ascii "note", .string (List.replicate 1100 120))]

def patchTopic : Bytes := ascii "$iothub/twin/PATCH/properties/desired/?$version=2"

def sampleOutcomes : Outcomes := ⟨-60, 200000, true⟩

def sampleClient : Client :=
  Client.fresh ⟨ascii "azure-dps-example", ascii "1.0"⟩ .ota0 (ascii "esp32")
    ⟨⟨fun _ => none, fun _ => [], .ota0, .valid⟩, []⟩

/-- A newline behind the document may come in a piece of its own. -/
theorem fragments_agree_newline :
    (handleAll (docPlatform longPatch longPatchDoc) sampleClient
        (inPieces sampleOutcomes patchTopic longPatch [(sampleOutcomes, [10])])).publishIntervalMs =
      (hubMqttEventHandler (docPlatform longPatch longPatchDoc) sampleClient sampleOutcomes
        (.data patchTopic
          (longPatch ++ ([(sampleOutcomes, [10])].map Prod.snd).flatten))).publishIntervalMs :=
  ((fragments_agree_iff (docPlatform_ignoresTrailing longPatch longPatchDoc) _ _).mpr
    (Or.inl ⟨longPatchDoc, docPlatform_parse longPatch longPatchDoc⟩)).1

/-- A patch cut in two leaves the interval, the whole patch sets it. -/
theorem cut_patch {text : Bytes} (doc : List (Bytes × CJson)) {n : Nat} (hn : n < text.length)
    (c : Client) (o : Outcomes) :
    (handleAll (docPlatform text doc) c
        (inPieces o patchTopic (text.take n) [(o, text.drop n)])).publishIntervalMs =
      c.publishIntervalMs ∧
    (hubMqttEventHandler (docPlatform text doc) c o (.data patchTopic text)).publishIntervalMs =
      intervalAfter c.publishIntervalMs (.object doc) := by
  have hcut : (docPlatform text doc).parse (text.take n) = none := by
    refine if_neg fun hstart => ?_
    have hle := (startsWith_iff.mp hstart).length_le
    rw [List.length_take] at hle
    omega
  have hmethod : startsWith patchTopic directMethodTopicPrefix = false := by decide
  have hdesired : startsWith patchTopic twinDesiredTopicPrefix = true := by decide
  obtain ⟨-, hfirst, -⟩ := handler_twin (docPlatform text doc) c o (.data patchTopic (text.take n))
  obtain ⟨-, hwhole, -⟩ := handler_twin (docPlatform text doc) c o (.data patchTopic text)
  simp only [twinDoc, hmethod, hdesired, hcut, docPlatform_parse, Bool.false_eq_true, if_false,
    if_true, Option.elim_none, Option.elim_some] at hfirst hwhole
  exact ⟨(handleAll_inPieces _ c o _ _ _).interval.trans hfirst, hwhole⟩

theorem longPatch_length : 1024 < longPatch.length := by
  simp only [longPatch, List.length_append, List.length_replicate]
  omega

/-- The long patch in two pieces of at most 1024 bytes is lost. -/
theorem fragmented_patch_lost :
    ¬ ∀ (c : Client) (o o' : Outcomes) (first second : Bytes),
      (handleAll (docPlatform longPatch longPatchDoc) c
          (inPieces o patchTopic first [(o, second)])).publishIntervalMs =
        (hubMqttEventHandler (docPlatform longPatch longPatchDoc) c o'
          (.data patchTopic (first ++ second))).publishIntervalMs := by
  intro h
  obtain ⟨hpieces, hwhole⟩ := cut_patch longPatchDoc longPatch_length sampleClient sampleOutcomes
  have hagree := h sampleClient sampleOutcomes sampleOutcomes (longPatch.take 1024)
    (longPatch.drop 1024)
  rw [List.take_append_drop, hpieces, hwhole] at hagree
  exact absurd hagree (by decide)

/-! ## Patches and the merged document -/

/-- A member of a patch overwrites the member of that key, or is new.  A null
removes the key. -/
def mergeMember (desired : List (Bytes × CJson)) (m : Bytes × CJson) : List (Bytes × CJson) :=
  match m.2 with
  | .null => desired.filter fun d => d.1 ≠ m.1
  | value =>
    if desired.any fun d => d.1 = m.1 then
      desired.map fun d => if d.1 = m.1 then (d.1, value) else d
    else desired ++ [(m.1, value)]

/-- The desired document after a sequence of patches, from an empty one. -/
def mergePatches (patches : List (List (Bytes × CJson))) : List (Bytes × CJson) :=
  patches.foldl (fun desired patch => patch.foldl mergeMember desired) []

/-- The document that a step hands to `apply_desired_properties`. -/
def stepDoc (P : Platform) : Label → Option CJson
  | .event _ e => twinDoc P e
  | _ => none

/-- The steps hand over the patches, one by one and in order, and no other
document. -/
def Pushes (P : Platform) (ls : List Label) (patches : List (List (Bytes × CJson))) : Prop :=
  ls.filterMap (stepDoc P) = patches.map .object

/-- The patch gives string values to both keys. -/
def CarriesBoth (patch : List (Bytes × CJson)) (url version : Bytes) : Prop :=
  (CJson.object patch).getObjectItem (ascii "fw_version") = some (.string version) ∧
    (CJson.object patch).getObjectItem (ascii "fw_url") = some (.string url)

/-- A document offers a pair when it has both strings and the version is not
the running one. -/
theorem fwOffer_eq_some {build : Build} {desired : CJson} {url version : Bytes} :
    fwOffer build desired = some (url, version) ↔
      desired.getObjectItem (ascii "fw_version") = some (.string version) ∧
        desired.getObjectItem (ascii "fw_url") = some (.string url) ∧ version ≠ build.version := by
  have hitem : ∀ name s, (desired.getObjectItem name).bind CJson.string? = some s ↔
      desired.getObjectItem name = some (.string s) := fun name s => by
    simp [Option.bind_eq_some_iff]
  simp only [fwOffer, ← hitem]
  rcases (desired.getObjectItem (ascii "fw_version")).bind CJson.string? with _ | v
  · simp
  · rcases (desired.getObjectItem (ascii "fw_url")).bind CJson.string? with _ | u
    · simp
    · simp only [Option.some_inj]
      split_ifs with hne
      · rw [Option.some_inj, Prod.mk.injEq]
        constructor
        · rintro ⟨rfl, rfl⟩
          exact ⟨rfl, rfl, hne⟩
        · rintro ⟨rfl, rfl, -⟩
          exact ⟨rfl, rfl⟩
      · simp only [false_iff]
        rintro ⟨rfl, -, hne'⟩
        exact hne hne'

/-- A step of the task calls `trigger_ota` not at all. -/
theorem taskStep_twin (P : Platform) (c : Client) (i : Nat) (t : Task) (o : TaskOutcomes) :
    (c.taskStep P i t o).build = c.build ∧ (c.taskStep P i t o).triggerCalls = c.triggerCalls := by
  unfold taskStep
  split <;> (try split) <;> (try split_ifs) <;> exact ⟨rfl, rfl⟩

/-- Every step calls `trigger_ota` on what its document offers. -/
theorem next_calls {l : Label} (h : c.next P l = some c') :
    c'.build = c.build ∧
      c'.triggerCalls = c.triggerCalls ++ (stepDoc P l).toList.flatMap (callsOf c.build) := by
  obtain ⟨-, hstep⟩ := next_step h
  cases hstep with
  | event o e =>
    obtain ⟨hbuild, -, hcalls⟩ := handler_twin P c o e
    refine ⟨hbuild, hcalls.trans ?_⟩
    simp only [stepDoc]
    rcases twinDoc P e with _ | desired <;> simp
  | task htask hfits =>
    obtain ⟨hbuild, hcalls⟩ := taskStep_twin P c _ _ _
    exact ⟨hbuild, hcalls.trans (List.append_nil _).symm⟩
  | telemetry =>
    unfold telemetry
    split_ifs <;> exact ⟨rfl, (List.append_nil _).symm⟩

/-- A run calls `trigger_ota` on what its documents offer, in order. -/
theorem run_calls {ok : Client → Label → Prop} {ls : List Label}
    (h : (client P).Run ok c ls c') :
    c'.build = c.build ∧
      c'.triggerCalls = c.triggerCalls ++ (ls.filterMap (stepDoc P)).flatMap (callsOf c.build) := by
  refine Machine.Run.invariant (I := fun ls d => d.build = c.build ∧
    d.triggerCalls = c.triggerCalls ++ (ls.filterMap (stepDoc P)).flatMap (callsOf c.build))
    ⟨rfl, (List.append_nil _).symm⟩ ?_ h
  rintro ls d l d' ⟨hbuild, hcalls⟩ - hnext
  obtain ⟨hbuild', hcalls'⟩ := next_calls hnext
  refine ⟨hbuild'.trans hbuild, ?_⟩
  have hlast : [l].filterMap (stepDoc P) = (stepDoc P l).toList := by
    cases hdoc : stepDoc P l <;> simp [hdoc]
  rw [hcalls', hcalls, hbuild, List.append_assoc, List.filterMap_append, List.flatMap_append, hlast]

/-- A topic does not start with two prefixes of which none starts with the
other. -/
theorem not_startsWith {topic p q : Bytes} (h : p <+: topic) (hpq : ¬p <+: q) (hqp : ¬q <+: p) :
    ¬startsWith topic q = true := by
  intro hq
  rcases List.prefix_or_prefix_of_prefix h (startsWith_iff.mp hq) with hpre | hpre
  · exact hpq hpre
  · exact hqp hpre

/-- The document of a patch is at the root. -/
theorem twinDoc_patch {topic payload : Bytes} (htopic : twinDesiredTopicPrefix <+: topic) :
    twinDoc P (.data topic payload) = P.parse payload := by
  rw [twinDoc, if_neg (not_startsWith htopic (by decide) (by decide)),
    if_pos (startsWith_iff.mpr htopic)]

/-- The document of a GET response is under `desired`. -/
theorem twinDoc_get {topic payload : Bytes} {root desired : CJson}
    (htopic : twinResTopicPrefix <+: topic) (hparse : P.parse payload = some root)
    (hdesired : root.getObjectItem (ascii "desired") = some desired) :
    twinDoc P (.data topic payload) = some desired := by
  rw [twinDoc, if_neg (not_startsWith htopic (by decide) (by decide)),
    if_neg (not_startsWith htopic (by decide) (by decide)), if_pos (startsWith_iff.mpr htopic),
    hparse, Option.bind_some, hdesired]

/-- A run over patches makes the call that a GET of the merged document makes
if and only if, whenever the merged document offers firmware, one patch
carried its version and its url together. -/
theorem patches_agree_iff {ls : List Label} {patches : List (List (Bytes × CJson))}
    (h : (client P).Run Machine.always c ls c') (hpush : Pushes P ls patches)
    (hfresh : c.triggerCalls = []) {topic payload : Bytes} {root : CJson}
    (htopic : twinResTopicPrefix <+: topic) (hparse : P.parse payload = some root)
    (hdesired : root.getObjectItem (ascii "desired") = some (.object (mergePatches patches))) :
    (∀ pair ∈ (hubMqttEventHandler P c o (.data topic payload)).triggerCalls,
        pair ∈ c'.triggerCalls) ↔
      ∀ url version, fwOffer c.build (.object (mergePatches patches)) = some (url, version) →
        ∃ patch ∈ patches, CarriesBoth patch url version := by
  obtain ⟨-, -, hget⟩ := handler_twin P c o (.data topic payload)
  obtain ⟨-, hrun⟩ := run_calls h
  rw [hget, hrun, hfresh, hpush, twinDoc_get htopic hparse hdesired]
  simp only [List.nil_append, Option.elim_some, callsOf, Option.mem_toList]
  constructor
  · intro hcalls url version hoffer
    obtain ⟨doc, hdoc, hpair⟩ := List.mem_flatMap.mp (hcalls _ hoffer)
    obtain ⟨patch, hpatch, rfl⟩ := List.mem_map.mp hdoc
    obtain ⟨hversion, hurl, -⟩ := fwOffer_eq_some.mp (Option.mem_toList.mp hpair)
    exact ⟨patch, hpatch, hversion, hurl⟩
  · rintro hcarries ⟨url, version⟩ hoffer
    obtain ⟨patch, hpatch, hversion, hurl⟩ := hcarries url version hoffer
    obtain ⟨-, -, hne⟩ := fwOffer_eq_some.mp hoffer
    exact List.mem_flatMap.mpr ⟨.object patch, List.mem_map_of_mem hpatch,
      Option.mem_toList.mpr (fwOffer_eq_some.mpr ⟨hversion, hurl, hne⟩)⟩

/-- A platform whose parser knows some JSON texts. -/
def textPlatform (docs : List (Bytes × CJson)) : Platform :=
  { docPlatform [] [] with parse := fun t => (docs.find? fun d => d.1 = t).map Prod.snd }

def fwUrl : Bytes := ascii "http://192.168.1.10:8070/azure-dps-example.bin"

def urlMember : Bytes × CJson := (ascii "fw_url", .string fwUrl)

def versionMember : Bytes × CJson := (ascii "fw_version", .string (ascii "1.1"))

def bothText : Bytes :=
  ascii "\x7b\"fw_version\":\"1.1\",\"fw_url\":\"" ++ fwUrl ++ ascii "\"\x7d"

def urlText : Bytes := ascii "\x7b\"fw_url\":\"" ++ fwUrl ++ ascii "\"\x7d"

def versionText : Bytes := ascii "\x7b\"fw_version\":\"1.1\"\x7d"

/-- The GET response of a twin with both keys. -/
def twinText : Bytes := ascii "\x7b\"desired\":" ++ bothText ++ ascii ",\"reported\":\x7b\x7d\x7d"

def twinRoot (desired : List (Bytes × CJson)) : CJson :=
  .object [(ascii "desired", .object desired), (ascii "reported", .object [])]

def getResponseTopic : Bytes := ascii "$iothub/twin/res/200/?$rid=1"

def patchEvent (text : Bytes) : Label := .event sampleOutcomes (.data patchTopic text)

theorem patchTopic_prefix : twinDesiredTopicPrefix <+: patchTopic :=
  startsWith_iff.mp (by decide)

theorem getResponseTopic_prefix : twinResTopicPrefix <+: getResponseTopic :=
  startsWith_iff.mp (by decide)

/-- The steps that hand over one patch. -/
theorem pushes_patch {text : Bytes} {patch : List (Bytes × CJson)}
    (h : P.parse text = some (.object patch)) : Pushes P [patchEvent text] [patch] := by
  simp [Pushes, patchEvent, stepDoc, twinDoc_patch patchTopic_prefix, h]

theorem textPlatform_parse {docs : List (Bytes × CJson)} {text : Bytes} {doc : CJson}
    (h : (docs.find? fun d => d.1 = text) = some (text, doc)) :
    (textPlatform docs).parse text = some doc := by
  simp only [textPlatform, h, Option.map_some]

/-- The texts of a twin that got both keys in one patch, or each in its own. -/
def twinDocs : List (Bytes × CJson) :=
  [ (bothText, .object [versionMember, urlMember])
  , (urlText, .object [urlMember])
  , (versionText, .object [versionMember])
  , (twinText, twinRoot [versionMember, urlMember]) ]

theorem parse_bothText :
    (textPlatform twinDocs).parse bothText = some (.object [versionMember, urlMember]) :=
  textPlatform_parse (by simp [twinDocs])

theorem parse_urlText : (textPlatform twinDocs).parse urlText = some (.object [urlMember]) := by
  have hboth : bothText ≠ urlText := by decide
  exact textPlatform_parse (by simp [twinDocs, hboth])

theorem parse_versionText :
    (textPlatform twinDocs).parse versionText = some (.object [versionMember]) := by
  have hboth : bothText ≠ versionText := by decide
  have hurl : urlText ≠ versionText := by decide
  exact textPlatform_parse (by simp [twinDocs, hboth, hurl])

theorem parse_twinText :
    (textPlatform twinDocs).parse twinText = some (twinRoot [versionMember, urlMember]) := by
  have hboth : bothText ≠ twinText := by decide
  have hurl : urlText ≠ twinText := by decide
  have hversion : versionText ≠ twinText := by decide
  exact textPlatform_parse (by simp [twinDocs, hboth, hurl, hversion])

/-- The client after a patch. -/
def patched (c : Client) (text : Bytes) : Client :=
  hubMqttEventHandler (textPlatform twinDocs) c sampleOutcomes (.data patchTopic text)

theorem patched_next {c : Client} (h : c.halt = none) (text : Bytes) :
    (client (textPlatform twinDocs)).next c (patchEvent text) = some (patched c text) := by
  simp only [client_next, Client.next, patchEvent, h, Option.isSome_none, Bool.false_eq_true,
    if_false, patched]

/-- Version and url in one patch are triggered as by a GET. -/
theorem patches_agree_both :
    (fwUrl, ascii "1.1") ∈ (patched sampleClient bothText).triggerCalls := by
  refine (patches_agree_iff (o := sampleOutcomes) (.single trivial (patched_next rfl bothText))
    (pushes_patch parse_bothText) rfl getResponseTopic_prefix parse_twinText rfl).mpr ?_ _ ?_
  · intro url version hoffer
    obtain ⟨hversion, hurl, -⟩ := fwOffer_eq_some.mp hoffer
    exact ⟨_, List.mem_singleton_self _, hversion, hurl⟩
  · obtain ⟨-, -, hget⟩ := handler_twin (textPlatform twinDocs) sampleClient sampleOutcomes
      (.data getResponseTopic twinText)
    rw [hget, twinDoc_get getResponseTopic_prefix parse_twinText rfl]
    decide

/-- The version in one patch and the url in the next are not triggered, though
a GET of the twin would trigger them. -/
theorem split_patches_not_triggered :
    ¬ ∀ (c c' : Client) (ls : List Label) (patches : List (List (Bytes × CJson)))
        (topic payload : Bytes) (root : CJson),
      (client (textPlatform twinDocs)).Run Machine.always c ls c' →
      Pushes (textPlatform twinDocs) ls patches → c.triggerCalls = [] →
      twinResTopicPrefix <+: topic → (textPlatform twinDocs).parse payload = some root →
      root.getObjectItem (ascii "desired") = some (.object (mergePatches patches)) →
      ∀ pair ∈ (hubMqttEventHandler (textPlatform twinDocs) c sampleOutcomes
          (.data topic payload)).triggerCalls, pair ∈ c'.triggerCalls := by
  intro h
  have hfirst := patched_next (c := sampleClient) rfl versionText
  have hhalt : (patched sampleClient versionText).halt = none := by decide +kernel
  have hone : (client (textPlatform twinDocs)).Run Machine.always sampleClient
      [patchEvent versionText] (patched sampleClient versionText) := .single trivial hfirst
  have hrun := hone.snoc trivial (patched_next hhalt urlText)
  have hpush : Pushes (textPlatform twinDocs) ([patchEvent versionText] ++ [patchEvent urlText])
      [[versionMember], [urlMember]] := by
    have hone := pushes_patch parse_versionText
    have htwo := pushes_patch parse_urlText
    unfold Pushes at hone htwo ⊢
    rw [List.filterMap_append, hone, htwo]
    rfl
  have hcalls := h sampleClient _ _ _ _ _ _ hrun hpush rfl getResponseTopic_prefix parse_twinText
    rfl (fwUrl, ascii "1.1")
  obtain ⟨-, -, hget⟩ := handler_twin (textPlatform twinDocs) sampleClient sampleOutcomes
    (.data getResponseTopic twinText)
  obtain ⟨-, hpatches⟩ := run_calls hrun
  rw [hget, hpatches, hpush, twinDoc_get getResponseTopic_prefix parse_twinText rfl] at hcalls
  exact absurd (hcalls (by decide)) (by decide)

end Winegrid.Azure
