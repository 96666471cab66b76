import Winegrid.Lib.History
import Winegrid.ThingsBoard.Integrity

/-!
# The states that the client reports

`report_fw_state` is called on the early returns of three functions.  Read
back from the journal, the reports of a boot are the reports of its attempts,
one after the other.

* `stateOf` reads the `fw_state` of an effect, and `reported` those of a
  journal.
* `next_move` sorts the steps by the function that handles them: everything
  but attributes and firmware messages is an aside.
* `TraceLaw` is the language of the traces: failed attempts, and then a part
  of one that goes well.
* `Reports` sorts the steps by what they report, and `next_speaks` puts every
  step under one of its kinds.
* `fw_state_trace` is the law of all runs.
-/

namespace Winegrid.ThingsBoard

open Esp Client

variable {P : Platform} {c c' : Client} {o : Outcomes} {l : Label}

/-! ## Reading a report -/

/-- The first bytes of a report of `state`. -/
def reportStart (state : FwState) : Bytes :=
  ascii "\x7b\"fw_state\":\"" ++ state.text ++ ascii "\""

/-- The last bytes of the report with the new version. -/
def updatedEnd : Bytes := ascii "\",\"fw_state\":\"UPDATED\"\x7d"

/-- The `fw_state` of a payload, which is its first member, or its last one
behind the title and the version. -/
def fwStateOf (payload : Bytes) : Option FwState :=
  if startsWith payload (ascii "\x7b\"current_fw_title\":\"") then
    if updatedEnd.isSuffixOf payload then some .updated else none
  else [.downloading, .downloaded, .verified, .updating, .updated, .failed].find? fun state =>
    startsWith payload (reportStart state)

def stateOf : Effect → Option FwState
  | .publish _ payload => fwStateOf payload
  | _ => none

/-- The states that were reported, in order. -/
def reported (es : List Effect) : List FwState := es.filterMap stateOf

theorem reported_append (es fs : List Effect) :
    reported (es ++ fs) = reported es ++ reported fs :=
  List.filterMap_append

@[simp] theorem stateOf_fwReport (state : FwState) : stateOf (fwReport state) = some state := by
  cases state <;> rfl

theorem fwStateOf_refused (version : Bytes) : fwStateOf (refusedPayload version) = some .failed :=
  rfl

theorem fwStateOf_updated {title version : Bytes} (htitle : title.length < 64)
    (hversion : version.length < 32) :
    fwStateOf (updatedPayload title version) = some .updated := by
  have hwhole : updatedPayload title version = ascii "\x7b\"current_fw_title\":\"" ++ title ++
      ascii "\",\"current_fw_version\":\"" ++ version ++ updatedEnd := by
    refine List.take_of_length_le ?_
    have hfirst : (ascii "\x7b\"current_fw_title\":\"").length = 21 := rfl
    have hmiddle : (ascii "\",\"current_fw_version\":\"").length = 24 := rfl
    have hlast : (ascii "\",\"fw_state\":\"UPDATED\"\x7d").length = 23 := rfl
    simp only [List.length_append, hfirst, hmiddle, hlast]
    omega
  have hstart : startsWith (updatedPayload title version) (ascii "\x7b\"current_fw_title\":\"") =
      true := rfl
  have hend : updatedEnd.isSuffixOf (updatedPayload title version) = true := by
    rw [List.isSuffixOf_iff_suffix, hwhole]
    exact List.suffix_append _ _
  rw [fwStateOf, if_pos hstart, if_pos hend]

/-- A prefix of a payload says what its bytes are. -/
theorem getElem?_of_startsWith {payload p : Bytes} {i : Nat} (h : startsWith payload p = true)
    (hi : i < p.length) : payload[i]? = p[i]? := by
  obtain ⟨rest, rfl⟩ := startsWith_iff.mp h
  exact List.getElem?_append_left hi

/-- The third byte of a report is the first letter of `fw_state` or of
`current_fw_title`. -/
theorem fwStateOf_eq_none {payload : Bytes} (hstate : payload[2]? ≠ some 102)
    (htitle : payload[2]? ≠ some 99) : fwStateOf payload = none := by
  have hother : ¬startsWith payload (ascii "\x7b\"current_fw_title\":\"") = true :=
    fun h => htitle (getElem?_of_startsWith h (by decide))
  rw [fwStateOf, if_neg hother, List.find?_eq_none]
  intro state _ h
  refine hstate ((getElem?_of_startsWith h ?_).trans ?_) <;> cases state <;> decide

/-- An effect that reports no state. -/
def Chats (e : Effect) : Prop := stateOf e = none

theorem reported_chats {es : List Effect} (h : ∀ e ∈ es, Chats e) : reported es = [] :=
  List.filterMap_eq_nil_iff.mpr h

theorem chats_publish {payload : Bytes} (topic : Bytes) (hstate : payload[2]? ≠ some 102)
    (htitle : payload[2]? ≠ some 99) : Chats (.publish topic payload) :=
  fwStateOf_eq_none hstate htitle

/-- Every topic that starts like a chunk request carries the chunk size. -/
theorem chats_request (topic : Bytes) : Chats (.publish topic chunkSizePayload) :=
  chats_publish topic (by decide) (by decide)

/-- The two texts that start with a temperature. -/
theorem chats_temperature (topic : Bytes) {size : Nat} (rest : Bytes) (h : 3 < size) :
    Chats (.publish topic (snprintf size (ascii "\x7b\"temperature\":" ++ rest))) := by
  have hthird : (snprintf size (ascii "\x7b\"temperature\":" ++ rest))[2]? = some 116 := by
    rw [snprintf, List.getElem?_take_of_lt (by omega)]
    rfl
  refine chats_publish topic ?_ ?_ <;> rw [hthird] <;> decide

/-! ## What the client sends besides -/

def fwRequestPrefix : Bytes := ascii "v2/fw/request/"

/-- The topic of an effect that asks for a chunk. -/
def requestOf : Effect → Option Bytes
  | .publish topic _ => if startsWith topic fwRequestPrefix then some topic else none
  | _ => none

/-- Talk that asks for no chunk and reports no state. -/
structure SmallTalk (e : Effect) : Prop where
  talks : Talks e
  request : requestOf e = none
  state : stateOf e = none

/-- Small talk, and the announcement of the build. -/
def Aside (build : Build) (e : Effect) : Prop :=
  SmallTalk e ∨ e = .publish telemetryTopic (currentFwPayload build)

/-- What became of a client that did not touch its download. -/
structure Passes (c c' : Client) : Prop where
  effects : ∃ es, c'.journal = c.journal.writes es ∧ ∀ e ∈ es, Aside c.build e
  dl : c'.dl = c.dl

/-- The steps, by the function that handles them. -/
inductive Move (P : Platform) (c : Client) : Label → Client → Prop where
  | aside {l : Label} {c' : Client} (h : Passes c c') : Move P c l c'
  | attributes {o : Outcomes} {topic payload : Bytes}
      (htopic : startsWith topic fwTopicPrefix = false)
      (hrpc : startsWith topic rpcRequestTopicPrefix = false) :
      Move P c (.event o (.data topic payload)) (c.handleAttributesPayload P o payload)
  | chunk {o : Outcomes} {topic payload : Bytes} (htopic : startsWith topic fwTopicPrefix = true) :
      Move P c (.event o (.data topic payload)) (c.handleFwChunkData P o payload)

/-- The topics of version 1 of the API ask for no chunk. -/
theorem requestOf_eq_none {topic : Bytes} (payload : Bytes) (h : topic[1]? ≠ some 50) :
    requestOf (.publish topic payload) = none := by
  refine if_neg fun hstart => h ?_
  exact getElem?_of_startsWith hstart (by decide)

theorem smallTalk_publish {topic payload : Bytes} (htopic : topic[1]? ≠ some 50)
    (hchats : Chats (.publish topic payload)) : SmallTalk (.publish topic payload) :=
  ⟨trivial, requestOf_eq_none payload htopic, hchats⟩

theorem smallTalk_reply (rest : Bytes) {reply : Bytes}
    (hchats : ∀ topic, Chats (.publish topic reply)) :
    SmallTalk (.publish (snprintf 64 (ascii "v1/devices/me/rpc/response/" ++ rest)) reply) := by
  have hsecond : (snprintf 64 (ascii "v1/devices/me/rpc/response/" ++ rest))[1]? = some 49 := rfl
  exact smallTalk_publish (hsecond ▸ by decide) (hchats _)

theorem handleRpcRequest_passes (topic data : Bytes) :
    Passes c (c.handleRpcRequest P o topic data) := by
  have hsilent : Passes c c := ⟨⟨[], rfl, by simp⟩, rfl⟩
  have hone : ∀ {halt e}, SmallTalk e →
      Passes c { c with halt := halt, journal := c.journal.write e } :=
    fun he => ⟨⟨[_], rfl, fun _ hmem => Or.inl (List.mem_singleton.mp hmem ▸ he)⟩, rfl⟩
  unfold handleRpcRequest
  split
  · exact hsilent
  · split
    · exact hsilent
    · split_ifs
      · exact hone (smallTalk_reply _ fun _ => chats_temperature _ _ (by decide))
      · exact hone (smallTalk_reply _ fun _ => chats_publish _ (by decide) (by decide))
      · exact hone (smallTalk_reply _ fun _ => chats_publish _ (by decide) (by decide))

/-- A turn of `telemetry_task` is small talk. -/
theorem telemetry_eq (c : Client) : ∃ temperature es, (∀ e ∈ es, SmallTalk e) ∧
    c.telemetry = { c with fakeTemperature := temperature, journal := c.journal.writes es } := by
  unfold telemetry
  split_ifs
  · refine ⟨_, [.publish telemetryTopic _], ?_, rfl⟩
    simpa using smallTalk_publish (by decide) (chats_temperature telemetryTopic _ (by decide))
  · exact ⟨c.fakeTemperature, [], by simp, rfl⟩

theorem connectEffects_aside (build : Build) : ∀ e ∈ connectEffects build, Aside build e := by
  have hsubscribe : ∀ filter, Aside build (.subscribe filter) :=
    fun _ => Or.inl ⟨trivial, rfl, rfl⟩
  have hactive : Aside build (.publish telemetryTopic (ascii "\x7b\"active\":true\x7d")) :=
    Or.inl (smallTalk_publish (by decide) (chats_publish _ (by decide) (by decide)))
  have hkeys : Aside build (.publish attributesRequestTopic (ascii
      ("\x7b\"sharedKeys\":\"publishInterval,fw_title,fw_version,fw_size,fw_checksum," ++
        "fw_checksum_algorithm\"\x7d"))) :=
    Or.inl (smallTalk_publish (by decide) (chats_publish _ (by decide) (by decide)))
  simp only [connectEffects, List.mem_cons, List.not_mem_nil, or_false, forall_eq_or_imp, forall_eq]
  exact ⟨hactive, hsubscribe _, hsubscribe _, hsubscribe _, hsubscribe _, hkeys, Or.inr rfl⟩

theorem Aside.requestOf_eq {build : Build} {e : Effect} (h : Aside build e) :
    requestOf e = none := by
  rcases h with h | rfl
  · exact h.request
  · exact requestOf_eq_none _ (by decide)

/-- Every step is one of the three. -/
theorem next_move (h : c.next P l = some c') : c.halt = none ∧ Move P c l c' := by
  unfold Client.next at h
  split_ifs at h with hhalt
  refine ⟨by simpa using hhalt, ?_⟩
  cases l with
  | telemetry =>
    cases h
    obtain ⟨temperature, es, hes, heq⟩ := telemetry_eq c
    rw [heq]
    exact .aside ⟨⟨es, rfl, fun e he => Or.inl (hes e he)⟩, rfl⟩
  | event o e =>
    cases h
    cases e with
    | connected =>
      exact .aside ⟨⟨_, rfl, connectEffects_aside c.build⟩, rfl⟩
    | disconnected => exact .aside ⟨⟨[], rfl, by simp⟩, rfl⟩
    | other => exact .aside ⟨⟨[], rfl, by simp⟩, rfl⟩
    | data topic payload =>
      simp only [mqttEventHandler]
      split_ifs with hfw hrpc
      · exact .chunk hfw
      · exact .aside (handleRpcRequest_passes topic payload)
      · exact .attributes (by simpa using hfw) (by simpa using hrpc)

/-! ## Traces -/

/-- The reports of an attempt that fails. -/
inductive FailedAttempt : List FwState → Prop where
  | refused : FailedAttempt [.failed]
  | gaveUp {states : List FwState} (hne : states ≠ [])
      (hstates : states <+: [.downloading, .downloaded, .verified, .updating]) :
      FailedAttempt (states ++ [.failed])

/-- Failed attempts, one after the other. -/
def Closed (trace : List FwState) : Prop :=
  ∃ attempts : List (List FwState), (∀ a ∈ attempts, FailedAttempt a) ∧ trace = attempts.flatten

/-- Failed attempts, and then a part of one that goes well. -/
def TraceLaw (trace : List FwState) : Prop :=
  ∃ past last, Closed past ∧ last <+: [.downloading, .downloaded, .verified, .updating, .updated] ∧
    trace = past ++ last

/-- Between two events either no attempt runs, or one has reported that it is
downloading. -/
def Stands (inProgress : Bool) (trace : List FwState) : Prop :=
  if inProgress then ∃ past, Closed past ∧ trace = past ++ [.downloading] else Closed trace

theorem closed_nil : Closed [] := ⟨[], by simp, rfl⟩

/-- One more failed attempt. -/
theorem Closed.snoc {trace attempt : List FwState} (h : Closed trace)
    (hattempt : FailedAttempt attempt) : Closed (trace ++ attempt) := by
  obtain ⟨attempts, hattempts, rfl⟩ := h
  refine ⟨attempts ++ [attempt], fun a ha => ?_, by simp⟩
  rcases List.mem_append.mp ha with ha | ha
  · exact hattempts a ha
  · rw [List.mem_singleton.mp ha]
    exact hattempt

theorem Closed.law {trace : List FwState} (h : Closed trace) : TraceLaw trace :=
  ⟨trace, [], h, List.nil_prefix, (List.append_nil trace).symm⟩

theorem Stands.law {inProgress : Bool} {trace : List FwState} (h : Stands inProgress trace) :
    TraceLaw trace := by
  cases inProgress with
  | false => exact Closed.law h
  | true =>
    obtain ⟨past, hpast, rfl⟩ := h
    exact ⟨past, [.downloading], hpast, by decide, rfl⟩

/-! ## What a step reports -/

/-- The effect before a report of `UPDATED` set the boot partition. -/
def BootsFirst (past : List Effect) (e : Effect) : Prop :=
  stateOf e = some .updated → ∃ slot version, [.setBoot slot version true] <:+ past

/-- The reports of a step, by what it does to the attempt. -/
inductive Reports (P : Platform) (c c' : Client) : List FwState → Prop where
  | nothing (h : c'.dl.inProgress = c.dl.inProgress) : Reports P c c' []
  | refused (hidle : c.dl.inProgress = false) (hidle' : c'.dl.inProgress = false) :
      Reports P c c' [.failed]
  | started (hidle : c.dl.inProgress = false) (hbusy' : c'.dl.inProgress = true) :
      Reports P c c' [.downloading]
  | gaveUp {states : List FwState} (hbusy : c.dl.inProgress = true)
      (hidle' : c'.dl.inProgress = false) (hfails : FailsAfter P c' states) :
      Reports P c c' (states ++ [.failed])
  | installed (hbusy : c.dl.inProgress = true)
      (hsum : checksumOk P c'.fw c'.dl.shaCtx = true) (hhalt' : c'.halt = some .restart) :
      Reports P c c' [.downloaded, .verified, .updating, .updated]

/-- What a step wrote: reports of one of the kinds, and each of them where it
may stand. -/
def Speaks (P : Platform) (c c' : Client) : Prop :=
  ∃ es, c'.journal = c.journal.writes es ∧ Reports P c c' (reported es) ∧ Lawful BootsFirst es

/-- Without a report of `UPDATED` there is nothing to order. -/
theorem bootsFirst_of_not_mem {es : List Effect} (h : .updated ∉ reported es) :
    Lawful BootsFirst es := by
  intro past e rest heq hupdated
  refine absurd (List.mem_filterMap.mpr ⟨e, ?_, hupdated⟩) h
  rw [heq]
  exact List.mem_append_right _ List.mem_cons_self

/-- What came before leaves the order alone. -/
theorem BootsFirst.append {log es : List Effect} (h : Lawful BootsFirst log)
    (hes : Lawful BootsFirst es) : Lawful BootsFirst (log ++ es) := by
  refine h.append fun past e rest heq hupdated => ?_
  obtain ⟨slot, version, hsuffix⟩ := hes past e rest heq hupdated
  exact ⟨slot, version, hsuffix.trans (List.suffix_append _ _)⟩

/-- A step that only chats. -/
theorem speaks_chats (es : List Effect) (hchats : ∀ e ∈ es, Chats e)
    (hjournal : c'.journal = c.journal.writes es) (hprog : c'.dl.inProgress = c.dl.inProgress) :
    Speaks P c c' := by
  refine ⟨es, hjournal, ?_, bootsFirst_of_not_mem ?_⟩ <;> rw [reported_chats hchats]
  · exact .nothing hprog
  · exact List.not_mem_nil

/-- Chat before a step is part of it. -/
theorem Speaks.after_chats {d : Client} (h : Speaks P d c') (es : List Effect)
    (hchats : ∀ e ∈ es, Chats e) (hjournal : d.journal = c.journal.writes es)
    (hprog : d.dl.inProgress = c.dl.inProgress) : Speaks P c c' := by
  obtain ⟨fs, hjournal', hreports, hlawful⟩ := h
  have hsame : reported (es ++ fs) = reported fs := by
    rw [reported_append, reported_chats hchats, List.nil_append]
  refine ⟨es ++ fs, ?_, ?_, BootsFirst.append (bootsFirst_of_not_mem ?_) hlawful⟩
  · rw [hjournal', hjournal, Journal.writes_append]
  · rw [hsame]
    generalize reported fs = trace at hreports ⊢
    cases hreports with
    | nothing h => exact .nothing (h.trans hprog)
    | refused hidle hidle' => exact .refused (hprog ▸ hidle) hidle'
    | started hidle hbusy' => exact .started (hprog ▸ hidle) hbusy'
    | gaveUp hbusy hidle' hfails => exact .gaveUp (hprog ▸ hbusy) hidle' hfails
    | installed hbusy hsum hhalt' => exact .installed (hprog ▸ hbusy) hsum hhalt'
  · rw [reported_chats hchats]
    exact List.not_mem_nil

/-! ## The end and the start of an attempt -/

theorem reported_failEffects (states : List FwState) {es : List Effect}
    (h : ∀ e ∈ es, Chats e) : reported (failEffects states es) = states ++ [.failed] := by
  have hstates : reported (states.map fwReport) = states := by
    rw [reported, List.filterMap_map]
    exact (List.filterMap_congr fun state _ => stateOf_fwReport state).trans List.filterMap_some
  rw [failEffects, reported_append, reported_append, hstates, reported_chats h, List.append_nil]
  rfl

/-- An attempt that was given up after some reports. -/
theorem gaveUp_speaks {states : List FwState} {es : List Effect} (hbusy : c.dl.inProgress = true)
    (hfails : FailsAfter P c states) (h : ∀ e ∈ es, Chats e) :
    Speaks P c (c.gaveUp (failEffects states es)) := by
  refine ⟨failEffects states es, rfl, ?_, bootsFirst_of_not_mem ?_⟩ <;>
    rw [reported_failEffects states h]
  · exact .gaveUp hbusy rfl hfails
  · intro hmem
    rcases List.mem_append.mp hmem with hmem | hmem
    · exact absurd (hfails.1.subset hmem) (by decide)
    · exact absurd hmem (by decide)

/-- The title and the version fit their arrays. -/
def Fits (fw : FwInfo) : Prop := fw.title.length < 64 ∧ fw.version.length < 32

theorem reported_installEffects {fw : FwInfo} (hfits : Fits fw) (slot : Slot) (version : Bytes) :
    reported (installEffects fw slot version) = [.downloaded, .verified, .updating, .updated] := by
  have hupdated : stateOf (.publish telemetryTopic (updatedPayload fw.title fw.version)) =
      some .updated := fwStateOf_updated hfits.1 hfits.2
  have hlast : reported [.publish telemetryTopic (updatedPayload fw.title fw.version)] =
      [.updated] := List.filterMap_cons_some hupdated
  have hfirst : reported [fwReport .downloaded, fwReport .verified, fwReport .updating,
      .setBoot slot version true] = [.downloaded, .verified, .updating] := rfl
  have hsplit := reported_append [fwReport .downloaded, fwReport .verified, fwReport .updating,
    .setBoot slot version true] [.publish telemetryTopic (updatedPayload fw.title fw.version)]
  rwa [hfirst, hlast] at hsplit

theorem bootsFirst_installEffects (fw : FwInfo) (slot : Slot) (version : Bytes) :
    Lawful BootsFirst (installEffects fw slot version) := by
  have hfirst : reported [fwReport .downloaded, fwReport .verified, fwReport .updating,
      .setBoot slot version true] = [.downloaded, .verified, .updating] := rfl
  show Lawful BootsFirst ([fwReport .downloaded, fwReport .verified, fwReport .updating,
    .setBoot slot version true] ++ [.publish telemetryTopic (updatedPayload fw.title fw.version)])
  refine lawful_concat.mpr ⟨bootsFirst_of_not_mem ?_, fun _ => ?_⟩
  · rw [hfirst]
    decide
  · exact ⟨slot, version, List.suffix_append [_, _, _] _⟩

theorem installed_speaks {slot : Slot} (hbusy : c.dl.inProgress = true) (hfits : Fits c.fw)
    (hsum : checksumOk P c.fw c.dl.shaCtx = true) : Speaks P c (c.installed P slot) := by
  refine ⟨_, rfl, ?_, bootsFirst_installEffects _ _ _⟩
  rw [reported_installEffects hfits]
  exact .installed hbusy hsum rfl

theorem finishFwUpdate_speaks (success : Bool) (hbusy : c.dl.inProgress = true)
    (hfits : Fits c.fw) : Speaks P c (c.finishFwUpdate P o success) := by
  rcases finishFwUpdate_cases P c o success with
    ⟨states, hfails, heq⟩ | ⟨-, hsum, slot, -, heq | heq⟩
  · rw [heq]
    exact gaveUp_speaks hbusy hfails (by simp)
  · rw [heq]
    exact gaveUp_speaks hbusy ⟨List.prefix_refl _, fun _ => hsum⟩ (by simp [Chats, stateOf])
  · rw [heq]
    exact installed_speaks hbusy hfits hsum

theorem startFwUpdate_speaks (hidle : c.dl.inProgress = false) :
    Speaks P c (c.startFwUpdate o) := by
  rcases startFwUpdate_cases c o with ⟨-, p, payload, hpayload, heq⟩ | ⟨-, heq⟩
  · have hfailed : fwStateOf payload = some .failed := by
      rcases hpayload with rfl | rfl
      · exact fwStateOf_refused c.fw.version
      · rfl
    have hreported : reported [.publish telemetryTopic payload] = [.failed] :=
      List.filterMap_cons_some hfailed
    rw [heq]
    refine ⟨[.publish telemetryTopic payload], rfl, ?_, bootsFirst_of_not_mem ?_⟩ <;>
      rw [hreported]
    · exact .refused hidle hidle
    · decide
  · have hreported : reported (startEffects (c.setPartition (some c.slot.other)) c.slot.other) =
        [.downloading] := rfl
    rw [heq, beginDownload_eq]
    refine ⟨_, rfl, ?_, bootsFirst_of_not_mem ?_⟩ <;> rw [hreported]
    · exact .started hidle rfl
    · decide

/-! ## Events -/

theorem handleFwChunkData_speaks (data : Bytes) (hfits : Fits c.fw) :
    Speaks P c (c.handleFwChunkData P o data) := by
  rcases handleFwChunkData_cases P c o data with
    ⟨-, heq⟩ | ⟨hbusy, heq⟩ | ⟨hbusy, -, -, -, heq⟩ | ⟨hbusy, -, heq⟩
  · rw [heq]
    exact speaks_chats [] (by simp) rfl rfl
  · rw [heq]
    exact finishFwUpdate_speaks false hbusy hfits
  · rw [heq]
    refine speaks_chats [.otaWrite _ data, .publish _ chunkSizePayload] ?_ rfl rfl
    simp only [List.mem_cons, List.not_mem_nil, or_false, forall_eq_or_imp, forall_eq]
    exact ⟨rfl, chats_request _⟩
  · have hfinish : Speaks P (c.acceptChunk data)
        ((c.acceptChunk data).finishFwUpdate P o ((c.acceptChunk data).dl.received = c.fw.size)) :=
      finishFwUpdate_speaks _ hbusy hfits
    rw [heq]
    exact hfinish.after_chats [.otaWrite _ data] (by simp [Chats, stateOf]) rfl rfl

theorem applyFwAttribute_fits {fw : FwInfo} (h : Fits fw) (key : Bytes) (value : CJson) :
    Fits (applyFwAttribute fw key value) := by
  obtain ⟨htitle, hversion⟩ := h
  rw [applyFwAttribute_eq]
  exact ⟨setText_length value htitle, setText_length value hversion⟩

theorem applyAttributes_fits (h : Fits c.fw) (items : List (Option Bytes × CJson)) :
    Fits (c.applyAttributes items).fw :=
  applyAttributes_fw (fun key value _ _ hfw => applyFwAttribute_fits hfw key value) h

theorem handleAttributesPayload_speaks (data : Bytes) :
    Speaks P c (c.handleAttributesPayload P o data) := by
  have hsilent : ∀ items, Speaks P c (c.applyAttributes items) := fun items =>
    speaks_chats [] (by simp) (applyAttributes_journal c items)
      (congrArg Download.inProgress (applyAttributes_dl c items))
  cases hparse : P.parse data with
  | none =>
    rw [handleAttributesPayload_unparsed hparse]
    exact speaks_chats [] (by simp) rfl rfl
  | some root =>
    rw [handleAttributesPayload_eq hparse, offer]
    split_ifs with hoffer
    · exact (startFwUpdate_speaks (idle_of_wantsUpdate hoffer.2)).after_chats [] (by simp)
        (applyAttributes_journal c _) (congrArg Download.inProgress (applyAttributes_dl c _))
    · exact hsilent _

/-! ## Steps -/

/-- What the client announces when it connects is no report. -/
def AnnouncesNoState (build : Build) : Prop := fwStateOf (currentFwPayload build) = none

theorem passes_speaks (hbuild : AnnouncesNoState c.build) (h : Passes c c') : Speaks P c c' := by
  obtain ⟨es, hjournal, hes⟩ := h.effects
  refine speaks_chats _ (fun e he => ?_) hjournal (congrArg Download.inProgress h.dl)
  rcases hes e he with htalk | rfl
  · exact htalk.state
  · exact hbuild

/-- Every step reports one of the kinds. -/
theorem next_speaks (hbuild : AnnouncesNoState c.build) (hfits : Fits c.fw)
    (hnext : c.next P l = some c') : Speaks P c c' := by
  obtain ⟨-, hmove⟩ := next_move hnext
  cases hmove with
  | aside h => exact passes_speaks hbuild h
  | attributes htopic hrpc => exact handleAttributesPayload_speaks _
  | chunk htopic => exact handleFwChunkData_speaks _ hfits

/-- No step changes the build, and the arrays stay bounded. -/
theorem next_fits (hfits : Fits c.fw) (hnext : c.next P l = some c') :
    c'.build = c.build ∧ Fits c'.fw := by
  obtain ⟨-, hstep⟩ := next_step hnext
  cases hstep with
  | quiet es htalk hbuild hslot hfw hdl hota hjournal => exact ⟨hbuild, hfw ▸ hfits⟩
  | attributes htopic hparse => exact ⟨applyAttributes_build c _, applyAttributes_fits hfits _⟩
  | @offer o _ _ root =>
    have hkeeps := startFwUpdate_keeps (c.applyAttributes (container root).children) o
    rw [hkeeps.build, hkeeps.fw]
    exact ⟨applyAttributes_build c _, applyAttributes_fits hfits _⟩
  | @chunk o _ payload =>
    have hkeeps := handleFwChunkData_keeps P c o payload
    exact ⟨hkeeps.build, hkeeps.fw ▸ hfits⟩

/-! ## Runs -/

/-- The invariant: what was reported since `j`, and where the attempt stands. -/
structure Traced (build : Build) (j : Log) (c : Client) : Prop where
  build : c.build = build
  fits : Fits c.fw
  grows : j.Extends c.journal
  lawful : Lawful BootsFirst (j.since c.journal)
  stands : c.halt = none → Stands c.dl.inProgress (reported (j.since c.journal))
  law : TraceLaw (reported (j.since c.journal))

/-- The trace after a step, from where the attempt stood. -/
theorem reports_trace {trace more : List FwState} (h : Stands c.dl.inProgress trace)
    (hreports : Reports P c c' more) :
    (c'.halt = none → Stands c'.dl.inProgress (trace ++ more)) ∧ TraceLaw (trace ++ more) := by
  have hlaw : Stands c'.dl.inProgress (trace ++ more) → (c'.halt = none →
      Stands c'.dl.inProgress (trace ++ more)) ∧ TraceLaw (trace ++ more) :=
    fun hstands => ⟨fun _ => hstands, hstands.law⟩
  cases hreports with
  | nothing hprog =>
    refine hlaw ?_
    rw [List.append_nil, hprog]
    exact h
  | refused hidle hidle' =>
    rw [hidle] at h
    refine hlaw ?_
    rw [hidle']
    exact h.snoc .refused
  | started hidle hbusy' =>
    rw [hidle] at h
    refine hlaw ?_
    rw [hbusy']
    exact ⟨trace, h, rfl⟩
  | @gaveUp states hbusy hidle' hfails =>
    rw [hbusy] at h
    obtain ⟨past, hpast, rfl⟩ := h
    have hstates : .downloading :: states <+: [.downloading, .downloaded, .verified, .updating] :=
      (List.prefix_cons_inj _).mpr hfails.1
    have hclosed := hpast.snoc (.gaveUp (List.cons_ne_nil _ _) hstates)
    refine hlaw ?_
    rw [hidle', List.append_assoc]
    exact hclosed
  | installed hbusy hsum hhalt' =>
    rw [hbusy] at h
    obtain ⟨past, hpast, rfl⟩ := h
    refine ⟨fun hhalt => absurd (hhalt'.symm.trans hhalt) (by decide), past, _, hpast,
      List.prefix_refl _, ?_⟩
    rw [List.append_assoc]
    rfl

theorem traced_next {build : Build} {j : Log} (hbuild : AnnouncesNoState build)
    (h : Traced build j c) (hnext : c.next P l = some c') : Traced build j c' := by
  obtain ⟨es, hjournal, hreports, hlawful⟩ := next_speaks (h.build.symm ▸ hbuild) h.fits hnext
  obtain ⟨hbuild', hfits'⟩ := next_fits h.fits hnext
  have hextends : c.journal.Extends c'.journal := ⟨es, hjournal⟩
  have hsince : j.since c'.journal = j.since c.journal ++ es := by
    rw [Journal.since_trans h.grows hextends, hjournal, Journal.since_writes]
  obtain ⟨hstands, hlaw⟩ := reports_trace (h.stands (next_step hnext).1) hreports
  refine ⟨hbuild'.trans h.build, hfits', ?_, ?_, ?_, ?_⟩
  · obtain ⟨fs, hfs⟩ := h.grows
    exact ⟨fs ++ es, by rw [hjournal, hfs, Journal.writes_append]⟩
  · rw [hsince]
    exact BootsFirst.append h.lawful hlawful
  · rw [hsince, reported_append]
    exact hstands
  · rw [hsince, reported_append]
    exact hlaw

/-- The event makes `handle_attributes_payload` call `start_fw_update`. -/
def CallsStart (P : Platform) (c : Client) : Label → Prop
  | .event _ (.data topic payload) =>
    startsWith topic fwTopicPrefix = false ∧ startsWith topic rpcRequestTopicPrefix = false ∧
      ∃ root, P.parse payload = some root ∧
        (c.applyAttributes (container root).children).halt = none ∧
        (c.applyAttributes (container root).children).wantsUpdate = true
  | _ => False

theorem CallsStart.idle (h : CallsStart P c l) : c.dl.inProgress = false := by
  unfold CallsStart at h
  split at h
  · obtain ⟨-, -, root, -, -, hwants⟩ := h
    have hidle := idle_of_wantsUpdate hwants
    rwa [applyAttributes_dl] at hidle
  · exact h.elim

theorem traced_run {build : Build} {slot : Slot} {j : Log} {ls : List Label}
    (hbuild : AnnouncesNoState build)
    (h : (client P).Run Machine.always (Client.fresh build slot j) ls c) : Traced build j c := by
  have hstart : Traced build j (Client.fresh build slot j) := by
    have hfits : Fits ⟨[], [], [], [], 0, false⟩ := ⟨by decide, by decide⟩
    refine ⟨rfl, hfits, ⟨[], rfl⟩, ?_, fun _ => ?_, ?_⟩ <;>
      simp only [Client.fresh, Journal.since_self]
    · exact lawful_nil
    · exact closed_nil
    · exact closed_nil.law
  exact h.invariant (I := fun _ => Traced build j) hstart
    fun _ _ _ _ htraced _ hnext => traced_next hbuild htraced hnext

/-- The states reported since boot are those of failed attempts, and then of a
part of one that goes well.  `UPDATED` follows the call that set the boot
partition, `VERIFIED` comes with a matching checksum, and `start_fw_update` is
called only when every attempt so far has reported `FAILED`. -/
theorem fw_state_trace {build : Build} {slot : Slot} {j : Log} {ls : List Label}
    (hbuild : AnnouncesNoState build)
    (h : (client P).Run Machine.always (Client.fresh build slot j) ls c) :
    TraceLaw (reported (j.since c.journal)) ∧ Lawful BootsFirst (j.since c.journal) ∧
      ∀ l c', c.next P l = some c' →
        (.verified ∈ reported (c.journal.since c'.journal) →
          checksumOk P c'.fw c'.dl.shaCtx = true) ∧
        (CallsStart P c l → Closed (reported (j.since c.journal))) := by
  have htraced := traced_run hbuild h
  refine ⟨htraced.law, htraced.lawful, fun l c' hnext => ⟨fun hmem => ?_, fun hcalls => ?_⟩⟩
  · obtain ⟨es, hjournal, hreports, -⟩ :=
      next_speaks (htraced.build.symm ▸ hbuild) htraced.fits hnext
    rw [hjournal, Journal.since_writes] at hmem
    generalize reported es = more at hmem hreports
    cases hreports with
    | nothing => cases hmem
    | refused => exact absurd hmem (by decide)
    | started => exact absurd hmem (by decide)
    | gaveUp hbusy hidle' hfails =>
      exact hfails.2 ((List.mem_append.mp hmem).resolve_right (by decide))
    | installed hbusy hsum => exact hsum
  · have hstands := htraced.stands (next_step hnext).1
    rw [hcalls.idle] at hstands
    exact hstands

/-- Version 1.8 is offered twice, and its chunk cannot be written the first
time. -/
theorem fw_state_trace_retried :
    ∃ c : Client, reported (sampleClient.journal.since c.journal) =
        [.downloading, .failed, .downloading, .downloaded, .verified, .updating, .updated] ∧
      TraceLaw (reported (sampleClient.journal.since c.journal)) := by
  have hrun : ((client (samplePlatform [package18])).exec sampleClient
      [ .event allOk (.data attributesTopic package18.text)
      , .event { allOk with otaWrite := false } chunk18
      , .event allOk (.data attributesTopic package18.text)
      , .event allOk chunk18 ]).any (fun c => reported (sampleClient.journal.since c.journal) =
        [.downloading, .failed, .downloading, .downloaded, .verified, .updating, .updated]) =
      true := by decide +kernel
  obtain ⟨c, hexec, htrace⟩ := Machine.exists_of_any hrun
  have hbuild : fwStateOf (currentFwPayload sampleBuild) = none := by decide +kernel
  exact ⟨c, htrace, (fw_state_trace hbuild (Machine.Run.exec hexec)).1⟩

end Winegrid.ThingsBoard
