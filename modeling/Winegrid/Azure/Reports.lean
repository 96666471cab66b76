import Winegrid.Azure.Twin
import Mathlib.Tactic.SplitIfs

/-!
# What the client reports, and when

`stateOf` reads a `fw_state` back from the effect that reported it.  Outside
`ota_task` only `trigger_ota` reports one, and only when no attempt runs:
`Chats` are the effects that report none, and `EventMove` sorts the events by
what they do to the tasks.
-/

namespace Winegrid.Azure

open Esp Client

variable {c c' : Client}

/-! ## Reports -/

/-- The state that an effect reports, if it is a report. -/
def stateOf : Effect → Option FwState
  | .publish _ payload => [.downloading, .verified, .updated, .failed].find? fun state =>
      payload = fwStatePayload state
  | _ => none

/-- The states that were reported, in order. -/
def reported (es : List Effect) : List FwState := es.filterMap stateOf

@[simp] theorem stateOf_report (topic : Bytes) (state : FwState) :
    stateOf (.publish topic (fwStatePayload state)) = some state := by
  cases state <;> rfl

/-- The third byte of a report is the first letter of `fw_state`. -/
theorem stateOf_eq_none {payload : Bytes} (topic : Bytes) (h : payload[2]? ≠ some 102) :
    stateOf (.publish topic payload) = none := by
  rw [stateOf, List.find?_eq_none]
  intro state _ heq
  rw [of_decide_eq_true heq] at h
  cases state <;> exact h rfl

/-- An effect that talks, and reports no state. -/
def Chats (e : Effect) : Prop := Talks e ∧ stateOf e = none

theorem chats_publish {payload : Bytes} (topic : Bytes) (h : payload[2]? ≠ some 102) :
    Chats (.publish topic payload) :=
  ⟨trivial, stateOf_eq_none topic h⟩

theorem reported_chats {es : List Effect} (h : ∀ e ∈ es, Chats e) : reported es = [] :=
  List.filterMap_eq_nil_iff.mpr fun e he => (h e he).2

theorem twinPayload_third (build : Build) (interval : Int32) (o : Outcomes) :
    (twinPayload build interval o)[2]? ≠ some 102 := by
  have hthird : (twinPayload build interval o)[2]? = some 99 := rfl
  rw [hthird]
  decide

theorem statusPayload_third (temperature : Int32) (freeHeap : UInt32) :
    (statusPayload temperature freeHeap)[2]? ≠ some 102 := by
  have hthird : (statusPayload temperature freeHeap)[2]? = some 116 := rfl
  rw [hthird]
  decide

theorem temperature_third (temperature : Int32) :
    (snprintf 64 (ascii "\x7b\"temperature\":" ++ dec temperature.toInt ++ ascii "\x7d"))[2]? ≠
      some 102 := by
  have hthird : (snprintf 64 (ascii "\x7b\"temperature\":" ++ dec temperature.toInt ++
      ascii "\x7d"))[2]? = some 116 := rfl
  rw [hthird]
  decide

/-! ## Events -/

/-- The client `c'` after a step of `c` that only chatted. -/
structure Chat (c c' : Client) : Prop where
  effects : ∃ es, c'.journal = c.journal.writes es ∧ ∀ e ∈ es, Chats e
  tasks : c'.tasks = c.tasks
  busy : c'.otaInProgress = c.otaInProgress
  ota : c'.ota = c.ota
  slot : c'.slot = c.slot

/-- What an event does to the tasks. -/
inductive EventMove (c c' : Client) : Prop
  | chat (h : Chat c c')
  /-- No attempt runs, and none is started. -/
  | refused (hidle : c.otaInProgress = false)
      (htalks : ∃ es, c'.journal = c.journal.writes es ∧ ∀ e ∈ es, Talks e)
      (htasks : c'.tasks = c.tasks) (hota : c'.ota = c.ota)
  /-- No attempt runs, and a task is started. -/
  | started (hidle : c.otaInProgress = false)
      (hchats : ∃ es, c'.journal = c.journal.writes es ∧ ∀ e ∈ es, Chats e)
      (htasks : ∃ arg argId, c'.tasks = c.tasks ++ [newTask arg argId])
      (hbusy : c'.otaInProgress = true) (hota : c'.ota = c.ota)

/-- A step that writes nothing. -/
theorem Chat.silent (hjournal : c'.journal = c.journal) (htasks : c'.tasks = c.tasks)
    (hbusy : c'.otaInProgress = c.otaInProgress) (hota : c'.ota = c.ota)
    (hslot : c'.slot = c.slot) : Chat c c' :=
  ⟨⟨[], hjournal, by simp⟩, htasks, hbusy, hota, hslot⟩

/-- One effect that chats. -/
theorem Chat.one {e : Effect} (he : Chats e) (hjournal : c'.journal = c.journal.write e)
    (htasks : c'.tasks = c.tasks) (hbusy : c'.otaInProgress = c.otaInProgress)
    (hota : c'.ota = c.ota) (hslot : c'.slot = c.slot) : Chat c c' :=
  ⟨⟨[e], hjournal, by simpa using he⟩, htasks, hbusy, hota, hslot⟩

theorem reportTwinProperties_chat (c : Client) (interval : Int32) (o : Outcomes) :
    Chat c ({ c with publishIntervalMs := interval }.reportTwinProperties o) :=
  .one (chats_publish _ (twinPayload_third c.build interval o)) rfl rfl rfl rfl rfl

theorem append_chats {es fs : List Effect} (h : ∀ e ∈ es, Chats e) (h' : ∀ e ∈ fs, Chats e) :
    ∀ e ∈ es ++ fs, Chats e := by
  intro e he
  rcases List.mem_append.mp he with he | he
  · exact h e he
  · exact h' e he

/-- Chat after an event is part of it. -/
theorem EventMove.chat_after {d : Client} (h : EventMove c d) (hchat : Chat d c') :
    EventMove c c' := by
  obtain ⟨fs, hjournal', hchats'⟩ := hchat.effects
  cases h with
  | chat h =>
    obtain ⟨es, hjournal, hchats⟩ := h.effects
    refine .chat ⟨⟨es ++ fs, ?_, append_chats hchats hchats'⟩, hchat.tasks.trans h.tasks,
      hchat.busy.trans h.busy, hchat.ota.trans h.ota, hchat.slot.trans h.slot⟩
    rw [hjournal', hjournal, Journal.writes_append]
  | refused hidle htalks htasks hota =>
    obtain ⟨es, hjournal, htalks⟩ := htalks
    refine .refused hidle ⟨es ++ fs, ?_, fun e he => ?_⟩ (hchat.tasks.trans htasks)
      (hchat.ota.trans hota)
    · rw [hjournal', hjournal, Journal.writes_append]
    · rcases List.mem_append.mp he with he | he
      · exact htalks e he
      · exact (hchats' e he).1
  | started hidle hchats htasks hbusy hota =>
    obtain ⟨es, hjournal, hchats⟩ := hchats
    refine .started hidle ⟨es ++ fs, ?_, append_chats hchats hchats'⟩ (hchat.tasks ▸ htasks)
      (hchat.busy.trans hbusy) (hchat.ota.trans hota)
    rw [hjournal', hjournal, Journal.writes_append]

theorem triggerOta_move (c : Client) (o : Outcomes) (url newVersion : Bytes) :
    EventMove c (c.triggerOta o url newVersion) := by
  simp only [triggerOta]
  split_ifs with hbusy hfailed htask
  · exact .chat (.silent rfl rfl rfl rfl rfl)
  · exact .refused (by simpa using hbusy) ⟨[.publish _ _], rfl, by simp [Talks]⟩ rfl rfl
  · exact .started (by simpa using hbusy) ⟨[], rfl, by simp⟩ ⟨_, _, rfl⟩ rfl rfl
  · exact .refused (by simpa using hbusy) ⟨[], rfl, by simp⟩ rfl rfl

theorem applyDesiredProperties_move (c : Client) (o : Outcomes) (desired : CJson) :
    EventMove c (c.applyDesiredProperties o desired) := by
  rcases hoffer : fwOffer c.build desired with _ | ⟨url, version⟩ <;>
    rcases hinterval : newInterval desired with _ | interval <;>
    simp only [applyDesiredProperties, hoffer, hinterval]
  · exact .chat (.silent rfl rfl rfl rfl rfl)
  · exact .chat (reportTwinProperties_chat c interval o)
  · exact triggerOta_move c o url version
  · exact (triggerOta_move c o url version).chat_after (reportTwinProperties_chat _ interval o)

theorem handleDirectMethodRequest_chat (c : Client) (o : Outcomes) (topic : Bytes) :
    Chat c (c.handleDirectMethodRequest o topic) := by
  simp only [handleDirectMethodRequest]
  split
  · exact .silent rfl rfl rfl rfl rfl
  · split_ifs
    · exact .one (chats_publish _ (statusPayload_third _ _)) rfl rfl rfl rfl rfl
    · exact .one (chats_publish _ (by decide)) rfl rfl rfl rfl rfl
    · exact .one (chats_publish _ (by decide)) rfl rfl rfl rfl rfl

theorem connected_chat (c : Client) (o : Outcomes) : Chat c (c.connected o) := by
  refine ⟨⟨[ .subscribe directMethodTopicFilter, .subscribe twinResTopicFilter
            , .subscribe twinDesiredTopicFilter, .subscribe _, .publish _ [], .publish _ _],
      rfl, ?_⟩, rfl, rfl, rfl, rfl⟩
  have hsubscribe : ∀ filter, Chats (.subscribe filter) := fun _ => ⟨trivial, rfl⟩
  have hget : ∀ topic, Chats (.publish topic []) := fun topic => chats_publish topic (by decide)
  simp only [List.mem_cons, List.not_mem_nil, or_false, forall_eq_or_imp, forall_eq, hsubscribe,
    hget, true_and]
  exact chats_publish _ (twinPayload_third _ _ _)

/-- Every event is of one of the kinds. -/
theorem handler_move (P : Platform) (c : Client) (o : Outcomes) (e : Event) :
    EventMove c (hubMqttEventHandler P c o e) := by
  have hmove := handler_cases P c o e
  generalize hubMqttEventHandler P c o e = d at hmove ⊢
  cases hmove with
  | connected _ => exact .chat (connected_chat c o)
  | disconnected _ | c2d _ | ignored _ => exact .chat (.silent rfl rfl rfl rfl rfl)
  | method _ topic => exact .chat (handleDirectMethodRequest_chat c o topic)
  | twin _ => exact applyDesiredProperties_move c o _

theorem telemetry_chat (c : Client) : Chat c c.telemetry := by
  unfold telemetry
  split_ifs
  · exact .one (chats_publish _ (temperature_third _)) rfl rfl rfl rfl rfl
  · exact .silent rfl rfl rfl rfl rfl

end Winegrid.Azure
