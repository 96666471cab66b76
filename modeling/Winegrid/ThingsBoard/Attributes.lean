import Winegrid.Dispatch
import Winegrid.ThingsBoard.Integrity
import Mathlib.Data.List.Nodup
import Mathlib.Data.List.Perm.Basic

/-!
# Attribute messages

`handle_attributes_payload` goes through the children of one part of the
document, its member `shared` or else all of it, and gives
`apply_shared_attribute` the name of each child.

* `attributes_named_iff`: no NULL name gets there exactly when that part is not
  an array with an element in it.
* `next_fault` blames every fault of the client on such an array.
* `applySharedAttribute_comm`: attributes with different keys commute.
* `attributes_order`: so they may come in any order.
-/

namespace Winegrid.ThingsBoard

open Esp
open Dispatch (docPlatform docPlatform_parse)

/-! ## Names -/

/-- The attributes of a document have names: they are not the elements of an
array. -/
def NamesAttributes (P : Platform) (data : Bytes) : Prop :=
  ∀ root, P.parse data = some root → ∀ items, Client.container root = .array items → items = []

/-- A topic that `mqtt_event_handler` routes to `handle_attributes_payload`. -/
structure AttributeTopic (topic : Bytes) : Prop where
  notFw : startsWith topic fwTopicPrefix = false
  notRpc : startsWith topic rpcRequestTopicPrefix = false

/-- Only an array has children without names. -/
theorem children_named_iff (json : CJson) :
    (∀ item ∈ json.children, item.1.isSome) ↔ ∀ items, json = .array items → items = [] := by
  cases json with
  | array items =>
    cases items with
    | nil =>
      constructor
      · intro _ items h
        exact (CJson.array.inj h).symm
      · intro _ item hitem
        cases hitem
    | cons item items =>
      constructor
      · intro h
        exact absurd (h (none, item) List.mem_cons_self) (by simp)
      · intro h
        exact absurd (h _ rfl) (by simp)
  | object members =>
    constructor
    · intro _ items h
      cases h
    · intro _ item hitem
      obtain ⟨m, -, heq⟩ := List.mem_map.mp hitem
      rw [← heq]
      rfl
  | _ =>
    constructor
    · intro _ items h
      cases h
    · intro _ item hitem
      cases hitem

namespace Client

/-- A client that is halted goes through no more attributes. -/
theorem applyAttributes_halted {c : Client} (h : c.halt.isSome)
    (items : List (Option Bytes × CJson)) : c.applyAttributes items = c := by
  induction items with
  | nil => rfl
  | cons item items ih =>
    rw [applyAttributes, List.foldl_cons, if_pos h]
    exact ih

/-- The loop ends in a fault if and only if some child has no name. -/
theorem applyAttributes_halt {c : Client} (h : c.halt = none)
    (items : List (Option Bytes × CJson)) :
    (c.applyAttributes items).halt =
      if ∀ item ∈ items, item.1.isSome then none else some .fault := by
  induction items generalizing c with
  | nil => simpa [applyAttributes] using h
  | cons item items ih =>
    obtain ⟨key, value⟩ := item
    rw [applyAttributes, List.foldl_cons, if_neg (by simp [h])]
    show ((c.applySharedAttribute key value).applyAttributes items).halt = _
    cases key with
    | none =>
      rw [applyAttributes_halted rfl, if_neg]
      · rfl
      · intro hall
        exact absurd (hall (none, value) List.mem_cons_self) (by simp)
    | some key =>
      have hnext : (c.applySharedAttribute (some key) value).halt = none := h
      rw [ih hnext]
      simp only [List.forall_mem_cons, Option.isSome_some, true_and]

theorem startFwUpdate_halt (c : Client) (o : Outcomes) : (c.startFwUpdate o).halt = c.halt := by
  rcases startFwUpdate_cases c o with ⟨-, p, payload, -, heq⟩ | ⟨-, heq⟩
  · rw [heq]
    rfl
  · rw [heq, beginDownload_eq]
    rfl

theorem offer_halt (c : Client) (o : Outcomes) : (c.offer o).halt = c.halt := by
  unfold offer
  split_ifs
  · exact startFwUpdate_halt c o
  · rfl

/-- A running client that handles attributes faults only at a child without a
name. -/
theorem handleAttributesPayload_safe {P : Platform} {c : Client} (h : c.halt = none)
    (o : Outcomes) (data : Bytes) :
    (c.handleAttributesPayload P o data).halt ≠ some .fault ↔ NamesAttributes P data := by
  cases hparse : P.parse data with
  | none =>
    have hnone : NamesAttributes P data := by
      intro root hroot
      rw [hparse] at hroot
      cases hroot
    rw [handleAttributesPayload_unparsed hparse, h]
    exact ⟨fun _ => hnone, fun _ hfault => by cases hfault⟩
  | some root =>
    have hnames : NamesAttributes P data ↔
        ∀ item ∈ (container root).children, item.1.isSome := by
      rw [children_named_iff]
      constructor
      · exact fun hall => hall root hparse
      · intro hall root' hroot'
        rw [hparse, Option.some_inj] at hroot'
        exact hroot' ▸ hall
    rw [handleAttributesPayload_eq hparse, offer_halt, applyAttributes_halt h, hnames]
    split_ifs with hall
    · exact ⟨fun _ => hall, fun _ hfault => by cases hfault⟩
    · exact ⟨fun hsafe => absurd rfl hsafe, fun hnamed => absurd hnamed hall⟩

end Client

variable {P : Platform} {c c' : Client} {o : Outcomes} {topic data : Bytes} {l : Label}

theorem mqttEventHandler_attributes (h : AttributeTopic topic) (c : Client) (o : Outcomes)
    (data : Bytes) :
    mqttEventHandler P c o (.data topic data) = c.handleAttributesPayload P o data := by
  simp only [mqttEventHandler, h.notFw, h.notRpc, Bool.false_eq_true, if_false]

/-- A running client survives a message with attributes if and only if what
holds them is not an array with an element in it. -/
theorem attributes_named_iff (hrunning : c.halt = none) (htopic : AttributeTopic topic) :
    (mqttEventHandler P c o (.data topic data)).halt ≠ some .fault ↔ NamesAttributes P data := by
  rw [mqttEventHandler_attributes htopic]
  exact Client.handleAttributesPayload_safe hrunning o data

/-- `1`. -/
def one : Numeral := ⟨ascii "1", by decide, by decide +kernel⟩

/-- `[1]`. -/
def arrayDoc : Json := .array [.number one]

/-- `{"publishInterval":1}`. -/
def intervalDoc : Json :=
  .object [(⟨ascii "publishInterval", escaped_plain (by decide +kernel)⟩, .number one)]

theorem attributesTopic_routed : AttributeTopic attributesTopic := ⟨by decide, by decide⟩

/-- An object on the topic of the pushed attributes. -/
theorem attributes_named_iff_object :
    (mqttEventHandler (docPlatform intervalDoc) sampleClient allOk
      (.data attributesTopic intervalDoc.text)).halt ≠ some .fault := by
  refine (attributes_named_iff rfl attributesTopic_routed).mpr ?_
  have htree : cjson (fun _ => 0) intervalDoc =
      some (.object [(ascii "publishInterval", .number 0)]) := rfl
  intro root hroot items hitems
  rw [docPlatform_parse, htree, Option.some_inj] at hroot
  subst hroot
  cases hitems

/-- A one-element array makes the client of the first boot fault. -/
theorem array_attributes_fault :
    ¬ ∀ (P : Platform) (c : Client) (o : Outcomes) (topic data : Bytes),
      (client P).Reachable c → c.halt = none → AttributeTopic topic →
      (mqttEventHandler P c o (.data topic data)).halt ≠ some .fault := by
  intro h
  refine h (docPlatform arrayDoc) sampleClient allOk attributesTopic arrayDoc.text
    (.init ⟨_, _, _, rfl⟩) rfl attributesTopic_routed ?_
  have htree : cjson (fun _ => 0) arrayDoc = some (.array [.number 0]) := rfl
  rw [mqttEventHandler_attributes attributesTopic_routed,
    Client.handleAttributesPayload_eq ((docPlatform_parse arrayDoc).trans htree),
    Client.offer_halt]
  rfl

/-! ## Faults -/

theorem finishFwUpdate_ne_fault (h : c.halt = none) (success : Bool) :
    (c.finishFwUpdate P o success).halt ≠ some .fault := by
  rcases Client.finishFwUpdate_cases P c o success with
    ⟨states, -, heq⟩ | ⟨-, -, slot, -, heq | heq⟩
  · rw [heq]
    show c.halt ≠ some .fault
    simp [h]
  · rw [heq]
    show c.halt ≠ some .fault
    simp [h]
  · rw [heq]
    show some Halt.restart ≠ some .fault
    decide

theorem handleFwChunkData_ne_fault (h : c.halt = none) (data : Bytes) :
    (c.handleFwChunkData P o data).halt ≠ some .fault := by
  rcases Client.handleFwChunkData_cases P c o data with
    ⟨-, heq⟩ | ⟨-, heq⟩ | ⟨-, -, -, -, heq⟩ | ⟨-, -, heq⟩
  · rw [heq, h]
    simp
  · rw [heq]
    exact finishFwUpdate_ne_fault h false
  · rw [heq]
    show c.halt ≠ some .fault
    simp [h]
  · rw [heq]
    exact finishFwUpdate_ne_fault (c := c.acceptChunk data) h _

theorem handleRpcRequest_ne_fault (h : c.halt = none) (topic data : Bytes) :
    (c.handleRpcRequest P o topic data).halt ≠ some .fault := by
  rw [handleRpcRequest_eq]
  cases rpcBranch P data with
  | none =>
    show c.halt ≠ some .fault
    simp [h]
  | some branch =>
    cases branch with
    | reboot =>
      show some Halt.restart ≠ some .fault
      decide
    | _ =>
      show c.halt ≠ some .fault
      simp [h]

/-- Whatever makes a client fault is a message with attributes that have no
names. -/
theorem next_fault (hnext : c.next P l = some c') (hfault : c'.halt = some .fault) :
    ∃ o topic data, l = .event o (.data topic data) ∧ AttributeTopic topic ∧
      ¬NamesAttributes P data := by
  obtain ⟨hrunning, -⟩ := next_step hnext
  have hne : c.halt ≠ some .fault := by simp [hrunning]
  simp only [Client.next, hrunning, Option.isSome_none, Bool.false_eq_true, if_false] at hnext
  cases l with
  | telemetry =>
    cases hnext
    refine absurd hfault ?_
    unfold Client.telemetry
    split_ifs <;> exact hne
  | event o e =>
    cases hnext
    cases e with
    | data topic data =>
      by_cases hfw : startsWith topic fwTopicPrefix = true
      · rw [mqttEventHandler, if_pos hfw] at hfault
        exact absurd hfault (handleFwChunkData_ne_fault hrunning data)
      · by_cases hrpc : startsWith topic rpcRequestTopicPrefix = true
        · rw [mqttEventHandler, if_neg hfw, if_pos hrpc] at hfault
          exact absurd hfault (handleRpcRequest_ne_fault hrunning topic data)
        · have htopic : AttributeTopic topic := ⟨by simpa using hfw, by simpa using hrpc⟩
          refine ⟨o, topic, data, rfl, htopic, fun hnames => ?_⟩
          rw [mqttEventHandler_attributes htopic] at hfault
          exact (Client.handleAttributesPayload_safe hrunning o data).mpr hnames hfault
    | _ => exact absurd hfault hne

/-- Every message with attributes names them. -/
def NamedMessages (P : Platform) (_ : Client) : Label → Prop
  | .event _ (.data topic data) => AttributeTopic topic → NamesAttributes P data
  | _ => True

/-- A boot is free of faults if and only if all the attributes that come in it
have names. -/
theorem fault_free_iff {start : Client} {ls : List Label} (hstart : (client P).init start)
    (hrun : (client P).Run Machine.always start ls c) :
    ((client P).Run (fun c _ => c.halt ≠ some .fault) start ls c ∧ c.halt ≠ some .fault) ↔
      (client P).Run (NamedMessages P) start ls c := by
  refine Machine.Run.states_iff (I := fun c => c.halt ≠ some .fault) ?_ ?_ hrun
  · obtain ⟨build, slot, journal, hfresh⟩ := hstart
    rw [hfresh]
    simp [Client.fresh]
  · intro c l c' _ hnext
    obtain ⟨hrunning, -⟩ := next_step hnext
    constructor
    · intro hok hfault
      obtain ⟨o, topic, data, hl, htopic, hunnamed⟩ := next_fault hnext hfault
      subst hl
      exact hunnamed (hok htopic)
    · intro hsafe
      cases l with
      | telemetry => trivial
      | event o e =>
        rw [client_next, next_event hrunning, Option.some_inj] at hnext
        subst hnext
        cases e with
        | data topic data =>
          intro htopic
          rw [mqttEventHandler_attributes htopic] at hsafe
          exact (Client.handleAttributesPayload_safe hrunning o data).mp hsafe
        | _ => trivial

/-! ## The order of the attributes -/

section Keys

variable {κ α β : Type}

/-- A fold does not depend on the order of a list whose keys are distinct, when
the steps for different keys commute. -/
theorem foldl_perm_of_keys {step : β → κ × α → β} {l l' : List (κ × α)}
    (hperm : l.Perm l') (hdistinct : (l.map Prod.fst).Nodup)
    (hcomm : ∀ x y z, x.1 ≠ y.1 → step (step z x) y = step (step z y) x) (start : β) :
    l.foldl step start = l'.foldl step start := by
  refine hperm.foldl_eq' (fun x hx y hy z => ?_) start
  by_cases hkey : x.1 = y.1
  · rw [List.inj_on_of_nodup_map hdistinct hx hy hkey]
  · exact hcomm x y z hkey

end Keys

theorem applyInterval_eq (interval : Int32) (key : Bytes) (value : CJson) :
    Client.applyInterval interval key value = atKey (ascii "publishInterval") key
      (fun old => (value.number?.filter (1000 ≤ ·)).getD old) interval := by
  unfold atKey
  cases value with
  | number n =>
    simp only [Client.applyInterval, CJson.number?, Option.filter_some]
    by_cases hkey : key = ascii "publishInterval"
    · by_cases hlow : 1000 ≤ n <;> simp [hkey, hlow]
    · simp [hkey]
  | _ =>
    simp [Client.applyInterval, CJson.number?]

namespace Client

/-- Two attributes with different names may come in either order. -/
theorem applySharedAttribute_comm {key key' : Bytes} (h : key ≠ key') (value value' : CJson)
    (c : Client) :
    (c.applySharedAttribute (some key) value).applySharedAttribute (some key') value' =
      (c.applySharedAttribute (some key') value').applySharedAttribute (some key) value := by
  have hfw : applyFwAttribute (applyFwAttribute c.fw key value) key' value' =
      applyFwAttribute (applyFwAttribute c.fw key' value') key value := by
    simp only [applyFwAttribute_eq, atKey_comm h]
  have hinterval : applyInterval (applyInterval c.publishIntervalMs key value) key' value' =
      applyInterval (applyInterval c.publishIntervalMs key' value') key value := by
    simp only [applyInterval_eq, atKey_comm h]
  simp only [applySharedAttribute, hfw, hinterval]

/-- The attributes of an object may be permuted. -/
theorem applyAttributes_perm {members members' : List (Bytes × CJson)}
    (hperm : members.Perm members') (hdistinct : (members.map Prod.fst).Nodup) (c : Client) :
    c.applyAttributes (CJson.object members).children =
      c.applyAttributes (CJson.object members').children := by
  unfold applyAttributes
  rw [CJson.children, CJson.children, List.foldl_map, List.foldl_map]
  refine foldl_perm_of_keys hperm hdistinct (fun x y z hkey => ?_) c
  by_cases hhalt : z.halt.isSome
  · simp only [if_pos hhalt]
  · have hrunning : ∀ key value, ¬(z.applySharedAttribute (some key) value).halt.isSome :=
      fun _ _ => hhalt
    simp only [if_neg hhalt, if_neg (hrunning _ _)]
    exact applySharedAttribute_comm hkey x.2 y.2 z

end Client

/-- Two documents whose attributes are the same up to their order, with no name
twice, do the same to a client: they change the same variables and write the
same to the journal.  Only the last of it can be a start of an update, which
sees all the attributes and the flash as it was. -/
theorem attributes_order {data' : Bytes} {root root' : CJson}
    {members members' : List (Bytes × CJson)} (hparse : P.parse data = some root)
    (hparse' : P.parse data' = some root') (hcontainer : Client.container root = .object members)
    (hcontainer' : Client.container root' = .object members') (hperm : members.Perm members')
    (hdistinct : (members.map Prod.fst).Nodup) :
    c.handleAttributesPayload P o data' = c.handleAttributesPayload P o data ∧
      ∃ merged : Client, merged.journal = c.journal ∧ merged.ota = c.ota ∧ merged.dl = c.dl ∧
        (c.handleAttributesPayload P o data = merged ∨
          c.handleAttributesPayload P o data = merged.startFwUpdate o) := by
  rw [Client.handleAttributesPayload_eq hparse, Client.handleAttributesPayload_eq hparse',
    hcontainer, hcontainer', Client.applyAttributes_perm hperm hdistinct]
  refine ⟨rfl, c.applyAttributes (CJson.object members').children, ?_, ?_, ?_, ?_⟩
  · exact Client.applyAttributes_journal c _
  · obtain ⟨interval, fw, halt, heq⟩ := Client.applyAttributes_frame c
      (CJson.object members').children
    rw [heq]
  · exact Client.applyAttributes_dl c _
  · unfold Client.offer
    split_ifs
    · exact Or.inr rfl
    · exact Or.inl rfl

/-- The attributes of an update, and one that the client does not know. -/
def sampleAttributes : List (Written × Json) :=
  [ (⟨ascii "fw_size", escaped_plain (by decide +kernel)⟩, .number one)
  , (⟨ascii "colour", escaped_plain (by decide +kernel)⟩, .null)
  , (⟨ascii "fw_version", escaped_plain (by decide +kernel)⟩,
      .string ⟨ascii "1.8", escaped_plain (by decide +kernel)⟩) ]

def sampleDoc : Json := .object sampleAttributes

def reversedDoc : Json := .object sampleAttributes.reverse

/-- A platform that knows two documents. -/
def twoDocs (x y : Json) : Platform :=
  { docPlatform x with
    parse := fun text =>
      if text = x.text then cjson (fun _ => 1) x
      else if text = y.text then cjson (fun _ => 1) y
      else none }

theorem twoDocs_first (x y : Json) : (twoDocs x y).parse x.text = cjson (fun _ => 1) x :=
  if_pos rfl

theorem twoDocs_second {x y : Json} (h : y.text ≠ x.text) :
    (twoDocs x y).parse y.text = cjson (fun _ => 1) y :=
  (if_neg h).trans (if_pos rfl)

/-- The update starts with its attributes in either order. -/
theorem attributes_order_sample :
    sampleClient.handleAttributesPayload (twoDocs sampleDoc reversedDoc) allOk reversedDoc.text =
        sampleClient.handleAttributesPayload (twoDocs sampleDoc reversedDoc) allOk sampleDoc.text ∧
      (sampleClient.handleAttributesPayload (twoDocs sampleDoc reversedDoc) allOk
        sampleDoc.text).dl.inProgress = true := by
  have hne : reversedDoc.text ≠ sampleDoc.text := by decide +kernel
  have htree : cjson (fun _ => 1) sampleDoc = some (.object
      [(ascii "fw_size", .number 1), (ascii "colour", .null),
        (ascii "fw_version", .string (ascii "1.8"))]) := rfl
  have htree' : cjson (fun _ => 1) reversedDoc = some (.object
      [(ascii "fw_version", .string (ascii "1.8")), (ascii "colour", .null),
        (ascii "fw_size", .number 1)]) := rfl
  have hparse := twoDocs_first sampleDoc reversedDoc
  have hparse' := twoDocs_second hne
  refine ⟨(attributes_order (hparse.trans htree) (hparse'.trans htree') rfl rfl
    (List.reverse_perm _).symm (by decide)).1, ?_⟩
  rw [Client.handleAttributesPayload_eq (hparse.trans htree)]
  decide +kernel

end Winegrid.ThingsBoard
