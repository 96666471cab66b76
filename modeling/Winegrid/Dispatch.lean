import Winegrid.ThingsBoard.Client
import Winegrid.Zephyr.Extract

/-!
# RPC dispatch of the two ThingsBoard firmwares

Both firmwares answer the same two methods.  The one for ESP-IDF looks the
method up in the tree that cJSON parses, the one for Zephyr searches the bytes.

* `SameBranch` says that both handlers do on a payload what one branch says.
* `SameMethod` compares the two methods of a document: the first one in its
  text, and the first one of its top level.
* `same_branch_iff`: on the compact text of a document the handlers take the
  same branch if and only if these are the same.
* `nested_method_reboots` is a status request that restarts the Zephyr device.
-/

namespace Winegrid.ThingsBoard

open Esp
open Zephyr (Branch branchOf)

/-- The method of a request, if it is a string. -/
def methodOf (root : CJson) : Option Bytes :=
  (root.getObjectItem (ascii "method")).bind CJson.string?

/-- The branch of the ESP-IDF handler, if there is any reply. -/
def rpcBranch (P : Platform) (data : Bytes) : Option Branch :=
  ((P.parse data).bind methodOf).map branchOf

def rpcResponseTopic (topic : Bytes) : Bytes :=
  snprintf 64 (ascii "v1/devices/me/rpc/response/" ++ topic.drop rpcRequestTopicPrefix.length)

/-- The reply and the restart of a branch. -/
def Client.perform (c : Client) (o : Outcomes) (topic : Bytes) : Branch → Client
  | .getStatus => c.emit (.publish (rpcResponseTopic topic)
      (statusPayload c.fakeTemperature o.freeHeap))
  | .reboot =>
    { c.emit (.publish (rpcResponseTopic topic)
        (ascii "\x7b\"result\":\"rebooting\"\x7d")) with
      halt := some .restart }
  | .unknownMethod => c.emit (.publish (rpcResponseTopic topic)
      (ascii "\x7b\"error\":\"unknown method\"\x7d"))

/-- The handler performs its branch. -/
theorem handleRpcRequest_eq (P : Platform) (c : Client) (o : Outcomes) (topic data : Bytes) :
    c.handleRpcRequest P o topic data = (rpcBranch P data).elim c (c.perform o topic) := by
  simp only [Client.handleRpcRequest, rpcBranch]
  rcases P.parse data with _ | root
  · rfl
  · simp only [Option.bind_some, methodOf]
    rcases (root.getObjectItem (ascii "method")).bind CJson.string? with _ | method
    · rfl
    · simp only [Option.map_some, Option.elim_some, branchOf]
      split_ifs <;> rfl

end Winegrid.ThingsBoard

namespace Winegrid.Dispatch

open Esp
open Zephyr (Branch branchOf)

variable {P : Platform} {valueint : Bytes → Int32}

/-- Both handlers do on a payload what one branch says, whatever the topic and
the state they are called in. -/
def SameBranch (P : Platform) (data : Bytes) : Prop :=
  ∃ branch : Option Branch,
    (∀ uptimeMs topic c, Zephyr.handleRpcRequest uptimeMs topic data c =
      branch.elim c (c.perform uptimeMs topic)) ∧
    ∀ o topic c, ThingsBoard.Client.handleRpcRequest P c o topic data =
      branch.elim c (c.perform o topic)

/-! ## Branches are told apart -/

/-- A Zephyr client that sent nothing yet. -/
def idleZephyr : Zephyr.Client := ⟨[], 20, [], [], false⟩

/-- An ESP-IDF client that did nothing yet. -/
def idleEsp : ThingsBoard.Client :=
  .fresh ⟨[], []⟩ .ota0 ⟨⟨fun _ => none, fun _ => [], .ota0, .valid⟩, []⟩

def idleOutcomes : ThingsBoard.Outcomes := ⟨true, true, true, true, true, 200000⟩

theorem zephyr_branch_injective {a b : Option Branch}
    (h : a.elim idleZephyr (idleZephyr.perform 0 []) =
      b.elim idleZephyr (idleZephyr.perform 0 [])) : a = b := by
  have hsent := congrArg Zephyr.Client.sent h
  rcases a with _ | _ | _ | _ <;> rcases b with _ | _ | _ | _ <;>
    first | rfl | exact absurd hsent (by decide)

theorem esp_branch_injective {a b : Option Branch}
    (h : a.elim idleEsp (idleEsp.perform idleOutcomes []) =
      b.elim idleEsp (idleEsp.perform idleOutcomes [])) : a = b := by
  have hlog := congrArg (fun c => c.journal.log) h
  rcases a with _ | _ | _ | _ <;> rcases b with _ | _ | _ | _ <;>
    first | rfl | exact absurd hlog (by decide)

/-- The handlers take the same branch if their branches are the same. -/
theorem sameBranch_iff {data : Bytes} :
    SameBranch P data ↔ Zephyr.rpcBranch data = ThingsBoard.rpcBranch P data := by
  constructor
  · rintro ⟨branch, hzephyr, hesp⟩
    have hz := hzephyr 0 [] idleZephyr
    have he := hesp idleOutcomes [] idleEsp
    rw [Zephyr.handleRpcRequest_eq] at hz
    rw [ThingsBoard.handleRpcRequest_eq] at he
    exact (zephyr_branch_injective hz).trans (esp_branch_injective he).symm
  · intro h
    refine ⟨Zephyr.rpcBranch data, fun uptimeMs topic c => ?_, fun o topic c => ?_⟩
    · exact Zephyr.handleRpcRequest_eq uptimeMs topic data c
    · rw [h]
      exact ThingsBoard.handleRpcRequest_eq P c o topic data

/-! ## Methods of a document -/

/-- Two texts take the same branch if they are the same method or both
unknown. -/
theorem branchOf_eq_iff {a b : Bytes} :
    branchOf a = branchOf b ↔
      ∀ name ∈ [ascii "getStatus", ascii "reboot"], (a = name ↔ b = name) := by
  have hne : ascii "getStatus" ≠ ascii "reboot" := by decide
  rw [List.forall_mem_cons, List.forall_mem_singleton]
  unfold branchOf
  split_ifs <;> simp_all [hne.symm]

/-- The first method in the text, at any depth and as it is written, beside the
first method of the top level, in any case of its letters and as it is meant:
either there is neither, or each is `getStatus` or `reboot` exactly if the
other is. -/
structure SameMethod (x : Json) : Prop where
  both : (x.first (ascii "method")).isSome ↔
    x.Meaningful ∧ (stringNamed (ascii "method") x.members).isSome
  same : ∀ s ∈ x.first (ascii "method"), ∀ t ∈ stringNamed (ascii "method") x.members,
    ∀ name ∈ [ascii "getStatus", ascii "reboot"], (s.bytes = name ↔ t = name)

/-- The branch of a document that cJSON is right about. -/
theorem rpcBranch_cjson {x : Json} (hparse : P.parse x.text = cjson valueint x)
    (hmeans : x.Meaningful) :
    ThingsBoard.rpcBranch P x.text = (stringNamed (ascii "method") x.members).map branchOf := by
  obtain ⟨root, hroot⟩ := Option.isSome_iff_exists.mp ((cjson_isSome x).mpr hmeans)
  rw [ThingsBoard.rpcBranch, hparse, hroot, Option.bind_some, ThingsBoard.methodOf,
    getObjectItem_cjson hroot]

/-- A document that cJSON refuses. -/
theorem rpcBranch_meaningless {x : Json} (hparse : P.parse x.text = cjson valueint x)
    (hmeans : ¬x.Meaningful) : ThingsBoard.rpcBranch P x.text = none := by
  have hnone : cjson valueint x = none :=
    Option.not_isSome_iff_eq_none.mp (mt (cjson_isSome x).mp hmeans)
  rw [ThingsBoard.rpcBranch, hparse, hnone]
  rfl

/-- In a document that cJSON accepts, the same method is the same branch. -/
theorem sameMethod_iff {x : Json} (hmeans : x.Meaningful) :
    SameMethod x ↔ (x.first (ascii "method")).map (fun s => branchOf s.bytes) =
      (stringNamed (ascii "method") x.members).map branchOf := by
  rcases hwritten : x.first (ascii "method") with _ | s
  · rcases hparsed : stringNamed (ascii "method") x.members with _ | t
    · refine ⟨fun _ => rfl, fun _ => ⟨?_, ?_⟩⟩
      · simp [hwritten, hparsed]
      · simp [hwritten]
    · -- Only the tree has a method.
      refine ⟨fun h => ?_, fun h => (nomatch h)⟩
      have hboth := h.both
      simp [hwritten, hparsed, hmeans] at hboth
  · rcases hparsed : stringNamed (ascii "method") x.members with _ | t
    · -- Only the text has a method.
      refine ⟨fun h => ?_, fun h => (nomatch h)⟩
      have hboth := h.both
      simp [hwritten, hparsed] at hboth
    · rw [Option.map_some, Option.map_some, Option.some_inj, branchOf_eq_iff]
      constructor
      · exact fun h => h.same s hwritten t hparsed
      · intro h
        refine ⟨by simp [hwritten, hparsed, hmeans], ?_⟩
        rw [hwritten, hparsed]
        rintro _ ⟨⟩ _ ⟨⟩
        exact h

/-- In a document that cJSON refuses, the text may hold no method. -/
theorem sameMethod_meaningless {x : Json} (hmeans : ¬x.Meaningful) :
    SameMethod x ↔ x.first (ascii "method") = none := by
  constructor
  · intro h
    by_contra hne
    exact hmeans (h.both.mp (Option.isSome_iff_ne_none.mpr hne)).1
  · intro h
    exact ⟨by simp [h, hmeans], by simp [h]⟩

/-- When cJSON is right about the text of a document, the handlers take the
same branch on it if and only if its two methods are the same. -/
theorem same_branch_iff {x : Json} (hparse : P.parse x.text = cjson valueint x) :
    SameBranch P x.text ↔ SameMethod x := by
  rw [sameBranch_iff, Zephyr.rpcBranch_text]
  by_cases hmeans : x.Meaningful
  · rw [rpcBranch_cjson hparse hmeans, sameMethod_iff hmeans]
  · rw [rpcBranch_meaningless hparse hmeans, Option.map_eq_none_iff,
      sameMethod_meaningless hmeans]

/-- A platform that knows one document. -/
def docPlatform (x : Json) : Platform where
  sha256 _ := []
  parse text := if text = x.text then cjson (fun _ => 0) x else none
  build _ := ⟨[], []⟩
  partitionSize := 1048576
  partitionSize_lt := mebibyte_lt

theorem docPlatform_parse (x : Json) : (docPlatform x).parse x.text = cjson (fun _ => 0) x :=
  if_pos rfl

def method : Written := ⟨ascii "method", escaped_plain (by decide +kernel)⟩
def params : Written := ⟨ascii "params", escaped_plain (by decide +kernel)⟩
def getStatus : Written := ⟨ascii "getStatus", escaped_plain (by decide +kernel)⟩
def reboot : Written := ⟨ascii "reboot", escaped_plain (by decide +kernel)⟩

/-- `{"method":"getStatus","params":{}}`. -/
def plainRequest : Json := .object [(method, .string getStatus), (params, .object [])]

theorem same_branch_iff_plain : SameBranch (docPlatform plainRequest) plainRequest.text := by
  have hwritten : (plainRequest.first (ascii "method")).map Written.bytes =
      some (ascii "getStatus") := by decide +kernel
  have hparsed : stringNamed (ascii "method") plainRequest.members = some (ascii "getStatus") := by
    decide +kernel
  obtain ⟨s, hs, hbytes⟩ := Option.map_eq_some_iff.mp hwritten
  refine (same_branch_iff (docPlatform_parse plainRequest)).mpr ⟨?_, ?_⟩
  · rw [hs, hparsed]
    refine ⟨fun _ => ⟨?_, rfl⟩, fun _ => rfl⟩
    exact Json.meaningful_of_plain (by decide +kernel)
  · rw [hs, hparsed]
    rintro _ ⟨⟩ _ ⟨⟩ name -
    rw [hbytes]

/-- `{"params":{"method":"reboot"},"method":"getStatus"}`. -/
def nestedRequest : List (Written × Json) :=
  [(params, .object [(method, .string reboot)]), (method, .string getStatus)]

/-- On a request for the status with a method among its parameters, the
Zephyr device restarts and the ESP-IDF device reports its status. -/
theorem nested_method_reboots :
    ¬ ∀ (P : Platform) (valueint : Bytes → Int32) (members : List (Written × Json)),
      (members.map fun m => m.1.bytes).Nodup → (Json.object members).text.length ≤ 511 →
      P.parse (Json.object members).text = cjson valueint (.object members) →
      SameBranch P (Json.object members).text := by
  intro h
  have hsame := h (docPlatform (.object nestedRequest)) (fun _ => 0) nestedRequest
    (by decide +kernel) (by decide +kernel) (docPlatform_parse _)
  rw [sameBranch_iff] at hsame
  have hzephyr : Zephyr.rpcBranch (Json.object nestedRequest).text = some .reboot := by
    decide +kernel
  have hesp : ThingsBoard.rpcBranch (docPlatform (.object nestedRequest))
      (Json.object nestedRequest).text = some .getStatus := by
    decide +kernel
  rw [hzephyr, hesp] at hsame
  exact absurd hsame (by decide)

end Winegrid.Dispatch
