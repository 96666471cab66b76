import Winegrid.Dispatch
import Winegrid.ThingsBoard.Device
import Winegrid.ThingsBoard.Provisioning
import Winegrid.Zephyr.History

/-!
# The token that provisioning hands over

Both ThingsBoard firmwares ask for an access token and read it from a JSON
response.  The one for ESP-IDF takes it from the tree that cJSON parses and
saves it for good, the one for Zephyr searches the part of the response that
it has read.

* `provisioned_pieces` and `runProvisioning_response`: the token that each
  returns after a response, in terms of the events that bring it and of the
  document.
* `token_handover_iff`: when it is the token that was issued.
* `espKeeps_iff_length` and `zephyrKeeps_iff_length`: for a response that
  leaves no choice, this is a bound on the length of the token.
-/

namespace Winegrid.Handover

open Esp

variable {P : Platform} {valueint : Bytes → Int32} {x : Json} {v : Bytes}

/-- A token is returned only if it is `v`, and none is if `v` does not fit a
buffer of 64 bytes. -/
def HandsOver (outToken : Option Bytes) (v : Bytes) : Prop :=
  (∀ token, outToken = some token → token = v) ∧ (63 < v.length → outToken = none)

/-- What is cut to the buffer is handed over if it is nothing, or the token. -/
theorem handsOver_iff (found : Bytes) (v : Bytes) :
    HandsOver (if found.take 63 = [] then none else some (found.take 63)) v ↔
      found = [] ∨ found.take 63 = v := by
  have hnil : found.take 63 = [] ↔ found = [] := by simp
  unfold HandsOver
  by_cases hfound : found = []
  · rw [if_pos (hnil.mpr hfound)]
    exact iff_of_true ⟨fun _ h => (nomatch h), fun _ => rfl⟩ (Or.inl hfound)
  · rw [if_neg (mt hnil.mp hfound), or_iff_right hfound]
    constructor
    · exact fun h => h.1 _ rfl
    · intro heq
      refine ⟨fun token htoken => (Option.some_inj.mp htoken).symm.trans heq, fun hlong => ?_⟩
      rw [← heq, List.length_take] at hlong
      omega

theorem handsOver_none (v : Bytes) : HandsOver none v :=
  ⟨fun _ h => (nomatch h), fun _ => rfl⟩

/-! ## ESP-IDF -/

/-- The token that cJSON finds in the data of one event, when that is a
success. -/
def foundToken (P : Platform) (data : Bytes) : Option Bytes :=
  (P.parse data).bind fun root =>
    if (root.getObjectItem (ascii "status")).bind CJson.string? = some (ascii "SUCCESS") then
      (root.getObjectItem (ascii "credentialsValue")).bind CJson.string?
    else none

/-- Each event is parsed alone, and the last success counts: it brings no
token, or one that is the same in its first 63 bytes. -/
def PiecesKeep (P : Platform) (pieces : List Bytes) (v : Bytes) : Prop :=
  ∀ found, (pieces.filterMap (foundToken P)).getLast? = some found →
    found = [] ∨ found.take 63 = v

/-- The first members of these names, in any case of their letters: a success
brings no token, or one that is the same in its first 63 bytes. -/
def EspKeeps (x : Json) (v : Bytes) : Prop :=
  x.Meaningful → stringNamed (ascii "status") x.members = some (ascii "SUCCESS") →
    ∀ found, stringNamed (ascii "credentialsValue") x.members = some found →
      found = [] ∨ found.take 63 = v

/-- `strncpy` cuts what was found. -/
theorem issuedToken_eq (P : Platform) (data : Bytes) :
    ThingsBoard.issuedToken P data = (foundToken P data).map (strncpy 64) := by
  unfold ThingsBoard.issuedToken foundToken
  rcases P.parse data with _ | root
  · rfl
  · simp only [Option.bind_some]
    rcases (root.getObjectItem (ascii "status")).bind CJson.string? with _ | status
    · rfl
    · rcases (root.getObjectItem (ascii "credentialsValue")).bind CJson.string? with _ | value
      · simp
      · simp only [Option.some_inj]
        split_ifs <;> rfl

/-- The last success leaves its token behind. -/
theorem tokenAfter_eq (P : Platform) (pieces : List Bytes) :
    ThingsBoard.tokenAfter P pieces =
      ((pieces.filterMap (foundToken P)).getLast?.map (strncpy 64)).getD [] := by
  induction pieces using List.reverseRecOn with
  | nil => rfl
  | append_singleton pieces piece ih =>
    rw [ThingsBoard.tokenAfter_concat, issuedToken_eq, ih, List.filterMap_append]
    rcases hpiece : foundToken P piece with _ | found
    · simp [hpiece]
    · simp [hpiece]

/-- What `run_provisioning` returns after these events. -/
theorem provisioned_eq (P : Platform) (pieces : List Bytes) :
    ThingsBoard.provisioned P pieces =
      (pieces.filterMap (foundToken P)).getLast?.elim none fun found =>
        if found.take 63 = [] then none else some (found.take 63) := by
  have htwice : ∀ found : Bytes, strncpy 64 (strncpy 64 found) = found.take 63 := by
    intro found
    rw [strncpy, strncpy, List.take_take]
    rfl
  rw [ThingsBoard.provisioned, tokenAfter_eq]
  rcases hlast : (pieces.filterMap (foundToken P)).getLast? with _ | found
  · exact if_pos (Or.inr rfl)
  · have hsome : pieces ≠ [] := by
      rintro rfl
      cases hlast
    rw [Option.map_some, Option.getD_some, Option.elim_some, htwice]
    simp only [hsome, false_or]
    rfl

/-- The token is handed over exactly if the events keep it. -/
theorem provisioned_pieces (P : Platform) (pieces : List Bytes) (v : Bytes) :
    HandsOver (ThingsBoard.provisioned P pieces) v ↔ PiecesKeep P pieces v := by
  rw [provisioned_eq, PiecesKeep]
  rcases (pieces.filterMap (foundToken P)).getLast? with _ | found
  · exact iff_of_true (handsOver_none v) fun _ h => (nomatch h)
  · rw [Option.elim_some, handsOver_iff]
    simp only [Option.some_inj, forall_eq']

/-- What cJSON finds in a response, by the document. -/
theorem foundToken_response (hparse : P.parse x.text = cjson valueint x) (found : Bytes) :
    foundToken P x.text = some found ↔
      x.Meaningful ∧ stringNamed (ascii "status") x.members = some (ascii "SUCCESS") ∧
        stringNamed (ascii "credentialsValue") x.members = some found := by
  rw [foundToken, hparse]
  by_cases hmeans : x.Meaningful
  · obtain ⟨root, hroot⟩ := Option.isSome_iff_exists.mp ((cjson_isSome x).mpr hmeans)
    rw [hroot, Option.bind_some, getObjectItem_cjson hroot, getObjectItem_cjson hroot]
    simp only [hmeans, true_and, Option.ite_none_right_eq_some]
  · have hnone : cjson valueint x = none :=
      Option.not_isSome_iff_eq_none.mp (mt (cjson_isSome x).mp hmeans)
    rw [hnone]
    simp [hmeans]

/-- A response that comes in one event is kept exactly if its document keeps
the token. -/
theorem piecesKeep_response (hparse : P.parse x.text = cjson valueint x) :
    PiecesKeep P [x.text] v ↔ EspKeeps x v := by
  have hlast : ([x.text].filterMap (foundToken P)).getLast? = foundToken P x.text := by
    rcases hfound : foundToken P x.text with _ | found <;> simp [hfound]
  unfold PiecesKeep EspKeeps
  rw [hlast]
  simp only [foundToken_response hparse, and_imp]
  constructor
  · exact fun h hmeans hstatus found hfound => h found hmeans hstatus hfound
  · exact fun h found hmeans hstatus hfound => h hmeans hstatus found hfound

/-- `app_main` saves what is returned. -/
theorem startup_saves {nvs : Nvs} {outToken : Option Bytes} {saved : Bytes}
    (h : .nvsSet .accessToken saved ∈ (ThingsBoard.startup outToken nvs).1) :
    ∃ token, outToken = some token ∧ saved = strncpy 64 token := by
  unfold ThingsBoard.startup at h
  split at h
  · simp at h
  · split at h
    · simp at h
    · rename_i token
      split_ifs at h
      · simp at h
      · exact ⟨token, rfl, by simpa using h⟩

/-! ## Zephyr -/

/-- What the read part of the text shows of the first strings of these names
at any depth: a success brings no token, or one that is the same in its first
63 bytes. -/
def ZephyrKeeps (x : Json) (v : Bytes) (k : Nat) : Prop :=
  x.shown (ascii "status") k = ascii "SUCCESS" →
    x.shown (ascii "credentialsValue") k = [] ∨ (x.shown (ascii "credentialsValue") k).take 63 = v

open Zephyr

theorem provisioningLoop_done {id : Identity} {p : Provisioning} (h : p.done = true)
    (turns : List Turn) : provisioningLoop id turns p = p := by
  cases turns with
  | nil => rfl
  | cons turn turns => rw [provisioningLoop, if_pos h]

/-- The loop ends with the first answer. -/
theorem provisioningLoop_answer (id : Identity) (p : Provisioning) {before : List Turn}
    (hbefore : ∀ turn ∈ before, turn.Waits) (hdone : p.done = false) (packet : Packet) (k : Nat)
    (after : List Turn) :
    ∃ q : Provisioning, q.client.payloadBuf = p.client.payloadBuf ∧ q.token = p.token ∧
      provisioningLoop id (before ++ .answer packet k :: after) p =
        q.turn id (.answer packet k) := by
  induction before generalizing p with
  | nil =>
    refine ⟨p, rfl, rfl, ?_⟩
    rw [List.nil_append, provisioningLoop, hdone, if_neg Bool.false_ne_true]
    exact provisioningLoop_done rfl after
  | cons turn before ih =>
    rw [List.forall_mem_cons] at hbefore
    obtain ⟨hbuf, hsame, htoken⟩ := turn_waits id p hbefore.1
    obtain ⟨q, hq, hqtoken, hloop⟩ := ih _ hbefore.2 (hsame.trans hdone)
    refine ⟨q, hq.trans hbuf, hqtoken.trans htoken, ?_⟩
    rw [List.cons_append, provisioningLoop, hdone, if_neg Bool.false_ne_true, hloop]

/-- What is looked at in the first answer of a boot. -/
theorem received_first {c : Client} {payload : Bytes} {k : Nat}
    (hbuf : c.payloadBuf = List.replicate payloadBufSize 0)
    (hk : ReadAllowed (readLen payload.length) payload.length k) :
    ({ c with remaining := payload } : Client).received payload.length k =
      payload.take k ++ List.replicate (readLen payload.length - k) 0 := by
  rw [received_eq rfl hk]
  show payload.take k ++ (c.payloadBuf.drop k).take _ = _
  rw [hbuf, List.drop_replicate, List.take_replicate]
  have hmin : min (readLen payload.length - k) (payloadBufSize - k) =
      readLen payload.length - k := by
    unfold readLen
    omega
  rw [hmin]

/-- What `json_extract_string` leaves in a buffer, as a C string. -/
theorem jsonExtractString_shown {key : Bytes} (hkey : IsWord key) (x : Json) (k m size : Nat) :
    ((jsonExtractString (x.text.take k ++ List.replicate m 0) key size).getD []).takeWhile (· ≠ 0) =
      (x.shown key k).take (size - 1) := by
  rw [← scan_shown hkey x k m, jsonExtractString_eq_scan]
  rcases scan key (x.text.take k ++ List.replicate m 0) with _ | found
  · rw [Option.map_none, Option.getD_none, List.take_nil]
  · rfl

/-- The token of an answer of which `k` bytes were read, as a C string. -/
theorem issuedToken_shown (x : Json) (k m : Nat) :
    ((issuedToken (x.text.take k ++ List.replicate m 0)).getD []).takeWhile (· ≠ 0) =
      if x.shown (ascii "status") k = ascii "SUCCESS" then
        (x.shown (ascii "credentialsValue") k).take 63
      else [] := by
  have hstatusWord : IsWord (ascii "status") := ⟨by decide, by decide +kernel⟩
  have hvalueWord : IsWord (ascii "credentialsValue") := ⟨by decide, by decide +kernel⟩
  have hstatus := jsonExtractString_shown hstatusWord x k m 32
  have hvalue := jsonExtractString_shown hvalueWord x k m 64
  have hcut : (x.shown (ascii "status") k).take 31 = ascii "SUCCESS" ↔
      x.shown (ascii "status") k = ascii "SUCCESS" := by
    constructor
    · intro htake
      have hlength := congrArg List.length htake
      rw [List.length_take] at hlength
      have hseven : (ascii "SUCCESS").length = 7 := rfl
      rwa [List.take_of_length_le (by omega)] at htake
    · intro heq
      rw [heq]
      rfl
  unfold issuedToken
  rcases hout : jsonExtractString (x.text.take k ++ List.replicate m 0) (ascii "status") 32 with
    _ | status <;> rw [hout] at hstatus
  · have hmiss : x.shown (ascii "status") k ≠ ascii "SUCCESS" := by
      rw [ne_eq, ← hcut, ← hstatus]
      decide
    rw [if_neg hmiss]
    rfl
  · have hsame : status.takeWhile (· ≠ 0) = (x.shown (ascii "status") k).take 31 := hstatus
    simp only [hsame, hcut]
    split_ifs
    · exact hvalue
    · rfl

/-- The token is handed over exactly if the read part of the document keeps
it. -/
theorem runProvisioning_response {id : Identity} {before : List Turn} {topic : Bytes} {k : Nat}
    (hbefore : ∀ turn ∈ before, turn.Waits) (after : List Turn)
    (hk : ReadAllowed (readLen x.text.length) x.text.length k) :
    HandsOver (runProvisioning id true (before ++ .answer ⟨topic, x.text⟩ k :: after) .start) v ↔
      ZephyrKeeps x v k := by
  obtain ⟨q, hbuf, htoken, hloop⟩ := provisioningLoop_answer id
    { Provisioning.start with done := false } hbefore rfl ⟨topic, x.text⟩ k after
  have hdata := received_first hbuf hk
  have hissued := issuedToken_shown x k (readLen x.text.length - k)
  have hlast : ((q.turn id (.answer ⟨topic, x.text⟩ k)).token).takeWhile (· ≠ 0) =
      if x.shown (ascii "status") k = ascii "SUCCESS" then
        (x.shown (ascii "credentialsValue") k).take 63
      else [] := by
    rw [← hissued, ← hdata, Provisioning.turn, provisioningEvtHandler_publish, htoken]
    rfl
  have hdone : (q.turn id (.answer ⟨topic, x.text⟩ k)).done = true := rfl
  rw [runProvisioning, hloop]
  unfold ZephyrKeeps
  by_cases hstatus : x.shown (ascii "status") k = ascii "SUCCESS"
  · have htwice : strncpy 64 ((x.shown (ascii "credentialsValue") k).take 63) =
        (x.shown (ascii "credentialsValue") k).take 63 := List.take_take
    rw [if_pos hstatus] at hlast
    simp only [hdone, hlast, htwice, hstatus, Bool.not_true, Bool.false_eq_true, if_false,
      Bool.false_or, decide_eq_true_eq, List.length_eq_zero_iff, true_implies]
    exact handsOver_iff _ v
  · rw [if_neg hstatus] at hlast
    simp only [hdone, hlast, Bool.not_true, Bool.false_eq_true, if_false, Bool.false_or,
      decide_eq_true_eq, List.length_nil, if_true]
    exact iff_of_true (handsOver_none v) fun h => absurd h hstatus

/-! ## Responses that leave no choice -/

/-- What fits the buffer is what is not cut. -/
theorem take_eq_iff_length (v : Bytes) : v = [] ∨ v.take 63 = v ↔ v.length ≤ 63 := by
  rw [List.take_eq_self_iff, or_iff_right_of_imp]
  rintro rfl
  exact Nat.zero_le 63

/-- When the token is what cJSON finds, ESP-IDF keeps it if it has at most 63
bytes. -/
theorem espKeeps_iff_length (hmeans : x.Meaningful)
    (hstatus : stringNamed (ascii "status") x.members = some (ascii "SUCCESS"))
    (hvalue : stringNamed (ascii "credentialsValue") x.members = some v) :
    EspKeeps x v ↔ v.length ≤ 63 := by
  rw [← take_eq_iff_length]
  constructor
  · exact fun h => h hmeans hstatus v hvalue
  · intro h _ _ found hfound
    rw [hvalue, Option.some_inj] at hfound
    exact hfound ▸ h

/-- When the token is what stands first in the text, and all of the text was
read, Zephyr keeps it if it has at most 63 bytes. -/
theorem zephyrKeeps_iff_length
    (hstatus : (x.first (ascii "status")).map Written.cut = some (ascii "SUCCESS"))
    (hvalue : (x.first (ascii "credentialsValue")).map Written.cut = some v) :
    ZephyrKeeps x v x.text.length ↔ v.length ≤ 63 := by
  have helim : ∀ {o : Option Written} {found : Bytes}, o.map Written.cut = some found →
      o.elim [] Written.cut = found := by
    intro o found h
    obtain ⟨s, rfl, rfl⟩ := Option.map_eq_some_iff.mp h
    rfl
  unfold ZephyrKeeps
  rw [shown_length ⟨by decide, by decide +kernel⟩, shown_length ⟨by decide, by decide +kernel⟩,
    helim hstatus, helim hvalue, ← take_eq_iff_length]
  exact ⟨fun h => h rfl, fun h _ => h⟩

/-! ## Both -/

/-- However a response comes, ESP-IDF hands over the token that was issued, or
none, if and only if the events that were handled keep it, and what it saves is
the same token; a response in one event does exactly when its document does.
After one response, Zephyr hands it over if and only if the part of the
document that was read keeps it. -/
theorem token_handover_iff (hparse : P.parse x.text = cjson valueint x) (v : Bytes) :
    (∀ id s outToken nvs, (ThingsBoard.provisioning P id).Reachable s →
      s.pc = .returned outToken →
      (HandsOver outToken v ∧ (∀ saved,
          .nvsSet .accessToken saved ∈ (ThingsBoard.startup outToken nvs).1 → saved = v) ↔
        PiecesKeep P s.handled v)) ∧
      (PiecesKeep P [x.text] v ↔ EspKeeps x v) ∧
      ∀ id before topic k after, (∀ turn ∈ before, turn.Waits) →
        ReadAllowed (readLen x.text.length) x.text.length k →
        (HandsOver (runProvisioning id true (before ++ .answer ⟨topic, x.text⟩ k :: after) .start)
          v ↔ ZephyrKeeps x v k) := by
  refine ⟨fun id s outToken nvs hs hreturned => ?_, piecesKeep_response hparse,
    fun id before topic k after hbefore hk => runProvisioning_response hbefore after hk⟩
  have hresult := (ThingsBoard.returned_eq hs).returned outToken hreturned
  rw [← provisioned_pieces, ← hresult]
  refine ⟨fun h => h.1, fun h => ⟨h, fun saved hsaved => ?_⟩⟩
  obtain ⟨token, htoken, rfl⟩ := startup_saves hsaved
  rw [h.1 token htoken]
  refine strncpy_eq_self ?_
  by_contra hlong
  rw [h.2 (by omega)] at htoken
  cases htoken

def statusName : Written := ⟨ascii "status", escaped_plain (by decide +kernel)⟩
def success : Written := ⟨ascii "SUCCESS", escaped_plain (by decide +kernel)⟩
def credentialsType : Written := ⟨ascii "credentialsType", escaped_plain (by decide +kernel)⟩
def accessToken : Written := ⟨ascii "ACCESS_TOKEN", escaped_plain (by decide +kernel)⟩
def credentialsValue : Written := ⟨ascii "credentialsValue", escaped_plain (by decide +kernel)⟩

/-- The response of the server to a successful request. -/
def response (token : Written) : Json :=
  .object [(statusName, .string success), (credentialsType, .string accessToken),
    (credentialsValue, .string token)]

/-- A token of 20 letters. -/
def shortToken : Written := ⟨List.replicate 20 65, escaped_plain (by decide +kernel)⟩

/-- A token of 64 letters. -/
def longToken : Written := ⟨List.replicate 64 65, escaped_plain (by decide +kernel)⟩

def board : ThingsBoard.Identity := ⟨[36, 10, 196, 1, 2, 3], ascii "key", ascii "secret"⟩

/-- The data of these events comes while the loop sleeps. -/
def answeredRun (pieces : List Bytes) : List ThingsBoard.ProvisioningRun.Label :=
  [.event .connected, .statement] ++ pieces.map (fun data => .event (.data data)) ++
    List.replicate 3 .statement

/-- A short token is handed over by both, and by ESP-IDF none when the response
comes in two events. -/
theorem token_handover_short :
    (∃ s, (ThingsBoard.provisioning (Dispatch.docPlatform (response shortToken)) board).exec
        ⟨.test 0, ⟨false, []⟩, [], []⟩ (answeredRun [(response shortToken).text]) = some s ∧
      s.pc = .returned (some shortToken.bytes) ∧
      HandsOver (some shortToken.bytes) shortToken.bytes) ∧
    (∃ s, (ThingsBoard.provisioning (Dispatch.docPlatform (response shortToken)) board).exec
        ⟨.test 0, ⟨false, []⟩, [], []⟩ (answeredRun [(response shortToken).text.take 60,
          (response shortToken).text.drop 60]) = some s ∧
      s.pc = .returned none ∧ HandsOver none shortToken.bytes) ∧
    HandsOver (runProvisioning ⟨[], [], []⟩ true
      [.connack 0, .answer ⟨provisionTopicResponse, (response shortToken).text⟩
        (response shortToken).text.length] .start) shortToken.bytes := by
  have hparse := Dispatch.docPlatform_parse (response shortToken)
  obtain ⟨hpieces, hesp, hzephyr⟩ := token_handover_iff hparse shortToken.bytes
  refine ⟨?_, ?_, ?_⟩
  · have hexec : ((ThingsBoard.provisioning (Dispatch.docPlatform (response shortToken)) board).exec
        ⟨.test 0, ⟨false, []⟩, [], []⟩ (answeredRun [(response shortToken).text])).any (fun s =>
          decide (s.pc = .returned (some shortToken.bytes) ∧
            s.handled = [(response shortToken).text])) = true := by decide +kernel
    obtain ⟨s, hs, hreturned, hhandled⟩ := Machine.exists_of_any hexec
    have hkeeps : EspKeeps (response shortToken) shortToken.bytes :=
      (espKeeps_iff_length (Json.meaningful_of_plain (by decide +kernel)) (by decide +kernel)
        (by decide +kernel)).mpr (by decide)
    have hreach := Machine.Reachable.exec (.init rfl) hs
    have hhands := (hpieces board s _ (fun _ => none) hreach hreturned).mpr
      (hhandled ▸ hesp.mpr hkeeps)
    exact ⟨s, hs, hreturned, hhands.1⟩
  · have hexec : ((ThingsBoard.provisioning (Dispatch.docPlatform (response shortToken)) board).exec
        ⟨.test 0, ⟨false, []⟩, [], []⟩ (answeredRun [(response shortToken).text.take 60,
          (response shortToken).text.drop 60])).any (fun s =>
          decide (s.pc = .returned none ∧ s.handled = [(response shortToken).text.take 60,
            (response shortToken).text.drop 60])) = true := by decide +kernel
    obtain ⟨s, hs, hreturned, hhandled⟩ := Machine.exists_of_any hexec
    have hnothing : PiecesKeep (Dispatch.docPlatform (response shortToken)) s.handled
        shortToken.bytes := by
      intro found hfound
      rw [hhandled] at hfound
      have hnone : foundToken (Dispatch.docPlatform (response shortToken))
          ((response shortToken).text.take 60) = none ∧
        foundToken (Dispatch.docPlatform (response shortToken))
          ((response shortToken).text.drop 60) = none := by decide +kernel
      simp [hnone] at hfound
    have hreach := Machine.Reachable.exec (.init rfl) hs
    exact ⟨s, hs, hreturned,
      ((hpieces board s _ (fun _ => none) hreach hreturned).mpr hnothing).1⟩
  · have hkeeps : ZephyrKeeps (response shortToken) shortToken.bytes
        (response shortToken).text.length :=
      (zephyrKeeps_iff_length (by decide +kernel) (by decide +kernel)).mpr (by decide)
    refine (hzephyr ⟨[], [], []⟩ [.connack 0] provisionTopicResponse _ [] ?_ ?_).mpr hkeeps
    · rintro turn hturn
      rw [List.mem_singleton.mp hturn]
      rfl
    · decide +kernel

/-- The first 63 bytes of a token of 64 are returned, and saved, as a
success. -/
theorem token_handover_cut :
    ¬ ∀ (P : Platform) (valueint : Bytes → Int32) (id : ThingsBoard.Identity)
      (members : List (Written × Json)) (token : Written) (s : ThingsBoard.ProvisioningRun)
      (outToken : Option Bytes), (statusName, .string success) ∈ members →
      (credentialsValue, .string token) ∈ members → 92 ∉ token.bytes →
      P.parse (Json.object members).text = cjson valueint (.object members) →
      (ThingsBoard.provisioning P id).Reachable s → s.pc = .returned outToken →
      s.handled = [(Json.object members).text] → HandsOver outToken token.bytes := by
  intro h
  have hexec : ((ThingsBoard.provisioning (Dispatch.docPlatform (response longToken)) board).exec
      ⟨.test 0, ⟨false, []⟩, [], []⟩ (answeredRun [(response longToken).text])).any (fun s =>
        decide (s.pc = .returned (some (List.replicate 63 65)) ∧
          s.handled = [(response longToken).text])) = true := by decide +kernel
  obtain ⟨s, hs, hreturned, hhandled⟩ := Machine.exists_of_any hexec
  have hkept := h _ (fun _ => 0) board _ longToken s _ List.mem_cons_self
    (List.mem_cons_of_mem _ (List.mem_cons_of_mem _ List.mem_cons_self)) (by decide +kernel)
    (Dispatch.docPlatform_parse (response longToken)) (Machine.Reachable.exec (.init rfl) hs)
    hreturned hhandled
  have hnone := hkept.2 (by decide)
  cases hnone

end Winegrid.Handover
