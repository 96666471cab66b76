import Winegrid.Azure.Twin
import Winegrid.Lib.JsonText

/-!
# The answers to direct methods

The topic of a direct method carries the name and the request id.
`handle_direct_method_request` keeps 31 bytes of the name, looks for the
marker of the id from there on, and answers with a topic of 127 bytes.

* `requestId_eq`: the search finds what stands behind the first marker.
* `requestId_request`: what it finds in the topic of a request.
* `directMethod_iff`: which requests are answered under their own id.
-/

namespace Winegrid.Azure

open Esp Client

variable {P : Platform} {c : Client} {o : Outcomes} {name rid afterPrefix payload : Bytes}

/-! ## Topics -/

def ridMarker : Bytes := ascii "$rid="

/-- What stands between the name and the id. -/
def ridSeparator : Bytes := ascii "/?$rid="

/-- The topic that a method is called on. -/
def requestTopic (name rid : Bytes) : Bytes :=
  directMethodTopicPrefix ++ (name ++ ridSeparator ++ rid)

/-- The topic that it is answered on. -/
def answerTopic (status rid : Bytes) : Bytes :=
  ascii "$iothub/methods/res/" ++ status ++ ridSeparator ++ rid

/-- 200 for the two methods that there are. -/
def methodStatus (name : Bytes) : Bytes :=
  if name = ascii "getStatus" ∨ name = ascii "reboot" then ascii "200" else ascii "404"

/-- What the handler writes in answer to a message. -/
def answers (P : Platform) (c : Client) (o : Outcomes) (topic payload : Bytes) : List Effect :=
  c.journal.since (hubMqttEventHandler P c o (.data topic payload)).journal

/-! ## The search -/

/-- From every place on, the loop finds what stands behind the first marker. -/
theorem find_marker (afterPrefix : Bytes) (start : Nat) :
    (((List.range' start (afterPrefix.length - 5 - start)).find? fun i =>
        startsWith (afterPrefix.drop i) ridMarker).map fun i => afterPrefix.drop (i + 5)) =
      (behind ridMarker (afterPrefix.drop start)).filter (· ≠ []) := by
  have hmarker : ridMarker.length = 5 := rfl
  induction hn : afterPrefix.length - 5 - start generalizing start with
  | zero =>
    symm
    rw [List.range'_zero, List.find?_nil, Option.map_none, behind_filter_eq_none]
    intro x hinfix
    have hlength := hinfix.length_le
    rw [List.length_append, hmarker, List.length_drop, List.length_singleton] at hlength
    omega
  | succ n ih =>
    have hlt : start < afterPrefix.length := by omega
    rw [List.range'_succ, List.drop_eq_getElem_cons hlt]
    by_cases hhit : startsWith (afterPrefix.drop start) ridMarker = true
    · simp only [List.find?_cons, hhit, Option.map_some]
      rw [← List.drop_eq_getElem_cons hlt]
      obtain ⟨rest, hrest⟩ := startsWith_iff.mp hhit
      have hdrop : afterPrefix.drop (start + 5) = rest := by
        rw [← List.drop_drop, ← hrest, ← hmarker, List.drop_left]
      have hne : rest ≠ [] := by
        intro hnil
        rw [hnil, List.drop_eq_nil_iff] at hdrop
        omega
      rw [← hrest, behind_hit (by decide), Option.filter_some, if_pos (decide_eq_true hne), hdrop]
    · have hmiss : ¬ridMarker <+: afterPrefix[start] :: afterPrefix.drop (start + 1) := by
        rw [← List.drop_eq_getElem_cons hlt]
        exact fun hprefix => hhit (startsWith_iff.mpr hprefix)
      rw [Bool.not_eq_true] at hhit
      simp only [List.find?_cons, hhit]
      rw [ih (start + 1) (by omega), behind_skip hmiss]

theorem requestId_eq (afterPrefix : Bytes) :
    requestId afterPrefix =
      (behind ridMarker (afterPrefix.drop (methodName afterPrefix).length)).filter (· ≠ []) :=
  find_marker afterPrefix _

/-- The name of a request is cut to its buffer. -/
theorem methodName_request (hname : 47 ∉ name) (rest : Bytes) :
    methodName (name ++ 47 :: rest) = name.take 31 := by
  have htake : (name ++ 47 :: rest).takeWhile (· ≠ 47) = name := by
    rw [List.takeWhile_append_of_pos, List.takeWhile_cons_of_neg (by decide), List.append_nil]
    intro b hb
    exact decide_eq_true fun heq => hname (heq ▸ hb)
  rw [methodName, htake]

/-- The search finds the id of a request, unless a marker stands in its name
from the 32nd byte on. -/
theorem requestId_request (hname : 47 ∉ name) (hrid : rid ≠ []) :
    requestId (name ++ ridSeparator ++ rid) =
      some ((behind ridMarker (name.drop 31)).elim rid fun x => x ++ ridSeparator ++ rid) := by
  have hsplit : name ++ ridSeparator ++ rid = name ++ 47 :: ([63] ++ ridMarker ++ rid) := by
    rw [List.append_assoc]
    rfl
  have hdrop : (name ++ 47 :: ([63] ++ ridMarker ++ rid)).drop (name.take 31).length =
      name.drop 31 ++ 47 :: ([63] ++ ridMarker ++ rid) := by
    rw [List.length_take, List.drop_append_of_le_length (by omega)]
    rcases Nat.le_total name.length 31 with hle | hle
    · rw [Nat.min_eq_right hle, List.drop_length, List.drop_eq_nil_of_le hle]
    · rw [Nat.min_eq_left hle]
  have hlast : behind ridMarker ([63] ++ ridMarker ++ rid) = some rid := by
    rw [List.append_assoc, List.singleton_append, behind_skip, behind_hit (by decide)]
    exact fun hprefix => absurd (List.cons_prefix_cons.mp hprefix).1 (by decide)
  rw [requestId_eq, hsplit, methodName_request hname, hdrop,
    behind_append_cons (by decide) (by decide), hlast]
  rcases behind ridMarker (name.drop 31) with _ | x
  · simpa using hrid
  · simp [ridSeparator, ridMarker, ascii]

/-! ## The answer -/

/-- A name with no NUL byte is what a C string holds if it is all of it, or
the string goes on behind a NUL. -/
theorem takeWhile_nul_eq_iff {s : Bytes} (hname : 0 ∉ name) :
    s.takeWhile (· ≠ 0) = name ↔ s = name ∨ name ++ [0] <+: s := by
  have hself : ∀ rest : Bytes, (name ++ rest).takeWhile (· ≠ 0) = name ++ rest.takeWhile (· ≠ 0) :=
    fun rest => List.takeWhile_append_of_pos fun b hb => decide_eq_true fun heq =>
      hname (heq ▸ hb)
  constructor
  · intro htake
    have hsplit : name ++ s.dropWhile (· ≠ 0) = s := by
      rw [← htake, List.takeWhile_append_dropWhile]
    rcases hrest : s.dropWhile (· ≠ 0) with _ | ⟨b, rest⟩
    · rw [hrest, List.append_nil] at hsplit
      exact Or.inl hsplit.symm
    · refine Or.inr ?_
      have hb : b = 0 := by
        have hfirst := List.head?_dropWhile_not (· ≠ 0) s
        rw [hrest] at hfirst
        simpa using hfirst
      rw [← hsplit, hrest, hb]
      exact ⟨rest, by simp⟩
  · rintro (rfl | ⟨rest, rfl⟩)
    · simpa using hself []
    · rw [List.append_assoc, hself]
      simp

/-- A method whose name is followed by a NUL is taken for the method. -/
def NamesMethod (name : Bytes) : Prop :=
  ascii "getStatus" ++ [0] <+: name ∨ ascii "reboot" ++ [0] <+: name

theorem methodStatus_eq_iff {name name' : Bytes} : methodStatus name = methodStatus name' ↔
    (name = ascii "getStatus" ∨ name = ascii "reboot" ↔
      name' = ascii "getStatus" ∨ name' = ascii "reboot") := by
  have hne : ascii "200" ≠ ascii "404" := by decide
  unfold methodStatus
  split_ifs with hknown hknown' hknown'
  · exact iff_of_true rfl (iff_of_true hknown hknown')
  · exact iff_of_false hne fun hiff => hknown' (hiff.mp hknown)
  · exact iff_of_false hne.symm fun hiff => hknown (hiff.mpr hknown')
  · exact iff_of_true rfl (iff_of_false hknown hknown')

/-- The handler finds the status of a name, unless the name goes on behind a
NUL. -/
theorem methodStatus_take_iff (name : Bytes) :
    methodStatus ((name.take 31).takeWhile (· ≠ 0)) = methodStatus name ↔ ¬NamesMethod name := by
  have hprop : ∀ {a b p q : Prop}, (a ∨ b → ¬(p ∨ q)) →
      (((a ∨ p) ∨ (b ∨ q) ↔ a ∨ b) ↔ ¬(p ∨ q)) := by
    intro a b p q h
    tauto
  have hcut : ∀ known : Bytes, 0 ∉ known → known.length < 31 →
      ((name.take 31).takeWhile (· ≠ 0) = known ↔ name = known ∨ known ++ [0] <+: name) := by
    intro known hnul hlen
    rw [takeWhile_nul_eq_iff hnul, List.prefix_take_iff]
    have htake : name.take 31 = known ↔ name = known := by
      constructor
      · intro htake
        rw [← htake, List.length_take] at hlen
        rw [← htake, List.take_of_length_le (by omega)]
      · rintro rfl
        exact List.take_of_length_le (by omega)
    have hlength : (known ++ [0]).length ≤ 31 := by
      rw [List.length_append]
      exact hlen
    rw [htake, and_iff_left hlength]
  have hknown : (name = ascii "getStatus" ∨ name = ascii "reboot") → ¬NamesMethod name := by
    unfold NamesMethod
    rintro (rfl | rfl) <;> decide
  have hgetStatus := hcut (ascii "getStatus") (by decide) (by decide)
  have hreboot := hcut (ascii "reboot") (by decide) (by decide)
  rw [methodStatus_eq_iff, hgetStatus, hreboot]
  exact hprop hknown

/-- What the search finds is the answer's id. -/
theorem answers_data (P : Platform) (c : Client) (o : Outcomes) (afterPrefix payload : Bytes) :
    ∃ body, answers P c o (directMethodTopicPrefix ++ afterPrefix) payload =
      (requestId afterPrefix).elim [] fun rid =>
        [.publish (snprintf 128 (answerTopic
          (methodStatus ((methodName afterPrefix).takeWhile (· ≠ 0))) (rid.takeWhile (· ≠ 0))))
          body] := by
  have hprefix : startsWith (directMethodTopicPrefix ++ afterPrefix) directMethodTopicPrefix =
      true := startsWith_iff.mpr (List.prefix_append _ _)
  unfold answers hubMqttEventHandler
  simp only [if_pos hprefix, handleDirectMethodRequest, List.drop_left]
  rcases requestId afterPrefix with _ | rid
  · exact ⟨[], Journal.since_self _⟩
  · simp only [Option.map_some, Option.elim_some]
    split_ifs with hgetStatus hreboot
    · refine ⟨statusPayload c.fakeTemperature o.freeHeap, ?_⟩
      rw [hgetStatus]
      exact Journal.since_writes _ [_]
    · refine ⟨ascii "\x7b\"result\":\"rebooting\"\x7d", ?_⟩
      rw [hreboot]
      exact Journal.since_writes _ [_]
    · refine ⟨ascii "\x7b\"error\":\"unknown method\"\x7d", ?_⟩
      have hstatus : methodStatus ((methodName afterPrefix).takeWhile (· ≠ 0)) = ascii "404" :=
        if_neg (not_or.mpr ⟨hgetStatus, hreboot⟩)
      rw [hstatus]
      exact Journal.since_writes _ [_]

/-- The buffer of the topic has room for 97 bytes of an id. -/
theorem snprintf_answerTopic {status : Bytes} (hstatus : status.length = 3) (rid : Bytes) :
    snprintf 128 (answerTopic status rid) = answerTopic status (rid.take 97) := by
  have hlength : (ascii "$iothub/methods/res/" ++ status ++ ridSeparator).length = 30 := by
    rw [List.length_append, List.length_append, hstatus]
    rfl
  rw [snprintf, answerTopic, List.take_append, hlength, List.take_of_length_le (by omega),
    answerTopic]

theorem methodStatus_length (name : Bytes) : (methodStatus name).length = 3 := by
  unfold methodStatus
  split_ifs <;> rfl

theorem answerTopic_inj {status status' rid' : Bytes} (hlength : status.length = status'.length) :
    answerTopic status rid = answerTopic status' rid' ↔ status = status' ∧ rid = rid' := by
  unfold answerTopic
  constructor
  · intro heq
    obtain ⟨hleft, hrid⟩ := List.append_inj heq (by simp [hlength])
    obtain ⟨hleft, -⟩ := List.append_inj hleft (by simp [hlength])
    exact ⟨List.append_cancel_left hleft, hrid⟩
  · rintro ⟨rfl, rfl⟩
    rfl

/-- The id has no NUL and fits the topic, and no marker stands in the name
from the 32nd byte on, unless what stands behind that one is the same. -/
def RidKept (name rid : Bytes) : Prop :=
  0 ∉ rid ∧ rid.length ≤ 97 ∧ ∀ x, behind ridMarker (name.drop 31) = some x →
    ((x ++ ridSeparator ++ rid).takeWhile (· ≠ 0)).take 97 = rid

theorem cut_bounds {s : Bytes} (h : (s.takeWhile (· ≠ 0)).take 97 = rid) :
    0 ∉ rid ∧ rid.length ≤ 97 := by
  constructor
  · intro hmem
    rw [← h] at hmem
    exact absurd (List.mem_takeWhile_imp (List.mem_of_mem_take hmem)) (by decide)
  · rw [← h, List.length_take]
    omega

/-- What is printed is the id of the request. -/
theorem ridKept_iff (name rid : Bytes) :
    ((((behind ridMarker (name.drop 31)).elim rid fun x => x ++ ridSeparator ++ rid).takeWhile
      (· ≠ 0)).take 97 = rid) ↔ RidKept name rid := by
  unfold RidKept
  rcases behind ridMarker (name.drop 31) with _ | x
  · rw [Option.elim_none]
    constructor
    · intro heq
      obtain ⟨hnul, hlength⟩ := cut_bounds heq
      exact ⟨hnul, hlength, fun x hx => nomatch hx⟩
    · rintro ⟨hnul, hlength, -⟩
      have hself : rid.takeWhile (· ≠ 0) = rid :=
        (takeWhile_nul_eq_iff hnul).mpr (Or.inl rfl)
      rw [hself, List.take_of_length_le hlength]
  · rw [Option.elim_some]
    constructor
    · intro heq
      obtain ⟨hnul, hlength⟩ := cut_bounds heq
      refine ⟨hnul, hlength, fun y hy => ?_⟩
      cases hy
      exact heq
    · rintro ⟨-, -, hsame⟩
      exact hsame x rfl

/-- A request is answered once under its own id and status if and only if its
name does not go on behind a NUL and its id is kept.  A topic with no marker
behind its name is not answered if and only if the name is no longer than its
buffer, or no marker stands in it from there on. -/
theorem directMethod_iff (P : Platform) (c : Client) (o : Outcomes) (payload : Bytes) :
    (∀ name rid : Bytes, 47 ∉ name → rid ≠ [] →
      ((∃ body, answers P c o (requestTopic name rid) payload =
          [.publish (answerTopic (methodStatus name) rid) body]) ↔
        ¬NamesMethod name ∧ RidKept name rid)) ∧
      ∀ afterPrefix : Bytes,
        (∀ x, ¬ridMarker ++ [x] <:+:
          afterPrefix.drop (afterPrefix.takeWhile (· ≠ 47)).length) →
        (answers P c o (directMethodTopicPrefix ++ afterPrefix) payload = [] ↔
          (afterPrefix.takeWhile (· ≠ 47)).length ≤ 31 ∨
            ∀ x, ¬ridMarker ++ [x] <:+: afterPrefix.drop 31) := by
  constructor
  · intro name rid hname hrid
    obtain ⟨body, hanswers⟩ := answers_data P c o (name ++ ridSeparator ++ rid) payload
    have hmethod : methodName (name ++ ridSeparator ++ rid) = name.take 31 := by
      rw [List.append_assoc]
      exact methodName_request hname _
    rw [requestId_request hname hrid, Option.elim_some, hmethod,
      snprintf_answerTopic (methodStatus_length _)] at hanswers
    rw [requestTopic, hanswers, ← methodStatus_take_iff, ← ridKept_iff,
      ← answerTopic_inj (by rw [methodStatus_length, methodStatus_length])]
    simp
  · intro afterPrefix hnone
    obtain ⟨body, hanswers⟩ := answers_data P c o afterPrefix payload
    have hanswered : answers P c o (directMethodTopicPrefix ++ afterPrefix) payload = [] ↔
        requestId afterPrefix = none := by
      rw [hanswers]
      rcases requestId afterPrefix with _ | rid <;> simp
    rw [hanswered, requestId_eq, behind_filter_eq_none, methodName, List.length_take]
    rcases Nat.le_total (afterPrefix.takeWhile (· ≠ 47)).length 31 with hle | hle
    · rw [Nat.min_eq_right hle]
      exact iff_of_true hnone (Or.inl hle)
    · rw [Nat.min_eq_left hle]
      constructor
      · exact Or.inr
      · rintro (hshort | hfree)
        · rwa [Nat.le_antisymm hshort hle] at hnone
        · exact hfree

/-- A status request is answered under its id. -/
theorem directMethod_getStatus :
    (∃ body, answers (docPlatform [] []) sampleClient sampleOutcomes
      (requestTopic (ascii "getStatus") (ascii "7")) [] =
        [.publish (answerTopic (methodStatus (ascii "getStatus")) (ascii "7")) body]) ∧
      answers (docPlatform [] []) sampleClient sampleOutcomes
        (directMethodTopicPrefix ++ ascii "getStatus/?$rid=") [] = [] := by
  obtain ⟨hrequest, hother⟩ :=
    directMethod_iff (docPlatform [] []) sampleClient sampleOutcomes []
  refine ⟨(hrequest _ _ (by decide) (by decide)).mpr ⟨?_, ?_⟩, ?_⟩
  · unfold NamesMethod
    decide
  · exact ⟨by decide, by decide, fun x hx => nomatch hx⟩
  · refine (hother (ascii "getStatus/?$rid=") ?_).mpr (Or.inl (by decide))
    exact behind_filter_eq_none.mp (by decide)

/-- A name of 37 bytes with a marker at the end of the buffer. -/
def longName : Bytes := List.replicate 31 97 ++ ascii "$rid=b"

/-- The answer to its request goes to another id. -/
theorem directMethod_misdirected : ¬ ∀ (P : Platform) (c : Client) (o : Outcomes)
    (name rid payload : Bytes), 47 ∉ name → rid ≠ [] →
      ∃ body, answers P c o (requestTopic name rid) payload =
        [.publish (answerTopic (methodStatus name) rid) body] := by
  intro h
  obtain ⟨body, hbody⟩ := h (docPlatform [] []) sampleClient sampleOutcomes longName (ascii "1") []
    (by decide) (by decide)
  have hanswer : answers (docPlatform [] []) sampleClient sampleOutcomes
      (requestTopic longName (ascii "1")) [] =
        [.publish (answerTopic (ascii "404") (ascii "b/?$rid=1"))
          (ascii "\x7b\"error\":\"unknown method\"\x7d")] := by
    decide +kernel
  rw [hbody, List.cons.injEq, Effect.publish.injEq] at hanswer
  exact absurd hanswer.1.1 (by decide)

end Winegrid.Azure
