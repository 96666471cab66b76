import Winegrid.Lib.JsonText
import Winegrid.Zephyr.Client
import Mathlib.Data.List.Infix
import Mathlib.Tactic.SplitIfs

/-!
# The string extractor

`json_extract_string` looks for a byte pattern anywhere in the text, and takes
what follows up to the next quote or the end of the text.

* `extractFrom_skip` and `extractFrom_hit` follow the search.
* `extractFrom_isSome_snoc`: the last byte has no say in whether anything is
  found.
* `jsonExtractString_eq_scan`: it is the search of `Winegrid.Lib.JsonText`.
* `rpcBranch` is the branch that `handle_rpc_request` takes, and
  `handleRpcRequest_eq` ties the two.
-/

namespace Winegrid.Zephyr

variable {pattern rest out : Bytes} {outSize : Nat}

/-! ## The search -/

/-- Nothing is found in a text that is not longer than the pattern. -/
theorem extractFrom_short {json : Bytes} (h : json.length ≤ pattern.length) :
    extractFrom pattern outSize json = none := by
  cases json with
  | nil => rfl
  | cons b json => rw [extractFrom, if_pos h]

/-- A byte at which the pattern does not start is skipped. -/
theorem extractFrom_skip {b : UInt8} (h : startsWith (b :: rest) pattern = false) :
    extractFrom pattern outSize (b :: rest) = extractFrom pattern outSize rest := by
  rw [extractFrom, h]
  by_cases hlen : (b :: rest).length ≤ pattern.length
  · rw [if_pos hlen, extractFrom_short (Nat.le_of_succ_le hlen)]
  · rw [if_neg hlen, if_neg Bool.false_ne_true]

/-- The pattern is found where it stands, when a byte follows it. -/
theorem extractFrom_hit (hpattern : pattern ≠ []) (hrest : rest ≠ []) :
    extractFrom pattern outSize (pattern ++ rest) =
      some ((rest.takeWhile (· ≠ 34)).take (outSize - 1)) := by
  have hlen : ¬(pattern ++ rest).length ≤ pattern.length := by
    have hpos := List.length_pos_iff.mpr hrest
    rw [List.length_append]
    omega
  have hstarts : startsWith (pattern ++ rest) pattern = true :=
    startsWith_iff.mpr (List.prefix_append _ _)
  obtain ⟨b, json, hjson⟩ := List.exists_cons_of_ne_nil
    (List.append_ne_nil_of_left_ne_nil hpattern rest)
  have hdrop : (pattern ++ rest).drop pattern.length = rest := List.drop_left
  rw [hjson] at hlen hstarts hdrop ⊢
  rw [extractFrom, if_neg hlen, if_pos hstarts, hdrop]

/-- The last byte of a text does not decide whether the pattern is found. -/
theorem extractFrom_isSome_snoc (hpattern : pattern ≠ []) (json : Bytes) (x y : UInt8) :
    (extractFrom pattern outSize (json ++ [x])).isSome =
      (extractFrom pattern outSize (json ++ [y])).isSome := by
  have hpos := List.length_pos_iff.mpr hpattern
  induction json with
  | nil =>
    have hshort : ∀ z : UInt8, [z].length ≤ pattern.length := fun _ => hpos
    rw [List.nil_append, List.nil_append, extractFrom_short (hshort x),
      extractFrom_short (hshort y)]
  | cons b json ih =>
    have hstep : ∀ z, (extractFrom pattern outSize (b :: json ++ [z])).isSome =
        (decide (pattern.length ≤ (b :: json).length) && (startsWith (b :: json) pattern ||
          (extractFrom pattern outSize (json ++ [z])).isSome)) := by
      intro z
      by_cases hlen : pattern.length ≤ (b :: json).length
      · have hsame : startsWith (b :: (json ++ [z])) pattern = startsWith (b :: json) pattern := by
          rw [Bool.eq_iff_iff, startsWith_iff, startsWith_iff, ← List.cons_append]
          exact List.isPrefix_append_of_length hlen
        have hlong : ¬(b :: (json ++ [z])).length ≤ pattern.length := by
          rw [← List.cons_append, List.length_append, List.length_singleton]
          omega
        rw [List.cons_append, extractFrom, if_neg hlong, hsame, decide_eq_true hlen, Bool.true_and]
        cases startsWith (b :: json) pattern <;> rfl
      · rw [extractFrom_short, decide_eq_false hlen]
        · rfl
        · rw [List.length_append, List.length_singleton]
          omega
    rw [hstep x, hstep y, ih]

/-- The same for the whole function. -/
theorem jsonExtractString_isSome_snoc (json key : Bytes) (x y : UInt8) :
    (jsonExtractString (json ++ [x]) key outSize).isSome =
      (jsonExtractString (json ++ [y]) key outSize).isSome := by
  simp only [jsonExtractString, List.length_append, List.length_singleton]
  split_ifs
  · rfl
  · exact extractFrom_isSome_snoc (by simp) json x y

/-! ## The search in a JSON text -/

/-- The loop is the search for the pattern of the key. -/
theorem extractFrom_eq_scan (key json : Bytes) (outSize : Nat) :
    extractFrom (keyPattern key) outSize json = (scan key json).map (·.take (outSize - 1)) := by
  induction json with
  | nil => rfl
  | cons b json ih =>
    by_cases hprefix : keyPattern key <+: b :: json
    · obtain ⟨rest, hrest⟩ := hprefix
      have hpattern : keyPattern key ≠ [] := List.cons_ne_nil _ _
      rw [← hrest, scan, behind_hit hpattern]
      by_cases hnil : rest = []
      · rw [hnil, List.append_nil, extractFrom_short (Nat.le_refl _)]
        rfl
      · rw [extractFrom_hit hpattern hnil, Option.filter_some, if_pos (decide_eq_true hnil)]
        rfl
    · have hmiss : startsWith (b :: json) (keyPattern key) = false := by
        rw [Bool.eq_false_iff, ne_eq, startsWith_iff]
        exact hprefix
      rw [extractFrom_skip hmiss, ih, scan, scan, behind_skip hprefix]

theorem jsonExtractString_eq_scan (json key : Bytes) (outSize : Nat) :
    jsonExtractString json key outSize = (scan key json).map (·.take (outSize - 1)) := by
  rw [← extractFrom_eq_scan, jsonExtractString]
  split_ifs with hshort
  · exact (extractFrom_short hshort).symm
  · rfl

/-- What the function finds stands behind the pattern. -/
theorem jsonExtractString_suffix {data key : Bytes}
    (h : jsonExtractString data key outSize = some out) :
    ∃ rest, keyPattern key ++ rest <:+ data ∧ out.length ≤ rest.length := by
  rw [jsonExtractString_eq_scan] at h
  obtain ⟨found, hfound, rfl⟩ := Option.map_eq_some_iff.mp h
  obtain ⟨rest, hsuffix, hprefix⟩ := scan_suffix hfound
  exact ⟨rest, hsuffix, (List.length_take_le' _ _).trans hprefix.length_le⟩

/-- Zeros in front of a text change nothing. -/
theorem jsonExtractString_zeros (n : Nat) (tail key : Bytes) :
    jsonExtractString (List.replicate n 0 ++ tail) key outSize =
      jsonExtractString tail key outSize := by
  have hquote : (34 : UInt8) ∉ List.replicate n 0 := fun hmem =>
    absurd (List.eq_of_mem_replicate hmem) (by decide)
  rw [jsonExtractString_eq_scan, jsonExtractString_eq_scan, scan_skip_append hquote]

/-- What the function finds in the text of a document. -/
theorem jsonExtractString_text {key : Bytes} (hkey : IsWord key) (x : Json) (outSize : Nat) :
    jsonExtractString x.text key outSize =
      (x.first key).map fun s => s.cut.take (outSize - 1) := by
  rw [jsonExtractString_eq_scan, scan_document hkey, Option.map_map]
  rfl

/-! ## The branches of the RPC handler -/

/-- What `handle_rpc_request` replies. -/
inductive Branch where
  | getStatus
  | reboot
  | unknownMethod
  deriving DecidableEq

/-- The comparisons with a method name. -/
def branchOf (method : Bytes) : Branch :=
  if method = ascii "getStatus" then .getStatus
  else if method = ascii "reboot" then .reboot
  else .unknownMethod

/-- The branch, if there is any reply. -/
def rpcBranch (data : Bytes) : Option Branch :=
  (jsonExtractString data (ascii "method") 32).map fun out => branchOf (out.takeWhile (· ≠ 0))

/-- The 31 bytes of the buffer are enough for the two names. -/
theorem method_eq_iff {name : Bytes} (hname : IsWord name) (hlen : name.length < 31) (s : Written) :
    (s.cut.take 31).takeWhile (· ≠ 0) = name ↔ s.bytes = name := by
  have hnul : (s.cut.take 31).takeWhile (· ≠ 0) = s.cut.take 31 := by
    refine List.takeWhile_eq_self_iff.mpr fun b hb => decide_eq_true fun hzero => ?_
    have hmem : b ∈ s.bytes := (List.takeWhile_prefix _).subset (List.mem_of_mem_take hb)
    exact absurd (s.escaped.le_of_mem hmem) (by rw [hzero]; decide)
  rw [hnul, ← s.cut_eq_iff hname]
  constructor
  · intro htake
    have hshort : s.cut.length < 31 := by
      have hlength := congrArg List.length htake
      rw [List.length_take] at hlength
      omega
    rwa [List.take_of_length_le (Nat.le_of_lt hshort)] at htake
  · intro heq
    subst heq
    exact List.take_of_length_le (Nat.le_of_lt hlen)

/-- The branch on a JSON text is the one of the first method in it, as it is
written. -/
theorem rpcBranch_text (x : Json) :
    rpcBranch x.text = (x.first (ascii "method")).map fun s => branchOf s.bytes := by
  have hmethod : IsWord (ascii "method") := ⟨by decide, by decide +kernel⟩
  have hstatus : IsWord (ascii "getStatus") := ⟨by decide, by decide +kernel⟩
  have hreboot : IsWord (ascii "reboot") := ⟨by decide, by decide +kernel⟩
  rw [rpcBranch, jsonExtractString_text hmethod, Option.map_map]
  refine congrArg (Option.map · _) (funext fun s => ?_)
  simp only [Function.comp_apply, branchOf, Nat.reduceSub,
    method_eq_iff hstatus (by decide), method_eq_iff hreboot (by decide)]

def rpcResponseTopic (topic : Bytes) : Bytes :=
  snprintf 64 (ascii "v1/devices/me/rpc/response/" ++ topic.drop rpcRequestTopicPrefix.length)

/-- The reply and the restart of a branch. -/
def Client.perform (c : Client) (uptimeMs : Nat) (topic : Bytes) : Branch → Client
  | .getStatus => c.mqttPublish (rpcResponseTopic topic) <| snprintf 128 <|
      ascii "\x7b\"temperature\":" ++ dec c.fakeTemperature ++
        ascii ",\"uptimeMs\":" ++ dec uptimeMs ++ ascii "\x7d"
  | .reboot =>
    { c.mqttPublish (rpcResponseTopic topic) (ascii "\x7b\"result\":\"rebooting\"\x7d") with
      rebooted := true }
  | .unknownMethod =>
    c.mqttPublish (rpcResponseTopic topic) (ascii "\x7b\"error\":\"unknown method\"\x7d")

/-- The handler performs its branch. -/
theorem handleRpcRequest_eq (uptimeMs : Nat) (topic data : Bytes) (c : Client) :
    handleRpcRequest uptimeMs topic data c =
      (rpcBranch data).elim c (c.perform uptimeMs topic) := by
  simp only [handleRpcRequest, rpcBranch]
  rcases jsonExtractString data (ascii "method") 32 with _ | out
  · rfl
  · simp only [Option.map_some, Option.elim_some, branchOf]
    split_ifs <;> rfl

end Winegrid.Zephyr
