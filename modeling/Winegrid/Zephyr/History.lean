import Winegrid.Zephyr.Inbound
import Winegrid.Zephyr.Provisioning

/-!
# Earlier messages

Both phases of the Zephyr client read into one static buffer, and a read may
answer fewer bytes than it was asked for.  The handlers go on with the length
they asked for, so the rest of what they look at are bytes of an earlier
message.

* `Leaves` are the contents that the messages received so far leave in the
  buffer.
* `Independent` is the two-run property: two histories, the same PUBLISH, the
  same reaction.
* `safe_independent` and `independent_safe` are the two directions of
  `history_independent_iff`.
* `short_read_reboots` is a status request that restarts the device.
-/

namespace Winegrid.Zephyr

variable {len k : Nat} {buf buf' data data' : Bytes}

/-! ## Histories -/

/-- What the messages of any history leave in `payload_buf`: answers to the
provisioning, and messages of the main phase that did not restart the device. -/
inductive Leaves : Bytes → Prop where
  | start : Leaves (List.replicate payloadBufSize 0)
  | provisioning (p : Provisioning) (id : Identity) (topic : Bytes) {len k : Nat}
      (h : Leaves p.client.payloadBuf) (hlen : p.client.remaining.length = len)
      (hk : ReadAllowed (readLen len) len k) :
      Leaves (provisioningEvtHandler id (.publish topic len) k p).client.payloadBuf
  | main (c : Client) (uptimeMs : Nat) (topic : Bytes) {len k : Nat}
      (h : Leaves c.payloadBuf) (hlen : c.remaining.length = len)
      (hk : ReadAllowed (readLen len) len k)
      (halive : (mainEvtHandler uptimeMs (.publish topic len) k c).rebooted = false) :
      Leaves (mainEvtHandler uptimeMs (.publish topic len) k c).payloadBuf

/-- The reactions of the main phase: the same messages, and a restart of both
or of none. -/
def SameInMain (topic : Bytes) (len k : Nat) (c d : Client) : Prop :=
  ∀ uptimeMs,
    (mainEvtHandler uptimeMs (.publish topic len) k c).sent =
      (mainEvtHandler uptimeMs (.publish topic len) k d).sent ∧
    (mainEvtHandler uptimeMs (.publish topic len) k c).rebooted =
      (mainEvtHandler uptimeMs (.publish topic len) k d).rebooted

/-- The ends of the provisioning phase: the same token and the same flag. -/
def SameInProvisioning (topic : Bytes) (len k : Nat) (c d : Client) : Prop :=
  ∀ id done token,
    (provisioningEvtHandler id (.publish topic len) k ⟨c, done, token⟩).token =
      (provisioningEvtHandler id (.publish topic len) k ⟨d, done, token⟩).token ∧
    (provisioningEvtHandler id (.publish topic len) k ⟨c, done, token⟩).done =
      (provisioningEvtHandler id (.publish topic len) k ⟨d, done, token⟩).done

/-- No two histories lead to different reactions to one PUBLISH of `len` bytes
whose read answers `k` of them. -/
def Independent (len k : Nat) : Prop :=
  ∀ buf buf', Leaves buf → Leaves buf' → ∀ c : Client, c.remaining.length = len → ∀ topic,
    SameInMain topic len k { c with payloadBuf := buf } { c with payloadBuf := buf' } ∧
      SameInProvisioning topic len k { c with payloadBuf := buf } { c with payloadBuf := buf' }

/-- The read answers all that it was asked for, or what it was asked for is
too short to hold a method that matters. -/
def Safe (len k : Nat) : Prop :=
  k = readLen len ∨ readLen len ≤ 10 ∨ (readLen len ≤ 15 ∧ k + 1 = readLen len)

/-! ## What a handler looks at -/

/-- The main handler writes to the buffer only what it receives. -/
theorem mainEvtHandler_payloadBuf (uptimeMs : Nat) (topic : Bytes) (len k : Nat) (c : Client) :
    (mainEvtHandler uptimeMs (.publish topic len) k c).payloadBuf =
      (c.receive (readLen len) k).payloadBuf := by
  rw [mainEvtHandler_publish]
  split_ifs
  · rw [handleRpcRequest_eq]
    rcases rpcBranch (c.received len k) with _ | b
    · rfl
    · cases b <;> rfl
  · rfl

theorem receive_length {c : Client} (hbuf : c.payloadBuf.length = payloadBufSize)
    (hlen : c.remaining.length = len) (hk : ReadAllowed (readLen len) len k) :
    (c.receive (readLen len) k).payloadBuf.length = payloadBufSize := by
  have hbound := hk.1
  simp only [Client.receive, Client.readPublishPayload, List.length_set, List.length_append,
    List.length_take, List.length_drop, hbuf, hlen]
  simp only [readLen, payloadBufSize] at *
  omega

theorem leaves_length (h : Leaves buf) : buf.length = payloadBufSize := by
  induction h with
  | start => exact List.length_replicate
  | provisioning p id topic _ hlen hk ih => exact receive_length ih hlen hk
  | main c uptimeMs topic _ hlen hk _ ih =>
    rw [mainEvtHandler_payloadBuf]
    exact receive_length ih hlen hk

/-- The bytes that were read, and then bytes of the buffer. -/
theorem received_eq {c : Client} (hlen : c.remaining.length = len)
    (hk : ReadAllowed (readLen len) len k) :
    c.received len k = c.remaining.take k ++ (c.payloadBuf.drop k).take (readLen len - k) := by
  have hbound := hk.1
  have htake : (c.remaining.take k).length = k := by
    rw [List.length_take]
    omega
  simp only [Client.received, Client.receive, Client.readPublishPayload]
  rw [List.take_set_of_le (Nat.le_refl _), List.take_append, htake,
    List.take_of_length_le (by omega)]

theorem received_length {c : Client} (hbuf : Leaves c.payloadBuf) (hlen : c.remaining.length = len)
    (hk : ReadAllowed (readLen len) len k) : (c.received len k).length = readLen len := by
  have hbound := hk.1
  have hsize := leaves_length hbuf
  rw [received_eq hlen hk, List.length_append, List.length_take, List.length_take,
    List.length_drop, hsize]
  simp only [readLen, payloadBufSize] at *
  omega

/-- The reply depends on nothing in the buffer. -/
theorem perform_congr {c d : Client} {uptimeMs : Nat} {topic : Bytes} (b : Branch)
    (hsent : c.sent = d.sent) (htemperature : c.fakeTemperature = d.fakeTemperature)
    (hrebooted : c.rebooted = d.rebooted) :
    (c.perform uptimeMs topic b).sent = (d.perform uptimeMs topic b).sent ∧
      (c.perform uptimeMs topic b).rebooted = (d.perform uptimeMs topic b).rebooted := by
  cases b <;> simp [Client.perform, Client.mqttPublish, rpcResponseTopic, hsent, htemperature,
    hrebooted]

/-- The branch decides the reaction of the main phase. -/
theorem sameInMain_of_branch {c d : Client} {topic : Bytes}
    (hsent : c.sent = d.sent) (htemperature : c.fakeTemperature = d.fakeTemperature)
    (hrebooted : c.rebooted = d.rebooted)
    (hbranch : rpcBranch (c.received len k) = rpcBranch (d.received len k)) :
    SameInMain topic len k c d := by
  intro uptimeMs
  rw [mainEvtHandler_publish, mainEvtHandler_publish]
  split_ifs
  · rw [handleRpcRequest_eq, handleRpcRequest_eq, hbranch]
    rcases rpcBranch (d.received len k) with _ | b
    · exact ⟨hsent, hrebooted⟩
    · exact perform_congr b hsent htemperature hrebooted
  · exact ⟨hsent, hrebooted⟩

/-! ## Short messages -/

/-- Whatever is found in a short text is a short string. -/
theorem jsonExtractString_length {key out : Bytes} {outSize : Nat}
    (h : jsonExtractString data key outSize = some out) :
    out.length + (key.length + 4) ≤ data.length := by
  obtain ⟨rest, hsuffix, hout⟩ := jsonExtractString_suffix h
  have hlen := hsuffix.length_le
  rw [List.length_append, keyPattern_length] at hlen
  omega

/-- What fifteen bytes hold for a key of six is shorter than a name of six. -/
theorem short_ne {key out name : Bytes} {outSize : Nat} (hdata : data.length ≤ 15)
    (h : jsonExtractString data key outSize = some out) (hkey : key.length = 6)
    (hname : 5 < name.length) : out.takeWhile (· ≠ 0) ≠ name := by
  intro heq
  subst heq
  have hlen := jsonExtractString_length h
  have hwhile : (out.takeWhile (· ≠ 0)).length ≤ out.length :=
    (List.takeWhile_prefix _).length_le
  omega

/-- A text of at most fifteen bytes holds no method that is known. -/
theorem rpcBranch_short (h : data.length ≤ 15) :
    rpcBranch data = if (jsonExtractString data (ascii "method") 32).isSome then
      some .unknownMethod else none := by
  unfold rpcBranch
  rcases hout : jsonExtractString data (ascii "method") 32 with _ | out
  · rfl
  · have hstatus : out.takeWhile (· ≠ 0) ≠ ascii "getStatus" := short_ne h hout rfl (by decide)
    have hreboot : out.takeWhile (· ≠ 0) ≠ ascii "reboot" := short_ne h hout rfl (by decide)
    rw [Option.map_some, branchOf, if_neg hstatus, if_neg hreboot]
    rfl

/-- A text of at most fifteen bytes brings no token. -/
theorem issuedToken_short (h : data.length ≤ 15) : issuedToken data = none := by
  unfold issuedToken
  rcases hout : jsonExtractString data (ascii "status") 32 with _ | status
  · rfl
  · exact if_neg (short_ne h hout rfl (by decide))

/-- A text of at most ten bytes holds no method at all. -/
theorem rpcBranch_none (h : data.length ≤ 10) : rpcBranch data = none := by
  have hnone : jsonExtractString data (ascii "method") 32 = none := if_pos h
  rw [rpcBranch, hnone]
  rfl

/-! ## Safe reads -/

/-- Two texts of a safe read agree in all that matters. -/
theorem safe_reads {fresh : Bytes} (hsafe : Safe len k) (hfresh : fresh.length = k)
    (hdata : (fresh ++ buf).length = readLen len) (hdata' : (fresh ++ buf').length = readLen len) :
    rpcBranch (fresh ++ buf) = rpcBranch (fresh ++ buf') ∧
      issuedToken (fresh ++ buf) = issuedToken (fresh ++ buf') := by
  have hsplit : (fresh ++ buf).length = fresh.length + buf.length := List.length_append
  have hsplit' : (fresh ++ buf').length = fresh.length + buf'.length := List.length_append
  rcases hsafe with hwhole | hshort | ⟨hshort, hone⟩
  · have hnil : buf = [] := List.length_eq_zero_iff.mp (by omega)
    have hnil' : buf' = [] := List.length_eq_zero_iff.mp (by omega)
    rw [hnil, hnil']
    exact ⟨rfl, rfl⟩
  · have hten : (fresh ++ buf).length ≤ 10 := by omega
    have hten' : (fresh ++ buf').length ≤ 10 := by omega
    rw [rpcBranch_none hten, rpcBranch_none hten', issuedToken_short (by omega),
      issuedToken_short (by omega)]
    exact ⟨rfl, rfl⟩
  · have hfifteen : (fresh ++ buf).length ≤ 15 := by omega
    have hfifteen' : (fresh ++ buf').length ≤ 15 := by omega
    rw [rpcBranch_short hfifteen, rpcBranch_short hfifteen', issuedToken_short hfifteen,
      issuedToken_short hfifteen']
    obtain ⟨x, rfl⟩ := List.length_eq_one_iff.mp (show buf.length = 1 by omega)
    obtain ⟨y, rfl⟩ := List.length_eq_one_iff.mp (show buf'.length = 1 by omega)
    rw [jsonExtractString_isSome_snoc fresh (ascii "method") x y]
    exact ⟨rfl, rfl⟩

/-- After a safe read no history shows. -/
theorem safe_independent (hk : ReadAllowed (readLen len) len k) (hsafe : Safe len k) :
    Independent len k := by
  intro buf buf' hbuf hbuf' c hlen topic
  have hread : ∀ b, ({ c with payloadBuf := b } : Client).received len k =
      c.remaining.take k ++ (b.drop k).take (readLen len - k) :=
    fun b => received_eq (c := { c with payloadBuf := b }) hlen hk
  have hdata := received_length (c := { c with payloadBuf := buf }) hbuf hlen hk
  have hdata' := received_length (c := { c with payloadBuf := buf' }) hbuf' hlen hk
  rw [hread] at hdata hdata'
  have hbound := hk.1
  have hfresh : (c.remaining.take k).length = k := by
    rw [List.length_take]
    omega
  obtain ⟨hbranch, htoken⟩ := safe_reads hsafe hfresh hdata hdata'
  refine ⟨sameInMain_of_branch rfl rfl rfl ?_, fun id done token => ⟨?_, rfl⟩⟩
  · rw [hread, hread]
    exact hbranch
  · simp only [provisioningEvtHandler_publish, hread, htoken]

/-! ## Unsafe reads -/

/-- A client that is delivered a payload. -/
def reading (payload : Bytes) : Client := ⟨List.replicate payloadBufSize 0, 20, payload, [], false⟩

/-- Any text that fits is what some message leaves at the front of the
buffer. -/
theorem leaves_text (data : Bytes) (hfits : data.length < payloadBufSize) :
    ∃ b, Leaves b ∧ b.take data.length = data := by
  have hlen : readLen data.length = data.length := by
    unfold readLen
    omega
  have hk : ReadAllowed (readLen data.length) data.length data.length := by
    rw [hlen]
    exact ⟨by omega, by omega⟩
  refine ⟨_, .provisioning ⟨reading data, false, []⟩ ⟨[], [], []⟩ provisionTopicResponse .start
    rfl hk, ?_⟩
  simp only [provisioningEvtHandler_publish, Client.receive, Client.readPublishPayload, reading,
    hlen]
  rw [List.take_set_of_le (Nat.le_refl _), List.take_length, List.take_left]

/-- What an RPC leaves of the branch: whether there is a reply, and whether it
is a restart. -/
theorem rpc_reaction (len k : Nat) {c : Client} {topic : Bytes}
    (htopic : startsWith topic rpcRequestTopicPrefix = true) (hsent : c.sent = [])
    (hrebooted : c.rebooted = false) :
    (mainEvtHandler 0 (.publish topic len) k c).sent.length =
        (if (rpcBranch (c.received len k)).isSome then 1 else 0) ∧
      (mainEvtHandler 0 (.publish topic len) k c).rebooted =
        decide (rpcBranch (c.received len k) = some .reboot) := by
  have hsent' : (c.receive (readLen len) k).sent = [] := hsent
  have hrebooted' : (c.receive (readLen len) k).rebooted = false := hrebooted
  rw [mainEvtHandler_publish, if_pos htopic, handleRpcRequest_eq]
  rcases rpcBranch (c.received len k) with _ | b
  · simp [hsent', hrebooted']
  · cases b <;> simp [Client.perform, Client.mqttPublish, hsent', hrebooted']

/-- An independent read is taken alike after any two histories. -/
theorem independent_branch (h : Independent len k) (hbuf : Leaves buf) (hbuf' : Leaves buf')
    {payload : Bytes} (hpayload : payload.length = len) :
    (rpcBranch (({ reading payload with payloadBuf := buf } : Client).received len k)).isSome =
        (rpcBranch (({ reading payload with payloadBuf := buf' } : Client).received len k)).isSome ∧
      (rpcBranch (({ reading payload with payloadBuf := buf } : Client).received len k) =
          some .reboot ↔
        rpcBranch (({ reading payload with payloadBuf := buf' } : Client).received len k) =
          some .reboot) := by
  have htopic : startsWith rpcRequestTopicPrefix rpcRequestTopicPrefix = true := by decide
  obtain ⟨hsent, hrebooted⟩ :=
    (h buf buf' hbuf hbuf' (reading payload) hpayload rpcRequestTopicPrefix).1 0
  obtain ⟨hlength, hboot⟩ := rpc_reaction len k
    (c := { reading payload with payloadBuf := buf }) htopic rfl rfl
  obtain ⟨hlength', hboot'⟩ := rpc_reaction len k
    (c := { reading payload with payloadBuf := buf' }) htopic rfl rfl
  rw [hsent, hlength'] at hlength
  rw [hrebooted, hboot', decide_eq_decide] at hboot
  refine ⟨?_, hboot.symm⟩
  rw [Bool.eq_iff_iff]
  split_ifs at hlength with hfirst hsecond hsecond
  · exact ⟨fun _ => hfirst, fun _ => hsecond⟩
  · exact ⟨fun h => absurd h hsecond, fun h => absurd h hfirst⟩

/-- An earlier message can complete the one that is read.  So an independent
read takes any text of its length like the same text with zeros for the bytes
that were not read. -/
theorem independent_texts (hk : ReadAllowed (readLen len) len k) (h : Independent len k)
    (hdata : data.length = readLen len) :
    ((rpcBranch (data.take k ++ List.replicate (readLen len - k) 0)).isSome =
        (rpcBranch data).isSome) ∧
      (rpcBranch (data.take k ++ List.replicate (readLen len - k) 0) = some .reboot ↔
        rpcBranch data = some .reboot) := by
  have hbound := hk.1
  have hlen : readLen len < payloadBufSize := by
    rw [readLen, payloadBufSize]
    omega
  have hpayload : (data.take k ++ List.replicate (len - k) 0).length = len := by
    rw [List.length_append, List.length_take, List.length_replicate]
    omega
  have hfresh : (data.take k ++ List.replicate (len - k) 0).take k = data.take k :=
    List.take_left' (by rw [List.length_take]; omega)
  have hread : ∀ b, ({ reading (data.take k ++ List.replicate (len - k) 0) with
      payloadBuf := b } : Client).received len k =
        data.take k ++ (b.drop k).take (readLen len - k) := fun b => by
    rw [received_eq hpayload hk]
    exact congrArg (· ++ _) hfresh
  have hzeros : ((List.replicate payloadBufSize (0 : UInt8)).drop k).take (readLen len - k) =
      List.replicate (readLen len - k) 0 := by
    rw [List.drop_replicate, List.take_replicate, Nat.min_eq_left (by omega)]
  obtain ⟨stale, hstale, htext⟩ := leaves_text data (by omega)
  have hrest : (stale.drop k).take (readLen len - k) = data.drop k := by
    rw [← List.drop_take, ← hdata, htext]
  have hbranch := independent_branch h .start hstale hpayload
  rw [hread, hread, hzeros, hrest, List.take_append_drop] at hbranch
  exact hbranch

/-- Zeros in front of a text hold no method. -/
theorem rpcBranch_zeros (n : Nat) (tail : Bytes) :
    rpcBranch (List.replicate n 0 ++ tail) = rpcBranch tail := by
  rw [rpcBranch, jsonExtractString_zeros, rpcBranch]

/-- Without the last quote of the pattern no method is found. -/
theorem rpcBranch_cut (n m : Nat) :
    rpcBranch ((List.replicate n 0 ++ ascii "\"method\":").take m ++ List.replicate k 0) =
      none := by
  have hnone : jsonExtractString ((List.replicate n 0 ++ ascii "\"method\":").take m ++
      List.replicate k 0) (ascii "method") 32 = none := by
    rw [Option.eq_none_iff_forall_ne_some]
    intro out hout
    obtain ⟨rest, hsuffix, -⟩ := jsonExtractString_suffix hout
    have hcount := ((List.prefix_append _ rest).isInfix.trans hsuffix.isInfix).sublist.count_le
      (34 : UInt8)
    have htake := (List.take_prefix m (List.replicate n (0 : UInt8) ++
      ascii "\"method\":")).sublist.count_le (34 : UInt8)
    have hpattern : (keyPattern (ascii "method")).count (34 : UInt8) = 3 := rfl
    have hstart : (ascii "\"method\":").count (34 : UInt8) = 2 := rfl
    have hzeros : ∀ j, (List.replicate j (0 : UInt8)).count 34 = 0 := fun j =>
      List.count_eq_zero.mpr fun hmem => absurd (List.eq_of_mem_replicate hmem) (by decide)
    rw [hpattern, List.count_append, hzeros] at hcount
    rw [List.count_append, hzeros, hstart] at htake
    omega
  rw [rpcBranch, hnone]
  rfl

/-- When more than one byte is missing, an earlier message can bring the last
quote of the pattern. -/
theorem not_independent_gap (hk : ReadAllowed (readLen len) len k) (hlong : 11 ≤ readLen len)
    (hgap : k + 1 < readLen len) : ¬Independent len k := by
  intro h
  have hsplit : List.replicate (readLen len - 11) (0 : UInt8) ++ ascii "\"method\":\"x" =
      List.replicate (readLen len - 11) 0 ++ ascii "\"method\":" ++ ascii "\"x" := by
    rw [List.append_assoc]
    rfl
  have hlen : (List.replicate (readLen len - 11) (0 : UInt8) ++
      ascii "\"method\":\"x").length = readLen len := by
    have hmethod : (ascii "\"method\":\"x").length = 11 := rfl
    rw [List.length_append, List.length_replicate, hmethod]
    omega
  have hcut : (List.replicate (readLen len - 11) (0 : UInt8) ++ ascii "\"method\":\"x").take k =
      (List.replicate (readLen len - 11) 0 ++ ascii "\"method\":").take k := by
    have hmethod : (ascii "\"method\":").length = 9 := rfl
    rw [hsplit, List.take_append_of_le_length]
    rw [List.length_append, List.length_replicate, hmethod]
    omega
  have hsome := (independent_texts hk h hlen).1
  rw [hcut, rpcBranch_cut, rpcBranch_zeros] at hsome
  exact absurd hsome (by decide)

/-- When the last byte is missing, an earlier message can bring the last byte
of `reboot`. -/
theorem not_independent_last (hk : ReadAllowed (readLen len) len k) (hlong : 16 ≤ readLen len)
    (hlast : k + 1 = readLen len) : ¬Independent len k := by
  intro h
  have hsplit : List.replicate (readLen len - 16) (0 : UInt8) ++ ascii "\"method\":\"reboot" =
      List.replicate (readLen len - 16) 0 ++ ascii "\"method\":\"reboo" ++ ascii "t" := by
    rw [List.append_assoc]
    rfl
  have hfresh : (List.replicate (readLen len - 16) (0 : UInt8) ++
      ascii "\"method\":\"reboo").length = k := by
    have hmethod : (ascii "\"method\":\"reboo").length = 15 := rfl
    rw [List.length_append, List.length_replicate, hmethod]
    omega
  have hlen : (List.replicate (readLen len - 16) (0 : UInt8) ++
      ascii "\"method\":\"reboot").length = readLen len := by
    rw [hsplit, List.length_append, hfresh]
    exact hlast
  have hone : readLen len - k = 1 := by omega
  have hreboot := (independent_texts hk h hlen).2.mpr
    ((rpcBranch_zeros _ _).trans (by decide))
  rw [hsplit, List.take_left' hfresh, hone, List.append_assoc, rpcBranch_zeros] at hreboot
  exact absurd hreboot (by decide)

/-- A read that is not safe shows the history. -/
theorem independent_safe (hk : ReadAllowed (readLen len) len k) (h : Independent len k) :
    Safe len k := by
  have hbound := hk.1
  by_cases hshort : readLen len ≤ 10
  · exact Or.inr (Or.inl hshort)
  · have hgap : ¬k + 1 < readLen len := fun hgap =>
      not_independent_gap hk (by omega) hgap h
    by_cases hlast : k + 1 = readLen len
    · have hfifteen : readLen len ≤ 15 := by
        by_contra hlong
        exact not_independent_last hk (by omega) hlast h
      exact Or.inr (Or.inr ⟨hfifteen, hlast⟩)
    · exact Or.inl (by omega)

/-- The reactions to a PUBLISH show nothing of earlier messages if and only if
its read is safe. -/
theorem history_independent_iff (hk : ReadAllowed (readLen len) len k) :
    Independent len k ↔ Safe len k :=
  ⟨independent_safe hk, safe_independent hk⟩

/-- A whole read of 40 bytes shows nothing. -/
theorem history_independent_iff_whole : Independent 40 40 :=
  (history_independent_iff (by decide)).mpr (Or.inl (by decide))

/-- A request for the status of which eleven bytes are read, after one with
`reboot` as its parameter that was read whole and answered. -/
theorem short_read_reboots : ¬ ∀ len k, 1 ≤ k → k ≤ readLen len → Independent len k := by
  intro h
  let first : Client :=
    reading (ascii "\x7b\"params\":\"reboot\",\"method\":\"getStatus\"\x7d")
  let second : Client := reading (ascii "\x7b\"method\":\"getStatus\"\x7d")
  have hstale : Leaves (mainEvtHandler 0 (.publish (ascii "v1/devices/me/rpc/request/6") 40) 40
      first).payloadBuf :=
    .main first 0 _ .start (by decide +kernel) (by decide) (by decide +kernel)
  have hsame := ((h 22 11 (by decide) (by decide) _ _ .start hstale second (by decide +kernel)
    (ascii "v1/devices/me/rpc/request/7")).1 0).2
  have hfresh : (mainEvtHandler 0 (.publish (ascii "v1/devices/me/rpc/request/7") 22) 11
      { second with payloadBuf := List.replicate payloadBufSize 0 }).rebooted = false := by
    decide +kernel
  have hreboots : (mainEvtHandler 0 (.publish (ascii "v1/devices/me/rpc/request/7") 22) 11
      { second with payloadBuf := (mainEvtHandler 0
        (.publish (ascii "v1/devices/me/rpc/request/6") 40) 40 first).payloadBuf }).rebooted =
      true := by
    decide +kernel
  rw [hfresh, hreboots] at hsame
  exact Bool.false_ne_true hsame

end Winegrid.Zephyr
