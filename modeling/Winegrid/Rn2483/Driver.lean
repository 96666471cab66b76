import Winegrid.Lib.CString

/-!
# The RN2483 driver

The text side of `rn2483.c`: the commands that `rn2483_config` and
`rn2483_send` format, and the character loop of `rn2483_read_line`.

`pushChar` is what one received character does to the line being
collected, and `readLine` runs the loop over a stream that is already there.
The loop with its deadline, and the module at the other end of the UART, are
in `Winegrid.Rn2483.Pairing`.  The array that `rn2483_send` formats into is
followed in `Winegrid.Rn2483.Transmit`, the one that `rn2483_read_line` stores
into in `Winegrid.Rn2483.Framing`.
-/

namespace Winegrid.Rn2483

def respBufSize : Nat := 64
def maxPayload : Nat := 64
def cmdTimeoutMs : Nat := 2000
def txTimeoutMs : Nat := 8000

def EIO : Int := 5
def EINVAL : Int := 22
def ETIMEDOUT : Int := 116

/-! ## Commands -/

/-- `enum lora_signal_bandwidth`. -/
inductive Bandwidth where
  | bw125
  | bw250
  | bw500
  | other
  deriving DecidableEq

/-- `rn2483_bandwidth_khz`. -/
def bandwidthKhz : Bandwidth → Nat
  | .bw125 => 125
  | .bw250 => 250
  | .bw500 => 500
  | .other => 125

/-- The fields of `struct lora_modem_config` that the driver reads. -/
structure ModemConfig where
  frequency : UInt32
  txPower : Int8
  datarate : UInt32
  bandwidth : Bandwidth
  deriving DecidableEq

def crlf : Bytes := [13, 10]

/-- The four command lines of `rn2483_config`, in order. -/
def configCmds (config : ModemConfig) : List Bytes :=
  [ snprintf 48 (ascii "radio set freq " ++ dec config.frequency.toNat ++ crlf)
  , snprintf 48 (ascii "radio set pwr " ++ dec config.txPower.toInt ++ crlf)
  , snprintf 48 (ascii "radio set sf sf" ++ dec config.datarate.toNat ++ crlf)
  , snprintf 48 (ascii "radio set bw " ++ dec (bandwidthKhz config.bandwidth) ++ crlf) ]

/-- The `cmd` array of `rn2483_send` and its write position. -/
structure CmdBuf where
  text : Bytes
  pos : Nat
  deriving DecidableEq

/-- `sizeof(cmd)` in `rn2483_send`. -/
def sendCmdSize : Nat := 2 * maxPayload + 16

/-- `pos += snprintf(cmd + pos, sizeof(cmd) - pos, ...)`: what is stored is
cut at the end of the array, what is added to `pos` is not. -/
def CmdBuf.snprintf (cmd : CmdBuf) (s : Bytes) : CmdBuf :=
  ⟨cmd.text.take cmd.pos ++ s.take (sendCmdSize - cmd.pos - 1), cmd.pos + s.length⟩

/-- The formatting of `rn2483_send`. -/
def sendCmdBuf (payload : Bytes) : CmdBuf :=
  let start := CmdBuf.snprintf ⟨[], 0⟩ (ascii "radio tx ")
  let body := payload.foldl (fun cmd (b : UInt8) => cmd.snprintf (hexLower [b])) start
  body.snprintf crlf

/-- The line that `rn2483_write_line` is given: the first `pos` characters. -/
def sendCmd (payload : Bytes) : Bytes :=
  let cmd := sendCmdBuf payload
  cmd.text.take cmd.pos

/-! ## Lines -/

/-- What one character does in `rn2483_read_line`: a line feed ends the line,
a carriage return or a character past the buffer is dropped. -/
def pushChar (resp : Bytes) (c : UInt8) : Bytes :=
  if c ≠ 13 ∧ resp.length < respBufSize - 1 then resp ++ [c] else resp

/-- Read on from `resp`: the line, and what follows its line feed. -/
def readLine (resp : Bytes) : Bytes → Option (Bytes × Bytes)
  | [] => none
  | c :: stream => if c = 10 then some (resp, stream) else readLine (pushChar resp c) stream

/-- A line of text that the module sends: no line end and no NUL in it. -/
abbrev Line := { l : Bytes // ∀ c ∈ l, c ≠ 0 ∧ c ≠ 10 ∧ c ≠ 13 }

/-- The bytes of a line on the wire. -/
def Line.wire (l : Line) : Bytes := l.val ++ crlf

/-- What `strcmp` sees of a received line. -/
def Line.view (l : Line) : Bytes := l.val.take (respBufSize - 1)

def ok : Line := ⟨ascii "ok", by decide +kernel⟩
def radioTxOk : Line := ⟨ascii "radio_tx_ok", by decide +kernel⟩
def radioErr : Line := ⟨ascii "radio_err", by decide +kernel⟩

/-! ## Reading what the module sent -/

/-- Further bytes on the stream do not disturb the line in front. -/
theorem readLine_append {resp stream line rest : Bytes} (more : Bytes)
    (h : readLine resp stream = some (line, rest)) :
    readLine resp (stream ++ more) = some (line, rest ++ more) := by
  induction stream generalizing resp with
  | nil => cases h
  | cons c stream ih =>
    simp only [readLine, List.cons_append] at h ⊢
    split_ifs at h ⊢
    · cases h
      rfl
    · exact ih h

theorem pushChar_of_lt {resp : Bytes} {c : UInt8} (hc : c ≠ 13)
    (h : resp.length < respBufSize - 1) : pushChar resp c = resp ++ [c] :=
  if_pos ⟨hc, h⟩

theorem pushChar_of_ge {resp : Bytes} {c : UInt8} (h : respBufSize - 1 ≤ resp.length) :
    pushChar resp c = resp :=
  if_neg fun hc => absurd hc.2 (by omega)

/-- Collecting a line of text keeps its first 63 characters. -/
private theorem readLine_text (l : Bytes) (hl : ∀ c ∈ l, c ≠ 0 ∧ c ≠ 10 ∧ c ≠ 13)
    (rest resp : Bytes) (hresp : resp.length ≤ respBufSize - 1) :
    readLine resp (l ++ crlf ++ rest)
      = some ((resp ++ l).take (respBufSize - 1), rest) := by
  induction l generalizing resp with
  | nil =>
    have htake : resp.take (respBufSize - 1) = resp := List.take_of_length_le hresp
    simp [crlf, readLine, pushChar, htake]
  | cons c l ih =>
    obtain ⟨-, h10, h13⟩ := hl c List.mem_cons_self
    have hl' : ∀ c ∈ l, c ≠ 0 ∧ c ≠ 10 ∧ c ≠ 13 := fun c hc => hl c (List.mem_cons_of_mem _ hc)
    simp only [List.cons_append, readLine, if_neg h10]
    rcases Nat.lt_or_ge resp.length (respBufSize - 1) with hlt | hge
    · rw [pushChar_of_lt h13 hlt, ih hl' _ (by simp; omega), List.append_assoc,
        List.singleton_append]
    · rw [pushChar_of_ge hge, ih hl' _ hresp, List.take_append_of_le_length hge,
        List.take_append_of_le_length hge]

/-- A line that the module sent is read as its first 63 characters, and no
further. -/
theorem readLine_wire (l : Line) (rest : Bytes) :
    readLine [] (l.wire ++ rest) = some (l.view, rest) := by
  simpa [Line.wire, Line.view] using readLine_text l.val l.property rest [] (Nat.zero_le _)

/-- A short text is recognised exactly. -/
theorem view_eq_iff {l m : Line} (hm : m.val.length < respBufSize - 1) :
    l.view = m.val ↔ l = m := by
  constructor
  · intro h
    have hlen := congrArg List.length h
    simp only [Line.view, List.length_take] at hlen
    rw [Line.view, List.take_of_length_le (by omega)] at h
    exact Subtype.ext h
  · intro heq
    subst heq
    exact List.take_of_length_le (by omega)

end Winegrid.Rn2483
