import Winegrid.Lib.Decimal
import Winegrid.Lib.Machine
import Winegrid.Rn2483.Driver
import Mathlib.Tactic.SplitIfs

/-!
# Which reply belongs to which command

The driver and the module as one machine over a FIFO UART.  Every command the
driver writes gets a number.  The module answers the commands in order, one
line each, and sends one more line for every `radio tx` that it answered with
`ok`; it sends each line whenever it likes, and the bytes arrive one by one.
The driver runs the loop of `rn2483_read_line`, one turn a step, under a clock
that the environment may advance at any time.

The ghost lists `replied` and `reported` say what the module said to which
command, and `returned` what each call of the API ended in.

* `Inv` is the invariant.  Inside a call it says that the bytes still to be
  read are the reply to the call's own last command and its own report, in
  that order, and nothing else.
* `Sys.Moves` is what a step does, and every step lemma splits it.
* `next_inv` is the step lemma, and `calls_paired` the run law: as long as no
  call is made while a line of an earlier command is outstanding, a call that
  returns 0 was answered, itself, in full.
* `late_reply_mispaired` is a run in which a late `ok` is taken for the answer
  to the next command.
-/

namespace Winegrid.Rn2483

/-- The calls of the API, with their arguments. -/
inductive Call where
  | init
  | config (config : ModemConfig)
  | send (payload : Bytes)
  deriving DecidableEq

/-- Where the driver is: outside any call, or in `rn2483_read_line` under one
of the calls.  In `config` the list holds the commands still to be written. -/
inductive Pc where
  | idle
  | init
  | config (rest : List Bytes)
  | sendReply
  | sendReport
  deriving DecidableEq

/-- A finished call, the commands it wrote and what it returned. -/
structure Return where
  call : Call
  own : List (Nat × Bytes)
  ret : Int
  deriving DecidableEq

structure Sys where
  now : Nat
  rx : Bytes
  wire : Bytes
  pc : Pc
  call : Call
  resp : Bytes
  deadline : Nat
  own : List (Nat × Bytes)
  nextId : Nat
  owed : List (Nat × Bytes)
  owedTx : List Nat
  replied : List (Nat × Line)
  reported : List (Nat × Line)
  returned : List Return
  deriving DecidableEq

/-- The bytes the driver has not read. -/
def Sys.stream (s : Sys) : Bytes := s.rx ++ s.wire

inductive Label where
  | call (c : Call)
  /-- One turn of the loop of `rn2483_read_line`. -/
  | turn
  | tick (ms : Nat)
  /-- The module answers the oldest unanswered command. -/
  | reply (l : Line)
  /-- The module reports the end of an accepted transmission. -/
  | report (i : Nat) (sent : Bool)
  /-- One byte crosses the wire. -/
  | arrive
  deriving DecidableEq

/-- A command that starts a transmission when the module accepts it. -/
def isTx (cmd : Bytes) : Bool := startsWith cmd (ascii "radio tx ")

/-- The call returns. -/
def Sys.finish (s : Sys) (ret : Int) : Sys :=
  { s with pc := .idle, returned := s.returned ++ [⟨s.call, s.own, ret⟩] }

/-- `rn2483_write_line`, and the entry of `rn2483_read_line`. -/
def Sys.command (s : Sys) (cmd : Bytes) (pc : Pc) : Sys :=
  { s with
    owed := s.owed ++ [(s.nextId, cmd)]
    own := s.own ++ [(s.nextId, cmd)]
    nextId := s.nextId + 1
    pc := pc
    resp := []
    deadline := s.now + cmdTimeoutMs }

/-- The entry of a call.  `rn2483_init` first drains what has arrived, the
other two do not. -/
def Sys.enter (s : Sys) (c : Call) : Sys :=
  let s := { s with call := c, own := [] }
  match c with
  | .init => { s with rx := [] }.command (ascii "sys get ver" ++ crlf) .init
  | .config config =>
    match configCmds config with
    | [] => s.finish 0
    | cmd :: rest => s.command cmd (.config rest)
  | .send payload =>
    if payload.length > maxPayload then s.finish (-EINVAL)
    else s.command (sendCmd payload) .sendReply

/-- `rn2483_read_line` has returned the line in `resp`. -/
def Sys.gotLine (s : Sys) : Sys :=
  match s.pc with
  | .idle => s
  | .init => s.finish 0
  | .config rest =>
    if s.resp ≠ ok.val then s.finish (- EIO)
    else match rest with
      | [] => s.finish 0
      | cmd :: rest => s.command cmd (.config rest)
  | .sendReply =>
    if s.resp ≠ ok.val then s.finish (- EIO)
    else { s with pc := .sendReport, resp := [], deadline := s.now + txTimeoutMs }
  | .sendReport => if s.resp = radioTxOk.val then s.finish 0 else s.finish (- EIO)

/-- The driver takes the first character from the UART into `resp`. -/
def Sys.take (s : Sys) (rx resp : Bytes) : Sys := { s with rx := rx, resp := resp }

/-- One turn of the loop: the deadline, then `uart_poll_in`, then a sleep of
two milliseconds when no character is there. -/
def Sys.turn (s : Sys) : Sys :=
  if s.deadline ≤ s.now then s.finish (-ETIMEDOUT)
  else match s.rx with
    | [] => { s with now := s.now + 2 }
    | c :: rx =>
      if c = 10 then (s.take rx s.resp).gotLine
      else s.take rx (pushChar s.resp c)

/-- The module sends `l` as the answer to command `id`. -/
def Sys.answer (s : Sys) (id : Nat) (cmd : Bytes) (owed : List (Nat × Bytes)) (l : Line) : Sys :=
  { s with
    owed := owed
    wire := s.wire ++ l.wire
    replied := s.replied ++ [(id, l)]
    owedTx := if isTx cmd ∧ l = ok then s.owedTx ++ [id] else s.owedTx }

/-- The module sends `l` as the report of transmission `id`. -/
def Sys.endTx (s : Sys) (i id : Nat) (l : Line) : Sys :=
  { s with
    owedTx := s.owedTx.eraseIdx i
    wire := s.wire ++ l.wire
    reported := s.reported ++ [(id, l)] }

def Sys.next (s : Sys) : Label → Option Sys
  | .call c => if s.pc = .idle then some (s.enter c) else none
  | .turn => if s.pc = .idle then none else some s.turn
  | .tick ms => some { s with now := s.now + ms }
  | .reply l =>
    match s.owed with
    | [] => none
    | (id, cmd) :: owed => some (s.answer id cmd owed l)
  | .report i sent =>
    match s.owedTx[i]? with
    | none => none
    | some id => some (s.endTx i id (if sent then radioTxOk else radioErr))
  | .arrive =>
    match s.wire with
    | [] => none
    | c :: wire => some { s with rx := s.rx ++ [c], wire := wire }

/-- The device before its first call.  The module may have sent a banner. -/
def Sys.boot (banner : Bytes) : Sys :=
  ⟨0, [], banner, .idle, .init, [], 0, [], 0, [], [], [], [], []⟩

def rn2483 : Machine Sys Label where
  init s := ∃ banner, s = Sys.boot banner
  next := Sys.next

/-- What a step does. -/
inductive Sys.Moves (s : Sys) : Label → Sys → Prop where
  | call (c : Call) (hpc : s.pc = .idle) : Moves s (.call c) (s.enter c)
  | turn (hpc : s.pc ≠ .idle) : Moves s .turn s.turn
  | tick (ms : Nat) : Moves s (.tick ms) { s with now := s.now + ms }
  | reply {id : Nat} {cmd : Bytes} {owed : List (Nat × Bytes)} (l : Line)
    (howed : s.owed = (id, cmd) :: owed) : Moves s (.reply l) (s.answer id cmd owed l)
  | report {i id : Nat} (sent : Bool) (hi : s.owedTx[i]? = some id) :
    Moves s (.report i sent) (s.endTx i id (if sent then radioTxOk else radioErr))
  | arrive {c : UInt8} {wire : Bytes} (hwire : s.wire = c :: wire) :
    Moves s .arrive { s with rx := s.rx ++ [c], wire := wire }

theorem moves_of_next {s t : Sys} {label : Label} (h : s.next label = some t) :
    s.Moves label t := by
  cases label with
  | call c =>
    simp only [Sys.next] at h
    split_ifs at h with hpc
    exact Option.some.inj h ▸ .call c hpc
  | turn =>
    simp only [Sys.next] at h
    split_ifs at h with hpc
    exact Option.some.inj h ▸ .turn hpc
  | tick ms => exact Option.some.inj h ▸ .tick ms
  | reply l =>
    simp only [Sys.next] at h
    split at h
    · cases h
    · rename_i id cmd owed howed
      exact Option.some.inj h ▸ .reply l howed
  | report i sent =>
    simp only [Sys.next] at h
    split at h
    · cases h
    · rename_i id hi
      exact Option.some.inj h ▸ .report sent hi
  | arrive =>
    simp only [Sys.next] at h
    split at h
    · cases h
    · rename_i c wire hwire
      exact Option.some.inj h ▸ .arrive hwire

/-! ## The law -/

/-- No line of an earlier command is on its way or still to be sent. -/
def Settled (s : Sys) : Prop := s.stream = [] ∧ s.owed = [] ∧ s.owedTx = []

/-- `rn2483_config` and `rn2483_send` are called only when everything is
settled. -/
def CallsSettled (s : Sys) : Label → Prop
  | .call (.config _) => Settled s
  | .call (.send _) => Settled s
  | _ => True

/-- The four settings, as whole lines of the module. -/
def settingLines (config : ModemConfig) : List Bytes :=
  [ ascii "radio set freq " ++ dec config.frequency.toNat ++ crlf
  , ascii "radio set pwr " ++ dec config.txPower.toInt ++ crlf
  , ascii "radio set sf sf" ++ dec config.datarate.toNat ++ crlf
  , ascii "radio set bw " ++ dec (bandwidthKhz config.bandwidth) ++ crlf ]

/-- A setting fits the buffer of `rn2483_config`. -/
theorem settingLine_whole {name : Bytes} {n : Int} (hname : name.length ≤ 15)
    (hn : n.natAbs < 10 ^ 10) : snprintf 48 (name ++ dec n ++ crlf) = name ++ dec n ++ crlf := by
  have hdec := dec_length_le_succ (by decide) hn
  refine List.take_of_length_le ?_
  simp only [List.length_append, crlf, List.length_cons, List.length_nil]
  omega

/-- `rn2483_config` writes the four settings, and cuts none of them. -/
theorem configCmds_eq (config : ModemConfig) : configCmds config = settingLines config := by
  have hfrequency := config.frequency.toNat_lt
  have hlow := Int8.le_toInt config.txPower
  have hhigh := Int8.toInt_lt config.txPower
  have hdatarate := config.datarate.toNat_lt
  have hbandwidth : bandwidthKhz config.bandwidth ≤ 500 := by
    cases config.bandwidth <;> decide
  rw [configCmds, settingLines, settingLine_whole (by decide) (by omega),
    settingLine_whole (by decide) (by omega), settingLine_whole (by decide) (by omega),
    settingLine_whole (by decide) (by omega)]

/-- A call that returned 0 was answered itself: every command it wrote, and
its transmission. -/
def Return.Paired (r : Return) (s : Sys) : Prop :=
  r.ret = 0 →
    match r.call with
    | .init => True
    | .config config =>
      r.own.map Prod.snd = settingLines config ∧ ∀ c ∈ r.own, (c.1, ok) ∈ s.replied
    | .send payload =>
      ∃ id, r.own = [(id, sendCmd payload)] ∧ (id, ok) ∈ s.replied ∧
        (id, radioTxOk) ∈ s.reported

/-- The report of transmission `id` is outstanding, or is what `stream` holds,
or does not come. -/
def ReportDue (s : Sys) (id : Nat) (resp stream : Bytes) : Prop :=
  (s.owedTx = [id] ∧ stream = [] ∧ resp = []) ∨
  (s.owedTx = [] ∧ ∃ l, (id, l) ∈ s.reported ∧ readLine resp stream = some (l.view, [])) ∨
  (s.owedTx = [] ∧ stream = [])

/-- The reply to command `id` is outstanding, or is what the stream holds in
front of the report. -/
def ReplyDue (s : Sys) (id : Nat) (cmd : Bytes) : Prop :=
  (s.owed = [(id, cmd)] ∧ s.owedTx = [] ∧ s.stream = [] ∧ s.resp = []) ∨
  (s.owed = [] ∧ ∃ l rest, (id, l) ∈ s.replied ∧
    readLine s.resp s.stream = some (l.view, rest) ∧ ReportDue s id [] rest ∧
    (isTx cmd = false → s.owedTx = [] ∧ rest = []))

/-- What holds inside a call, at each place of the driver. -/
def CallInvAt (s : Sys) : Pc → Prop
  | .idle => True
  | .init => s.call = .init
  | .config rest =>
    ∃ config done id cmd, s.call = .config config ∧ s.own = done ++ [(id, cmd)] ∧
      s.own.map Prod.snd ++ rest = configCmds config ∧
      (∀ c ∈ done, (c.1, ok) ∈ s.replied) ∧ ReplyDue s id cmd
  | .sendReply =>
    ∃ payload id, s.call = .send payload ∧ s.own = [(id, sendCmd payload)] ∧
      ReplyDue s id (sendCmd payload)
  | .sendReport =>
    ∃ payload id, s.call = .send payload ∧ s.own = [(id, sendCmd payload)] ∧
      (id, ok) ∈ s.replied ∧ s.owed = [] ∧ ReportDue s id s.resp s.stream

def CallInv (s : Sys) : Prop := CallInvAt s s.pc

/-- The invariant of the runs. -/
structure Inv (s : Sys) : Prop where
  inside : CallInv s
  returned : ∀ r ∈ s.returned, r.Paired s

/-! ## The lines of a call -/

theorem configCmds_not_tx (config : ModemConfig) : ∀ cmd ∈ configCmds config, isTx cmd = false := by
  intro cmd hcmd
  simp only [configCmds, List.mem_cons, List.not_mem_nil, or_false] at hcmd
  rcases hcmd with rfl | rfl | rfl | rfl <;> rfl

/-- What the invariant of a call reads. -/
theorem CallInv.congr {s t : Sys} (h : CallInv s) (hpc : t.pc = s.pc) (hcall : t.call = s.call)
    (hown : t.own = s.own) (howed : t.owed = s.owed) (hTx : t.owedTx = s.owedTx)
    (hstream : t.stream = s.stream) (hresp : t.resp = s.resp) (hreplied : t.replied = s.replied)
    (hreported : t.reported = s.reported) : CallInv t := by
  have hsame : ∀ pc, CallInvAt t pc ↔ CallInvAt s pc := fun pc => by
    cases pc <;>
      simp only [CallInvAt, ReplyDue, ReportDue, hcall, hown, howed, hTx, hstream, hresp,
        hreplied, hreported]
  rw [CallInv, hpc]
  exact (hsame s.pc).mpr h

theorem Return.Paired.mono {r : Return} {s t : Sys} (hreplied : s.replied ⊆ t.replied)
    (hreported : s.reported ⊆ t.reported) (h : r.Paired s) : r.Paired t := by
  intro hret
  have hp := h hret
  cases hc : r.call with
  | init => trivial
  | config config =>
    simp only [hc] at hp
    exact ⟨hp.1, fun c hin => hreplied (hp.2 c hin)⟩
  | send payload =>
    simp only [hc] at hp
    obtain ⟨id, hown, hok, htx⟩ := hp
    exact ⟨id, hown, hreplied hok, hreported htx⟩

/-- A call that returns leaves nothing to keep, but must be paired itself. -/
theorem Inv.finish {s : Sys} (h : ∀ r ∈ s.returned, r.Paired s) {r : Int}
    (hpaired : Return.Paired ⟨s.call, s.own, r⟩ s) : Inv (s.finish r) := by
  refine ⟨trivial, fun q hq => ?_⟩
  rcases List.mem_append.mp hq with hq | hq
  · exact h q hq
  · cases List.mem_singleton.mp hq
    exact hpaired

/-- A call that fails is paired with nothing. -/
theorem Inv.fail {s : Sys} (h : ∀ r ∈ s.returned, r.Paired s) {r : Int} (hr : r ≠ 0) :
    Inv (s.finish r) :=
  Inv.finish h fun h0 => absurd h0 hr

/-- A command written when everything is settled has its reply due. -/
theorem replyDue_command {s : Sys} (h : Settled s) (cmd : Bytes) (pc : Pc) :
    ReplyDue (s.command cmd pc) s.nextId cmd := by
  obtain ⟨hstream, howed, hTx⟩ := h
  exact Or.inl ⟨by simp [Sys.command, howed], hTx, hstream, rfl⟩

/-- The module answers the command whose reply is due. -/
theorem ReplyDue.reply {s : Sys} {id id' : Nat} {cmd cmd' : Bytes} {owed : List (Nat × Bytes)}
    (h : ReplyDue s id cmd) (howed : s.owed = (id', cmd') :: owed) (l : Line) :
    ReplyDue (s.answer id' cmd' owed l) id cmd := by
  rcases h with ⟨howed', hTx, hstream, hresp⟩ | ⟨howed', -⟩
  · rw [howed] at howed'
    cases howed'
    refine Or.inr ⟨rfl, l, [], by simp [Sys.answer], ?_, ?_, ?_⟩
    · have hwire : s.rx ++ (s.wire ++ l.wire) = l.wire ++ [] := by
        rw [← List.append_assoc, ← Sys.stream, hstream, List.nil_append, List.append_nil]
      simp only [Sys.answer, Sys.stream, hresp, hwire]
      exact readLine_wire l []
    · by_cases hacc : isTx cmd ∧ l = ok
      · exact Or.inl ⟨by simp [Sys.answer, if_pos hacc, hTx], rfl, rfl⟩
      · exact Or.inr (Or.inr ⟨by simp [Sys.answer, if_neg hacc, hTx], rfl⟩)
    · intro hcmd
      simp [Sys.answer, hcmd, hTx]
  · rw [howed] at howed'
    cases howed'

/-- The module reports the transmission whose report is due. -/
theorem ReportDue.report {s : Sys} {id id' i : Nat} {resp stream : Bytes}
    (h : ReportDue s id resp stream) (hi : s.owedTx[i]? = some id') (l : Line) :
    ReportDue (s.endTx i id' l) id resp (stream ++ l.wire) ∧ s.owedTx = [id] := by
  rcases h with ⟨hone, hstream, hresp⟩ | ⟨hnil, -⟩ | ⟨hnil, -⟩
  · rw [hone, List.getElem?_singleton] at hi
    split_ifs at hi with h0
    cases hi
    subst h0
    refine ⟨Or.inr (Or.inl ⟨by simp [Sys.endTx, hone], l, by simp [Sys.endTx], ?_⟩), hone⟩
    rw [hstream, hresp, List.nil_append]
    simpa using readLine_wire l []
  · simp [hnil] at hi
  · simp [hnil] at hi

theorem ReplyDue.report {s : Sys} {id id' i : Nat} {cmd : Bytes} (h : ReplyDue s id cmd)
    (hi : s.owedTx[i]? = some id') (l : Line) : ReplyDue (s.endTx i id' l) id cmd := by
  rcases h with ⟨-, hTx, -⟩ | ⟨howed, m, rest, hm, hread, hdue, hcmd⟩
  · simp [hTx] at hi
  · obtain ⟨hdue', hone⟩ := hdue.report hi l
    refine Or.inr ⟨howed, m, rest ++ l.wire, hm, ?_, hdue', fun hc => ?_⟩
    · simpa [Sys.endTx, Sys.stream] using readLine_append l.wire hread
    · have hnil := (hcmd hc).1
      simp [hone] at hnil

/-- The character in front of the stream, when it ends no line. -/
theorem readLine_push {resp stream : Bytes} {c : UInt8} (hc : c ≠ 10) :
    readLine resp (c :: stream) = readLine (pushChar resp c) stream := by
  simp only [readLine, if_neg hc]

/-- The line that a line feed ends is the reply due. -/
theorem ReplyDue.line {s : Sys} {id : Nat} {cmd stream : Bytes} (h : ReplyDue s id cmd)
    (hstream : s.stream = 10 :: stream) :
    s.owed = [] ∧ ∃ l, (id, l) ∈ s.replied ∧ s.resp = l.view ∧ ReportDue s id [] stream ∧
      (isTx cmd = false → s.owedTx = [] ∧ stream = []) := by
  rcases h with ⟨-, -, hnil, -⟩ | ⟨howed, l, rest, hl, hread, hdue, hcmd⟩
  · simp [hstream] at hnil
  · simp only [hstream, readLine, if_true, Option.some.injEq, Prod.mk.injEq] at hread
    obtain ⟨hview, rfl⟩ := hread
    exact ⟨howed, l, hl, hview, hdue, hcmd⟩

/-- The line that a line feed ends is the report due. -/
theorem ReportDue.line {s : Sys} {id : Nat} {resp stream : Bytes}
    (h : ReportDue s id resp (10 :: stream)) : ∃ l, (id, l) ∈ s.reported ∧ resp = l.view := by
  rcases h with ⟨-, hnil, -⟩ | ⟨-, l, hl, hread⟩ | ⟨-, hnil⟩
  · cases hnil
  · simp only [readLine, if_true, Option.some.injEq, Prod.mk.injEq] at hread
    exact ⟨l, hl, hread.1⟩
  · cases hnil

theorem view_eq_ok {l : Line} (h : l.view = ok.val) : l = ok :=
  (view_eq_iff (by decide)).mp h

theorem view_eq_radioTxOk {l : Line} (h : l.view = radioTxOk.val) : l = radioTxOk :=
  (view_eq_iff (by decide)).mp h

/-! ## The steps of the driver -/

/-- A finished line moves the call on. -/
theorem gotLine_inv {s : Sys} {rx : Bytes} (h : Inv s) (hrx : s.rx = 10 :: rx) :
    Inv (s.take rx s.resp).gotLine := by
  have hstream : s.stream = 10 :: (s.take rx s.resp).stream := by
    simp only [Sys.stream, Sys.take, hrx, List.cons_append]
  have hret : ∀ r ∈ (s.take rx s.resp).returned, r.Paired (s.take rx s.resp) := h.returned
  have hinside : CallInvAt s s.pc := h.inside
  have hpc' : (s.take rx s.resp).pc = s.pc := rfl
  have hcall' : (s.take rx s.resp).call = s.call := rfl
  cases hpc : s.pc with
  | idle =>
    rw [hpc] at hpc'
    simp only [Sys.gotLine, hpc']
    exact ⟨by rw [CallInv, hpc']; trivial, hret⟩
  | init =>
    rw [hpc] at hinside hpc'
    simp only [Sys.gotLine, hpc']
    refine Inv.finish hret fun _ => ?_
    rw [hcall', show s.call = .init from hinside]
    trivial
  | config rest =>
    rw [hpc] at hinside hpc'
    obtain ⟨config, done, id, cmd, hcall, hown, hcmds, hdone, hdue⟩ := hinside
    obtain ⟨howed, l, hl, hview, -, hclear⟩ := hdue.line hstream
    have htx : isTx cmd = false :=
      configCmds_not_tx config cmd (by rw [← hcmds, hown]; simp)
    obtain ⟨hTx, hnil⟩ := hclear htx
    simp only [Sys.gotLine, hpc']
    split_ifs with hresp
    · exact Inv.fail hret (r := - EIO) (by decide)
    · have hok : l = ok := view_eq_ok (hview ▸ not_not.mp hresp)
      have hall : ∀ c ∈ s.own, (c.1, ok) ∈ s.replied := by
        intro c hc
        rw [hown, List.mem_append, List.mem_singleton] at hc
        rcases hc with hc | rfl
        · exact hdone c hc
        · exact hok ▸ hl
      cases rest with
      | nil =>
        refine Inv.finish hret fun _ => ?_
        rw [hcall', hcall]
        exact ⟨by rw [← configCmds_eq, ← hcmds, List.append_nil]; rfl, hall⟩
      | cons cmd' rest =>
        have hown' : (s.own ++ [(s.nextId, cmd')]).map Prod.snd ++ rest = configCmds config := by
          rw [← hcmds, List.map_append, List.append_assoc]
          rfl
        exact ⟨⟨config, s.own, s.nextId, cmd', hcall, rfl, hown', hall,
          replyDue_command (s := s.take rx s.resp) ⟨hnil, howed, hTx⟩ cmd' _⟩, hret⟩
  | sendReply =>
    rw [hpc] at hinside hpc'
    obtain ⟨payload, id, hcall, hown, hdue⟩ := hinside
    obtain ⟨howed, l, hl, hview, hreport, -⟩ := hdue.line hstream
    simp only [Sys.gotLine, hpc']
    split_ifs with hresp
    · exact Inv.fail hret (r := - EIO) (by decide)
    · have hok : l = ok := view_eq_ok (hview ▸ not_not.mp hresp)
      exact ⟨⟨payload, id, hcall, hown, hok ▸ hl, howed, hreport⟩, hret⟩
  | sendReport =>
    rw [hpc] at hinside hpc'
    obtain ⟨payload, id, hcall, hown, hok, -, hdue⟩ := hinside
    rw [hstream] at hdue
    obtain ⟨l, hl, hview⟩ := hdue.line
    simp only [Sys.gotLine, hpc']
    split_ifs with hresp
    · have hsent : l = radioTxOk := view_eq_radioTxOk (hview ▸ hresp)
      refine Inv.finish hret fun _ => ?_
      rw [hcall', hcall]
      exact ⟨id, hown, hok, hsent ▸ hl⟩
    · exact Inv.fail hret (r := - EIO) (by decide)

/-- A character in the middle of a line is collected. -/
theorem pushChar_inv {s : Sys} {c : UInt8} {rx : Bytes} (h : Inv s) (hrx : s.rx = c :: rx)
    (hc : c ≠ 10) : Inv (s.take rx (pushChar s.resp c)) := by
  have hstream : s.stream = c :: (rx ++ s.wire) := by rw [Sys.stream, hrx, List.cons_append]
  have hread : ∀ line rest, readLine s.resp s.stream = some (line, rest) →
      readLine (pushChar s.resp c) (rx ++ s.wire) = some (line, rest) := by
    intro line rest hr
    rwa [hstream, readLine_push hc] at hr
  have hreply : ∀ id cmd, ReplyDue s id cmd →
      ReplyDue (s.take rx (pushChar s.resp c)) id cmd := by
    rintro id cmd (⟨-, -, hnil, -⟩ | ⟨howed, l, rest, hl, hr, hdue⟩)
    · simp [hstream] at hnil
    · exact Or.inr ⟨howed, l, rest, hl, hread _ _ hr, hdue⟩
  refine ⟨?_, h.returned⟩
  have hinside : CallInvAt s s.pc := h.inside
  show CallInvAt _ s.pc
  cases hpc : s.pc with
  | idle => trivial
  | init =>
    rw [hpc] at hinside
    exact hinside
  | config rest =>
    rw [hpc] at hinside
    obtain ⟨config, done, id, cmd, hcall, hown, hcmds, hdone, hdue⟩ := hinside
    exact ⟨config, done, id, cmd, hcall, hown, hcmds, hdone, hreply id cmd hdue⟩
  | sendReply =>
    rw [hpc] at hinside
    obtain ⟨payload, id, hcall, hown, hdue⟩ := hinside
    exact ⟨payload, id, hcall, hown, hreply id _ hdue⟩
  | sendReport =>
    rw [hpc] at hinside
    obtain ⟨payload, id, hcall, hown, hok, howed, hdue⟩ := hinside
    refine ⟨payload, id, hcall, hown, hok, howed, ?_⟩
    rcases hdue with ⟨-, hnil, -⟩ | ⟨hTx, l, hl, hr⟩ | ⟨-, hnil⟩
    · simp [hstream] at hnil
    · exact Or.inr (Or.inl ⟨hTx, l, hl, hread _ _ hr⟩)
    · simp [hstream] at hnil

theorem turn_inv {s : Sys} (h : Inv s) : Inv s.turn := by
  unfold Sys.turn
  split_ifs
  · exact Inv.fail h.returned (r := -ETIMEDOUT) (by decide)
  · split
    · exact ⟨h.inside.congr rfl rfl rfl rfl rfl rfl rfl rfl rfl, h.returned⟩
    · rename_i c rx hrx
      split_ifs with hc
      · subst hc
        exact gotLine_inv h hrx
      · exact pushChar_inv h hrx hc

/-- A call of `rn2483_config` or `rn2483_send` that starts with everything
settled, or any call of `rn2483_init`. -/
theorem enter_inv {s : Sys} {c : Call} (h : Inv s) (hok : CallsSettled s (.call c)) :
    Inv (s.enter c) := by
  cases c with
  | init => exact ⟨rfl, h.returned⟩
  | config config =>
    have hset : Settled s := hok
    refine ⟨⟨config, [], s.nextId, _, rfl, rfl, rfl, fun c hc => ?_, ?_⟩, h.returned⟩
    · cases hc
    · exact replyDue_command (s := { s with call := .config config, own := [] }) hset _ _
  | send payload =>
    have hset : Settled s := hok
    simp only [Sys.enter]
    split_ifs
    · exact Inv.fail (s := { s with call := .send payload, own := [] }) h.returned (by decide)
    · exact ⟨⟨payload, s.nextId, rfl, rfl,
        replyDue_command (s := { s with call := .send payload, own := [] }) hset _ _⟩, h.returned⟩

/-! ## The steps of the module -/

theorem reply_inv {s : Sys} {id : Nat} {cmd : Bytes} {owed : List (Nat × Bytes)} {l : Line}
    (h : Inv s) (howed : s.owed = (id, cmd) :: owed) :
    Inv (s.answer id cmd owed l) := by
  have hsub : s.replied ⊆ (s.answer id cmd owed l).replied := List.subset_append_left _ _
  have hreported : s.reported ⊆ (s.answer id cmd owed l).reported := List.Subset.refl _
  refine ⟨?_, fun r hr => (h.returned r hr).mono hsub hreported⟩
  have hinside : CallInvAt s s.pc := h.inside
  show CallInvAt _ s.pc
  cases hpc : s.pc with
  | idle => trivial
  | init =>
    rw [hpc] at hinside
    exact hinside
  | config rest =>
    rw [hpc] at hinside
    obtain ⟨config, done, id', cmd', hcall, hown, hcmds, hdone, hdue⟩ := hinside
    exact ⟨config, done, id', cmd', hcall, hown, hcmds, fun c hc => hsub (hdone c hc),
      hdue.reply howed l⟩
  | sendReply =>
    rw [hpc] at hinside
    obtain ⟨payload, id', hcall, hown, hdue⟩ := hinside
    exact ⟨payload, id', hcall, hown, hdue.reply howed l⟩
  | sendReport =>
    rw [hpc] at hinside
    obtain ⟨-, -, -, -, -, hnil, -⟩ := hinside
    simp [howed] at hnil

theorem report_inv {s : Sys} {id i : Nat} {l : Line} (h : Inv s) (hi : s.owedTx[i]? = some id) :
    Inv (s.endTx i id l) := by
  have hreplied : s.replied ⊆ (s.endTx i id l).replied := List.Subset.refl _
  have hsub : s.reported ⊆ (s.endTx i id l).reported := List.subset_append_left _ _
  refine ⟨?_, fun r hr => (h.returned r hr).mono hreplied hsub⟩
  have hinside : CallInvAt s s.pc := h.inside
  show CallInvAt _ s.pc
  cases hpc : s.pc with
  | idle => trivial
  | init =>
    rw [hpc] at hinside
    exact hinside
  | config rest =>
    rw [hpc] at hinside
    obtain ⟨config, done, id', cmd', hcall, hown, hcmds, hdone, hdue⟩ := hinside
    exact ⟨config, done, id', cmd', hcall, hown, hcmds, hdone, hdue.report hi l⟩
  | sendReply =>
    rw [hpc] at hinside
    obtain ⟨payload, id', hcall, hown, hdue⟩ := hinside
    exact ⟨payload, id', hcall, hown, hdue.report hi l⟩
  | sendReport =>
    rw [hpc] at hinside
    obtain ⟨payload, id', hcall, hown, hok, howed, hdue⟩ := hinside
    refine ⟨payload, id', hcall, hown, hok, howed, ?_⟩
    have hstream : (s.endTx i id l).stream = s.stream ++ l.wire := by simp [Sys.endTx, Sys.stream]
    rw [hstream]
    exact (hdue.report hi l).1

/-! ## The run law -/

/-- Every step keeps the invariant. -/
theorem next_inv {s t : Sys} {l : Label} (h : Inv s) (hok : CallsSettled s l)
    (hnext : s.next l = some t) : Inv t := by
  cases moves_of_next hnext with
  | call c hpc => exact enter_inv h hok
  | turn hpc => exact turn_inv h
  | tick ms => exact ⟨h.inside.congr rfl rfl rfl rfl rfl rfl rfl rfl rfl, h.returned⟩
  | reply l howed => exact reply_inv h howed
  | report sent hi => exact report_inv h hi
  | arrive hwire =>
    refine ⟨h.inside.congr rfl rfl rfl rfl rfl ?_ rfl rfl rfl, h.returned⟩
    simp [Sys.stream, hwire]

theorem boot_inv (banner : Bytes) : Inv (Sys.boot banner) :=
  ⟨trivial, fun _ hr => by cases hr⟩

/-- In every run that calls `rn2483_config` and `rn2483_send` only when no
line of an earlier command is outstanding, a call that returned 0 was answered
`ok` to each of its own commands, and a send was reported `radio_tx_ok` for
its own transmission. -/
theorem calls_paired {s : Sys} (h : rn2483.Reach CallsSettled s) :
    ∀ r ∈ s.returned, r.Paired s :=
  (h.invariant (I := Inv) (fun _ ⟨banner, hs⟩ => hs ▸ boot_inv banner)
    fun _ _ _ _ hs hok hnext => next_inv hs hok hnext).returned

/-- A send whose reply and report come in time. -/
def sentInTime : List Label :=
  .reply ok :: List.replicate 4 .arrive ++ List.replicate 4 .turn ++
    .report 0 true :: List.replicate 13 .arrive ++ List.replicate 13 .turn

/-- A send of one byte returns 0, and was answered. -/
theorem calls_paired_sent :
    ∃ s, rn2483.exec (Sys.boot []) (.call (.send [65]) :: sentInTime) = some s ∧
      s.returned = [⟨.send [65], [(0, sendCmd [65])], 0⟩] ∧ ∀ r ∈ s.returned, r.Paired s := by
  have hcall : rn2483.Reach CallsSettled ((Sys.boot []).enter (.send [65])) :=
    .step (.init ⟨[], rfl⟩) (l := .call (.send [65])) ⟨rfl, rfl, rfl⟩ rfl
  have hrest : ∀ l ∈ sentInTime, ∀ s, CallsSettled s l := by
    intro l hl s
    have hcases : l ∈ [.reply ok, .arrive, .turn, .report 0 true] :=
      (by decide : ∀ l ∈ sentInTime, l ∈ [.reply ok, .arrive, .turn, .report 0 true]) l hl
    simp only [List.mem_cons, List.not_mem_nil, or_false] at hcases
    rcases hcases with rfl | rfl | rfl | rfl <;> trivial
  have hret : (rn2483.exec ((Sys.boot []).enter (.send [65])) sentInTime).map Sys.returned =
      some [⟨.send [65], [(0, sendCmd [65])], 0⟩] := by decide +kernel
  obtain ⟨s, hs, hret⟩ := Option.map_eq_some_iff.mp hret
  exact ⟨s, (Machine.exec_cons rfl _).trans hs, hret,
    calls_paired (Machine.Reach.exec hcall hrest hs)⟩

/-- The first send times out and its `ok` comes late.  The second send takes
it, and the first transmission's report, for its own. -/
def lateReply : List Label :=
  [.call (.send [65]), .tick 2000, .turn, .reply ok] ++ List.replicate 4 .arrive ++
    .call (.send [66]) :: List.replicate 4 .turn ++
    .report 0 true :: List.replicate 13 .arrive ++ List.replicate 13 .turn

/-- A send can return 0 though the module never answered its command. -/
theorem late_reply_mispaired :
    ¬ ∀ s, rn2483.Reachable s → ∀ r ∈ s.returned, r.Paired s := by
  intro h
  have hrun : (rn2483.exec (Sys.boot []) lateReply).map (fun s => (s.returned, s.replied)) =
      some ([⟨.send [65], [(0, sendCmd [65])], -ETIMEDOUT⟩, ⟨.send [66], [(1, sendCmd [66])], 0⟩],
        [(0, ok)]) := by decide +kernel
  obtain ⟨s, hs, hlists⟩ := Option.map_eq_some_iff.mp hrun
  obtain ⟨hret, hreplied⟩ := Prod.mk.inj hlists
  have hpaired := h s (Machine.Reachable.exec (.init ⟨[], rfl⟩) hs)
    ⟨.send [66], [(1, sendCmd [66])], 0⟩ (by simp [hret]) rfl
  obtain ⟨id, hown, hin, -⟩ := hpaired
  rw [hreplied, List.mem_singleton] at hin
  cases hin
  cases hown

end Winegrid.Rn2483
