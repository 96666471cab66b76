import Winegrid.Sx12xx.Steps

/-!
# The phases of an operation

The comments of `sx12xx_ev_rx_done` promise that the signal and the pointers
that it uses are valid.  That holds for orderly runs: one call is in progress
at a time, the events fit what the radio does, and the handler is preempted
in its release only.

* `Orderly`: these conditions.
* `Phase`: what `dev_data`, the handler and the call in progress are together.
* `phase_call`, `phase_run`, `phase_expire`, `phase_event` and `phase_handle`:
  every kind of step goes from a phase to a phase.
-/

namespace Winegrid.Sx12xx

universe u

/-! ## Orderly runs -/

/-- What the radio does when it raises an event. -/
def Event.fits : Event → Radio → Bool
  | .rxDone _, .rx | .txDone, .tx | .txTimedOut, .continuousWave => true
  | _, _ => false

def Act.isCallback : Act → Bool
  | .callback _ => true
  | _ => false

/-- The handler up to its compare-and-swap, and its asynchronous part. -/
def Handler.atomic : Handler → Bool
  | .idle => false
  | .entered .. | .swap .. => true
  | .run todo => todo.any Act.isCallback

/-- One call at a time, a handler that is not preempted while it is atomic, and
events that fit the radio. -/
def Orderly {T : Type u} (s : State T) : Label T → Prop
  | .call _ _ => ∀ t, s.pc t = .idle
  | .run _ => s.handler.atomic = false
  | .event e => e.fits s.shared.radio = true
  | .expire _ | .handle => True

/-! ## Operations -/

/-- What holds the modem after the set-up of a call. -/
inductive Operation where
  | transmit (sig : Option Signal)
  | receive (f : Frame) (rssi snr : Bool)
  | listen (cb : Nat)
  | wave

def Operation.radio : Operation → Radio
  | .transmit _ => .tx
  | .receive .. | .listen _ => .rx
  | .wave => .continuousWave

def Operation.signal : Operation → Option Signal
  | .transmit sig => sig
  | .receive f _ _ => some (.done f)
  | .listen _ | .wave => none

/-- An operation that no call waits for. -/
def Operation.Detached : Operation → Prop
  | .transmit sig => sig = none ∨ ∃ id, sig = some (.async id)
  | .receive .. => False
  | .listen _ | .wave => True

/-- Where the handler of the operation looks. -/
def Operation.Ready (d : Shared) : Operation → Prop
  | .receive f rssi snr => d.asyncRxCb = none ∧ d.rxParams = some ⟨f, rssi, snr⟩
  | .listen cb => d.asyncRxCb = some cb
  | .transmit _ | .wave => True

structure Running (d : Shared) (o : Operation) : Prop where
  radio : d.radio = o.radio
  signal : d.operationDone = o.signal
  ready : o.Ready d

/-- The radio sleeps, and no signal is stored. -/
structure Asleep (d : Shared) : Prop where
  radio : d.radio = .sleep
  signal : d.operationDone = none

def Call.operation (f : Frame) : Call → Option Operation
  | .send => some (.transmit (some (.done f)))
  | .sendAsync async => some (.transmit (async.map .async))
  | .recv _ rssi snr => some (.receive f rssi snr)
  | .recvAsync cb => some (.listen cb)
  | .testCw => some .wave
  | .cancel | .config .. => none

/-- What the set-up of a call leads to. -/
def Call.Configures (f : Frame) (c : Call) (d : Shared) : Prop :=
  match c.operation f with
  | some o => Running d o
  | none => Asleep d

/-! ## Deliveries -/

/-- What was written into a frame. -/
def Shared.deliveriesTo (d : Shared) (f : Frame) : List Delivery :=
  d.delivered.filterMap (Option.filter fun x => x.frame = f)

/-- No handler used the signal or the buffers of a frame. -/
structure Untouched (d : Shared) (f : Frame) : Prop where
  raised : some (.done f) ∉ d.raised
  delivered : d.deliveriesTo f = []

/-- What the handler leaves in the frame of a blocking call. -/
def Call.Outcome (d : Shared) (f : Frame) : Call → Prop
  | .recv .. => ∃ x, d.deliveriesTo f = [x] ∧ x.data.length = d.size f
  | _ => d.deliveriesTo f = []

/-- A size is the length of the one packet that was delivered, and with any
other result nothing was. -/
def Result.Truthful (d : Shared) (f : Frame) : Result → Prop
  | .size n => ∃ x, d.deliveriesTo f = [x] ∧ x.data.length = n
  | .ok | .busy | .invalid | .again => d.deliveriesTo f = []

/-! ## Phases -/

def Pc.frame : Pc → Option Frame
  | .idle => none
  | .acquire _ f | .setup _ f _ | .poll _ f | .tryRelease _ f | .release _ f _ | .wait _ f => some f

/-- A thread whose signal may be raised. -/
inductive Pc.Awaits (c : Call) (f : Frame) : Pc → Prop where
  | setup : Awaits c f (.setup c f [])
  | poll : Awaits c f (.poll c f)
  | tryRelease : Awaits c f (.tryRelease c f)
  | wait : Awaits c f (.wait c f)

/-- A thread that neither holds the modem nor waits for its signal. -/
inductive Pc.Quiet : Pc → Prop where
  | idle : Quiet .idle
  | acquire (c : Call) (f : Frame) (hcancel : c ≠ .cancel) : Quiet (.acquire c f)
  | cancel (f : Frame) : Quiet (.tryRelease .cancel f)
  | started (c : Call) (f : Frame) (hblocks : c.blocks = false)
    (hconfig : ∀ tx frequency, c ≠ .config tx frequency) : Quiet (.setup c f [])
  | released (c : Call) (f : Frame) : Quiet (.release c f [])

/-- The handler is not there, or has a signal left that no call waits for. -/
inductive Handler.Rests : Handler → Prop where
  | idle : Rests .idle
  | raise (id : Nat) : Rests (.run [.raise (some (.async id))])

/-- The handler in its asynchronous part. -/
inductive Handler.Async (d : Shared) : Handler → Prop where
  | rx (p : Packet) (hcb : d.asyncRxCb ≠ none) : Async d (.run (asyncRxActs p))
  | callback (p : Packet) (hcb : d.asyncRxCb ≠ none) : Async d (.run [.callback p])

/-- The handler while an operation runs. -/
inductive Operation.Handles (d : Shared) (o : Operation) : Handler → Prop where
  | rests (h : Handler) (hrests : h.Rests) : Handles d o h
  | entered (e : Event) (hfits : e.fits o.radio = true) : Handles d o (.entered e o.signal)
  | swap (p : Packet) (f : Frame) (rssi snr : Bool) (ho : o = .receive f rssi snr) :
    Handles d o (.swap p o.signal)
  | async (h : Handler) (cb : Nat) (ho : o = .listen cb) (hasync : h.Async d) : Handles d o h

/-- The handler while a thread releases the modem: it came too late. -/
inductive Handler.Late (d : Shared) (acts : List Act) : Handler → Prop where
  | rests (h : Handler) (hrests : h.Rests) : Late d acts h
  | entered (e : Event) (sig : Option Signal) (hacts : acts = releaseActs) :
    Late d acts (.entered e sig)
  | swap (p : Packet) (sig : Option Signal) (hacts : acts = releaseActs) : Late d acts (.swap p sig)
  | async (h : Handler) (hacts : acts = releaseActs) (hasync : h.Async d) : Late d acts h

/-- How far a release is. -/
inductive Releasing (d : Shared) : List Act → Prop where
  | sleep : Releasing d releaseActs
  | unset (hradio : d.radio = .sleep) : Releasing d [.setOperationDone none, .clear]
  | clear (hasleep : Asleep d) : Releasing d [.clear]

/-- The accesses of a set-up: they lead to the operation, the radio is started
last, and they touch neither a frame nor `modem_usage`. -/
structure Prepares (c : Call) (f : Frame) (d : Shared) (todo : List Act) : Prop where
  leads : c.Configures f (todo.foldl Act.run d)
  last : ∀ r, .radio r ∉ todo.dropLast
  suffix : todo <:+ setup f c

/-- `dev_data`, the handler, and the place of the call in progress. -/
inductive Phase (d : Shared) (h : Handler) : Pc → Prop where
  | free (pc : Pc) (hfree : d.usage = .free) (hasleep : Asleep d) (hrests : h.Rests)
    (hquiet : pc.Quiet) (hnew : ∀ f, pc.frame = some f → Untouched d f) : Phase d h pc
  | setup (c : Call) (f : Frame) (a : Act) (todo : List Act) (hbusy : d.usage = .busy)
    (hsleep : d.radio = .sleep) (hrests : h.Rests) (hprepares : Prepares c f d (a :: todo))
    (hnew : Untouched d f) : Phase d h (.setup c f (a :: todo))
  | configured (tx : Bool) (frequency : Nat) (f : Frame) (pc : Pc) (hbusy : d.usage = .busy)
    (hasleep : Asleep d) (hrests : h.Rests)
    (hpc : pc = .setup (.config tx frequency) f [] ∨ pc = .tryRelease (.config tx frequency) f)
    (hnew : Untouched d f) : Phase d h pc
  | awaited (c : Call) (f : Frame) (pc : Pc) (o : Operation) (hblocks : c.blocks = true)
    (hawaits : pc.Awaits c f) (hwait : pc ≠ .wait c f) (ho : c.operation f = some o)
    (hbusy : d.usage = .busy) (hrunning : Running d o) (hhandles : o.Handles d h)
    (hnew : Untouched d f) : Phase d h pc
  | detached (pc : Pc) (o : Operation) (hquiet : pc.Quiet) (ho : o.Detached)
    (hbusy : d.usage = .busy) (hrunning : Running d o) (hhandles : o.Handles d h)
    (hnew : ∀ f, pc.frame = some f → Untouched d f) : Phase d h pc
  | cleaning (c : Call) (f : Frame) (acts : List Act) (hcleanup : d.usage = .cleanup)
    (hreleasing : Releasing d acts) (hlate : h.Late d acts) (hnew : Untouched d f) :
    Phase d h (.release c f acts)
  | delivering (size : Nat) (rssi snr : Bool) (f : Frame) (pc : Pc) (p : Packet)
    (hawaits : pc.Awaits (.recv size rssi snr) f) (hcleanup : d.usage = .cleanup)
    (hh : h = .run (rxDoneActs p (some (.done f))))
    (hparams : d.rxParams = some ⟨f, rssi, snr⟩) (hnew : Untouched d f) : Phase d h pc
  | completing (c : Call) (f : Frame) (pc : Pc) (acts : List Act) (hblocks : c.blocks = true)
    (hawaits : pc.Awaits c f) (hcleanup : d.usage = .cleanup) (hreleasing : Releasing d acts)
    (hh : h = .run (acts ++ [.raise (some (.done f))])) (hraised : some (.done f) ∉ d.raised)
    (houtcome : c.Outcome d f) : Phase d h pc
  | raising (c : Call) (f : Frame) (pc : Pc) (hblocks : c.blocks = true)
    (hawaits : pc.Awaits c f) (hfree : d.usage = .free) (hasleep : Asleep d)
    (hh : h = .run [.raise (some (.done f))]) (hraised : some (.done f) ∉ d.raised)
    (houtcome : c.Outcome d f) : Phase d h pc
  | raised (c : Call) (f : Frame) (pc : Pc) (hblocks : c.blocks = true)
    (hawaits : pc.Awaits c f) (hfree : d.usage = .free) (hasleep : Asleep d) (hrests : h.Rests)
    (hraised : some (.done f) ∈ d.raised) (houtcome : c.Outcome d f) : Phase d h pc
  | ending (pc : Pc) (acts after : List Act) (hquiet : pc.Quiet) (hcleanup : d.usage = .cleanup)
    (hreleasing : Releasing d acts) (hh : h = .run (acts ++ after))
    (hafter : after = [] ∨ ∃ id, after = [.raise (some (.async id))])
    (hnew : ∀ f, pc.frame = some f → Untouched d f) : Phase d h pc

variable {d d' : Shared} {h h' : Handler} {pc pc' : Pc} {f : Frame} {c : Call}
  {r : Option (Frame × Result)} {o : Operation}

/-! ## What the steps leave alone -/

/-- No frame, signal or callback was used. -/
structure SameFrames (d d' : Shared) : Prop where
  raised : d'.raised = d.raised
  delivered : d'.delivered = d.delivered
  callbacks : d'.callbacks = d.callbacks

theorem SameFrames.refl (d : Shared) : SameFrames d d := ⟨rfl, rfl, rfl⟩

theorem SameFrames.deliveriesTo (hsame : SameFrames d d') (f : Frame) :
    d'.deliveriesTo f = d.deliveriesTo f := by
  rw [Shared.deliveriesTo, hsame.delivered]
  rfl

theorem SameFrames.untouched (hsame : SameFrames d d') (hnew : Untouched d f) :
    Untouched d' f :=
  ⟨hsame.raised ▸ hnew.raised, (hsame.deliveriesTo f).trans hnew.delivered⟩

/-- The accesses that only write to `dev_data` and the radio. -/
def Act.isLocal : Act → Bool
  | .setAsyncRxCb _ | .setOperationDone _ | .setRxParams _ | .settings | .radio _
  | .setTxConfig _ => true
  | .clear | .deliver _ | .callback _ | .raise _ => false

theorem run_local {a : Act} (ha : a.isLocal = true) :
    SameFrames d (a.run d) ∧ (a.run d).usage = d.usage := by
  cases a <;> first | exact ⟨⟨rfl, rfl, rfl⟩, rfl⟩ | cases ha

theorem run_radio {a : Act} (ha : ∀ r, a ≠ .radio r) (hlocal : a.isLocal = true) :
    (a.run d).radio = d.radio := by
  cases a with
  | radio r => exact absurd rfl (ha r)
  | clear | deliver _ | callback _ | raise _ => cases hlocal
  | setAsyncRxCb _ | setOperationDone _ | setRxParams _ | settings | setTxConfig _ => rfl

/-- What a set-up reads and writes. -/
def Shared.core (d : Shared) : Radio × Option Signal × Option Nat × Option RxParams :=
  (d.radio, d.operationDone, d.asyncRxCb, d.rxParams)

theorem run_core (a : Act) (hcore : d'.core = d.core) : (a.run d').core = (a.run d).core := by
  simp only [Shared.core, Prod.mk.injEq] at hcore ⊢
  obtain ⟨hradio, hsignal, hcb, hparams⟩ := hcore
  cases a with
  | deliver p =>
    simp only [Act.run, Shared.deliver, hparams]
    split <;> exact ⟨hradio, hsignal, hcb, rfl⟩
  | setAsyncRxCb _ | setOperationDone _ | setRxParams _ | settings | radio _ | setTxConfig _
  | clear | callback _ | raise _ => simp [Act.run, hradio, hsignal, hcb, hparams]

theorem foldl_core (todo : List Act) (hcore : d'.core = d.core) :
    (todo.foldl Act.run d').core = (todo.foldl Act.run d).core := by
  induction todo generalizing d d' with
  | nil => exact hcore
  | cons a todo ih => exact ih (run_core a hcore)

theorem ready_core (hcore : d'.core = d.core) (hready : o.Ready d) : o.Ready d' := by
  simp only [Shared.core, Prod.mk.injEq] at hcore
  obtain ⟨-, -, hcb, hparams⟩ := hcore
  cases o with
  | receive f rssi snr => exact ⟨hcb.trans hready.1, hparams.trans hready.2⟩
  | listen cb => exact hcb.trans hready
  | transmit _ | wave => trivial

theorem running_core (hcore : d'.core = d.core) (hrunning : Running d o) : Running d' o := by
  have hready := ready_core hcore hrunning.ready
  simp only [Shared.core, Prod.mk.injEq] at hcore
  exact ⟨hcore.1.trans hrunning.radio, hcore.2.1.trans hrunning.signal, hready⟩

theorem asleep_core (hcore : d'.core = d.core) (hasleep : Asleep d) : Asleep d' := by
  simp only [Shared.core, Prod.mk.injEq] at hcore
  exact ⟨hcore.1.trans hasleep.radio, hcore.2.1.trans hasleep.signal⟩

theorem configures_core (hcore : d'.core = d.core) (h : c.Configures f d) :
    c.Configures f d' := by
  unfold Call.Configures at h ⊢
  cases ho : c.operation f with
  | none =>
    rw [ho] at h
    exact asleep_core hcore h
  | some o =>
    rw [ho] at h
    exact running_core hcore h

theorem Prepares.core {todo : List Act} (hcore : d'.core = d.core)
    (hprepares : Prepares c f d todo) : Prepares c f d' todo :=
  ⟨configures_core (foldl_core todo hcore) hprepares.leads, hprepares.last, hprepares.suffix⟩

/-! ## The set-up -/

theorem setup_local (f : Frame) (c : Call) : ∀ a ∈ setup f c, a.isLocal = true := by
  cases c with
  | config tx frequency => cases tx <;> simp [setup, Act.isLocal]
  | send | sendAsync _ | recv _ _ _ | recvAsync _ | cancel | testCw => simp [setup, Act.isLocal]

/-- A set-up from the sleeping radio. -/
theorem prepares_setup (f : Frame) (c : Call) (hasleep : Asleep d) :
    Prepares c f d (setup f c) := by
  refine ⟨?_, ?_, List.suffix_rfl⟩
  · have hsignal := hasleep.signal
    cases c with
    | config tx frequency =>
      cases tx <;> exact ⟨hasleep.radio, hasleep.signal⟩
    | cancel => exact hasleep
    | send | sendAsync async => exact ⟨rfl, rfl, trivial⟩
    | recv size rssi snr => exact ⟨rfl, rfl, rfl, rfl⟩
    | recvAsync cb => exact ⟨rfl, hsignal, rfl⟩
    | testCw => exact ⟨rfl, hsignal, trivial⟩
  · intro r
    cases c with
    | config tx frequency => cases tx <;> simp [setup]
    | send | sendAsync _ | recv _ _ _ | recvAsync _ | cancel | testCw => simp [setup]

theorem Prepares.tail {a : Act} {todo : List Act} (hprepares : Prepares c f d (a :: todo)) :
    Prepares c f (a.run d) todo := by
  refine ⟨hprepares.leads, fun r hr => ?_, (List.suffix_cons a todo).trans hprepares.suffix⟩
  cases todo with
  | nil => cases hr
  | cons b todo => exact hprepares.last r (List.mem_cons_of_mem _ hr)

theorem Prepares.isLocal {a : Act} {todo : List Act} (hprepares : Prepares c f d (a :: todo)) :
    a.isLocal = true :=
  setup_local f c a (hprepares.suffix.subset List.mem_cons_self)

/-- Before the last access of a set-up the radio sleeps. -/
theorem Prepares.sleeps {a b : Act} {todo : List Act} (hsleep : d.radio = .sleep)
    (hprepares : Prepares c f d (a :: b :: todo)) : (a.run d).radio = .sleep := by
  rw [run_radio (fun r ha => ?_) hprepares.isLocal, hsleep]
  exact hprepares.last r (ha ▸ List.mem_cons_self)

/-! ## Moves of the call in progress -/

/-- A quiet thread gets the modem, or takes it away, or its call returns. -/
theorem quiet_moves (hquiet : pc.Quiet) (hmove : pc.Moves d d' pc' r) :
    (∃ c f, pc = .acquire c f ∧ c ≠ .cancel ∧ d.usage = .free ∧ d' = { d with usage := .busy } ∧
      pc' = .setup c f (setup f c) ∧ r = none) ∨
    (∃ f, pc = .tryRelease .cancel f ∧ d.usage = .busy ∧ d' = { d with usage := .cleanup } ∧
      pc' = .release .cancel f releaseActs ∧ r = none) ∨
    (∃ f q, pc.frame = some f ∧ d' = d ∧ pc' = .idle ∧ r = some (f, q) ∧ q.plain = true) := by
  cases hquiet with
  | idle => cases hmove with | signalled _ _ _ _ hpc => simp at hpc
  | acquire c f hcancel =>
    cases hmove with
    | acquires _ _ hfree => exact Or.inl ⟨c, f, rfl, hcancel, hfree, rfl, rfl, rfl⟩
    | busy _ _ hfree => exact Or.inr (Or.inr ⟨f, _, rfl, rfl, rfl, rfl, rfl⟩)
    | signalled _ _ _ _ hpc => simp at hpc
  | cancel f =>
    cases hmove with
    | wins _ _ hbusy => exact Or.inr (Or.inl ⟨f, rfl, hbusy, rfl, rfl, rfl⟩)
    | waits _ _ _ hblocks => cases hblocks
    | loses _ _ _ _ _ hr => exact Or.inr (Or.inr ⟨f, _, rfl, rfl, rfl, rfl, hr⟩)
    | signalled _ _ _ _ hpc => simp at hpc
  | started c f hblocks hconfig =>
    cases hmove with
    | polls _ _ hblocks' =>
      rw [hblocks] at hblocks'
      cases hblocks'
    | configured tx frequency _ => exact absurd rfl (hconfig tx frequency)
    | started _ _ _ _ => exact Or.inr (Or.inr ⟨f, _, rfl, rfl, rfl, rfl, rfl⟩)
    | signalled _ _ _ _ hpc => simp at hpc
  | released c f =>
    cases hmove with
    | released _ _ _ hr => exact Or.inr (Or.inr ⟨f, _, rfl, rfl, rfl, rfl, hr⟩)
    | signalled _ _ _ _ hpc => simp at hpc

/-- A thread whose signal may be raised goes on waiting, or takes the modem
back, or returns with the signal. -/
theorem awaits_moves (hblocks : c.blocks = true) (hawaits : pc.Awaits c f)
    (hmove : pc.Moves d d' pc' r) :
    (d' = d ∧ pc'.Awaits c f ∧ r = none ∧ (pc' = .wait c f → d.usage ≠ .busy)) ∨
    (pc = .tryRelease c f ∧ d.usage = .busy ∧ d' = { d with usage := .cleanup } ∧
      pc' = .release c f releaseActs ∧ r = none) ∨
    (some (.done f) ∈ d.raised ∧ d' = d ∧ pc' = .idle ∧
      ∃ q, r = some (f, q) ∧ c.Answers d f q) := by
  cases hawaits with
  | setup =>
    cases hmove with
    | polls _ _ _ => exact Or.inl ⟨rfl, .poll, rfl, by simp⟩
    | configured _ _ _ => cases hblocks
    | started _ _ hblocks' _ =>
      rw [hblocks] at hblocks'
      cases hblocks'
    | signalled _ _ _ _ hpc => simp at hpc
  | poll =>
    cases hmove with
    | signalled _ _ _ q hpc hraised hr =>
      simp only [Pc.poll.injEq, reduceCtorEq, or_false] at hpc
      obtain ⟨rfl, rfl⟩ := hpc
      exact Or.inr (Or.inr ⟨hraised, rfl, rfl, q, rfl, hr⟩)
  | tryRelease =>
    cases hmove with
    | wins _ _ hbusy => exact Or.inr (Or.inl ⟨rfl, hbusy, rfl, rfl, rfl⟩)
    | waits _ _ hbusy _ => exact Or.inl ⟨rfl, .wait, rfl, fun _ => hbusy⟩
    | loses _ _ _ _ hblocks' _ =>
      rw [hblocks] at hblocks'
      cases hblocks'
    | signalled _ _ _ _ hpc => simp at hpc
  | wait =>
    cases hmove with
    | signalled _ _ _ q hpc hraised hr =>
      simp only [Pc.wait.injEq, reduceCtorEq, false_or] at hpc
      obtain ⟨rfl, rfl⟩ := hpc
      exact Or.inr (Or.inr ⟨hraised, rfl, rfl, q, rfl, hr⟩)

end Winegrid.Sx12xx
