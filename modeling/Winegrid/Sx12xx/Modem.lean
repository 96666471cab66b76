import Winegrid.Lib.CString
import Winegrid.Lib.Machine
import Mathlib.Logic.Function.Basic

/-!
# The common part of the SX12xx drivers

Threads call the LoRa API of `sx12xx_common.c`, and the radio interrupts them:
every handler of `dev_data.events` runs in one work queue.  The model takes one
access to `dev_data` or to the radio at a time, so the threads and the handler
can be interleaved between any two of them.

* `Act` is one access, and `setup`, `releaseActs` and `rxDoneActs` are the
  accesses of the source in their order.
* `Pc` says where a call of the API is, and `Handler` where the handler is.
* `modem` is the machine.
-/

namespace Winegrid.Sx12xx

universe u

/-! ## Data -/

/-- `modem_usage`: `STATE_FREE`, `STATE_BUSY` and `STATE_CLEANUP`. -/
inductive Usage where
  | free
  | busy
  | cleanup
  deriving DecidableEq

/-- What the radio was told to do last. -/
inductive Radio where
  | sleep
  | rx
  | tx
  | continuousWave
  deriving DecidableEq

/-- The stack frame of one call of the API. -/
abbrev Frame := Nat

/-- The local signal `done` of a blocking call, or one that the caller of
`send_async` owns. -/
inductive Signal where
  | done (f : Frame)
  | async (id : Nat)
  deriving DecidableEq

/-- The arguments of `sx12xx_ev_rx_done`. -/
structure Packet where
  payload : Bytes
  rssi : Int
  snr : Int
  deriving DecidableEq

/-- `struct sx12xx_rx_params`: `buf` and `size` point into a frame, `rssi` and
`snr` may be null. -/
structure RxParams where
  frame : Frame
  rssi : Bool
  snr : Bool
  deriving DecidableEq

/-- What was written through `rx_params`. -/
structure Delivery where
  frame : Frame
  data : Bytes
  rssi : Option Int
  snr : Option Int
  deriving DecidableEq

/-- The calls of the API.  `cancel` is `recv_async` without a callback. -/
inductive Call where
  | send
  | sendAsync (async : Option Nat)
  | recv (size : Nat) (rssi snr : Bool)
  | recvAsync (cb : Nat)
  | cancel
  | config (tx : Bool) (frequency : Nat)
  | testCw
  deriving DecidableEq

/-- `0`, the size of `recv`, `-EBUSY`, `-EINVAL` and `-EAGAIN`. -/
inductive Result where
  | ok
  | size (n : Nat)
  | busy
  | invalid
  | again
  deriving DecidableEq

/-- `dev_data`, the radio, and what the frames of the callers hold. -/
structure Shared where
  usage : Usage
  operationDone : Option Signal
  asyncRxCb : Option Nat
  rxParams : Option RxParams
  txFrequency : Nat
  radio : Radio
  /-- The variable `size` of a frame. -/
  size : Frame → Nat
  /-- The pointers that `k_poll_signal_raise` was called with. -/
  raised : List (Option Signal)
  /-- What was written, `none` where `rx_params` was still null. -/
  delivered : List (Option Delivery)
  /-- The pointers that were called. -/
  callbacks : List (Option Nat × Packet)

/-! ## Accesses -/

inductive Act where
  | setAsyncRxCb (cb : Option Nat)
  | setOperationDone (s : Option Signal)
  | setRxParams (p : RxParams)
  /-- `SetMaxPayloadLength`, `SetChannel` and the other settings. -/
  | settings
  | radio (r : Radio)
  | setTxConfig (frequency : Nat)
  /-- `atomic_clear(&modem_usage)`. -/
  | clear
  | deliver (p : Packet)
  | callback (p : Packet)
  | raise (s : Option Signal)
  deriving DecidableEq

/-- `sx12xx_ev_rx_done`, where it writes to the output of `recv`. -/
def Shared.deliver (s : Shared) (p : Packet) : Shared :=
  match s.rxParams with
  | none => { s with delivered := s.delivered ++ [none] }
  | some r =>
    let size := if p.payload.length < s.size r.frame then p.payload.length else s.size r.frame
    { s with
      size := Function.update s.size r.frame size
      delivered := s.delivered ++ [some ⟨r.frame, p.payload.take size,
        if r.rssi then some p.rssi else none, if r.snr then some p.snr else none⟩] }

def Act.run (s : Shared) : Act → Shared
  | setAsyncRxCb cb => { s with asyncRxCb := cb }
  | setOperationDone sig => { s with operationDone := sig }
  | setRxParams p => { s with rxParams := some p }
  | settings => s
  | radio r => { s with radio := r }
  | setTxConfig frequency => { s with txFrequency := frequency }
  | clear => { s with usage := .free }
  | deliver p => s.deliver p
  | callback p => { s with callbacks := s.callbacks ++ [(s.asyncRxCb, p)] }
  | raise sig => { s with raised := sig :: s.raised }

/-- What a call does between `modem_acquire` and its wait or its return. -/
def setup (f : Frame) : Call → List Act
  | .send => [.setOperationDone (some (.done f)), .settings, .radio .tx]
  | .sendAsync async => [.setOperationDone (async.map .async), .settings, .radio .tx]
  | .recv _ rssi snr =>
    [.setAsyncRxCb none, .setOperationDone (some (.done f)), .setRxParams ⟨f, rssi, snr⟩,
      .settings, .radio .rx]
  | .recvAsync cb => [.setAsyncRxCb (some cb), .settings, .radio .rx]
  | .cancel => []
  | .config tx frequency =>
    [.settings] ++ (if tx then [.setTxConfig frequency, .settings] else [.settings]) ++ [.settings]
  | .testCw => [.radio .continuousWave]

/-- `modem_release` after its compare-and-swap. -/
def releaseActs : List Act := [.radio .sleep, .setOperationDone none, .clear]

/-- `sx12xx_ev_tx_done` after `modem_release` got the modem.  In
`sx12xx_ev_tx_timed_out` there is no signal. -/
def txDoneActs (sig : Option Signal) : List Act :=
  releaseActs ++ if sig = none then [] else [.raise sig]

/-- The synchronous part of `sx12xx_ev_rx_done` after its compare-and-swap. -/
def rxDoneActs (p : Packet) (sig : Option Signal) : List Act :=
  .deliver p :: (releaseActs ++ [.raise sig])

/-- Its asynchronous part. -/
def asyncRxActs (p : Packet) : List Act := [.radio .rx, .callback p]

/-! ## Threads -/

/-- Where a thread is in a call: before `modem_acquire`, setting up, in the
`k_poll` with a timeout, before or after the compare-and-swap of
`modem_release`, or in the `k_poll` without a timeout. -/
inductive Pc where
  | idle
  | acquire (c : Call) (f : Frame)
  | setup (c : Call) (f : Frame) (todo : List Act)
  | poll (c : Call) (f : Frame)
  | tryRelease (c : Call) (f : Frame)
  | release (c : Call) (f : Frame) (todo : List Act)
  | wait (c : Call) (f : Frame)
  deriving DecidableEq

/-- The events of the radio. -/
inductive Event where
  | rxDone (p : Packet)
  | txDone
  | txTimedOut
  deriving DecidableEq

/-- Where the handler is: it read `operation_done`, or it is before the
compare-and-swap of `rx_done`, or it has accesses to make. -/
inductive Handler where
  | idle
  | entered (e : Event) (sig : Option Signal)
  | swap (p : Packet) (sig : Option Signal)
  | run (todo : List Act)
  deriving DecidableEq

/-- The handler returns after its last access. -/
def Handler.rest (todo : List Act) : Handler := if todo = [] then .idle else .run todo

structure State (T : Type u) where
  shared : Shared
  pc : T → Pc
  handler : Handler
  nextFrame : Frame
  results : List (Frame × Result)

inductive Label (T : Type u) where
  | call (t : T) (c : Call)
  /-- The next access of a thread. -/
  | run (t : T)
  /-- The `k_poll` of a thread times out. -/
  | expire (t : T)
  | event (e : Event)
  /-- The next access of the handler. -/
  | handle
  deriving DecidableEq

namespace State

variable {T : Type u} [DecidableEq T]

def goto (s : State T) (t : T) (pc : Pc) : State T := { s with pc := Function.update s.pc t pc }

/-- A call returns. -/
def ret (s : State T) (t : T) (f : Frame) (r : Result) : State T :=
  { s.goto t .idle with results := s.results ++ [(f, r)] }

def setUsage (s : State T) (u : Usage) : State T :=
  { s with shared := { s.shared with usage := u } }

def act (s : State T) (a : Act) : State T := { s with shared := a.run s.shared }

/-- A thread calls the API.  `send` checks that there is a configuration, and
`recv_async` without a callback goes to `modem_release`. -/
def call (s : State T) (t : T) (c : Call) : Option (State T) :=
  if s.pc t = .idle then
    let f := s.nextFrame
    let s := { s with nextFrame := f + 1 }
    match c with
    | .send =>
      if s.shared.txFrequency = 0 then some (s.ret t f .invalid)
      else some (s.goto t (.acquire c f))
    | .recv size _ _ =>
      some (({ s with shared := { s.shared with size := Function.update s.shared.size f size } } :
        State T).goto t (.acquire c f))
    | .cancel => some (s.goto t (.tryRelease c f))
    | .sendAsync _ | .recvAsync _ | .config .. | .testCw => some (s.goto t (.acquire c f))
  else none

/-- What follows the set-up of a call. -/
def afterSetup (s : State T) (t : T) (f : Frame) (c : Call) : State T :=
  match c with
  | .send | .recv .. => s.goto t (.poll c f)
  | .config .. => s.goto t (.tryRelease c f)
  | .sendAsync _ | .recvAsync _ | .cancel | .testCw => s.ret t f .ok

/-- What follows a `modem_release` that another context won. -/
def afterLost (s : State T) (t : T) (f : Frame) (c : Call) : State T :=
  match c with
  | .send | .recv .. => s.goto t (.wait c f)
  | .cancel => s.ret t f .invalid
  | .config .. | .sendAsync _ | .recvAsync _ | .testCw => s.ret t f .ok

/-- What a call returns after its own `modem_release`. -/
def releaseResult : Call → Result
  | .send | .recv .. => .again
  | .cancel | .config .. | .sendAsync _ | .recvAsync _ | .testCw => .ok

/-- What a call returns once its signal was raised.  After a timeout `send`
returns the error of the first `k_poll`. -/
def signalResult (s : State T) (f : Frame) (timedOut : Bool) : Call → Result
  | .recv .. => .size (s.shared.size f)
  | _ => if timedOut then .again else .ok

/-- The next access of a thread. -/
def run (s : State T) (t : T) : Option (State T) :=
  match s.pc t with
  | .idle => none
  | .acquire c f =>
    if s.shared.usage = .free then some ((s.setUsage .busy).goto t (.setup c f (setup f c)))
    else some (s.ret t f .busy)
  | .setup c f (a :: todo) => some ((s.act a).goto t (.setup c f todo))
  | .setup c f [] => some (s.afterSetup t f c)
  | .poll c f =>
    if some (.done f) ∈ s.shared.raised then some (s.ret t f (s.signalResult f false c)) else none
  | .tryRelease c f =>
    if s.shared.usage = .busy then some ((s.setUsage .cleanup).goto t (.release c f releaseActs))
    else some (s.afterLost t f c)
  | .release c f (a :: todo) => some ((s.act a).goto t (.release c f todo))
  | .release c f [] => some (s.ret t f (releaseResult c))
  | .wait c f =>
    if some (.done f) ∈ s.shared.raised then some (s.ret t f (s.signalResult f true c)) else none

/-- A `k_poll` times out. -/
def expire (s : State T) (t : T) : Option (State T) :=
  match s.pc t with
  | .poll c f =>
    if some (.done f) ∈ s.shared.raised then none else some (s.goto t (.tryRelease c f))
  | _ => none

/-- The compare-and-swap of the handler. -/
def swap (s : State T) (todo : List Act) : State T :=
  if s.shared.usage = .busy then { s.setUsage .cleanup with handler := .run todo }
  else { s with handler := .idle }

/-- The next access of the handler. -/
def handle (s : State T) : Option (State T) :=
  match s.handler with
  | .idle => none
  | .entered (.rxDone p) sig =>
    if s.shared.asyncRxCb = none then some { s with handler := .swap p sig }
    else some { s with handler := .run (asyncRxActs p) }
  | .entered .txDone sig => some (s.swap (txDoneActs sig))
  | .entered .txTimedOut _ => some (s.swap (txDoneActs none))
  | .swap p sig => some (s.swap (rxDoneActs p sig))
  | .run [] => none
  | .run (a :: todo) => some { s.act a with handler := .rest todo }

def next (s : State T) : Label T → Option (State T)
  | .call t c => s.call t c
  | .run t => s.run t
  | .expire t => s.expire t
  | .event e =>
    if s.handler = .idle then some { s with handler := .entered e s.shared.operationDone } else none
  | .handle => s.handle

/-- `sx12xx_init` puts the radio to sleep. -/
def start (s : State T) : Prop :=
  s.shared.usage = .free ∧ s.shared.radio = .sleep ∧ s.shared.operationDone = none ∧
    s.shared.asyncRxCb = none ∧ s.shared.raised = [] ∧ s.shared.delivered = [] ∧
    s.shared.callbacks = [] ∧ (∀ t, s.pc t = .idle) ∧ s.handler = .idle ∧ s.results = []

end State

/-- The driver. -/
def modem (T : Type u) [DecidableEq T] : Machine (State T) (Label T) := ⟨State.start, State.next⟩

end Winegrid.Sx12xx
