import Winegrid.Sx12xx.Modem

/-!
# What a step can do

`Pc.Moves` lists what the next step of a thread makes of `dev_data` and of its
place in the call, `Handler.Moves` does so for the handler, and `Call.Enters`
for a new call.  The proofs about the driver split these lists and do not
unfold the machine.

* `moves_of_next`: every step of `modem` is one of these moves.
-/

namespace Winegrid.Sx12xx

universe u

variable {T : Type u} [DecidableEq T]

/-- The calls with a local signal. -/
def Call.blocks : Call → Bool
  | .send | .recv .. => true
  | .sendAsync _ | .recvAsync _ | .cancel | .config .. | .testCw => false

/-- The results that are not a size. -/
def Result.plain : Result → Bool
  | .size _ => false
  | .ok | .busy | .invalid | .again => true

/-- What a call returns when its signal was raised. -/
def Call.Answers (d : Shared) (f : Frame) (r : Result) : Call → Prop
  | .recv .. => r = .size (d.size f)
  | _ => r.plain = true

/-- The next step of a thread, and what its call returns. -/
inductive Pc.Moves (d : Shared) : Pc → Shared → Pc → Option (Frame × Result) → Prop where
  | acquires (c : Call) (f : Frame) (hfree : d.usage = .free) :
    Moves d (.acquire c f) { d with usage := .busy } (.setup c f (Sx12xx.setup f c)) none
  | busy (c : Call) (f : Frame) (hfree : d.usage ≠ .free) :
    Moves d (.acquire c f) d .idle (some (f, .busy))
  | sets (c : Call) (f : Frame) (a : Act) (todo : List Act) :
    Moves d (.setup c f (a :: todo)) (a.run d) (.setup c f todo) none
  | polls (c : Call) (f : Frame) (hblocks : c.blocks = true) :
    Moves d (.setup c f []) d (.poll c f) none
  | configured (tx : Bool) (frequency : Nat) (f : Frame) :
    Moves d (.setup (.config tx frequency) f []) d (.tryRelease (.config tx frequency) f) none
  | started (c : Call) (f : Frame) (hblocks : c.blocks = false)
    (hconfig : ∀ tx frequency, c ≠ .config tx frequency) :
    Moves d (.setup c f []) d .idle (some (f, .ok))
  | signalled (c : Call) (f : Frame) (pc : Pc) (r : Result)
    (hpc : pc = .poll c f ∨ pc = .wait c f) (hraised : some (.done f) ∈ d.raised)
    (hr : c.Answers d f r) : Moves d pc d .idle (some (f, r))
  | wins (c : Call) (f : Frame) (hbusy : d.usage = .busy) :
    Moves d (.tryRelease c f) { d with usage := .cleanup } (.release c f releaseActs) none
  | waits (c : Call) (f : Frame) (hbusy : d.usage ≠ .busy) (hblocks : c.blocks = true) :
    Moves d (.tryRelease c f) d (.wait c f) none
  | loses (c : Call) (f : Frame) (r : Result) (hbusy : d.usage ≠ .busy)
    (hblocks : c.blocks = false) (hr : r.plain = true) :
    Moves d (.tryRelease c f) d .idle (some (f, r))
  | releases (c : Call) (f : Frame) (a : Act) (todo : List Act) :
    Moves d (.release c f (a :: todo)) (a.run d) (.release c f todo) none
  | released (c : Call) (f : Frame) (r : Result) (hr : r.plain = true) :
    Moves d (.release c f []) d .idle (some (f, r))

/-- The handler before its compare-and-swap, and what it does if it wins. -/
inductive Handler.Swaps : Handler → List Act → Prop where
  | txDone (sig : Option Signal) : Swaps (.entered .txDone sig) (txDoneActs sig)
  | txTimedOut (sig : Option Signal) : Swaps (.entered .txTimedOut sig) (txDoneActs none)
  | rxDone (p : Packet) (sig : Option Signal) : Swaps (.swap p sig) (rxDoneActs p sig)

/-- The next step of the handler. -/
inductive Handler.Moves (d : Shared) : Handler → Shared → Handler → Prop where
  | async (p : Packet) (sig : Option Signal) (hcb : d.asyncRxCb ≠ none) :
    Moves d (.entered (.rxDone p) sig) d (.run (asyncRxActs p))
  | sync (p : Packet) (sig : Option Signal) (hcb : d.asyncRxCb = none) :
    Moves d (.entered (.rxDone p) sig) d (.swap p sig)
  | wins (h : Handler) (todo : List Act) (hswap : h.Swaps todo) (hbusy : d.usage = .busy) :
    Moves d h { d with usage := .cleanup } (.run todo)
  | loses (h : Handler) (todo : List Act) (hswap : h.Swaps todo) (hbusy : d.usage ≠ .busy) :
    Moves d h d .idle
  | acts (a : Act) (todo : List Act) :
    Moves d (.run (a :: todo)) (a.run d) (.rest todo)

/-- A new call with the frame `f`: its local variable `size`, and where it goes. -/
inductive Call.Enters (d : Shared) (f : Frame) : Call → Shared → Pc → Option (Frame × Result) → Prop
    where
  | noConfig : Enters d f .send d .idle (some (f, .invalid))
  | send : Enters d f .send d (.acquire .send f) none
  | recv (size : Nat) (rssi snr : Bool) :
    Enters d f (.recv size rssi snr) { d with size := Function.update d.size f size }
      (.acquire (.recv size rssi snr) f) none
  | cancel : Enters d f .cancel d (.tryRelease .cancel f) none
  | other (c : Call) (hblocks : c.blocks = false) (hcancel : c ≠ .cancel) :
    Enters d f c d (.acquire c f) none

/-- The steps of the machine. -/
inductive State.Moves (s : State T) : Label T → State T → Prop where
  | call (t : T) (c : Call) (d : Shared) (pc : Pc) (r : Option (Frame × Result))
    (hidle : s.pc t = .idle) (henters : c.Enters s.shared s.nextFrame d pc r) :
    Moves s (.call t c)
      ⟨d, Function.update s.pc t pc, s.handler, s.nextFrame + 1, s.results ++ r.toList⟩
  | run (t : T) (d : Shared) (pc : Pc) (r : Option (Frame × Result))
    (hmove : (s.pc t).Moves s.shared d pc r) :
    Moves s (.run t) ⟨d, Function.update s.pc t pc, s.handler, s.nextFrame, s.results ++ r.toList⟩
  | expire (t : T) (c : Call) (f : Frame) (hpc : s.pc t = .poll c f) :
    Moves s (.expire t) (s.goto t (.tryRelease c f))
  | event (e : Event) (hidle : s.handler = .idle) :
    Moves s (.event e) { s with handler := .entered e s.shared.operationDone }
  | handle (d : Shared) (h : Handler) (hmove : s.handler.Moves s.shared d h) :
    Moves s .handle { s with shared := d, handler := h }

variable {s s' : State T}

/-- A new call that does not return at once. -/
theorem State.Moves.enters {t : T} {c : Call} {d : Shared} {pc : Pc} (hidle : s.pc t = .idle)
    (henters : c.Enters s.shared s.nextFrame d pc none) :
    s.Moves (.call t c) ({ s with shared := d, nextFrame := s.nextFrame + 1 }.goto t pc) := by
  have h := State.Moves.call t c d pc none hidle henters
  rw [Option.toList_none, List.append_nil] at h
  exact h

theorem moves_of_call {t : T} {c : Call} (h : s.call t c = some s') : s.Moves (.call t c) s' := by
  unfold State.call at h
  split_ifs at h with hidle
  cases c with
  | send =>
    simp only at h
    split_ifs at h with hconfig
    · cases h
      exact .call t .send s.shared .idle _ hidle .noConfig
    · cases h
      exact .enters hidle .send
  | recv size rssi snr =>
    cases h
    exact .enters hidle (.recv size rssi snr)
  | cancel =>
    cases h
    exact .enters hidle .cancel
  | sendAsync async =>
    cases h
    exact .enters hidle (.other (.sendAsync async) rfl (by simp))
  | recvAsync cb =>
    cases h
    exact .enters hidle (.other (.recvAsync cb) rfl (by simp))
  | config tx frequency =>
    cases h
    exact .enters hidle (.other (.config tx frequency) rfl (by simp))
  | testCw =>
    cases h
    exact .enters hidle (.other .testCw rfl (by simp))

/-- A step of a thread that does not return. -/
theorem State.Moves.goes {t : T} {d : Shared} {pc : Pc}
    (hmove : (s.pc t).Moves s.shared d pc none) :
    s.Moves (.run t) ({ s with shared := d }.goto t pc) := by
  have h := State.Moves.run t d pc none hmove
  rw [Option.toList_none, List.append_nil] at h
  exact h

/-- A step of a thread that returns. -/
theorem State.Moves.returns {t : T} {f : Frame} {r : Result}
    (hmove : (s.pc t).Moves s.shared s.shared .idle (some (f, r))) :
    s.Moves (.run t) (s.ret t f r) :=
  State.Moves.run t s.shared .idle (some (f, r)) hmove

omit [DecidableEq T] in
theorem answers (c : Call) (f : Frame) (timedOut : Bool) :
    c.Answers s.shared f (s.signalResult f timedOut c) := by
  cases c <;> cases timedOut <;> rfl

theorem moves_of_run {t : T} (h : s.run t = some s') : s.Moves (.run t) s' := by
  unfold State.run at h
  cases hpc : s.pc t with
  | idle =>
    rw [hpc] at h
    cases h
  | acquire c f =>
    simp only [hpc] at h
    split_ifs at h with hfree <;> cases h
    · exact .goes (hpc ▸ .acquires c f hfree)
    · exact .returns (hpc ▸ .busy c f hfree)
  | setup c f todo =>
    simp only [hpc] at h
    cases todo with
    | cons a todo =>
      cases h
      exact .goes (hpc ▸ .sets c f a todo)
    | nil =>
      cases h
      cases c with
      | send | recv size rssi snr => exact .goes (hpc ▸ .polls _ f rfl)
      | config tx frequency => exact .goes (hpc ▸ .configured tx frequency f)
      | sendAsync _ | recvAsync _ | cancel | testCw =>
        exact .returns (hpc ▸ .started _ f rfl (by simp))
  | poll c f =>
    simp only [hpc] at h
    split_ifs at h with hraised
    cases h
    exact .returns (.signalled c f _ _ (Or.inl hpc) hraised (answers c f _))
  | tryRelease c f =>
    simp only [hpc] at h
    split_ifs at h with hbusy <;> cases h
    · exact .goes (hpc ▸ .wins c f hbusy)
    · cases c with
      | send | recv size rssi snr => exact .goes (hpc ▸ .waits _ f hbusy rfl)
      | cancel | config _ _ | sendAsync _ | recvAsync _ | testCw =>
        exact .returns (hpc ▸ .loses _ f _ hbusy rfl rfl)
  | release c f todo =>
    simp only [hpc] at h
    cases todo with
    | cons a todo =>
      cases h
      exact .goes (hpc ▸ .releases c f a todo)
    | nil =>
      cases h
      exact .returns (hpc ▸ .released c f _ (by cases c <;> rfl))
  | wait c f =>
    simp only [hpc] at h
    split_ifs at h with hraised
    cases h
    exact .returns (.signalled c f _ _ (Or.inr hpc) hraised (answers c f _))

theorem moves_of_expire {t : T} (h : s.expire t = some s') : s.Moves (.expire t) s' := by
  unfold State.expire at h
  cases hpc : s.pc t <;> simp only [hpc, reduceCtorEq] at h
  split_ifs at h with hraised
  cases h
  exact .expire _ _ _ hpc

theorem moves_of_swap {todo : List Act} (hswap : s.handler.Swaps todo) :
    s.Moves .handle (s.swap todo) := by
  unfold State.swap
  split_ifs with hbusy
  · exact .handle _ _ (.wins _ todo hswap hbusy)
  · exact .handle _ _ (.loses _ todo hswap hbusy)

theorem moves_of_handle (h : s.handle = some s') : s.Moves .handle s' := by
  unfold State.handle at h
  cases hh : s.handler with
  | idle =>
    rw [hh] at h
    cases h
  | entered e sig =>
    cases e with
    | rxDone p =>
      simp only [hh] at h
      split_ifs at h with hcb <;> cases h
      · exact .handle _ _ (hh ▸ .sync p sig hcb)
      · exact .handle _ _ (hh ▸ .async p sig hcb)
    | txDone =>
      simp only [hh] at h
      cases h
      exact moves_of_swap (hh ▸ .txDone sig)
    | txTimedOut =>
      simp only [hh] at h
      cases h
      exact moves_of_swap (hh ▸ .txTimedOut sig)
  | swap p sig =>
    simp only [hh] at h
    cases h
    exact moves_of_swap (hh ▸ .rxDone p sig)
  | run todo =>
    simp only [hh] at h
    cases todo with
    | nil => cases h
    | cons a todo =>
      cases h
      exact .handle _ _ (hh ▸ .acts a todo)

theorem moves_of_next {l : Label T} (h : (modem T).next s l = some s') : s.Moves l s' := by
  cases l with
  | call t c => exact moves_of_call h
  | run t => exact moves_of_run h
  | expire t => exact moves_of_expire h
  | event e =>
    change (if s.handler = .idle then _ else none) = _ at h
    split_ifs at h with hidle
    cases h
    exact .event e hidle
  | handle => exact moves_of_handle h

end Winegrid.Sx12xx
