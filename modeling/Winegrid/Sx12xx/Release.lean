import Winegrid.Lib.Ledger
import Winegrid.Sx12xx.Steps

/-!
# The release of the modem

`modem_release` can be called from any context, and promises that its
operations run once.  Nothing is assumed of the threads and the radio here:
any number of calls run at once, they time out at any point, and the radio
interrupts between any two accesses.

* `Exclusive`: one context at most is in its release, while `modem_usage` is
  `STATE_CLEANUP`.
* `accounted`: the driver beside a `Ledger` of the acquisitions.
* `release_runs_once`: every acquisition is released once, and the modem is
  free when all are.
-/

namespace Winegrid.Sx12xx

universe u

variable {T : Type u} [DecidableEq T]

/-! ## Contexts -/

/-- What a thread has left of its release. -/
def Pc.todo : Pc → List Act
  | .release _ _ todo => todo
  | _ => []

def Handler.todo : Handler → List Act
  | .run todo => todo
  | _ => []

/-- What a context has left: a thread, or the handler. -/
def State.todo (s : State T) : Option T → List Act
  | some t => (s.pc t).todo
  | none => s.handler.todo

/-- A context that has yet to execute `atomic_clear`. -/
def State.Cleans (s : State T) (x : Option T) : Prop := .clear ∈ s.todo x

/-- The invariant of `modem_usage`. -/
structure Exclusive (s : State T) : Prop where
  setup : ∀ t c f todo, s.pc t = .setup c f todo → .clear ∉ todo
  once : ∀ x, (s.todo x).count .clear ≤ 1
  only : ∀ x y, s.Cleans x → s.Cleans y → x = y
  usage : s.shared.usage = .cleanup ↔ ∃ x, s.Cleans x

variable {s s' : State T} {x : Option T} {todo : List Act}

/-- After a step of a thread, the other contexts have left what they had. -/
theorem todo_thread (t : T) (d : Shared) (pc : Pc) (n : Frame) (r : List (Frame × Result))
    (y : Option T) :
    (⟨d, Function.update s.pc t pc, s.handler, n, r⟩ : State T).todo y =
      if y = some t then pc.todo else s.todo y := by
  cases y with
  | none => rfl
  | some u =>
    show (Function.update s.pc t pc u).todo = _
    rw [Function.update_apply]
    by_cases hut : u = t
    · rw [if_pos hut, if_pos (congrArg some hut)]
    · rw [if_neg hut, if_neg (fun h => hut (Option.some.inj h))]
      rfl

omit [DecidableEq T] in
theorem todo_handler (d : Shared) (h : Handler) (y : Option T) :
    ({ s with shared := d, handler := h } : State T).todo y =
      if y = none then h.todo else s.todo y := by
  cases y with
  | none => rfl
  | some t => rfl

theorem setup_clear (f : Frame) (c : Call) : .clear ∉ setup f c := by
  cases c with
  | config tx frequency => cases tx <;> simp [setup]
  | send | sendAsync _ | recv _ _ _ | recvAsync _ | cancel | testCw => simp [setup]

theorem run_usage {a : Act} (d : Shared) (ha : a ≠ .clear) : (a.run d).usage = d.usage := by
  cases a with
  | clear => exact absurd rfl ha
  | deliver p =>
    show (d.deliver p).usage = d.usage
    unfold Shared.deliver
    split <;> rfl
  | setAsyncRxCb _ | setOperationDone _ | setRxParams _ | settings | radio _ | setTxConfig _
  | callback _ | raise _ => rfl

/-! ## What keeps the invariant -/

/-- A context goes on, and no one enters or leaves a release. -/
theorem Exclusive.keep (h : Exclusive s)
    (htodo : ∀ y, s'.todo y = if y = x then todo else s.todo y)
    (hsetup : ∀ t c f todo, s'.pc t = .setup c f todo → .clear ∉ todo)
    (hmem : .clear ∈ todo ↔ s.Cleans x) (honce : todo.count .clear ≤ 1)
    (husage : s'.shared.usage = .cleanup ↔ s.shared.usage = .cleanup) : Exclusive s' := by
  have hcleans : ∀ y, s'.Cleans y ↔ s.Cleans y := by
    intro y
    unfold State.Cleans
    rw [htodo]
    split_ifs with hy
    · rw [hy, hmem]
      rfl
    · rfl
  refine ⟨hsetup, fun y => ?_, fun y z hy hz => ?_, ?_⟩
  · rw [htodo]
    split_ifs
    · exact honce
    · exact h.once y
  · exact h.only y z ((hcleans y).mp hy) ((hcleans z).mp hz)
  · rw [husage, h.usage]
    exact (exists_congr hcleans).symm

/-- A context wins the compare-and-swap of its release. -/
theorem Exclusive.win (h : Exclusive s)
    (htodo : ∀ y, s'.todo y = if y = x then todo else s.todo y)
    (hsetup : ∀ t c f todo, s'.pc t = .setup c f todo → .clear ∉ todo)
    (honce : todo.count .clear = 1) (hbusy : s.shared.usage = .busy)
    (husage : s'.shared.usage = .cleanup) : Exclusive s' := by
  have hnone : ∀ y, ¬ s.Cleans y := by
    intro y hy
    have hcleanup := h.usage.mpr ⟨y, hy⟩
    rw [hbusy] at hcleanup
    cases hcleanup
  have hcleans : ∀ y, s'.Cleans y → y = x := by
    intro y hy
    unfold State.Cleans at hy
    rw [htodo] at hy
    by_contra hne
    rw [if_neg hne] at hy
    exact hnone y hy
  refine ⟨hsetup, fun y => ?_, fun y z hy hz => ?_, ?_⟩
  · rw [htodo]
    split_ifs
    · omega
    · exact h.once y
  · rw [hcleans y hy, hcleans z hz]
  · refine ⟨fun _ => ⟨x, ?_⟩, fun _ => husage⟩
    show Act.clear ∈ s'.todo x
    rw [htodo, if_pos rfl]
    exact List.count_pos_iff.mp (by omega)

/-- The context that is in its release leaves it. -/
theorem Exclusive.leave (h : Exclusive s)
    (htodo : ∀ y, s'.todo y = if y = x then todo else s.todo y)
    (hsetup : ∀ t c f todo, s'.pc t = .setup c f todo → .clear ∉ todo)
    (hx : s.Cleans x) (hclear : .clear ∉ todo) (husage : s'.shared.usage = .free) :
    Exclusive s' := by
  have hnone : ∀ y, ¬ s'.Cleans y := by
    intro y hy
    unfold State.Cleans at hy
    rw [htodo] at hy
    split_ifs at hy with hne
    · exact hclear hy
    · exact hne (h.only y x hy hx)
  refine ⟨hsetup, fun y => ?_, fun y z hy _ => absurd hy (hnone y), ?_⟩
  · rw [htodo]
    split_ifs
    · rw [List.count_eq_zero.mpr hclear]
      omega
    · exact h.once y
  · rw [husage]
    exact ⟨fun h => (by cases h), fun ⟨y, hy⟩ => absurd hy (hnone y)⟩

/-- A context makes its next access. -/
theorem Exclusive.act {a : Act} (h : Exclusive s) (hx : s.todo x = a :: todo)
    (htodo : ∀ y, s'.todo y = if y = x then todo else s.todo y)
    (hsetup : ∀ t c f todo, s'.pc t = .setup c f todo → .clear ∉ todo)
    (hshared : s'.shared = a.run s.shared) : Exclusive s' := by
  have honce := h.once x
  rw [hx, List.count_cons] at honce
  by_cases ha : a = .clear
  · rw [ha, if_pos (by rfl)] at honce
    refine h.leave htodo hsetup ?_ (List.count_eq_zero.mp (by omega)) ?_
    · show Act.clear ∈ s.todo x
      rw [hx, ha]
      exact List.mem_cons_self
    · rw [hshared, ha]
      rfl
  · refine h.keep htodo hsetup ?_ (by omega) ?_
    · show _ ↔ Act.clear ∈ s.todo x
      rw [hx, List.mem_cons]
      exact ⟨Or.inr, fun hmem => hmem.resolve_left (Ne.symm ha)⟩
    · rw [hshared, run_usage _ ha]

/-- After a step of a thread that is not in its set-up, the set-ups are as they were. -/
theorem Exclusive.setup_thread (h : Exclusive s) {t : T} {pc : Pc}
    (hpc : ∀ c f todo, pc = .setup c f todo → .clear ∉ todo) :
    ∀ u c f todo, Function.update s.pc t pc u = .setup c f todo → .clear ∉ todo := by
  intro u c f todo hu
  rw [Function.update_apply] at hu
  split_ifs at hu
  · exact hpc c f todo hu
  · exact h.setup u c f todo hu

/-- A thread outside a release goes to another place outside one. -/
theorem Exclusive.goes (h : Exclusive s) {t : T} {d : Shared} {pc : Pc} {n : Frame}
    {r : List (Frame × Result)} (hold : (s.pc t).todo = []) (hnew : pc.todo = [])
    (hpc : ∀ c f todo, pc = .setup c f todo → .clear ∉ todo)
    (husage : d.usage = .cleanup ↔ s.shared.usage = .cleanup) :
    Exclusive (⟨d, Function.update s.pc t pc, s.handler, n, r⟩ : State T) := by
  refine h.keep (todo_thread t d pc n r) (h.setup_thread hpc) ?_ ?_ husage
  · show _ ↔ Act.clear ∈ (s.pc t).todo
    rw [hold, hnew]
  · rw [hnew]
    exact Nat.zero_le 1

theorem exclusive_run {t : T} {d : Shared} {pc : Pc} {r : Option (Frame × Result)}
    (h : Exclusive s) (hmove : (s.pc t).Moves s.shared d pc r) (n : Frame)
    (rs : List (Frame × Result)) :
    Exclusive (⟨d, Function.update s.pc t pc, s.handler, n, rs⟩ : State T) := by
  generalize hold : s.pc t = old at hmove
  cases hmove with
  | acquires c f hfree =>
    refine h.goes (by rw [hold]; rfl) rfl (fun c f todo hpc => ?_) ?_
    · cases hpc
      exact setup_clear f c
    · rw [hfree]
      simp
  | busy c f hfree => exact h.goes (by rw [hold]; rfl) rfl (by simp) Iff.rfl
  | sets c f a todo =>
    have hclear := h.setup t c f _ hold
    rw [List.mem_cons, not_or] at hclear
    refine h.goes (by rw [hold]; rfl) rfl (fun c f todo hpc => ?_) ?_
    · cases hpc
      exact hclear.2
    · rw [run_usage _ (Ne.symm hclear.1)]
  | polls c f hblocks => exact h.goes (by rw [hold]; rfl) rfl (by simp) Iff.rfl
  | configured tx frequency f => exact h.goes (by rw [hold]; rfl) rfl (by simp) Iff.rfl
  | started c f hblocks hconfig => exact h.goes (by rw [hold]; rfl) rfl (by simp) Iff.rfl
  | signalled c f _ r hpc hraised hr =>
    refine h.goes ?_ rfl (by simp) Iff.rfl
    rcases hpc with hpc | hpc <;> rw [hold, hpc] <;> rfl
  | wins c f hbusy =>
    exact h.win (todo_thread t _ _ n rs) (h.setup_thread (by simp)) (by rfl) hbusy rfl
  | waits c f hbusy hblocks => exact h.goes (by rw [hold]; rfl) rfl (by simp) Iff.rfl
  | loses c f r hbusy hblocks hr => exact h.goes (by rw [hold]; rfl) rfl (by simp) Iff.rfl
  | releases c f a todo =>
    have hx : s.todo (some t) = a :: todo := by
      show (s.pc t).todo = _
      rw [hold]
      rfl
    exact h.act hx (todo_thread t _ _ n rs) (h.setup_thread (by simp)) rfl
  | released c f r hr => exact h.goes (by rw [hold]; rfl) rfl (by simp) Iff.rfl

theorem swaps_once {h : Handler} {todo : List Act} (hswap : h.Swaps todo) :
    todo.count .clear = 1 ∧ h.todo = [] := by
  cases hswap with
  | txDone sig =>
    refine ⟨?_, rfl⟩
    unfold txDoneActs
    split_ifs <;> rfl
  | txTimedOut sig => exact ⟨rfl, rfl⟩
  | rxDone p sig => exact ⟨rfl, rfl⟩

theorem rest_todo (todo : List Act) : (Handler.rest todo).todo = todo := by
  unfold Handler.rest
  split_ifs with hnil
  · rw [hnil]
    rfl
  · rfl

theorem exclusive_handle {d : Shared} {handler : Handler} (h : Exclusive s)
    (hmove : s.handler.Moves s.shared d handler) :
    Exclusive ({ s with shared := d, handler := handler } : State T) := by
  generalize hold : s.handler = old at hmove
  have htodo := todo_handler (s := s) d handler
  have hkeep : old.todo = [] → .clear ∉ handler.todo →
      (d.usage = .cleanup ↔ s.shared.usage = .cleanup) →
      Exclusive ({ s with shared := d, handler := handler } : State T) := by
    intro hnil hclear husage
    refine h.keep htodo h.setup ?_ ?_ husage
    · show _ ↔ Act.clear ∈ s.handler.todo
      rw [hold, hnil]
      simp [hclear]
    · rw [List.count_eq_zero.mpr hclear]
      omega
  cases hmove with
  | async p sig hcb => exact hkeep rfl (by simp [Handler.todo, asyncRxActs]) Iff.rfl
  | sync p sig hcb => exact hkeep rfl (by simp [Handler.todo]) Iff.rfl
  | wins old todo hswap hbusy => exact h.win htodo h.setup (swaps_once hswap).1 hbusy rfl
  | loses old todo hswap hbusy =>
    exact hkeep (swaps_once hswap).2 (by simp [Handler.todo]) Iff.rfl
  | acts a todo =>
    rw [rest_todo] at htodo
    have hx : s.todo none = a :: todo := by
      show s.handler.todo = _
      rw [hold]
      rfl
    exact h.act hx htodo h.setup rfl

theorem exclusive_moves {l : Label T} (h : Exclusive s) (hmove : s.Moves l s') :
    Exclusive s' := by
  cases hmove with
  | call t c d pc r hidle henters =>
    have hold : (s.pc t).todo = [] := by rw [hidle]; rfl
    cases henters with
    | noConfig | send | recv _ _ _ | cancel | other _ _ _ =>
      exact h.goes hold rfl (by simp) Iff.rfl
  | run t d pc r hmove => exact exclusive_run h hmove _ _
  | expire t c f hpc => exact h.goes (by rw [hpc]; rfl) rfl (by simp) Iff.rfl
  | event e hidle =>
    refine h.keep (todo_handler s.shared _) h.setup ?_ (Nat.zero_le 1) Iff.rfl
    show _ ↔ Act.clear ∈ s.handler.todo
    rw [hidle]
    rfl
  | handle d handler hmove => exact exclusive_handle h hmove

omit [DecidableEq T] in
theorem exclusive_start (h : s.start) : Exclusive s := by
  obtain ⟨husage, -, -, -, -, -, -, hpc, hhandler, -⟩ := h
  have htodo : ∀ x, s.todo x = [] := by
    intro x
    cases x with
    | none =>
      show s.handler.todo = []
      rw [hhandler]
      rfl
    | some t =>
      show (s.pc t).todo = []
      rw [hpc]
      rfl
  refine ⟨fun t c f todo h => ?_, fun x => ?_, fun x y hx _ => ?_, ?_⟩
  · rw [hpc] at h
    cases h
  · rw [htodo]
    exact Nat.zero_le 1
  · unfold State.Cleans at hx
    rw [htodo] at hx
    cases hx
  · rw [husage]
    refine ⟨fun h => (by cases h), fun ⟨x, hx⟩ => ?_⟩
    unfold State.Cleans at hx
    rw [htodo] at hx
    cases hx

/-! ## The acquisitions -/

/-- A compare-and-swap of `modem_acquire` that succeeds. -/
def State.acquires (s : State T) : Label T → Bool
  | .run t =>
    match s.pc t with
    | .acquire .. => s.shared.usage = .free
    | _ => false
  | _ => false

/-- The access that a step makes. -/
def State.access (s : State T) : Label T → Option Act
  | .run t =>
    match s.pc t with
    | .setup _ _ todo | .release _ _ todo => todo.head?
    | _ => none
  | .handle => s.handler.todo.head?
  | _ => none

/-- The account after a step: an acquisition has a new number, and
`atomic_clear` releases the one that is held. -/
def account (a : Ledger) (s : State T) (l : Label T) : Ledger :=
  if s.acquires l then a.acquire
  else if s.access l = some .clear then a.release (a.held.getD 0)
  else a

/-- The driver beside its account. -/
def accounted (T : Type u) [DecidableEq T] : Machine (State T × Ledger) (Label T) :=
  (modem T).observed .empty account

/-- What a step does to `modem_usage`. -/
inductive Occupies (s s' : State T) (l : Label T) : Prop where
  | acquires (hacq : s.acquires l = true) (hfree : s.shared.usage = .free)
    (hbusy : s'.shared.usage = .busy)
  | clears (hacq : s.acquires l = false) (hclear : s.access l = some .clear)
    (hcleanup : s.shared.usage = .cleanup) (hfree : s'.shared.usage = .free)
  | keeps (hacq : s.acquires l = false) (hclear : s.access l ≠ some .clear)
    (husage : s'.shared.usage = .free ↔ s.shared.usage = .free)

omit [DecidableEq T] in
/-- A step that makes an access, and acquires nothing. -/
theorem occupies_access {l : Label T} {a : Act} (h : Exclusive s) (hacq : s.acquires l = false)
    (haccess : s.access l = some a) (hclear : a = .clear → ∃ x, s.Cleans x)
    (hshared : s'.shared = a.run s.shared) : Occupies s s' l := by
  by_cases ha : a = .clear
  · refine .clears hacq (ha ▸ haccess) (h.usage.mpr (hclear ha)) ?_
    rw [hshared, ha]
    rfl
  · refine .keeps hacq ?_ ?_
    · rw [haccess]
      exact fun h => ha (Option.some.inj h)
    · rw [hshared, run_usage _ ha]

theorem occupies_run {t : T} {d : Shared} {pc : Pc} {r : Option (Frame × Result)}
    (h : Exclusive s) (hmove : (s.pc t).Moves s.shared d pc r) (n : Frame)
    (rs : List (Frame × Result)) :
    Occupies s (⟨d, Function.update s.pc t pc, s.handler, n, rs⟩ : State T) (.run t) := by
  generalize hold : s.pc t = old at hmove
  cases hmove with
  | acquires c f hfree =>
    refine .acquires ?_ hfree rfl
    simp only [State.acquires, hold, hfree, decide_true]
  | busy c f hfree =>
    refine .keeps ?_ (by simp [State.access, hold]) Iff.rfl
    simp only [State.acquires, hold, decide_eq_false_iff_not]
    exact hfree
  | sets c f a todo =>
    have hclear := h.setup t c f _ hold
    rw [List.mem_cons, not_or] at hclear
    refine occupies_access h (by simp [State.acquires, hold]) (a := a)
      (by simp [State.access, hold]) (fun ha => absurd ha.symm hclear.1) rfl
  | releases c f a todo =>
    refine occupies_access h (by simp [State.acquires, hold]) (a := a)
      (by simp [State.access, hold]) (fun ha => ⟨some t, ?_⟩) rfl
    show Act.clear ∈ (s.pc t).todo
    rw [hold, ha]
    exact List.mem_cons_self
  | wins c f hbusy =>
    refine .keeps (by simp [State.acquires, hold]) (by simp [State.access, hold]) ?_
    rw [hbusy]
    simp
  | polls c f hblocks | configured tx frequency f | started c f hblocks hconfig
  | waits c f hbusy hblocks | loses c f r hbusy hblocks hr | released c f r hr =>
    exact .keeps (by simp [State.acquires, hold]) (by simp [State.access, hold]) Iff.rfl
  | signalled c f _ r hpc hraised hr =>
    rcases hpc with hpc | hpc <;> rw [hpc] at hold <;>
      exact .keeps (by simp [State.acquires, hold]) (by simp [State.access, hold]) Iff.rfl

omit [DecidableEq T] in
theorem occupies_handle {d : Shared} {handler : Handler} (h : Exclusive s)
    (hmove : s.handler.Moves s.shared d handler) :
    Occupies s ({ s with shared := d, handler := handler } : State T) .handle := by
  generalize hold : s.handler = old at hmove
  have haccess : old.todo = [] → s.access .handle ≠ some .clear := by
    intro hnil
    simp [State.access, hold, hnil]
  cases hmove with
  | async p sig hcb | sync p sig hcb => exact .keeps rfl (haccess rfl) Iff.rfl
  | wins old todo hswap hbusy =>
    refine .keeps rfl (haccess (swaps_once hswap).2) ?_
    rw [hbusy]
    simp
  | loses old todo hswap hbusy => exact .keeps rfl (haccess (swaps_once hswap).2) Iff.rfl
  | acts a todo =>
    refine occupies_access h rfl (a := a) (by simp [State.access, hold, Handler.todo])
      (fun ha => ⟨none, ?_⟩) rfl
    show Act.clear ∈ s.handler.todo
    rw [hold, ha]
    exact List.mem_cons_self

theorem occupies_moves {l : Label T} (h : Exclusive s) (hmove : s.Moves l s') :
    Occupies s s' l := by
  cases hmove with
  | call t c d pc r hidle henters =>
    refine .keeps rfl (by simp [State.access]) ?_
    cases henters <;> rfl
  | run t d pc r hmove => exact occupies_run h hmove _ _
  | expire t c f hpc => exact .keeps rfl (by simp [State.access]) Iff.rfl
  | event e hidle => exact .keeps rfl (by simp [State.access]) Iff.rfl
  | handle d handler hmove => exact occupies_handle h hmove

/-- The invariant of the account. -/
structure Accounted (s : State T × Ledger) : Prop where
  exclusive : Exclusive s.1
  sound : s.2.Sound
  kept : s.2.lost = 0
  held : s.2.held = none ↔ s.1.shared.usage = .free

theorem accounted_reach {s : State T × Ledger} (h : (accounted T).Reachable s) :
    Accounted s := by
  refine h.invariant (I := Accounted) ?_ ?_
  · intro s ⟨hstart, hempty⟩
    refine ⟨exclusive_start hstart, hempty ▸ Ledger.sound_empty, hempty ▸ rfl, ?_⟩
    rw [hempty, hstart.1]
    exact ⟨fun _ => rfl, fun _ => rfl⟩
  · intro s l t _ hs _ hnext
    obtain ⟨hnext, hledger⟩ := Machine.observed_next.mp hnext
    have hmove := moves_of_next hnext
    have hexclusive := exclusive_moves hs.exclusive hmove
    suffices hturn : Ledger.Turn s.2 t.2 ∧ (t.2.held = none ↔ t.1.shared.usage = .free) by
      obtain ⟨hturn, hheld⟩ := hturn
      exact ⟨hexclusive, hturn.sound hs.sound, (hturn.lost hs.sound).trans hs.kept, hheld⟩
    cases occupies_moves hs.exclusive hmove with
    | acquires hacq hfree hbusy =>
      have hledger : t.2 = s.2.acquire := by
        rw [hledger, account, if_pos hacq]
      refine ⟨.acquire (hs.held.mpr hfree) hledger, ?_⟩
      rw [hledger, hbusy]
      simp [Ledger.acquire]
    | clears hacq hclear hcleanup hfree =>
      have hheld : s.2.held = some (s.2.held.getD 0) := by
        cases hnone : s.2.held with
        | none =>
          have := hs.held.mp hnone
          rw [hcleanup] at this
          cases this
        | some id => rfl
      have hledger : t.2 = s.2.release (s.2.held.getD 0) := by
        rw [hledger, account, if_neg (by simp [hacq]), if_pos hclear]
      refine ⟨.release _ hheld hledger, ?_⟩
      rw [hledger, hfree]
      simp [Ledger.release]
    | keeps hacq hclear husage =>
      have hledger : t.2 = s.2 := by
        rw [hledger, account, if_neg (by simp [hacq]), if_neg hclear]
      exact ⟨.keep hledger, by rw [hledger, husage, hs.held]⟩

/-- One context at most is in its release, exactly while `modem_usage` is
`STATE_CLEANUP`, and every acquisition was released once, but for the one that
is held while the modem is not free. -/
theorem release_runs_once (s : State T × Ledger) (h : (accounted T).Reachable s) :
    (∀ x y, s.1.Cleans x → s.1.Cleans y → x = y) ∧
      (s.1.shared.usage = .cleanup ↔ ∃ x, s.1.Cleans x) ∧
      (s.2.held = none ↔ s.1.shared.usage = .free) ∧
      ∀ id, s.2.times .released id + s.2.holds id = if 0 < id ∧ id ≤ s.2.last then 1 else 0 := by
  have haccounted := accounted_reach h
  refine ⟨haccounted.exclusive.only, haccounted.exclusive.usage, haccounted.held, fun id => ?_⟩
  rw [← haccounted.sound.acquired id, haccounted.sound.released_or_held haccounted.kept]

/-! ## Two threads -/

/-- The driver after `sx12xx_init`, with a configuration. -/
def sampleStart : State Bool :=
  { shared :=
      { usage := .free, operationDone := none, asyncRxCb := none, rxParams := none,
        txFrequency := 868100000, radio := .sleep, size := fun _ => 0, raised := [],
        delivered := [], callbacks := [] }
    pc := fun _ => .idle
    handler := .idle
    nextFrame := 0
    results := [] }

theorem sampleStart_init : (modem Bool).init sampleStart :=
  ⟨rfl, rfl, rfl, rfl, rfl, rfl, rfl, fun _ => rfl, rfl, rfl⟩

/-- A call of `recv` up to its `k_poll`. -/
def receiving (t : Bool) : List (Label Bool) :=
  .call t (.recv 16 true false) :: List.replicate 7 (.run t)

/-- A thread times out just before a packet is handled, and gets the modem
first; the other thread acquires it next. -/
theorem release_runs_once_sample : ∃ s, (accounted Bool).Reachable s ∧
    s.1.shared.usage = .busy ∧ s.2.times .released 1 = 1 := by
  obtain ⟨s, hs, hbusy, hheld, hlast⟩ := Machine.exists_of_any
    (p := fun s : State Bool × Ledger =>
      s.1.shared.usage = .busy ∧ s.2.held = some 2 ∧ s.2.last = 2)
    (o := (accounted Bool).exec (sampleStart, .empty)
      (receiving false ++ [.event (.rxDone ⟨[1, 2, 3], -80, 7⟩), .expire false, .handle,
        .run false, .handle] ++ List.replicate 4 (.run false) ++ receiving true))
    (by decide +kernel)
  have hinit : (accounted Bool).init (sampleStart, .empty) := ⟨sampleStart_init, rfl⟩
  have h := Machine.Reachable.exec (.init hinit) hs
  obtain ⟨-, -, -, hbalance⟩ := release_runs_once s h
  refine ⟨s, h, hbusy, ?_⟩
  have hone := hbalance 1
  rw [Ledger.holds, hheld, hlast] at hone
  simpa using hone

end Winegrid.Sx12xx
