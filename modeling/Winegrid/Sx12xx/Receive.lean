import Winegrid.Sx12xx.Interleavings
import Winegrid.Sx12xx.Release

/-!
# What the callers of the driver can rely on

The laws of every orderly run, from the invariant that the call in progress,
the handler and `dev_data` are in a phase.

* `pointers_valid`: the handler uses no null pointer, and only the frame and
  the signal of a call that has not returned.
* `results_truthful`: `recv` answers a size exactly when one packet of that
  size was delivered to it.
* `waits_are_answered`: a thread that waits without a timeout is woken by the
  handler, and the radio sleeps while the modem is free.
-/

namespace Winegrid.Sx12xx

universe u

variable {T : Type u} [DecidableEq T] {s s' : State T} {d d' : Shared} {pc : Pc} {f : Frame}

/-! ## The invariant -/

/-- At most one thread is in a call, and this is where it is. -/
structure Current (s : State T) (pc : Pc) : Prop where
  only : ∀ t, s.pc t ≠ .idle → s.pc t = pc ∧ ∀ u, u ≠ t → s.pc u = .idle
  some : pc ≠ .idle → ∃ t, s.pc t = pc

/-- The driver in an orderly run. -/
structure Served (s : State T) : Prop where
  phase : ∃ pc, Current s pc ∧ Phase s.shared s.handler pc ∧
    ∀ f, pc.frame = some f → f < s.nextFrame ∧ ∀ q, (f, q) ∉ s.results
  fresh : ∀ f, s.nextFrame ≤ f → Untouched s.shared f
  results : ∀ f q, (f, q) ∈ s.results → f < s.nextFrame ∧ q.Truthful s.shared f
  raised : none ∉ s.shared.raised
  delivered : none ∉ s.shared.delivered
  callbacks : ∀ p, (none, p) ∉ s.shared.callbacks

/-- A thread in a call went on, and the others are not in one. -/
theorem Current.update {t : T} (hothers : ∀ u, u ≠ t → s.pc u = .idle) (pc : Pc) (d : Shared)
    (h : Handler) (n : Frame) (rs : List (Frame × Result)) :
    Current (⟨d, Function.update s.pc t pc, h, n, rs⟩ : State T) pc := by
  refine ⟨fun u hu => ?_, fun _ => ⟨t, Function.update_self ..⟩⟩
  have hut : u = t := by
    by_contra hne
    refine hu ?_
    show Function.update s.pc t pc u = .idle
    rw [Function.update_of_ne hne]
    exact hothers u hne
  subst hut
  refine ⟨Function.update_self .., fun v hv => ?_⟩
  show Function.update s.pc u pc v = .idle
  rw [Function.update_of_ne hv]
  exact hothers v hv

/-- A result stays true while its frame receives nothing. -/
theorem Result.Truthful.same {q : Result} (hsame : d'.deliveriesTo f = d.deliveriesTo f)
    (htrue : q.Truthful d f) : q.Truthful d' f := by
  cases q with
  | size n =>
    obtain ⟨x, hx, hlen⟩ := htrue
    exact ⟨x, hsame.trans hx, hlen⟩
  | ok | busy | invalid | again => exact hsame.trans htrue

/-- A frame that is not of the call in progress receives nothing. -/
theorem Used.deliveriesTo (hused : Used d d' pc) (hf : pc.frame ≠ some f) :
    d'.deliveriesTo f = d.deliveriesTo f := by
  rcases hused.delivered with hsame | ⟨x, hx, hmore⟩
  · rw [Shared.deliveriesTo, hsame]
    rfl
  · have hne : x.frame ≠ f := fun heq => hf (heq ▸ hx)
    rw [Shared.deliveriesTo, hmore, List.filterMap_append]
    simp [Option.filter, hne, Shared.deliveriesTo]

theorem Used.untouched (hused : Used d d' pc) (hf : pc.frame ≠ some f) (hnew : Untouched d f) :
    Untouched d' f := by
  refine ⟨fun hmem => ?_, (hused.deliveriesTo hf).trans hnew.delivered⟩
  rcases hused.raised with hsame | ⟨id, hmore⟩ | ⟨g, hg, hmore⟩
  · exact hnew.raised (hsame ▸ hmem)
  · rw [hmore, List.mem_cons] at hmem
    exact hmem.elim (by simp) hnew.raised
  · rw [hmore, List.mem_cons] at hmem
    rcases hmem with heq | hmem
    · cases heq
      exact hf hg
    · exact hnew.raised hmem

omit [DecidableEq T] in
/-- A step of the handler. -/
theorem served_used {h' : Handler} (hs : Served s) (hcurrent : Current s pc)
    (hframe : ∀ f, pc.frame = some f → f < s.nextFrame ∧ ∀ q, (f, q) ∉ s.results)
    (hhandled : Handled s.shared d' h' pc) :
    Served ({ s with shared := d', handler := h' } : State T) := by
  obtain ⟨hphase, hused⟩ := hhandled
  refine ⟨⟨pc, ⟨hcurrent.only, hcurrent.some⟩, hphase, hframe⟩, fun f hf => ?_, fun f q hq => ?_,
    fun hmem => ?_, fun hmem => ?_, fun p hmem => ?_⟩
  · refine hused.untouched (fun heq => ?_) (hs.fresh f hf)
    exact Nat.not_lt.mpr hf (hframe f heq).1
  · refine ⟨(hs.results f q hq).1, (hs.results f q hq).2.same (hused.deliveriesTo fun heq => ?_)⟩
    exact (hframe f heq).2 q hq
  · change none ∈ d'.raised at hmem
    rcases hused.raised with hsame | ⟨id, hmore⟩ | ⟨g, -, hmore⟩
    · exact hs.raised (hsame ▸ hmem)
    · rw [hmore, List.mem_cons] at hmem
      exact hmem.elim (by simp) hs.raised
    · rw [hmore, List.mem_cons] at hmem
      exact hmem.elim (by simp) hs.raised
  · change none ∈ d'.delivered at hmem
    rcases hused.delivered with hsame | ⟨x, -, hmore⟩
    · exact hs.delivered (hsame ▸ hmem)
    · rw [hmore, List.mem_append, List.mem_singleton] at hmem
      exact hmem.elim hs.delivered (by simp)
  · change (none, p) ∈ d'.callbacks at hmem
    rcases hused.callbacks with hsame | ⟨cb, q, hmore⟩
    · exact hs.callbacks p (hsame ▸ hmem)
    · rw [hmore, List.mem_append, List.mem_singleton] at hmem
      exact hmem.elim (hs.callbacks p) (by simp)

/-- A step of the call in progress. -/
theorem served_goes {t : T} {pc' : Pc} {r : Option (Frame × Result)} {n : Frame} (hs : Served s)
    (hothers : ∀ u, u ≠ t → s.pc u = .idle) (hgoes : Goes s.shared d s.handler pc' r)
    (hn : s.nextFrame ≤ n)
    (hframe : ∀ f, pc'.frame = some f → f < n ∧ ∀ q, (f, q) ∉ s.results ++ r.toList)
    (hresult : ∀ f q, r = some (f, q) → f < n) :
    Served (⟨d, Function.update s.pc t pc', s.handler, n, s.results ++ r.toList⟩ : State T) := by
  obtain ⟨hphase, hsame, htrue⟩ := hgoes
  refine ⟨⟨pc', Current.update hothers pc' _ _ _ _, hphase, hframe⟩, fun f hf => ?_,
    fun f q hq => ?_, hsame.raised ▸ hs.raised, hsame.delivered ▸ hs.delivered,
    hsame.callbacks ▸ hs.callbacks⟩
  · exact hsame.untouched (hs.fresh f (Nat.le_trans hn hf))
  · rcases List.mem_append.mp hq with hold | hnew
    · obtain ⟨hlt, htruthful⟩ := hs.results f q hold
      exact ⟨Nat.lt_of_lt_of_le hlt hn, htruthful.same (hsame.deliveriesTo f)⟩
    · have hr : r = some (f, q) := by simpa using hnew
      exact ⟨hresult f q hr, (htrue f q hr).same (hsame.deliveriesTo f)⟩

/-- A new call returns at once or has the next frame. -/
theorem enters_frame {c : Call} {n : Frame} {r : Option (Frame × Result)} {pc' : Pc}
    (henters : c.Enters d n d' pc' r) :
    (pc' = .idle ∧ r = some (n, .invalid)) ∨ (pc'.frame = some n ∧ r = none) := by
  cases henters with
  | noConfig => exact Or.inl ⟨rfl, rfl⟩
  | send | recv | cancel | other => exact Or.inr ⟨rfl, rfl⟩

/-- A step of a thread stays in its frame, or returns. -/
theorem moves_frame {pc' : Pc} {r : Option (Frame × Result)} (hmove : pc.Moves d d' pc' r) :
    (pc'.frame = pc.frame ∧ r = none) ∨
      (pc' = .idle ∧ ∃ f q, pc.frame = some f ∧ r = some (f, q)) := by
  cases hmove with
  | acquires | sets | polls | configured | wins | waits | releases => exact Or.inl ⟨rfl, rfl⟩
  | busy _ f | started _ f | loses _ f | released _ f => exact Or.inr ⟨rfl, f, _, rfl, rfl⟩
  | signalled _ f _ _ hpc =>
    refine Or.inr ⟨rfl, f, _, ?_, rfl⟩
    rcases hpc with rfl | rfl <;> rfl

theorem served_call {t : T} {c : Call} {pc' : Pc} {r : Option (Frame × Result)} (hs : Served s)
    (hidle : ∀ u, s.pc u = .idle) (henters : c.Enters s.shared s.nextFrame d pc' r) :
    Served (⟨d, Function.update s.pc t pc', s.handler, s.nextFrame + 1, s.results ++ r.toList⟩ :
      State T) := by
  obtain ⟨pc, hcurrent, hphase, -⟩ := hs.phase
  have hpc : pc = .idle := by
    by_contra hne
    obtain ⟨u, hu⟩ := hcurrent.some hne
    exact hne (hu.symm.trans (hidle u))
  subst hpc
  have hnew := hs.fresh s.nextFrame (Nat.le_refl _)
  have hsame : SameFrames s.shared d := by cases henters <;> exact ⟨rfl, rfl, rfl⟩
  have hunused : ∀ q, (s.nextFrame, q) ∉ s.results := by
    intro q hq
    exact Nat.lt_irrefl _ (hs.results _ q hq).1
  refine served_goes hs (fun u _ => hidle u) ⟨phase_call hphase henters hnew, hsame, ?_⟩
    (Nat.le_succ _) ?_ ?_
  · intro f q hr
    rcases enters_frame henters with ⟨-, hinvalid⟩ | ⟨-, hnone⟩
    · cases hinvalid.symm.trans hr
      exact hnew.delivered
    · cases hnone.symm.trans hr
  · intro f hf
    rcases enters_frame henters with ⟨rfl, -⟩ | ⟨hframe, rfl⟩
    · cases hf
    · cases hframe.symm.trans hf
      refine ⟨Nat.lt_succ_self _, fun q hq => hunused q ?_⟩
      simpa using hq
  · intro f q hr
    rcases enters_frame henters with ⟨-, hinvalid⟩ | ⟨-, hnone⟩
    · cases hinvalid.symm.trans hr
      exact Nat.lt_succ_self _
    · cases hnone.symm.trans hr

theorem served_run {t : T} {pc' : Pc} {r : Option (Frame × Result)} (hs : Served s)
    (hatomic : s.handler.atomic = false) (hmove : (s.pc t).Moves s.shared d pc' r) :
    Served (⟨d, Function.update s.pc t pc', s.handler, s.nextFrame, s.results ++ r.toList⟩ :
      State T) := by
  obtain ⟨pc, hcurrent, hphase, hframe⟩ := hs.phase
  have hne : s.pc t ≠ .idle := by
    intro hidle
    rw [hidle] at hmove
    cases hmove with | signalled _ _ _ _ hpc => simp at hpc
  obtain ⟨hpc, hothers⟩ := hcurrent.only t hne
  rw [hpc] at hmove
  refine served_goes hs hothers (phase_run hphase hatomic hmove) (Nat.le_refl _) ?_ ?_
  · intro f hf
    rcases moves_frame hmove with ⟨hsame, rfl⟩ | ⟨rfl, -⟩
    · rw [Option.toList_none, List.append_nil]
      exact hframe f (hsame ▸ hf)
    · cases hf
  · intro f q hr
    rcases moves_frame hmove with ⟨-, hnone⟩ | ⟨-, g, q', hg, hr'⟩
    · cases hnone.symm.trans hr
    · cases hr'.symm.trans hr
      exact (hframe _ hg).1

theorem served_moves {l : Label T} (hs : Served s) (hok : Orderly s l) (hmove : s.Moves l s') :
    Served s' := by
  cases hmove with
  | call t c d pc' r hidle henters => exact served_call hs hok henters
  | run t d pc' r hmove => exact served_run hs hok hmove
  | expire t c f hpc =>
    obtain ⟨pc, hcurrent, hphase, hframe⟩ := hs.phase
    obtain ⟨heq, hothers⟩ := hcurrent.only t (by rw [hpc]; simp)
    rw [hpc] at heq
    subst heq
    have hgoes : Goes s.shared s.shared s.handler (.tryRelease c f) none :=
      ⟨phase_expire hphase, .refl _, by simp⟩
    have hserved := served_goes hs hothers hgoes (Nat.le_refl _)
      (fun g hg => by
        rw [Option.toList_none, List.append_nil]
        exact hframe g hg) (by simp)
    rw [Option.toList_none, List.append_nil] at hserved
    exact hserved
  | event e hidle =>
    obtain ⟨pc, hcurrent, hphase, hframe⟩ := hs.phase
    rw [hidle] at hphase
    exact served_used hs hcurrent hframe ⟨phase_event hphase hok, (SameFrames.refl _).used⟩
  | handle d handler hmove =>
    obtain ⟨pc, hcurrent, hphase, hframe⟩ := hs.phase
    exact served_used hs hcurrent hframe (phase_handle hphase hmove)

omit [DecidableEq T] in
theorem served_start (h : s.start) : Served s := by
  obtain ⟨husage, hradio, hsignal, -, hraised, hdelivered, hcallbacks, hpc, hhandler, hresults⟩ := h
  have hnew : ∀ f, Untouched s.shared f := by
    intro f
    refine ⟨?_, ?_⟩
    · rw [hraised]
      simp
    · rw [Shared.deliveriesTo, hdelivered]
      rfl
  refine ⟨⟨.idle, ⟨fun t ht => absurd (hpc t) ht, fun h => absurd rfl h⟩, ?_, by simp [Pc.frame]⟩,
    fun f _ => hnew f, by simp [hresults], by simp [hraised], by simp [hdelivered],
    by simp [hcallbacks]⟩
  rw [hhandler]
  exact .free _ husage ⟨hradio, hsignal⟩ .idle .idle (by simp [Pc.frame])

theorem served_reach (h : (modem T).Reach Orderly s) : Served s :=
  h.invariant (I := Served) (fun _ hs => served_start hs)
    fun _ _ _ _ hs hok hnext => served_moves hs hok (moves_of_next hnext)

/-! ## The pointers of the handler -/

/-- What the handler is about to use belongs to a call that has not returned,
or is the signal that a caller of `send_async` owns. -/
structure Alive (s : State T) : Prop where
  deliver : ∀ p todo, s.handler = .run (.deliver p :: todo) →
    ∃ t c r, s.shared.rxParams = some r ∧ (s.pc t).Awaits c r.frame
  raise : ∀ sig todo, s.handler = .run (.raise sig :: todo) →
    (∃ id, sig = some (.async id)) ∨
      ∃ t c f, sig = some (.done f) ∧ (s.pc t).Awaits c f

/-- The accesses of a release use no frame. -/
theorem releasing_head {acts after todo : List Act} {a : Act} (hreleasing : Releasing d acts)
    (heq : Handler.run (acts ++ after) = .run (a :: todo)) : a.isLocal = true ∨ a = .clear := by
  cases hreleasing <;> cases heq <;> first | exact Or.inl rfl | exact Or.inr rfl

/-- The handler uses a frame in three phases only. -/
theorem phase_uses {h : Handler} {a : Act} {todo : List Act} (hphase : Phase d h pc)
    (hh : h = .run (a :: todo)) :
    a.isLocal = true ∨ a = .clear ∨ (∃ p, a = .callback p) ∨
      (∃ id, a = .raise (some (.async id))) ∨
      (∃ c f, pc.Awaits c f ∧ a = .raise (some (.done f))) ∨
      ∃ c r p, pc.Awaits c r.frame ∧ d.rxParams = some r ∧ a = .deliver p := by
  have hrests : h.Rests → ∃ id, a = .raise (some (.async id)) := by
    intro hrests
    cases hrests with
    | idle => cases hh
    | raise id =>
      cases hh
      exact ⟨id, rfl⟩
  have hasync : h.Async d → a.isLocal = true ∨ ∃ p, a = .callback p := by
    intro hasync
    cases hasync with
    | rx p =>
      cases hh
      exact Or.inl rfl
    | callback p =>
      cases hh
      exact Or.inr ⟨p, rfl⟩
  have hhandles : ∀ {o : Operation}, o.Handles d h →
      a.isLocal = true ∨ a = .clear ∨ (∃ p, a = .callback p) ∨
        ∃ id, a = .raise (some (.async id)) := by
    intro o hhandles
    cases hhandles with
    | rests _ hr => exact Or.inr (Or.inr (Or.inr (hrests hr)))
    | entered | swap => cases hh
    | async _ _ _ ha =>
      exact (hasync ha).elim Or.inl fun hp => Or.inr (Or.inr (Or.inl hp))
  cases hphase with
  | free _ _ _ hr | setup _ _ _ _ _ _ hr | configured _ _ _ _ _ _ hr | raised _ _ _ _ _ _ _ hr =>
    exact Or.inr (Or.inr (Or.inr (Or.inl (hrests hr))))
  | awaited _ _ _ _ _ _ _ _ _ _ hh' | detached _ _ _ _ _ _ hh' =>
    rcases hhandles hh' with h₁ | h₁ | h₁ | h₁
    · exact Or.inl h₁
    · exact Or.inr (Or.inl h₁)
    · exact Or.inr (Or.inr (Or.inl h₁))
    · exact Or.inr (Or.inr (Or.inr (Or.inl h₁)))
  | cleaning _ _ _ _ _ hlate =>
    cases hlate with
    | rests _ hr => exact Or.inr (Or.inr (Or.inr (Or.inl (hrests hr))))
    | entered | swap => cases hh
    | async _ _ ha =>
      exact (hasync ha).elim Or.inl fun hp => Or.inr (Or.inr (Or.inl hp))
  | delivering size rssi snr f _ p hawaits _ hh' hparams =>
    rw [hh] at hh'
    cases hh'
    exact Or.inr (Or.inr (Or.inr (Or.inr (Or.inr ⟨_, _, p, hawaits, hparams, rfl⟩))))
  | completing _ _ _ _ _ _ _ hreleasing hh' | ending _ _ _ _ _ hreleasing hh' =>
    rcases releasing_head hreleasing (hh'.symm.trans hh) with h₁ | h₁
    · exact Or.inl h₁
    · exact Or.inr (Or.inl h₁)
  | raising c f _ _ hawaits _ _ hh' =>
    rw [hh] at hh'
    cases hh'
    exact Or.inr (Or.inr (Or.inr (Or.inr (Or.inl ⟨c, f, hawaits, rfl⟩))))

/-- In an orderly run the handler uses no null pointer, and only the frame and
the signal of a call that has not returned, or a signal that its caller owns. -/
theorem pointers_valid (s : State T) (h : (modem T).Reach Orderly s) :
    none ∉ s.shared.raised ∧ none ∉ s.shared.delivered ∧ (∀ p, (none, p) ∉ s.shared.callbacks) ∧
      Alive s := by
  have hs := served_reach h
  refine ⟨hs.raised, hs.delivered, hs.callbacks, ?_⟩
  obtain ⟨pc, hcurrent, hphase, -⟩ := hs.phase
  have hthread : ∀ {c f}, pc.Awaits c f → ∃ t, (s.pc t).Awaits c f := by
    intro c f hawaits
    obtain ⟨t, ht⟩ := hcurrent.some hawaits.ne_idle
    exact ⟨t, ht ▸ hawaits⟩
  refine ⟨fun p todo hh => ?_, fun sig todo hh => ?_⟩
  · rcases phase_uses hphase hh with h₁ | h₁ | ⟨_, h₁⟩ | ⟨_, h₁⟩ | ⟨_, _, _, h₁⟩ |
      ⟨c, r, _, hawaits, hparams, -⟩
    · cases h₁
    · cases h₁
    · cases h₁
    · cases h₁
    · cases h₁
    · obtain ⟨t, ht⟩ := hthread hawaits
      exact ⟨t, c, r, hparams, ht⟩
  · rcases phase_uses hphase hh with h₁ | h₁ | ⟨_, h₁⟩ | ⟨id, h₁⟩ | ⟨c, f, hawaits, h₁⟩ |
      ⟨_, _, _, _, _, h₁⟩
    · cases h₁
    · cases h₁
    · cases h₁
    · cases h₁
      exact Or.inl ⟨id, rfl⟩
    · cases h₁
      obtain ⟨t, ht⟩ := hthread hawaits
      exact Or.inr ⟨t, c, f, rfl, ht⟩
    · cases h₁

/-- The conditions of an orderly run can be tested. -/
instance (s : State Bool) (l : Label Bool) : Decidable (Orderly s l) :=
  match l with
  | .call _ _ => inferInstanceAs (Decidable (∀ t, s.pc t = .idle))
  | .run _ => inferInstanceAs (Decidable (s.handler.atomic = false))
  | .event e => inferInstanceAs (Decidable (e.fits s.shared.radio = true))
  | .expire _ | .handle => inferInstanceAs (Decidable True)

/-- A packet is handled while the `k_poll` of `recv` times out. -/
def lateTimeout : List (Label Bool) :=
  receiving false ++ [.event (.rxDone ⟨[1, 2, 3], -80, 7⟩), .handle, .handle, .expire false,
    .run false]

theorem lateTimeout_reach : ∃ s, (modem Bool).Reach Orderly s ∧
    s.pc false = .wait (.recv 16 true false) 0 := by
  obtain ⟨s, hs, hwait⟩ := Machine.exists_of_any
    (p := fun s : State Bool => s.pc false = .wait (.recv 16 true false) 0)
    (o := ((modem Bool).guarded Orderly).exec sampleStart lateTimeout) (by decide +kernel)
  have hinit : ((modem Bool).guarded Orderly).init sampleStart := sampleStart_init
  exact ⟨s, Machine.Reach.of_guarded (Machine.Reachable.exec (.init hinit) hs), hwait⟩

theorem pointers_valid_sample : ∃ s, (modem Bool).Reach Orderly s ∧
    s.pc false = .wait (.recv 16 true false) 0 ∧ Alive s := by
  obtain ⟨s, h, hwait⟩ := lateTimeout_reach
  exact ⟨s, h, hwait, (pointers_valid s h).2.2.2⟩

/-! ## The results -/

/-- In an orderly run `recv` answers a size exactly when one packet of that size
was delivered to its frame, and with any other result nothing was. -/
theorem results_truthful (s : State T) (h : (modem T).Reach Orderly s) (f : Frame) (q : Result)
    (hq : (f, q) ∈ s.results) : q.Truthful s.shared f :=
  ((served_reach h).results f q hq).2

theorem results_truthful_sample : ∃ s, (modem Bool).Reach Orderly s ∧
    (0, .size 3) ∈ s.results ∧ Result.Truthful s.shared 0 (.size 3) := by
  obtain ⟨s, hs, hmem⟩ := Machine.exists_of_any
    (p := fun s : State Bool => (0, .size 3) ∈ s.results)
    (o := ((modem Bool).guarded Orderly).exec sampleStart
      (lateTimeout ++ List.replicate 5 .handle ++ [.run false])) (by decide +kernel)
  have hinit : ((modem Bool).guarded Orderly).init sampleStart := sampleStart_init
  have h := Machine.Reach.of_guarded (Machine.Reachable.exec (.init hinit) hs)
  exact ⟨s, h, hmem, results_truthful s h 0 _ hmem⟩

/-! ## Waiting -/

theorem run_raised (a : Act) {sig : Option Signal} (hsig : sig ∈ d.raised) :
    sig ∈ (a.run d).raised := by
  cases a with
  | raise _ => exact List.mem_cons_of_mem _ hsig
  | deliver p =>
    show sig ∈ (d.deliver p).raised
    unfold Shared.deliver
    split <;> exact hsig
  | setAsyncRxCb _ | setOperationDone _ | setRxParams _ | settings | radio _ | setTxConfig _
  | clear | callback _ => exact hsig

theorem foldl_raised {todo : List Act} {sig : Option Signal}
    (hsig : sig ∈ d.raised ∨ .raise sig ∈ todo) : sig ∈ (todo.foldl Act.run d).raised := by
  induction todo generalizing d with
  | nil => exact hsig.resolve_right (by simp)
  | cons a todo ih =>
    refine ih ?_
    rcases hsig with hold | hmem
    · exact Or.inl (run_raised a hold)
    · rcases List.mem_cons.mp hmem with rfl | hmem
      · exact Or.inl List.mem_cons_self
      · exact Or.inr hmem

/-- The handler makes all its accesses. -/
theorem exec_handle (a : Act) (todo : List Act) (hh : s.handler = .run (a :: todo)) :
    (modem T).exec s (List.replicate (a :: todo).length .handle) =
      some { s with shared := (a :: todo).foldl Act.run s.shared, handler := .idle } := by
  have hnext : (modem T).next s .handle = some { s.act a with handler := .rest todo } := by
    show s.handle = _
    unfold State.handle
    rw [hh]
  rw [List.length_cons, List.replicate_succ, Machine.exec_cons hnext]
  induction todo generalizing s a with
  | nil => rfl
  | cons b todo ih =>
    rw [List.length_cons, List.replicate_succ,
      Machine.exec_cons (t := { (s.act a).act b with handler := .rest todo }) rfl]
    exact ih (s := { s.act a with handler := .run (b :: todo) }) b rfl rfl

/-- A thread that waits without a timeout owes its wake-up to the handler, if it
was not woken. -/
theorem phase_wait {h : Handler} {c : Call} (hphase : Phase d h (.wait c f)) :
    some (.done f) ∈ d.raised ∨ ∃ a todo, h = .run (a :: todo) ∧
      .raise (some (.done f)) ∈ a :: todo := by
  have hall : ∀ {c' : Call} {f' : Frame}, (Pc.wait c f).Awaits c' f' → c' = c ∧ f' = f := by
    intro c' f' hawaits
    cases hawaits
    exact ⟨rfl, rfl⟩
  cases hphase with
  | free _ _ _ _ hquiet | detached _ _ hquiet | ending _ _ _ hquiet => cases hquiet
  | configured _ _ _ _ _ _ _ hpc => simp at hpc
  | awaited _ _ _ _ _ hawaits hwait =>
    obtain ⟨rfl, rfl⟩ := hall hawaits
    exact absurd rfl hwait
  | delivering _ _ _ _ _ p hawaits _ hh =>
    obtain ⟨rfl, rfl⟩ := hall hawaits
    exact Or.inr ⟨_, _, hh, by simp [releaseActs]⟩
  | completing _ _ _ acts _ hawaits _ hreleasing hh =>
    obtain ⟨rfl, rfl⟩ := hall hawaits
    cases hreleasing <;> exact Or.inr ⟨_, _, hh, by simp⟩
  | raising _ _ _ _ hawaits _ _ hh =>
    obtain ⟨rfl, rfl⟩ := hall hawaits
    exact Or.inr ⟨_, _, hh, by simp⟩
  | raised _ _ _ _ hawaits _ _ _ hraised =>
    obtain ⟨rfl, rfl⟩ := hall hawaits
    exact Or.inl hraised

/-- While the modem is free, the radio sleeps and no signal is stored. -/
theorem phase_asleep {h : Handler} (hphase : Phase d h pc) (hfree : d.usage = .free) :
    Asleep d := by
  cases hphase with
  | free _ _ hasleep | raising _ _ _ _ _ _ hasleep | raised _ _ _ _ _ _ hasleep => exact hasleep
  | setup _ _ _ _ hbusy | configured _ _ _ _ hbusy | awaited _ _ _ _ _ _ _ _ hbusy
  | detached _ _ _ _ hbusy =>
    rw [hfree] at hbusy
    cases hbusy
  | cleaning _ _ _ hcleanup | delivering _ _ _ _ _ _ _ hcleanup
  | completing _ _ _ _ _ _ hcleanup | ending _ _ _ _ hcleanup =>
    rw [hfree] at hcleanup
    cases hcleanup

/-- In an orderly run a thread that waits without a timeout is woken by the next
accesses of the handler alone, and the radio sleeps while the modem is free. -/
theorem waits_are_answered (s : State T) (h : (modem T).Reach Orderly s) :
    (∀ t c f, s.pc t = .wait c f → ∃ n s', (modem T).exec s (List.replicate n .handle) = some s' ∧
      some (.done f) ∈ s'.shared.raised) ∧
    (s.shared.usage = .free → Asleep s.shared) := by
  obtain ⟨pc, hcurrent, hphase, -⟩ := (served_reach h).phase
  refine ⟨fun t c f hwait => ?_, phase_asleep hphase⟩
  obtain ⟨heq, -⟩ := hcurrent.only t (by rw [hwait]; simp)
  rw [hwait] at heq
  subst heq
  rcases phase_wait hphase with hraised | ⟨a, todo, hh, hmem⟩
  · exact ⟨0, s, rfl, hraised⟩
  · exact ⟨_, _, exec_handle a todo hh, foldl_raised (Or.inr hmem)⟩

theorem waits_are_answered_sample : ∃ s, (modem Bool).Reach Orderly s ∧
    ∃ n s', (modem Bool).exec s (List.replicate n .handle) = some s' ∧
      some (.done 0) ∈ s'.shared.raised := by
  obtain ⟨s, h, hwait⟩ := lateTimeout_reach
  exact ⟨s, h, (waits_are_answered s h).1 false _ 0 hwait⟩

end Winegrid.Sx12xx
