import Winegrid.Sx12xx.Phases

/-!
# From phase to phase

A step of the call in progress, of the radio or of the handler goes from a
phase to a phase, whatever the interleaving.

* `phase_call`, `phase_expire` and `phase_run`: the steps of a thread.
* `phase_event` and `phase_handle`: an event of the radio, and the steps of its
  handler.
-/

namespace Winegrid.Sx12xx

universe u

variable {d d' : Shared} {h h' : Handler} {pc pc' : Pc} {f : Frame} {c : Call}
  {r : Option (Frame × Result)} {o : Operation}

/-! ## The steps of a thread -/

/-- With another thread or frame the handler does what it did. -/
theorem Operation.Handles.same (hcb : d'.asyncRxCb = d.asyncRxCb) (hhandles : o.Handles d h) :
    o.Handles d' h := by
  cases hhandles with
  | rests _ hrests => exact .rests _ hrests
  | entered e hfits => exact .entered e hfits
  | swap p f rssi snr ho => exact .swap p f rssi snr ho
  | async _ cb ho hasync =>
    refine .async _ cb ho ?_
    cases hasync with
    | rx p hsome => exact .rx p (hcb ▸ hsome)
    | callback p hsome => exact .callback p (hcb ▸ hsome)

/-- A handler that can be preempted while an operation runs is not at work. -/
theorem Operation.Handles.preempted (hhandles : o.Handles d h) (hatomic : h.atomic = false) :
    h.Rests := by
  cases hhandles with
  | rests _ hrests => exact hrests
  | entered | swap => cases hatomic
  | async _ cb ho hasync => cases hasync <;> cases hatomic

theorem Handler.Late.preempted {acts : List Act} (hlate : h.Late d acts)
    (hatomic : h.atomic = false) : h.Rests := by
  cases hlate with
  | rests _ hrests => exact hrests
  | entered | swap => cases hatomic
  | async _ _ hasync => cases hasync <;> cases hatomic

theorem Pc.Awaits.ne_idle (hawaits : pc.Awaits c f) : pc ≠ .idle := by
  cases hawaits <;> simp

/-- A new call. -/
theorem phase_call {n : Frame} (hphase : Phase d h .idle)
    (henters : c.Enters d n d' pc' r) (hnew : Untouched d n) : Phase d' h pc' := by
  have hsame : SameFrames d d' ∧ d'.core = d.core ∧ d'.usage = d.usage := by
    cases henters <;> exact ⟨⟨rfl, rfl, rfl⟩, rfl, rfl⟩
  obtain ⟨hframes, hcore, husage⟩ := hsame
  have hquiet : pc'.Quiet ∧ ∀ f, pc'.frame = some f → Untouched d' f := by
    have hn := hframes.untouched hnew
    cases henters with
    | noConfig => exact ⟨.idle, by simp [Pc.frame]⟩
    | send => exact ⟨.acquire _ _ (by simp), fun f hf => by cases hf; exact hn⟩
    | recv size rssi snr => exact ⟨.acquire _ _ (by simp), fun f hf => by cases hf; exact hn⟩
    | cancel => exact ⟨.cancel _, fun f hf => by cases hf; exact hn⟩
    | other _ hblocks hcancel =>
      exact ⟨.acquire _ _ hcancel, fun f hf => by cases hf; exact hn⟩
  obtain ⟨hquiet, hnew'⟩ := hquiet
  have hcb : d'.asyncRxCb = d.asyncRxCb := by
    simp only [Shared.core, Prod.mk.injEq] at hcore
    exact hcore.2.2.1
  cases hphase with
  | free _ hfree hasleep hrests =>
    exact .free pc' (husage.trans hfree) (asleep_core hcore hasleep) hrests hquiet hnew'
  | detached _ o _ ho hbusy hrunning hhandles =>
    exact .detached pc' o hquiet ho (husage.trans hbusy) (running_core hcore hrunning)
      (hhandles.same hcb) hnew'
  | ending _ acts after _ hcleanup hreleasing hh hafter =>
    refine .ending pc' acts after hquiet (husage.trans hcleanup) ?_ hh hafter hnew'
    cases hreleasing with
    | sleep => exact .sleep
    | unset hradio =>
      simp only [Shared.core, Prod.mk.injEq] at hcore
      exact .unset (hcore.1.trans hradio)
    | clear hasleep => exact .clear (asleep_core hcore hasleep)
  | configured _ _ _ _ _ _ _ hpc => simp at hpc
  | awaited _ _ _ _ _ hawaits | delivering _ _ _ _ _ _ hawaits | completing _ _ _ _ _ hawaits
  | raising _ _ _ _ hawaits | raised _ _ _ _ hawaits => exact absurd rfl hawaits.ne_idle

/-- The `k_poll` of the call times out. -/
theorem phase_expire (hphase : Phase d h (.poll c f)) : Phase d h (.tryRelease c f) := by
  have hall : ∀ {c' : Call} {f' : Frame}, (Pc.poll c f).Awaits c' f' → c' = c ∧ f' = f := by
    intro c' f' hawaits
    cases hawaits
    exact ⟨rfl, rfl⟩
  cases hphase with
  | free _ _ _ _ hquiet | detached _ _ hquiet | ending _ _ _ hquiet => cases hquiet
  | configured _ _ _ _ _ _ _ hpc => simp at hpc
  | awaited _ _ _ o hblocks hawaits _ ho hbusy hrunning hhandles hnew =>
    obtain ⟨rfl, rfl⟩ := hall hawaits
    exact .awaited _ _ _ o hblocks .tryRelease (by simp) ho hbusy hrunning hhandles hnew
  | delivering size rssi snr _ _ p hawaits hcleanup hh hparams hnew =>
    obtain ⟨rfl, rfl⟩ := hall hawaits
    exact .delivering size rssi snr _ _ p .tryRelease hcleanup hh hparams hnew
  | completing _ _ _ acts hblocks hawaits hcleanup hreleasing hh hraised houtcome =>
    obtain ⟨rfl, rfl⟩ := hall hawaits
    exact .completing _ _ _ acts hblocks .tryRelease hcleanup hreleasing hh hraised houtcome
  | raising _ _ _ hblocks hawaits hfree hasleep hh hraised houtcome =>
    obtain ⟨rfl, rfl⟩ := hall hawaits
    exact .raising _ _ _ hblocks .tryRelease hfree hasleep hh hraised houtcome
  | raised _ _ _ hblocks hawaits hfree hasleep hrests hraised houtcome =>
    obtain ⟨rfl, rfl⟩ := hall hawaits
    exact .raised _ _ _ hblocks .tryRelease hfree hasleep hrests hraised houtcome

/-- A result that is not a size is true when nothing was delivered. -/
theorem Untouched.truthful {q : Result} (hnew : Untouched d f) (hplain : q.plain = true) :
    q.Truthful d f := by
  cases q with
  | size n => cases hplain
  | ok | busy | invalid | again => exact hnew.delivered

/-- What a call returns with its signal is true. -/
theorem Call.Outcome.truthful {q : Result} (houtcome : c.Outcome d f)
    (hq : c.Answers d f q) : q.Truthful d f := by
  cases c with
  | recv size rssi snr =>
    have hq : q = .size (d.size f) := hq
    rw [hq]
    exact houtcome
  | send | sendAsync _ | recvAsync _ | cancel | config _ _ | testCw =>
    have hplain : q.plain = true := hq
    have hnone : d.deliveriesTo f = [] := houtcome
    cases q with
    | size n => cases hplain
    | ok | busy | invalid | again => exact hnone

/-- What a step of a thread leaves: a phase, the frames as they were, and a true
result. -/
structure Goes (d d' : Shared) (h : Handler) (pc' : Pc) (r : Option (Frame × Result)) : Prop where
  phase : Phase d' h pc'
  same : SameFrames d d'
  truthful : ∀ f q, r = some (f, q) → q.Truthful d f

/-- A thread gets the modem that another context holds, and releases it. -/
theorem goes_wins (hrests : h.Rests) (hnew : Untouched d f) :
    Goes d { d with usage := .cleanup } h (.release c f releaseActs) none :=
  ⟨.cleaning c f releaseActs rfl .sleep (.rests _ hrests) ⟨hnew.raised, hnew.delivered⟩,
    ⟨rfl, rfl, rfl⟩, by simp⟩

/-- A call returns a plain result. -/
theorem goes_returns {q : Result} (hphase : Phase d h .idle) (hnew : Untouched d f)
    (hplain : q.plain = true) : Goes d d h .idle (some (f, q)) :=
  ⟨hphase, .refl d, fun f' q' hq => by cases hq; exact hnew.truthful hplain⟩

/-- The last access of a set-up starts the operation of the call. -/
theorem phase_started (hbusy : d.usage = .busy) (hrests : h.Rests)
    (hprepares : Prepares c f d []) (hcancel : c ≠ .cancel) (hnew : Untouched d f) :
    Phase d h (.setup c f []) := by
  have hleads := hprepares.leads
  unfold Call.Configures at hleads
  cases c with
  | send =>
    exact .awaited _ f _ _ rfl .setup (by simp) rfl hbusy hleads (.rests _ hrests) hnew
  | recv size rssi snr =>
    exact .awaited _ f _ _ rfl .setup (by simp) rfl hbusy hleads (.rests _ hrests) hnew
  | config tx frequency =>
    exact .configured tx frequency f _ hbusy hleads hrests (Or.inl rfl) hnew
  | cancel => exact absurd rfl hcancel
  | sendAsync async =>
    refine .detached _ _ (.started _ f rfl (by simp)) ?_ hbusy hleads (.rests _ hrests)
      fun f' hf => by cases hf; exact hnew
    cases async with
    | none => exact Or.inl rfl
    | some id => exact Or.inr ⟨id, rfl⟩
  | recvAsync cb =>
    exact .detached _ (.listen cb) (.started _ f rfl (by simp)) trivial hbusy hleads
      (.rests _ hrests) fun f' hf => by cases hf; exact hnew
  | testCw =>
    exact .detached _ .wave (.started _ f rfl (by simp)) trivial hbusy hleads (.rests _ hrests)
      fun f' hf => by cases hf; exact hnew

/-- A step of the set-up. -/
theorem goes_sets {a : Act} {todo : List Act} (hbusy : d.usage = .busy)
    (hsleep : d.radio = .sleep) (hrests : h.Rests) (hprepares : Prepares c f d (a :: todo))
    (hnew : Untouched d f) : Goes d (a.run d) h (.setup c f todo) none := by
  obtain ⟨hsame, husage⟩ := run_local (d := d) hprepares.isLocal
  have hcancel : c ≠ .cancel := by
    rintro rfl
    have hmem := hprepares.suffix.subset List.mem_cons_self
    cases hmem
  refine ⟨?_, hsame, by simp⟩
  cases todo with
  | nil =>
    exact phase_started (husage.trans hbusy) hrests hprepares.tail hcancel (hsame.untouched hnew)
  | cons b todo =>
    exact .setup c f b todo (husage.trans hbusy) (hprepares.sleeps hsleep) hrests hprepares.tail
      (hsame.untouched hnew)

/-- A step of a release. -/
theorem goes_releases {a : Act} {todo : List Act} (hcleanup : d.usage = .cleanup)
    (hreleasing : Releasing d (a :: todo)) (hrests : h.Rests) (hnew : Untouched d f) :
    Goes d (a.run d) h (.release c f todo) none := by
  cases hreleasing with
  | sleep =>
    exact ⟨.cleaning c f _ hcleanup (.unset rfl) (.rests _ hrests) ⟨hnew.raised, hnew.delivered⟩,
      ⟨rfl, rfl, rfl⟩, by simp⟩
  | unset hradio =>
    exact ⟨.cleaning c f _ hcleanup (.clear ⟨hradio, rfl⟩) (.rests _ hrests)
      ⟨hnew.raised, hnew.delivered⟩, ⟨rfl, rfl, rfl⟩, by simp⟩
  | clear hasleep =>
    refine ⟨.free _ rfl ⟨hasleep.radio, hasleep.signal⟩ hrests (.released c f) ?_,
      ⟨rfl, rfl, rfl⟩, by simp⟩
    intro f' hf
    cases hf
    exact ⟨hnew.raised, hnew.delivered⟩

/-- A step of a thread that is quiet. -/
theorem goes_quiet (hphase : ∀ pc : Pc, pc.Quiet → (∀ f, pc.frame = some f → Untouched d f) →
      Phase d h pc)
    (hacquire : d.usage = .free → ∀ c f, c ≠ .cancel → Untouched d f →
      Goes d { d with usage := .busy } h (.setup c f (setup f c)) none)
    (hrests : d.usage = .busy → h.Rests) (hquiet : pc.Quiet)
    (hnew : ∀ f, pc.frame = some f → Untouched d f) (hmove : pc.Moves d d' pc' r) :
    Goes d d' h pc' r := by
  rcases quiet_moves hquiet hmove with ⟨c, f, rfl, hcancel, hfree, rfl, rfl, rfl⟩ |
    ⟨f, rfl, hbusy, rfl, rfl, rfl⟩ | ⟨f, q, hframe, rfl, rfl, rfl, hplain⟩
  · exact hacquire hfree c f hcancel (hnew f rfl)
  · exact goes_wins (hrests hbusy) (hnew f rfl)
  · exact goes_returns (hphase .idle .idle (by simp [Pc.frame])) (hnew f hframe) hplain

/-- A step of a thread that waits for its signal. -/
theorem goes_awaits (hblocks : c.blocks = true) (hawaits : pc.Awaits c f)
    (hphase : ∀ pc : Pc, pc.Awaits c f → (pc = .wait c f → d.usage ≠ .busy) → Phase d h pc)
    (hwins : d.usage = .busy →
      Goes d { d with usage := .cleanup } h (.release c f releaseActs) none)
    (hreturns : some (.done f) ∈ d.raised → ∀ q, c.Answers d f q → Goes d d h .idle (some (f, q)))
    (hmove : pc.Moves d d' pc' r) : Goes d d' h pc' r := by
  rcases awaits_moves hblocks hawaits hmove with ⟨rfl, hawaits', rfl, hne⟩ |
    ⟨-, hbusy, rfl, rfl, rfl⟩ | ⟨hraised, rfl, rfl, q, rfl, hq⟩
  · exact ⟨hphase _ hawaits' hne, .refl d', by simp⟩
  · exact hwins hbusy
  · exact hreturns hraised q hq

/-- `modem_acquire` got the modem. -/
theorem goes_acquires (hasleep : Asleep d) (hrests : h.Rests) (hcancel : c ≠ .cancel)
    (hnew : Untouched d f) : Goes d { d with usage := .busy } h (.setup c f (setup f c)) none := by
  have hprepares := prepares_setup (d := { d with usage := .busy }) f c
    ⟨hasleep.radio, hasleep.signal⟩
  refine ⟨?_, ⟨rfl, rfl, rfl⟩, by simp⟩
  generalize htodo : setup f c = todo at hprepares
  cases todo with
  | nil =>
    refine absurd htodo ?_
    cases c with
    | cancel => exact absurd rfl hcancel
    | config tx frequency => simp [setup]
    | send | sendAsync _ | recv _ _ _ | recvAsync _ | testCw => simp [setup]
  | cons a todo =>
    exact .setup c f a todo rfl hasleep.radio hrests hprepares ⟨hnew.raised, hnew.delivered⟩

/-- The next step of the call in progress. -/
theorem phase_run (hphase : Phase d h pc) (hatomic : h.atomic = false)
    (hmove : pc.Moves d d' pc' r) : Goes d d' h pc' r := by
  cases hphase with
  | free _ hfree hasleep hrests hquiet hnew =>
    refine goes_quiet (fun pc hquiet hnew => .free pc hfree hasleep hrests hquiet hnew)
      (fun _ c f hcancel hnew => goes_acquires hasleep hrests hcancel hnew) (fun _ => hrests)
      hquiet hnew hmove
  | setup c f a todo hbusy hsleep hrests hprepares hnew =>
    cases hmove with
    | sets => exact goes_sets hbusy hsleep hrests hprepares hnew
    | signalled _ _ _ _ hpc => simp at hpc
  | configured tx frequency f _ hbusy hasleep hrests hpc hnew =>
    rcases hpc with rfl | rfl
    · cases hmove with
      | polls _ _ hblocks => cases hblocks
      | configured =>
        exact ⟨.configured tx frequency f _ hbusy hasleep hrests (Or.inr rfl) hnew, .refl d,
          by simp⟩
      | started _ _ _ hconfig => exact absurd rfl (hconfig tx frequency)
      | signalled _ _ _ _ hpc => simp at hpc
    · cases hmove with
      | wins => exact goes_wins hrests hnew
      | waits _ _ hne => exact absurd hbusy hne
      | loses _ _ _ hne => exact absurd hbusy hne
      | signalled _ _ _ _ hpc => simp at hpc
  | awaited c f _ o hblocks hawaits hwait ho hbusy hrunning hhandles hnew =>
    exact goes_awaits hblocks hawaits
      (fun pc hawaits hne => .awaited c f pc o hblocks hawaits (fun heq => hne heq hbusy) ho hbusy
        hrunning hhandles hnew)
      (fun _ => goes_wins (hhandles.preempted hatomic) hnew)
      (fun hraised => absurd hraised hnew.raised) hmove
  | detached _ o hquiet ho hbusy hrunning hhandles hnew =>
    refine goes_quiet (fun pc hquiet hnew => .detached pc o hquiet ho hbusy hrunning hhandles hnew)
      (fun hfree => ?_) (fun _ => hhandles.preempted hatomic) hquiet hnew hmove
    rw [hbusy] at hfree
    cases hfree
  | cleaning c f acts hcleanup hreleasing hlate hnew =>
    cases hmove with
    | releases _ _ a todo =>
      exact goes_releases hcleanup hreleasing (hlate.preempted hatomic) hnew
    | released => cases hreleasing
    | signalled _ _ _ _ hpc => simp at hpc
  | delivering size rssi snr f _ p hawaits hcleanup hh hparams hnew =>
    exact goes_awaits rfl hawaits
      (fun pc hawaits _ => .delivering size rssi snr f pc p hawaits hcleanup hh hparams hnew)
      (fun hbusy => absurd (hcleanup.symm.trans hbusy) (by decide))
      (fun hraised => absurd hraised hnew.raised) hmove
  | completing c f _ acts hblocks hawaits hcleanup hreleasing hh hraised houtcome =>
    exact goes_awaits hblocks hawaits
      (fun pc hawaits _ => .completing c f pc acts hblocks hawaits hcleanup hreleasing hh hraised
        houtcome)
      (fun hbusy => absurd (hcleanup.symm.trans hbusy) (by decide))
      (fun hraised' => absurd hraised' hraised) hmove
  | raising c f _ hblocks hawaits hfree hasleep hh hraised houtcome =>
    exact goes_awaits hblocks hawaits
      (fun pc hawaits _ => .raising c f pc hblocks hawaits hfree hasleep hh hraised houtcome)
      (fun hbusy => absurd (hfree.symm.trans hbusy) (by decide))
      (fun hraised' => absurd hraised' hraised) hmove
  | raised c f _ hblocks hawaits hfree hasleep hrests hraised houtcome =>
    refine goes_awaits hblocks hawaits
      (fun pc hawaits _ => .raised c f pc hblocks hawaits hfree hasleep hrests hraised houtcome)
      (fun hbusy => absurd (hfree.symm.trans hbusy) (by decide)) (fun _ q hq => ?_) hmove
    refine ⟨.free _ hfree hasleep hrests .idle (by simp [Pc.frame]), .refl d, ?_⟩
    intro f' q' hq'
    cases hq'
    exact houtcome.truthful hq
  | ending _ acts after hquiet hcleanup hreleasing hh hafter hnew =>
    refine goes_quiet
      (fun pc hquiet hnew => .ending pc acts after hquiet hcleanup hreleasing hh hafter hnew)
      (fun hfree => ?_) (fun hbusy => ?_) hquiet hnew hmove
    · rw [hcleanup] at hfree
      cases hfree
    · rw [hcleanup] at hbusy
      cases hbusy

/-! ## The radio and its handler -/

/-- No event fits a radio that sleeps. -/
theorem not_fits_sleep {e : Event} (hsleep : d.radio = .sleep) : e.fits d.radio ≠ true := by
  rw [hsleep]
  cases e <;> simp [Event.fits]

/-- The radio raises an event. -/
theorem phase_event {e : Event} (hphase : Phase d .idle pc) (hfits : e.fits d.radio = true) :
    Phase d (.entered e d.operationDone) pc := by
  cases hphase with
  | free _ _ hasleep => exact absurd hfits (not_fits_sleep hasleep.radio)
  | setup _ _ _ _ _ hsleep => exact absurd hfits (not_fits_sleep hsleep)
  | configured _ _ _ _ _ hasleep => exact absurd hfits (not_fits_sleep hasleep.radio)
  | awaited c f _ o hblocks hawaits hwait ho hbusy hrunning hhandles hnew =>
    rw [hrunning.signal]
    exact .awaited c f pc o hblocks hawaits hwait ho hbusy hrunning
      (.entered e (hrunning.radio ▸ hfits)) hnew
  | detached _ o hquiet ho hbusy hrunning hhandles hnew =>
    rw [hrunning.signal]
    exact .detached pc o hquiet ho hbusy hrunning (.entered e (hrunning.radio ▸ hfits)) hnew
  | cleaning c f acts hcleanup hreleasing hlate hnew =>
    cases hreleasing with
    | sleep => exact .cleaning c f _ hcleanup .sleep (.entered e _ rfl) hnew
    | unset hradio => exact absurd hfits (not_fits_sleep hradio)
    | clear hasleep => exact absurd hfits (not_fits_sleep hasleep.radio)
  | delivering _ _ _ _ _ _ _ _ hh | raising _ _ _ _ _ _ _ hh => cases hh
  | completing _ _ _ _ _ _ _ hreleasing hh => cases hh
  | raised _ _ _ _ _ _ hasleep => exact absurd hfits (not_fits_sleep hasleep.radio)
  | ending _ _ _ _ _ _ hh => cases hh

/-- What a step of the handler may use: the frame of the call in progress, a
signal that a caller owns, and a callback that is set. -/
structure Used (d d' : Shared) (pc : Pc) : Prop where
  raised : d'.raised = d.raised ∨ (∃ id, d'.raised = some (.async id) :: d.raised) ∨
    ∃ f, pc.frame = some f ∧ d'.raised = some (.done f) :: d.raised
  delivered : d'.delivered = d.delivered ∨
    ∃ x : Delivery, pc.frame = some x.frame ∧ d'.delivered = d.delivered ++ [some x]
  callbacks : d'.callbacks = d.callbacks ∨ ∃ cb p, d'.callbacks = d.callbacks ++ [(some cb, p)]

/-- What a step of the handler leaves. -/
structure Handled (d d' : Shared) (h' : Handler) (pc : Pc) : Prop where
  phase : Phase d' h' pc
  used : Used d d' pc

theorem SameFrames.used (hsame : SameFrames d d') : Used d d' pc :=
  ⟨Or.inl hsame.raised, Or.inl hsame.delivered, Or.inl hsame.callbacks⟩

/-- A signal that a caller owns changes nothing for the calls. -/
theorem Untouched.async (hnew : Untouched d f) (id : Nat) :
    Untouched { d with raised := some (.async id) :: d.raised } f := by
  refine ⟨fun hmem => ?_, hnew.delivered⟩
  rcases List.mem_cons.mp hmem with heq | hmem
  · cases heq
  · exact hnew.raised hmem

/-- A handler that is not at work has at most the signal of a caller to raise. -/
theorem Handler.Rests.moves (hrests : h.Rests) (hmove : h.Moves d d' h') :
    h' = .idle ∧ ∃ id, d' = { d with raised := some (.async id) :: d.raised } := by
  cases hrests with
  | idle => cases hmove with | wins _ _ hswap | loses _ _ hswap => cases hswap
  | raise id =>
    cases hmove with
    | acts => exact ⟨rfl, id, rfl⟩
    | wins _ _ hswap | loses _ _ hswap => cases hswap

/-- In a phase in which the handler is not at work it makes its last access. -/
theorem handled_rests (hrests : h.Rests) (hmove : h.Moves d d' h')
    (hphase : ∀ id, Phase { d with raised := some (.async id) :: d.raised } .idle pc) :
    Handled d d' h' pc := by
  obtain ⟨rfl, id, rfl⟩ := hrests.moves hmove
  exact ⟨hphase id, ⟨Or.inr (Or.inl ⟨id, rfl⟩), Or.inl rfl, Or.inl rfl⟩⟩

/-- The asynchronous part. -/
theorem Handler.Async.moves (hasync : h.Async d) (hmove : h.Moves d d' h') :
    (∃ p, d' = { d with radio := .rx } ∧ h' = .run [.callback p]) ∨
    (∃ cb p, d' = { d with callbacks := d.callbacks ++ [(some cb, p)] } ∧ h' = .idle) := by
  cases hasync with
  | rx p hcb =>
    cases hmove with
    | acts => exact Or.inl ⟨p, rfl, rfl⟩
    | wins _ _ hswap | loses _ _ hswap => cases hswap
  | callback p hcb =>
    cases hmove with
    | acts =>
      obtain ⟨cb, hcb⟩ := Option.ne_none_iff_exists'.mp hcb
      refine Or.inr ⟨cb, p, ?_, rfl⟩
      show ({ d with callbacks := d.callbacks ++ [(d.asyncRxCb, p)] } : Shared) = _
      rw [hcb]
    | wins _ _ hswap | loses _ _ hswap => cases hswap

/-- The handler of an operation: it goes on beside it, or it wins the
compare-and-swap. -/
theorem Operation.Handles.moves (hhandles : o.Handles d h) (hrunning : Running d o)
    (hbusy : d.usage = .busy) (hmove : h.Moves d d' h') :
    (o.Handles d' h' ∧ Running d' o ∧ d'.usage = .busy ∧ Used d d' .idle ∧
      ∀ f, Untouched d f → Untouched d' f) ∨
    d' = { d with usage := .cleanup } ∧
      ((∃ p f rssi snr, o = .receive f rssi snr ∧ h' = .run (rxDoneActs p (some (.done f)))) ∨
      (∃ sig, o = .transmit sig ∧ h' = .run (txDoneActs sig)) ∨
      (o = .wave ∧ h' = .run (txDoneActs none))) := by
  cases hhandles with
  | rests _ hrests =>
    obtain ⟨rfl, id, rfl⟩ := hrests.moves hmove
    exact Or.inl ⟨.rests _ .idle, running_core (by rfl) hrunning, hbusy,
      ⟨Or.inr (Or.inl ⟨id, rfl⟩), Or.inl rfl, Or.inl rfl⟩, fun f hnew => hnew.async id⟩
  | entered e hfits =>
    cases hmove with
    | async p _ hcb =>
      cases o with
      | receive f rssi snr => exact absurd hrunning.ready.1 hcb
      | listen cb =>
        exact Or.inl ⟨.async _ cb rfl (.rx p hcb), hrunning, hbusy, (SameFrames.refl d).used,
          fun _ => id⟩
      | transmit _ | wave => cases hfits
    | sync p _ hcb =>
      cases o with
      | receive f rssi snr =>
        exact Or.inl ⟨.swap p f rssi snr rfl, hrunning, hbusy, (SameFrames.refl d).used,
          fun _ => id⟩
      | listen cb =>
        have hsome : d.asyncRxCb = some cb := hrunning.ready
        rw [hcb] at hsome
        cases hsome
      | transmit _ | wave => cases hfits
    | wins _ _ hswap =>
      refine Or.inr ⟨rfl, ?_⟩
      cases hswap with
      | txDone =>
        cases o with
        | transmit sig => exact Or.inr (Or.inl ⟨sig, rfl, rfl⟩)
        | receive _ _ _ | listen _ | wave => cases hfits
      | txTimedOut =>
        cases o with
        | wave => exact Or.inr (Or.inr ⟨rfl, rfl⟩)
        | transmit _ | receive _ _ _ | listen _ => cases hfits
    | loses _ _ _ hne => exact absurd hbusy hne
  | swap p f rssi snr ho =>
    subst ho
    cases hmove with
    | wins _ _ hswap =>
      cases hswap
      exact Or.inr ⟨rfl, Or.inl ⟨p, f, rssi, snr, rfl, rfl⟩⟩
    | loses _ _ _ hne => exact absurd hbusy hne
  | async _ cb ho hasync =>
    subst ho
    rcases hasync.moves hmove with ⟨p, rfl, rfl⟩ | ⟨cb', p, rfl, rfl⟩
    · refine Or.inl ⟨.async _ cb rfl (.callback p ?_), ⟨rfl, hrunning.signal, hrunning.ready⟩,
        hbusy, SameFrames.used ⟨rfl, rfl, rfl⟩, fun f hnew => ⟨hnew.raised, hnew.delivered⟩⟩
      show d.asyncRxCb ≠ none
      rw [show d.asyncRxCb = some cb from hrunning.ready]
      simp
    · exact Or.inl ⟨.rests _ .idle, ⟨hrunning.radio, hrunning.signal, hrunning.ready⟩, hbusy,
        ⟨Or.inl rfl, Or.inl rfl, Or.inr ⟨cb', p, rfl⟩⟩,
        fun f hnew => ⟨hnew.raised, hnew.delivered⟩⟩

/-- A handler that came too late leaves the release of the thread alone. -/
theorem handled_late {acts : List Act} (hcleanup : d.usage = .cleanup)
    (hreleasing : Releasing d acts) (hlate : h.Late d acts) (hnew : Untouched d f)
    (hmove : h.Moves d d' h') : Handled d d' h' (.release c f acts) := by
  cases hlate with
  | rests _ hrests =>
    refine handled_rests hrests hmove fun id => ?_
    refine .cleaning c f acts hcleanup ?_ (.rests _ .idle) (hnew.async id)
    cases hreleasing with
    | sleep => exact .sleep
    | unset hradio => exact .unset hradio
    | clear hasleep => exact .clear ⟨hasleep.radio, hasleep.signal⟩
  | entered e sig hacts =>
    refine ⟨?_, ?_⟩
    · cases hmove with
      | async p _ hcb =>
        exact .cleaning c f acts hcleanup hreleasing (.async _ hacts (.rx p hcb)) hnew
      | sync p _ hcb => exact .cleaning c f acts hcleanup hreleasing (.swap p sig hacts) hnew
      | wins _ _ _ hbusy =>
        rw [hcleanup] at hbusy
        cases hbusy
      | loses _ _ _ _ => exact .cleaning c f acts hcleanup hreleasing (.rests _ .idle) hnew
    · cases hmove <;> exact SameFrames.used ⟨rfl, rfl, rfl⟩
  | swap p sig hacts =>
    cases hmove with
    | wins _ _ _ hbusy =>
      rw [hcleanup] at hbusy
      cases hbusy
    | loses _ _ _ _ =>
      exact ⟨.cleaning c f acts hcleanup hreleasing (.rests _ .idle) hnew,
        SameFrames.used (.refl d)⟩
  | async _ hacts hasync =>
    subst hacts
    have hcb : d.asyncRxCb ≠ none := by
      cases hasync with
      | rx _ hcb | callback _ hcb => exact hcb
    rcases hasync.moves hmove with ⟨p, rfl, rfl⟩ | ⟨cb, p, rfl, rfl⟩
    · exact ⟨.cleaning c f _ hcleanup .sleep (.async _ rfl (.callback p hcb))
        ⟨hnew.raised, hnew.delivered⟩, SameFrames.used ⟨rfl, rfl, rfl⟩⟩
    · exact ⟨.cleaning c f _ hcleanup .sleep (.rests _ .idle) ⟨hnew.raised, hnew.delivered⟩,
        ⟨Or.inl rfl, Or.inl rfl, Or.inr ⟨cb, p, rfl⟩⟩⟩

/-- The next access of a release of the handler. -/
theorem releasing_moves {acts after : List Act} (hreleasing : Releasing d acts)
    (hmove : Handler.Moves d (.run (acts ++ after)) d' h') :
    SameFrames d d' ∧ d'.size = d.size ∧
      ((∃ rest, Releasing d' rest ∧ h' = .run (rest ++ after) ∧ d'.usage = d.usage) ∨
      (Asleep d' ∧ h' = .rest after ∧ d'.usage = .free)) := by
  cases hreleasing with
  | sleep =>
    cases hmove with
    | acts => exact ⟨⟨rfl, rfl, rfl⟩, rfl, Or.inl ⟨_, .unset rfl, rfl, rfl⟩⟩
    | wins _ _ hswap | loses _ _ hswap => cases hswap
  | unset hradio =>
    cases hmove with
    | acts => exact ⟨⟨rfl, rfl, rfl⟩, rfl, Or.inl ⟨_, .clear ⟨hradio, rfl⟩, rfl, rfl⟩⟩
    | wins _ _ hswap | loses _ _ hswap => cases hswap
  | clear hasleep =>
    cases hmove with
    | acts => exact ⟨⟨rfl, rfl, rfl⟩, rfl, Or.inr ⟨⟨hasleep.radio, hasleep.signal⟩, rfl, rfl⟩⟩
    | wins _ _ hswap | loses _ _ hswap => cases hswap

/-- The outcome of a call is in its frame. -/
theorem Call.Outcome.same (hdelivered : d'.delivered = d.delivered) (hsize : d'.size = d.size)
    (houtcome : c.Outcome d f) : c.Outcome d' f := by
  have hdeliveries : d'.deliveriesTo f = d.deliveriesTo f := by
    rw [Shared.deliveriesTo, hdelivered]
    rfl
  cases c with
  | recv size rssi snr =>
    obtain ⟨x, hx, hlen⟩ := houtcome
    exact ⟨x, hdeliveries.trans hx, by rw [hlen, hsize]⟩
  | send | sendAsync _ | recvAsync _ | cancel | config _ _ | testCw =>
    exact hdeliveries.trans houtcome

/-- `sx12xx_ev_rx_done` writes to the frame that `rx_params` names. -/
theorem deliver_eq {rssi snr : Bool} (p : Packet) (hparams : d.rxParams = some ⟨f, rssi, snr⟩) :
    ∃ x : Delivery, x.frame = f ∧ d.deliver p = { d with
      size := Function.update d.size f x.data.length
      delivered := d.delivered ++ [some x] } := by
  have hlen : ∀ n : Nat, (p.payload.take (if p.payload.length < n then p.payload.length
      else n)).length = if p.payload.length < n then p.payload.length else n := by
    intro n
    rw [List.length_take]
    split_ifs <;> omega
  refine ⟨⟨f, p.payload.take (if p.payload.length < d.size f then p.payload.length else d.size f),
    if rssi then some p.rssi else none, if snr then some p.snr else none⟩, rfl, ?_⟩
  rw [hlen]
  unfold Shared.deliver
  rw [hparams]

/-- The packet is all that the frame receives. -/
theorem deliver_outcome {rssi snr : Bool} {x : Delivery} (size : Nat) (hx : x.frame = f)
    (hnew : Untouched d f) : Call.Outcome { d with
      size := Function.update d.size f x.data.length
      delivered := d.delivered ++ [some x] } f (.recv size rssi snr) := by
  have hnone : d.delivered.filterMap (Option.filter fun x => x.frame = f) = [] := hnew.delivered
  refine ⟨x, ?_, ?_⟩
  · rw [Shared.deliveriesTo, List.filterMap_append, hnone, List.nil_append]
    simp [Option.filter, hx]
  · show _ = Function.update d.size f x.data.length f
    rw [Function.update_self]

/-! ## The next step of the handler -/

/-- The operation that a blocking call waits for. -/
theorem awaited_operation (hblocks : c.blocks = true) (ho : c.operation f = some o) :
    (c = .send ∧ o = .transmit (some (.done f))) ∨
    ∃ size rssi snr, c = .recv size rssi snr ∧ o = .receive f rssi snr := by
  cases c with
  | send =>
    cases ho
    exact Or.inl ⟨rfl, rfl⟩
  | recv size rssi snr =>
    cases ho
    exact Or.inr ⟨size, rssi, snr, rfl, rfl⟩
  | sendAsync _ | recvAsync _ | cancel | config _ _ | testCw => cases hblocks

theorem Used.of_idle (hused : Used d d' .idle) : Used d d' pc := by
  refine ⟨?_, ?_, hused.callbacks⟩
  · rcases hused.raised with hsame | hasync | ⟨f, hf, -⟩
    · exact Or.inl hsame
    · exact Or.inr (Or.inl hasync)
    · cases hf
  · rcases hused.delivered with hsame | ⟨x, hx, -⟩
    · exact Or.inl hsame
    · cases hx

theorem Pc.Awaits.frame (hawaits : pc.Awaits c f) : pc.frame = some f := by
  cases hawaits <;> rfl

/-- The handler of an operation that a call waits for. -/
theorem handled_awaited (hblocks : c.blocks = true) (hawaits : pc.Awaits c f)
    (hwait : pc ≠ .wait c f) (ho : c.operation f = some o) (hbusy : d.usage = .busy)
    (hrunning : Running d o) (hhandles : o.Handles d h) (hnew : Untouched d f)
    (hmove : h.Moves d d' h') : Handled d d' h' pc := by
  rcases hhandles.moves hrunning hbusy hmove with ⟨hhandles', hrunning', hbusy', hused, hkeeps⟩ |
    ⟨rfl, hwins⟩
  · exact ⟨.awaited c f pc o hblocks hawaits hwait ho hbusy' hrunning' hhandles' (hkeeps f hnew),
      hused.of_idle⟩
  · refine ⟨?_, SameFrames.used ⟨rfl, rfl, rfl⟩⟩
    rcases awaited_operation hblocks ho with ⟨rfl, rfl⟩ | ⟨size, rssi, snr, rfl, rfl⟩
    · rcases hwins with ⟨p, g, rssi, snr, heq, -⟩ | ⟨sig, heq, rfl⟩ | ⟨heq, -⟩
      · cases heq
      · cases heq
        exact .completing .send f pc releaseActs rfl hawaits rfl .sleep rfl hnew.raised
          hnew.delivered
      · cases heq
    · rcases hwins with ⟨p, g, rssi', snr', heq, rfl⟩ | ⟨sig, heq, -⟩ | ⟨heq, -⟩
      · cases heq
        exact .delivering size rssi snr f pc p hawaits rfl rfl hrunning.ready.2
          ⟨hnew.raised, hnew.delivered⟩
      · cases heq
      · cases heq

/-- The handler of an operation that no call waits for. -/
theorem handled_detached (hquiet : pc.Quiet) (ho : o.Detached) (hbusy : d.usage = .busy)
    (hrunning : Running d o) (hhandles : o.Handles d h)
    (hnew : ∀ f, pc.frame = some f → Untouched d f) (hmove : h.Moves d d' h') :
    Handled d d' h' pc := by
  rcases hhandles.moves hrunning hbusy hmove with ⟨hhandles', hrunning', hbusy', hused, hkeeps⟩ |
    ⟨rfl, hwins⟩
  · exact ⟨.detached pc o hquiet ho hbusy' hrunning' hhandles' fun f hf => hkeeps f (hnew f hf),
      hused.of_idle⟩
  · refine ⟨?_, SameFrames.used ⟨rfl, rfl, rfl⟩⟩
    have hnew' : ∀ f, pc.frame = some f → Untouched { d with usage := .cleanup } f :=
      fun f hf => ⟨(hnew f hf).raised, (hnew f hf).delivered⟩
    rcases hwins with ⟨p, g, rssi, snr, rfl, -⟩ | ⟨sig, rfl, rfl⟩ | ⟨rfl, rfl⟩
    · exact ho.elim
    · rcases ho with rfl | ⟨id, rfl⟩
      · exact .ending pc releaseActs [] hquiet rfl .sleep rfl (Or.inl rfl) hnew'
      · exact .ending pc releaseActs _ hquiet rfl .sleep rfl (Or.inr ⟨id, rfl⟩) hnew'
    · exact .ending pc releaseActs [] hquiet rfl .sleep rfl (Or.inl rfl) hnew'

/-- The next step of the handler. -/
theorem phase_handle (hphase : Phase d h pc) (hmove : h.Moves d d' h') : Handled d d' h' pc := by
  cases hphase with
  | free _ hfree hasleep hrests hquiet hnew =>
    exact handled_rests hrests hmove fun id =>
      .free pc hfree ⟨hasleep.radio, hasleep.signal⟩ .idle hquiet fun f hf => (hnew f hf).async id
  | setup c f a todo hbusy hsleep hrests hprepares hnew =>
    exact handled_rests hrests hmove fun id =>
      .setup c f a todo hbusy hsleep .idle (hprepares.core (by rfl)) (hnew.async id)
  | configured tx frequency f _ hbusy hasleep hrests hpc hnew =>
    exact handled_rests hrests hmove fun id =>
      .configured tx frequency f pc hbusy ⟨hasleep.radio, hasleep.signal⟩ .idle hpc (hnew.async id)
  | awaited c f _ o hblocks hawaits hwait ho hbusy hrunning hhandles hnew =>
    exact handled_awaited hblocks hawaits hwait ho hbusy hrunning hhandles hnew hmove
  | detached _ o hquiet ho hbusy hrunning hhandles hnew =>
    exact handled_detached hquiet ho hbusy hrunning hhandles hnew hmove
  | cleaning c f acts hcleanup hreleasing hlate hnew =>
    exact handled_late hcleanup hreleasing hlate hnew hmove
  | delivering size rssi snr f _ p hawaits hcleanup hh hparams hnew =>
    subst hh
    cases hmove with
    | acts =>
      obtain ⟨x, hx, heq⟩ := deliver_eq p hparams
      have heq : (Act.deliver p).run d = _ := heq
      rw [heq]
      exact ⟨.completing _ f pc releaseActs rfl hawaits hcleanup .sleep rfl hnew.raised
        (deliver_outcome size hx hnew),
        ⟨Or.inl rfl, Or.inr ⟨x, hx ▸ hawaits.frame, rfl⟩, Or.inl rfl⟩⟩
    | wins _ _ hswap | loses _ _ hswap => cases hswap
  | completing c f _ acts hblocks hawaits hcleanup hreleasing hh hraised houtcome =>
    subst hh
    obtain ⟨hsame, hsize, ⟨rest, hreleasing', rfl, husage⟩ | ⟨hasleep, rfl, hfree⟩⟩ :=
      releasing_moves hreleasing hmove
    · exact ⟨.completing c f pc rest hblocks hawaits (husage.trans hcleanup) hreleasing' rfl
        (hsame.raised ▸ hraised) (houtcome.same hsame.delivered hsize), hsame.used⟩
    · exact ⟨.raising c f pc hblocks hawaits hfree hasleep rfl (hsame.raised ▸ hraised)
        (houtcome.same hsame.delivered hsize), hsame.used⟩
  | raising c f _ hblocks hawaits hfree hasleep hh hraised houtcome =>
    subst hh
    cases hmove with
    | acts =>
      exact ⟨.raised c f pc hblocks hawaits hfree ⟨hasleep.radio, hasleep.signal⟩ .idle
        List.mem_cons_self (houtcome.same rfl rfl),
        ⟨Or.inr (Or.inr ⟨f, hawaits.frame, rfl⟩), Or.inl rfl, Or.inl rfl⟩⟩
    | wins _ _ hswap | loses _ _ hswap => cases hswap
  | raised c f _ hblocks hawaits hfree hasleep hrests hraised houtcome =>
    exact handled_rests hrests hmove fun id =>
      .raised c f pc hblocks hawaits hfree ⟨hasleep.radio, hasleep.signal⟩ .idle
        (List.mem_cons_of_mem _ hraised) (houtcome.same rfl rfl)
  | ending _ acts after hquiet hcleanup hreleasing hh hafter hnew =>
    subst hh
    obtain ⟨hsame, -, ⟨rest, hreleasing', rfl, husage⟩ | ⟨hasleep, rfl, hfree⟩⟩ :=
      releasing_moves hreleasing hmove
    · exact ⟨.ending pc rest after hquiet (husage.trans hcleanup) hreleasing' rfl hafter
        fun f hf => hsame.untouched (hnew f hf), hsame.used⟩
    · refine ⟨.free pc hfree hasleep ?_ hquiet fun f hf => hsame.untouched (hnew f hf), hsame.used⟩
      rcases hafter with rfl | ⟨id, rfl⟩
      · exact .idle
      · exact .raise id

end Winegrid.Sx12xx
