import Winegrid.Esp.AntiLoop
import Winegrid.Esp.Blame
import Winegrid.Esp.Protocol

/-!
# The laws of a device that follows the protocol

Two simulations carry the laws of the protocol to every firmware that follows
it.

* `no_false_blame`: a version goes to `failed_fw` only after its rollback, when
  power is lost in a running client only with a settled marker, and the images
  that are installed find their own version in it.
* `no_install_loop`: the image of the one version that is offered is installed
  at most once, when it never gets to confirm itself and never erases its
  marker.  `Offers` is what the law needs of a client.
-/

namespace Winegrid.Esp

universe u v w

variable {σ : Type u} {ℓ : Type v} {ο : Type w} {F : Firmware σ ℓ ο} {P : Platform}
  {start : Flash → Prop}

/-! ## The marker of failed versions -/

/-- Where power is lost while a client runs, the marker is settled. -/
def SettledDevice (F : Firmware σ ℓ ο) : Sys σ → Label ℓ ο → Prop
  | .up c, .cut (.step l) n =>
    ∀ c', F.next c l = some c' → Settled ((F.journal c).upTo (F.journal c') n).disk
  | .up c, .reset => Settled (F.journal c).disk
  | _, _ => True

instance (flash : Flash) : Decidable (Settled flash) :=
  inferInstanceAs (Decidable (_ ∨ _))

instance (s : Sys σ) (l : Label ℓ ο) : Decidable (SettledDevice F s l) :=
  match s, l with
  | .up c, .cut (.step l) n => inferInstanceAs (Decidable (∀ c' ∈ F.next c l,
      Settled ((F.journal c).upTo (F.journal c') n).disk))
  | .up c, .reset => inferInstanceAs (Decidable (Settled (F.journal c).disk))
  | .up _, .done _ | .up _, .cut (.boot _) _ | .off _, _ | .offline _, _ => .isTrue trivial

/-- `app_main` starts no attempt. -/
theorem inBoot_flow {w : Bytes} {m m' : Marker} {es : List Effect}
    (h : (marker P.version start).Run (InBoot w) m es m') (hm : m.phase = .off) :
    ∀ w' flow, m'.phase = .up w' flow → flow = .idle := by
  refine h.invariant (I := fun _ m => ∀ w' flow, m.phase = .up w' flow → flow = .idle) ?_ ?_
  · intro w' flow hphase
    rw [hm] at hphase
    cases hphase
  · rintro - m e m' - ⟨hphase, -⟩ hnext w' flow hup
    obtain ⟨hmove, -⟩ := marker_move hnext
    rw [hup] at hmove
    rcases hphase with hphase | hphase <;> rw [hphase] at hmove <;> cases hmove
    rfl

/-- A device that settles its markers is a protocol that does. -/
def blameSimulation (hF : F.Follows P) (start : Flash → Prop) :
    Machine.Simulation (F.device P start) (SettledDevice F) (marker P.version start)
      SettledReset where
  R := hF.Shows
  init := by
    rintro s ⟨flash, hflash, rfl⟩
    exact ⟨_, ⟨flash, hflash, rfl⟩, rfl⟩
  step := by
    intro s l s' m hm hok h
    cases l with
    | done a =>
      obtain ⟨m', hrun, hm'⟩ := hF.work_run start hm h
      exact ⟨_, m', hrun.imp fun _ _ _ hw he => absurd he (works_ne_reset hw), hm'⟩
    | cut a n =>
      obtain ⟨s'', hwork, rfl⟩ := Option.map_eq_some_iff.mp h
      obtain ⟨u, hu, hjournal⟩ := hF.cut_run start hm hwork n
      have hsettled : (marker P.version start).Run SettledReset m _ u :=
        hu.imp fun _ _ _ hw he => absurd he (works_ne_reset hw)
      refine ⟨_, _, hsettled.snoc ?_ (next_reset _ _ u), ?_⟩
      · intro _ w flow hup hflow
        rw [hjournal]
        cases s with
        | off j =>
          cases hm
          exact absurd (inBoot_flow hu rfl w flow hup) hflow
        | offline j => cases a <;> cases hwork
        | up c =>
          cases a with
          | boot o => cases hwork
          | step l =>
            obtain ⟨c', hnext, rfl⟩ := Option.map_eq_some_iff.mp hwork
            exact hok c' hnext
      · rw [hjournal]
        exact rfl
    | reset =>
      cases h
      refine ⟨_, _, .single ?_ (next_reset _ _ m), ?_⟩
      · intro _ w flow hup _
        cases s with
        | off j =>
          cases hm
          cases hup
        | offline j =>
          obtain ⟨w', rfl⟩ := hm
          cases hup
        | up c =>
          rw [hF.shows_journal hm]
          exact hok
      · rw [hF.shows_journal hm]
        exact rfl

/-- The law of `failed_fw`. -/
theorem no_false_blame (hF : F.Follows P) (hstart : ∀ flash, start flash → flash.pending = none)
    {s : Sys σ} (h : (F.device P start).Reach (SettledDevice F) s)
    (hown : OwnMarker (F.log s).log) : Blamed (F.log s).log := by
  obtain ⟨m, hm, hshows⟩ := (blameSimulation hF start).reach h
  rw [← hF.shows_journal hshows] at hown ⊢
  exact blamed_reach hstart hm hown

/-! ## The anti-loop law -/

/-- In a step over `flash`, an attempt and an installed image are of `v`, and
`v` has not failed. -/
def OffersEffect (v : Bytes) (flash : Flash) (e : Effect) : Prop :=
  (∀ x, e = .nvsSet .pendingFw x → x = v ∧ flash.failed ≠ some v) ∧
    ∀ slot x, e = .setBoot slot x true → x = v

/-- Effects that only talk offer nothing. -/
theorem offersEffect_of_talk {v : Bytes} {flash : Flash} {e : Effect} (h : Talks e) :
    OffersEffect v flash e := by
  refine ⟨fun x hx => ?_, fun slot x hx => ?_⟩
  · subst hx
    exact absurd h id
  · subst hx
    exact absurd h id

/-- A client to which only `v` is offered attempts and installs only `v`. -/
structure Firmware.Offers (F : Firmware σ ℓ ο) (v : Bytes) (ok : σ → ℓ → Prop) where
  Keeps : σ → Prop
  fresh : ∀ build slot j, Keeps (F.fresh build slot j)
  next : ∀ c l c', Keeps c → ok c l → F.next c l = some c' →
    Keeps c' ∧ ∀ e ∈ (F.journal c).since (F.journal c'), OffersEffect v (F.journal c).disk e

/-- The image of `v` never gets to confirm itself, and the steps of the client
meet `ok`. -/
def BadImage (P : Platform) (F : Firmware σ ℓ ο) (v : Bytes) (ok : σ → ℓ → Prop) :
    Sys σ → Label ℓ ο → Prop
  | .off j, .done (.boot _) => (Firmware.bootBuild P j).version ≠ v
  | .off j, .cut (.boot o) n =>
    (Firmware.bootBuild P j).version = v → .markValid ∉ (j.since (F.appMain P o j)).take n
  | .up c, .done (.step l) => ok c l
  | .up c, .cut (.step l) _ => ok c l
  | _, _ => True

/-- The image of `v` crashes before it erases `pending_fw`. -/
def KeepsMarker (P : Platform) (F : Firmware σ ℓ ο) (v : Bytes) : Sys σ → Label ℓ ο → Prop
  | .off j, .cut (.boot o) n =>
    (Firmware.bootBuild P j).version = v → .nvsErase .pendingFw ∉ (j.since (F.appMain P o j)).take n
  | _, _ => True

/-- The image of `v` is installed at most once, no attempt starts after that,
and a client that runs after the rollback finds `v` in `failed_fw`. -/
def InstallsOnce (F : Firmware σ ℓ ο) (v : Bytes) (s : Sys σ) : Prop :=
  installs v (F.log s).log ≤ 1 ∧ Refused v (F.log s).log ∧
    ∀ c, s = .up c → ¬ NotRolledBack v (F.journal c).log → (F.journal c).disk.failed = some v

/-- The conditions of the anti-loop law. -/
def LoopConditions (P : Platform) (F : Firmware σ ℓ ο) (v : Bytes) (ok : σ → ℓ → Prop)
    (s : Sys σ) (l : Label ℓ ο) : Prop :=
  BadImage P F v ok s l ∧ KeepsMarker P F v s l

instance [∀ c l, Decidable (ok c l)] (s : Sys σ) (l : Label ℓ ο) :
    Decidable (LoopConditions P F v ok s l) :=
  match s, l with
  | .off j, .done (.boot _) =>
    inferInstanceAs (Decidable ((Firmware.bootBuild P j).version ≠ v ∧ True))
  | .off j, .cut (.boot o) n =>
    inferInstanceAs (Decidable (((Firmware.bootBuild P j).version = v →
      .markValid ∉ (j.since (F.appMain P o j)).take n) ∧
      ((Firmware.bootBuild P j).version = v →
        .nvsErase .pendingFw ∉ (j.since (F.appMain P o j)).take n)))
  | .up c, .done (.step l) | .up c, .cut (.step l) _ =>
    inferInstanceAs (Decidable (ok c l ∧ True))
  | .off _, .done (.step _) | .off _, .cut (.step _) _ | .off _, .reset | .offline _, _
  | .up _, .done (.boot _) | .up _, .cut (.boot _) _ | .up _, .reset => .isTrue ⟨trivial, trivial⟩

/-- What the conditions allow as an effect of the work of a device. -/
def Allowed (P : Platform) (F : Firmware σ ℓ ο) (v : Bytes) : Sys σ → Effect → Prop
  | .off j, e => (Firmware.bootBuild P j).version = v → e ≠ .nvsErase .pendingFw ∧ e ≠ .markValid
  | .offline _, _ => True
  | .up c, e => OffersEffect v (F.journal c).disk e

section Loop

variable {v : Bytes} {ok : σ → ℓ → Prop} {s s' : Sys σ} {a : Work ℓ ο} {m : Marker} {e : Effect}

theorem onlyOffers_of_allowed (h : Allowed P F v s e) (hw : Firmware.Follows.Works F P s m e) :
    OnlyOffers v m e := by
  cases s with
  | off j =>
    rcases hw.1 with hphase | hphase <;> rw [OnlyOffers, hphase]
    · trivial
    · exact h
  | offline j => exact absurd hw id
  | up c =>
    obtain ⟨⟨w, flow, hphase⟩, -, hfailed⟩ := hw
    rw [OnlyOffers, hphase]
    exact ⟨fun x hx => hfailed ▸ h.1 x hx, h.2⟩

theorem onlyOffers_reset (v : Bytes) (m : Marker) : OnlyOffers v m .reset := by
  rcases m with ⟨j, _ | w | ⟨w, flow⟩⟩
  · trivial
  · exact fun _ => ⟨by simp, by simp⟩
  · exact ⟨by simp, by simp⟩

theorem done_allowed (hO : F.Offers v ok) (hkeeps : ∀ c, s = .up c → hO.Keeps c)
    (hwork : F.work P s a = some s') (hok : LoopConditions P F v ok s (.done a))
    (he : e ∈ (F.log s).since (F.log s')) : Allowed P F v s e := by
  cases s with
  | off j =>
    cases a with
    | boot o => exact fun hv => absurd hv hok.1
    | step l => cases hwork
  | offline j => trivial
  | up c =>
    cases a with
    | boot o => cases hwork
    | step l =>
      obtain ⟨c', hnext, rfl⟩ := Option.map_eq_some_iff.mp hwork
      exact (hO.next c l c' (hkeeps c rfl) hok.1 hnext).2 e he

theorem cut_allowed (hF : F.Follows P) (hO : F.Offers v ok) (hkeeps : ∀ c, s = .up c → hO.Keeps c)
    (hwork : F.work P s a = some s') {n : Nat} (hok : LoopConditions P F v ok s (.cut a n))
    (he : e ∈ ((F.log s).since (F.log s')).take n) : Allowed P F v s e := by
  cases s with
  | off j =>
    cases a with
    | boot o =>
      cases hwork
      rw [hF.log_boot] at he
      intro hv
      exact ⟨fun heq => hok.2 hv (heq ▸ he), fun heq => hok.1 hv (heq ▸ he)⟩
    | step l => cases hwork
  | offline j => trivial
  | up c =>
    cases a with
    | boot o => cases hwork
    | step l =>
      obtain ⟨c', hnext, rfl⟩ := Option.map_eq_some_iff.mp hwork
      exact (hO.next c l c' (hkeeps c rfl) hok.1 hnext).2 e (List.mem_of_mem_take he)

/-- The client that a device ends its work with attempts and installs only
`v`. -/
theorem work_keeps (hO : F.Offers v ok) (hkeeps : ∀ c, s = .up c → hO.Keeps c)
    (hwork : F.work P s a = some s') (hok : LoopConditions P F v ok s (.done a)) :
    ∀ c, s' = .up c → hO.Keeps c := by
  intro c heq
  subst heq
  cases s with
  | off j =>
    cases a with
    | boot o =>
      simp only [Firmware.work, Firmware.boot, Option.some_inj] at hwork
      split_ifs at hwork
      cases hwork
      exact hO.fresh _ _ _
    | step l => cases hwork
  | offline j => cases a <;> cases hwork
  | up c₀ =>
    cases a with
    | boot o => cases hwork
    | step l =>
      obtain ⟨c', hnext, hc⟩ := Option.map_eq_some_iff.mp hwork
      cases hc
      exact (hO.next c₀ l c (hkeeps c₀ rfl) hok.1 hnext).1

/-- A device whose bad image keeps its marker is a protocol that does. -/
def loopSimulation (hF : F.Follows P) (hO : F.Offers v ok) (start : Flash → Prop) :
    Machine.Simulation (F.device P start) (LoopConditions P F v ok) (marker P.version start)
      (OnlyOffers v) where
  R s m := hF.Shows s m ∧ ∀ c, s = .up c → hO.Keeps c
  init := by
    rintro s ⟨flash, hflash, rfl⟩
    exact ⟨_, ⟨flash, hflash, rfl⟩, rfl, fun c hc => by cases hc⟩
  step := by
    rintro s l s' m ⟨hm, hkeeps⟩ hok h
    cases l with
    | done a =>
      obtain ⟨m', hrun, hm'⟩ := hF.work_run start hm h
      exact ⟨_, m', hrun.imp fun _ _ he hw =>
        onlyOffers_of_allowed (done_allowed hO hkeeps h hok he) hw, hm', work_keeps hO hkeeps h hok⟩
    | cut a n =>
      obtain ⟨s'', hwork, rfl⟩ := Option.map_eq_some_iff.mp h
      obtain ⟨u, hu, hjournal⟩ := hF.cut_run start hm hwork n
      have honly : (marker P.version start).Run (OnlyOffers v) m _ u := hu.imp fun _ _ he hw =>
        onlyOffers_of_allowed (cut_allowed hF hO hkeeps hwork hok he) hw
      refine ⟨_, _, honly.snoc (onlyOffers_reset v u) (next_reset _ _ u), ?_,
        fun c hc => by cases hc⟩
      rw [hjournal]
      exact rfl
    | reset =>
      cases h
      refine ⟨_, _, .single (onlyOffers_reset v m) (next_reset _ _ m), ?_, fun c hc => by cases hc⟩
      rw [hF.shows_journal hm]
      exact rfl

/-- The anti-loop law. -/
theorem no_install_loop (hF : F.Follows P) (hO : F.Offers v ok) (hv : v.length < 32)
    (hstart : ∀ flash, start flash →
      flash.imgState = .valid ∧ P.version (flash.app flash.bootSlot) ≠ v)
    (h : (F.device P start).Reach (LoopConditions P F v ok) s) : InstallsOnce F v s := by
  obtain ⟨m, hm, hshows, -⟩ := (loopSimulation hF hO start).reach h
  obtain ⟨hinstalls, hrefused, hback⟩ := loop_reach hv hstart hm
  rw [hF.shows_journal hshows] at hinstalls hrefused hback
  refine ⟨hinstalls, hrefused, ?_⟩
  intro c heq
  subst heq
  obtain ⟨w, flow, rfl, -⟩ := hshows
  exact hback w flow rfl

end Loop

end Winegrid.Esp
