import Winegrid.Esp.Device
import Winegrid.Esp.Marker
import Mathlib.Tactic.Set

/-!
# Devices that follow the protocol

`Follows` is the contract of a firmware: its start-up leaves the markers
alone, and every step of its client is a run of the protocol.

* `boot_run`: `app_main` is a run of the protocol.
* `work_run` and `cut_run`: so is all the work of a device, and every part of
  it that is done before power is lost.
-/

namespace Winegrid.Esp

universe u v w

variable {σ : Type u} {ℓ : Type v} {ο : Type w} {F : Firmware σ ℓ ο} {P : Platform}
  {start : Flash → Prop}

/-- The version that is compiled into an image. -/
def Platform.version (P : Platform) (image : Bytes) : Bytes := (P.build image).version

/-- A label of `app_main` of an image of version `w`. -/
def InBoot (w : Bytes) (m : Marker) (e : Effect) : Prop :=
  (m.phase = .off ∨ m.phase = .booting w) ∧ e ≠ .reset

/-- A label of a client that started its step over `flash`. -/
def InClient (flash : Flash) (m : Marker) (e : Effect) : Prop :=
  (∃ w flow, m.phase = .up w flow) ∧ e ≠ .reset ∧ m.journal.disk.failed = flash.failed

/-- An effect of the start-up between the mark-valid call and the client. -/
def Prepares : Effect → Prop
  | .call c => c ≠ .clientStart
  | .nvsSet key _ => key ≠ .pendingFw ∧ key ≠ .failedFw
  | _ => False

/-- The contract. -/
structure Firmware.Follows (F : Firmware σ ℓ ο) (P : Platform) where
  Link : σ → Flow → Prop
  startup : ∀ o nvs, ∀ e ∈ (F.startup o nvs).1, Prepares e
  journal_fresh : ∀ build slot j, F.journal (F.fresh build slot j) = j
  fresh : ∀ build slot (j : Log), j.disk.bootSlot = slot → Link (F.fresh build slot j) .idle
  next : ∀ c l c' flow, Link c flow → F.next c l = some c' →
    ∃ es flow', Link c' flow' ∧ ∀ start w, (marker P.version start).Run
      (InClient (F.journal c).disk) ⟨F.journal c, .up w flow⟩ es ⟨F.journal c', .up w flow'⟩

/-! ## `app_main` -/

section Boot

variable {w : Bytes} {j : Log}

/-- The journal of a run is the effects of its labels. -/
theorem run_journal {ok : Marker → Effect → Prop} {m m' : Marker} {es : List Effect}
    (h : (marker P.version start).Run ok m es m') : m'.journal = m.journal.writes es := by
  induction h with
  | nil => rfl
  | @snoc u r es e h hok hnext ih =>
    obtain ⟨-, hjournal⟩ := marker_move hnext
    rw [hjournal, Journal.writes_append, ih]
    rfl

/-- One effect of `app_main` that the protocol allows. -/
theorem boot_single {e : Effect} {p' : Phase} (he : e ≠ .reset)
    (h : Phase.next P.version j.disk (.booting w) e = some p') :
    (marker P.version start).Run (InBoot w) ⟨j, .booting w⟩ [e] ⟨j.write e, p'⟩ :=
  .single ⟨Or.inr rfl, he⟩ (by simp [marker, h])

/-- A call other than the start of the client. -/
theorem call_run {c : Call} (hc : c ≠ .clientStart) :
    (marker P.version start).Run (InBoot w) ⟨j, .booting w⟩ [.call c]
      ⟨j.write (.call c), .booting w⟩ :=
  boot_single (by simp) (by simp [Phase.next, hc])

/-- Calls, and keys other than the markers. -/
theorem prepares_run (P : Platform) (start : Flash → Prop) (w : Bytes) (j : Log)
    {es : List Effect} (h : ∀ e ∈ es, Prepares e) :
    (marker P.version start).Run (InBoot w) ⟨j, .booting w⟩ es ⟨j.writes es, .booting w⟩ ∧
      (j.writes es).disk.pending = j.disk.pending ∧
      (j.writes es).disk.imgState = j.disk.imgState ∧
      (j.writes es).disk.bootSlot = j.disk.bootSlot := by
  induction es generalizing j with
  | nil => exact ⟨.nil _, rfl, rfl, rfl⟩
  | cons e es ih =>
    have he := h e List.mem_cons_self
    obtain ⟨hrest, hpending, hstate, hslot⟩ :=
      ih (j.write e) fun e he => h e (List.mem_cons_of_mem _ he)
    rw [Journal.writes_cons, hpending, hstate, hslot]
    cases e with
    | call c => exact ⟨(call_run he).trans hrest, rfl, rfl, rfl⟩
    | nvsSet key v =>
      have hset : Phase.next P.version j.disk (.booting w) (.nvsSet key v) = some (.booting w) := by
        simp [Phase.next, he.1, he.2]
      exact ⟨(boot_single (by simp) hset).trans hrest, by simp [he.1], rfl, rfl⟩
    | _ => exact absurd he id

/-- `reconcile_pending_ota` blames another version, and then clears the
marker. -/
theorem reconcilePendingOta_run (P : Platform) (start : Flash → Prop) (w : Bytes) (j : Log) : ∃ es,
    (marker P.version start).Run (InBoot w) ⟨j, .booting w⟩ es
      ⟨reconcilePendingOta w j, .booting w⟩ ∧
    (reconcilePendingOta w j).disk.pending = none := by
  rcases hpending : j.disk.pending with _ | x
  · have hload : loadNvsStr j.disk.nvs .pendingFw 32 = none := hpending
    simp only [reconcilePendingOta, hload]
    exact ⟨[], .nil _, hpending⟩
  · have hload : loadNvsStr j.disk.nvs .pendingFw 32 = some x := hpending
    simp only [reconcilePendingOta, hload]
    split_ifs with hx
    · refine ⟨[.nvsErase .pendingFw], boot_single (by simp) ?_, by simp⟩
      simp [Phase.next, hpending, hx]
    · have hlen : x.length < 32 := (loadNvsStr_eq_some.mp hload).2
      refine ⟨[.nvsSet .failedFw x, .nvsErase .pendingFw],
        (boot_single (by simp) ?_).trans (boot_single (by simp) ?_), by simp⟩
      · simp [Phase.next, hpending, hx]
      · simp [Phase.next, hpending, hlen]

/-- With the marker cleared, the image is confirmed. -/
theorem confirmImage_run (P : Platform) (start : Flash → Prop) (w : Bytes)
    (hpending : j.disk.pending = none) : ∃ es,
    (marker P.version start).Run (InBoot w) ⟨j, .booting w⟩ es ⟨confirmImage j, .booting w⟩ ∧
    (confirmImage j).disk.pending = none ∧ (confirmImage j).disk.imgState ≠ .pendingVerify := by
  unfold confirmImage
  split_ifs with hstate
  · refine ⟨[.markValid], boot_single (by simp) ?_, hpending, ?_⟩
    · simp [Phase.next, hpending, hstate]
    · simp [Flash.apply]
  · exact ⟨[], .nil _, hpending, hstate⟩

theorem reconcilePendingOta_bootSlot (w : Bytes) (j : Log) :
    (reconcilePendingOta w j).disk.bootSlot = j.disk.bootSlot := by
  unfold reconcilePendingOta
  split
  · rfl
  · simp only
    split_ifs <;> rfl

theorem confirmImage_bootSlot (j : Log) : (confirmImage j).disk.bootSlot = j.disk.bootSlot := by
  unfold confirmImage
  split_ifs <;> rfl

/-- The calls between the reconciliation and the mark-valid call. -/
def networkCalls : List Effect := [.call .netifInit, .call .eventLoopCreate, .call .exampleConnect]

/-- `app_main` up to the mark-valid call. -/
theorem confirm_run (P : Platform) (start : Flash → Prop) (j : Log) : ∃ es,
    (marker P.version start).Run (InBoot (Firmware.bootBuild P j).version) ⟨j, .off⟩ es
      ⟨Firmware.confirm P j, .booting (Firmware.bootBuild P j).version⟩ ∧
    (Firmware.confirm P j).disk.pending = none ∧
    (Firmware.confirm P j).disk.imgState ≠ .pendingVerify ∧
    (Firmware.confirm P j).disk.bootSlot = j.disk.bootSelect := by
  have hw : (Firmware.bootBuild P j).version = P.version (j.disk.app j.disk.bootSelect) := rfl
  set w := (Firmware.bootBuild P j).version
  have hboot : (marker P.version start).Run (InBoot w) ⟨j, .off⟩ [.boot j.disk.bootSelect w]
      ⟨j.write (.boot j.disk.bootSelect w), .booting w⟩ :=
    .single ⟨Or.inl rfl, by simp⟩ (by simp [marker, Phase.next, hw])
  set j₁ := (j.write (.boot j.disk.bootSelect w)).write (.call .nvsFlashInit)
  have hinit : (marker P.version start).Run (InBoot w)
      ⟨j.write (.boot j.disk.bootSelect w), .booting w⟩ [.call .nvsFlashInit] ⟨j₁, .booting w⟩ :=
    call_run (by decide)
  obtain ⟨es₁, hreconcile, hpending₁⟩ := reconcilePendingOta_run P start w j₁
  obtain ⟨hnetwork, hpending₂, -, hslot₂⟩ :=
    prepares_run P start w (reconcilePendingOta w j₁)
      (show ∀ e ∈ networkCalls, Prepares e by simp [networkCalls, Prepares])
  obtain ⟨es₃, hconfirm, hpending₃, hstate₃⟩ :=
    confirmImage_run P start w (hpending₂.trans hpending₁)
  refine ⟨_, (((hboot.trans hinit).trans hreconcile).trans hnetwork).trans hconfirm, hpending₃,
    hstate₃, ?_⟩
  calc (confirmImage ((reconcilePendingOta w j₁).writes networkCalls)).disk.bootSlot
      = ((reconcilePendingOta w j₁).writes networkCalls).disk.bootSlot := confirmImage_bootSlot _
    _ = (reconcilePendingOta w j₁).disk.bootSlot := hslot₂
    _ = j₁.disk.bootSlot := reconcilePendingOta_bootSlot w j₁
    _ = j.disk.bootSelect := rfl

end Boot

/-! ## A client -/

section Client

variable {w : Bytes} {j : Log} {flow : Flow} {flash : Flash}

/-- One effect of a client that the protocol allows. -/
theorem up_single {e : Effect} {p' : Phase} (hfailed : j.disk.failed = flash.failed)
    (he : e ≠ .reset) (h : Phase.next P.version j.disk (.up w flow) e = some p') :
    (marker P.version start).Run (InClient flash) ⟨j, .up w flow⟩ [e] ⟨j.write e, p'⟩ :=
  .single ⟨⟨w, flow, rfl⟩, he, hfailed⟩ (by simp [marker, h])

/-- Talk is free. -/
theorem talk_run (start : Flash → Prop) (w : Bytes) (flow : Flow) {es : List Effect}
    (hfailed : j.disk.failed = flash.failed) (h : ∀ e ∈ es, Talks e) :
    (marker P.version start).Run (InClient flash) ⟨j, .up w flow⟩ es ⟨j.writes es, .up w flow⟩ := by
  induction es generalizing j with
  | nil => exact .nil _
  | cons e es ih =>
    have hdisk : (j.writes [e]).disk = j.disk := writes_talk (by simp [h])
    have hnext : Phase.next P.version j.disk (.up w flow) e = some (.up w flow) := by
      have he := h e List.mem_cons_self
      cases e <;> first | rfl | exact absurd he id
    have hreset : e ≠ .reset := by
      intro heq
      subst heq
      exact h _ List.mem_cons_self
    rw [Journal.writes_cons]
    exact (up_single hfailed hreset hnext).trans
      (ih (hdisk ▸ hfailed) fun e he => h e (List.mem_cons_of_mem _ he))

/-- A run that is followed by a run to some state that `link` allows. -/
theorem prepend_run {j k j' : Log} {flow' : Flow} {es : List Effect} {link : Flow → Prop}
    (hrun : ∀ start w, (marker P.version start).Run (InClient flash) ⟨j, .up w flow⟩ es
      ⟨k, .up w flow'⟩)
    (h : ∃ es flow'', link flow'' ∧ ∀ start w, (marker P.version start).Run (InClient flash)
      ⟨k, .up w flow'⟩ es ⟨j', .up w flow''⟩) :
    ∃ es flow'', link flow'' ∧ ∀ start w, (marker P.version start).Run (InClient flash)
      ⟨j, .up w flow⟩ es ⟨j', .up w flow''⟩ := by
  obtain ⟨fs, flow'', hlink, hrest⟩ := h
  exact ⟨es ++ fs, flow'', hlink, fun start w => (hrun start w).trans (hrest start w)⟩

end Client

/-! ## Devices -/

namespace Firmware.Follows

variable (hF : F.Follows P)

/-- The state of the protocol that a device shows. -/
def Shows : Sys σ → Marker → Prop
  | .off j, m => m = ⟨j, .off⟩
  | .offline j, m => ∃ w, m = ⟨j, .booting w⟩
  | .up c, m => ∃ w flow, m = ⟨F.journal c, .up w flow⟩ ∧ hF.Link c flow

/-- Where the labels of the work of a device stand. -/
def Works (F : Firmware σ ℓ ο) (P : Platform) : Sys σ → Marker → Effect → Prop
  | .off j => InBoot (Firmware.bootBuild P j).version
  | .offline _ => fun _ _ => False
  | .up c => InClient (F.journal c).disk

theorem boot_run (o : ο) (j : Log) : ∃ es m',
    (marker P.version start).Run (InBoot (Firmware.bootBuild P j).version) ⟨j, .off⟩ es m' ∧
      hF.Shows (F.boot P o j) m' := by
  obtain ⟨es, hrun, hpending, hstate, hslot⟩ := confirm_run P start j
  obtain ⟨hprepare, hpending', hstate', hslot'⟩ := prepares_run P start
    (Firmware.bootBuild P j).version (Firmware.confirm P j)
    (hF.startup o (Firmware.confirm P j).disk.nvs)
  rcases hstarted : (F.startup o (Firmware.confirm P j).disk.nvs).2 with _ | _
  · refine ⟨_, _, hrun.trans hprepare, ?_⟩
    simp [Firmware.boot, Firmware.appMain, hstarted, Shows]
  · have hnext : Phase.next P.version
        ((Firmware.confirm P j).writes (F.startup o (Firmware.confirm P j).disk.nvs).1).disk
        (.booting (Firmware.bootBuild P j).version) (.call .clientStart) =
          some (.up (Firmware.bootBuild P j).version .idle) := by
      rw [Phase.next, if_pos rfl, if_pos ⟨hpending'.trans hpending, hstate' ▸ hstate⟩]
    refine ⟨_, _, (hrun.trans hprepare).trans (boot_single (by simp) hnext), ?_⟩
    have hmain : F.appMain P o j = ((Firmware.confirm P j).writes
        (F.startup o (Firmware.confirm P j).disk.nvs).1).write (.call .clientStart) := by
      simp only [Firmware.appMain, hstarted, if_true, Journal.writes_append]
      rfl
    have hlink := hF.fresh (Firmware.bootBuild P j) j.disk.bootSelect (F.appMain P o j)
      (by rw [hmain]; exact hslot'.trans hslot)
    rw [Firmware.boot, if_pos hstarted]
    exact ⟨_, .idle, by rw [hF.journal_fresh, hmain], hlink⟩

/-- The journal of the device after `app_main`. -/
theorem log_boot (hF : F.Follows P) (o : ο) (j : Log) : F.log (F.boot P o j) = F.appMain P o j := by
  unfold Firmware.boot
  split_ifs
  · exact hF.journal_fresh _ _ _
  · rfl

theorem shows_journal {s : Sys σ} {m : Marker} (hm : hF.Shows s m) : m.journal = F.log s := by
  cases s with
  | off j => exact congrArg Marker.journal hm
  | offline j =>
    obtain ⟨w, rfl⟩ := hm
    rfl
  | up c =>
    obtain ⟨w, flow, rfl, -⟩ := hm
    rfl

/-- The work of a device is a run of the protocol, over the effects of the
work. -/
theorem work_run {s s' : Sys σ} {m : Marker} {a : Work ℓ ο} (start : Flash → Prop)
    (hm : hF.Shows s m) (h : F.work P s a = some s') : ∃ m',
      (marker P.version start).Run (Works F P s) m ((F.log s).since (F.log s')) m' ∧
        hF.Shows s' m' := by
  have hrun : ∃ es m', (marker P.version start).Run (Works F P s) m es m' ∧ hF.Shows s' m' := by
    cases s with
    | off j =>
      cases a with
      | boot o =>
        cases hm
        cases h
        exact hF.boot_run o j
      | step l => cases h
    | offline j => cases a <;> cases h
    | up c =>
      cases a with
      | boot o => cases h
      | step l =>
        obtain ⟨c', hnext, rfl⟩ := Option.map_eq_some_iff.mp h
        obtain ⟨w, flow, rfl, hlink⟩ := hm
        obtain ⟨es, flow', hlink', hrun⟩ := hF.next c l c' flow hlink hnext
        exact ⟨es, _, hrun start w, w, flow', rfl, hlink'⟩
  obtain ⟨es, m', hrun, hm'⟩ := hrun
  refine ⟨m', ?_, hm'⟩
  rw [← hF.shows_journal hm, ← hF.shows_journal hm', run_journal hrun, Journal.since_writes]
  exact hrun

/-- Work that is cut is a run of the protocol over the effects that were
done. -/
theorem cut_run {s s' : Sys σ} {m : Marker} {a : Work ℓ ο} (start : Flash → Prop)
    (hm : hF.Shows s m) (h : F.work P s a = some s') (n : Nat) : ∃ u,
      (marker P.version start).Run (Works F P s) m (((F.log s).since (F.log s')).take n) u ∧
        u.journal = (F.log s).upTo (F.log s') n := by
  obtain ⟨m', hrun, -⟩ := hF.work_run start hm h
  rw [← List.take_append_drop n ((F.log s).since (F.log s'))] at hrun
  obtain ⟨u, hu, -⟩ := hrun.append_inv
  refine ⟨u, hu, ?_⟩
  rw [run_journal hu, hF.shows_journal hm]
  rfl

end Firmware.Follows

/-- Power can be lost in every phase. -/
theorem next_reset (version : Bytes → Bytes) (start : Flash → Prop) (m : Marker) :
    (marker version start).next m .reset = some ⟨m.journal.write .reset, .off⟩ := by
  rcases m with ⟨j, p⟩
  cases p <;> rfl

theorem works_ne_reset {s : Sys σ} {m : Marker} {e : Effect}
    (h : Firmware.Follows.Works F P s m e) : e ≠ .reset := by
  cases s with
  | off j => exact h.2
  | offline j => exact absurd h id
  | up c => exact h.2.1

end Winegrid.Esp
