import Winegrid.Esp.Marker

/-!
# The no-false-blame law of the protocol

What the history says of a version that is in `pending_fw`.

* `Attempted`: the marker was stored and not touched since.
* `Staged`: after that, a slot was made the boot slot.
* `RolledBack`: after that, the other slot booted, with another version.

Two conditions rule out a false blame.  `SettledReset`: power is lost in a
running client only without a marker, or with a new image selected.
`OwnMarker`: the images that are installed were built with the version in the
marker, so that an image knows its own.  `Accounted` is the invariant, and
`blamed_reach` is the law.
-/

namespace Winegrid.Esp

variable {version : Bytes → Bytes} {start : Flash → Prop} {v : Bytes} {log : List Effect}
  {e : Effect} {j : Log} {slot : Slot}

/-! ## Histories -/

/-- An effect that leaves `pending_fw` alone. -/
def KeepsPending (e : Effect) : Prop := (∀ v, e ≠ .nvsSet .pendingFw v) ∧ e ≠ .nvsErase .pendingFw

/-- `v` was stored under `pending_fw`, which was left alone since. -/
def Attempted (v : Bytes) (log : List Effect) : Prop :=
  ∃ before after, log = before ++ .nvsSet .pendingFw v :: after ∧ ∀ e ∈ after, KeepsPending e

/-- The image in `slot` was made the boot image in the attempt of `v`. -/
def Staged (v : Bytes) (slot : Slot) (log : List Effect) : Prop :=
  ∃ before w after, log = before ++ .setBoot slot w true :: after ∧ Attempted v before ∧
    ∀ e ∈ after, KeepsPending e

/-- After that, the image in the other slot booted, which is of another
version. -/
def RolledBack (v : Bytes) (log : List Effect) : Prop :=
  ∃ before staged slot w after, log = before ++ .boot slot w :: after ∧ Staged v staged before ∧
    slot ≠ staged ∧ w ≠ v

/-- A version goes to `failed_fw` only after its rollback. -/
def Blamed (log : List Effect) : Prop :=
  ∀ before v after, log = before ++ .nvsSet .failedFw v :: after → RolledBack v before

/-- An image that is made the boot image was built with the version that its
attempt stored under `pending_fw`. -/
def OwnMarker (log : List Effect) : Prop :=
  ∀ before slot w after, log = before ++ .setBoot slot w true :: after →
    ∀ v, Attempted v before → v = w

theorem KeepsPending.concat (he : KeepsPending e) {after : List Effect}
    (hafter : ∀ e ∈ after, KeepsPending e) : ∀ e' ∈ after ++ [e], KeepsPending e' :=
  List.forall_mem_append.mpr ⟨hafter, List.forall_mem_singleton.mpr he⟩

theorem attempted_concat (v : Bytes) (log : List Effect) :
    Attempted v (log ++ [.nvsSet .pendingFw v]) :=
  ⟨log, [], rfl, by simp⟩

theorem Attempted.concat (h : Attempted v log) (he : KeepsPending e) :
    Attempted v (log ++ [e]) := by
  obtain ⟨before, after, rfl, hafter⟩ := h
  exact ⟨before, after ++ [e], by simp, he.concat hafter⟩

theorem Attempted.staged (h : Attempted v log) (slot : Slot) (w : Bytes) :
    Staged v slot (log ++ [.setBoot slot w true]) :=
  ⟨log, w, [], rfl, h, by simp⟩

theorem Staged.concat (h : Staged v slot log) (he : KeepsPending e) :
    Staged v slot (log ++ [e]) := by
  obtain ⟨before, w, after, rfl, hattempted, hafter⟩ := h
  exact ⟨before, w, after ++ [e], by simp, hattempted, he.concat hafter⟩

theorem Staged.rolledBack {staged : Slot} (h : Staged v staged log) (hslot : slot ≠ staged)
    {w : Bytes} (hw : w ≠ v) : RolledBack v (log ++ [.boot slot w]) :=
  ⟨log, staged, slot, w, [], rfl, h, hslot, hw⟩

theorem RolledBack.concat (h : RolledBack v log) (e : Effect) : RolledBack v (log ++ [e]) := by
  obtain ⟨before, staged, slot, w, after, rfl, hstaged, hother⟩ := h
  exact ⟨before, staged, slot, w, after ++ [e], by simp, hstaged, hother⟩

theorem OwnMarker.of_concat (h : OwnMarker (log ++ [e])) : OwnMarker log := by
  rintro before slot w after rfl v hv
  exact h before slot w (after ++ [e]) (by simp) v hv

/-- The effect starts or ends an attempt of another version than `v`. -/
def otherVersion (v : Bytes) : Effect → Bool
  | .nvsSet .pendingFw x => decide (x ≠ v)
  | .setBoot _ w true => decide (w ≠ v)
  | _ => false

/-- A history of the attempts of one version. -/
theorem ownMarker_of_only (h : ∀ e ∈ log, otherVersion v e = false) : OwnMarker log := by
  rintro before slot w after rfl x ⟨before', after', rfl, -⟩
  have hw : w = v := by simpa [otherVersion] using h (.setBoot slot w true) (by simp)
  have hx : x = v := by simpa [otherVersion] using h (.nvsSet .pendingFw x) (by simp)
  rw [hx, hw]

/-- One more effect is accounted for, if it blames only what was rolled back. -/
theorem Blamed.concat (h : Blamed log)
    (he : ∀ v, e = .nvsSet .failedFw v → RolledBack v log) : Blamed (log ++ [e]) := by
  intro before v after heq
  rcases List.eq_nil_or_concat after with rfl | ⟨after', e', rfl⟩
  · obtain ⟨rfl, hlast⟩ := List.append_inj' heq rfl
    exact he v (List.singleton_inj.mp hlast)
  · have heq' : log ++ [e] = (before ++ .nvsSet .failedFw v :: after') ++ [e'] := by
      simpa using heq
    exact h before v after' (List.append_inj' heq' rfl).1

/-! ## The invariant -/

/-- The image that was installed for `v` is still there, and is of `v`. -/
def HoldsStaged (version : Bytes → Bytes) (v : Bytes) (j : Log) : Prop :=
  ∃ slot, Staged v slot j.log ∧ version (j.disk.app slot) = v

theorem HoldsStaged.concat (h : HoldsStaged version v j) (he : KeepsPending e)
    (happ : (j.disk.apply e).app = j.disk.app) : HoldsStaged version v (j.write e) := by
  obtain ⟨slot, hstaged, hversion⟩ := h
  refine ⟨slot, hstaged.concat he, ?_⟩
  rw [Journal.write_disk, apply_def, happ]
  exact hversion

/-- What the history says of the marker, in each phase. -/
def Accounted (version : Bytes → Bytes) (j : Log) : Phase → Prop
  | .off => ∀ v, j.disk.pending = some v → HoldsStaged version v j
  | .booting w =>
    j.disk.imgState ≠ .new ∧
      ∀ v, j.disk.pending = some v → HoldsStaged version v j ∧ (v ≠ w → RolledBack v j.log)
  | .up _ .idle => j.disk.imgState ≠ .new ∧ j.disk.pending = none
  | .up _ .attempting =>
    j.disk.imgState ≠ .new ∧ ∀ v, j.disk.pending = some v → Attempted v j.log
  | .up _ .installed => ∀ v, j.disk.pending = some v → HoldsStaged version v j

/-- No marker, or a new image selected. -/
def Settled (flash : Flash) : Prop := flash.pending = none ∨ flash.imgState = .new

/-- Power is lost in an attempt only when its marker is settled. -/
def SettledReset (m : Marker) (e : Effect) : Prop :=
  e = .reset → ∀ w flow, m.phase = .up w flow → flow ≠ .idle → Settled m.journal.disk

/-- An effect that leaves the marker and the state of the image alone, and
boots nothing.  Only an attempt writes to a slot. -/
theorem Accounted.write {p : Phase} (h : Accounted version j p) (he : KeepsPending e)
    (hpending : (j.disk.apply e).pending = j.disk.pending)
    (hstate : (j.disk.apply e).imgState = j.disk.imgState)
    (happ : (j.disk.apply e).app = j.disk.app ∨ ∃ w flow, p = .up w flow ∧ flow ≠ .installed) :
    Accounted version (j.write e) p := by
  cases p with
  | off =>
    obtain happ | ⟨w, flow, hp, -⟩ := happ
    · exact fun v hv => (h v (hpending ▸ hv)).concat he happ
    · cases hp
  | booting w =>
    refine ⟨hstate ▸ h.1, fun v hv => ?_⟩
    obtain ⟨hstaged, hback⟩ := h.2 v (hpending ▸ hv)
    obtain happ | ⟨w', flow, hp, -⟩ := happ
    · exact ⟨hstaged.concat he happ, fun hw => (hback hw).concat e⟩
    · cases hp
  | up w flow =>
    cases flow with
    | idle => exact ⟨hstate ▸ h.1, hpending.trans h.2⟩
    | attempting => exact ⟨hstate ▸ h.1, fun v hv => (h.2 v (hpending ▸ hv)).concat he⟩
    | installed =>
      obtain happ | ⟨w', flow, hp, hflow⟩ := happ
      · exact fun v hv => (h v (hpending ▸ hv)).concat he happ
      · cases hp
        exact absurd rfl hflow

/-- A settled loss of power leaves only markers of installed images. -/
theorem accounted_reset {p : Phase} (h : Accounted version j p)
    (hok : SettledReset ⟨j, p⟩ .reset) : Accounted version (j.write .reset) .off := by
  have hkeeps : KeepsPending .reset := ⟨by simp, by simp⟩
  intro v hv
  refine HoldsStaged.concat ?_ hkeeps rfl
  cases p with
  | off => exact h v hv
  | booting w => exact (h.2 v hv).1
  | up w flow =>
    cases flow with
    | idle => exact absurd (h.2.symm.trans hv) (by simp)
    | installed => exact h v hv
    | attempting =>
      rcases hok rfl w .attempting rfl (by decide) with hnone | hnew
      · exact absurd (hnone.symm.trans hv) (by simp)
      · exact absurd hnew h.1

/-- A boot of another version than the marker is a boot of the other slot: the
image that was installed knows its own version. -/
theorem accounted_boot (h : Accounted version j .off) :
    let slot := j.disk.bootSelect
    Accounted version (j.write (.boot slot (version (j.disk.app slot))))
      (.booting (version (j.disk.app slot))) := by
  intro slot
  refine ⟨?_, fun v hv => ?_⟩
  · simp only [Journal.write_disk, apply_def, Flash.apply]
    split_ifs <;> decide
  · have hstaged := h v hv
    refine ⟨hstaged.concat ⟨by simp, by simp⟩ rfl, fun hw => ?_⟩
    obtain ⟨staged, hstaged, hversion⟩ := hstaged
    refine hstaged.rolledBack (fun hslot => hw ?_) hw.symm
    rw [hslot, hversion]

/-- Every move that meets the conditions keeps the invariant. -/
theorem accounted_move {p p' : Phase} (h : Accounted version j p) (hok : SettledReset ⟨j, p⟩ e)
    (hmove : Move version j.disk p e p') (hown : OwnMarker (j.write e).log) :
    Accounted version (j.write e) p' := by
  cases hmove with
  | reset => exact accounted_reset h hok
  | boot => exact accounted_boot h
  | call => exact h.write ⟨by simp, by simp⟩ rfl rfl (.inl rfl)
  | start hpending => exact ⟨h.1, hpending⟩
  | blame => exact h.write ⟨by simp, by simp⟩ (by simp) rfl (.inl rfl)
  | store hp => exact h.write ⟨by simp [hp], by simp⟩ (by simp [hp]) rfl (.inl rfl)
  | clear => exact ⟨h.1, fun v hv => by simp at hv⟩
  | confirm hpending =>
    exact ⟨by simp [Flash.apply], fun v hv => absurd (hpending.symm.trans hv) (by simp)⟩
  | publish => exact h.write ⟨by simp, by simp⟩ rfl rfl (.inl rfl)
  | subscribe => exact h.write ⟨by simp, by simp⟩ rfl rfl (.inl rfl)
  | @attempt w x flow hflow =>
    have hstate : j.disk.imgState ≠ .new := by
      cases flow with
      | idle => exact h.1
      | attempting => exact h.1
      | installed => exact absurd rfl hflow
    refine ⟨hstate, fun v hv => ?_⟩
    have hx : x = v := by
      have hv' := (loadNvsStr_eq_some.mp hv).1
      simpa [Flash.apply] using hv'
    exact hx ▸ attempted_concat x j.log
  | abandon => exact ⟨h.1, by simp⟩
  | @otaBegin w flow hflow =>
    exact h.write ⟨by simp, by simp⟩ rfl rfl (.inr ⟨w, flow, rfl, hflow⟩)
  | @otaWrite w data flow hflow =>
    exact h.write ⟨by simp, by simp⟩ rfl rfl (.inr ⟨w, flow, rfl, hflow⟩)
  | setBootFailed => exact h.write ⟨by simp, by simp⟩ rfl rfl (.inl rfl)
  | install =>
    intro v hv
    have hattempted := h.2 v hv
    exact ⟨_, hattempted.staged _ _, (hown j.log _ _ [] rfl v hattempted).symm⟩

/-- Only a boot blames, and only what was rolled back. -/
theorem blame_move {p p' : Phase} (h : Accounted version j p)
    (hmove : Move version j.disk p (.nvsSet .failedFw v) p') : RolledBack v j.log := by
  cases hmove with
  | blame hpending hne => exact (h.2 v hpending).2 hne
  | store hp hf => exact absurd rfl hf

/-- The law: a version goes to `failed_fw` only after its image was made the
boot image and the other image booted. -/
theorem blamed_reach (hstart : ∀ flash, start flash → flash.pending = none) {m : Marker}
    (h : (marker version start).Reach SettledReset m) (hown : OwnMarker m.journal.log) :
    Blamed m.journal.log := by
  have hinv : OwnMarker m.journal.log →
      Accounted version m.journal m.phase ∧ Blamed m.journal.log := by
    refine h.invariant (I := fun m => OwnMarker m.journal.log →
      Accounted version m.journal m.phase ∧ Blamed m.journal.log) ?_ ?_
    · rintro m ⟨flash, hflash, rfl⟩ -
      refine ⟨fun v hv => absurd ((hstart flash hflash).symm.trans hv) (by simp), ?_⟩
      intro before v after heq
      simp at heq
    · rintro m e m' - hinv hok hnext hown
      obtain ⟨hmove, hjournal⟩ := marker_move hnext
      rw [hjournal] at hown ⊢
      obtain ⟨hacc, hblamed⟩ := hinv (OwnMarker.of_concat hown)
      refine ⟨accounted_move hacc hok hmove hown, hblamed.concat fun v he => ?_⟩
      subst he
      exact blame_move hacc hmove
  exact (hinv hown).2

end Winegrid.Esp
