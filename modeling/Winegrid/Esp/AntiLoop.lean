import Winegrid.Esp.Marker

/-!
# The anti-loop law of the protocol

One version `v` is offered.  `Before`, `Trial` and `After` are the three
stages of a run: nothing was installed, the image of `v` is installed and was
not confirmed, and it was rolled back.  `Loop` says which stage fits which
phase.

`OnlyOffers` is the condition on the steps: an attempt and an installed image
are of `v`, a version in `failed_fw` is not attempted, and the image of `v`
neither erases `pending_fw` nor confirms itself.  `loop_reach` is the law.
-/

namespace Winegrid.Esp

variable {version : Bytes → Bytes} {start : Flash → Prop} {v : Bytes}

/-- An effect that makes an image of `v` the boot image. -/
def Installs (v : Bytes) : Effect → Bool
  | .setBoot _ w ok => ok && decide (w = v)
  | _ => false

/-- How often an image of `v` was made the boot image. -/
def installs (v : Bytes) (log : List Effect) : Nat := log.countP (Installs v)

@[simp] theorem installs_concat (v : Bytes) (log : List Effect) (e : Effect) :
    installs v (log ++ [e]) = installs v log + if Installs v e then 1 else 0 := by
  simp [installs, List.countP_append, List.countP_singleton]

/-- Once an image of `v` was made the boot image, no attempt starts. -/
def Refused (v : Bytes) (log : List Effect) : Prop :=
  ∀ slot x, ¬ [.setBoot slot v true, .nvsSet .pendingFw x].Sublist log

/-- No image but that of `v` booted since that was made the boot image. -/
def NotRolledBack (v : Bytes) (log : List Effect) : Prop :=
  ∀ slot slot' w, [.setBoot slot v true, .boot slot' w].Sublist log → w = v

/-- Two effects occur in order in a longer log. -/
theorem pair_sublist_concat {log : List Effect} {a b e : Effect} :
    [a, b].Sublist (log ++ [e]) ↔ [a, b].Sublist log ∨ (b = e ∧ a ∈ log) := by
  rw [List.sublist_append_iff]
  constructor
  · rintro ⟨l₁, l₂, heq, h₁, h₂⟩
    rcases List.sublist_singleton.mp h₂ with rfl | rfl
    · rw [List.append_nil] at heq
      exact Or.inl (heq ▸ h₁)
    · have heq' : [a] ++ [b] = l₁ ++ [e] := heq
      obtain ⟨rfl, hb⟩ := List.append_inj' heq' rfl
      exact Or.inr ⟨List.singleton_inj.mp hb, List.singleton_sublist.mp h₁⟩
  · rintro (h | ⟨rfl, ha⟩)
    · exact ⟨[a, b], [], rfl, h, List.nil_sublist _⟩
    · exact ⟨[a], [b], rfl, List.singleton_sublist.mpr ha, List.Sublist.refl _⟩

/-- Without an installed image nothing is refused. -/
theorem installs_pos {log : List Effect} {slot : Slot} (h : .setBoot slot v true ∈ log) :
    0 < installs v log :=
  List.countP_pos_iff.mpr ⟨_, h, by simp [Installs]⟩

/-! ## Stages -/

/-- Nothing was installed, and a confirmed image of another version is the
boot image. -/
structure Before (version : Bytes → Bytes) (v : Bytes) (j : Log) : Prop where
  installs : installs v j.log = 0
  state : j.disk.imgState = .valid
  image : version (j.disk.app j.disk.bootSlot) ≠ v

/-- The image of `v` is the boot image, in the state `state`. -/
structure Trial (version : Bytes → Bytes) (v : Bytes) (state : ImgState) (j : Log) : Prop where
  installs : installs v j.log = 1
  state : j.disk.imgState = state
  pending : j.disk.pending = some v
  image : version (j.disk.app j.disk.bootSlot) = v
  other : version (j.disk.app j.disk.bootSlot.other) ≠ v
  notRolledBack : NotRolledBack v j.log

/-- The image of `v` was installed and rolled back. -/
structure After (version : Bytes → Bytes) (v : Bytes) (j : Log) : Prop where
  installs : installs v j.log = 1
  state : j.disk.imgState = .valid
  image : version (j.disk.app j.disk.bootSlot) ≠ v
  marked : j.disk.pending = some v ∨ (j.disk.pending = none ∧ j.disk.failed = some v)

/-- The stages that a phase can be in. -/
def Stage (version : Bytes → Bytes) (v : Bytes) (j : Log) : Phase → Prop
  | .off =>
    Before version v j ∨ Trial version v .new j ∨ Trial version v .pendingVerify j ∨
      After version v j
  | .booting w =>
    (Before version v j ∧ w ≠ v) ∨ (Trial version v .pendingVerify j ∧ w = v) ∨
      (After version v j ∧ w ≠ v)
  | .up _ flow =>
    (Before version v j ∧ flow ≠ .installed ∧ (flow = .attempting → j.disk.pending = some v)) ∨
      (Trial version v .new j ∧ flow = .installed) ∨
      (After version v j ∧ j.disk.failed = some v ∧ flow = .idle)

/-- The invariant. -/
def Loop (version : Bytes → Bytes) (v : Bytes) (m : Marker) : Prop :=
  Refused v m.journal.log ∧ Stage version v m.journal m.phase

/-- Attempts and images are of `v`, a failed version is not attempted, and the
image of `v` leaves its marker alone and does not confirm itself. -/
def OnlyOffers (v : Bytes) (m : Marker) (e : Effect) : Prop :=
  match m.phase with
  | .off => True
  | .booting w => w = v → e ≠ .nvsErase .pendingFw ∧ e ≠ .markValid
  | .up _ _ =>
    (∀ x, e = .nvsSet .pendingFw x → x = v ∧ m.journal.disk.failed ≠ some v) ∧
      ∀ slot x, e = .setBoot slot x true → x = v

/-! ## What one effect does to a stage -/

variable {j : Log} {e : Effect} {state : ImgState}

theorem Refused.concat {log : List Effect} (h : Refused v log)
    (he : ∀ x, e = .nvsSet .pendingFw x → installs v log = 0) : Refused v (log ++ [e]) := by
  intro slot x hsub
  rcases pair_sublist_concat.mp hsub with hsub | ⟨rfl, hmem⟩
  · exact h slot x hsub
  · have hpos := installs_pos hmem
    have hzero := he x rfl
    omega

theorem NotRolledBack.concat {log : List Effect} (h : NotRolledBack v log)
    (he : ∀ slot w, e = .boot slot w → w = v) : NotRolledBack v (log ++ [e]) := by
  intro slot slot' w hsub
  rcases pair_sublist_concat.mp hsub with hsub | ⟨hboot, -⟩
  · exact h slot slot' w hsub
  · exact he slot' w hboot.symm

theorem notRolledBack_of_installs {log : List Effect} (h : installs v log = 0) :
    NotRolledBack v log := by
  intro slot slot' w hsub
  have hpos := installs_pos (hsub.subset List.mem_cons_self)
  omega

/-- An effect that installs nothing and leaves the image and its state alone
keeps the first stage. -/
theorem Before.write (h : Before version v j) (hinstalls : Installs v e = false)
    (hstate : (j.disk.apply e).imgState = j.disk.imgState)
    (himage : (j.disk.apply e).app (j.disk.apply e).bootSlot = j.disk.app j.disk.bootSlot) :
    Before version v (j.write e) := by
  refine ⟨?_, ?_, ?_⟩
  · simp [hinstalls, h.installs]
  · rw [Journal.write_disk, apply_def, hstate, h.state]
  · rw [Journal.write_disk, apply_def, himage]
    exact h.image

/-- The last stage also needs the markers left alone. -/
theorem After.write (h : After version v j) (hinstalls : Installs v e = false)
    (hstate : (j.disk.apply e).imgState = j.disk.imgState)
    (himage : (j.disk.apply e).app (j.disk.apply e).bootSlot = j.disk.app j.disk.bootSlot)
    (hpending : (j.disk.apply e).pending = j.disk.pending)
    (hfailed : (j.disk.apply e).failed = j.disk.failed) :
    After version v (j.write e) := by
  refine ⟨?_, ?_, ?_, ?_⟩
  · simp [hinstalls, h.installs]
  · rw [Journal.write_disk, apply_def, hstate, h.state]
  · rw [Journal.write_disk, apply_def, himage]
    exact h.image
  · rw [Journal.write_disk, apply_def, hpending, hfailed]
    exact h.marked

/-- An effect that does not reach the flash and boots nothing keeps the trial. -/
theorem Trial.write (h : Trial version v state j) (hinstalls : Installs v e = false)
    (hboot : ∀ slot w, e ≠ .boot slot w) (hflash : j.disk.apply e = j.disk) :
    Trial version v state (j.write e) := by
  refine ⟨?_, ?_, ?_, ?_, ?_, ?_⟩
  · simp [hinstalls, h.installs]
  · rw [Journal.write_disk, apply_def, hflash, h.state]
  · rw [Journal.write_disk, apply_def, hflash, h.pending]
  · rw [Journal.write_disk, apply_def, hflash, h.image]
  · rw [Journal.write_disk, apply_def, hflash]
    exact h.other
  · exact h.notRolledBack.concat fun slot w heq => absurd heq (hboot slot w)

/-! ## Moves -/

/-- The bootloader takes the new image once, and the other slot after that. -/
theorem stage_boot (h : Stage version v j .off) :
    Stage version v (j.write (.boot j.disk.bootSelect (version (j.disk.app j.disk.bootSelect))))
      (.booting (version (j.disk.app j.disk.bootSelect))) := by
  rcases h with h | h | h | h
  · have hselect : j.disk.bootSelect = j.disk.bootSlot := by simp [Flash.bootSelect, h.state]
    rw [hselect]
    refine Or.inl ⟨h.write rfl ?_ rfl, h.image⟩
    simp [Flash.apply, h.state]
  · have hselect : j.disk.bootSelect = j.disk.bootSlot := by simp [Flash.bootSelect, h.state]
    rw [hselect]
    refine Or.inr (Or.inl ⟨⟨?_, ?_, h.pending, h.image, h.other, ?_⟩, h.image⟩)
    · simp [Installs, h.installs]
    · simp [Flash.apply, h.state]
    · refine h.notRolledBack.concat fun slot w heq => ?_
      cases heq
      exact h.image
  · have hselect : j.disk.bootSelect = j.disk.bootSlot.other := by
      simp [Flash.bootSelect, h.state]
    rw [hselect]
    refine Or.inr (Or.inr ⟨⟨?_, ?_, h.other, Or.inl h.pending⟩, h.other⟩)
    · simp [Installs, h.installs]
    · simp [Flash.apply, h.state]
  · have hselect : j.disk.bootSelect = j.disk.bootSlot := by simp [Flash.bootSelect, h.state]
    rw [hselect]
    refine Or.inr (Or.inr ⟨h.write rfl ?_ rfl rfl rfl, h.image⟩)
    simp [Flash.apply, h.state]

/-- A loss of power keeps every stage. -/
theorem stage_reset {p : Phase} (h : Stage version v j p) :
    Stage version v (j.write .reset) .off := by
  cases p with
  | off =>
    rcases h with h | h | h | h
    · exact Or.inl (h.write rfl rfl rfl)
    · exact Or.inr (Or.inl (h.write rfl (by simp) rfl))
    · exact Or.inr (Or.inr (Or.inl (h.write rfl (by simp) rfl)))
    · exact Or.inr (Or.inr (Or.inr (h.write rfl rfl rfl rfl rfl)))
  | booting w =>
    rcases h with ⟨h, -⟩ | ⟨h, -⟩ | ⟨h, -⟩
    · exact Or.inl (h.write rfl rfl rfl)
    · exact Or.inr (Or.inr (Or.inl (h.write rfl (by simp) rfl)))
    · exact Or.inr (Or.inr (Or.inr (h.write rfl rfl rfl rfl rfl)))
  | up w flow =>
    rcases h with ⟨h, -⟩ | ⟨h, -⟩ | ⟨h, -⟩
    · exact Or.inl (h.write rfl rfl rfl)
    · exact Or.inr (Or.inl (h.write rfl (by simp) rfl))
    · exact Or.inr (Or.inr (Or.inr (h.write rfl rfl rfl rfl rfl)))

/-- An effect of `app_main` on the image and its state, or on neither. -/
theorem stage_booting {w : Bytes} (h : Stage version v j (.booting w))
    (hinstalls : Installs v e = false) (hboot : ∀ slot w, e ≠ .boot slot w)
    (hstate : (j.disk.apply e).imgState = j.disk.imgState)
    (himage : (j.disk.apply e).app (j.disk.apply e).bootSlot = j.disk.app j.disk.bootSlot)
    (htrial : w = v → j.disk.pending = some v → j.disk.apply e = j.disk)
    (hafter : w ≠ v → (j.disk.pending = some v ∨ (j.disk.pending = none ∧ j.disk.failed = some v)) →
      (j.disk.apply e).pending = some v ∨
        ((j.disk.apply e).pending = none ∧ (j.disk.apply e).failed = some v)) :
    Stage version v (j.write e) (.booting w) := by
  rcases h with ⟨h, hw⟩ | ⟨h, hw⟩ | ⟨h, hw⟩
  · exact Or.inl ⟨h.write hinstalls hstate himage, hw⟩
  · exact Or.inr (Or.inl ⟨h.write hinstalls hboot (htrial hw h.pending), hw⟩)
  · refine Or.inr (Or.inr ⟨⟨?_, ?_, ?_, hafter hw h.marked⟩, hw⟩)
    · simp [hinstalls, h.installs]
    · rw [Journal.write_disk, apply_def, hstate, h.state]
    · rw [Journal.write_disk, apply_def, himage]
      exact h.image

/-- The client starts before the installation, or after the rollback with the
version in `failed_fw`. -/
theorem stage_start {w : Bytes} (h : Stage version v j (.booting w))
    (hpending : j.disk.pending = none) :
    Stage version v (j.write (.call .clientStart)) (.up w .idle) := by
  rcases h with ⟨h, -⟩ | ⟨h, -⟩ | ⟨h, -⟩
  · exact Or.inl ⟨h.write rfl rfl rfl, by decide, fun hflow => by cases hflow⟩
  · rw [h.pending] at hpending
    cases hpending
  · refine Or.inr (Or.inr ⟨h.write rfl rfl rfl rfl rfl, ?_, rfl⟩)
    exact (h.marked.resolve_left fun hsome => by simp [hpending] at hsome).2

/-- An effect of the client that reaches neither the markers nor the image. -/
theorem stage_up {w : Bytes} {flow : Flow} (h : Stage version v j (.up w flow))
    (hinstalls : Installs v e = false) (hboot : ∀ slot w, e ≠ .boot slot w)
    (hnvs : (j.disk.apply e).nvs = j.disk.nvs)
    (hstate : (j.disk.apply e).imgState = j.disk.imgState)
    (himage : (j.disk.apply e).app (j.disk.apply e).bootSlot = j.disk.app j.disk.bootSlot)
    (hflash : flow = .installed → j.disk.apply e = j.disk) :
    Stage version v (j.write e) (.up w flow) := by
  have hpending : (j.disk.apply e).pending = j.disk.pending := by
    simp only [Flash.pending, hnvs]
  have hfailed : (j.disk.apply e).failed = j.disk.failed := by
    simp only [Flash.failed, hnvs]
  rcases h with ⟨h, hflow, hattempt⟩ | ⟨h, hflow⟩ | ⟨h, hfail, hflow⟩
  · exact Or.inl ⟨h.write hinstalls hstate himage, hflow, fun hf => hpending.trans (hattempt hf)⟩
  · exact Or.inr (Or.inl ⟨h.write hinstalls hboot (hflash hflow), hflow⟩)
  · exact Or.inr (Or.inr ⟨h.write hinstalls hstate himage hpending hfailed,
      hfailed.trans hfail, hflow⟩)

/-- A failed version is not attempted, so an attempt starts only before the
installation. -/
theorem before_of_attempt {p p' : Phase} {x : Bytes} (h : Stage version v j p)
    (hok : OnlyOffers v ⟨j, p⟩ (.nvsSet .pendingFw x))
    (hmove : Move version j.disk p (.nvsSet .pendingFw x) p') : Before version v j := by
  cases hmove with
  | store hp hf => exact absurd rfl hp
  | attempt hflow =>
    rcases h with ⟨h, -⟩ | ⟨-, hinstalled⟩ | ⟨-, hfail, -⟩
    · exact h
    · exact absurd hinstalled hflow
    · exact absurd hfail (hok.1 x rfl).2

/-- The image of `v` is made the boot image. -/
theorem stage_install {w : Bytes} (h : Stage version v j (.up w .attempting))
    (himage : version (j.disk.app j.disk.bootSlot.other) = v) :
    Stage version v (j.write (.setBoot j.disk.bootSlot.other v true)) (.up w .installed) := by
  rcases h with ⟨h, -, hattempt⟩ | ⟨-, hflow⟩ | ⟨-, -, hflow⟩
  · refine Or.inr (Or.inl ⟨⟨?_, rfl, hattempt rfl, himage, ?_, ?_⟩, rfl⟩)
    · simp [Installs, h.installs]
    · simpa [Flash.apply] using h.image
    · refine (notRolledBack_of_installs h.installs).concat fun slot w heq => ?_
      cases heq
  · cases hflow
  · cases hflow

/-- Every move that meets the condition keeps the stages. -/
theorem stage_move (hv : v.length < 32) {p p' : Phase} (h : Stage version v j p)
    (hok : OnlyOffers v ⟨j, p⟩ e) (hmove : Move version j.disk p e p') :
    Stage version v (j.write e) p' := by
  have hmove' := hmove
  cases hmove with
  | reset => exact stage_reset h
  | boot => exact stage_boot h
  | call => exact stage_booting h rfl (by simp) rfl rfl (fun _ _ => rfl) fun _ => id
  | start hpending => exact stage_start h hpending
  | @blame w x hpending hne =>
    refine stage_booting h rfl (by simp) rfl rfl (fun hw hpend => ?_) fun hw hmarked => ?_
    · rw [hpend, Option.some_inj] at hpending
      exact absurd (hw.trans hpending).symm hne
    · rcases hmarked with hpend | ⟨hpend, -⟩
      · exact Or.inl (by simpa using hpend)
      · rw [hpend] at hpending
        cases hpending
  | @store w x key hp hf =>
    rcases h with ⟨h, hw⟩ | ⟨h, hw⟩ | ⟨h, hw⟩
    · exact Or.inl ⟨h.write rfl rfl rfl, hw⟩
    · refine Or.inr (Or.inl ⟨⟨?_, h.state, ?_, h.image, h.other, ?_⟩, hw⟩)
      · simp [Installs, h.installs]
      · simpa [pending_nvsSet_of_ne hp] using h.pending
      · exact h.notRolledBack.concat fun slot w heq => by cases heq
    · exact Or.inr (Or.inr ⟨h.write rfl rfl rfl (by simp [hp]) (by simp [hf]), hw⟩)
  | @clear w hclear =>
    refine stage_booting h rfl (by simp) rfl rfl (fun hw _ => absurd rfl (hok hw).1)
      fun hw hmarked => Or.inr ⟨by simp, ?_⟩
    rcases hmarked with hpend | ⟨hpend, hfail⟩
    · rcases hclear with hclear | hclear
      · rw [hpend, Option.some_inj] at hclear
        exact absurd hclear.symm hw
      · rw [failed_nvsErase, ← hclear, hpend]
    · rw [failed_nvsErase, hfail]
  | confirm hpending hstate =>
    rcases h with ⟨h, -⟩ | ⟨-, hw⟩ | ⟨h, -⟩
    · rw [h.state] at hstate
      cases hstate
    · exact absurd rfl (hok hw).2
    · rw [h.state] at hstate
      cases hstate
  | publish => exact stage_up h rfl (by simp) rfl rfl rfl fun _ => rfl
  | subscribe => exact stage_up h rfl (by simp) rfl rfl rfl fun _ => rfl
  | attempt hflow =>
    have hbefore := before_of_attempt h hok hmove'
    obtain ⟨rfl, -⟩ := hok.1 _ rfl
    exact Or.inl ⟨hbefore.write rfl rfl rfl, by decide, fun _ => by simp [hv]⟩
  | abandon =>
    rcases h with ⟨h, -⟩ | ⟨-, hflow⟩ | ⟨-, -, hflow⟩
    · exact Or.inl ⟨h.write rfl rfl rfl, by decide, fun hflow => by cases hflow⟩
    · cases hflow
    · cases hflow
  | otaBegin hflow =>
    exact stage_up h rfl (by simp) rfl rfl (by simp [Flash.apply]) fun hf => absurd hf hflow
  | otaWrite hflow =>
    exact stage_up h rfl (by simp) rfl rfl (by simp [Flash.apply]) fun hf => absurd hf hflow
  | setBootFailed => exact stage_up h rfl (by simp) rfl rfl rfl fun _ => rfl
  | install =>
    have himage := hok.2 _ _ rfl
    rw [himage]
    exact stage_install h himage

/-! ## Runs -/

/-- No stage has two installations. -/
theorem stage_installs {p : Phase} (h : Stage version v j p) : installs v j.log ≤ 1 := by
  cases p with
  | off =>
    rcases h with h | h | h | h <;> have hinstalls := h.installs <;> omega
  | booting w =>
    rcases h with ⟨h, -⟩ | ⟨h, -⟩ | ⟨h, -⟩ <;> have hinstalls := h.installs <;> omega
  | up w flow =>
    rcases h with ⟨h, -⟩ | ⟨h, -⟩ | ⟨h, -⟩ <;> have hinstalls := h.installs <;> omega

/-- Every step that meets the condition keeps the invariant. -/
theorem loop_next (hv : v.length < 32) {m m' : Marker} (h : Loop version v m)
    (hok : OnlyOffers v m e) (hnext : (marker version start).next m e = some m') :
    Loop version v m' := by
  obtain ⟨hmove, hjournal⟩ := marker_move hnext
  refine ⟨?_, ?_⟩
  · rw [hjournal, Journal.write_log]
    refine h.1.concat fun x he => ?_
    subst he
    exact (before_of_attempt h.2 hok hmove).installs
  · rw [hjournal]
    exact stage_move hv h.2 hok hmove

/-- The law: the image of `v` is made the boot image at most once, after that
no attempt starts, and a client that runs after a rollback finds `v` in
`failed_fw`. -/
theorem loop_reach (hv : v.length < 32)
    (hstart : ∀ flash, start flash → flash.imgState = .valid ∧
      version (flash.app flash.bootSlot) ≠ v)
    {m : Marker} (h : (marker version start).Reach (OnlyOffers v) m) :
    installs v m.journal.log ≤ 1 ∧ Refused v m.journal.log ∧
      ∀ w flow, m.phase = .up w flow → ¬ NotRolledBack v m.journal.log →
        m.journal.disk.failed = some v := by
  have hloop : Loop version v m := by
    refine h.invariant (I := Loop version v) ?_
      fun _ _ _ _ hs hok hnext => loop_next hv hs hok hnext
    rintro m ⟨flash, hflash, rfl⟩
    obtain ⟨hvalid, himage⟩ := hstart flash hflash
    exact ⟨fun slot x hsub => by simp at hsub, Or.inl ⟨rfl, hvalid, himage⟩⟩
  refine ⟨stage_installs hloop.2, hloop.1, fun w flow hphase hback => ?_⟩
  have hstage := hloop.2
  rw [hphase] at hstage
  rcases hstage with ⟨h, -⟩ | ⟨h, -⟩ | ⟨-, hfail, -⟩
  · exact absurd (notRolledBack_of_installs h.installs) hback
  · exact absurd h.notRolledBack hback
  · exact hfail

end Winegrid.Esp
