import Winegrid.NativeOta.Task

/-!
# What a step can do

`Task.Moves` lists the moves of `ota_example_task` with what each one does to
the journal, and `Sys.Moves` those of the device.  The invariants of the
example are proved over these two lists.

* `Task.Moves.cases`: only three moves of the task touch the flash.
* `Task.moves_of_step` and `moves_of_next`: every step is one of the moves.
-/

namespace Winegrid.NativeOta

open Esp (Slot)

variable {C : Config} {t t' : Task} {j j' : Log}

/-- The moves of the task. -/
inductive Task.Moves (C : Config) (t : Task) (j : Log) : Task × Log → Prop where
  | httpInit (hpc : t.pc = .httpInit) :
    Moves C t j ({ t with pc := .httpOpen }, j.write .httpInit)
  | noClient (hpc : t.pc = .httpInit) : Moves C t j ({ t with pc := .exit .fatalError }, j)
  | httpOpen (hpc : t.pc = .httpOpen) : Moves C t j ({ t with pc := .read }, j)
  | noConnection (hpc : t.pc = .httpOpen) :
    Moves C t j ({ t with pc := .exit .fatalError }, j.write .httpCleanup)
  | readError (hpc : t.pc = .read) : Moves C t j (t.leave .fatalError j)
  | body (d : Bytes) (hpc : t.pc = .read) (hchecked : t.imageHeaderWasChecked = true) :
    Moves C t j ({ t with pc := .otaWrite d }, j.write (.received d))
  | firstBlock (d : Bytes) (hpc : t.pc = .read) (hchecked : t.imageHeaderWasChecked = false)
    (hlen : appDescOffset + appDescSize < d.length) :
    Moves C t j ({ t with pc := .header d }, j.write (.received d))
  | shortBlock (d : Bytes) (hpc : t.pc = .read) (hchecked : t.imageHeaderWasChecked = false)
    (hlen : d.length ≤ appDescOffset + appDescSize) :
    Moves C t j (t.abortFatal (j.write (.received d)))
  | finished (hpc : t.pc = .read) : Moves C t j ({ t with pc := .checkComplete }, j)
  | waits (hpc : t.pc = .read) : Moves C t j (t, j)
  | refused (d : Bytes) (hpc : t.pc = .header d) : Moves C t j (t.leave .noUpdate j)
  | accepted (d runningAppInfo invalidAppInfo : Bytes) (hpc : t.pc = .header d)
    (hnew : t.refuses C j.disk runningAppInfo invalidAppInfo (versionField d) = false) :
    Moves C t j ({ t with imageHeaderWasChecked := true, pc := .otaBegin d }, j)
  | otaBegin (d : Bytes) (hpc : t.pc = .otaBegin d)
    (hstate : j.disk.stateOf t.running ≠ some .pendingVerify) :
    Moves C t j ({ t with handleOpen := true, pc := .otaWrite d },
      j.write (.otaBegin t.updatePartition (versionField d)))
  | beginFails (d : Bytes) (hpc : t.pc = .otaBegin d) : Moves C t j (t.abortFatal j)
  | otaWrite (d : Bytes) (hpc : t.pc = .otaWrite d) (hopen : t.handleOpen = true) :
    Moves C t j ({ t with pc := .read }, j.write (.otaWrite t.updatePartition d))
  | writeFails (d : Bytes) (hpc : t.pc = .otaWrite d) : Moves C t j (t.abortFatal j)
  | complete (hpc : t.pc = .checkComplete) :
    Moves C t j ({ t with pc := .otaEnd }, j.write .complete)
  | incomplete (hpc : t.pc = .checkComplete) : Moves C t j (t.abortFatal j)
  | otaEnd (hpc : t.pc = .otaEnd) (hopen : t.handleOpen = true)
    (hvalid : C.imageValid (j.disk.app (.ota t.updatePartition)) = true) :
    Moves C t j ({ t with handleOpen := false, pc := .setBoot }, j.write .otaEnd)
  | endFails (hpc : t.pc = .otaEnd) :
    Moves C t j (({ t with handleOpen := false } : Task).leave .fatalError (j.write .otaEnd))
  | setBoot (hpc : t.pc = .setBoot)
    (hvalid : C.imageValid (j.disk.app (.ota t.updatePartition)) = true) :
    Moves C t j ({ t with pc := .exit .installed },
      j.write (.setBoot t.updatePartition (describe (j.disk.app (.ota t.updatePartition)))))
  | setBootFails (hpc : t.pc = .setBoot) : Moves C t j (t.leave .fatalError j)

/-- A move whose effects are silent. -/
structure Task.Silent (C : Config) (t : Task) (j : Log) (r : Task × Log) : Prop where
  writes : ∃ es : List Effect, (∀ e ∈ es, e.silent = true) ∧ r.2 = j.writes es
  running : r.1.running = t.running
  handle : r.1.handleOpen = true → t.handleOpen = true
  goes : ∀ e, t.pc ≠ .exit e
  closed : r.1.pc = .setBoot → r.1.handleOpen = false ∧ t.handleOpen = true
  accepted : ∀ d, r.1.pc = .otaBegin d →
    ∃ a b, t.refuses C j.disk a b (versionField d) = false

/-- All moves are silent but the three that use the OTA library on the update
partition. -/
theorem Task.Moves.cases {r : Task × Log} (h : t.Moves C j r) : t.Silent C j r ∨
    (∃ d, t.pc = .otaBegin d ∧ j.disk.stateOf t.running ≠ some .pendingVerify ∧
      r = ({ t with handleOpen := true, pc := .otaWrite d },
        j.write (.otaBegin t.updatePartition (versionField d)))) ∨
    (∃ d, t.pc = .otaWrite d ∧ t.handleOpen = true ∧
      r = ({ t with pc := .read }, j.write (.otaWrite t.updatePartition d))) ∨
    (t.pc = .setBoot ∧ C.imageValid (j.disk.app (.ota t.updatePartition)) = true ∧
      r = ({ t with pc := .exit .installed }, j.write (.setBoot t.updatePartition
        (describe (j.disk.app (.ota t.updatePartition)))))) := by
  cases h with
  | otaBegin d hpc hstate => exact Or.inr (Or.inl ⟨d, hpc, hstate, rfl⟩)
  | otaWrite d hpc hopen => exact Or.inr (Or.inr (Or.inl ⟨d, hpc, hopen, rfl⟩))
  | setBoot hpc hvalid => exact Or.inr (Or.inr (Or.inr ⟨hpc, hvalid, rfl⟩))
  | accepted d a b hpc hnew =>
    refine Or.inl ⟨⟨[], by simp, rfl⟩, rfl, id, by simp [hpc], by simp, fun d' hd' => ⟨a, b, ?_⟩⟩
    cases hd'
    exact hnew
  | noClient hpc | httpOpen hpc | finished hpc | waits hpc =>
    exact Or.inl ⟨⟨[], by simp, rfl⟩, rfl, id, by simp [hpc], by simp [hpc], by simp [hpc]⟩
  | httpInit hpc =>
    exact Or.inl ⟨⟨[.httpInit], by simp [Effect.silent], rfl⟩, rfl, id, by simp [hpc], by simp,
      by simp⟩
  | noConnection hpc =>
    exact Or.inl ⟨⟨[.httpCleanup], by simp [Effect.silent], rfl⟩, rfl, id, by simp [hpc], by simp,
      by simp⟩
  | readError hpc | refused d hpc | setBootFails hpc =>
    exact Or.inl ⟨⟨[.httpClose, .httpCleanup], by simp [Effect.silent], rfl⟩, rfl, id,
      by simp [hpc], by simp [leave], by simp [leave]⟩
  | body d hpc _ | firstBlock d hpc _ _ =>
    exact Or.inl ⟨⟨[.received d], by simp [Effect.silent], rfl⟩, rfl, id, by simp [hpc], by simp,
      by simp⟩
  | shortBlock d hpc _ _ =>
    exact Or.inl ⟨⟨[.received d, .httpClose, .httpCleanup, .otaAbort], by simp [Effect.silent],
      rfl⟩, rfl, by simp [abortFatal], by simp [hpc], by simp [abortFatal], by simp [abortFatal]⟩
  | beginFails d hpc | writeFails d hpc | incomplete hpc =>
    exact Or.inl ⟨⟨[.httpClose, .httpCleanup, .otaAbort], by simp [Effect.silent], rfl⟩, rfl,
      by simp [abortFatal], by simp [hpc], by simp [abortFatal], by simp [abortFatal]⟩
  | complete hpc =>
    exact Or.inl ⟨⟨[.complete], by simp [Effect.silent], rfl⟩, rfl, id, by simp [hpc], by simp,
      by simp⟩
  | otaEnd hpc hopen _ =>
    exact Or.inl ⟨⟨[.otaEnd], by simp [Effect.silent], rfl⟩, rfl, by simp, by simp [hpc],
      fun _ => ⟨rfl, hopen⟩, by simp⟩
  | endFails hpc =>
    exact Or.inl ⟨⟨[.otaEnd, .httpClose, .httpCleanup], by simp [Effect.silent], rfl⟩, rfl,
      by simp [leave], by simp [hpc], by simp [leave], by simp [leave]⟩

/-- What the task does with the result of a read is a move. -/
theorem Task.moves_afterRead (C : Config) (hpc : t.pc = .read) (r : HttpRead) :
    t.Moves C j (t.afterRead j r) := by
  cases r with
  | error => exact .readError hpc
  | data d =>
    unfold afterRead
    by_cases hchecked : t.imageHeaderWasChecked = true
    · simp only [hchecked, if_true]
      exact hchecked ▸ .body d hpc hchecked
    · rw [Bool.not_eq_true] at hchecked
      simp only [hchecked, Bool.false_eq_true, if_false]
      split_ifs with hlen
      · exact hchecked ▸ .firstBlock d hpc hchecked hlen
      · exact .shortBlock d hpc hchecked (by omega)
  | idle disconnected complete =>
    unfold afterRead
    simp only
    split_ifs
    · exact .finished hpc
    · exact .waits hpc

/-- Every step of the task is one of its moves. -/
theorem Task.moves_of_step {l : Label} {r : Task × Log} (h : t.step C j l = some r) :
    t.Moves C j r := by
  cases l with
  | httpInit ok =>
    simp only [step] at h
    split_ifs at h with hpc hok
    · exact Option.some.inj h ▸ .httpInit hpc
    · exact Option.some.inj h ▸ .noClient hpc
  | httpOpen ok =>
    simp only [step] at h
    split_ifs at h with hpc hok
    · exact Option.some.inj h ▸ .httpOpen hpc
    · exact Option.some.inj h ▸ .noConnection hpc
  | read r =>
    simp only [step] at h
    split_ifs at h with hpc
    exact Option.some.inj h ▸ moves_afterRead C hpc.1 r
  | header runningAppInfo invalidAppInfo =>
    simp only [step] at h
    split at h
    · rename_i d hpc
      split_ifs at h with hrefuse
      · exact Option.some.inj h ▸ .refused d hpc
      · exact Option.some.inj h ▸ .accepted d _ _ hpc (Bool.eq_false_iff.mpr hrefuse)
    · cases h
  | otaBegin ok =>
    simp only [step] at h
    split at h
    · rename_i d hpc
      split_ifs at h with hok hstate
      · exact Option.some.inj h ▸ .otaBegin d hpc hstate
      · exact Option.some.inj h ▸ .beginFails d hpc
    · cases h
  | otaWrite ok =>
    simp only [step] at h
    split at h
    · rename_i d hpc
      split_ifs at h with hok hopen
      · exact Option.some.inj h ▸ .otaWrite d hpc hopen
      · exact Option.some.inj h ▸ .writeFails d hpc
    · cases h
  | checkComplete complete =>
    simp only [step] at h
    split_ifs at h with hpc hok
    · exact Option.some.inj h ▸ .complete hpc
    · exact Option.some.inj h ▸ .incomplete hpc
  | otaEnd ok =>
    simp only [step] at h
    split_ifs at h with hpc hok hvalid
    · rw [Bool.and_eq_true] at hvalid
      exact Option.some.inj h ▸ .otaEnd hpc hvalid.1 hvalid.2
    · exact Option.some.inj h ▸ .endFails hpc
  | setBoot ok =>
    simp only [step] at h
    split_ifs at h with hpc hok hvalid
    · exact Option.some.inj h ▸ .setBoot hpc hvalid
    · exact Option.some.inj h ▸ .setBootFails hpc
  | boot | diagnostic | network | restart | powerLoss => simp [step] at h

/-- The moves of the device. -/
inductive Sys.Moves (C : Config) : Sys → Sys → Prop where
  | boot (j : Log) :
    Moves C ⟨.off, j⟩ ⟨.diagnostic j.disk.bootSelect, j.write (.boot j.disk.bootSelect)⟩
  | confirmed (slot : Slot) (j : Log) (hstate : j.disk.entry slot = some .pendingVerify) :
    Moves C ⟨.diagnostic (.ota slot), j⟩ ⟨.network (.ota slot), j.write (.markValid slot)⟩
  | rolledBack (slot : Slot) (j : Log) (hstate : j.disk.entry slot = some .pendingVerify) :
    Moves C ⟨.diagnostic (.ota slot), j⟩ ⟨.off, j.writes [.markInvalid slot, .restart]⟩
  | goesOn (running : Partition) (j : Log) :
    Moves C ⟨.diagnostic running, j⟩ ⟨.network running, j⟩
  | network (running : Partition) (j : Log) :
    Moves C ⟨.network running, j⟩ ⟨.task (.start running), j⟩
  | noNetwork (running : Partition) (j : Log) :
    Moves C ⟨.network running, j⟩ ⟨.off, j.write .restart⟩
  | restart (t : Task) (e : Exit) (j : Log) (hpc : t.pc = .exit e) :
    Moves C ⟨.task t, j⟩ ⟨.off, j.write .restart⟩
  | powerLoss (p : Phase) (j : Log) : Moves C ⟨p, j⟩ ⟨.off, j.write .powerLoss⟩
  | task {t : Task} {j : Log} {r : Task × Log} (h : t.Moves C j r) :
    Moves C ⟨.task t, j⟩ ⟨.task r.1, r.2⟩

theorem moves_diagnose (C : Config) (running : Partition) (isOk rebooted : Bool) (j : Log) :
    Sys.Moves C ⟨.diagnostic running, j⟩ (diagnose running isOk rebooted j) := by
  unfold diagnose
  cases running with
  | factory => exact .goesOn .factory j
  | ota slot =>
    simp only
    split_ifs with hstate
    · exact .confirmed slot j hstate
    · exact .rolledBack slot j hstate
    · exact .goesOn _ j
    · exact .goesOn _ j

/-- Every step of the device is one of its moves. -/
theorem moves_of_next {start : Flash → Prop} {s s' : Sys} {l : Label}
    (h : (device C start).next s l = some s') : Sys.Moves C s s' := by
  obtain ⟨p, j⟩ := s
  change Sys.step C ⟨p, j⟩ l = some s' at h
  cases l with
  | boot =>
    simp only [Sys.step] at h
    split_ifs at h with hp
    subst hp
    exact Option.some.inj h ▸ .boot j
  | diagnostic isOk rebooted =>
    cases p with
    | diagnostic running => exact Option.some.inj h ▸ moves_diagnose C running isOk rebooted j
    | off | network | task => cases h
  | network ok =>
    cases p with
    | network running =>
      simp only [Sys.step] at h
      split_ifs at h
      · exact Option.some.inj h ▸ .network running j
      · exact Option.some.inj h ▸ .noNetwork running j
    | off | diagnostic | task => cases h
  | restart =>
    simp only [Sys.step] at h
    split_ifs at h with hp
    cases p with
    | task t =>
      cases hpc : t.pc with
      | exit e => exact Option.some.inj h ▸ .restart t e j hpc
      | _ => simp [Phase.restarts, hpc] at hp
    | off | diagnostic | network => simp [Phase.restarts] at hp
  | powerLoss => exact Option.some.inj h ▸ .powerLoss p j
  | _ =>
    -- What is left are the labels of the task itself.
    cases p with
    | task t =>
      obtain ⟨r, hr, rfl⟩ := Option.map_eq_some_iff.mp h
      exact .task (Task.moves_of_step hr)
    | off | diagnostic | network => cases h

/-- A journal only grows, by the effects of the move. -/
theorem Sys.Moves.extends {s s' : Sys} (h : Sys.Moves C s s') :
    ∃ es, s'.journal = s.journal.writes es := by
  cases h with
  | boot j => exact ⟨[.boot j.disk.bootSelect], rfl⟩
  | confirmed slot j _ => exact ⟨[.markValid slot], rfl⟩
  | rolledBack slot j _ => exact ⟨[.markInvalid slot, .restart], rfl⟩
  | goesOn running j | network running j => exact ⟨[], rfl⟩
  | noNetwork running j | restart t e j _ => exact ⟨[.restart], rfl⟩
  | powerLoss p j => exact ⟨[.powerLoss], rfl⟩
  | task hmove =>
    rcases hmove.cases with hsilent | ⟨d, -, -, rfl⟩ | ⟨d, -, -, rfl⟩ | ⟨-, -, rfl⟩
    · obtain ⟨es, -, hlog⟩ := hsilent.writes
      exact ⟨es, hlog⟩
    · exact ⟨[_], rfl⟩
    · exact ⟨[_], rfl⟩
    · exact ⟨[_], rfl⟩

end Winegrid.NativeOta
