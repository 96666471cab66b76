import Winegrid.NativeOta.Boots

/-!
# From the server to the update partition

What `ota_example_task` sets to boot is the body of the response, byte for
byte, however the server cuts it into blocks.

* `thisBoot` is the log since the last boot; `received` and `begins` are what
  the HTTP client delivered and which downloads were started.
* `Transfer` is the invariant of the loop, and `transfer_moves` its step
  lemma.  `native_installs_body` is the law.
* `Session` is a session with a server that delivers an image in blocks, and
  `native_update_completes` says that every such session ends with the image
  running and confirmed.
-/

namespace Winegrid.NativeOta

open Esp (Slot)

variable {C : Config} {t t' : Task} {j j' : Log} {log : List Effect}

/-! ## The log of one boot -/

def Effect.isBoot : Effect → Bool
  | .boot _ => true
  | _ => false

/-- The effects since the last boot. -/
def thisBoot (log : List Effect) : List Effect :=
  log.foldl (fun past e => if e.isBoot then [] else past ++ [e]) []

def Effect.data : Effect → Bytes
  | .received d => d
  | _ => []

def Effect.offer : Effect → Option (Slot × Bytes)
  | .otaBegin slot version => some (slot, version)
  | _ => none

/-- The bytes that `esp_http_client_read` delivered since the last boot. -/
def received (log : List Effect) : Bytes := (thisBoot log).flatMap Effect.data

/-- The downloads that were started since the last boot. -/
def begins (log : List Effect) : List (Slot × Bytes) := (thisBoot log).filterMap Effect.offer

theorem thisBoot_concat (log : List Effect) (e : Effect) :
    thisBoot (log ++ [e]) = if e.isBoot then [] else thisBoot log ++ [e] := by
  rw [thisBoot, List.foldl_append]
  rfl

theorem mem_of_thisBoot {e : Effect} (h : e ∈ thisBoot log) : e ∈ log := by
  induction log using List.reverseRecOn with
  | nil => simp [thisBoot] at h
  | append_singleton log e' ih =>
    rw [thisBoot_concat] at h
    split_ifs at h
    · simp at h
    · rcases List.mem_append.mp h with hold | hnew
      · exact List.mem_append_left _ (ih hold)
      · exact List.mem_append_right _ hnew

theorem thisBoot_append {es : List Effect} (h : ∀ e ∈ es, e.isBoot = false) :
    thisBoot (log ++ es) = thisBoot log ++ es := by
  induction es using List.reverseRecOn with
  | nil => simp
  | append_singleton es e ih =>
    have he : e.isBoot = false := h e (by simp)
    have ih := ih fun e he => h e (List.mem_append_left _ he)
    rw [← List.append_assoc, thisBoot_concat, he, ih, List.append_assoc]
    rfl

theorem received_append {es : List Effect} (h : ∀ e ∈ es, e.isBoot = false) :
    received (log ++ es) = received log ++ es.flatMap Effect.data := by
  rw [received, thisBoot_append h, List.flatMap_append]
  rfl

theorem begins_append {es : List Effect} (h : ∀ e ∈ es, e.isBoot = false) :
    begins (log ++ es) = begins log ++ es.filterMap Effect.offer := by
  rw [begins, thisBoot_append h, List.filterMap_append]
  rfl

/-! ## The loop -/

/-- A task that did not start its download; `block` is all that it read. -/
structure Fresh (t : Task) (j : Log) (block : Bytes) : Prop where
  handle : t.handleOpen = false
  offers : begins j.log = []
  delivered : received j.log = block

/-- A task that downloads; `block` is what it read and did not write yet. -/
structure Download (t : Task) (j : Log) (block : Bytes) : Prop where
  offers : begins j.log = [(t.updatePartition, versionField (received j.log))]
  long : appDescOffset + appDescSize < (received j.log).length
  written : j.disk.app (.ota t.updatePartition) ++ block = received j.log

/-- A task that downloaded the whole body, and a valid image in it. -/
structure Downloaded (C : Config) (t : Task) (j : Log) : Prop extends Download t j [] where
  complete : .complete ∈ thisBoot j.log
  valid : C.imageValid (received j.log) = true

/-- The invariant of the task, at each of its calls. -/
def Transfer (C : Config) (t : Task) (j : Log) : Prop :=
  match t.pc with
  | .httpInit | .httpOpen => t.imageHeaderWasChecked = false ∧ Fresh t j []
  | .read | .checkComplete =>
    (t.imageHeaderWasChecked = false → Fresh t j []) ∧ (t.handleOpen = true → Download t j [])
  | .header d => Fresh t j d ∧ appDescOffset + appDescSize < d.length
  | .otaBegin d => t.imageHeaderWasChecked = true ∧ Fresh t j d ∧
      appDescOffset + appDescSize < d.length
  | .otaWrite d => t.imageHeaderWasChecked = true ∧ (t.handleOpen = true → Download t j d)
  | .otaEnd => t.handleOpen = true → Download t j [] ∧ .complete ∈ thisBoot j.log
  | .setBoot => Downloaded C t j
  | .exit e => e = .installed → Downloaded C t j ∧ j.disk.latest = t.updatePartition ∧
      j.disk.entry t.updatePartition = some .new

/-- The log after an effect that delivers nothing and starts nothing. -/
theorem log_quiet (log : List Effect) {e : Effect} (hboot : e.isBoot = false) (hdata : e.data = [])
    (hoffer : e.offer = none) : received (log ++ [e]) = received log ∧
      begins (log ++ [e]) = begins log ∧ thisBoot (log ++ [e]) = thisBoot log ++ [e] := by
  have hall : ∀ e' ∈ [e], e'.isBoot = false := by simp [hboot]
  refine ⟨?_, ?_, thisBoot_append hall⟩
  · rw [received_append hall]
    simp [hdata]
  · rw [begins_append hall]
    simp [hoffer]

theorem log_received (log : List Effect) (d : Bytes) :
    received (log ++ [.received d]) = received log ++ d ∧
    begins (log ++ [.received d]) = begins log := by
  have hall : ∀ e' ∈ [Effect.received d], e'.isBoot = false := by simp [Effect.isBoot]
  rw [received_append hall, begins_append hall]
  simp [Effect.data, Effect.offer]

/-- The first block starts the download. -/
theorem Fresh.otaBegin {d : Bytes} (h : Fresh t j d)
    (hlong : appDescOffset + appDescSize < d.length) (ht : t'.running = t.running) :
    Download t' (j.write (.otaBegin t.updatePartition (versionField d))) d := by
  have hall : ∀ e' ∈ [Effect.otaBegin t.updatePartition (versionField d)], e'.isBoot = false := by
    simp [Effect.isBoot]
  have hupdate : t'.updatePartition = t.updatePartition := by
    rw [Task.updatePartition, ht, Task.updatePartition]
  have hreceived : received (j.write (.otaBegin t.updatePartition (versionField d))).log = d := by
    rw [Journal.write_log, received_append hall, h.delivered]
    simp [Effect.data]
  refine ⟨?_, ?_, ?_⟩
  · rw [hreceived, Journal.write_log, begins_append hall, h.offers, hupdate]
    rfl
  · rw [hreceived]
    exact hlong
  · rw [hreceived, hupdate]
    show Function.update j.disk.app _ [] _ ++ d = d
    rw [Function.update_self]
    rfl

/-- Another block was read.  The version of the image does not change. -/
theorem Download.receive (h : Download t j []) (d : Bytes) (ht : t'.running = t.running) :
    Download t' (j.write (.received d)) d := by
  have hupdate : t'.updatePartition = t.updatePartition := by
    rw [Task.updatePartition, ht, Task.updatePartition]
  obtain ⟨hreceived, hbegins⟩ := log_received j.log d
  have hlong := h.long
  refine ⟨?_, ?_, ?_⟩
  · rw [Journal.write_log, hbegins, hreceived, h.offers, versionField_append (by omega), hupdate]
  · rw [Journal.write_log, hreceived, List.length_append]
    omega
  · rw [Journal.write_log, hreceived, ← h.written, List.append_nil, hupdate]
    rfl

/-- The block was written. -/
theorem Download.write {d : Bytes} (h : Download t j d) (ht : t'.running = t.running) :
    Download t' (j.write (.otaWrite t.updatePartition d)) [] := by
  have hupdate : t'.updatePartition = t.updatePartition := by
    rw [Task.updatePartition, ht, Task.updatePartition]
  obtain ⟨hreceived, hbegins, -⟩ := log_quiet j.log
    (e := .otaWrite t.updatePartition d) rfl rfl rfl
  refine ⟨?_, ?_, ?_⟩
  · rw [Journal.write_log, hbegins, hreceived, h.offers, hupdate]
  · rw [Journal.write_log, hreceived]
    exact h.long
  · rw [Journal.write_log, hreceived, List.append_nil, ← h.written, hupdate]
    show Function.update j.disk.app _ _ _ = _
    rw [Function.update_self]

/-- An effect that changes neither the log of the download nor its slot. -/
theorem Download.quiet {d : Bytes} {e : Effect} (h : Download t j d) (hboot : e.isBoot = false)
    (hdata : e.data = []) (hoffer : e.offer = none) (ht : t'.running = t.running)
    (happ : (j.disk.apply e).app = j.disk.app) : Download t' (j.write e) d := by
  have hupdate : t'.updatePartition = t.updatePartition := by
    rw [Task.updatePartition, ht, Task.updatePartition]
  obtain ⟨hreceived, hbegins, -⟩ := log_quiet j.log hboot hdata hoffer
  refine ⟨?_, ?_, ?_⟩
  · rw [Journal.write_log, hbegins, hreceived, h.offers, hupdate]
  · rw [Journal.write_log, hreceived]
    exact h.long
  · rw [Journal.write_log, hreceived, ← h.written, hupdate]
    show (j.disk.apply e).app _ ++ d = _
    rw [happ]

/-- A move of the task keeps the invariant. -/
theorem transfer_task {r : Task × Log} (h : Transfer C t j) (hmove : t.Moves C j r) :
    Transfer C r.1 r.2 := by
  cases hmove with
  | noClient hpc | noConnection hpc | readError hpc | shortBlock d hpc | refused d hpc
  | beginFails d hpc | writeFails d hpc | incomplete hpc | endFails hpc | setBootFails hpc =>
    exact fun he => by cases he
  | httpInit hpc =>
    rw [Transfer, hpc] at h
    obtain ⟨hunchecked, hfresh⟩ := h
    obtain ⟨hreceived, hbegins, -⟩ := log_quiet j.log (e := .httpInit) rfl rfl rfl
    exact ⟨hunchecked, hfresh.handle, hbegins.trans hfresh.offers,
      hreceived.trans hfresh.delivered⟩
  | httpOpen hpc =>
    rw [Transfer, hpc] at h
    obtain ⟨hunchecked, hfresh⟩ := h
    refine ⟨fun _ => ⟨hfresh.handle, hfresh.offers, hfresh.delivered⟩, fun hopen => ?_⟩
    have hopen : t.handleOpen = true := hopen
    rw [hfresh.handle] at hopen
    cases hopen
  | body d hpc hchecked =>
    rw [Transfer, hpc] at h
    exact ⟨hchecked, fun hopen => (h.2 hopen).receive d rfl⟩
  | firstBlock d hpc hchecked hlen =>
    rw [Transfer, hpc] at h
    have hfresh := h.1 hchecked
    obtain ⟨hreceived, hbegins⟩ := log_received j.log d
    refine ⟨⟨hfresh.handle, hbegins.trans hfresh.offers, ?_⟩, hlen⟩
    rw [Journal.write_log, hreceived, hfresh.delivered]
    rfl
  | finished hpc | waits hpc =>
    rw [Transfer, hpc] at h
    obtain ⟨hfresh, hdownload⟩ := h
    simp only [Transfer, hpc]
    exact ⟨fun hchecked => ⟨(hfresh hchecked).handle, (hfresh hchecked).offers,
      (hfresh hchecked).delivered⟩, fun hopen => ⟨(hdownload hopen).offers, (hdownload hopen).long,
      (hdownload hopen).written⟩⟩
  | accepted d _ _ hpc _ =>
    rw [Transfer, hpc] at h
    exact ⟨rfl, ⟨h.1.handle, h.1.offers, h.1.delivered⟩, h.2⟩
  | otaBegin d hpc hstate =>
    rw [Transfer, hpc] at h
    obtain ⟨hchecked, hfresh, hlong⟩ := h
    exact ⟨hchecked, fun _ => hfresh.otaBegin hlong rfl⟩
  | otaWrite d hpc hopen =>
    rw [Transfer, hpc] at h
    refine ⟨fun hchecked => ?_, fun _ => (h.2 hopen).write rfl⟩
    have hchecked : t.imageHeaderWasChecked = false := hchecked
    rw [h.1] at hchecked
    cases hchecked
  | complete hpc =>
    rw [Transfer, hpc] at h
    intro hopen
    refine ⟨(h.2 hopen).quiet rfl rfl rfl rfl rfl, ?_⟩
    rw [Journal.write_log, (log_quiet _ (e := .complete) rfl rfl rfl).2.2]
    exact List.mem_append_right _ (List.mem_singleton_self _)
  | otaEnd hpc hopen hvalid =>
    rw [Transfer, hpc] at h
    obtain ⟨hdownload, hcomplete⟩ := h hopen
    obtain ⟨hreceived, -, hthis⟩ := log_quiet j.log (e := .otaEnd) rfl rfl rfl
    refine ⟨hdownload.quiet rfl rfl rfl rfl rfl, ?_, ?_⟩
    · rw [Journal.write_log, hthis]
      exact List.mem_append_left _ hcomplete
    · rw [Journal.write_log, hreceived, ← hdownload.written, List.append_nil]
      exact hvalid
  | setBoot hpc hvalid =>
    rw [Transfer, hpc] at h
    intro _
    obtain ⟨hreceived, -, hthis⟩ := log_quiet j.log
      (e := .setBoot t.updatePartition (describe (j.disk.app (.ota t.updatePartition)))) rfl rfl rfl
    refine ⟨⟨h.toDownload.quiet rfl rfl rfl rfl rfl, ?_, ?_⟩, rfl, Function.update_self ..⟩
    · rw [Journal.write_log, hthis]
      exact List.mem_append_left _ h.complete
    · rw [Journal.write_log, hreceived]
      exact h.valid

/-! ## The device -/

/-- The invariant of the device: before the task runs, nothing was read. -/
structure Transfers (C : Config) (s : Sys) : Prop where
  early : ∀ p, s.phase = .diagnostic p ∨ s.phase = .network p →
    begins s.journal.log = [] ∧ received s.journal.log = []
  task : ∀ t, s.phase = .task t → Transfer C t s.journal

theorem transfers_moves {s s' : Sys} (h : Transfers C s) (hmove : Sys.Moves C s s') :
    Transfers C s' := by
  cases hmove with
  | boot j =>
    refine ⟨fun p _ => ?_, by simp⟩
    rw [Journal.write_log, begins, received, thisBoot_concat]
    exact ⟨rfl, rfl⟩
  | confirmed slot j hstate =>
    obtain ⟨hbegins, hreceived⟩ := h.early _ (Or.inl rfl)
    obtain ⟨hreceived', hbegins', -⟩ := log_quiet j.log (e := .markValid slot) rfl rfl rfl
    exact ⟨fun p _ => ⟨hbegins'.trans hbegins, hreceived'.trans hreceived⟩, by simp⟩
  | goesOn running j => exact ⟨fun p _ => h.early _ (Or.inl rfl), by simp⟩
  | network running j =>
    obtain ⟨hbegins, hreceived⟩ := h.early _ (Or.inr rfl)
    refine ⟨by simp, fun t ht => ?_⟩
    cases ht
    exact ⟨rfl, rfl, hbegins, hreceived⟩
  | rolledBack | noNetwork | restart | powerLoss => exact ⟨by simp, by simp⟩
  | task hmove =>
    refine ⟨by simp, fun t ht => ?_⟩
    cases ht
    exact transfer_task (h.task _ rfl) hmove

variable {start : Flash → Prop}

theorem transfers_reach {s : Sys} (h : (device C start).Reachable s) : Transfers C s := by
  refine h.invariant (I := Transfers C) ?_ fun s l t _ hs _ hnext =>
    transfers_moves hs (moves_of_next hnext)
  rintro s ⟨flash, -, rfl⟩
  exact ⟨by simp, by simp⟩

/-- The image that was set to boot is picked by the bootloader. -/
theorem bootSelect_new {flash : Flash} {slot : Slot} (hlatest : flash.latest = slot)
    (hstate : flash.entry slot = some .new) : flash.bootSelect = .ota slot := by
  have hboots : flash.abortPending.boots flash.abortPending.latest = true :=
    Flash.boots_abortPending.mpr (Or.inl (hlatest ▸ hstate))
  rw [Flash.bootSelect, Flash.active, Flash.pick_latest hboots]
  exact congrArg Partition.ota hlatest

/-- A task that set the boot partition wrote the body of the response there and
nothing else.  The body was complete and is a valid image, and its version is
the one that was compared before the one `esp_ota_begin`. -/
theorem native_installs_body (C : Config) (start : Flash → Prop) (s : Sys) (t : Task)
    (h : (device C start).Reachable s) (ht : s.phase = .task t) (hpc : t.pc = .exit .installed) :
    s.journal.disk.app (.ota t.updatePartition) = received s.journal.log ∧
      .complete ∈ thisBoot s.journal.log ∧ C.imageValid (received s.journal.log) = true ∧
      begins s.journal.log = [(t.updatePartition, versionField (received s.journal.log))] ∧
      s.journal.disk.bootSelect = .ota t.updatePartition := by
  have htransfer := (transfers_reach h).task t ht
  rw [Transfer, hpc] at htransfer
  obtain ⟨hdown, hlatest, hstate⟩ := htransfer rfl
  have hwritten := hdown.written
  rw [List.append_nil] at hwritten
  exact ⟨hwritten, hdown.complete, hdown.valid, hdown.offers, bootSelect_new hlatest hstate⟩

/-- The answers of a session that installs a sample image. -/
def sampleSession (v : UInt8) : List Label :=
  [.read (.data (sampleImage v)), .header [] [], .otaBegin true, .otaWrite true,
    .read (.idle false true), .checkComplete true, .otaEnd true, .setBoot true]

theorem native_installs_body_sample : ∃ s,
    (device sampleConfig (fromFactory (sampleImage 1))).Reachable s ∧
      s.journal.disk.app (.ota .ota0) = received s.journal.log ∧
      received s.journal.log = sampleImage 2 := by
  obtain ⟨s, hs, hphase, himage⟩ := Machine.exists_of_any
    (p := fun s : Sys => s.phase = .task ⟨.factory, true, false, .exit .installed⟩ ∧
      received s.journal.log = sampleImage 2)
    (o := (device sampleConfig (fromFactory (sampleImage 1))).exec ⟨.off, ⟨sampleFlash, []⟩⟩
      (startup ++ sampleSession 2)) (by decide +kernel)
  have h := Machine.Reachable.exec (.init sample_init) hs
  exact ⟨s, h, (native_installs_body _ _ s _ h hphase rfl).1, himage⟩

/-! ## A server that delivers an image -/

/-- The answers while the rest of an image comes in.  There may be no data for
a while. -/
inductive Blocks : Bytes → List Label → Prop where
  | done (disconnected complete : Bool) (h : (disconnected || complete) = true) :
    Blocks [] [.read (.idle disconnected complete), .checkComplete true, .otaEnd true,
      .setBoot true]
  | stall {image : Bytes} {ls : List Label} (h : Blocks image ls) :
    Blocks image (.read (.idle false false) :: ls)
  | block {image : Bytes} {ls : List Label} (d : Bytes) (hd : d ≠ []) (hfits : d.length ≤ buffSize)
    (h : Blocks image ls) : Blocks (d ++ image) (.read (.data d) :: .otaWrite true :: ls)

/-- The answers while an image comes in.  The first block holds the headers. -/
inductive Session (runningAppInfo invalidAppInfo : Bytes) : Bytes → List Label → Prop where
  | stall {image : Bytes} {ls : List Label} (h : Session runningAppInfo invalidAppInfo image ls) :
    Session runningAppInfo invalidAppInfo image (.read (.idle false false) :: ls)
  | first {image : Bytes} {ls : List Label} (d : Bytes)
    (hlong : appDescOffset + appDescSize < d.length) (hfits : d.length ≤ buffSize)
    (h : Blocks image ls) :
    Session runningAppInfo invalidAppInfo (d ++ image) (.read (.data d) ::
      .header runningAppInfo invalidAppInfo :: .otaBegin true :: .otaWrite true :: ls)

/-- The flash after an image was installed. -/
def installed (flash : Flash) (slot : Slot) (image : Bytes) : Flash :=
  { flash.setEntry slot .new with
    app := Function.update flash.app (.ota slot) image
    latest := slot }

/-- A task that reads the rest of an image. -/
theorem blocks_exec (start : Flash → Prop) {rest : Bytes} {ls : List Label}
    (hblocks : Blocks rest ls) (hpc : t.pc = .read) (hchecked : t.imageHeaderWasChecked = true)
    (hopen : t.handleOpen = true)
    (hvalid : C.imageValid (j.disk.app (.ota t.updatePartition) ++ rest) = true) :
    ∃ j', (device C start).exec ⟨.task t, j⟩ ls =
        some ⟨.task { t with handleOpen := false, pc := .exit .installed }, j'⟩ ∧
      j'.disk = installed j.disk t.updatePartition
        (j.disk.app (.ota t.updatePartition) ++ rest) := by
  induction hblocks generalizing t j with
  | done disconnected complete h =>
    rw [List.append_nil] at hvalid ⊢
    refine ⟨((j.write .complete).write .otaEnd).write
      (.setBoot t.updatePartition (describe (j.disk.app (.ota t.updatePartition)))), ?_, ?_⟩
    · have hvalid' : C.imageValid (j.disk.app (.ota t.running.nextUpdate)) = true := hvalid
      simp [Machine.exec, device, Sys.step, Task.step, HttpRead.fits, Task.afterRead, hpc, h,
        hopen, Task.updatePartition, hvalid', Flash.apply]
    · simp [installed, Flash.apply, Flash.setEntry]
  | stall h ih =>
    obtain ⟨j', hexec, hdisk⟩ := ih hpc hchecked hopen hvalid
    refine ⟨j', ?_, hdisk⟩
    rw [Machine.exec_cons (t := ⟨.task t, j⟩)]
    · exact hexec
    · simp [device, Sys.step, Task.step, HttpRead.fits, Task.afterRead, hpc]
  | @block image ls d hd hfits h ih =>
    set k := (j.write (.received d)).write (.otaWrite t.updatePartition d) with hk
    have happ : k.disk.app (.ota t.updatePartition) = j.disk.app (.ota t.updatePartition) ++ d := by
      rw [hk]
      exact Function.update_self ..
    obtain ⟨j', hexec, hdisk⟩ := ih (t := { t with pc := .read }) (j := k) rfl hchecked hopen (by
      show C.imageValid (k.disk.app (.ota t.updatePartition) ++ image) = true
      rw [happ, List.append_assoc]
      exact hvalid)
    refine ⟨j', ?_, ?_⟩
    · have hfits' : (HttpRead.data d).fits = true := by
        simp [HttpRead.fits, hfits, List.length_pos_iff.mpr hd]
      rw [Machine.exec_cons (t := ⟨.task { t with pc := .otaWrite d }, j.write (.received d)⟩),
        Machine.exec_cons (t := ⟨.task { t with pc := .read }, k⟩)]
      · exact hexec
      · simp [device, Sys.step, Task.step, hopen, hk, Task.updatePartition]
      · simp [device, Sys.step, Task.step, hpc, hfits', Task.afterRead, hchecked]
    · rw [hdisk]
      show installed k.disk t.updatePartition (k.disk.app (.ota t.updatePartition) ++ image) = _
      rw [happ, List.append_assoc, hk]
      simp [installed, Flash.apply, Flash.setEntry]

/-- A task that reads an image that it does not refuse. -/
theorem session_exec (start : Flash → Prop) {image a b : Bytes} {ls : List Label}
    (hsession : Session a b image ls)
    (hpc : t.pc = .read) (hunchecked : t.imageHeaderWasChecked = false)
    (hstate : j.disk.stateOf t.running ≠ some .pendingVerify)
    (hnew : t.refuses C j.disk a b (versionField image) = false)
    (hvalid : C.imageValid image = true) :
    ∃ t' j', (device C start).exec ⟨.task t, j⟩ ls = some ⟨.task t', j'⟩ ∧
      t'.pc = .exit .installed ∧ j'.disk = installed j.disk t.updatePartition image := by
  induction hsession with
  | stall h ih =>
    obtain ⟨t', j', hexec, hpc', hdisk⟩ := ih hnew hvalid
    refine ⟨t', j', ?_, hpc', hdisk⟩
    rw [Machine.exec_cons (t := ⟨.task t, j⟩)]
    · exact hexec
    · simp [device, Sys.step, Task.step, HttpRead.fits, Task.afterRead, hpc]
  | @first image ls d hlong hfits h =>
    set k := ((j.write (.received d)).write (.otaBegin t.updatePartition (versionField d))).write
      (.otaWrite t.updatePartition d) with hk
    set t₁ : Task := { t with imageHeaderWasChecked := true, handleOpen := true, pc := .read }
    have happ : k.disk.app (.ota t.updatePartition) = d := by
      rw [hk]
      simp [Flash.apply]
    obtain ⟨j', hexec, hdisk⟩ := blocks_exec start (C := C) (j := k) (t := t₁) h rfl rfl
      rfl (by
        show C.imageValid (k.disk.app (.ota t.updatePartition) ++ image) = true
        rw [happ]
        exact hvalid)
    refine ⟨{ t₁ with handleOpen := false, pc := .exit .installed }, j', ?_, rfl, ?_⟩
    · have hfits' : (HttpRead.data d).fits = true := by
        simp only [HttpRead.fits, Bool.and_eq_true, decide_eq_true_eq]
        omega
      have hnew' : t.refuses C (j.write (.received d)).disk a b (versionField d) = false := by
        rw [versionField_append (by omega)] at hnew
        exact hnew
      rw [Machine.exec_cons (t := ⟨.task { t with pc := .header d }, j.write (.received d)⟩),
        Machine.exec_cons (t := ⟨.task { t with imageHeaderWasChecked := true, pc := .otaBegin d },
          j.write (.received d)⟩),
        Machine.exec_cons (t := ⟨.task { t with
          imageHeaderWasChecked := true, handleOpen := true, pc := .otaWrite d },
          (j.write (.received d)).write (.otaBegin t.updatePartition (versionField d))⟩),
        Machine.exec_cons (t := ⟨.task t₁, k⟩)]
      · exact hexec
      · simp [device, Sys.step, Task.step, hk, t₁, Task.updatePartition]
      · have hstate' : (j.write (.received d)).disk.stateOf t.running ≠ some .pendingVerify :=
          hstate
        simp only [device, Sys.step, Task.step, if_true, if_neg hstate']
        rfl
      · have hnew'' : ({ t with pc := .header d } : Task).refuses C (j.write (.received d)).disk a b
          (versionField d) = false := hnew'
        simp only [device, Sys.step, Task.step, hnew'']
        rfl
      · simp [device, Sys.step, Task.step, hpc, hfits', Task.afterRead, hunchecked, hlong]
    · rw [hdisk]
      show installed k.disk t.updatePartition (k.disk.app (.ota t.updatePartition) ++ image) = _
      rw [happ, hk]
      simp [installed, Flash.apply, Flash.setEntry]

/-- Confirming the running image changes neither what is refused nor what an
image holds. -/
theorem diagnose_exec (running : Partition) (j : Log) :
    ∃ j', diagnose running true true j = ⟨.network running, j'⟩ ∧
      j'.disk.stateOf running ≠ some .pendingVerify ∧
      (j.disk.stateOf running = some .pendingVerify → j'.disk.stateOf running = some .valid) ∧
      j'.disk.app = j.disk.app ∧ j'.disk.failed = j.disk.failed ∧
      j'.disk.latest = j.disk.latest := by
  cases running with
  | factory =>
    exact ⟨j, rfl, by simp [Flash.stateOf], by simp [Flash.stateOf], rfl, rfl, rfl⟩
  | ota slot =>
    by_cases hstate : j.disk.entry slot = some .pendingVerify
    · have hvalid : (j.write (.markValid slot)).disk.stateOf (.ota slot) = some .valid := by
        show Function.update j.disk.entry slot (some .valid) slot = some .valid
        rw [Function.update_self]
      refine ⟨j.write (.markValid slot), ?_, ?_, fun _ => hvalid, rfl, ?_, rfl⟩
      · rw [diagnose, if_pos hstate, if_pos rfl]
      · rw [hvalid]
        decide
      · funext slot'
        show (Function.update j.disk.entry slot (some .valid) slot').any _ = _
        by_cases heq : slot' = slot
        · subst heq
          rw [Function.update_self, Flash.failed, hstate]
          rfl
        · rw [Function.update_of_ne heq]
          rfl
    · refine ⟨j, ?_, hstate, fun h => absurd h hstate, rfl, rfl, rfl⟩
      rw [diagnose, if_neg hstate]

/-- The task comes to its first read. -/
theorem startup_exec (C : Config) (start : Flash → Prop) (j : Log) :
    ∃ t j', (device C start).exec ⟨.off, j⟩ startup = some ⟨.task t, j'⟩ ∧ t.pc = .read ∧
      t.imageHeaderWasChecked = false ∧ t.running = j.disk.bootSelect ∧
      j'.disk.stateOf t.running ≠ some .pendingVerify ∧
      (j.disk.start.stateOf t.running = some .pendingVerify →
        j'.disk.stateOf t.running = some .valid) ∧
      j'.disk.app = j.disk.app ∧ j'.disk.failed = j.disk.start.failed ∧
      j'.disk.latest = j.disk.latest := by
  set p := j.disk.bootSelect
  obtain ⟨k, hdiagnose, hstate, hconfirms, happ, hfailed, hlatest⟩ :=
    diagnose_exec p (j.write (.boot p))
  refine ⟨{ Task.start p with pc := .read }, k.write .httpInit, ?_, rfl, rfl, rfl, hstate,
    hconfirms, happ, hfailed, hlatest⟩
  rw [startup, Machine.exec_cons (t := ⟨.diagnostic p, j.write (.boot p)⟩),
    Machine.exec_cons (t := ⟨.network p, k⟩), Machine.exec_cons (t := ⟨.task (.start p), k⟩),
    Machine.exec_cons (t := ⟨.task { Task.start p with pc := .httpOpen }, k.write .httpInit⟩)]
  · simp [Machine.exec, device, Sys.step, Task.step, Task.start]
  · simp [device, Sys.step, Task.step, Task.start]
  · simp [device, Sys.step]
  · simp [device, Sys.step, hdiagnose]
  · simp [device, Sys.step, p]

theorem refuses_congr (flash : Flash) {flash' : Flash} (happ : flash'.app = flash.app)
    (hfailed : flash'.failed = flash.failed) (hlatest : flash'.latest = flash.latest)
    (hrunning : t'.running = t.running) (a b v : Bytes) :
    t'.refuses C flash' a b v = t.refuses C flash a b v := by
  simp only [Task.refuses, Task.invalidVersion, Task.runningVersion, Flash.lastInvalid, Flash.pick,
    happ, hfailed, hlatest, hrunning]

/-- A new image gets its one boot. -/
theorem start_new {flash : Flash} {slot : Slot} (hlatest : flash.latest = slot)
    (hentry : flash.entry slot = some .new) :
    flash.start.stateOf (.ota slot) = some .pendingVerify := by
  have hselect : flash.bootSelect = .ota slot := bootSelect_new hlatest hentry
  show flash.start.entry slot = some .pendingVerify
  rw [Flash.entry_start, hentry, Option.map_some, if_neg (by decide), if_pos ⟨rfl, hselect⟩]

/-- Every session with a server that delivers a valid image that is neither the
running version nor the last invalid one, and whose calls all succeed, installs
the image, and after the restart it runs and is confirmed. -/
theorem native_update_completes (C : Config) (start : Flash → Prop) (j : Log)
    (image a b : Bytes) (ls : List Label) (hsession : Session a b image ls)
    (hvalid : C.imageValid image = true)
    (hnew : (Task.start j.disk.bootSelect).refuses C j.disk.start a b (versionField image) =
      false) :
    ∃ t j', (device C start).exec ⟨.off, j⟩ (startup ++ ls ++ .restart :: startup) =
        some ⟨.task t, j'⟩ ∧
      t.running = .ota j.disk.bootSelect.nextUpdate ∧ j'.disk.app t.running = image ∧
      j'.disk.stateOf t.running = some .valid ∧
      ∀ p, p ≠ t.running → j'.disk.app p = j.disk.app p := by
  obtain ⟨t₁, j₁, hexec₁, hpc₁, hunchecked, hrunning, hstate, -, happ, hfailed, hlatest⟩ :=
    startup_exec C start j
  have hnew₁ : t₁.refuses C j₁.disk a b (versionField image) = false :=
    (refuses_congr j.disk.start (t := Task.start j.disk.bootSelect) happ hfailed hlatest hrunning
      a b _).trans hnew
  obtain ⟨t₂, j₂, hexec₂, hpc₂, hdisk₂⟩ :=
    session_exec start hsession hpc₁ hunchecked hstate hnew₁ hvalid
  obtain ⟨t₃, j₃, hexec₃, -, -, hrunning₃, -, hconfirms, happ₃, -, -⟩ :=
    startup_exec C start (j₂.write .restart)
  have hslot : t₁.updatePartition = j.disk.bootSelect.nextUpdate := by
    rw [Task.updatePartition, hrunning]
  have hnewest : j₂.disk.latest = t₁.updatePartition := by
    rw [hdisk₂]
    rfl
  have hentry : j₂.disk.entry t₁.updatePartition = some .new := by
    rw [hdisk₂]
    exact Function.update_self ..
  have hrun₃ : t₃.running = .ota j.disk.bootSelect.nextUpdate := by
    rw [hrunning₃, ← hslot]
    exact bootSelect_new hnewest hentry
  refine ⟨t₃, j₃, ?_, hrun₃, ?_, hconfirms ?_, fun p hp => ?_⟩
  · have hexec : (device C start).exec ⟨.off, j⟩ (startup ++ ls) = some ⟨.task t₂, j₂⟩ := by
      rw [Machine.exec_append hexec₁, hexec₂]
    rw [Machine.exec_append hexec, Machine.exec_cons (t := ⟨.off, j₂.write .restart⟩)]
    · exact hexec₃
    · simp [device, Sys.step, Phase.restarts, hpc₂]
  · rw [happ₃, hrun₃, ← hslot]
    show j₂.disk.app _ = image
    rw [hdisk₂]
    exact Function.update_self ..
  · rw [hrun₃, ← hslot]
    exact start_new hnewest hentry
  · rw [hrun₃, ← hslot] at hp
    rw [happ₃]
    show j₂.disk.app p = _
    rw [hdisk₂, ← happ]
    exact Function.update_of_ne hp ..

/-- The image comes in two blocks, with a pause between them. -/
theorem native_update_completes_sample : ∃ t j',
    (device sampleConfig fun _ => True).exec ⟨.off, ⟨sampleFlash, []⟩⟩ (startup ++
      ([.read (.data (sampleImage 2)), .header [] [], .otaBegin true, .otaWrite true,
        .read (.idle false false), .read (.data [7]), .otaWrite true, .read (.idle false true),
        .checkComplete true, .otaEnd true, .setBoot true]) ++ .restart :: startup) =
        some ⟨.task t, j'⟩ ∧
      t.running = .ota .ota0 ∧ j'.disk.app t.running = sampleImage 2 ++ ([7] ++ []) ∧
      j'.disk.stateOf t.running = some .valid := by
  obtain ⟨t, j', hexec, hrunning, himage, hstate, -⟩ := native_update_completes sampleConfig
    (fun _ => True) ⟨sampleFlash, []⟩ (sampleImage 2 ++ ([7] ++ [])) [] [] _
    (.first (sampleImage 2) (by decide +kernel) (by decide +kernel)
      (.stall (.block [7] (by decide) (by decide) (.done false true rfl))))
    (by decide +kernel) (by decide +kernel)
  exact ⟨t, j', hexec, hrunning, himage, hstate⟩

end Winegrid.NativeOta
