import Winegrid.ThingsBoard.Reports

/-!
# What a failed attempt leaves behind

An attempt starts with `start_fw_update` and goes on while
`s_fw_update_in_progress` is set.  `pending_fw` is written when the download
starts, and none of the failed ends takes it back.

* `Attempt` collects the clients of one attempt, over every sequence of
  events.
* `Harmless` effects leave what the next boot looks at, and every step of a
  download that does not restart writes only such effects.
* `failed_attempt_untouched` says when a failed attempt leaves no trace.
-/

namespace Winegrid.ThingsBoard

open Esp Client

variable {P : Platform} {c c' start : Client} {o : Outcomes} {l : Label}

/-! ## Attempts -/

/-- The clients from the call of `start_fw_update` in `start` to the end of
the attempt. -/
inductive Attempt (P : Platform) (start : Client) (o : Outcomes) : Client → Prop where
  | start : Attempt P start o (start.startFwUpdate o)
  | step {c c' : Client} {l : Label} (h : Attempt P start o c) (hbusy : c.dl.inProgress = true)
      (hnext : c.next P l = some c') : Attempt P start o c'

/-- The keys of NVS and what the bootloader goes by are the same. -/
structure Untouched (flash flash' : Flash) : Prop where
  nvs : flash'.nvs = flash.nvs
  bootSlot : flash'.bootSlot = flash.bootSlot
  imgState : flash'.imgState = flash.imgState

/-- The last thing that was done is a report of `FAILED`. -/
def EndsFailed (es : List Effect) : Prop := ∃ e, stateOf e = some .failed ∧ [e] <:+ es

/-! ## Effects -/

/-- Effects that reach neither NVS nor the boot data. -/
def Harmless : Effect → Prop
  | .publish .. | .subscribe _ | .otaBegin _ | .otaWrite .. => True
  | .setBoot _ _ ok => ok = false
  | _ => False

theorem Untouched.refl (flash : Flash) : Untouched flash flash := ⟨rfl, rfl, rfl⟩

theorem Untouched.trans {f g h : Flash} (hfg : Untouched f g) (hgh : Untouched g h) :
    Untouched f h :=
  ⟨hgh.nvs.trans hfg.nvs, hgh.bootSlot.trans hfg.bootSlot, hgh.imgState.trans hfg.imgState⟩

theorem Untouched.symm {f g : Flash} (h : Untouched f g) : Untouched g f :=
  ⟨h.nvs.symm, h.bootSlot.symm, h.imgState.symm⟩

theorem harmless_of_talks {e : Effect} (h : Talks e) : Harmless e := by
  cases e <;> trivial

theorem apply_untouched (flash : Flash) {e : Effect} (h : Harmless e) :
    Untouched flash (flash.apply e) := by
  cases e with
  | setBoot slot version ok =>
    have hok : ok = false := h
    subst hok
    exact .refl flash
  | publish | subscribe | otaBegin | otaWrite => exact ⟨rfl, rfl, rfl⟩
  | _ => exact h.elim

theorem writes_untouched (j : Log) (es : List Effect) (h : ∀ e ∈ es, Harmless e) :
    Untouched j.disk (j.writes es).disk := by
  induction es generalizing j with
  | nil => exact .refl j.disk
  | cons e es ih =>
    have hrest := ih (j.write e) fun e he => h e (List.mem_cons_of_mem _ he)
    exact (apply_untouched j.disk (h e List.mem_cons_self)).trans hrest

/-! ## The end of an attempt -/

theorem harmless_failEffects (states : List FwState) {es : List Effect}
    (h : ∀ e ∈ es, Harmless e) : ∀ e ∈ failEffects states es, Harmless e := by
  intro e he
  simp only [failEffects, List.mem_append, List.mem_map, List.mem_singleton] at he
  rcases he with (⟨state, -, rfl⟩ | he) | rfl
  · trivial
  · exact h e he
  · trivial

theorem endsFailed_failEffects (log : List Effect) (states : List FwState) (es : List Effect) :
    EndsFailed (log ++ failEffects states es) :=
  ⟨fwReport .failed, stateOf_fwReport .failed,
    (List.suffix_append _ _).trans (List.suffix_append _ _)⟩

/-- What a client of a download became, without a restart: its flash is as it
was, and if the download is over, `FAILED` was the last thing reported. -/
structure Spares (c c' : Client) : Prop where
  flash : Untouched c.journal.disk c'.journal.disk
  failed : c'.dl.inProgress = false → EndsFailed c'.journal.log

theorem finishFwUpdate_spares {success : Bool}
    (hhalt : (c.finishFwUpdate P o success).halt = none) :
    Spares c (c.finishFwUpdate P o success) := by
  have hgave : ∀ states es, (∀ e ∈ es, Harmless e) → Spares c (c.gaveUp (failEffects states es)) :=
    fun states es hes => by
      refine ⟨writes_untouched c.journal _ (harmless_failEffects states hes), fun _ => ?_⟩
      rw [gaveUp, Journal.writes_log]
      exact endsFailed_failEffects _ states es
  rcases finishFwUpdate_cases P c o success with ⟨states, -, heq⟩ | ⟨-, -, slot, -, heq | heq⟩
  · rw [heq]
    exact hgave states [] (by simp)
  · rw [heq]
    exact hgave _ _ (by simp [Harmless])
  · rw [heq] at hhalt
    cases hhalt

theorem handleFwChunkData_spares {data : Bytes} (hbusy : c.dl.inProgress = true)
    (hhalt : (c.handleFwChunkData P o data).halt = none) :
    Spares c (c.handleFwChunkData P o data) := by
  have haccept : Untouched c.journal.disk (c.acceptChunk data).journal.disk :=
    writes_untouched c.journal [.otaWrite _ data] (by simp [Harmless])
  rcases handleFwChunkData_cases P c o data with
    ⟨hidle, -⟩ | ⟨-, heq⟩ | ⟨-, -, -, -, heq⟩ | ⟨-, -, heq⟩
  · exact absurd (hidle.symm.trans hbusy) (by decide)
  · rw [heq] at hhalt ⊢
    exact finishFwUpdate_spares hhalt
  · rw [heq]
    refine ⟨haccept.trans (writes_untouched _ [.publish _ _] (by simp [Harmless])), ?_⟩
    intro hidle
    exact absurd (hidle.symm.trans hbusy) (by decide)
  · rw [heq] at hhalt ⊢
    obtain ⟨hflash, hfailed⟩ := finishFwUpdate_spares hhalt
    exact ⟨haccept.trans hflash, hfailed⟩

/-- A step of a download, without a restart. -/
theorem next_spares (hbusy : c.dl.inProgress = true) (hhalt' : c'.halt = none)
    (hnext : c.next P l = some c') : Spares c c' := by
  obtain ⟨-, hstep⟩ := next_step hnext
  cases hstep with
  | quiet es htalk hbuild hslot hfw hdl hota hjournal =>
    have hflash := writes_untouched c.journal _ fun e he => harmless_of_talks (htalk e he)
    refine ⟨hjournal ▸ hflash, fun hidle => ?_⟩
    rw [hdl, hbusy] at hidle
    cases hidle
  | attributes htopic hparse =>
    refine ⟨?_, fun hidle => ?_⟩
    · rw [applyAttributes_journal]
      exact .refl _
    · rw [applyAttributes_dl, hbusy] at hidle
      cases hidle
  | offer htopic hparse hhalt hwants =>
    have hidle := idle_of_wantsUpdate hwants
    rw [applyAttributes_dl, hbusy] at hidle
    cases hidle
  | chunk htopic => exact handleFwChunkData_spares hbusy hhalt'

/-! ## The start of an attempt -/

/-- The start leaves no trace if and only if nothing starts, or `pending_fw`
already holds the version. -/
theorem startFwUpdate_untouched (c : Client) (o : Outcomes) :
    Untouched c.journal.disk (c.startFwUpdate o).journal.disk ↔
      ¬StartsDownload c o ∨ c.journal.disk.nvs .pendingFw = some c.fw.version := by
  rcases startFwUpdate_cases c o with ⟨hstarts, p, payload, -, heq⟩ | ⟨hstarts, heq⟩
  · rw [heq]
    exact ⟨fun _ => Or.inl hstarts, fun _ => .refl _⟩
  · have hnvs : (c.startFwUpdate o).journal.disk.nvs =
        Function.update c.journal.disk.nvs .pendingFw (some c.fw.version) := by
      rw [heq]
      rfl
    constructor
    · intro h
      exact Or.inr (by rw [← h.nvs, hnvs, Function.update_self])
    · intro h
      have hpending := h.resolve_left (not_not.mpr hstarts)
      refine ⟨?_, by rw [heq]; rfl, by rw [heq]; rfl⟩
      rw [hnvs, ← hpending, Function.update_eq_self]

/-- What the start left is what the attempt leaves. -/
theorem Attempt.spares (h : Attempt P start o c) (hhalt : c.halt = none) :
    Spares (start.startFwUpdate o) c := by
  induction h with
  | start =>
    refine ⟨.refl _, fun hidle => ?_⟩
    rcases startFwUpdate_cases start o with ⟨-, p, payload, hpayload, heq⟩ | ⟨-, heq⟩
    · have hfailed : stateOf (.publish telemetryTopic payload) = some .failed := by
        rcases hpayload with rfl | rfl
        · exact fwStateOf_refused start.fw.version
        · exact stateOf_fwReport .failed
      rw [heq]
      exact ⟨_, hfailed, List.suffix_append _ _⟩
    · rw [heq] at hidle
      cases hidle
  | step h hbusy hnext ih =>
    have hspares := next_spares hbusy hhalt hnext
    exact ⟨(ih (next_step hnext).1).flash.trans hspares.flash, hspares.failed⟩

/-- An attempt that ends without a restart ends with a report of `FAILED`.
It leaves NVS and the boot partition as they were if and only if no download
started, or `pending_fw` was the offered version before. -/
theorem failed_attempt_untouched (h : Attempt P start o c) (hhalt : c.halt = none)
    (hidle : c.dl.inProgress = false) :
    EndsFailed c.journal.log ∧
      (Untouched start.journal.disk c.journal.disk ↔
        ¬StartsDownload start o ∨ start.journal.disk.nvs .pendingFw = some start.fw.version) := by
  obtain ⟨hflash, hfailed⟩ := h.spares hhalt
  refine ⟨hfailed hidle, ?_⟩
  rw [← startFwUpdate_untouched start o]
  exact ⟨fun h => h.trans hflash.symm, fun h => h.trans hflash⟩

/-! ## A download that fails -/

/-- The client that was offered version 1.8 and is about to start. -/
def taking : Client := sampleClient.applyAttributes (container (.object package18.members)).children

theorem offered_eq_taking : offered [package18] package18 = taking.startFwUpdate allOk := by
  have hparse : (samplePlatform [package18]).parse package18.text =
      some (.object package18.members) := samplePlatform_parse (by simp)
  have hfw : startsWith attributesTopic fwTopicPrefix = false := by decide
  have hrpc : startsWith attributesTopic rpcRequestTopicPrefix = false := by decide
  have htaking : taking.halt.isSome = false ∧ taking.wantsUpdate = true := by decide +kernel
  unfold taking at htaking
  simp only [offered, mqttEventHandler, hfw, hrpc, Bool.false_eq_true, if_false,
    handleAttributesPayload, hparse, htaking, if_true, taking]

/-- An empty message where the one chunk of version 1.8 should be. -/
def emptyChunk : Event := .data (ascii "v2/fw/response/1/chunk/0") []

/-- The client that got it. -/
def emptied : Client :=
  mqttEventHandler (samplePlatform [package18]) (offered [package18] package18) allOk emptyChunk

theorem emptied_attempt : Attempt (samplePlatform [package18]) taking allOk emptied := by
  have hoffered : (offered [package18] package18).halt = none ∧
      (offered [package18] package18).dl.inProgress = true := by decide +kernel
  have hnext := next_event (P := samplePlatform [package18]) hoffered.1 allOk emptyChunk
  exact .step (offered_eq_taking ▸ .start) hoffered.2 hnext

/-- The next attempt of 1.8, which ends like the first. -/
def emptiedAgain : Client :=
  mqttEventHandler (samplePlatform [package18]) (emptied.startFwUpdate allOk) allOk emptyChunk

theorem emptiedAgain_attempt :
    Attempt (samplePlatform [package18]) emptied allOk emptiedAgain := by
  have hstarted : (emptied.startFwUpdate allOk).halt = none ∧
      (emptied.startFwUpdate allOk).dl.inProgress = true := by decide +kernel
  have hnext := next_event (P := samplePlatform [package18]) hstarted.1 allOk emptyChunk
  exact .step .start hstarted.2 hnext

/-- Without an OTA handle nothing starts, and nothing is left behind.  A
download that fails over a marker of the same version changes nothing either. -/
theorem failed_attempt_untouched_sample :
    Untouched taking.journal.disk
      (taking.startFwUpdate { allOk with otaBegin := false }).journal.disk ∧
    StartsDownload emptied allOk ∧ EndsFailed emptiedAgain.journal.log ∧
      Untouched emptied.journal.disk emptiedAgain.journal.disk := by
  have hend : (taking.startFwUpdate { allOk with otaBegin := false }).halt = none ∧
      (taking.startFwUpdate { allOk with otaBegin := false }).dl.inProgress = false := by
    decide +kernel
  have hrefused : ¬StartsDownload taking { allOk with otaBegin := false } :=
    fun h => absurd h.2.2 (by decide)
  have hagain : emptiedAgain.halt = none ∧ emptiedAgain.dl.inProgress = false ∧
      emptied.journal.disk.nvs .pendingFw = some emptied.fw.version := by decide +kernel
  obtain ⟨hhalt, hidle, hmarker⟩ := hagain
  have hstarts : StartsDownload emptied allOk := ⟨by decide +kernel, rfl, rfl⟩
  obtain ⟨hfailed, huntouched⟩ := failed_attempt_untouched emptiedAgain_attempt hhalt hidle
  exact ⟨(failed_attempt_untouched (P := samplePlatform []) .start hend.1 hend.2).2.mpr
    (Or.inl hrefused), hstarts, hfailed, huntouched.mpr (Or.inr hmarker)⟩

/-- The download of version 1.8 fails, and `pending_fw` still says 1.8. -/
theorem failed_attempt_leaves_marker :
    ¬ ∀ c, Attempt (samplePlatform [package18]) taking allOk c → c.halt = none →
      c.dl.inProgress = false → Untouched taking.journal.disk c.journal.disk := by
  intro h
  have hend : emptied.halt = none ∧ emptied.dl.inProgress = false ∧
      emptied.journal.disk.nvs .pendingFw = some (ascii "1.8") := by decide +kernel
  obtain ⟨hhalt, hidle, hpending⟩ := hend
  rw [(h emptied emptied_attempt hhalt hidle).nvs] at hpending
  cases hpending

end Winegrid.ThingsBoard
