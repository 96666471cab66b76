import Winegrid.Azure.Update
import Winegrid.Lib.Ledger

/-!
# The handles of an update

`ota_task` holds an HTTP client, an OTA handle and its argument, and gives
them back at five exits.  The client logs every acquisition and every release
of a handle, and `Client.ledger` puts what the live task holds beside the log.

* `taskStep_turn`: a step of the task is a careful turn of each of the three
  ledgers, but for a failed `esp_http_client_open`, which forgets the client.
* `sound_reach`: the ledgers are sound in every run.
* `ota_balanced_iff`: a task that ends has given everything back exactly when
  no `esp_http_client_open` of the run failed.
-/

namespace Winegrid.Azure

open Esp Client

variable {P : Platform} {c c' : Client} {t : Task}

/-- What a task holds. -/
inductive Resource where
  | httpClient
  | otaHandle
  | argument
  deriving DecidableEq

/-- The handle that a task holds. -/
def Task.holding (t : Task) : Resource → Option Nat
  | .httpClient =>
    match t.pc with
    | .httpOpen | .otaBegin | .savePending | .read | .cleanup _ => some t.http
    | .httpInit | .otaEnd | .setBoot | .restart | .done => none
  | .otaHandle =>
    match t.pc with
    | .savePending | .read | .cleanup _ | .otaEnd => some t.updateHandle
    | .httpInit | .httpOpen | .otaBegin | .setBoot | .restart | .done => none
  | .argument => some t.argId

/-- The handles of the OTA library. -/
def openHandles (ota : Ota) : Handles := ⟨ota.handles.map OtaHandle.id, ota.lastHandle, ota.log⟩

/-- The handles of one kind, and the one that the live task holds. -/
def Client.ledger (c : Client) (r : Resource) : Ledger where
  toHandles := match r with
    | .httpClient => c.http
    | .otaHandle => openHandles c.ota
    | .argument => c.args
  held := c.tasks.head?.bind fun t => t.holding r

/-! ## Steps -/

/-- Releasing a handle takes its number from the list. -/
theorem openHandles_release {ota : Ota} (hnodup : (openHandles ota).live.Nodup) (id : Nat) :
    openHandles (ota.release id) = (openHandles ota).free id := by
  have hids : (ota.release id).handles.map OtaHandle.id = (openHandles ota).live.erase id := by
    rw [hnodup.erase_eq_filter, Ota.release, openHandles, List.filter_map]
    congr 1
    refine List.filter_congr fun h _ => ?_
    simp [bne, beq_eq_decide]
  rw [openHandles, hids]
  rfl

theorem openHandles_append (ota : Ota) (id : Nat) (data : Bytes) :
    openHandles (ota.append id data) = openHandles ota := by
  have hids : (ota.append id data).handles.map OtaHandle.id = ota.handles.map OtaHandle.id := by
    rw [Ota.append, List.map_map]
    refine List.map_congr_left fun h _ => ?_
    rw [Function.comp_apply]
    split_ifs <;> rfl
  rw [openHandles, hids]
  rfl

/-- A call of `esp_http_client_open` that fails. -/
def Task.FailsOpen (t : Task) (o : TaskOutcomes) : Prop := t.pc = .httpOpen ∧ o.httpOpen = false

/-- After a failed open nothing refers to the HTTP client any more. -/
theorem failedOpen_forgets (htasks : c.tasks = [t]) {o : TaskOutcomes} (h : t.FailsOpen o) :
    (c.ledger .httpClient).held = some t.http ∧
      (c.taskStep P 0 t o).ledger .httpClient = (c.ledger .httpClient).forget := by
  obtain ⟨hpc, hopen⟩ := h
  simp [ledger, Ledger.forget, taskStep, Task.holding, setTask, htasks, hpc, hopen,
    reportFwState, emit]

theorem taskStep_http (htasks : c.tasks = [t]) {o : TaskOutcomes} (hopen : ¬ t.FailsOpen o) :
    Ledger.Turn (c.ledger .httpClient) ((c.taskStep P 0 t o).ledger .httpClient) := by
  have hheld : (c.ledger .httpClient).held = t.holding .httpClient := by simp [ledger, htasks]
  unfold taskStep
  cases hpc : t.pc <;> simp only [Task.holding, hpc] at hheld ⊢
  case httpInit =>
    split_ifs
    · exact .acquire hheld (by simp [ledger, Ledger.acquire, Task.holding, setTask, htasks,
        Handles.alloc])
    · exact .keep (by simp [ledger, Task.holding, setTask, htasks, hpc, reportFwState, emit])
  case httpOpen =>
    have hopen : o.httpOpen = true := by
      rw [Task.FailsOpen, not_and, Bool.not_eq_false] at hopen
      exact hopen hpc
    rw [if_pos hopen]
    exact .keep (by simp [ledger, Task.holding, setTask, htasks, hpc])
  case otaBegin =>
    split_ifs
    · exact .keep (by simp [ledger, Task.holding, setTask, htasks, hpc, emit])
    · exact .release t.http hheld (by simp [ledger, Ledger.release, Task.holding, setTask, htasks,
        reportFwState, emit])
  case cleanup =>
    refine .release t.http hheld ?_
    split_ifs <;>
      simp [ledger, Ledger.release, Task.holding, setTask, htasks, reportFwState, emit, abandon]
  case read =>
    refine .keep ?_
    split
    · simp [ledger, Task.holding, setTask, htasks, hpc]
    · simp [ledger, Task.holding, setTask, htasks, hpc]
    · split_ifs <;> simp [ledger, Task.holding, setTask, emit, htasks, hpc]
  case savePending | restart | done =>
    exact .keep (by simp [ledger, Task.holding, setTask, htasks, hpc, reportFwState, emit])
  case otaEnd | setBoot =>
    refine .keep ?_
    split_ifs <;> simp [ledger, Task.holding, setTask, htasks, hpc, reportFwState, emit, abandon]

theorem taskStep_ota (htasks : c.tasks = [t]) (o : TaskOutcomes)
    (hsound : (c.ledger .otaHandle).Sound) :
    Ledger.Turn (c.ledger .otaHandle) ((c.taskStep P 0 t o).ledger .otaHandle) := by
  have hheld : (c.ledger .otaHandle).held = t.holding .otaHandle := by simp [ledger, htasks]
  have hrelease : ∀ id, openHandles (c.ota.release id) = (openHandles c.ota).free id :=
    openHandles_release hsound.live_nodup
  unfold taskStep
  cases hpc : t.pc <;> simp only [Task.holding, hpc] at hheld ⊢
  case otaBegin =>
    split_ifs
    · exact .acquire hheld (by simp [ledger, Ledger.acquire, Task.holding, setTask, htasks,
        Handles.alloc, openHandles, Ota.start, emit])
    · exact .keep (by simp [ledger, Task.holding, setTask, htasks, hpc, reportFwState, emit])
  case cleanup downloadOk =>
    split_ifs
    · exact .keep (by simp [ledger, Task.holding, setTask, htasks, hpc, reportFwState, emit])
    · exact .release t.updateHandle hheld (by simp [ledger, Ledger.release, Task.holding, setTask,
        htasks, hrelease, reportFwState, emit, abandon])
  case otaEnd =>
    refine .release t.updateHandle hheld ?_
    split_ifs <;>
      simp [ledger, Ledger.release, Task.holding, setTask, htasks, hrelease, reportFwState, emit,
        abandon]
  case read =>
    refine .keep ?_
    split
    · simp [ledger, Task.holding, setTask, htasks, hpc]
    · simp [ledger, Task.holding, setTask, htasks, hpc]
    · split_ifs <;> simp [ledger, Task.holding, setTask, emit, htasks, hpc, openHandles_append]
  case savePending | restart | done =>
    exact .keep (by simp [ledger, Task.holding, setTask, htasks, hpc, reportFwState, emit])
  case httpInit | httpOpen | setBoot =>
    refine .keep ?_
    split_ifs <;> simp [ledger, Task.holding, setTask, htasks, hpc, reportFwState, emit, abandon]

/-- Only the end of the task frees its argument. -/
theorem taskStep_argument (htasks : c.tasks = [t]) (o : TaskOutcomes) :
    (c.taskStep P 0 t o).ledger .argument =
      if t.pc = .done then (c.ledger .argument).release t.argId else c.ledger .argument := by
  unfold taskStep
  cases hpc : t.pc <;> simp only [reduceCtorEq, if_false, if_true]
  case read =>
    split
    · simp [ledger, Task.holding, setTask, htasks]
    · simp [ledger, Task.holding, setTask, htasks]
    · split_ifs <;> simp [ledger, Task.holding, setTask, emit, htasks]
  case savePending | restart | done =>
    simp [ledger, Ledger.release, Task.holding, setTask, htasks, reportFwState, emit]
  all_goals
    split_ifs <;> simp [ledger, Task.holding, setTask, htasks, reportFwState, emit, abandon]

theorem argument_held (htasks : c.tasks = [t]) : (c.ledger .argument).held = some t.argId := by
  simp [ledger, htasks, Task.holding]

/-- A step of the task turns every ledger, but for a failed open. -/
theorem taskStep_turn (htasks : c.tasks = [t]) {o : TaskOutcomes} {r : Resource}
    (hopen : r = .httpClient → ¬ t.FailsOpen o) (hsound : (c.ledger r).Sound) :
    Ledger.Turn (c.ledger r) ((c.taskStep P 0 t o).ledger r) := by
  cases r with
  | httpClient => exact taskStep_http htasks (hopen rfl)
  | otaHandle => exact taskStep_ota htasks o hsound
  | argument =>
    have hledger := taskStep_argument (P := P) htasks o
    split_ifs at hledger
    · exact .release t.argId (argument_held htasks) hledger
    · exact .keep hledger

/-- A step that changes nothing about updates leaves the ledgers alone. -/
theorem ledger_congr (h : c'.updateVars = c.updateVars) (r : Resource) :
    c'.ledger r = c.ledger r := by
  have htasks : c'.tasks = c.tasks := congrArg UpdateVars.tasks h
  have hhttp : c'.http = c.http := congrArg UpdateVars.http h
  have hota : c'.ota = c.ota := congrArg UpdateVars.ota h
  have hargs : c'.args = c.args := congrArg UpdateVars.args h
  simp only [ledger, htasks, hhttp, hota, hargs]

/-- `trigger_ota` acquires the argument.  When `xTaskCreate` fails, nothing
refers to it any more. -/
theorem start_ledger {created : Bool} {arg : Bytes} (hnone : c.tasks = [])
    (hvars : c'.updateVars = c.updateVars.start created arg) (r : Resource) :
    c'.ledger r =
      if r = .argument then
        if created then (c.ledger r).acquire else (c.ledger r).acquire.forget
      else c.ledger r := by
  have htasks := tasks_of_start hnone hvars
  have hhttp : c'.http = c.http := congrArg UpdateVars.http hvars
  have hota : c'.ota = c.ota := congrArg UpdateVars.ota hvars
  have hargs : c'.args = c.args.alloc := congrArg UpdateVars.args hvars
  cases r <;> cases created <;>
    simp [ledger, Ledger.acquire, Ledger.forget, htasks, hnone, hhttp, hota, hargs, newTask,
      Task.holding, Handles.alloc]

/-! ## Runs -/

theorem sound_next {l : Label} (hone : c.tasks.length ≤ 1)
    (hbusy : c.tasks ≠ [] → c.otaInProgress = true) (hnext : c.next P l = some c')
    (hsound : ∀ r, (c.ledger r).Sound) : ∀ r, (c'.ledger r).Sound := by
  cases next_updateStep hone hnext with
  | quiet hvars _ _ =>
    intro r
    rw [ledger_congr hvars]
    exact hsound r
  | start hstart hvars =>
    intro r
    rw [start_ledger (noTask_of_startedBy hbusy hstart) hvars]
    split_ifs
    · exact (hsound r).acquire
    · exact (hsound r).acquire.forget
    · exact hsound r
  | @task t o htasks _ =>
    intro r
    by_cases hopen : r = .httpClient ∧ t.FailsOpen o
    · obtain ⟨rfl, hfails⟩ := hopen
      rw [(failedOpen_forgets htasks hfails).2]
      exact (hsound _).forget
    · exact (taskStep_turn htasks (not_and.mp hopen) (hsound r)).sound (hsound r)

/-- The ledgers are sound in every run. -/
theorem sound_reach (h : (client P).Reachable c) (r : Resource) : (c.ledger r).Sound := by
  refine h.invariant (I := fun c => ∀ r, (c.ledger r).Sound) ?_ ?_ r
  · rintro c ⟨build, slot, deviceId, journal, hfresh⟩ r
    have hempty : c.ledger r = .empty := by
      rw [hfresh]
      cases r <;> rfl
    rw [hempty]
    exact Ledger.sound_empty
  · intro c l c' hc hsound _ hnext
    obtain ⟨hone, hbusy⟩ := busy_of_reachable hc
    exact sound_next hone hbusy hnext hsound

/-- A call of `esp_http_client_open` succeeds. -/
def Opens (c : Client) : Label → Prop
  | .task i o => ∀ t, c.tasks[i]? = some t → t.pc = .httpOpen → o.httpOpen = true
  | _ => True

theorem opens_task {o : TaskOutcomes} (htasks : c.tasks = [t]) :
    Opens c (.task 0 o) ↔ ¬ t.FailsOpen o := by
  simp [Opens, htasks, Task.FailsOpen]

/-- Only a failed `esp_http_client_open` loses an HTTP client. -/
theorem lost_http_next {l : Label} (hreach : (client P).Reachable c)
    (hnext : c.next P l = some c') :
    (c'.ledger .httpClient).lost = 0 ↔ (c.ledger .httpClient).lost = 0 ∧ Opens c l := by
  obtain ⟨hone, hbusy⟩ := busy_of_reachable hreach
  have hsound := sound_reach hreach .httpClient
  cases next_updateStep hone hnext with
  | quiet hvars _ htask =>
    have hopens : Opens c l := by
      cases l with
      | task i o => exact absurd rfl (htask i o)
      | event o e | telemetry => exact trivial
    rw [ledger_congr hvars, and_iff_left hopens]
  | start hstart hvars =>
    rw [start_ledger (noTask_of_startedBy hbusy hstart) hvars, if_neg (by simp)]
    exact (and_iff_left trivial).symm
  | @task t o htasks _ =>
    rw [opens_task htasks]
    by_cases hopen : t.FailsOpen o
    · obtain ⟨hheld, hforget⟩ := failedOpen_forgets (P := P) htasks hopen
      rw [hforget, hsound.lost_forget hheld]
      simp [hopen]
    · rw [(taskStep_turn htasks (fun _ => hopen) hsound).lost hsound, and_iff_left hopen]

/-- No OTA handle is ever lost. -/
theorem lost_ota_reach (h : (client P).Reachable c) : (c.ledger .otaHandle).lost = 0 := by
  refine h.invariant (I := fun c => (c.ledger .otaHandle).lost = 0) ?_ ?_
  · rintro c ⟨build, slot, deviceId, journal, hfresh⟩
    rw [hfresh]
    rfl
  · intro c l c' hreach hlost _ hnext
    obtain ⟨hone, hbusy⟩ := busy_of_reachable hreach
    have hsound := sound_reach hreach .otaHandle
    cases next_updateStep hone hnext with
    | quiet hvars _ _ => rw [ledger_congr hvars, hlost]
    | start hstart hvars =>
      rw [start_ledger (noTask_of_startedBy hbusy hstart) hvars, if_neg (by simp), hlost]
    | task htasks _ => rw [(taskStep_turn htasks (by simp) hsound).lost hsound, hlost]

/-- A run loses no HTTP client if and only if each of its opens succeeds. -/
theorem never_lost_http_iff {c₀ : Client} {ls : List Label} (hinit : (client P).init c₀)
    (hrun : (client P).Run Machine.always c₀ ls c) :
    (c.ledger .httpClient).lost = 0 ↔ (client P).Run Opens c₀ ls c := by
  constructor
  · induction hrun with
    | nil => exact fun _ => .nil _
    | snoc hrun _ hnext ih =>
      intro h
      obtain ⟨hbefore, hopens⟩ := (lost_http_next (Machine.Run.reach (.init hinit) hrun) hnext).mp h
      exact .snoc (ih hbefore) hopens hnext
  · intro hopens
    induction hopens with
    | nil =>
      obtain ⟨build, slot, deviceId, journal, rfl⟩ := hinit
      rfl
    | snoc hopens hok hnext ih =>
      have hrun := hopens.imp fun _ _ _ _ => trivial
      exact (lost_http_next (Machine.Run.reach (.init hinit) hrun) hnext).mpr ⟨ih hrun, hok⟩

/-- After the end of the task: every HTTP client and every OTA handle that was
acquired was released once, and no other, so was the argument of the task, and
none of them is live. -/
structure Balanced (c : Client) (t : Task) : Prop where
  http : ∀ id, c.http.log.count (.released, id) =
    if (.acquired, id) ∈ c.http.log then 1 else 0
  ota : ∀ id, c.ota.log.count (.released, id) =
    if (.acquired, id) ∈ c.ota.log then 1 else 0
  argument : c.args.log.count (.acquired, t.argId) = 1 ∧
    c.args.log.count (.released, t.argId) = 1
  live : c.http.live = [] ∧ c.ota.handles = [] ∧ t.argId ∉ c.args.live

/-- The last step of a task is one of the only task, and leaves none alive. -/
theorem last_step {i : Nat} {o : TaskOutcomes} (hreach : (client P).Reachable c)
    (htask : c.tasks[i]? = some t) (hdone : t.pc = .done)
    (hnext : c.next P (.task i o) = some c') :
    c.tasks = [t] ∧ c' = c.taskStep P 0 t o ∧ c'.tasks = [] := by
  obtain ⟨hone, -⟩ := busy_of_reachable hreach
  cases next_updateStep hone hnext with
  | quiet _ _ hno => exact absurd rfl (hno i o)
  | @task t' _ htasks _ =>
    obtain rfl : t' = t := by simpa [htasks] using htask
    exact ⟨htasks, rfl, by simp [taskStep, hdone, htasks]⟩

/-- A task that ends has given everything back once if and only if every call
of `esp_http_client_open` of the run succeeded. -/
theorem ota_balanced_iff {c₀ : Client} {ls : List Label} {i : Nat} {o : TaskOutcomes}
    (hinit : (client P).init c₀) (hrun : (client P).Run Machine.always c₀ ls c)
    (htask : c.tasks[i]? = some t) (hdone : t.pc = .done)
    (hnext : (client P).next c (.task i o) = some c') :
    Balanced c' t ↔ (client P).Run Opens c₀ ls c := by
  have hreach : (client P).Reachable c := Machine.Run.reach (.init hinit) hrun
  have hreach' : (client P).Reachable c' := .step hreach trivial hnext
  obtain ⟨htasks, hstep, hnone⟩ := last_step hreach htask hdone hnext
  have hheld : ∀ r, (c'.ledger r).held = none := by
    intro r
    simp [ledger, hnone]
  have hlive : ∀ r, (c'.ledger r).lost = 0 → (c'.ledger r).live = [] := by
    intro r hlost
    rw [(sound_reach hreach' r).live_eq hlost, hheld]
    rfl
  have hopens : (c'.ledger .httpClient).lost = 0 ↔ (client P).Run Opens c₀ ls c := by
    have hlast : Opens c (.task i o) := by
      intro t' htask' hpc
      rw [Option.some_inj.mp (htask.symm.trans htask'), hpc] at hdone
      cases hdone
    rw [lost_http_next (P := P) (l := .task i o) hreach hnext, and_iff_left hlast,
      never_lost_http_iff hinit hrun]
  rw [← hopens]
  constructor
  · intro h
    have hlength : (c'.ledger .httpClient).lost = c'.http.live.length := by
      rw [Ledger.lost, hheld]
      rfl
    rw [hlength, h.live.1]
    rfl
  · intro hlost
    have hhttp := hlive .httpClient hlost
    have hota := hlive .otaHandle (lost_ota_reach hreach')
    have hargument : c'.ledger .argument = (c.ledger .argument).release t.argId := by
      rw [hstep, taskStep_argument htasks, if_pos hdone]
    obtain ⟨hacquired, hreleased, hfreed⟩ :=
      hargument ▸ (sound_reach hreach .argument).release_once (argument_held htasks)
    exact {
      http := (sound_reach hreach' .httpClient).released_eq hhttp
      ota := (sound_reach hreach' .otaHandle).released_eq hota
      argument := ⟨hacquired, hreleased⟩
      live := ⟨hhttp, List.map_eq_nil_iff.mp hota, hfreed⟩ }

theorem sampleClient_init : (client P).init sampleClient := ⟨_, _, _, _, rfl⟩

/-- A call of the task, with a read that fails. -/
def failedCall : Label := .task 0 ⟨true, true, true, none, true, true, true, true⟩

/-- The offer of a version, and a task whose first read fails, up to its end. -/
def failedRead : List Label := patchEvent bothText :: List.replicate 6 failedCall

/-- The offer of a version, and a task whose connection is refused. -/
def failedOpen : List Label :=
  [patchEvent bothText, failedCall, .task 0 ⟨true, false, true, none, true, true, true, true⟩]

/-- The only task is at its end. -/
def atEnd (c : Client) : Bool := c.tasks.map Task.pc == [.done]

/-- A run that leaves a task at its end, and the last step of the task. -/
theorem exists_end {ls : List Label} {check : Client → Bool}
    (h : ((client P).exec sampleClient ls).any
      (fun c => atEnd c && ((client P).next c failedCall).any check) = true) :
    ∃ c c' t, (client P).Run Machine.always sampleClient ls c ∧ c.tasks[0]? = some t ∧
      t.pc = .done ∧ (client P).next c failedCall = some c' ∧ check c' = true := by
  obtain ⟨c, hexec, hc⟩ := (Option.any_eq_true _ _).mp h
  rw [Bool.and_eq_true, atEnd, beq_iff_eq, List.map_eq_singleton_iff] at hc
  obtain ⟨⟨t, htasks, hpc⟩, hlast⟩ := hc
  obtain ⟨c', hnext, hcheck⟩ := (Option.any_eq_true _ _).mp hlast
  exact ⟨c, c', t, .exec hexec, by simp [htasks], hpc, hnext, hcheck⟩

/-- A download that fails at its first read is given back whole. -/
theorem ota_balanced_failedRead : ∃ c c' t,
    (client (textPlatform twinDocs)).Run Machine.always sampleClient failedRead c ∧
      (client (textPlatform twinDocs)).next c failedCall = some c' ∧ Balanced c' t := by
  have hexec : ((client (textPlatform twinDocs)).exec sampleClient failedRead).any
      (fun c => atEnd c && ((client (textPlatform twinDocs)).next c failedCall).any
        fun _ => true) = true := by decide +kernel
  obtain ⟨c, c', t, hrun, htask, hpc, hnext, -⟩ := exists_end hexec
  refine ⟨c, c', t, hrun, hnext,
    (ota_balanced_iff sampleClient_init hrun htask hpc hnext).mpr (hrun.imp ?_)⟩
  intro r l hl _
  simp only [failedRead, List.mem_cons, List.mem_replicate] at hl
  rcases hl with rfl | ⟨-, rfl⟩
  · exact trivial
  · exact fun _ _ _ => rfl

/-- The HTTP client of a connection that is refused stays allocated. -/
theorem ota_leaks : ¬ ∀ (P : Platform) (c₀ c c' : Client) (ls : List Label) (i : Nat)
    (t : Task) (o : TaskOutcomes), (client P).init c₀ →
      (client P).Run Machine.always c₀ ls c → c.tasks[i]? = some t → t.pc = .done →
      (client P).next c (.task i o) = some c' → Balanced c' t := by
  intro h
  have hexec : ((client (textPlatform twinDocs)).exec sampleClient failedOpen).any
      (fun c => atEnd c && ((client (textPlatform twinDocs)).next c failedCall).any
        fun c' => decide (c'.http.live ≠ [])) = true := by decide +kernel
  obtain ⟨c, c', t, hrun, htask, hpc, hnext, hlive⟩ := exists_end hexec
  have hbalanced := h _ _ c c' _ 0 t _ sampleClient_init hrun htask hpc hnext
  exact of_decide_eq_true hlive hbalanced.live.1

end Winegrid.Azure
