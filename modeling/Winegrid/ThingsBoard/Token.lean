import Winegrid.Esp.Images
import Winegrid.ThingsBoard.Device

/-!
# The access token of a ThingsBoard device

`app_main` provisions only when `load_stored_token` finds nothing, saves the
token before it starts the client, and nothing else touches that key: not an
update, not a rollback, not a loss of power between any two effects.  So a
device provisions until one token is saved, and has that token from there on.

* `KeepsToken` is the law, one effect at a time.
* `Kept` ties the key in NVS to the history.  `Kept.writes` adds the effects
  of a step, or of the part of it that is done before power is lost.
* `boot_lawful` and `client_lawful` are the two kinds of work.
* `token_kept`: the law of every run.
-/

namespace Winegrid.ThingsBoard

open Esp

variable {P : Platform} {s t : Sys Client} {j : Log} {e : Effect} {log es : List Effect}
  {token : Bytes}

/-! ## The law -/

/-- No token is stored yet. -/
def NoToken (flash : Flash) : Prop := flash.nvs .accessToken = none

def tokenOf : Effect → Option Bytes
  | .nvsSet .accessToken token => some token
  | _ => none

/-- The tokens that were saved. -/
def tokens (log : List Effect) : List Bytes := log.filterMap tokenOf

/-- The device provisions only without a token, saves what it was issued right
after that, never erases it, and speaks to the broker only with a token. -/
def KeepsToken (past : List Effect) : Effect → Prop
  | .nvsSet .accessToken token =>
    tokens past = [] ∧ 0 < token.length ∧ token.length < 64 ∧
      ∃ before, past = before ++ [.call .provisioning]
  | .nvsErase key => key ≠ .accessToken
  | .call .provisioning => tokens past = []
  | .call .clientStart | .publish .. | .subscribe _ => tokens past ≠ []
  | _ => True

/-- An effect that has nothing to do with the token. -/
def Unrelated : Effect → Prop
  | .nvsSet key _ | .nvsErase key => key ≠ .accessToken
  | .call c => c ≠ .provisioning ∧ c ≠ .clientStart
  | .publish .. | .subscribe _ => False
  | _ => True

/-- An effect of a running client. -/
def OfClient : Effect → Prop
  | .nvsSet key _ | .nvsErase key => key = .pendingFw
  | .boot .. | .call _ | .reset | .markValid => False
  | _ => True

theorem Unrelated.keeps (h : Unrelated e) (past : List Effect) : KeepsToken past e := by
  cases e with
  | nvsSet key v =>
    cases key with
    | accessToken => exact absurd rfl h
    | _ => trivial
  | nvsErase key => exact h
  | call c =>
    cases c with
    | provisioning => exact absurd rfl h.1
    | clientStart => exact absurd rfl h.2
    | _ => trivial
  | publish => exact absurd h id
  | subscribe => exact absurd h id
  | _ => trivial

/-- A client that runs with a token may do all that a client does. -/
theorem OfClient.keeps (h : OfClient e) {past : List Effect} (hpast : tokens past ≠ []) :
    KeepsToken past e := by
  cases e with
  | nvsSet key v =>
    have hkey : key = .pendingFw := h
    subst hkey
    trivial
  | nvsErase key =>
    have hkey : key = .pendingFw := h
    subst hkey
    show NvsKey.pendingFw ≠ .accessToken
    decide
  | call c => exact absurd h id
  | publish => exact hpast
  | subscribe => exact hpast
  | _ => trivial

@[simp] theorem tokens_append : tokens (log ++ es) = tokens log ++ tokens es :=
  List.filterMap_append

/-! ## The key in NVS -/

/-- The history is lawful, and NVS holds the first token that was saved. -/
structure Kept (j : Log) : Prop where
  law : Lawful KeepsToken j.log
  stored : j.disk.nvs .accessToken = (tokens j.log).head?
  short : ∀ token ∈ tokens j.log, token.length < 64

/-- A stored token is loaded. -/
theorem Kept.load (h : Kept j) (htoken : tokens j.log ≠ []) :
    ∃ token, loadNvsStr j.disk.nvs .accessToken 64 = some token := by
  obtain ⟨token, rest, hcons⟩ := List.exists_cons_of_ne_nil htoken
  refine ⟨token, loadNvsStr_eq_some.mpr ⟨?_, h.short token ?_⟩⟩
  · rw [h.stored, hcons, List.head?_cons]
  · rw [hcons]
    exact List.mem_cons_self

/-- One more effect that obeys the law. -/
theorem Kept.write (h : Kept j) (he : KeepsToken j.log e) : Kept (j.write e) := by
  have hlaw : Lawful KeepsToken (j.write e).log := lawful_concat.mpr ⟨h.law, he⟩
  by_cases htoken : ∃ token, e = .nvsSet .accessToken token
  · obtain ⟨token, heq⟩ := htoken
    subst heq
    obtain ⟨hnone, -, hshort, -⟩ := he
    have htokens : tokens (j.write (.nvsSet .accessToken token)).log = [token] := by
      rw [Journal.write_log, tokens_append, hnone]
      rfl
    refine ⟨hlaw, ?_, ?_⟩
    · show Function.update j.disk.nvs .accessToken (some token) .accessToken = _
      rw [htokens, Function.update_self, List.head?_cons]
    · rw [htokens]
      intro x hx
      rw [List.mem_singleton.mp hx]
      exact hshort
  · have htokens : tokens (j.write e).log = tokens j.log := by
      rw [Journal.write_log, tokens_append, List.append_right_eq_self]
      cases e with
      | nvsSet key v =>
        cases key with
        | accessToken => exact absurd ⟨v, rfl⟩ htoken
        | _ => rfl
      | _ => rfl
    have hstored : (j.write e).disk.nvs .accessToken = j.disk.nvs .accessToken := by
      cases e with
      | nvsSet key v =>
        have hkey : NvsKey.accessToken ≠ key := by
          intro hkey
          subst hkey
          exact htoken ⟨v, rfl⟩
        exact Function.update_of_ne hkey _ _
      | nvsErase key => exact Function.update_of_ne (Ne.symm he) _ _
      | setBoot slot v ok => cases ok <;> rfl
      | _ => rfl
    refine ⟨hlaw, ?_, ?_⟩
    · rw [hstored, htokens, h.stored]
    · rw [htokens]
      exact h.short

/-- The effects of a step, each of them lawful after those before it. -/
def Adds (j : Log) (es : List Effect) : Prop :=
  Lawful (fun before e => KeepsToken (j.log ++ before) e) es

theorem Adds.unrelated (h : ∀ e ∈ es, Unrelated e) : Adds j es := by
  intro before e after heq
  refine (h e ?_).keeps _
  rw [heq]
  exact List.mem_append_right _ List.mem_cons_self

/-- More effects after effects that are not about the token. -/
theorem Adds.append {fs : List Effect} (h : Adds j es) (hfs : Adds (j.writes es) fs) :
    Adds j (es ++ fs) := by
  refine Lawful.append h fun before e after heq => ?_
  have hkeeps := hfs before e after heq
  rw [Journal.writes_log, List.append_assoc] at hkeeps
  exact hkeeps

/-- The part of a step that is done before power is lost. -/
theorem Adds.take (h : Adds j es) (n : Nat) : Adds j (es.take n) := by
  intro before e after heq
  refine h before e (after ++ es.drop n) ?_
  calc es = es.take n ++ es.drop n := (List.take_append_drop n es).symm
    _ = before ++ e :: (after ++ es.drop n) := by
      rw [heq, List.append_assoc, List.cons_append]

theorem Kept.writes (h : Kept j) (hes : Adds j es) : Kept (j.writes es) := by
  induction es using List.reverseRecOn with
  | nil => exact h
  | append_singleton es e ih =>
    obtain ⟨hold, hnew⟩ := lawful_concat.mp hes
    rw [Journal.writes_append]
    refine (ih hold).write ?_
    rw [Journal.writes_log]
    exact hnew

/-! ## The work of a device -/

/-- `app_main` up to the mark-valid call. -/
theorem confirm_unrelated (P : Platform) (j : Log) :
    ∃ es, Firmware.confirm P j = j.writes es ∧ ∀ e ∈ es, Unrelated e := by
  have hreconcile : ∀ (w : Bytes) (k : Log), ∃ es, reconcilePendingOta w k = k.writes es ∧
      ∀ e ∈ es, Unrelated e := by
    intro w k
    unfold reconcilePendingOta
    split
    · exact ⟨[], rfl, by simp⟩
    · rename_i pending _
      by_cases hw : pending = w
      · exact ⟨[.nvsErase .pendingFw], by simp [hw, Journal.writes_cons], by simp [Unrelated]⟩
      · exact ⟨[.nvsSet .failedFw pending, .nvsErase .pendingFw],
          by simp [hw, Journal.writes_cons], by simp [Unrelated]⟩
  have hconfirm : ∀ k : Log, ∃ es, confirmImage k = k.writes es ∧ ∀ e ∈ es, Unrelated e := by
    intro k
    unfold confirmImage
    split_ifs
    · exact ⟨[.markValid], rfl, by simp [Unrelated]⟩
    · exact ⟨[], rfl, by simp⟩
  let w := (Firmware.bootBuild P j).version
  let j₁ := j.writes [.boot j.disk.bootSelect w, .call .nvsFlashInit]
  obtain ⟨es, hes, hfree⟩ := hreconcile w j₁
  obtain ⟨fs, hfs, hfree'⟩ := hconfirm ((j₁.writes es).writes networkCalls)
  refine ⟨[.boot j.disk.bootSelect w, .call .nvsFlashInit] ++ es ++ networkCalls ++ fs, ?_, ?_⟩
  · rw [Journal.writes_append, Journal.writes_append, Journal.writes_append]
    calc Firmware.confirm P j = confirmImage ((reconcilePendingOta w j₁).writes networkCalls) := rfl
      _ = ((j₁.writes es).writes networkCalls).writes fs := by rw [hes, hfs]
  · intro e he
    simp only [List.mem_append] at he
    rcases he with ((he | he) | he) | he
    · simp only [List.mem_cons, List.not_mem_nil, or_false] at he
      rcases he with he | he <;> subst he <;> simp [Unrelated]
    · exact hfree e he
    · simp only [networkCalls, List.mem_cons, List.not_mem_nil, or_false] at he
      rcases he with he | he | he <;> subst he <;> simp [Unrelated]
    · exact hfree' e he

/-- The start-up loads the token, or provisions and saves it.  The client is
started only with a token. -/
theorem startup_adds (h : Kept j) (o : Option Bytes) :
    Adds j (startup o j.disk.nvs).1 ∧
      ((startup o j.disk.nvs).2 = true → tokens (j.writes (startup o j.disk.nvs).1).log ≠ []) := by
  unfold startup
  by_cases htoken : tokens j.log = []
  · have hload : loadNvsStr j.disk.nvs .accessToken 64 = none := by
      rw [loadNvsStr, h.stored, htoken]
      rfl
    have hprovision : Adds j [.call .provisioning] := by
      refine lawful_concat.mpr ⟨lawful_nil, ?_⟩
      show tokens (j.log ++ []) = []
      rw [List.append_nil, htoken]
    simp only [hload]
    cases o with
    | none => exact ⟨hprovision, fun h => absurd h (by decide)⟩
    | some token =>
      by_cases hempty : token.length = 0
      · simp only [hempty, if_true]
        exact ⟨hprovision, fun h => absurd h (by decide)⟩
      · simp only [hempty, if_false]
        have hpast : tokens (j.log ++ [.call .provisioning]) = [] := by
          rw [tokens_append, htoken]
          rfl
        have hlength : (strncpy 64 token).length = min 63 token.length := List.length_take
        have hsaved : KeepsToken (j.log ++ [.call .provisioning])
            (.nvsSet .accessToken (strncpy 64 token)) :=
          ⟨hpast, by omega, by omega, j.log, rfl⟩
        refine ⟨hprovision.append (lawful_concat.mpr ⟨lawful_nil, ?_⟩), fun _ => ?_⟩
        · rw [List.append_nil]
          exact hsaved
        · rw [Journal.writes_log, tokens_append]
          exact List.append_ne_nil_of_right_ne_nil _ (List.cons_ne_nil _ _)
  · obtain ⟨token, hload⟩ := h.load htoken
    simp only [hload]
    exact ⟨lawful_nil, fun _ => htoken⟩

/-- `app_main`. -/
theorem boot_adds (h : Kept j) (o : Option Bytes) :
    ∃ es, (firmware P).appMain P o j = j.writes es ∧ Adds j es ∧
      ((startup o (Firmware.confirm P j).disk.nvs).2 = true → tokens (j.writes es).log ≠ []) := by
  obtain ⟨es, hes, hfree⟩ := confirm_unrelated P j
  have hadds : Adds j es := .unrelated hfree
  have hkept : Kept (Firmware.confirm P j) := hes ▸ h.writes hadds
  obtain ⟨hstart, htoken⟩ := startup_adds hkept o
  have hmain : (firmware P).appMain P o j = (Firmware.confirm P j).writes
      ((startup o (Firmware.confirm P j).disk.nvs).1 ++
        if (startup o (Firmware.confirm P j).disk.nvs).2 then [.call .clientStart] else []) := rfl
  rw [hes] at hmain hstart htoken ⊢
  refine ⟨_, hmain.trans (Journal.writes_append _ _ _).symm, hadds.append ?_, ?_⟩
  · split_ifs with hup
    · refine hstart.append (lawful_concat.mpr ⟨lawful_nil, ?_⟩)
      rw [List.append_nil]
      exact htoken hup
    · rw [List.append_nil]
      exact hstart
  · intro hup
    rw [Journal.writes_append, if_pos hup, Journal.writes_append, Journal.writes_log _ [_],
      tokens_append]
    exact List.append_ne_nil_of_left_ne_nil (htoken hup) _

/-- A step of a client that has a token. -/
theorem client_adds {flash : Flash} {start : Flash → Prop} {m m' : Marker}
    (hrun : (marker P.version start).Run (InClient flash) m es m') (htoken : tokens j.log ≠ []) :
    Adds j es := by
  refine hrun.invariant (I := fun es _ => Adds j es) lawful_nil ?_
  intro es m e m' hadds hclient hnext
  refine lawful_concat.mpr ⟨hadds, ?_⟩
  obtain ⟨hmove, -⟩ := marker_move hnext
  obtain ⟨⟨w, flow, hphase⟩, hreset, -⟩ := hclient
  have hof : OfClient e := by
    rw [hphase] at hmove
    generalize m'.phase = p' at hmove
    cases hmove with
    | reset => exact absurd rfl hreset
    | attempt | abandon => rfl
    | _ => trivial
  refine hof.keeps ?_
  rw [tokens_append]
  exact List.append_ne_nil_of_left_ne_nil htoken _

/-! ## Runs -/

/-- A client that runs has a token. -/
def HasToken : Sys Client → Prop
  | .up c => tokens c.journal.log ≠ []
  | _ => True

/-- The work of a device. -/
theorem work_adds (start : Flash → Prop) {m : Marker} {a : Work Label (Option Bytes)}
    (hkept : Kept ((firmware P).log s)) (htoken : HasToken s)
    (hm : (follows P).Shows s m) (h : (firmware P).work P s a = some t) :
    ∃ es, (firmware P).log t = ((firmware P).log s).writes es ∧
      Adds ((firmware P).log s) es ∧ HasToken t := by
  cases s with
  | off j =>
    cases a with
    | step l => cases h
    | boot o =>
      have hoff : Kept j := hkept
      obtain ⟨es, hes, hadds, hup⟩ := boot_adds (P := P) hoff o
      have hlog := (follows P).log_boot o j
      cases h
      refine ⟨es, hlog.trans hes, hadds, ?_⟩
      unfold Firmware.boot
      split_ifs with hstarted
      · show tokens ((firmware P).appMain P o j).log ≠ []
        rw [hes]
        exact hup hstarted
      · trivial
  | offline j => cases a <;> cases h
  | up c =>
    cases a with
    | boot o => cases h
    | step l =>
      obtain ⟨m', hrun, hm'⟩ := (follows P).work_run start hm h
      obtain ⟨c', -, hc'⟩ := Option.map_eq_some_iff.mp h
      have hjournal : m'.journal = m.journal.writes _ := run_journal hrun
      rw [(follows P).shows_journal hm, (follows P).shows_journal hm'] at hjournal
      refine ⟨_, hjournal, client_adds hrun htoken, ?_⟩
      subst hc'
      show tokens ((firmware P).log (.up c')).log ≠ []
      rw [hjournal, Journal.writes_log, tokens_append]
      exact List.append_ne_nil_of_left_ne_nil htoken _

/-- A step adds effects that obey the law. -/
theorem step_adds {start : Flash → Prop} {l : Esp.Label Label (Option Bytes)}
    (hkept : Kept ((firmware P).log s)) (htoken : HasToken s)
    (hs : ((firmware P).device P start).Reachable s)
    (h : ((firmware P).device P start).next s l = some t) :
    ∃ es, (firmware P).log t = ((firmware P).log s).writes es ∧
      Adds ((firmware P).log s) es ∧ HasToken t := by
  obtain ⟨m, -, hm⟩ := (deviceSimulation (follows P) start).reach hs
  have hreset : ∀ k : Log, Adds k [.reset] := by
    intro k
    exact .unrelated (by simp [Unrelated])
  cases l with
  | done a => exact work_adds start hkept htoken hm h
  | cut a n =>
    obtain ⟨t', hwork, ht⟩ := Option.map_eq_some_iff.mp h
    obtain ⟨es, hes, hadds, -⟩ := work_adds start hkept htoken hm hwork
    have hsince : ((firmware P).log s).since ((firmware P).log t') = es := by
      rw [hes, Journal.since_writes]
    subst ht
    refine ⟨es.take n ++ [.reset], ?_, (hadds.take n).append (hreset _), trivial⟩
    rw [Journal.writes_append, ← hsince]
    rfl
  | reset =>
    cases h
    exact ⟨[.reset], rfl, hreset _, trivial⟩

theorem kept_reach (h : ((firmware P).device P NoToken).Reachable s) :
    Kept ((firmware P).log s) ∧ HasToken s := by
  refine h.invariant (I := fun s => Kept ((firmware P).log s) ∧ HasToken s) ?_ ?_
  · intro s ⟨flash, hflash, hs⟩
    subst hs
    exact ⟨⟨lawful_nil, hflash, fun _ h => absurd h List.not_mem_nil⟩, trivial⟩
  · intro s l t hs ⟨hkept, htoken⟩ _ hnext
    obtain ⟨es, hes, hadds, htoken'⟩ := step_adds hkept htoken hs hnext
    exact ⟨hes ▸ hkept.writes hadds, htoken'⟩

/-- A run only adds to the tokens. -/
theorem tokens_run {ls : List (Esp.Label Label (Option Bytes))}
    (hs : ((firmware P).device P NoToken).Reachable s)
    (h : ((firmware P).device P NoToken).Run Machine.always s ls t) :
    ∃ more, tokens ((firmware P).log t).log = tokens ((firmware P).log s).log ++ more := by
  have hrun : ((firmware P).device P NoToken).Reachable t ∧
      ∃ more, tokens ((firmware P).log t).log = tokens ((firmware P).log s).log ++ more := by
    refine h.invariant (I := fun _ t => ((firmware P).device P NoToken).Reachable t ∧
      ∃ more, tokens ((firmware P).log t).log = tokens ((firmware P).log s).log ++ more) ?_ ?_
    · exact ⟨hs, [], (List.append_nil _).symm⟩
    · intro ls t l r ⟨ht, more, hmore⟩ _ hnext
      obtain ⟨hkept, htoken⟩ := kept_reach ht
      obtain ⟨es, hes, -⟩ := step_adds hkept htoken ht hnext
      refine ⟨ht.step trivial hnext, more ++ tokens es, ?_⟩
      rw [hes, Journal.writes_log, tokens_append, hmore, List.append_assoc]
  exact hrun.2

/-- A device that starts without a token provisions until one is saved, and
then keeps that one: no update, rollback or loss of power takes it away. -/
theorem token_kept (h : ((firmware P).device P NoToken).Reachable s) :
    Lawful KeepsToken ((firmware P).log s).log ∧
      ((firmware P).log s).disk.nvs .accessToken = (tokens ((firmware P).log s).log).head? ∧
      ∀ token, ((firmware P).log s).disk.nvs .accessToken = some token →
        ∀ ls t, ((firmware P).device P NoToken).Run Machine.always s ls t →
          ((firmware P).log t).disk.nvs .accessToken = some token := by
  have hkept := (kept_reach h).1
  refine ⟨hkept.law, hkept.stored, fun token htoken ls t hrun => ?_⟩
  obtain ⟨more, hmore⟩ := tokens_run h hrun
  have hhead : (tokens ((firmware P).log s).log).head? = some token :=
    hkept.stored.symm.trans htoken
  rw [(kept_reach (hrun.reach h)).1.stored, hmore, List.head?_append, hhead]
  rfl

/-- A device as it leaves the factory. -/
def blankFlash : Flash := ⟨fun _ => none, fun _ => [], .ota0, .valid⟩

/-- The first provisioning is cut before the token is saved, the second one
saves its token, and later boots load it. -/
def provisionedBoots : List (Esp.Label Label (Option Bytes)) :=
  [ .cut (.boot (some (ascii "first"))) 6, .done (.boot (some (ascii "second"))), .reset
  , .done (.boot none) ]

theorem token_kept_sample : ∃ s,
    ((firmware (samplePlatform [])).device (samplePlatform []) NoToken).exec
      (.off ⟨blankFlash, []⟩) provisionedBoots = some s ∧
    ((firmware (samplePlatform [])).log s).log.count (.call .provisioning) = 2 ∧
    tokens ((firmware (samplePlatform [])).log s).log = [ascii "second"] ∧
    ((firmware (samplePlatform [])).log s).disk.nvs .accessToken = some (ascii "second") := by
  have hexec : ∃ s, ((firmware (samplePlatform [])).device (samplePlatform []) NoToken).exec
        (.off ⟨blankFlash, []⟩) provisionedBoots = some s ∧
      ((firmware (samplePlatform [])).log s).log.count (.call .provisioning) = 2 ∧
      tokens ((firmware (samplePlatform [])).log s).log = [ascii "second"] :=
    Machine.exists_of_any
      (p := fun s => ((firmware (samplePlatform [])).log s).log.count (.call .provisioning) = 2 ∧
        tokens ((firmware (samplePlatform [])).log s).log = [ascii "second"])
      (o := ((firmware (samplePlatform [])).device (samplePlatform []) NoToken).exec
        (.off ⟨blankFlash, []⟩) provisionedBoots) (by decide +kernel)
  obtain ⟨s, hs, hcount, htokens⟩ := hexec
  have hstart : ((firmware (samplePlatform [])).device (samplePlatform []) NoToken).Reachable
      (.off ⟨blankFlash, []⟩) := .init ⟨blankFlash, rfl, rfl⟩
  have hkept := token_kept (Machine.Reachable.exec hstart hs)
  refine ⟨s, hs, hcount, htokens, ?_⟩
  rw [hkept.2.1, htokens]
  rfl

end Winegrid.ThingsBoard
