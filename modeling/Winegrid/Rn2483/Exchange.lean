import Winegrid.Rn2483.Pairing
import Mathlib.Data.List.Nodup
import Mathlib.Data.List.Perm.Basic

/-!
# The driver in step with the module

A read that times out is the only thing that brings the driver out of step.
As long as none does, and the module is silent before `rn2483_init` starts, no
condition on the calls is needed: every call finds the UART empty and the
module idle, and returns what the replies to its own commands make it return.

* `Books` is what the module keeps in every run: it answers each command once,
  in order, and reports each accepted transmission once.
* `PlaceAt` is what the driver waits for, beyond `CallInvAt`, and leaves the
  UART empty when the driver is idle.
* `step_inStep` is the step lemma, and `calls_exact` the run law.
-/

namespace Winegrid.Rn2483

variable {s t : Sys} {id : Nat} {cmd : Bytes} {l : Line}

/-! ## The module's books -/

/-- Every command is answered once and in order, and an accepted transmission
is reported once. -/
structure Books (s : Sys) : Prop where
  order : s.replied.map Prod.fst ++ s.owed.map Prod.fst = List.range s.nextId
  accepted : ∀ id ∈ s.owedTx ++ s.reported.map Prod.fst, (id, ok) ∈ s.replied
  once : (s.owedTx ++ s.reported.map Prod.fst).Nodup

theorem Books.congr (h : Books s) (howed : t.owed = s.owed) (hTx : t.owedTx = s.owedTx)
    (hreplied : t.replied = s.replied) (hreported : t.reported = s.reported)
    (hid : t.nextId = s.nextId) : Books t := by
  obtain ⟨horder, haccepted, honce⟩ := h
  refine ⟨?_, ?_, ?_⟩
  · rw [hreplied, howed, hid]
    exact horder
  · rw [hTx, hreported, hreplied]
    exact haccepted
  · rw [hTx, hreported]
    exact honce

/-- The commands that were answered are different ones. -/
theorem Books.replied_nodup (h : Books s) : (s.replied.map Prod.fst).Nodup := by
  have hall : (s.replied.map Prod.fst ++ s.owed.map Prod.fst).Nodup := by
    rw [h.order]
    exact List.nodup_range
  exact hall.of_append_left

/-- A command has one reply. -/
theorem Books.reply_unique (h : Books s) {l m : Line} (hl : (id, l) ∈ s.replied)
    (hm : (id, m) ∈ s.replied) : l = m :=
  (Prod.mk.inj (List.inj_on_of_nodup_map h.replied_nodup hl hm rfl)).2

theorem Books.command (h : Books s) (cmd : Bytes) (pc : Pc) : Books (s.command cmd pc) := by
  refine ⟨?_, h.accepted, h.once⟩
  show s.replied.map Prod.fst ++ (s.owed ++ [(s.nextId, cmd)]).map Prod.fst =
    List.range (s.nextId + 1)
  rw [List.map_append, ← List.append_assoc, h.order, List.range_succ]
  rfl

theorem Books.answer {owed : List (Nat × Bytes)} (h : Books s) (howed : s.owed = (id, cmd) :: owed)
    (l : Line) : Books (s.answer id cmd owed l) := by
  have horder := h.order
  rw [howed, List.map_cons] at horder
  have hnew : id ∉ s.owedTx ++ s.reported.map Prod.fst := by
    intro hmem
    have hreplied : id ∈ s.replied.map Prod.fst := List.mem_map_of_mem (h.accepted id hmem)
    have hall : (s.replied.map Prod.fst ++ id :: owed.map Prod.fst).Nodup := by
      rw [horder]
      exact List.nodup_range
    exact List.disjoint_of_nodup_append hall hreplied List.mem_cons_self
  refine ⟨?_, ?_, ?_⟩
  · show (s.replied ++ [(id, l)]).map Prod.fst ++ owed.map Prod.fst = List.range s.nextId
    rw [← horder, List.map_append, List.append_assoc]
    rfl
  · show ∀ i ∈ (if isTx cmd ∧ l = ok then s.owedTx ++ [id] else s.owedTx) ++
      s.reported.map Prod.fst, (i, ok) ∈ s.replied ++ [(id, l)]
    intro i hi
    split_ifs at hi with hacc
    · rw [List.append_assoc, List.mem_append, List.singleton_append, List.mem_cons] at hi
      rcases hi with hi | hi | hi
      · exact List.mem_append_left _ (h.accepted i (List.mem_append_left _ hi))
      · rw [hi, hacc.2]
        exact List.mem_append_right _ List.mem_cons_self
      · exact List.mem_append_left _ (h.accepted i (List.mem_append_right _ hi))
    · exact List.mem_append_left _ (h.accepted i hi)
  · show ((if isTx cmd ∧ l = ok then s.owedTx ++ [id] else s.owedTx) ++
      s.reported.map Prod.fst).Nodup
    split_ifs with hacc
    · rw [List.append_assoc, List.singleton_append]
      exact List.nodup_middle.mpr (List.nodup_cons.mpr ⟨hnew, h.once⟩)
    · exact h.once

theorem Books.endTx {i : Nat} (h : Books s) (hi : s.owedTx[i]? = some id) (l : Line) :
    Books (s.endTx i id l) := by
  obtain ⟨hlt, hget⟩ := List.getElem?_eq_some_iff.mp hi
  have hperm : (s.owedTx.eraseIdx i ++ (s.reported ++ [(id, l)]).map Prod.fst).Perm
      (s.owedTx ++ s.reported.map Prod.fst) := by
    have hfirst := List.getElem_cons_eraseIdx_perm hlt
    rw [hget] at hfirst
    have hlast : (s.reported ++ [(id, l)]).map Prod.fst = s.reported.map Prod.fst ++ [id] := by
      rw [List.map_append]
      rfl
    rw [hlast, ← List.append_assoc]
    exact (List.perm_append_singleton id _).trans (hfirst.append_right _)
  exact ⟨h.order, fun i hi => h.accepted i (hperm.mem_iff.mp hi), hperm.nodup_iff.mpr h.once⟩

theorem Books.gotLine (h : Books s) : Books s.gotLine := by
  cases hpc : s.pc with
  | idle =>
    simp only [Sys.gotLine, hpc]
    exact h
  | init =>
    simp only [Sys.gotLine, hpc]
    exact h.congr rfl rfl rfl rfl rfl
  | config rest =>
    simp only [Sys.gotLine, hpc]
    split_ifs
    · exact h.congr rfl rfl rfl rfl rfl
    · cases rest with
      | nil => exact h.congr rfl rfl rfl rfl rfl
      | cons cmd rest => exact h.command cmd _
  | sendReply =>
    simp only [Sys.gotLine, hpc]
    split_ifs <;> exact h.congr rfl rfl rfl rfl rfl
  | sendReport =>
    simp only [Sys.gotLine, hpc]
    split_ifs <;> exact h.congr rfl rfl rfl rfl rfl

/-- The books are kept in every run, late reads or not. -/
theorem books_next {label : Label} (h : Books s) (hnext : s.next label = some t) : Books t := by
  cases moves_of_next hnext with
  | call c hpc =>
    cases c with
    | init => exact (h.congr (t := { s with call := .init, own := [], rx := [] })
        rfl rfl rfl rfl rfl).command _ _
    | config config => exact (h.congr (t := { s with call := .config config, own := [] })
        rfl rfl rfl rfl rfl).command _ _
    | send payload =>
      simp only [Sys.enter]
      split_ifs
      · exact h.congr rfl rfl rfl rfl rfl
      · exact (h.congr (t := { s with call := .send payload, own := [] })
          rfl rfl rfl rfl rfl).command _ _
  | turn hpc =>
    unfold Sys.turn
    split_ifs
    · exact h.congr rfl rfl rfl rfl rfl
    · split
      · exact h.congr rfl rfl rfl rfl rfl
      · rename_i c rx hrx
        split_ifs
        · exact (h.congr (t := s.take rx s.resp) rfl rfl rfl rfl rfl).gotLine
        · exact h.congr rfl rfl rfl rfl rfl
  | reply l howed => exact h.answer howed l
  | report sent hi => exact h.endTx hi _
  | tick | arrive => exact h.congr rfl rfl rfl rfl rfl

/-! ## The law -/

/-- The command of `rn2483_init`. -/
def getVer : Bytes := ascii "sys get ver" ++ crlf

/-- What the replies to its own commands, and its own report, make a call
return. -/
def Return.Exact (r : Return) (s : Sys) : Prop :=
  match r.call with
  | .init => ∃ id l, r.own = [(id, getVer)] ∧ (id, l) ∈ s.replied ∧ r.ret = 0
  | .config config =>
    ∃ done id cmd l, r.own = done ++ [(id, cmd)] ∧ r.own.map Prod.snd <+: configCmds config ∧
      (∀ c ∈ done, (c.1, ok) ∈ s.replied) ∧ (id, l) ∈ s.replied ∧
      (l = ok ∧ r.own.map Prod.snd = configCmds config ∧ r.ret = 0 ∨ l ≠ ok ∧ r.ret = - EIO)
  | .send payload =>
    if payload.length ≤ maxPayload then
      ∃ id l, r.own = [(id, sendCmd payload)] ∧ (id, l) ∈ s.replied ∧
        (l ≠ ok ∧ r.ret = - EIO ∨ l = ok ∧ ∃ m, (id, m) ∈ s.reported ∧
          r.ret = if m = radioTxOk then 0 else - EIO)
    else r.own = [] ∧ r.ret = -EINVAL

/-- No read goes on past its deadline, and nothing that the module sent before
the first command is still to be read. -/
def Punctual (s : Sys) : Label → Prop
  | .turn => s.now < s.deadline
  | .call .init => s.nextId = 0 → s.wire = []
  | .call _ => s.nextId = 0 → s.stream = []
  | _ => True

/-- What holds at each place of the driver, beyond `CallInvAt`. -/
def PlaceAt (s : Sys) : Pc → Prop
  | .idle => s.owed = [] ∧ s.owedTx = [] ∧ (s.nextId ≠ 0 → s.stream = [])
  | .init => ∃ id, s.own = [(id, getVer)] ∧ ReplyDue s id getVer
  | .config _ => True
  | .sendReply | .sendReport => ∀ payload, s.call = .send payload → payload.length ≤ maxPayload

/-- The invariant of the runs. -/
structure InStep (s : Sys) : Prop where
  books : Books s
  inv : Inv s
  place : PlaceAt s s.pc
  returned : ∀ r ∈ s.returned, r.Exact s

theorem Return.Exact.mono {r : Return} (hreplied : s.replied ⊆ t.replied)
    (hreported : s.reported ⊆ t.reported) (h : r.Exact s) : r.Exact t := by
  unfold Return.Exact at h ⊢
  cases hc : r.call with
  | init =>
    simp only [hc] at h ⊢
    obtain ⟨id, l, hown, hl, hret⟩ := h
    exact ⟨id, l, hown, hreplied hl, hret⟩
  | config config =>
    simp only [hc] at h ⊢
    obtain ⟨done, id, cmd, l, hown, hcmds, hdone, hl, hret⟩ := h
    exact ⟨done, id, cmd, l, hown, hcmds, fun c hin => hreplied (hdone c hin), hreplied hl, hret⟩
  | send payload =>
    simp only [hc] at h ⊢
    split_ifs at h ⊢ with hlen
    · obtain ⟨id, l, hown, hl, hret⟩ := h
      refine ⟨id, l, hown, hreplied hl, ?_⟩
      rcases hret with hret | ⟨hok, m, hm, hret⟩
      · exact Or.inl hret
      · exact Or.inr ⟨hok, m, hreported hm, hret⟩
    · exact h

theorem PlaceAt.congr (h : PlaceAt s s.pc) (hpc : t.pc = s.pc) (hcall : t.call = s.call)
    (hown : t.own = s.own) (howed : t.owed = s.owed) (hTx : t.owedTx = s.owedTx)
    (hstream : t.stream = s.stream) (hresp : t.resp = s.resp) (hreplied : t.replied = s.replied)
    (hreported : t.reported = s.reported) (hid : t.nextId = s.nextId) : PlaceAt t t.pc := by
  have hsame : ∀ pc, PlaceAt t pc ↔ PlaceAt s pc := by
    intro pc
    cases pc <;>
      simp only [PlaceAt, ReplyDue, ReportDue, hcall, hown, howed, hTx, hstream, hresp, hreplied,
        hreported, hid]
  rw [hpc]
  exact (hsame s.pc).mpr h

/-- What the module does inside a call keeps its place. -/
theorem PlaceAt.inside {pc : Pc} (h : PlaceAt s pc) (hpc : pc ≠ .idle) (hcall : t.call = s.call)
    (hown : t.own = s.own) (hdue : ∀ {id}, ReplyDue s id getVer → ReplyDue t id getVer) :
    PlaceAt t pc := by
  cases pc with
  | idle => exact absurd rfl hpc
  | init =>
    obtain ⟨id, hid, hreply⟩ := h
    exact ⟨id, hown.trans hid, hdue hreply⟩
  | config rest => trivial
  | sendReply | sendReport => exact fun payload hsend => h payload (hcall.symm.trans hsend)

/-! ## What a line ends -/

/-- A reply that starts no transmission is the last line. -/
theorem ReplyDue.last (hbooks : Books s) {stream : Bytes} (hdue : ReportDue s id [] stream)
    (hl : (id, l) ∈ s.replied) (hnot : l ≠ ok) : s.owedTx = [] ∧ stream = [] := by
  rcases hdue with ⟨hTx, -, -⟩ | ⟨-, m, hm, -⟩ | hnone
  · have hmem : id ∈ s.owedTx ++ s.reported.map Prod.fst := by simp [hTx]
    exact absurd (hbooks.reply_unique hl (hbooks.accepted id hmem)) hnot
  · have hmem : id ∈ s.owedTx ++ s.reported.map Prod.fst :=
      List.mem_append_right _ (List.mem_map_of_mem hm)
    exact absurd (hbooks.reply_unique hl (hbooks.accepted id hmem)) hnot
  · exact hnone

/-- The report is the last line. -/
theorem ReportDue.last {resp stream : Bytes} (h : ReportDue s id resp (10 :: stream)) :
    ∃ l, (id, l) ∈ s.reported ∧ resp = l.view ∧ s.owedTx = [] ∧ stream = [] := by
  rcases h with ⟨-, hnil, -⟩ | ⟨hTx, l, hl, hread⟩ | ⟨-, hnil⟩
  · cases hnil
  · simp only [readLine, if_true, Option.some.injEq, Prod.mk.injEq] at hread
    exact ⟨l, hl, hread.1, hTx, hread.2⟩
  · cases hnil

/-- A call returns with the UART empty. -/
theorem finish_place {ret : Int} (hset : Settled s) (h : ∀ r ∈ s.returned, r.Exact s)
    (hexact : Return.Exact ⟨s.call, s.own, ret⟩ s) :
    PlaceAt (s.finish ret) .idle ∧ ∀ r ∈ (s.finish ret).returned, r.Exact (s.finish ret) := by
  obtain ⟨hstream, howed, hTx⟩ := hset
  refine ⟨⟨howed, hTx, fun _ => hstream⟩, fun r hr => ?_⟩
  have hr' : r ∈ s.returned ++ [⟨s.call, s.own, ret⟩] := hr
  rcases List.mem_append.mp hr' with hr | hr
  · exact h r hr
  · rw [List.mem_singleton.mp hr]
    exact hexact

theorem eq_ok_iff : l.view = ok.val ↔ l = ok := view_eq_iff (by decide)

theorem eq_radioTxOk_iff : l.view = radioTxOk.val ↔ l = radioTxOk := view_eq_iff (by decide)

/-- A finished line moves the call on, or ends it in step. -/
theorem gotLine_place {rx : Bytes} (h : InStep s) (hrx : s.rx = 10 :: rx) :
    PlaceAt (s.take rx s.resp).gotLine (s.take rx s.resp).gotLine.pc ∧
      ∀ r ∈ (s.take rx s.resp).gotLine.returned, r.Exact (s.take rx s.resp).gotLine := by
  have hstream : s.stream = 10 :: (s.take rx s.resp).stream := by
    simp only [Sys.stream, Sys.take, hrx, List.cons_append]
  have hret : ∀ r ∈ (s.take rx s.resp).returned, r.Exact (s.take rx s.resp) := h.returned
  have hinside : CallInvAt s s.pc := h.inv.inside
  have hplace := h.place
  have hpc' : (s.take rx s.resp).pc = s.pc := rfl
  cases hpc : s.pc with
  | idle =>
    rw [hpc] at hpc' hplace
    simp only [Sys.gotLine, hpc']
    obtain ⟨howed, hTx, hempty⟩ := hplace
    refine ⟨⟨howed, hTx, fun hid => ?_⟩, hret⟩
    rw [hempty hid] at hstream
    cases hstream
  | init =>
    rw [hpc] at hinside hplace hpc'
    obtain ⟨id, hown, hdue⟩ := hplace
    obtain ⟨howed, l, hl, -, -, hclear⟩ := hdue.line hstream
    obtain ⟨hTx, hnil⟩ := hclear (by decide)
    have hcall : (s.take rx s.resp).call = .init := hinside
    simp only [Sys.gotLine, hpc']
    refine finish_place ⟨hnil, howed, hTx⟩ hret ?_
    simp only [Return.Exact, hcall]
    exact ⟨id, l, hown, hl, trivial⟩
  | config rest =>
    rw [hpc] at hinside hpc'
    obtain ⟨config, done, id, cmd, hcall, hown, hcmds, hdone, hdue⟩ := hinside
    obtain ⟨howed, l, hl, hview, -, hclear⟩ := hdue.line hstream
    have htx : isTx cmd = false :=
      configCmds_not_tx config cmd (by rw [← hcmds, hown]; simp)
    obtain ⟨hTx, hnil⟩ := hclear htx
    have hcall' : (s.take rx s.resp).call = .config config := hcall
    have hown' : (s.take rx s.resp).own = done ++ [(id, cmd)] := hown
    have hpre : (s.take rx s.resp).own.map Prod.snd <+: configCmds config := ⟨rest, hcmds⟩
    have hresp' : (s.take rx s.resp).resp = l.view := hview
    simp only [Sys.gotLine, hpc', hresp']
    split_ifs with hresp
    · have hnot : l ≠ ok := fun hok => hresp (eq_ok_iff.mpr hok)
      refine finish_place ⟨hnil, howed, hTx⟩ hret ?_
      simp only [Return.Exact, hcall']
      exact ⟨done, id, cmd, l, hown', hpre, hdone, hl, Or.inr ⟨hnot, trivial⟩⟩
    · have hok : l = ok := eq_ok_iff.mp (not_not.mp hresp)
      cases rest with
      | nil =>
        refine finish_place ⟨hnil, howed, hTx⟩ hret ?_
        simp only [Return.Exact, hcall']
        rw [List.append_nil] at hcmds
        exact ⟨done, id, cmd, l, hown', hpre, hdone, hl, Or.inl ⟨hok, hcmds, trivial⟩⟩
      | cons cmd' rest => exact ⟨trivial, hret⟩
  | sendReply =>
    rw [hpc] at hinside hplace hpc'
    obtain ⟨payload, id, hcall, hown, hdue⟩ := hinside
    obtain ⟨howed, l, hl, hview, hreport, -⟩ := hdue.line hstream
    have hcall' : (s.take rx s.resp).call = .send payload := hcall
    have hresp' : (s.take rx s.resp).resp = l.view := hview
    simp only [Sys.gotLine, hpc', hresp']
    split_ifs with hresp
    · have hnot : l ≠ ok := fun hok => hresp (eq_ok_iff.mpr hok)
      obtain ⟨hTx, hnil⟩ := ReplyDue.last h.books hreport hl hnot
      refine finish_place ⟨hnil, howed, hTx⟩ hret ?_
      simp only [Return.Exact, hcall', if_pos (hplace payload hcall)]
      exact ⟨id, l, hown, hl, Or.inl ⟨hnot, trivial⟩⟩
    · exact ⟨hplace, hret⟩
  | sendReport =>
    rw [hpc] at hinside hplace hpc'
    obtain ⟨payload, id, hcall, hown, hok, howed, hdue⟩ := hinside
    rw [hstream] at hdue
    obtain ⟨l, hl, hview, hTx, hnil⟩ := hdue.last
    have hcall' : (s.take rx s.resp).call = .send payload := hcall
    have hresp' : (s.take rx s.resp).resp = l.view := hview
    simp only [Sys.gotLine, hpc', hresp', eq_radioTxOk_iff]
    have hexact : ∀ ret, (ret = if l = radioTxOk then 0 else - EIO) →
        Return.Exact ⟨(s.take rx s.resp).call, (s.take rx s.resp).own, ret⟩ (s.take rx s.resp) := by
      intro ret hvalue
      simp only [Return.Exact, hcall', if_pos (hplace payload hcall)]
      exact ⟨id, ok, hown, hok, Or.inr ⟨rfl, l, hl, hvalue⟩⟩
    split_ifs with hsent
    · exact finish_place ⟨hnil, howed, hTx⟩ hret (hexact 0 (by rw [if_pos hsent]))
    · exact finish_place ⟨hnil, howed, hTx⟩ hret (hexact _ (by rw [if_neg hsent]))

/-! ## Steps -/

/-- A character in the middle of the reply is collected. -/
theorem ReplyDue.push {c : UInt8} {rx : Bytes} (h : ReplyDue s id cmd) (hrx : s.rx = c :: rx)
    (hc : c ≠ 10) : ReplyDue (s.take rx (pushChar s.resp c)) id cmd := by
  have hstream : s.stream = c :: (rx ++ s.wire) := by rw [Sys.stream, hrx, List.cons_append]
  rcases h with ⟨-, -, hnil, -⟩ | ⟨howed, l, rest, hl, hread, hdue⟩
  · rw [hstream] at hnil
    cases hnil
  · rw [hstream, readLine_push hc] at hread
    exact Or.inr ⟨howed, l, rest, hl, hread, hdue⟩

/-- A turn before the deadline. -/
theorem turn_place (h : InStep s) (hin : s.now < s.deadline) :
    PlaceAt s.turn s.turn.pc ∧ ∀ r ∈ s.turn.returned, r.Exact s.turn := by
  unfold Sys.turn
  rw [if_neg (by omega)]
  split
  · exact ⟨h.place.congr rfl rfl rfl rfl rfl rfl rfl rfl rfl rfl, h.returned⟩
  · rename_i c rx hrx
    split_ifs with hc
    · subst hc
      exact gotLine_place h hrx
    · have hplace := h.place
      refine ⟨?_, h.returned⟩
      show PlaceAt _ s.pc
      cases hpc : s.pc with
      | idle =>
        rw [hpc] at hplace
        obtain ⟨howed, hTx, hempty⟩ := hplace
        refine ⟨howed, hTx, fun hid => ?_⟩
        have hstream := hempty hid
        rw [Sys.stream, hrx] at hstream
        cases hstream
      | init =>
        rw [hpc] at hplace
        obtain ⟨id, hown, hdue⟩ := hplace
        exact ⟨id, hown, hdue.push hrx hc⟩
      | config rest => trivial
      | sendReply | sendReport =>
        rw [hpc] at hplace
        exact hplace

/-- A call finds the UART empty. -/
theorem InStep.callsSettled {label : Label} (h : InStep s) (hok : Punctual s label)
    (hnext : s.next label = some t) : CallsSettled s label := by
  cases moves_of_next hnext with
  | call c hpc =>
    have hplace := h.place
    rw [hpc] at hplace
    obtain ⟨howed, hTx, hempty⟩ := hplace
    have hset : (s.nextId = 0 → s.stream = []) → Settled s := by
      intro hfirst
      by_cases hid : s.nextId = 0
      · exact ⟨hfirst hid, howed, hTx⟩
      · exact ⟨hempty hid, howed, hTx⟩
    cases c with
    | init => trivial
    | config config => exact hset hok
    | send payload => exact hset hok
  | _ => trivial

/-- The entry of a call. -/
theorem enter_place {c : Call} (h : InStep s) (hpc : s.pc = .idle) (hok : Punctual s (.call c)) :
    PlaceAt (s.enter c) (s.enter c).pc ∧ ∀ r ∈ (s.enter c).returned, r.Exact (s.enter c) := by
  have hplace := h.place
  rw [hpc] at hplace
  obtain ⟨howed, hTx, hempty⟩ := hplace
  cases c with
  | init =>
    have hwire : s.wire = [] := by
      by_cases hid : s.nextId = 0
      · exact hok hid
      · exact (List.append_eq_nil_iff.mp (hempty hid)).2
    refine ⟨⟨s.nextId, rfl, ?_⟩, h.returned⟩
    exact replyDue_command (s := { s with call := .init, own := [], rx := [] })
      ⟨hwire, howed, hTx⟩ getVer .init
  | config config => exact ⟨trivial, h.returned⟩
  | send payload =>
    simp only [Sys.enter]
    split_ifs with hlong
    · refine ⟨⟨howed, hTx, hempty⟩, fun r hr => ?_⟩
      have hr' : r ∈ s.returned ++ [⟨.send payload, [], -EINVAL⟩] := hr
      rcases List.mem_append.mp hr' with hr | hr
      · exact h.returned r hr
      · rw [List.mem_singleton.mp hr]
        show (if payload.length ≤ maxPayload then _ else _)
        rw [if_neg (by omega)]
        exact ⟨rfl, rfl⟩
    · refine ⟨fun other hother => ?_, h.returned⟩
      have hsame : payload = other := Call.send.inj hother
      rw [← hsame]
      omega

/-- Every step keeps the driver in step. -/
theorem step_inStep {label : Label} (h : InStep s) (hok : Punctual s label)
    (hnext : s.next label = some t) : InStep t := by
  have hboth : PlaceAt t t.pc ∧ ∀ r ∈ t.returned, r.Exact t := by
    have hplace := h.place
    cases moves_of_next hnext with
    | call c hpc => exact enter_place h hpc hok
    | turn hpc => exact turn_place h hok
    | tick ms => exact ⟨hplace.congr rfl rfl rfl rfl rfl rfl rfl rfl rfl rfl, h.returned⟩
    | reply l howed =>
      refine ⟨hplace.inside (fun hpc => ?_) rfl rfl fun hdue => hdue.reply howed l,
        fun r hr => (h.returned r hr).mono (List.subset_append_left _ _) (List.Subset.refl _)⟩
      rw [hpc] at hplace
      exact absurd (howed.symm.trans hplace.1) (by simp)
    | report sent hi =>
      refine ⟨hplace.inside (fun hpc => ?_) rfl rfl fun hdue => hdue.report hi _,
        fun r hr => (h.returned r hr).mono (List.Subset.refl s.replied)
          (List.subset_append_left _ _)⟩
      rw [hpc] at hplace
      rw [hplace.2.1] at hi
      cases hi
    | arrive hwire =>
      refine ⟨hplace.congr rfl rfl rfl rfl rfl ?_ rfl rfl rfl rfl, h.returned⟩
      simp [Sys.stream, hwire]
  exact ⟨books_next h.books hnext, next_inv h.inv (h.callsSettled hok hnext) hnext, hboth.1,
    hboth.2⟩

theorem boot_inStep (banner : Bytes) : InStep (Sys.boot banner) :=
  ⟨⟨rfl, fun _ h => absurd h List.not_mem_nil, List.nodup_nil⟩, boot_inv banner,
    ⟨rfl, rfl, fun h => absurd rfl h⟩, fun _ h => absurd h List.not_mem_nil⟩

/-- In every run in which no read goes on past its deadline and the driver
starts on an empty UART, every call returns what the replies to its own
commands make it return, and leaves the module idle and the UART empty. -/
theorem calls_exact (h : rn2483.Reach Punctual s) :
    (∀ r ∈ s.returned, r.Exact s) ∧ (s.replied.map Prod.fst).Nodup ∧
      (s.reported.map Prod.fst).Nodup ∧ (s.pc = .idle → s.nextId ≠ 0 → Settled s) := by
  have hstep : InStep s := by
    refine h.invariant (I := InStep) ?_ fun _ _ _ _ hs hok hnext => step_inStep hs hok hnext
    intro s ⟨banner, hs⟩
    rw [hs]
    exact boot_inStep banner
  refine ⟨hstep.returned, hstep.books.replied_nodup, hstep.books.once.of_append_right,
    fun hpc hid => ?_⟩
  have hplace := hstep.place
  rw [hpc] at hplace
  exact ⟨hplace.2.2 hid, hplace.1, hplace.2.1⟩

instance (s : Sys) : (label : Label) → Decidable (Punctual s label)
  | .turn => inferInstanceAs (Decidable (s.now < s.deadline))
  | .call .init => inferInstanceAs (Decidable (s.nextId = 0 → s.wire = []))
  | .call (.config _) | .call (.send _) =>
    inferInstanceAs (Decidable (s.nextId = 0 → s.stream = []))
  | .tick _ | .reply _ | .report _ _ | .arrive => inferInstanceAs (Decidable True)

/-- A reply to a parameter that the module does not take. -/
def invalidParam : Line := ⟨ascii "invalid_param", by decide +kernel⟩

/-- The version, a configuration whose second command is refused, and a
transmission that fails. -/
def threeCalls : List Label :=
  List.replicate 4 .arrive ++ .call .init :: .reply ok :: List.replicate 4 .arrive ++
    List.replicate 4 .turn ++
  .call (.config ⟨868100000, 20, 7, .bw125⟩) :: .reply ok :: List.replicate 4 .arrive ++
    List.replicate 4 .turn ++ .reply invalidParam :: List.replicate 15 .arrive ++
    List.replicate 15 .turn ++
  .call (.send [65]) :: .reply ok :: List.replicate 4 .arrive ++ List.replicate 4 .turn ++
    .report 0 false :: List.replicate 11 .arrive ++ List.replicate 11 .turn

theorem calls_exact_sample : ∃ s, rn2483.Reach Punctual s ∧
    s.returned.map Return.ret = [0, - EIO, - EIO] ∧ ∀ r ∈ s.returned, r.Exact s := by
  obtain ⟨s, hexec, hret⟩ := Machine.exists_of_any
    (p := fun s : Sys => s.returned.map Return.ret = [0, - EIO, - EIO])
    (o := (rn2483.guarded Punctual).exec (Sys.boot (ascii "RN" ++ crlf)) threeCalls)
    (by decide +kernel)
  have hreach : rn2483.Reach Punctual s :=
    .of_guarded (Machine.Reachable.exec (.init ⟨_, rfl⟩) hexec)
  exact ⟨s, hreach, hret, (calls_exact hreach).1⟩

end Winegrid.Rn2483
