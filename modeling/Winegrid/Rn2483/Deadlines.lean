import Winegrid.Rn2483.Pairing

/-!
# How long a call takes

Each `rn2483_read_line` of a call has its own deadline, and nothing that the
module sends moves it.  So a call ends by the sum of its timeouts, whether the
module is silent, late or babbling, and the turns of its loops are at most the
bytes that arrive and half the milliseconds that pass.

* `Call.limit` is the sum of the timeouts, and `Inside` the runs of one call.
* `Timely` and `Counted` are the invariants, and `next_timely` and
  `next_counted` the step lemmas.
* `call_bounded` is the run law.
-/

namespace Winegrid.Rn2483

variable {s t : Sys} {label : Label} {D stop start turns bytes : Nat}

/-- The timeouts of the reads of a call, each with the `D` milliseconds by
which its last turn may come late. -/
def Call.limit (D : Nat) : Call → Nat
  | .init => cmdTimeoutMs + D
  | .config _ => 4 * (cmdTimeoutMs + D)
  | .send _ => cmdTimeoutMs + D + (txTimeoutMs + D)

/-- The call has not returned, and its next turn is not more than `D`
milliseconds behind the deadline. -/
def Inside (D : Nat) (s : Sys) : Label → Prop
  | .tick ms => s.pc ≠ .idle ∧ s.now + ms ≤ s.deadline + D
  | _ => s.pc ≠ .idle

def Label.isTurn : Label → Bool
  | .turn => true
  | _ => false

def Label.isArrive : Label → Bool
  | .arrive => true
  | _ => false

/-- The reads that come after the one that is under way. -/
def later (D : Nat) : Pc → Nat
  | .config rest => rest.length * (cmdTimeoutMs + D)
  | .sendReply => txTimeoutMs + D
  | _ => 0

/-- The call ends by `stop`. -/
structure Timely (D stop : Nat) (s : Sys) : Prop where
  now : s.now ≤ stop
  read : s.pc ≠ .idle → s.now ≤ s.deadline + D ∧ s.deadline + D + later D s.pc ≤ stop

/-- Every turn so far took a byte or two milliseconds, but for the one that
ended the call. -/
structure Counted (start turns bytes : Nat) (s : Sys) : Prop where
  read : s.pc ≠ .idle → 2 * turns + 2 * s.rx.length + start ≤ 2 * bytes + s.now
  ended : 2 * turns + start ≤ 2 * bytes + s.now + 2

/-! ## Lines -/

theorem gotLine_clock (s : Sys) : s.gotLine.now = s.now ∧ s.gotLine.rx = s.rx := by
  cases hpc : s.pc with
  | idle => simp only [Sys.gotLine, hpc, and_self]
  | init => simp only [Sys.gotLine, hpc, Sys.finish, and_self]
  | config rest =>
    simp only [Sys.gotLine, hpc]
    split_ifs
    · exact ⟨rfl, rfl⟩
    · cases rest <;> exact ⟨rfl, rfl⟩
  | sendReply | sendReport =>
    simp only [Sys.gotLine, hpc]
    split_ifs <;> exact ⟨rfl, rfl⟩

/-- A line before the deadline starts the next read, if there is one. -/
theorem gotLine_timely (h : Timely D stop s) (hpc : s.pc ≠ .idle) (hin : s.now < s.deadline) :
    Timely D stop s.gotLine := by
  obtain ⟨-, hstop⟩ := h.read hpc
  have hnow : s.gotLine.now ≤ stop := by
    rw [(gotLine_clock s).1]
    exact h.now
  have hfinish : ∀ ret, Timely D stop (s.finish ret) := fun _ => ⟨h.now, fun h => absurd rfl h⟩
  cases hs : s.pc with
  | idle => exact absurd hs hpc
  | init =>
    simp only [Sys.gotLine, hs]
    exact hfinish 0
  | config rest =>
    rw [hs] at hstop
    simp only [Sys.gotLine, hs]
    split_ifs
    · exact hfinish _
    · cases rest with
      | nil => exact hfinish 0
      | cons cmd rest =>
        refine ⟨h.now, fun _ => ⟨?_, ?_⟩⟩
        · show s.now ≤ s.now + cmdTimeoutMs + D
          omega
        · show s.now + cmdTimeoutMs + D + rest.length * (cmdTimeoutMs + D) ≤ stop
          have hrest : later D (.config (cmd :: rest)) =
              rest.length * (cmdTimeoutMs + D) + (cmdTimeoutMs + D) := Nat.succ_mul _ _
          omega
  | sendReply =>
    rw [hs] at hstop
    simp only [Sys.gotLine, hs]
    split_ifs
    · exact hfinish _
    · refine ⟨h.now, fun _ => ⟨?_, ?_⟩⟩
      · show s.now ≤ s.now + txTimeoutMs + D
        omega
      · show s.now + txTimeoutMs + D + 0 ≤ stop
        have hreport : later D .sendReply = txTimeoutMs + D := rfl
        omega
  | sendReport =>
    simp only [Sys.gotLine, hs]
    split_ifs <;> exact hfinish _

/-! ## Steps -/

theorem turn_timely (h : Timely D stop s) (hpc : s.pc ≠ .idle) (hD : 0 < D) :
    Timely D stop s.turn := by
  obtain ⟨hlate, hstop⟩ := h.read hpc
  unfold Sys.turn
  split_ifs with hdeadline
  · exact ⟨h.now, fun h => absurd rfl h⟩
  · split
    · refine ⟨?_, fun _ => ⟨?_, hstop⟩⟩
      · show s.now + 2 ≤ stop
        omega
      · show s.now + 2 ≤ s.deadline + D
        omega
    · rename_i c rx hrx
      have htaken : ∀ resp, Timely D stop (s.take rx resp) := fun _ => ⟨h.now, h.read⟩
      split_ifs
      · exact gotLine_timely (htaken s.resp) hpc (Nat.lt_of_not_le hdeadline)
      · exact htaken _

theorem turn_counted (h : Counted start turns bytes s) (hpc : s.pc ≠ .idle) :
    Counted start (turns + 1) bytes s.turn := by
  have hread := h.read hpc
  unfold Sys.turn
  split_ifs
  · refine ⟨fun h => absurd rfl h, ?_⟩
    show 2 * (turns + 1) + start ≤ 2 * bytes + s.now + 2
    omega
  · split
    · rename_i hrx
      have hlength : s.rx.length = 0 := by rw [hrx]; rfl
      refine ⟨fun _ => ?_, ?_⟩
      · show 2 * (turns + 1) + 2 * s.rx.length + start ≤ 2 * bytes + (s.now + 2)
        omega
      · show 2 * (turns + 1) + start ≤ 2 * bytes + (s.now + 2) + 2
        omega
    · rename_i c rx hrx
      have hlength : s.rx.length = rx.length + 1 := by rw [hrx]; rfl
      split_ifs
      · obtain ⟨hnow, hrx'⟩ := gotLine_clock (s.take rx s.resp)
        refine ⟨fun _ => ?_, ?_⟩
        · rw [hnow, hrx']
          show 2 * (turns + 1) + 2 * rx.length + start ≤ 2 * bytes + s.now
          omega
        · rw [hnow]
          show 2 * (turns + 1) + start ≤ 2 * bytes + s.now + 2
          omega
      · refine ⟨fun _ => ?_, ?_⟩
        · show 2 * (turns + 1) + 2 * rx.length + start ≤ 2 * bytes + s.now
          omega
        · show 2 * (turns + 1) + start ≤ 2 * bytes + s.now + 2
          omega

/-- A step inside a call keeps its end. -/
theorem next_timely (h : Timely D stop s) (hD : 0 < D) (hok : Inside D s label)
    (hnext : s.next label = some t) : Timely D stop t := by
  cases moves_of_next hnext with
  | call c hpc => exact absurd hpc hok
  | turn hpc => exact turn_timely h hok hD
  | tick ms =>
    obtain ⟨hpc, htick⟩ := hok
    obtain ⟨-, hstop⟩ := h.read hpc
    refine ⟨?_, fun _ => ⟨htick, hstop⟩⟩
    show s.now + ms ≤ stop
    omega
  | reply | report | arrive => exact ⟨h.now, h.read⟩

/-- A step inside a call is counted. -/
theorem next_counted (h : Counted start turns bytes s) (hok : Inside D s label)
    (hnext : s.next label = some t) :
    Counted start (turns + [label].countP Label.isTurn) (bytes + [label].countP Label.isArrive)
      t := by
  cases moves_of_next hnext with
  | call c hpc => exact absurd hpc hok
  | turn hpc => exact turn_counted h hok
  | tick ms =>
    have hread := h.read hok.1
    have hended := h.ended
    refine ⟨fun _ => ?_, ?_⟩
    · show 2 * turns + 2 * s.rx.length + start ≤ 2 * bytes + (s.now + ms)
      omega
    · show 2 * turns + start ≤ 2 * bytes + (s.now + ms) + 2
      omega
  | reply | report => exact ⟨h.read, h.ended⟩
  | @arrive c wire hwire =>
    have hread := h.read hok
    have hended := h.ended
    refine ⟨fun _ => ?_, ?_⟩
    · show 2 * turns + 2 * (s.rx ++ [c]).length + start ≤ 2 * (bytes + 1) + s.now
      rw [List.length_append, List.length_singleton]
      omega
    · show 2 * turns + start ≤ 2 * (bytes + 1) + s.now + 2
      omega

/-! ## The run law -/

theorem enter_timely (D : Nat) (s : Sys) (c : Call) :
    Timely D (s.now + c.limit D) (s.enter c) := by
  cases c with
  | init =>
    refine ⟨Nat.le_add_right _ _, fun _ => ⟨?_, ?_⟩⟩
    · show s.now ≤ s.now + cmdTimeoutMs + D
      omega
    · show s.now + cmdTimeoutMs + D + 0 ≤ s.now + (cmdTimeoutMs + D)
      omega
  | config config =>
    refine ⟨Nat.le_add_right _ _, fun _ => ⟨?_, ?_⟩⟩
    · show s.now ≤ s.now + cmdTimeoutMs + D
      omega
    · show s.now + cmdTimeoutMs + D + 3 * (cmdTimeoutMs + D) ≤ s.now + 4 * (cmdTimeoutMs + D)
      omega
  | send payload =>
    simp only [Sys.enter]
    split_ifs
    · exact ⟨Nat.le_add_right _ _, fun h => absurd rfl h⟩
    · refine ⟨Nat.le_add_right _ _, fun _ => ⟨?_, ?_⟩⟩
      · show s.now ≤ s.now + cmdTimeoutMs + D
        omega
      · show s.now + cmdTimeoutMs + D + (txTimeoutMs + D) ≤
          s.now + (cmdTimeoutMs + D + (txTimeoutMs + D))
        omega

theorem enter_counted (s : Sys) (c : Call) : Counted s.now 0 s.rx.length (s.enter c) := by
  have hclock : (s.enter c).now = s.now ∧ (s.enter c).rx.length ≤ s.rx.length := by
    cases c with
    | init => exact ⟨rfl, Nat.zero_le _⟩
    | config config => exact ⟨rfl, Nat.le_refl _⟩
    | send payload =>
      simp only [Sys.enter]
      split_ifs <;> exact ⟨rfl, Nat.le_refl _⟩
  obtain ⟨hnow, hrx⟩ := hclock
  refine ⟨fun _ => ?_, ?_⟩
  · rw [hnow]
    omega
  · rw [hnow]
    omega

/-- Whatever the module sends and whenever, a call ends by the sum of its
timeouts when no turn of its loops comes more than `D` milliseconds behind a
deadline, and takes no more turns than the bytes it can read and half of that
time. -/
theorem call_bounded {c : Call} {ls : List Label} (hD : 0 < D)
    (h : rn2483.Run (Inside D) (s.enter c) ls t) :
    t.now ≤ s.now + c.limit D ∧
      2 * ls.countP Label.isTurn ≤
        2 * (s.rx.length + ls.countP Label.isArrive) + c.limit D + 2 := by
  have hinv : Timely D (s.now + c.limit D) t ∧
      Counted s.now (ls.countP Label.isTurn) (s.rx.length + ls.countP Label.isArrive) t := by
    refine h.invariant (I := fun ls t => Timely D (s.now + c.limit D) t ∧
      Counted s.now (ls.countP Label.isTurn) (s.rx.length + ls.countP Label.isArrive) t)
      ⟨enter_timely D s c, enter_counted s c⟩ ?_
    intro ls t l u ⟨htimely, hcounted⟩ hok hnext
    refine ⟨next_timely htimely hD hok hnext, ?_⟩
    rw [List.countP_append, List.countP_append, ← Nat.add_assoc]
    exact next_counted hcounted hok hnext
  have hnow := hinv.1.now
  have hended := hinv.2.ended
  exact ⟨hnow, by omega⟩

instance (D : Nat) (s : Sys) (label : Label) : Decidable (Inside D s label) := by
  cases label <;> unfold Inside <;> infer_instance

/-- Two characters of an answer, and then nothing. -/
def silentModule : List Label :=
  [.reply ok, .arrive, .turn, .turn, .tick 1500, .arrive, .turn, .tick 499, .turn]

/-- The call gives up after two seconds and a millisecond. -/
theorem call_bounded_sample : ∃ t : Sys, t.pc = .idle ∧ t.now = 2001 ∧
    t.now ≤ Call.limit 1 (.send [65]) ∧ 2 * 4 ≤ 2 * 2 + Call.limit 1 (.send [65]) + 2 := by
  obtain ⟨t, hexec, hpc, hnow⟩ := Machine.exists_of_any
    (p := fun t : Sys => t.pc = .idle ∧ t.now = 2001)
    (o := (rn2483.guarded (Inside 1)).exec ((Sys.boot []).enter (.send [65])) silentModule)
    (by decide +kernel)
  have hbounded := call_bounded (s := Sys.boot []) (by decide)
    (Machine.Run.of_guarded (Machine.Run.exec hexec))
  rw [show (Sys.boot []).now = 0 from rfl, Nat.zero_add] at hbounded
  exact ⟨t, hpc, hnow, hbounded⟩

end Winegrid.Rn2483
