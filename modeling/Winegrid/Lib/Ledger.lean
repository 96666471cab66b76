import Mathlib.Data.List.Nodup
import Mathlib.Tactic.SplitIfs

/-!
# Resources with one holder

`Handles` hands out numbered handles and takes them back.  Its log holds every
acquisition and every release, oldest first, also the release of a handle that
is not live.  A `Ledger` puts a holder beside the handles, which has one of
them at most.

`Sound` is the invariant: a handle is acquired once, and from then on it is
live or was released once, and what is held is live.

* `Turn.sound`: a holder that acquires with nothing held, and releases what it
  holds, keeps it.
* `Turn.lost`, `Sound.lost_forget`: only a holder that forgets what it holds
  loses a handle.
* `Sound.released_iff`: with nothing held, every handle was released once
  exactly when none was lost.
-/

namespace Winegrid

/-- What is done with a handle. -/
inductive Use where
  | acquired
  | released
  deriving DecidableEq

/-- The handles of one kind: the live ones, the last number, and the log. -/
structure Handles where
  live : List Nat
  last : Nat
  log : List (Use × Nat)
  deriving DecidableEq

namespace Handles

/-- Nothing was acquired yet. -/
def empty : Handles := ⟨[], 0, []⟩

def alloc (h : Handles) : Handles :=
  ⟨(h.last + 1) :: h.live, h.last + 1, h.log ++ [(.acquired, h.last + 1)]⟩

def free (h : Handles) (id : Nat) : Handles :=
  { h with live := h.live.erase id, log := h.log ++ [(.released, id)] }

/-- How often something was done with a handle. -/
def times (h : Handles) (use : Use) (id : Nat) : Nat := h.log.count (use, id)

@[simp] theorem times_alloc (h : Handles) (use : Use) (id : Nat) :
    h.alloc.times use id =
      h.times use id + if (.acquired, h.last + 1) = (use, id) then 1 else 0 := by
  rw [times, alloc, List.count_append, List.count_singleton, times]
  simp only [beq_iff_eq]

@[simp] theorem times_free (h : Handles) (k : Nat) (use : Use) (id : Nat) :
    (h.free k).times use id =
      h.times use id + if (.released, k) = (use, id) then 1 else 0 := by
  rw [times, free, List.count_append, List.count_singleton, times]
  simp only [beq_iff_eq]

end Handles

/-- Handles, and the one that the holder has. -/
structure Ledger extends Handles where
  held : Option Nat
  deriving DecidableEq

namespace Ledger

/-- Nothing was acquired yet. -/
def empty : Ledger := ⟨.empty, none⟩

/-- The holder acquires the next handle. -/
def acquire (a : Ledger) : Ledger := ⟨a.alloc, some (a.last + 1)⟩

/-- The holder releases a handle. -/
def release (a : Ledger) (id : Nat) : Ledger := ⟨a.free id, none⟩

/-- The holder forgets what it has. -/
def forget (a : Ledger) : Ledger := { a with held := none }

/-- Whether a handle is held, as a number. -/
def holds (a : Ledger) (id : Nat) : Nat := if a.held = some id then 1 else 0

/-- How many live handles nobody holds. -/
def lost (a : Ledger) : Nat := a.live.length - a.held.toList.length

structure Sound (a : Ledger) : Prop where
  acquired : ∀ id, a.times .acquired id = if 0 < id ∧ id ≤ a.last then 1 else 0
  balance : ∀ id, a.times .acquired id = a.times .released id + a.live.count id
  held : ∀ id, a.held = some id → id ∈ a.live

theorem sound_empty : Sound empty := by
  refine ⟨fun id => ?_, fun _ => rfl, fun _ h => (by cases h)⟩
  rw [if_neg]
  · rfl
  · show ¬ (0 < id ∧ id ≤ 0)
    omega

variable {a b : Ledger} {id : Nat}

theorem Sound.acquire (h : a.Sound) : a.acquire.Sound := by
  have hfresh : a.times .acquired (a.last + 1) = 0 := by
    rw [h.acquired, if_neg (by omega)]
  refine ⟨fun id => ?_, fun id => ?_, fun id hid => ?_⟩
  · have hbefore := h.acquired id
    show a.alloc.times .acquired id = if 0 < id ∧ id ≤ a.last + 1 then 1 else 0
    simp only [Handles.times_alloc, Prod.mk.injEq, true_and]
    split_ifs at hbefore ⊢ <;> omega
  · have hbefore := h.balance id
    show a.alloc.times .acquired id = a.alloc.times .released id + ((a.last + 1) :: a.live).count id
    simp only [Handles.times_alloc, List.count_cons, Prod.mk.injEq, true_and, reduceCtorEq,
      false_and, if_false, beq_iff_eq]
    omega
  · cases hid
    exact List.mem_cons_self

/-- No handle is handed out twice. -/
theorem Sound.acquired_le_one (h : a.Sound) (id : Nat) : a.times .acquired id ≤ 1 := by
  rw [h.acquired]
  split_ifs <;> omega

theorem Sound.live_nodup (h : a.Sound) : a.live.Nodup := by
  rw [List.nodup_iff_count_le_one]
  intro id
  have hbalance := h.balance id
  have hone := h.acquired_le_one id
  omega

theorem Sound.release (h : a.Sound) (hheld : a.held = some id) : (a.release id).Sound := by
  have hpos := List.count_pos_iff.mpr (h.held id hheld)
  refine ⟨fun k => ?_, fun k => ?_, fun k hk => (by cases hk)⟩
  · show (a.free id).times .acquired k = if 0 < k ∧ k ≤ a.last then 1 else 0
    rw [Handles.times_free, h.acquired k]
    simp
  · have hbefore := h.balance k
    show (a.free id).times .acquired k = (a.free id).times .released k + (a.live.erase id).count k
    simp only [Handles.times_free, List.count_erase, Prod.mk.injEq, true_and, reduceCtorEq,
      false_and, if_false, beq_iff_eq]
    split_ifs with hk
    · subst hk
      omega
    · omega

theorem Sound.forget (h : a.Sound) : a.forget.Sound :=
  ⟨h.acquired, h.balance, fun _ hid => (by cases hid)⟩

/-! ## What a careful holder does -/

/-- One step of a holder that loses nothing. -/
inductive Turn (a b : Ledger) : Prop where
  | keep (h : b = a)
  | acquire (hheld : a.held = none) (h : b = a.acquire)
  | release (id : Nat) (hheld : a.held = some id) (h : b = a.release id)

theorem Turn.sound (h : Turn a b) (ha : a.Sound) : b.Sound := by
  cases h with
  | keep h => exact h ▸ ha
  | acquire _ h => exact h ▸ ha.acquire
  | release id hheld h => exact h ▸ ha.release hheld

/-- It loses nothing. -/
theorem Turn.lost (h : Turn a b) (ha : a.Sound) : b.lost = a.lost := by
  cases h with
  | keep h => rw [h]
  | acquire hheld h =>
    subst h
    simp [Ledger.lost, Ledger.acquire, Handles.alloc, hheld]
  | release id hheld h =>
    subst h
    have hlength := List.length_erase_of_mem (ha.held id hheld)
    simp [Ledger.lost, Ledger.release, Handles.free, hheld, hlength]

/-- Forgetting what is held loses it. -/
theorem Sound.lost_forget (h : a.Sound) (hheld : a.held = some id) :
    a.forget.lost = a.lost + 1 := by
  have hpos := List.length_pos_of_mem (h.held id hheld)
  simp only [Ledger.lost, Ledger.forget, hheld, Option.toList_some, Option.toList_none,
    List.length_singleton, List.length_nil]
  omega

/-! ## With nothing lost -/

/-- With nothing lost, only what is held is live. -/
theorem Sound.live_eq (h : a.Sound) (hlost : a.lost = 0) : a.live = a.held.toList := by
  unfold Ledger.lost at hlost
  cases hheld : a.held with
  | none =>
    rw [hheld] at hlost
    exact List.length_eq_zero_iff.mp (by simpa using hlost)
  | some id =>
    have hmem := h.held id hheld
    rw [hheld] at hlost
    have hlength : a.live.length = 1 := by
      have hpos := List.length_pos_of_mem hmem
      simp only [Option.toList_some, List.length_singleton] at hlost
      omega
    obtain ⟨k, hk⟩ := List.length_eq_one_iff.mp hlength
    rw [hk, List.mem_singleton] at hmem
    rw [hk, hmem, Option.toList_some]

/-- With nothing lost, every handle that was acquired is held or was released
once. -/
theorem Sound.released_or_held (h : a.Sound) (hlost : a.lost = 0) (id : Nat) :
    a.times .acquired id = a.times .released id + a.holds id := by
  rw [h.balance, h.live_eq hlost, Ledger.holds]
  cases a.held with
  | none => rfl
  | some k => simp [List.count_singleton]

/-- A handle was acquired once, or never. -/
theorem Sound.acquired_eq (h : a.Sound) (id : Nat) :
    a.times .acquired id = if (.acquired, id) ∈ a.log then 1 else 0 := by
  have hone := h.acquired_le_one id
  unfold Handles.times at hone ⊢
  split_ifs with hmem
  · have hpos := List.count_pos_iff.mpr hmem
    omega
  · exact List.count_eq_zero.mpr hmem

/-- With nothing live, every handle that was acquired was released once, and no
other was released. -/
theorem Sound.released_eq (h : a.Sound) (hlive : a.live = []) (id : Nat) :
    a.times .released id = if (.acquired, id) ∈ a.log then 1 else 0 := by
  have hbalance := h.balance id
  rw [hlive, List.count_nil, h.acquired_eq] at hbalance
  exact hbalance.symm

/-- After the held handle was released, it was acquired once and released once,
and it is not live. -/
theorem Sound.release_once (h : a.Sound) (hheld : a.held = some id) :
    (a.release id).times .acquired id = 1 ∧ (a.release id).times .released id = 1 ∧
      id ∉ (a.release id).live := by
  have hafter := h.release hheld
  have hbalance := hafter.balance id
  have hone := hafter.acquired_le_one id
  have hreleased : 0 < (a.release id).times .released id := by
    show 0 < (a.free id).times .released id
    rw [Handles.times_free, if_pos rfl]
    omega
  refine ⟨by omega, by omega, ?_⟩
  rw [← List.count_eq_zero]
  omega

end Ledger

end Winegrid
