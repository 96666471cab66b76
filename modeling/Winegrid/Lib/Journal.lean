import Mathlib.Data.List.Basic

/-!
# Journals: a disk, and the list of everything done to it

A program that can lose power at any moment is described by the list of its
effects.  Each effect is atomic, and the disk after a loss of power is the
replay of some prefix of that list.  `Journal` keeps the disk beside the list,
`write` is the one way to change either, and `upTo j j' n` is the journal of a
run from `j` to `j'` that stopped after its first `n` effects.
-/

namespace Winegrid

universe u v

/-- What one effect of type `ε` does to a disk of type `δ`. -/
class Disk (δ : Type u) (ε : Type v) where
  apply : δ → ε → δ

/-- A disk and the effects that brought it there, oldest first. -/
structure Journal (δ : Type u) (ε : Type v) where
  disk : δ
  log : List ε

namespace Journal

variable {δ : Type u} {ε : Type v} [Disk δ ε]

/-- One more effect. -/
def write (j : Journal δ ε) (e : ε) : Journal δ ε :=
  ⟨Disk.apply j.disk e, j.log ++ [e]⟩

/-- More effects, in order. -/
def writes (j : Journal δ ε) (es : List ε) : Journal δ ε :=
  es.foldl write j

@[simp] theorem write_disk (j : Journal δ ε) (e : ε) :
    (j.write e).disk = Disk.apply j.disk e := rfl

@[simp] theorem write_log (j : Journal δ ε) (e : ε) :
    (j.write e).log = j.log ++ [e] := rfl

@[simp] theorem writes_nil (j : Journal δ ε) : j.writes [] = j := rfl

theorem writes_cons (j : Journal δ ε) (e : ε) (es : List ε) :
    j.writes (e :: es) = (j.write e).writes es := rfl

theorem writes_append (j : Journal δ ε) (es fs : List ε) :
    j.writes (es ++ fs) = (j.writes es).writes fs :=
  List.foldl_append

@[simp] theorem writes_log (j : Journal δ ε) (es : List ε) :
    (j.writes es).log = j.log ++ es := by
  induction es generalizing j with
  | nil => simp
  | cons e es ih => simp [writes_cons, ih]

/-- `j'` continues `j`. -/
def Extends (j j' : Journal δ ε) : Prop := ∃ es, j' = j.writes es

theorem extends_write (j : Journal δ ε) (e : ε) : j.Extends (j.write e) :=
  ⟨[e], rfl⟩

/-- The effects of a run from `j` to `j'`. -/
def since (j j' : Journal δ ε) : List ε := j'.log.drop j.log.length

@[simp] theorem since_writes (j : Journal δ ε) (es : List ε) :
    j.since (j.writes es) = es := by
  simp [since]

@[simp] theorem since_self (j : Journal δ ε) : j.since j = [] :=
  j.since_writes []

theorem since_trans {j k l : Journal δ ε} (h : j.Extends k) (h' : k.Extends l) :
    j.since l = j.since k ++ k.since l := by
  obtain ⟨es, rfl⟩ := h
  obtain ⟨fs, rfl⟩ := h'
  rw [← writes_append, since_writes, since_writes, writes_append, since_writes]

/-- The run from `j` to `j'`, stopped after its first `n` effects. -/
def upTo (j j' : Journal δ ε) (n : Nat) : Journal δ ε :=
  j.writes ((j.since j').take n)

end Journal

end Winegrid
