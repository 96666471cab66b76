import Winegrid.Lib.CString

/-!
# Arrays of bytes

An array is the list of its cells.  An access outside of it has no answer, so
a function that answers has made all its accesses inside.

* `memcmp_eq`, `memcpy_eq` and `store_eq` say what the accesses inside do.
-/

namespace Winegrid

/-- `a[i]`. -/
def load (a : Bytes) (i : Nat) : Option UInt8 := a[i]?

/-- `a[i] = c`. -/
def store (a : Bytes) (i : Nat) (c : UInt8) : Option Bytes :=
  if i < a.length then some (a.set i c) else none

/-- `memcmp(a + i, b, n) == 0`. -/
def memcmp (a : Bytes) (i : Nat) (b : Bytes) (n : Nat) : Option Bool :=
  if i + n ≤ a.length ∧ n ≤ b.length then some ((a.drop i).take n == b.take n) else none

/-- `memcpy(dst, src + i, n)`. -/
def memcpy (dst src : Bytes) (i n : Nat) : Option Bytes :=
  if i + n ≤ src.length ∧ n ≤ dst.length then some ((src.drop i).take n ++ dst.drop n) else none

/-- The cell behind the front of an array. -/
theorem load_eq (front : Bytes) (c : UInt8) (rest : Bytes) :
    load (front ++ c :: rest) front.length = some c := by
  simp [load]

theorem memcmp_eq {front rest text b : Bytes} (htext : text <+: b)
    (hlen : text.length ≤ rest.length) :
    memcmp (front ++ rest) front.length b text.length = some (startsWith rest text) := by
  have hb : b.take text.length = text := List.prefix_iff_eq_take.mp htext |>.symm
  have hinside : front.length + text.length ≤ (front ++ rest).length ∧ text.length ≤ b.length := by
    rw [List.length_append]
    exact ⟨by omega, htext.length_le⟩
  rw [memcmp, if_pos hinside, List.drop_left, hb, Option.some.injEq, Bool.eq_iff_iff, beq_iff_eq,
    startsWith_iff, List.prefix_iff_eq_take]
  exact eq_comm

theorem memcpy_eq {front value more dst : Bytes} (h : value.length ≤ dst.length) :
    memcpy dst (front ++ (value ++ more)) front.length value.length =
      some (value ++ dst.drop value.length) := by
  have hinside : front.length + value.length ≤ (front ++ (value ++ more)).length := by
    rw [List.length_append, List.length_append]
    omega
  rw [memcpy, if_pos ⟨hinside, h⟩, List.drop_left, List.take_left]

/-- A store behind what was copied. -/
theorem store_eq {value dst : Bytes} (c : UInt8) (h : value.length < dst.length) :
    store (value ++ dst.drop value.length) value.length c =
      some (value ++ c :: dst.drop (value.length + 1)) := by
  have hlen : value.length < (value ++ dst.drop value.length).length := by
    rw [List.length_append, List.length_drop]
    omega
  rw [store, if_pos hlen, List.drop_eq_getElem_cons h, List.set_append_right _ _ (Nat.le_refl _),
    Nat.sub_self, List.set_cons_zero]

end Winegrid
