import Winegrid.Lib.CString
import Mathlib.Algebra.Ring.Nat

/-!
# Decimal numbers

What `%d` writes: a sign, if the number is negative, and digits.

* `mem_dec`: every byte is a digit or the sign.
* `dec_length_le`: a number of 32 bits has at most eleven of them.
* `dec_injective`: the text determines the number.
* `fields_injective`: so do two numbers around a separator.
-/

namespace Winegrid

/-! ## Digits -/

/-- The byte of a character. -/
def charByte (c : Char) : UInt8 := UInt8.ofNat c.toNat

/-- The bytes of the digits of a number. -/
def digits (n : Nat) : Bytes := (Nat.toDigits 10 n).map charByte

theorem toNat_of_isDigit {c : Char} (h : c.isDigit = true) : 48 ≤ c.toNat ∧ c.toNat ≤ 57 := by
  simp only [Char.isDigit, Bool.and_eq_true, decide_eq_true_eq] at h
  exact h

theorem charByte_of_isDigit {c : Char} (h : c.isDigit = true) : (charByte c).toNat = c.toNat := by
  have hrange := toNat_of_isDigit h
  rw [charByte, UInt8.toNat_ofNat']
  omega

theorem isDigit_of_mem_toDigits {n : Nat} {c : Char} (h : c ∈ Nat.toDigits 10 n) :
    c.isDigit = true :=
  Nat.isDigit_of_mem_toDigits (by decide) (by decide) h

/-- Every byte of a number is between `0` and `9`. -/
theorem mem_digits {n : Nat} {b : UInt8} (h : b ∈ digits n) : 48 ≤ b.toNat ∧ b.toNat ≤ 57 := by
  obtain ⟨c, hc, rfl⟩ := List.mem_map.mp h
  have hdigit := isDigit_of_mem_toDigits hc
  rw [charByte_of_isDigit hdigit]
  exact toNat_of_isDigit hdigit

/-- The digits determine the number. -/
theorem digits_injective {m n : Nat} (h : digits m = digits n) : m = n := by
  have hback : ∀ k, (digits k).map (fun b => Char.ofNat b.toNat) = Nat.toDigits 10 k := by
    intro k
    rw [digits, List.map_map]
    refine (List.map_congr_left fun c hc => ?_).trans (List.map_id _)
    rw [Function.comp_apply, charByte_of_isDigit (isDigit_of_mem_toDigits hc), Char.ofNat_toNat, id]
  calc m = Nat.ofDigitChars 10 (Nat.toDigits 10 m) 0 := Nat.ofDigitChars_ten_toDigits.symm
    _ = Nat.ofDigitChars 10 (Nat.toDigits 10 n) 0 := by rw [← hback m, h, hback n]
    _ = n := Nat.ofDigitChars_ten_toDigits

theorem digits_length_le {n k : Nat} (hk : 0 < k) (h : n < 10 ^ k) : (digits n).length ≤ k := by
  rw [digits, List.length_map]
  exact (Nat.length_toDigits_le_iff (by decide) hk).mpr h

/-! ## Numbers -/

theorem ascii_repr (n : Nat) : ascii n.repr = digits n := by
  rw [ascii, Nat.repr_eq_ofList_toDigits, String.toList_ofList]
  rfl

/-- A number is its digits, behind the sign. -/
theorem dec_eq (n : Int) : dec n = if n < 0 then 45 :: digits n.natAbs else digits n.natAbs := by
  rw [dec, Int.toString_eq_repr]
  cases n with
  | ofNat m =>
    rw [if_neg (by simp)]
    exact ascii_repr m
  | negSucc m =>
    have hsign : ascii ("-" ++ (m + 1).repr) = 45 :: ascii (m + 1).repr := by
      simp [ascii]
    rw [if_pos (Int.negSucc_lt_zero m)]
    exact hsign.trans (congrArg _ (ascii_repr (m + 1)))

/-- Every byte of a number is a digit or the sign. -/
theorem mem_dec {n : Int} {b : UInt8} (h : b ∈ dec n) : 45 ≤ b.toNat ∧ b ≠ 47 ∧ b.toNat ≤ 57 := by
  have hdigits : b ∈ digits n.natAbs → 45 ≤ b.toNat ∧ b ≠ 47 ∧ b.toNat ≤ 57 := by
    intro hb
    obtain ⟨hlow, hhigh⟩ := mem_digits hb
    refine ⟨by omega, ?_, hhigh⟩
    intro heq
    subst heq
    exact absurd hlow (by decide)
  rw [dec_eq] at h
  split_ifs at h
  · rcases List.mem_cons.mp h with rfl | h
    · decide
    · exact hdigits h
  · exact hdigits h

theorem dec_injective {m n : Int} (h : dec m = dec n) : m = n := by
  have hsign : ∀ {k l : Nat}, digits k ≠ 45 :: digits l := by
    intro k l heq
    have hmem : (45 : UInt8) ∈ digits k := heq ▸ List.mem_cons_self
    exact absurd (mem_digits hmem).1 (by decide)
  rw [dec_eq, dec_eq] at h
  split_ifs at h with hm hn hn
  · have habs := digits_injective (List.cons.inj h).2
    omega
  · exact absurd h.symm hsign
  · exact absurd h hsign
  · have habs := digits_injective h
    omega

/-- A number of `k` digits, and its sign. -/
theorem dec_length_le_succ {n : Int} {k : Nat} (hk : 0 < k) (h : n.natAbs < 10 ^ k) :
    (dec n).length ≤ k + 1 := by
  have hlen : (digits n.natAbs).length ≤ k := digits_length_le hk h
  rw [dec_eq]
  split_ifs
  · rw [List.length_cons]
    omega
  · omega

/-- An `int` has at most ten digits. -/
theorem dec_length_le (n : Int32) : (dec n.toInt).length ≤ 11 := by
  have hlow := Int32.le_toInt n
  have hhigh := Int32.toInt_lt n
  exact dec_length_le_succ (by decide) (by omega)

/-- Two numbers around a separator that starts with a slash. -/
theorem fields_injective {sep : Bytes} {k l m n : Int}
    (h : dec k ++ 47 :: sep ++ dec m = dec l ++ 47 :: sep ++ dec n) : k = l ∧ m = n := by
  have hslash : ∀ i, (47 : UInt8) ∉ dec i := fun _ hmem => (mem_dec hmem).2.1 rfl
  rw [List.append_assoc, List.append_assoc, List.cons_append, List.cons_append] at h
  have hsplit := List.append_eq_append_iff.mp h
  have hleft : dec k = dec l := by
    rcases hsplit with ⟨_ | ⟨b, as⟩, hl, htail⟩ | ⟨_ | ⟨b, as⟩, hk, htail⟩
    · rw [hl, List.append_nil]
    · obtain ⟨rfl, -⟩ := List.cons.inj htail
      exact absurd (hl ▸ List.mem_append_right _ List.mem_cons_self) (hslash l)
    · rw [hk, List.append_nil]
    · obtain ⟨rfl, -⟩ := List.cons.inj htail
      exact absurd (hk ▸ List.mem_append_right _ List.mem_cons_self) (hslash k)
  rw [hleft, List.append_cancel_left_eq] at h
  exact ⟨dec_injective hleft, dec_injective (List.append_cancel_left (List.cons.inj h).2)⟩

end Winegrid
