import Winegrid.Lib.CString

/-!
# Bytes as text

Hex text writes every byte as two digits.  Percent-encoding keeps the letters,
the digits and `-`, `_`, `.`, `~`, and writes every other byte as `%` and two
hex digits.  Base64 writes three bytes as four characters.

* `hexDecode_hexLower`, `percentDecode_percentEncode`: what was encoded can be
  read back.
* `ampersand_notMem_percentEncode`: a percent-encoded text may stand between
  the separators of a query.
* `Base64.decode_encode`: what was encoded can be read back.
-/

namespace Winegrid

/-! ## Hex text -/

/-- One hex digit, upper case. -/
def upperHexDigit (n : UInt8) : UInt8 := if n < 10 then 48 + n else 55 + n

theorem toNat_high (b : UInt8) : (b >>> 4).toNat = b.toNat / 16 := by
  rw [UInt8.toNat_shiftRight, Nat.shiftRight_eq_div_pow]
  rfl

theorem toNat_low (b : UInt8) : (b &&& 15).toNat = b.toNat % 16 := by
  rw [UInt8.toNat_and]
  exact Nat.and_two_pow_sub_one_eq_mod b.toNat 4

theorem high_lt (b : UInt8) : b >>> 4 < 16 := by
  have hlt := b.toNat_lt
  rw [UInt8.lt_iff_toNat_lt, toNat_high]
  show b.toNat / 16 < 16
  omega

theorem low_lt (b : UInt8) : b &&& 15 < 16 := by
  rw [UInt8.lt_iff_toNat_lt, toNat_low]
  exact Nat.mod_lt b.toNat (by decide)

/-- A byte put together from its two halves. -/
theorem high_low (b : UInt8) : UInt8.ofNat ((b >>> 4).toNat * 16 + (b &&& 15).toNat) = b := by
  rw [toNat_high, toNat_low, Nat.div_add_mod' b.toNat 16, UInt8.ofNat_toNat]

/-- A property of the hex digits is checked on all sixteen. -/
theorem hexDigit_cases {p : UInt8 → Prop} (h : ∀ n < 16, p (UInt8.ofNat n)) {n : UInt8}
    (hn : n < 16) : p n := by
  have hval := h n.toNat (UInt8.lt_iff_toNat_lt.mp hn)
  rwa [UInt8.ofNat_toNat] at hval

theorem hexValue_upperHexDigit {n : UInt8} (h : n < 16) :
    hexValue (upperHexDigit n) = some n.toNat :=
  hexDigit_cases (p := fun n => hexValue (upperHexDigit n) = some n.toNat) (by decide) h

theorem hexLower_length (bytes : Bytes) : (hexLower bytes).length = 2 * bytes.length := by
  simp [hexLower, List.length_flatMap, Nat.mul_comm]

/-! ## Percent-encoding -/

/-- `isalnum` of one byte. -/
def isAlnum (b : UInt8) : Bool :=
  48 ≤ b && b ≤ 57 || 65 ≤ b && b ≤ 90 || 97 ≤ b && b ≤ 122

/-- The bytes that stand for themselves. -/
def unreserved (b : UInt8) : Bool := isAlnum b || b == 45 || b == 95 || b == 46 || b == 126

def percentByte (b : UInt8) : Bytes :=
  if unreserved b then [b] else [37, upperHexDigit (b >>> 4), upperHexDigit (b &&& 15)]

/-- The whole text, percent-encoded. -/
def percentEncode (s : Bytes) : Bytes := s.flatMap percentByte

@[simp] theorem percentEncode_nil : percentEncode [] = [] := rfl

@[simp] theorem percentEncode_cons (b : UInt8) (s : Bytes) :
    percentEncode (b :: s) = percentByte b ++ percentEncode s := rfl

theorem percentEncode_append (s t : Bytes) :
    percentEncode (s ++ t) = percentEncode s ++ percentEncode t :=
  List.flatMap_append

theorem percentByte_length_pos (b : UInt8) : 0 < (percentByte b).length := by
  unfold percentByte
  split <;> simp

theorem percentByte_length_le (b : UInt8) : (percentByte b).length ≤ 3 := by
  unfold percentByte
  split <;> simp

/-- `&` is not among the bytes of one encoded byte. -/
theorem ampersand_notMem_percentByte (b : UInt8) : 38 ∉ percentByte b := by
  have hdigit : ∀ n < 16, upperHexDigit n ≠ 38 := fun n =>
    hexDigit_cases (p := fun n => upperHexDigit n ≠ 38) (by decide)
  unfold percentByte
  split
  · rename_i hb
    intro hmem
    rw [← List.mem_singleton.mp hmem] at hb
    exact absurd hb (by decide)
  · simp only [List.mem_cons, List.not_mem_nil, or_false, not_or]
    exact ⟨by decide, (hdigit _ (high_lt b)).symm, (hdigit _ (low_lt b)).symm⟩

/-- `&` is not among the bytes of an encoded text. -/
theorem ampersand_notMem_percentEncode (s : Bytes) : 38 ∉ percentEncode s := by
  intro hmem
  obtain ⟨b, -, hb⟩ := List.mem_flatMap.mp hmem
  exact ampersand_notMem_percentByte b hb

/-- The bytes that a percent-encoded text stands for. -/
def percentDecode : Bytes → Option Bytes
  | [] => some []
  | b :: s =>
    if b = 37 then
      match s with
      | x :: y :: s => do
        let high ← hexValue x
        let low ← hexValue y
        let tail ← percentDecode s
        return UInt8.ofNat (high * 16 + low) :: tail
      | _ => none
    else do
      let tail ← percentDecode s
      return b :: tail

/-- An upper-case hex digit. -/
def IsUpperHex (c : UInt8) : Prop := 48 ≤ c ∧ c ≤ 57 ∨ 65 ≤ c ∧ c ≤ 70

/-- A text of unreserved characters and whole upper-case `%XX` triples. -/
inductive PercentText : Bytes → Prop where
  | nil : PercentText []
  | plain {b : UInt8} {s : Bytes} (hb : unreserved b) (hs : PercentText s) : PercentText (b :: s)
  | escaped {x y : UInt8} {s : Bytes} (hx : IsUpperHex x) (hy : IsUpperHex y)
      (hs : PercentText s) : PercentText (37 :: x :: y :: s)

theorem percentDecode_of_ne {b : UInt8} (h : b ≠ 37) (s : Bytes) :
    percentDecode (b :: s) = (percentDecode s).map (b :: ·) := by
  rw [percentDecode.eq_def]
  simp only [if_neg h]
  cases percentDecode s <;> rfl

/-- One encoded byte is read back, and no more. -/
theorem percentDecode_percentByte (b : UInt8) (s : Bytes) :
    percentDecode (percentByte b ++ s) = (percentDecode s).map (b :: ·) := by
  unfold percentByte
  split
  · rename_i hb
    have hne : b ≠ 37 := by
      intro heq
      rw [heq] at hb
      exact absurd hb (by decide)
    exact percentDecode_of_ne hne s
  · show percentDecode (37 :: upperHexDigit (b >>> 4) :: upperHexDigit (b &&& 15) :: s) = _
    rw [percentDecode, if_pos rfl, hexValue_upperHexDigit (high_lt b),
      hexValue_upperHexDigit (low_lt b)]
    cases percentDecode s with
    | none => rfl
    | some tail =>
      show some (_ :: tail) = some (b :: tail)
      rw [high_low]

/-- What was percent-encoded can be read back. -/
theorem percentDecode_percentEncode (s : Bytes) : percentDecode (percentEncode s) = some s := by
  induction s with
  | nil => rfl
  | cons b s ih =>
    rw [percentEncode_cons, percentDecode_percentByte, ih]
    rfl

/-- Different texts have different encodings. -/
theorem percentEncode_inj {s t : Bytes} (h : percentEncode s = percentEncode t) : s = t := by
  have hdecode := congrArg percentDecode h
  rw [percentDecode_percentEncode, percentDecode_percentEncode] at hdecode
  exact Option.some.inj hdecode

theorem isUpperHex_upperHexDigit {n : UInt8} (h : n < 16) : IsUpperHex (upperHexDigit n) :=
  hexDigit_cases (p := fun n => IsUpperHex (upperHexDigit n)) (by unfold IsUpperHex; decide) h

theorem percentText_percentEncode (s : Bytes) : PercentText (percentEncode s) := by
  induction s with
  | nil => exact PercentText.nil
  | cons b s ih =>
    rw [percentEncode_cons]
    unfold percentByte
    split
    · rename_i hb
      exact PercentText.plain hb ih
    · exact PercentText.escaped (isUpperHex_upperHexDigit (high_lt b))
        (isUpperHex_upperHexDigit (low_lt b)) ih

/-! ## Base64 -/

namespace Base64

/-- The character that fills up the last group. -/
def pad : UInt8 := 61

/-- The character of a value of six bits. -/
def digit (v : Nat) : UInt8 :=
  if v < 26 then UInt8.ofNat (65 + v)
  else if v < 52 then UInt8.ofNat (71 + v)
  else if v < 62 then UInt8.ofNat (v - 4)
  else if v = 62 then 43
  else 47

/-- The value of a character of the alphabet. -/
def value (c : UInt8) : Option Nat :=
  if 65 ≤ c && c ≤ 90 then some (c.toNat - 65)
  else if 97 ≤ c && c ≤ 122 then some (c.toNat - 71)
  else if 48 ≤ c && c ≤ 57 then some (c.toNat + 4)
  else if c = 43 then some 62
  else if c = 47 then some 63
  else none

def encode : Bytes → Bytes
  | [] => []
  | [a] => [digit (a.toNat / 4), digit (a.toNat % 4 * 16), pad, pad]
  | [a, b] =>
    [ digit (a.toNat / 4), digit (a.toNat % 4 * 16 + b.toNat / 16), digit (b.toNat % 16 * 4), pad ]
  | a :: b :: c :: rest =>
    digit (a.toNat / 4) :: digit (a.toNat % 4 * 16 + b.toNat / 16) ::
      digit (b.toNat % 16 * 4 + c.toNat / 64) :: digit (c.toNat % 64) :: encode rest

/-- The bytes of a text of whole groups.  Only the last group may be filled
up. -/
def decode : Bytes → Option Bytes
  | [] => some []
  | w :: x :: y :: z :: rest =>
    if z = pad then
      if rest ≠ [] then none
      else if y = pad then do
        let w ← value w
        let x ← value x
        return [UInt8.ofNat (w * 4 + x / 16)]
      else do
        let w ← value w
        let x ← value x
        let y ← value y
        return [UInt8.ofNat (w * 4 + x / 16), UInt8.ofNat (x % 16 * 16 + y / 4)]
    else do
      let w ← value w
      let x ← value x
      let y ← value y
      let z ← value z
      let tail ← decode rest
      return UInt8.ofNat (w * 4 + x / 16) :: UInt8.ofNat (x % 16 * 16 + y / 4) ::
        UInt8.ofNat (y % 4 * 64 + z) :: tail
  | _ => none

theorem value_digit {v : Nat} (h : v < 64) : value (digit v) = some v :=
  (by decide : ∀ v < 64, value (digit v) = some v) v h

theorem digit_ne_pad {v : Nat} (h : v < 64) : digit v ≠ pad :=
  (by decide : ∀ v < 64, digit v ≠ pad) v h

/-- A byte put together from its parts. -/
theorem ofNat_eq {n : Nat} {b : UInt8} (h : n = b.toNat) : UInt8.ofNat n = b := by
  rw [h, UInt8.ofNat_toNat]

/-- What was encoded can be read back. -/
theorem decode_encode (bytes : Bytes) : decode (encode bytes) = some bytes := by
  fun_induction encode bytes with
  | case1 => rfl
  | case2 a =>
    have ha := a.toNat_lt
    simp only [decode, if_true, ne_eq, not_true_eq_false, if_false,
      value_digit (show a.toNat / 4 < 64 by omega),
      value_digit (show a.toNat % 4 * 16 < 64 by omega)]
    exact congrArg some (congrArg (fun b => [b]) (ofNat_eq (by omega)))
  | case3 a b =>
    have ha := a.toNat_lt
    have hb := b.toNat_lt
    have hthird : b.toNat % 16 * 4 < 64 := by omega
    simp only [decode, if_true, ne_eq, not_true_eq_false, if_false, if_neg (digit_ne_pad hthird),
      value_digit (show a.toNat / 4 < 64 by omega),
      value_digit (show a.toNat % 4 * 16 + b.toNat / 16 < 64 by omega), value_digit hthird]
    have hfirst : UInt8.ofNat (a.toNat / 4 * 4 + (a.toNat % 4 * 16 + b.toNat / 16) / 16) = a :=
      ofNat_eq (by omega)
    have hsecond : UInt8.ofNat ((a.toNat % 4 * 16 + b.toNat / 16) % 16 * 16 +
        b.toNat % 16 * 4 / 4) = b := ofNat_eq (by omega)
    show some [_, _] = some [a, b]
    rw [hfirst, hsecond]
  | case4 a b c rest ih =>
    have ha := a.toNat_lt
    have hb := b.toNat_lt
    have hc := c.toNat_lt
    have hfourth : c.toNat % 64 < 64 := by omega
    simp only [decode, if_neg (digit_ne_pad hfourth), ih,
      value_digit (show a.toNat / 4 < 64 by omega),
      value_digit (show a.toNat % 4 * 16 + b.toNat / 16 < 64 by omega),
      value_digit (show b.toNat % 16 * 4 + c.toNat / 64 < 64 by omega), value_digit hfourth]
    have hfirst : UInt8.ofNat (a.toNat / 4 * 4 + (a.toNat % 4 * 16 + b.toNat / 16) / 16) = a :=
      ofNat_eq (by omega)
    have hsecond : UInt8.ofNat ((a.toNat % 4 * 16 + b.toNat / 16) % 16 * 16 +
        (b.toNat % 16 * 4 + c.toNat / 64) / 4) = b := ofNat_eq (by omega)
    have hthird : UInt8.ofNat ((b.toNat % 16 * 4 + c.toNat / 64) % 4 * 64 + c.toNat % 64) = c :=
      ofNat_eq (by omega)
    show some (_ :: _ :: _ :: rest) = some (a :: b :: c :: rest)
    rw [hfirst, hsecond, hthird]

end Base64

end Winegrid
