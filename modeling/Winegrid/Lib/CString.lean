import Mathlib.Data.List.Basic

/-!
# C strings as byte lists

A C string is the list of its bytes before the terminating NUL.  `strncpy`
and `snprintf` cut at the size of the destination, `strcasecmp` compares
without the case of ASCII letters, and `hexLower` is a run of `%02x`.
-/

namespace Winegrid

/-- A byte string. -/
abbrev Bytes := List UInt8

/-- The bytes of an ASCII literal. -/
def ascii (s : String) : Bytes := s.toList.map fun c => UInt8.ofNat c.toNat

/-- `%d`. -/
def dec (n : Int) : Bytes := ascii (toString n)

/-- `strncpy(dst, src, size - 1)` into a zeroed array of `size` bytes. -/
def strncpy (size : Nat) (src : Bytes) : Bytes := src.take (size - 1)

/-- `snprintf(dst, size, ...)` of a text. -/
def snprintf (size : Nat) (text : Bytes) : Bytes := text.take (size - 1)

/-- `tolower` of one byte. -/
def toLower (b : UInt8) : UInt8 := if 65 ≤ b && b ≤ 90 then b + 32 else b

/-- `strcasecmp(a, b) == 0`. -/
def strcaseeq (a b : Bytes) : Bool := a.map toLower == b.map toLower

/-- `strncmp(s, prefix, strlen(prefix)) == 0` on a string of known length. -/
def startsWith (s p : Bytes) : Bool := p.isPrefixOf s

/-- One hex digit, lower case. -/
def hexDigit (n : UInt8) : UInt8 := if n < 10 then 48 + n else 87 + n

/-- The value of a hexadecimal digit. -/
def hexValue (b : UInt8) : Option Nat :=
  if 48 ≤ b && b ≤ 57 then some (b.toNat - 48)
  else if 65 ≤ b && b ≤ 70 then some (b.toNat - 55)
  else if 97 ≤ b && b ≤ 102 then some (b.toNat - 87)
  else none

/-- `%02x` of every byte in turn. -/
def hexLower (bs : Bytes) : Bytes :=
  bs.flatMap fun (b : UInt8) => [hexDigit (b >>> 4), hexDigit (b &&& 15)]

theorem startsWith_iff {s p : Bytes} : startsWith s p = true ↔ p <+: s :=
  List.isPrefixOf_iff_prefix

theorem strncpy_eq_self {size : Nat} {src : Bytes} (h : src.length < size) :
    strncpy size src = src :=
  List.take_of_length_le (by omega)

end Winegrid
