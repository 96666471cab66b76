import Winegrid.Lib.CString
import Mathlib.Data.List.Infix
import Mathlib.Data.List.TakeWhile

/-!
# Compact JSON text

A JSON document, and its text without insignificant whitespace.  Strings are
kept as they are written, so a document has one text.

* `Json.entries` are the members of a document at any depth, in the order of
  the text.
* `scan` is the search for a key by its bytes: `"key":"` anywhere in the text,
  and then the bytes up to the next quote.
* `scan_text` says what the search finds in the text of a document.
* `unescape` is what a string means.
-/

namespace Winegrid

/-! ## Documents -/

/-- What may stand between the quotes of a string: no control character, and a
quote only behind a backslash. -/
inductive Escaped : Bytes → Prop where
  | nil : Escaped []
  | plain {b : UInt8} {s : Bytes} (hcontrol : 32 ≤ b) (hquote : b ≠ 34) (hslash : b ≠ 92)
      (h : Escaped s) : Escaped (b :: s)
  | escape {c : UInt8} {s : Bytes} (hcontrol : 32 ≤ c) (h : Escaped s) : Escaped (92 :: c :: s)

/-- A string as it is written. -/
structure Written where
  bytes : Bytes
  escaped : Escaped bytes

/-- A number as it is written. -/
structure Numeral where
  bytes : Bytes
  nonempty : bytes ≠ []
  digits : ∀ b ∈ bytes, b ∈ ascii "+-.0123456789Ee"

inductive Json where
  | null
  | bool (b : Bool)
  | number (n : Numeral)
  | string (s : Written)
  | array (items : List Json)
  | object (members : List (Written × Json))

/-- A string with its quotes. -/
def Written.quoted (s : Written) : Bytes := 34 :: (s.bytes ++ [34])

mutual

/-- The compact text of a document. -/
def Json.text : Json → Bytes
  | .null => ascii "null"
  | .bool b => if b then ascii "true" else ascii "false"
  | .number n => n.bytes
  | .string s => s.quoted
  | .array items => 91 :: (Json.textItems [] items ++ [93])
  | .object members => 123 :: (Json.textMembers [] members ++ [125])

def Json.textItems (sep : Bytes) : List Json → Bytes
  | [] => []
  | x :: items => sep ++ x.text ++ Json.textItems [44] items

def Json.textMembers (sep : Bytes) : List (Written × Json) → Bytes
  | [] => []
  | (name, x) :: members => sep ++ name.quoted ++ 58 :: x.text ++ Json.textMembers [44] members

end

mutual

/-- The members at any depth, in the order of the text. -/
def Json.entries : Json → List (Written × Json)
  | .array items => Json.entriesItems items
  | .object members => Json.entriesMembers members
  | _ => []

def Json.entriesItems : List Json → List (Written × Json)
  | [] => []
  | x :: items => x.entries ++ Json.entriesItems items

def Json.entriesMembers : List (Written × Json) → List (Written × Json)
  | [] => []
  | (name, x) :: members => (name, x) :: x.entries ++ Json.entriesMembers members

end

mutual

/-- The strings of a document, the names of its members included. -/
def Json.strings : Json → List Written
  | .string s => [s]
  | .array items => Json.stringsItems items
  | .object members => Json.stringsMembers members
  | _ => []

def Json.stringsItems : List Json → List Written
  | [] => []
  | x :: items => x.strings ++ Json.stringsItems items

def Json.stringsMembers : List (Written × Json) → List Written
  | [] => []
  | (name, x) :: members => name :: x.strings ++ Json.stringsMembers members

end

/-! ## Strings as they are written -/

variable {key s rest filler : Bytes}

/-- A string that is written without a backslash up to its first quote has no
quote. -/
theorem Escaped.eq_of_cut (hs : Escaped s) {name : Bytes} (hname : 92 ∉ name)
    (h : s.takeWhile (· ≠ 34) = name) : s = name := by
  induction hs generalizing name with
  | nil => exact h
  | @plain b s _ hquote _ _ ih =>
    have hcons : (b :: s).takeWhile (· ≠ 34) = b :: s.takeWhile (· ≠ 34) :=
      List.takeWhile_cons_of_pos (decide_eq_true hquote)
    rw [hcons] at h
    subst h
    rw [List.mem_cons, not_or] at hname
    exact congrArg _ (ih hname.2 rfl)
  | escape _ _ _ =>
    exact absurd (h ▸ List.mem_cons_self) hname

/-- No control character is written in a string. -/
theorem Escaped.le_of_mem (hs : Escaped s) {b : UInt8} (hb : b ∈ s) : 32 ≤ b := by
  induction hs with
  | nil => cases hb
  | plain hcontrol _ _ _ ih =>
    rcases List.mem_cons.mp hb with rfl | hb
    · exact hcontrol
    · exact ih hb
  | escape hcontrol _ ih =>
    rcases List.mem_cons.mp hb with rfl | hb
    · decide
    · rcases List.mem_cons.mp hb with rfl | hb
      · exact hcontrol
      · exact ih hb

theorem Written.le_of_mem_quoted (s : Written) : ∀ b ∈ s.quoted, 32 ≤ b := by
  rw [Written.quoted, List.forall_mem_cons, List.forall_mem_append]
  exact ⟨by decide +kernel, fun _ hb => s.escaped.le_of_mem hb, by decide +kernel⟩

/-- A string that needs no backslash. -/
theorem escaped_plain (h : ∀ b ∈ s, 32 ≤ b ∧ b ≠ 34 ∧ b ≠ 92) : Escaped s := by
  induction s with
  | nil => exact .nil
  | cons b s ih =>
    obtain ⟨hcontrol, hquote, hslash⟩ := h b List.mem_cons_self
    exact .plain hcontrol hquote hslash (ih fun c hc => h c (List.mem_cons_of_mem b hc))

/-! ## The search -/

section Behind

variable {α : Type} [DecidableEq α] {pattern text : List α} {a : α}

/-- What stands behind the first place where a pattern stands. -/
def behind (pattern : List α) : List α → Option (List α)
  | [] => none
  | text@(_ :: rest) =>
    if pattern <+: text then some (text.drop pattern.length) else behind pattern rest

theorem behind_skip (h : ¬pattern <+: a :: text) :
    behind pattern (a :: text) = behind pattern text := by
  rw [behind, if_neg h]

theorem behind_hit (h : pattern ≠ []) : behind pattern (pattern ++ text) = some text := by
  obtain ⟨a, tail, rfl⟩ := List.exists_cons_of_ne_nil h
  have hprefix : a :: tail <+: a :: (tail ++ text) := List.prefix_append (a :: tail) text
  rw [List.cons_append, behind, if_pos hprefix]
  have hdrop : (a :: (tail ++ text)).drop (a :: tail).length = text := List.drop_left
  rw [hdrop]

/-- What stands behind a pattern is the rest of the text. -/
theorem behind_suffix {rest : List α} (h : behind pattern text = some rest) :
    pattern ++ rest <:+ text := by
  induction text with
  | nil => cases h
  | cons a text ih =>
    by_cases hprefix : pattern <+: a :: text
    · obtain ⟨tail, htail⟩ := hprefix
      rw [behind, if_pos ⟨tail, htail⟩, ← htail, List.drop_left, Option.some.injEq] at h
      rw [← htail, h]
    · rw [behind_skip hprefix] at h
      exact (ih h).trans (List.suffix_cons a text)

/-- A pattern without the separator stands before it or behind it. -/
theorem behind_append_cons {sep : α} {rest : List α} (hpattern : pattern ≠ [])
    (hsep : sep ∉ pattern) :
    behind pattern (text ++ sep :: rest) =
      ((behind pattern text).map (· ++ sep :: rest)).or (behind pattern rest) := by
  induction text with
  | nil =>
    have hmiss : ¬pattern <+: sep :: rest := by
      intro hprefix
      obtain ⟨b, tail, rfl⟩ := List.exists_cons_of_ne_nil hpattern
      exact hsep ((List.cons_prefix_cons.mp hprefix).1 ▸ List.mem_cons_self)
    rw [List.nil_append, behind_skip hmiss]
    rfl
  | cons a text ih =>
    by_cases hprefix : pattern <+: a :: text
    · obtain ⟨tail, htail⟩ := hprefix
      rw [← htail, List.append_assoc, behind_hit hpattern, behind_hit hpattern]
      rfl
    · have hmiss : ¬pattern <+: a :: (text ++ sep :: rest) := by
        intro hlong
        -- Both stand at the start, so the shorter one starts the longer one.
        rcases List.prefix_or_prefix_of_prefix hlong (List.prefix_append (a :: text) (sep :: rest))
          with hpre | ⟨tail, htail⟩
        · exact hprefix hpre
        · rw [← htail, ← List.cons_append, List.prefix_append_right_inj] at hlong
          rcases tail with _ | ⟨b, tail⟩
          · exact hprefix (by rw [← htail, List.append_nil])
          · obtain ⟨rfl, -⟩ := List.cons_prefix_cons.mp hlong
            exact hsep (by rw [← htail]; simp)
      rw [List.cons_append, behind_skip hmiss, ih, behind_skip hprefix]

/-- Nothing stands behind a pattern if and only if it stands nowhere with an
element behind it. -/
theorem behind_filter_eq_none :
    (behind pattern text).filter (· ≠ []) = none ↔ ∀ x, ¬pattern ++ [x] <:+: text := by
  induction text with
  | nil => simp [behind]
  | cons a text ih =>
    by_cases hprefix : pattern <+: a :: text
    · rw [behind, if_pos hprefix, Option.filter_some]
      obtain ⟨tail, htail⟩ := hprefix
      rw [← htail, List.drop_left]
      rcases tail with _ | ⟨b, tail⟩
      · simp only [ne_eq, not_true_eq_false, decide_false, Bool.false_eq_true, if_false, true_iff]
        intro x hinfix
        have hlength := hinfix.length_le
        simp only [List.length_append, List.length_singleton, List.length_nil] at hlength
        omega
      · simp only [ne_eq, reduceCtorEq, not_false_eq_true, decide_true, if_true, false_iff]
        intro hnone
        exact hnone b ⟨[], tail, by simp⟩
    · rw [behind_skip hprefix, ih]
      refine forall_congr' fun x => not_congr ?_
      rw [List.infix_cons_iff]
      exact ⟨Or.inr, fun h => h.resolve_left fun hpre =>
        hprefix ((List.prefix_append pattern [x]).trans hpre)⟩

theorem behind_short (h : text.length < pattern.length) : behind pattern text = none := by
  rcases hrest : behind pattern text with _ | rest
  · rfl
  · have hlength := (behind_suffix hrest).length_le
    rw [List.length_append] at hlength
    omega

/-- In the front of a text, a pattern is found where it is found in all of it,
if that far is shown. -/
theorem behind_take (hpattern : pattern ≠ []) (k : Nat) :
    behind pattern (text.take k) = (behind pattern text).bind fun rest =>
      if text.length - rest.length ≤ k then some (rest.take (k - (text.length - rest.length)))
      else none := by
  have hpos := List.length_pos_iff.mpr hpattern
  induction text generalizing k with
  | nil =>
    rw [List.take_nil]
    rfl
  | cons a text ih =>
    cases k with
    | zero =>
      rw [List.take_zero, behind]
      rcases hrest : behind pattern (a :: text) with _ | rest
      · rfl
      · have hlength := (behind_suffix hrest).length_le
        rw [List.length_append] at hlength
        rw [Option.bind_some, if_neg (by omega)]
    | succ k =>
      rw [List.take_succ_cons]
      by_cases hprefix : pattern <+: a :: text
      · obtain ⟨rest, hrest⟩ := hprefix
        have hlength : (a :: text).length - rest.length = pattern.length := by
          rw [← hrest, List.length_append]
          omega
        rw [← List.take_succ_cons, ← hrest, behind_hit hpattern, Option.bind_some, hrest, hlength]
        split_ifs with hle
        · rw [← hrest, List.take_append, List.take_of_length_le hle, behind_hit hpattern]
        · refine behind_short ?_
          rw [List.length_take]
          omega
      · have hmiss : ¬pattern <+: a :: text.take k := fun hshort =>
          hprefix (hshort.trans (List.take_prefix (k + 1) (a :: text)))
        rw [behind_skip hmiss, behind_skip hprefix, ih]
        rcases hrest : behind pattern text with _ | rest
        · rfl
        · have hlength := (behind_suffix hrest).length_le
          rw [List.length_append] at hlength
          have hstart : (a :: text).length - rest.length = text.length - rest.length + 1 := by
            rw [List.length_cons]
            omega
          rw [Option.bind_some, Option.bind_some, hstart, Nat.add_sub_add_right]
          simp only [Nat.add_le_add_iff_right]

/-- What follows a text without belonging to the pattern hides nothing. -/
theorem behind_append_replicate {sep : α} (hpattern : pattern ≠ []) (hsep : sep ∉ pattern)
    (m : Nat) : behind pattern (text ++ List.replicate m sep) =
      (behind pattern text).map (· ++ List.replicate m sep) := by
  induction m generalizing text with
  | zero => simp
  | succ m ih =>
    have hnone : behind pattern (List.replicate m sep) = none := by
      rw [← List.nil_append (List.replicate m sep), ih]
      rfl
    rw [List.replicate_succ, behind_append_cons hpattern hsep, hnone, Option.or_none]

end Behind

/-- `"key":"`. -/
def keyPattern (key : Bytes) : Bytes := 34 :: (key ++ [34, 58, 34])

theorem keyPattern_length (key : Bytes) : (keyPattern key).length = key.length + 4 := by
  simp [keyPattern]

/-- The bytes up to the next quote behind the first place where the pattern of
the key stands, if any byte is left there. -/
def scan (key text : Bytes) : Option Bytes :=
  ((behind (keyPattern key) text).filter (· ≠ [])).map fun rest => rest.takeWhile (· ≠ 34)

/-- What the search finds stands behind the pattern. -/
theorem scan_suffix {text out : Bytes} (h : scan key text = some out) :
    ∃ rest, keyPattern key ++ rest <:+ text ∧ out <+: rest := by
  obtain ⟨rest, hrest, rfl⟩ := Option.map_eq_some_iff.mp h
  exact ⟨rest, behind_suffix (Option.eq_some_of_filter_eq_some hrest), List.takeWhile_prefix _⟩

/-- A key of ASCII letters. -/
structure IsWord (key : Bytes) : Prop where
  nonempty : key ≠ []
  letters : ∀ b ∈ key, 65 ≤ b ∧ b ≤ 90 ∨ 97 ≤ b ∧ b ≤ 122

theorem IsWord.quote_notMem (h : IsWord key) : 34 ∉ key := fun hmem =>
  absurd (h.letters 34 hmem) (by decide)

theorem IsWord.slash_notMem (h : IsWord key) : 92 ∉ key := fun hmem =>
  absurd (h.letters 92 hmem) (by decide)

/-- A byte that is no quote is skipped. -/
theorem scan_skip {b : UInt8} (h : b ≠ 34) : scan key (b :: rest) = scan key rest := by
  have hmiss : ¬keyPattern key <+: b :: rest := fun hprefix =>
    h (List.cons_prefix_cons.mp hprefix).1.symm
  rw [scan, behind_skip hmiss, scan]

theorem scan_skip_append (h : 34 ∉ filler) : scan key (filler ++ rest) = scan key rest := by
  induction filler with
  | nil => rfl
  | cons b filler ih =>
    rw [List.mem_cons, not_or] at h
    rw [List.cons_append, scan_skip (Ne.symm h.1), ih h.2]

/-- A quote at which the pattern does not start is skipped. -/
theorem scan_quote_miss (h : ¬key ++ [34, 58, 34] <+: rest) :
    scan key (34 :: rest) = scan key rest := by
  have hmiss : ¬keyPattern key <+: 34 :: rest := fun hprefix =>
    h (List.cons_prefix_cons.mp hprefix).2
  rw [scan, behind_skip hmiss, scan]

theorem scan_quote_hit (h : rest ≠ []) :
    scan key (34 :: (key ++ [34, 58, 34] ++ rest)) = some (rest.takeWhile (· ≠ 34)) := by
  have hbehind : behind (keyPattern key) (34 :: (key ++ [34, 58, 34] ++ rest)) = some rest :=
    behind_hit (List.cons_ne_nil _ _)
  rw [scan, hbehind, Option.filter_some, if_pos (decide_eq_true h)]
  rfl

/-! ## The search in a string -/

/-- A key stands at the start of a string only if it is all of it. -/
theorem prefix_string (rest : Bytes) (hquote : 34 ∉ key) (hslash : 92 ∉ key) (hs : Escaped s) :
    key ++ [34, 58, 34] <+: s ++ 34 :: rest ↔ s = key ∧ [58, 34] <+: rest := by
  induction key generalizing s with
  | nil =>
    cases hs with
    | nil => simp [List.cons_prefix_cons]
    | plain _ hne _ _ => simp [List.cons_prefix_cons, Ne.symm hne]
    | escape _ _ => simp [List.cons_prefix_cons]
  | cons k key ih =>
    rw [List.mem_cons, not_or] at hquote hslash
    cases hs with
    | nil => simp [List.cons_prefix_cons, Ne.symm hquote.1]
    | plain _ _ _ hs =>
      rw [List.cons_append, List.cons_append, List.cons_prefix_cons, ih hquote.2 hslash.2 hs,
        List.cons.injEq, eq_comm, and_assoc]
    | escape _ _ => simp [List.cons_prefix_cons, Ne.symm hslash.1, hslash.1]

/-- What may follow a string or a value: nothing, or a comma, a colon or a
closing bracket. -/
def Closes (rest : Bytes) : Prop := ∀ b, rest.head? = some b → b = 44 ∨ b = 58 ∨ b = 93 ∨ b = 125

/-- No key stands behind a string. -/
theorem prefix_closes (hkey : IsWord key) (hrest : Closes rest) :
    ¬key ++ [34, 58, 34] <+: rest := by
  obtain ⟨k, tail, rfl⟩ := List.exists_cons_of_ne_nil hkey.nonempty
  rintro ⟨more, rfl⟩
  have hletter := hkey.letters k List.mem_cons_self
  rcases hrest k rfl with rfl | rfl | rfl | rfl <;> exact absurd hletter (by decide)

/-- What the search finds from inside a string on: the value behind it, if the
string ends in a quote and the key, and is followed by `:"`. -/
def fromString (key s rest : Bytes) : Option Bytes :=
  if 34 :: key <:+ s ∧ [58, 34] <+: rest then some ((rest.drop 2).takeWhile (· ≠ 34))
  else scan key rest

/-- One quote, with a string behind it of which the rest is known. -/
theorem scan_quote (hkey : IsWord key) (hs : Escaped s)
    (hvalue : [58, 34] <+: rest → 2 < rest.length)
    (ih : scan key (s ++ 34 :: rest) = fromString key s rest) :
    scan key (34 :: (s ++ 34 :: rest)) = fromString key (34 :: s) rest := by
  have hprefix := prefix_string rest hkey.quote_notMem hkey.slash_notMem hs
  by_cases hhit : s = key ∧ [58, 34] <+: rest
  · obtain ⟨rfl, value, rfl⟩ := hhit
    have hlen := hvalue (List.prefix_append _ _)
    have hne : value ≠ [] := by
      intro heq
      subst heq
      exact absurd hlen (by decide)
    have htext : s ++ 34 :: ([58, 34] ++ value) = s ++ [34, 58, 34] ++ value := by
      rw [List.append_assoc]
      rfl
    rw [htext, scan_quote_hit hne, fromString,
      if_pos ⟨List.suffix_refl _, List.prefix_append _ _⟩]
    rfl
  · rw [scan_quote_miss (mt hprefix.mp hhit), ih, fromString, fromString]
    have hsuffix : (34 :: key <:+ 34 :: s ∧ [58, 34] <+: rest) ↔
        (34 :: key <:+ s ∧ [58, 34] <+: rest) := by
      rw [List.suffix_cons_iff, List.cons.injEq]
      constructor
      · rintro ⟨⟨-, rfl⟩ | h, hcolon⟩
        · exact absurd ⟨rfl, hcolon⟩ hhit
        · exact ⟨h, hcolon⟩
      · exact fun ⟨h, hcolon⟩ => ⟨Or.inr h, hcolon⟩
    simp only [hsuffix]

/-- A byte of a string that is no quote. -/
theorem fromString_skip {b : UInt8} (h : b ≠ 34) :
    fromString key (b :: s) rest = fromString key s rest := by
  have hsuffix : 34 :: key <:+ b :: s ↔ 34 :: key <:+ s := by
    rw [List.suffix_cons_iff, List.cons.injEq]
    exact or_iff_right fun heq => h heq.1.symm
  simp only [fromString, hsuffix]

/-- The search through a string. -/
theorem scan_inside (hkey : IsWord key) (hs : Escaped s) (hrest : Closes rest)
    (hvalue : [58, 34] <+: rest → 2 < rest.length) :
    scan key (s ++ 34 :: rest) = fromString key s rest := by
  induction hs with
  | nil =>
    rw [List.nil_append, scan_quote_miss (prefix_closes hkey hrest), fromString, if_neg]
    exact fun h => List.cons_ne_nil _ _ (List.suffix_nil.mp h.1)
  | plain _ hquote _ _ ih =>
    rw [List.cons_append, scan_skip hquote, ih, fromString_skip hquote]
  | @escape c s _ hs ih =>
    rw [List.cons_append, scan_skip (by decide), fromString_skip (by decide), List.cons_append]
    by_cases hc : c = 34
    · rw [hc]
      exact scan_quote hkey hs hvalue ih
    · rw [scan_skip hc, ih, fromString_skip hc]

/-- The search in front of a string with its quotes. -/
theorem scan_quoted (hkey : IsWord key) (name : Written) (hrest : Closes rest)
    (hvalue : [58, 34] <+: rest → 2 < rest.length) :
    scan key (name.quoted ++ rest) = fromString key (34 :: name.bytes) rest := by
  have htext : name.quoted ++ rest = 34 :: (name.bytes ++ 34 :: rest) := by
    rw [Written.quoted, List.cons_append, List.append_assoc]
    rfl
  rw [htext]
  exact scan_quote hkey name.escaped hvalue (scan_inside hkey name.escaped hrest hvalue)

/-! ## The search in a document -/

namespace Json

def string? : Json → Option Written
  | .string s => some s
  | _ => none

/-- A value that holds no other. -/
def isScalar : Json → Bool
  | .array _ => false
  | .object _ => false
  | _ => true

/-- The members of the top level. -/
def members : Json → List (Written × Json)
  | .object members => members
  | _ => []

/-- The string of a member whose name, as it is written with its opening quote,
ends in a quote and the key. -/
def named (key : Bytes) (member : Written × Json) : Option Written :=
  if 34 :: key <:+ 34 :: member.1.bytes then member.2.string? else none

/-- The first such string in the order of the text. -/
def first (key : Bytes) (x : Json) : Option Written := x.entries.findSome? (named key)

end Json

/-- A string up to its first quote. -/
def Written.cut (s : Written) : Bytes := s.bytes.takeWhile (· ≠ 34)

/-- The quote that ends a string ends what is cut. -/
theorem Written.takeWhile_behind (t : Written) :
    (t.bytes ++ 34 :: rest).takeWhile (· ≠ 34) = t.cut := by
  have hstop : (34 :: rest).takeWhile (· ≠ 34) = [] := rfl
  rw [List.takeWhile_append, hstop, List.append_nil, Written.cut]
  split_ifs with hlen
  · exact ((List.takeWhile_prefix _).eq_of_length hlen).symm
  · rfl

/-- A word is cut from a string only if it is all of it. -/
theorem Written.cut_eq_iff (hkey : IsWord key) (t : Written) : t.cut = key ↔ t.bytes = key := by
  constructor
  · exact t.escaped.eq_of_cut hkey.slash_notMem
  · intro heq
    subst heq
    exact List.takeWhile_eq_self_iff.mpr fun b hb =>
      decide_eq_true fun h => hkey.quote_notMem (h ▸ hb)

/-- What may follow a value: nothing, or a comma or a closing bracket. -/
def Follows (rest : Bytes) : Prop := ∀ b, rest.head? = some b → b = 44 ∨ b = 93 ∨ b = 125

theorem Follows.closes (h : Follows rest) : Closes rest := by
  intro b hb
  rcases h b hb with rfl | rfl | rfl <;> decide

theorem Follows.no_colon (h : Follows rest) : ¬[58, 34] <+: rest := by
  rintro ⟨more, rfl⟩
  exact absurd (h 58 rfl) (by decide)

theorem follows_cons {b : UInt8} (h : b = 44 ∨ b = 93 ∨ b = 125) : Follows (b :: rest) := by
  intro b' hb'
  rw [List.head?_cons, Option.some.injEq] at hb'
  exact hb' ▸ h

theorem closes_colon : Closes (58 :: rest) := by
  intro b hb
  rw [List.head?_cons, Option.some.injEq] at hb
  exact Or.inr (Or.inl hb.symm)

/-- Only a string starts with a quote. -/
theorem string_of_quote {x : Json} (h : [34] <+: x.text ++ rest) : ∃ t, x = .string t := by
  have hhead : (x.text ++ rest).head? = some 34 := by
    obtain ⟨more, hmore⟩ := h
    rw [← hmore]
    rfl
  have hne : ∀ b, (x.text ++ rest).head? = some b → b = 34 := fun b hb =>
    Option.some_inj.mp (hb.symm.trans hhead)
  cases x with
  | string t => exact ⟨t, rfl⟩
  | null => exact absurd (hne 110 rfl) (by decide)
  | bool b =>
    cases b with
    | false => exact absurd (hne 102 rfl) (by decide)
    | true => exact absurd (hne 116 rfl) (by decide)
  | number n =>
    obtain ⟨b, tail, hn⟩ := List.exists_cons_of_ne_nil n.nonempty
    have hb : b = 34 := hne b (by rw [Json.text, hn]; rfl)
    exact absurd (n.digits b (hn ▸ List.mem_cons_self)) (by rw [hb]; decide)
  | array items => exact absurd (hne 91 rfl) (by decide)
  | object members => exact absurd (hne 123 rfl) (by decide)

/-- The search through one member. -/
theorem scan_member (hkey : IsWord key) (name : Written) (x : Json) 
    (ih : scan key (x.text ++ rest) = ((x.first key).map Written.cut).or (scan key rest)) :
    scan key (name.quoted ++ 58 :: (x.text ++ rest)) =
      ((((name, x) :: x.entries).findSome? (Json.named key)).map Written.cut).or
        (scan key rest) := by
  by_cases hstring : ∃ t, x = .string t
  · obtain ⟨t, rfl⟩ := hstring
    have htext : 58 :: ((Json.string t).text ++ rest) = [58, 34] ++ (t.bytes ++ 34 :: rest) := by
      rw [Json.text, Written.quoted, List.cons_append, List.append_assoc]
      rfl
    have hlong : 2 < (58 :: ((Json.string t).text ++ rest)).length := by
      rw [htext, List.length_append, List.length_append, List.length_cons, List.length_cons]
      simp only [List.length_cons]
      omega
    rw [scan_quoted hkey name closes_colon fun _ => hlong, fromString]
    by_cases hname : 34 :: key <:+ 34 :: name.bytes
    · rw [if_pos ⟨hname, htext ▸ List.prefix_append _ _⟩, htext]
      simp only [List.findSome?_cons, Json.named, if_pos hname]
      exact congrArg some t.takeWhile_behind
    · rw [if_neg fun h => hname h.1, scan_skip (by decide), ih]
      simp only [List.findSome?_cons, Json.named, if_neg hname]
      rfl
  · have hcolon : ¬[58, 34] <+: 58 :: (x.text ++ rest) := fun h =>
      hstring (string_of_quote (List.cons_prefix_cons.mp h).2)
    have hnamed : Json.named key (name, x) = none := by
      have hnone : x.string? = none := by
        cases x with
        | string t => exact absurd ⟨t, rfl⟩ hstring
        | _ => rfl
      rw [Json.named, hnone, ite_self]
    rw [scan_quoted hkey name closes_colon fun h => absurd h hcolon, fromString,
      if_neg fun h => hcolon h.2, scan_skip (by decide), ih, List.findSome?_cons, hnamed]
    rfl

mutual

/-- The search in front of a value finds what the value holds, and else what
follows. -/
theorem scan_text (hkey : IsWord key) (x : Json) (rest : Bytes) (hrest : Follows rest) :
    scan key (x.text ++ rest) = ((x.first key).map Written.cut).or (scan key rest) := by
  cases x with
  | null => exact scan_skip_append (by decide)
  | bool b => cases b <;> exact scan_skip_append (by decide)
  | number n =>
    exact scan_skip_append fun h => absurd (n.digits 34 h) (by decide)
  | string s =>
    rw [Json.text, scan_quoted hkey s hrest.closes fun h => absurd h hrest.no_colon, fromString,
      if_neg fun h => hrest.no_colon h.2]
    rfl
  | array items =>
    have htext : (Json.array items).text ++ rest =
        91 :: (Json.textItems [] items ++ 93 :: rest) := by
      rw [Json.text, List.cons_append, List.append_assoc]
      rfl
    rw [htext, scan_skip (by decide), scan_textItems hkey [] (by decide) items _
      (follows_cons (Or.inr (Or.inl rfl))), scan_skip (by decide)]
    rfl
  | object members =>
    have htext : (Json.object members).text ++ rest =
        123 :: (Json.textMembers [] members ++ 125 :: rest) := by
      rw [Json.text, List.cons_append, List.append_assoc]
      rfl
    rw [htext, scan_skip (by decide), scan_textMembers hkey [] (by decide) members _
      (follows_cons (Or.inr (Or.inr rfl))), scan_skip (by decide)]
    rfl

theorem scan_textItems (hkey : IsWord key) (sep : Bytes) (hsep : 34 ∉ sep) (items : List Json)
    (rest : Bytes) (hrest : Follows rest) :
    scan key (Json.textItems sep items ++ rest) =
      (((Json.entriesItems items).findSome? (Json.named key)).map Written.cut).or
        (scan key rest) := by
  cases items with
  | nil => rfl
  | cons x items =>
    have htail : Follows (Json.textItems [44] items ++ rest) := by
      cases items with
      | nil => exact hrest
      | cons y items => exact follows_cons (Or.inl rfl)
    rw [Json.textItems, List.append_assoc, List.append_assoc, scan_skip_append hsep,
      scan_text hkey x _ htail, scan_textItems hkey [44] (by decide) items rest hrest,
      Json.entriesItems, List.findSome?_append, Option.map_or, Option.or_assoc]
    rfl

theorem scan_textMembers (hkey : IsWord key) (sep : Bytes) (hsep : 34 ∉ sep)
    (members : List (Written × Json)) (rest : Bytes) (hrest : Follows rest) :
    scan key (Json.textMembers sep members ++ rest) =
      (((Json.entriesMembers members).findSome? (Json.named key)).map Written.cut).or
        (scan key rest) := by
  cases members with
  | nil => rfl
  | cons member members =>
    obtain ⟨name, x⟩ := member
    have htail : Follows (Json.textMembers [44] members ++ rest) := by
      cases members with
      | nil => exact hrest
      | cons m members => exact follows_cons (Or.inl rfl)
    have htext : Json.textMembers sep ((name, x) :: members) ++ rest =
        sep ++ (name.quoted ++ 58 :: (x.text ++ (Json.textMembers [44] members ++ rest))) := by
      simp only [Json.textMembers, List.append_assoc, List.cons_append]
    rw [htext, scan_skip_append hsep,
      scan_member hkey name x (scan_text hkey x _ htail),
      scan_textMembers hkey [44] (by decide) members rest hrest, Json.entriesMembers,
      List.findSome?_append, Option.map_or, Option.or_assoc]

end

/-- The search in the text of a document finds the first string that is named
by the key, up to its first quote. -/
theorem scan_document (hkey : IsWord key) (x : Json) :
    scan key x.text = (x.first key).map Written.cut := by
  have htext := scan_text hkey x [] fun b hb => absurd hb.symm (Option.some_ne_none b)
  rw [List.append_nil] at htext
  exact htext.trans Option.or_none

/-! ## The front of a text -/

/-- Where the first value of a key starts in a text. -/
def valueStart (key text : Bytes) : Nat :=
  (behind (keyPattern key) text).elim text.length fun rest => text.length - rest.length

/-- What the first `k` bytes of the text of a document show of the first value
of a key. -/
def Json.shown (key : Bytes) (x : Json) (k : Nat) : Bytes :=
  (x.first key).elim [] fun s => s.cut.take (k - valueStart key x.text)

theorem scan_getD (key text : Bytes) :
    (scan key text).getD [] = (behind (keyPattern key) text).elim [] (·.takeWhile (· ≠ 34)) := by
  rw [scan]
  rcases behind (keyPattern key) text with _ | rest
  · rfl
  · rw [Option.filter_some, Option.elim_some]
    split_ifs with hrest
    · rfl
    · have hnil : rest = [] := by simpa using hrest
      rw [hnil]
      rfl

theorem takeWhile_comm {α : Type} (p q : α → Bool) (l : List α) :
    (l.takeWhile p).takeWhile q = (l.takeWhile q).takeWhile p := by
  rw [List.takeWhile_takeWhile, List.takeWhile_takeWhile]
  simp only [and_comm]

mutual

/-- No control character stands in the text of a document. -/
theorem Json.le_of_mem_text (x : Json) : ∀ b ∈ x.text, 32 ≤ b := by
  cases x with
  | null => decide +kernel
  | bool b => cases b <;> decide +kernel
  | number n =>
    intro b hb
    have hall : ∀ c ∈ ascii "+-.0123456789Ee", 32 ≤ c := by decide +kernel
    exact hall b (n.digits b hb)
  | string s => exact s.le_of_mem_quoted
  | array items =>
    rw [Json.text, List.forall_mem_cons, List.forall_mem_append]
    exact ⟨by decide +kernel, Json.le_of_mem_textItems [] (by simp) items, by decide +kernel⟩
  | object members =>
    rw [Json.text, List.forall_mem_cons, List.forall_mem_append]
    exact ⟨by decide +kernel, Json.le_of_mem_textMembers [] (by simp) members, by decide +kernel⟩

theorem Json.le_of_mem_textItems (sep : Bytes) (hsep : ∀ b ∈ sep, 32 ≤ b) (items : List Json) :
    ∀ b ∈ Json.textItems sep items, 32 ≤ b := by
  cases items with
  | nil => simp [Json.textItems]
  | cons x items =>
    rw [Json.textItems, List.forall_mem_append, List.forall_mem_append]
    exact ⟨⟨hsep, x.le_of_mem_text⟩, Json.le_of_mem_textItems [44] (by decide +kernel) items⟩

theorem Json.le_of_mem_textMembers (sep : Bytes) (hsep : ∀ b ∈ sep, 32 ≤ b)
    (members : List (Written × Json)) : ∀ b ∈ Json.textMembers sep members, 32 ≤ b := by
  cases members with
  | nil => simp [Json.textMembers]
  | cons member members =>
    obtain ⟨name, x⟩ := member
    rw [Json.textMembers, List.forall_mem_append, List.forall_mem_append, List.forall_mem_append,
      List.forall_mem_cons]
    exact ⟨⟨⟨hsep, name.le_of_mem_quoted⟩, by decide, x.le_of_mem_text⟩,
      Json.le_of_mem_textMembers [44] (by decide +kernel) members⟩

end

theorem nul_notMem_keyPattern (hkey : IsWord key) : 0 ∉ keyPattern key := by
  have hletter : 0 ∉ key := fun hmem => absurd (hkey.letters 0 hmem) (by decide)
  simp [keyPattern, hletter]

theorem shown_eq (hkey : IsWord key) (x : Json) (k : Nat) :
    x.shown key k = (behind (keyPattern key) x.text).elim [] fun rest =>
      (rest.take (k - (x.text.length - rest.length))).takeWhile (· ≠ 34) := by
  have hshown : x.shown key k = ((scan key x.text).getD []).take (k - valueStart key x.text) := by
    rw [scan_document hkey, Json.shown]
    rcases x.first key with _ | s
    · exact List.take_nil.symm
    · rfl
  rw [hshown, scan_getD, valueStart]
  rcases behind (keyPattern key) x.text with _ | rest
  · exact List.take_nil
  · exact List.take_takeWhile

/-- All of the text shows all of the value. -/
theorem shown_length (hkey : IsWord key) (x : Json) :
    x.shown key x.text.length = (x.first key).elim [] Written.cut := by
  have hscan : (x.first key).elim [] Written.cut = (scan key x.text).getD [] := by
    rw [scan_document hkey]
    rcases x.first key with _ | s <;> rfl
  rw [shown_eq hkey, hscan, scan_getD]
  rcases hrest : behind (keyPattern key) x.text with _ | rest
  · rfl
  · have hlength := (behind_suffix hrest).length_le
    rw [List.length_append] at hlength
    rw [Option.elim_some, Option.elim_some, List.take_of_length_le (by omega)]

/-- The search through the front of a text with zeros behind it, read as a C
string. -/
theorem scan_shown (hkey : IsWord key) (x : Json) (k m n : Nat) :
    (((scan key (x.text.take k ++ List.replicate m 0)).getD []).take n).takeWhile (· ≠ 0) =
      (x.shown key k).take n := by
  have hpattern : keyPattern key ≠ [] := List.cons_ne_nil _ _
  rw [← List.take_takeWhile, scan_getD, shown_eq hkey,
    behind_append_replicate hpattern (nul_notMem_keyPattern hkey), behind_take hpattern]
  rcases hrest : behind (keyPattern key) x.text with _ | rest
  · rfl
  · rw [Option.bind_some, Option.elim_some]
    split_ifs with hle
    · have hplain : ∀ b ∈ rest.take (k - (x.text.length - rest.length)), decide (b ≠ 0) = true := by
        intro b hb
        have hmem : b ∈ x.text := (behind_suffix hrest).subset
          (List.mem_append_right _ (List.mem_of_mem_take hb))
        exact decide_eq_true fun hzero => absurd (x.le_of_mem_text b hmem) (by rw [hzero]; decide)
      have hzeros : (List.replicate m (0 : UInt8)).takeWhile (· ≠ 0) = [] := by
        simp
      rw [Option.map_some, Option.elim_some, takeWhile_comm, List.takeWhile_append_of_pos hplain,
        hzeros, List.append_nil]
    · rw [Nat.sub_eq_zero_of_le (by omega)]
      rfl

/-! ## What a string means -/

/-- The code unit of four digits. -/
def codeUnit (a b c d : UInt8) : Option Nat := do
  let a ← hexValue a
  let b ← hexValue b
  let c ← hexValue c
  let d ← hexValue d
  return ((a * 16 + b) * 16 + c) * 16 + d

/-- The byte of an escape with one letter. -/
def shortEscape (c : UInt8) : Option UInt8 :=
  if c = 34 ∨ c = 92 ∨ c = 47 then some c
  else if c = 98 then some 8
  else if c = 102 then some 12
  else if c = 110 then some 10
  else if c = 114 then some 13
  else if c = 116 then some 9
  else none

/-- The UTF-8 bytes of a code point. -/
def utf8 (n : Nat) : Bytes := String.utf8EncodeChar (Char.ofNat n)

/-- The code point of a surrogate pair. -/
def surrogates (high low : Nat) : Nat := 0x10000 + (high - 0xD800) * 1024 + (low - 0xDC00)

/-- The bytes that a string means, or none for a malformed escape or half a
surrogate pair. -/
def unescape : Bytes → Option Bytes
  | [] => some []
  | 92 :: 117 :: a :: b :: c :: d :: s =>
    match codeUnit a b c d with
    | none => none
    | some n =>
      if 0xD800 ≤ n && n < 0xDC00 then
        match s with
        | 92 :: 117 :: a :: b :: c :: d :: s =>
          match codeUnit a b c d with
          | none => none
          | some low =>
            if 0xDC00 ≤ low && low < 0xE000 then (unescape s).map (utf8 (surrogates n low) ++ ·)
            else none
        | _ => none
      else if 0xDC00 ≤ n && n < 0xE000 then none
      else (unescape s).map (utf8 n ++ ·)
  | 92 :: c :: s => (shortEscape c).bind fun b => (unescape s).map (b :: ·)
  | b :: s => (unescape s).map (b :: ·)

/-- Every string of a document means something. -/
def Json.Meaningful (x : Json) : Prop := ∀ s ∈ x.strings, (unescape s.bytes).isSome

/-- A string without a backslash means itself. -/
theorem unescape_plain (h : 92 ∉ s) : unescape s = some s := by
  induction s with
  | nil => rfl
  | cons b s ih =>
    rw [List.mem_cons, not_or] at h
    have hstep : unescape (b :: s) = (unescape s).map (b :: ·) := by
      rw [unescape]
      · intro _ _ _ _ _ heq
        subst heq
        exact absurd rfl h.1
      · intro _ _ heq
        subst heq
        exact absurd rfl h.1
    rw [hstep, ih h.2]
    rfl

theorem Json.meaningful_of_plain {x : Json} (h : ∀ s ∈ x.strings, 92 ∉ s.bytes) :
    x.Meaningful := by
  intro s hs
  rw [unescape_plain (h s hs)]
  rfl

example : unescape (ascii "\\u0072eboot") = some (ascii "reboot") := by decide +kernel

end Winegrid
