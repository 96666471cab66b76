import Winegrid.Lib.Memory
import Winegrid.Zephyr.Extract

/-!
# The string extractor on its arrays

`json_extract_string` with its indices: the search with `memcmp`, the search
for the closing quote, and the copy into `out`.

* `jsonExtractString_arrays`: with a key that fits the pattern, every access
  stays inside its array, and the result is the one of `Winegrid.Zephyr.Client`.
* `FlatObject` is a flat object whose strings need no escapes.
* `jsonExtractString_flat`: on the text of a flat object the function finds the
  string of the key, and nothing else.
-/

namespace Winegrid.Zephyr

/-! ## The function -/

namespace Arrays

/-- `sizeof(pattern)`. -/
def patternSize : Nat := 40

/-- The loop to the closing quote: where `end` stops. -/
def findQuote (json : Bytes) (jsonLen stop : Nat) : Option Nat :=
  if stop < jsonLen then do
    let c ← load json stop
    if c ≠ 34 then findQuote json jsonLen (stop + 1) else some stop
  else some stop
termination_by jsonLen - stop

/-- The search loop from `i` on: what is returned, and what `out` holds then. -/
def search (json : Bytes) (jsonLen : Nat) (pattern : Bytes) (patternLen : Nat) (out : Bytes)
    (outSize i : Nat) : Option (Bool × Bytes) :=
  if i + patternLen < jsonLen then do
    let equal ← memcmp json i pattern patternLen
    if equal then
      let start := i + patternLen
      let stop ← findQuote json jsonLen start
      let len := if outSize ≤ stop - start then outSize - 1 else stop - start
      let copied ← memcpy out json start len
      let terminated ← store copied len 0
      return (true, terminated)
    else search json jsonLen pattern patternLen out outSize (i + 1)
  else some (false, out)
termination_by jsonLen - i

/-- `json_extract_string`.  `snprintf` answers the length of the whole pattern,
and stores what fits. -/
def jsonExtractString (json : Bytes) (jsonLen : Nat) (key out : Bytes) (outSize : Nat) :
    Option (Bool × Bytes) :=
  let text := [34] ++ key ++ ascii "\":\""
  let pattern := snprintf patternSize text ++ [0]
  if text.length = 0 ∨ jsonLen ≤ text.length then some (false, out)
  else search json jsonLen pattern text.length out outSize 0

/-- What the function is to return and leave in `out`. -/
def answer (out : Bytes) (found : Option Bytes) : Bool × Bytes :=
  found.elim (false, out) fun s => (true, s ++ 0 :: out.drop (s.length + 1))

/-! ## The accesses -/

variable {text pattern out : Bytes} {outSize : Nat}

/-- The loop stops at the next quote, or at the end of the text. -/
theorem findQuote_eq (front rest : Bytes) :
    findQuote (front ++ rest) (front ++ rest).length front.length =
      some (front.length + (rest.takeWhile (· ≠ 34)).length) := by
  induction rest generalizing front with
  | nil =>
    rw [findQuote, if_neg (by simp)]
    rfl
  | cons c rest ih =>
    have hlt : front.length < (front ++ c :: rest).length := by simp
    rw [findQuote, if_pos hlt, load_eq]
    show (if c ≠ 34 then _ else _) = _
    by_cases hc : c = 34
    · rw [if_neg (not_not.mpr hc), List.takeWhile_cons_of_neg (by simpa using hc)]
      rfl
    · have hlen : (front ++ [c]).length = front.length + 1 := List.length_append
      have hnext := ih (front ++ [c])
      rw [List.append_assoc, List.singleton_append, hlen] at hnext
      rw [if_pos hc, hnext, List.takeWhile_cons_of_pos (by simpa using hc), List.length_cons]
      exact congrArg some (by omega)

/-- The copy: the value up to its quote, as far as it fits. -/
theorem copy_eq (front rest : Bytes) (hsize : 1 ≤ outSize) (hout : outSize ≤ out.length) :
    let value := rest.takeWhile (· ≠ 34)
    let len := if outSize ≤ value.length then outSize - 1 else value.length
    ((memcpy out (front ++ rest) front.length len).bind fun copied => store copied len 0) =
      some (value.take (outSize - 1) ++ 0 :: out.drop ((value.take (outSize - 1)).length + 1)) := by
  intro value len
  have hlen : len = (value.take (outSize - 1)).length := by
    show (if outSize ≤ value.length then outSize - 1 else value.length) = _
    rw [List.length_take]
    split_ifs <;> omega
  have hfits : (value.take (outSize - 1)).length < out.length := by
    have hle := List.length_take_le (outSize - 1) value
    omega
  -- The value and what is left of it stand at the front of `rest`.
  have hrest : rest = value.take (outSize - 1) ++
      (value.drop (outSize - 1) ++ rest.dropWhile (· ≠ 34)) := by
    rw [← List.append_assoc, List.take_append_drop, List.takeWhile_append_dropWhile]
  rw [hlen]
  conv_lhs => rw [hrest]
  rw [memcpy_eq (Nat.le_of_lt hfits), Option.bind_some, store_eq 0 hfits]

/-- The search is the one over the rest of the text. -/
theorem search_eq (htext : text ≠ []) (hpattern : text <+: pattern) (hsize : 1 ≤ outSize)
    (hout : outSize ≤ out.length) (front rest : Bytes) :
    search (front ++ rest) (front ++ rest).length pattern text.length out outSize front.length =
      some (answer out (extractFrom text outSize rest)) := by
  induction rest generalizing front with
  | nil =>
    rw [search, if_neg (by simp), extractFrom_short (Nat.zero_le _)]
    rfl
  | cons c rest ih =>
    by_cases hroom : text.length < (c :: rest).length
    · have hlt : front.length + text.length < (front ++ c :: rest).length := by
        rw [List.length_append]
        omega
      rw [search, if_pos hlt, memcmp_eq hpattern (Nat.le_of_lt hroom)]
      cases hstarts : startsWith (c :: rest) text with
      | false =>
        have hlen : (front ++ [c]).length = front.length + 1 := List.length_append
        have hnext := ih (front ++ [c])
        rw [List.append_assoc, List.singleton_append, hlen] at hnext
        rw [extractFrom_skip hstarts]
        exact hnext
      | true =>
        obtain ⟨tail, htail⟩ := startsWith_iff.mp hstarts
        have htailne : tail ≠ [] := by
          intro hnil
          rw [← htail, hnil, List.append_nil] at hroom
          exact absurd hroom (Nat.lt_irrefl _)
        have hquote := findQuote_eq (front ++ text) tail
        obtain ⟨copied, hcopied, hstored⟩ :=
          Option.bind_eq_some_iff.mp (copy_eq (front ++ text) tail hsize hout)
        have hstart : (front ++ text).length = front.length + text.length := List.length_append
        rw [List.append_assoc, htail, hstart] at hquote hcopied
        rw [← htail, extractFrom_hit htext htailne, htail]
        show ((findQuote (front ++ c :: rest) (front ++ c :: rest).length
          (front.length + text.length)).bind _) = _
        rw [hquote, Option.bind_some]
        simp only [Nat.add_sub_cancel_left, hcopied, hstored, Option.bind_eq_bind,
          Option.bind_some]
        rfl
    · rw [search, if_neg, extractFrom_short (by omega)]
      · rfl
      · rw [List.length_append]
        omega

/-- With a key that fits the pattern, every access stays inside. -/
theorem jsonExtractString_arrays {key : Bytes} (hkey : key.length ≤ 35) (hsize : 1 ≤ outSize)
    (hout : outSize ≤ out.length) (json : Bytes) :
    jsonExtractString json json.length key out outSize =
      some (answer out (Zephyr.jsonExtractString json key outSize)) := by
  have hlength := keyPattern_length key
  have hfits : snprintf patternSize (keyPattern key) = keyPattern key := by
    refine List.take_of_length_le ?_
    show _ ≤ 40 - 1
    omega
  show (if (keyPattern key).length = 0 ∨ json.length ≤ (keyPattern key).length then _
      else search json json.length (snprintf patternSize (keyPattern key) ++ [0])
        (keyPattern key).length out outSize 0) =
    some (answer out (if json.length ≤ (keyPattern key).length then none
      else extractFrom (keyPattern key) outSize json))
  rw [hfits]
  by_cases hshort : json.length ≤ (keyPattern key).length
  · rw [if_pos (Or.inr hshort), if_pos hshort]
    rfl
  · rw [if_neg fun h => h.elim (by omega) hshort, if_neg hshort]
    exact search_eq (List.cons_ne_nil _ _) (List.prefix_append _ _) hsize hout [] json

end Arrays

/-! ## Flat objects -/

/-- The members of a flat object: distinct names, values that are strings,
numbers, `true`, `false` or `null`, and strings without quotes and
backslashes. -/
structure FlatObject (members : List (Written × Json)) : Prop where
  distinct : (members.map fun m => m.1.bytes).Nodup
  flat : ∀ m ∈ members, m.2.isScalar
  plain : ∀ s ∈ (Json.object members).strings, 34 ∉ s.bytes ∧ 92 ∉ s.bytes

variable {members : List (Written × Json)} {key : Bytes}

/-- A scalar has no members. -/
theorem entriesMembers_flat (h : ∀ m ∈ members, m.2.isScalar) :
    Json.entriesMembers members = members := by
  induction members with
  | nil => rfl
  | cons m members ih =>
    obtain ⟨name, x⟩ := m
    have hscalar : x.isScalar := h (name, x) List.mem_cons_self
    have hnone : x.entries = [] := by
      cases x with
      | array items => cases hscalar
      | object members => cases hscalar
      | _ => rfl
    rw [Json.entriesMembers, hnone, List.singleton_append,
      ih fun m hm => h m (List.mem_cons_of_mem _ hm)]

/-- The name of a member is one of the strings, and so is its value. -/
theorem name_mem_strings {m : Written × Json} (hm : m ∈ members) :
    m.1 ∈ (Json.object members).strings ∧ ∀ s ∈ m.2.strings, s ∈ (Json.object members).strings := by
  show m.1 ∈ Json.stringsMembers members ∧ ∀ s ∈ m.2.strings, s ∈ Json.stringsMembers members
  induction members with
  | nil => cases hm
  | cons n members ih =>
    obtain ⟨name, x⟩ := n
    rw [Json.stringsMembers]
    rcases List.mem_cons.mp hm with heq | htail
    · subst heq
      exact ⟨List.mem_cons_self, fun s hs =>
        List.mem_cons_of_mem _ (List.mem_append_left _ hs)⟩
    · obtain ⟨hname, hvalue⟩ := ih htail
      exact ⟨List.mem_cons_of_mem _ (List.mem_append_right _ hname), fun s hs =>
        List.mem_cons_of_mem _ (List.mem_append_right _ (hvalue s hs))⟩

/-- In a flat object a member is named by the key only if the key is its
name. -/
theorem named_flat {m : Written × Json} (hquote : 34 ∉ m.1.bytes) :
    Json.named key m = if m.1.bytes = key then m.2.string? else none := by
  have hiff : 34 :: key <:+ 34 :: m.1.bytes ↔ m.1.bytes = key := by
    rw [List.suffix_cons_iff, List.cons.injEq]
    constructor
    · intro h
      rcases h with heq | hinner
      · exact heq.2.symm
      · exact absurd (hinner.subset List.mem_cons_self) hquote
    · exact fun heq => Or.inl ⟨rfl, heq.symm⟩
  simp only [Json.named, hiff]

/-- The string of the key, which no other member is named by. -/
theorem first_flat (h : FlatObject members) {name s : Written}
    (hmem : (name, Json.string s) ∈ members) :
    (Json.object members).first name.bytes = some s := by
  have hplain : ∀ m ∈ members, 34 ∉ m.1.bytes := fun m hm =>
    (h.plain m.1 (name_mem_strings hm).1).1
  have hdistinct := h.distinct
  show (Json.entriesMembers members).findSome? (Json.named name.bytes) = some s
  rw [entriesMembers_flat h.flat]
  obtain ⟨before, after, hsplit⟩ := List.append_of_mem hmem
  have hself : Json.named name.bytes (name, .string s) = some s := by
    rw [named_flat (hplain _ hmem), if_pos rfl]
    rfl
  subst hsplit
  have hbefore : before.findSome? (Json.named name.bytes) = none := by
    refine List.findSome?_eq_none_iff.mpr fun m hm => ?_
    rw [named_flat (hplain m (List.mem_append_left _ hm)), if_neg]
    intro hsame
    rw [List.map_append, List.map_cons] at hdistinct
    exact (List.nodup_append.mp hdistinct).2.2 _ (List.mem_map_of_mem hm) _ List.mem_cons_self hsame
  rw [List.findSome?_append, hbefore, Option.none_or, List.findSome?_cons, hself]

/-- No member has the key for its name and a string for its value. -/
theorem first_absent (h : FlatObject members)
    (habsent : ∀ name s, (name, Json.string s) ∈ members → name.bytes ≠ key) :
    (Json.object members).first key = none := by
  show (Json.entriesMembers members).findSome? (Json.named key) = none
  rw [entriesMembers_flat h.flat]
  refine List.findSome?_eq_none_iff.mpr fun m hm => ?_
  obtain ⟨name, x⟩ := m
  rw [named_flat (h.plain name (name_mem_strings hm).1).1]
  split_ifs with hname
  · cases x with
    | string s => exact absurd hname (habsent name s hm)
    | _ => rfl
  · rfl

/-- On the text of a flat object all accesses stay inside their arrays.  The
function returns true with the string of the key when that fits, and false with
`out` as it was when there is no such string. -/
theorem jsonExtractString_flat (h : FlatObject members) (hkey : IsWord key)
    (hlen : key.length ≤ 35) {out : Bytes} {outSize : Nat} (hsize : 1 ≤ outSize)
    (hout : outSize ≤ out.length) :
    let text := (Json.object members).text
    ∃ ok left, Arrays.jsonExtractString text text.length key out outSize = some (ok, left) ∧
      (∀ name s, (name, Json.string s) ∈ members → name.bytes = key →
        s.bytes.length < outSize →
        ok = true ∧ left = s.bytes ++ 0 :: out.drop (s.bytes.length + 1)) ∧
      ((∀ name s, (name, Json.string s) ∈ members → name.bytes ≠ key) →
        ok = false ∧ left = out) := by
  intro text
  have harrays := Arrays.jsonExtractString_arrays hlen hsize hout text
  rw [jsonExtractString_text hkey] at harrays
  refine ⟨_, _, harrays, ?_, ?_⟩
  · intro name s hmem hname hfits
    have hquote : 34 ∉ s.bytes := (h.plain s ((name_mem_strings hmem).2 s List.mem_cons_self)).1
    have hcut : s.cut = s.bytes := List.takeWhile_eq_self_iff.mpr fun b hb =>
      decide_eq_true fun heq => hquote (heq ▸ hb)
    have htake : s.cut.take (outSize - 1) = s.bytes := by
      rw [hcut]
      exact List.take_of_length_le (by omega)
    rw [← hname, first_flat h hmem, Option.map_some, htake]
    exact ⟨rfl, rfl⟩
  · intro habsent
    rw [first_absent h habsent]
    exact ⟨rfl, rfl⟩

/-- `{"kind":"state","state":"ready","load":null}`. -/
def sampleMembers : List (Written × Json) :=
  [ (⟨ascii "kind", escaped_plain (by decide +kernel)⟩,
      .string ⟨ascii "state", escaped_plain (by decide +kernel)⟩)
  , (⟨ascii "state", escaped_plain (by decide +kernel)⟩,
      .string ⟨ascii "ready", escaped_plain (by decide +kernel)⟩)
  , (⟨ascii "load", escaped_plain (by decide +kernel)⟩, .null) ]

/-- The value that reads like the key is not taken for it. -/
theorem jsonExtractString_flat_sample :
    let text := (Json.object sampleMembers).text
    Arrays.jsonExtractString text text.length (ascii "state") (List.replicate 32 255) 32 =
      some (true, ascii "ready" ++ 0 :: List.replicate 26 255) := by
  intro text
  have hflat : FlatObject sampleMembers :=
    ⟨by decide +kernel, by decide +kernel, by decide +kernel⟩
  have hkey : IsWord (ascii "state") := ⟨by decide, by decide +kernel⟩
  obtain ⟨ok, left, hrun, hfound, -⟩ := jsonExtractString_flat hflat hkey (by decide)
    (show 1 ≤ 32 by decide) (show 32 ≤ (List.replicate 32 255 : Bytes).length by decide)
  obtain ⟨hok, hleft⟩ := hfound _ _ (List.mem_cons_of_mem _ List.mem_cons_self) rfl (by decide)
  rw [hok, hleft] at hrun
  exact hrun

end Winegrid.Zephyr
