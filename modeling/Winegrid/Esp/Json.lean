import Winegrid.Lib.JsonText

/-!
# cJSON documents

The part of a cJSON tree that the two ESP-IDF clients look at.  An element of
an array has a NULL name, which is why a child carries an `Option`.
`Json.cjson` is the tree of a JSON document.
-/

namespace Winegrid.Esp

/-- A parsed document.  A number is seen only through `valueint`. -/
inductive CJson where
  | null
  | bool (b : Bool)
  | number (valueint : Int32)
  | string (valuestring : Bytes)
  | array (items : List CJson)
  | object (members : List (Bytes × CJson))

namespace CJson

/-- What `cJSON_ArrayForEach` goes through: `item->string` and `item`. -/
def children : CJson → List (Option Bytes × CJson)
  | array items => items.map fun item => (none, item)
  | object members => members.map fun m => (some m.1, m.2)
  | _ => []

/-- `cJSON_GetObjectItem`: the first child of that name, in any case of its
letters, or NULL. -/
def getObjectItem (json : CJson) (name : Bytes) : Option CJson :=
  match json with
  | object members => (members.find? fun m => strcaseeq name m.1).map Prod.snd
  | _ => none

/-- `valuestring`, when `cJSON_IsString` holds. -/
def string? : CJson → Option Bytes
  | string s => some s
  | _ => none

/-- `valueint`, when `cJSON_IsNumber` holds. -/
def number? : CJson → Option Int32
  | number n => some n
  | _ => none

@[simp] theorem string?_eq_some {json : CJson} {s : Bytes} :
    json.string? = some s ↔ json = string s := by
  cases json <;> simp [string?]

@[simp] theorem number?_eq_some {json : CJson} {n : Int32} :
    json.number? = some n ↔ json = number n := by
  cases json <;> simp [number?]

end CJson

/-! ## The tree of a document -/

/-- `valuestring` of a string as it is written: a C string, so a NUL ends it. -/
def valuestring (s : Written) : Option Bytes :=
  (unescape s.bytes).map fun text => text.takeWhile (· ≠ 0)

mutual

/-- The tree of a document, or none if some string of it means nothing.
`valueint` is what `cJSON` makes of a number. -/
def cjson (valueint : Bytes → Int32) : Json → Option CJson
  | .null => some .null
  | .bool b => some (.bool b)
  | .number n => some (.number (valueint n.bytes))
  | .string s => (valuestring s).map .string
  | .array items => (cjsonItems valueint items).map .array
  | .object members => (cjsonMembers valueint members).map .object

def cjsonItems (valueint : Bytes → Int32) : List Json → Option (List CJson)
  | [] => some []
  | x :: items => do
    let head ← cjson valueint x
    let tail ← cjsonItems valueint items
    return head :: tail

def cjsonMembers (valueint : Bytes → Int32) : List (Written × Json) → Option (List (Bytes × CJson))
  | [] => some []
  | (name, x) :: members => do
    let string ← valuestring name
    let head ← cjson valueint x
    let tail ← cjsonMembers valueint members
    return (string, head) :: tail

end

variable {valueint : Bytes → Int32}

theorem valuestring_isSome (s : Written) :
    (valuestring s).isSome = (unescape s.bytes).isSome := Option.isSome_map

mutual

/-- A document has a tree if and only if all its strings mean something. -/
theorem cjson_isSome (x : Json) : (cjson valueint x).isSome ↔ x.Meaningful := by
  cases x with
  | string s =>
    rw [cjson, Option.isSome_map, valuestring_isSome, Json.Meaningful, Json.strings,
      List.forall_mem_singleton]
  | array items =>
    rw [cjson, Option.isSome_map]
    exact cjsonItems_isSome items
  | object members =>
    rw [cjson, Option.isSome_map]
    exact cjsonMembers_isSome members
  | _ => exact ⟨fun _ _ h => absurd h List.not_mem_nil, fun _ => rfl⟩

theorem cjsonItems_isSome (items : List Json) : (cjsonItems valueint items).isSome ↔
    ∀ s ∈ Json.stringsItems items, (unescape s.bytes).isSome := by
  cases items with
  | nil => exact ⟨fun _ _ h => absurd h List.not_mem_nil, fun _ => rfl⟩
  | cons x items =>
    rw [Json.stringsItems, List.forall_mem_append, ← cjsonItems_isSome items]
    have hx := cjson_isSome x
    unfold Json.Meaningful at hx
    rw [← hx, cjsonItems]
    rcases cjson valueint x with _ | head
    · simp
    · rcases cjsonItems valueint items with _ | tail <;> simp

theorem cjsonMembers_isSome (members : List (Written × Json)) :
    (cjsonMembers valueint members).isSome ↔
      ∀ s ∈ Json.stringsMembers members, (unescape s.bytes).isSome := by
  cases members with
  | nil => exact ⟨fun _ _ h => absurd h List.not_mem_nil, fun _ => rfl⟩
  | cons member members =>
    obtain ⟨name, x⟩ := member
    rw [Json.stringsMembers, List.cons_append, List.forall_mem_cons, List.forall_mem_append,
      ← cjsonMembers_isSome members, ← valuestring_isSome]
    have hx := cjson_isSome x
    unfold Json.Meaningful at hx
    rw [← hx, cjsonMembers]
    rcases valuestring name with _ | string
    · simp
    · rcases cjson valueint x with _ | head
      · simp
      · rcases cjsonMembers valueint members with _ | tail <;> simp

end

/-- The string of the first member of that name, in any case of its letters. -/
def stringNamed (name : Bytes) (members : List (Written × Json)) : Option Bytes :=
  (members.find? fun m => (valuestring m.1).any (strcaseeq name)).bind fun m =>
    m.2.string?.bind valuestring

theorem cjson_string? {x : Json} {json : CJson} (h : cjson valueint x = some json) :
    json.string? = x.string?.bind valuestring := by
  cases x with
  | string s =>
    obtain ⟨text, htext, rfl⟩ := Option.map_eq_some_iff.mp h
    exact htext.symm
  | array items =>
    obtain ⟨items, -, rfl⟩ := Option.map_eq_some_iff.mp h
    rfl
  | object members =>
    obtain ⟨members, -, rfl⟩ := Option.map_eq_some_iff.mp h
    rfl
  | _ =>
    obtain rfl := Option.some_inj.mp h
    rfl

theorem cjsonMembers_cons {name : Written} {x : Json} {members : List (Written × Json)}
    {tree : List (Bytes × CJson)} (h : cjsonMembers valueint ((name, x) :: members) = some tree) :
    ∃ string head tail, valuestring name = some string ∧ cjson valueint x = some head ∧
      cjsonMembers valueint members = some tail ∧ tree = (string, head) :: tail := by
  simp only [cjsonMembers, Option.bind_eq_bind, Option.bind_eq_some_iff] at h
  obtain ⟨string, hstring, head, hhead, tail, htail, htree⟩ := h
  exact ⟨string, head, tail, hstring, hhead, htail, (Option.some_inj.mp htree).symm⟩

/-- What `cJSON_GetObjectItem` finds in the tree of a document. -/
theorem getObjectItem_members {members : List (Written × Json)} {tree : List (Bytes × CJson)}
    (h : cjsonMembers valueint members = some tree) (name : Bytes) :
    ((CJson.object tree).getObjectItem name).bind CJson.string? = stringNamed name members := by
  induction members generalizing tree with
  | nil =>
    obtain rfl := Option.some_inj.mp h
    rfl
  | cons member members ih =>
    obtain ⟨string, head, tail, hstring, hhead, htail, rfl⟩ := cjsonMembers_cons h
    have hrest := ih htail
    simp only [CJson.getObjectItem, stringNamed, List.find?_cons, hstring, Option.any_some]
      at hrest ⊢
    rcases strcaseeq name string with _ | _
    · exact hrest
    · exact cjson_string? hhead

theorem getObjectItem_cjson {x : Json} {root : CJson} (h : cjson valueint x = some root)
    (name : Bytes) : (root.getObjectItem name).bind CJson.string? = stringNamed name x.members := by
  cases x with
  | object members =>
    obtain ⟨tree, htree, rfl⟩ := Option.map_eq_some_iff.mp h
    exact getObjectItem_members htree name
  | string s =>
    obtain ⟨text, -, rfl⟩ := Option.map_eq_some_iff.mp h
    rfl
  | array items =>
    obtain ⟨items, -, rfl⟩ := Option.map_eq_some_iff.mp h
    rfl
  | _ =>
    obtain rfl := Option.some_inj.mp h
    rfl

end Winegrid.Esp
