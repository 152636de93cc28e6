import OrderProcessing.Json
import Mathlib.Data.List.Sort

/-!
# Payload hashing

`src/utils/hash.ts`: a JSON value is serialized with the properties of each object sorted by key,
and the text is hashed. The create path compares these hashes to tell a replay from a conflict.

## What the platform provides

`Platform` collects the functions of ECMAScript and Node that the program calls and this development
does not define. They are plain functions; what is known of them is a hypothesis where it is used,
except that `toISOString` canonicalizes, which every run relies on.

`JSON.stringify` on a string is defined here, code unit by code unit.

## Implementation notes

The source sorts the entries and then serializes each value. A structural recursion has to serialize
the values first; `stableSerialize_obj` states the source's order of the two, which agree because
the comparator reads only the keys.
-/

namespace OrderProcessing

/-- What the program takes from its platform. -/
structure Platform where
  /-- `createHash('sha256').update(text).digest('hex')`. -/
  sha256 : JsString → JsString
  /-- `a.localeCompare(b)`: negative, zero or positive. -/
  localeCompare : JsString → JsString → ℤ
  /-- `Number.prototype.toString` on a finite number. -/
  numberToString : ℚ → JsString
  /-- `new Date(at).toISOString()`; `none` where it throws a `RangeError`. -/
  toISOString : String → Option String
  /-- What it returns is a date again, and its own canonical form. -/
  toISOString_canonical : ∀ {input text}, toISOString input = some text →
    toISOString text = some text

/-! ### `JSON.stringify` on a string -/

/-- A leading surrogate. -/
def isLead (u : UInt16) : Bool := 0xD800 ≤ u && u ≤ 0xDBFF

/-- A trailing surrogate. -/
def isTrail (u : UInt16) : Bool := 0xDC00 ≤ u && u ≤ 0xDFFF

/-- `text.isWellFormed()`: every surrogate is half of a pair. -/
def isWellFormed : JsString → Bool
  | [] => true
  | [u] => !isLead u && !isTrail u
  | u :: v :: rest =>
    if isLead u && isTrail v then isWellFormed rest
    else !isLead u && !isTrail u && isWellFormed (v :: rest)

/-- A lower case hexadecimal digit. -/
def hexDigit (n : ℕ) : UInt16 := if n < 10 then UInt16.ofNat (48 + n) else UInt16.ofNat (87 + n)

/-- `\uXXXX`. -/
def unicodeEscape (u : UInt16) : JsString :=
  [0x5C, 0x75, hexDigit (u.toNat / 4096), hexDigit (u.toNat / 256 % 16),
    hexDigit (u.toNat / 16 % 16), hexDigit (u.toNat % 16)]

/-- A code unit that is not half of a surrogate pair. -/
def quoteUnit (u : UInt16) : JsString :=
  if u = 0x08 then js "\\b"
  else if u = 0x09 then js "\\t"
  else if u = 0x0A then js "\\n"
  else if u = 0x0C then js "\\f"
  else if u = 0x0D then js "\\r"
  else if u = 0x22 then js "\\\""
  else if u = 0x5C then js "\\\\"
  else if u < 0x20 || isLead u || isTrail u then unicodeEscape u
  else [u]

/-- The inside of the quotes. Only a lead directly followed by a trail is a surrogate pair. -/
def quoteUnits : JsString → JsString
  | [] => []
  | [u] => quoteUnit u
  | u :: v :: rest =>
    if isLead u && isTrail v then u :: v :: quoteUnits rest
    else quoteUnit u ++ quoteUnits (v :: rest)

/-- `JSON.stringify(s)`. -/
def stringify (s : JsString) : JsString := 0x22 :: (quoteUnits s ++ [0x22])

/-! ### Serialization -/

/-- `items.join(',')`. -/
def joinComma (items : List JsString) : JsString := [0x2C].intercalate items

/-- `entries.sort(([a], [b]) => a.localeCompare(b))`, which is stable. -/
def sortEntries {α : Type} (P : Platform) (entries : List (JsString × α)) :
    List (JsString × α) :=
  entries.insertionSort fun a b => P.localeCompare a.1 b.1 ≤ 0

mutual

/-- `stableSerialize`. -/
def stableSerialize (P : Platform) : Json → JsString
  | .null => js "null"
  | .str s => stringify s
  | .num (.finite q) => P.numberToString q
  | .num _ => js "null"
  | .bool b => if b then js "true" else js "false"
  | .arr items => 0x5B :: (joinComma (serializeItems P items) ++ [0x5D])
  | .obj entries =>
    let serialized := joinComma ((sortEntries P (serializeEntries P entries)).map
      fun e => stringify e.1 ++ 0x3A :: e.2)
    0x7B :: (serialized ++ [0x7D])

/-- The items of an array, each serialized. -/
def serializeItems (P : Platform) : List Json → List JsString
  | [] => []
  | v :: items => stableSerialize P v :: serializeItems P items

/-- The properties of an object, in insertion order, each with its value serialized. -/
def serializeEntries (P : Platform) : List (JsString × Json) → List (JsString × JsString)
  | [] => []
  | (k, v) :: entries => (k, stableSerialize P v) :: serializeEntries P entries

end

theorem serializeItems_eq (P : Platform) (items : List Json) :
    serializeItems P items = items.map (stableSerialize P) := by
  induction items with
  | nil => rfl
  | cons v items ih => rw [serializeItems, ih, List.map_cons]

theorem serializeEntries_eq (P : Platform) (entries : List (JsString × Json)) :
    serializeEntries P entries = entries.map fun e => (e.1, stableSerialize P e.2) := by
  induction entries with
  | nil => rfl
  | cons e entries ih => rw [serializeEntries, ih, List.map_cons]

theorem map_fst_serializeEntries (P : Platform) (entries : List (JsString × Json)) :
    (serializeEntries P entries).map Prod.fst = entries.map Prod.fst := by
  rw [serializeEntries_eq, List.map_map]
  rfl

/-- The text of one property. -/
def entryText (P : Platform) (e : JsString × Json) : JsString :=
  stringify e.1 ++ 0x3A :: stableSerialize P e.2

theorem stableSerialize_arr (P : Platform) (items : List Json) :
    stableSerialize P (.arr items)
      = 0x5B :: (joinComma (items.map (stableSerialize P)) ++ [0x5D]) := by
  rw [stableSerialize, serializeItems_eq]

/-- The order of the entries does not depend on the values. -/
theorem sortEntries_serializeEntries (P : Platform) (entries : List (JsString × Json)) :
    sortEntries P (serializeEntries P entries)
      = (sortEntries P entries).map fun e => (e.1, stableSerialize P e.2) := by
  rw [serializeEntries_eq, sortEntries, sortEntries]
  exact (List.map_insertionSort (fun a b : JsString × Json => P.localeCompare a.1 b.1 ≤ 0)
    (fun a b : JsString × JsString => P.localeCompare a.1 b.1 ≤ 0) _ entries
    fun a _ b _ => Iff.rfl).symm

/-- Sorting the entries first and serializing them afterwards, as the source does. -/
theorem stableSerialize_obj (P : Platform) (entries : List (JsString × Json)) :
    stableSerialize P (.obj entries)
      = 0x7B :: (joinComma ((sortEntries P entries).map (entryText P)) ++ [0x7D]) := by
  rw [stableSerialize, sortEntries_serializeEntries, List.map_map]
  rfl

/-- `hashPayload`. -/
def hashPayload (P : Platform) (payload : Json) : JsString := P.sha256 (stableSerialize P payload)

/-- Two texts with one digest are one text. Digests are taken of the UTF-8 encoding, in which all
lone surrogates look the same; so this is about texts without them. -/
def Platform.CollisionFree (P : Platform) : Prop :=
  ∀ {text text' : JsString}, isWellFormed text = true → isWellFormed text' = true →
    P.sha256 text = P.sha256 text' → text = text'

/-- `localeCompare` is a consistent comparison. -/
structure Platform.ConsistentCompare (P : Platform) : Prop where
  swap : ∀ a b, P.localeCompare a b < 0 ↔ 0 < P.localeCompare b a
  trans : ∀ a b c, P.localeCompare a b ≤ 0 → P.localeCompare b c ≤ 0 → P.localeCompare a c ≤ 0

end OrderProcessing
