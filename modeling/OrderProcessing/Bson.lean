import OrderProcessing.ForMathlib.Assign
import OrderProcessing.Hash
import OrderProcessing.Order

/-!
# What the database keeps

A document is stored as BSON, which is not JSON: a string is stored as UTF-8, where a lone surrogate
has no place, and a property that is `undefined` is stored as `null`. So what is read back may
differ from what was written. `stored` is what is read back.

## Lone surrogates

The encoder writes U+FFFD for a surrogate that is not half of a pair, in strings and in keys. Two
keys of one object may so become one; reading the document assigns them one after another.

## What is stored as it is

Numbers, and everything that is no client's text: identifiers, digests, timestamps. A request id
comes from a header, which cannot hold a surrogate.

## What is deliberately absent

The driver reads an object with `$ref` and `$id` as a `DBRef`, whose JSON is that of the object with
these two in front. The items of a stored order are turned into JSON and never looked into. And it
refuses to write some objects (a key with a NUL, a property `_bsontype`); this is one of the ways in
which an operation fails.

## Main definitions

* `toWellFormed`, `Json.stored`
* `OrderItem.stored`, `ShipmentMetadata.stored`, `OrderRecord.stored`

## Main results

* `toWellFormed_of_isWellFormed` — a string without lone surrogates is stored as it is
* `Json.get?_stored` — the properties that the program reads keep their names
-/

namespace OrderProcessing

open Assign

/-! ### Strings -/

/-- A code unit that is not half of a surrogate pair. -/
def replaceLone (u : UInt16) : UInt16 := if isLead u || isTrail u then 0xFFFD else u

/-- `text.toWellFormed()`: lone surrogates are replaced. -/
def toWellFormed : JsString → JsString
  | [] => []
  | [u] => [replaceLone u]
  | u :: v :: rest =>
    if isLead u && isTrail v then u :: v :: toWellFormed rest
    else replaceLone u :: toWellFormed (v :: rest)

theorem toWellFormed_of_isWellFormed {s : JsString} (h : isWellFormed s = true) :
    toWellFormed s = s := by
  induction s using toWellFormed.induct with
  | case1 => rfl
  | case2 u =>
    simp only [isWellFormed, Bool.and_eq_true, Bool.not_eq_true'] at h
    simp [toWellFormed, replaceLone, h.1, h.2]
  | case3 u v rest hpair ih =>
    rw [isWellFormed, if_pos hpair] at h
    rw [toWellFormed, if_pos hpair, ih h]
  | case4 u v rest hpair ih =>
    rw [isWellFormed, if_neg hpair] at h
    simp only [Bool.and_eq_true, Bool.not_eq_true'] at h
    rw [toWellFormed, if_neg hpair, ih h.2]
    simp [replaceLone, h.1.1, h.1.2]

@[simp] theorem toWellFormed_eq_nil_iff {s : JsString} : toWellFormed s = [] ↔ s = [] := by
  induction s using toWellFormed.induct with
  | case1 => simp [toWellFormed]
  | case2 u => simp [toWellFormed]
  | case3 u v rest hpair ih => simp [toWellFormed, hpair]
  | case4 u v rest hpair ih => simp [toWellFormed, hpair]

/-- Where no replacement shows, there was none. -/
theorem eq_of_toWellFormed_eq {s t : JsString} (ht : 0xFFFD ∉ t) (h : toWellFormed s = t) :
    s = t := by
  subst h
  have hunit : ∀ {u : UInt16}, replaceLone u ≠ 0xFFFD → u = replaceLone u := by
    intro u hu
    rw [replaceLone] at hu ⊢
    split at hu
    · exact absurd rfl hu
    · next hlone => rw [if_neg hlone]
  induction s using toWellFormed.induct with
  | case1 => rfl
  | case2 u =>
    simp only [toWellFormed, List.mem_singleton] at ht ⊢
    rw [← hunit (Ne.symm ht)]
  | case3 u v rest hpair ih =>
    simp only [toWellFormed, hpair, if_true, List.mem_cons, not_or] at ht ⊢
    rw [← ih ht.2.2]
  | case4 u v rest hpair ih =>
    rw [toWellFormed, if_neg hpair, List.mem_cons, not_or] at ht
    rw [toWellFormed, if_neg hpair, ← ih ht.2, ← hunit (Ne.symm ht.1)]

/-! ### Values -/

namespace Json

mutual

/-- The value that is read back. -/
def stored : Json → Json
  | .str s => .str (toWellFormed s)
  | .arr items => .arr (storedItems items)
  | .obj entries => .obj (assign (storedEntries entries))
  | v => v

/-- The items of an array. -/
def storedItems : List Json → List Json
  | [] => []
  | v :: items => v.stored :: storedItems items

/-- The properties of an object, before they are assigned. -/
def storedEntries : List (JsString × Json) → List (JsString × Json)
  | [] => []
  | (k, v) :: entries => (toWellFormed k, v.stored) :: storedEntries entries

end

theorem storedItems_eq (items : List Json) : storedItems items = items.map stored := by
  induction items with
  | nil => rfl
  | cons v items ih => rw [storedItems, ih, List.map_cons]

theorem storedEntries_eq (entries : List (JsString × Json)) :
    storedEntries entries = entries.map fun e => (toWellFormed e.1, e.2.stored) := by
  induction entries with
  | nil => rfl
  | cons e entries ih => rw [storedEntries, ih, List.map_cons]

/-- What is read back has no key twice. -/
theorem distinctKeys_stored (v : Json) : v.stored.distinctKeys = true := by
  induction v using Json.induction with
  | arr items ih =>
    rw [stored, storedItems_eq, distinctKeys, distinctKeysItems_iff]
    rintro w hw
    obtain ⟨v, hv, rfl⟩ := List.mem_map.mp hw
    exact ih v hv
  | obj entries ih =>
    rw [stored, storedEntries_eq, distinctKeys, Bool.and_eq_true, distinctKeysEntries_iff]
    refine ⟨decide_eq_true (nodup_keys _), fun e he => ?_⟩
    obtain ⟨e', he', rfl⟩ := List.mem_map.mp (mem_of_mem_assign he)
    exact ih e' he'
  | _ => rfl

/-- A property whose name shows no replacement keeps its name. -/
theorem get?_stored {v : Json} (hv : v.distinctKeys = true) {key : JsString} (hkey : 0xFFFD ∉ key)
    (hstored : toWellFormed key = key) : v.stored.get? key = (v.get? key).map stored := by
  cases v with
  | obj entries =>
    rw [distinctKeys, Bool.and_eq_true, decide_eq_true_iff] at hv
    have hapart : ∀ k, toWellFormed k = toWellFormed key → k = key := fun k hk =>
      eq_of_toWellFormed_eq hkey (hk.trans hstored)
    have hlookup := lookup_assign_map (g := stored) hapart hv.1
    rw [hstored] at hlookup
    rw [stored, storedEntries_eq, get?, get?, hlookup]
  | _ => rfl

/-- The value that is read back for a property; `undefined` is stored as `null`. -/
def storedProperty : Option Json → Json
  | none => .null
  | some v => v.stored

@[simp] theorem truthy_storedProperty (v : Option Json) :
    truthy (some (storedProperty v)) = truthy v := by
  cases v with
  | none => rfl
  | some v => cases v <;> simp [storedProperty, stored, truthy]

end Json

/-! ### Orders -/

/-- A line of an order, as it is read back. -/
def OrderItem.stored (item : OrderItem) : OrderItem where
  json := item.json.stored
  sku := toWellFormed item.sku
  qty := item.qty
  sku_eq := by
    rw [Json.get?_stored item.distinct (by decide) (by decide), item.sku_eq]
    rfl
  qty_eq := by
    rw [Json.get?_stored item.distinct (by decide) (by decide), item.qty_eq]
    rfl
  distinct := item.json.distinctKeys_stored

/-- The metadata of a shipment, as they are read back. -/
def ShipmentMetadata.stored (metadata : ShipmentMetadata) : ShipmentMetadata where
  shipmentId := some (Json.storedProperty metadata.shipmentId)
  state := some (Json.storedProperty metadata.state)
  requestedAt := metadata.requestedAt

/-- The document that is read back. -/
def OrderRecord.stored (order : OrderRecord) : OrderRecord :=
  { order with
    customerId := toWellFormed order.customerId
    items := order.items.map OrderItem.stored
    shipment := order.shipment.map ShipmentMetadata.stored }

namespace OrderRecord

@[simp] theorem stored_id (order : OrderRecord) : order.stored.id = order.id := rfl

@[simp] theorem stored_requestId (order : OrderRecord) :
    order.stored.requestId = order.requestId := rfl

/-- Metadata that are read back name a shipment if they did when they were written. -/
theorem hasShipment_of_eq_stored {order : OrderRecord} {metadata : ShipmentMetadata}
    (h : order.shipment = some metadata.stored) :
    order.hasShipment = Json.truthy metadata.shipmentId := by
  rw [hasShipment, h, Option.bind_some, ShipmentMetadata.stored, Json.truthy_storedProperty]

end OrderRecord

end OrderProcessing
