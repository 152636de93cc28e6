import OrderProcessing.Bson
import OrderProcessing.ForMathlib.UpdateFirst

/-!
# The order repository

`src/repositories/order-repository.ts` over a MongoDB collection. Each method is one single-document
operation, which MongoDB runs atomically, so each is one function here; the interleaving of several
callers happens between these functions and never inside one.

A lookup reads a document back, which need not be what was written: `create` and the shipment write
take client text and Delivery's answer to the form in which BSON keeps them. The other values that
are written are identifiers, timestamps and numbers.

## The collection

`Collection` carries the two unique indexes that `init` creates. An `insertOne` that would break one
of them is rejected with a duplicate key error and changes nothing. The two updates set neither `id`
nor `requestId`, so they keep the indexes.

## Main results

`findById` is the observation everything else is stated through. For each operation there is one
lemma that says what `findById` answers afterwards:

* `findById_create`, `findById_appendStatusEvent`, `findById_updateShipmentMetadata`
* `appendStatusEvent_eq_some_iff` — the conditional write succeeds exactly when the filter matches
-/

namespace OrderProcessing

open UpdateFirst

/-- The `orders` collection, with its unique indexes on `id` and `requestId`. -/
@[ext]
structure Collection where
  docs : List OrderRecord
  id_nodup : (docs.map OrderRecord.id).Nodup
  requestId_nodup : (docs.map OrderRecord.requestId).Nodup

namespace Collection

/-- The collection of a fresh database. -/
def empty : Collection := ⟨[], List.nodup_nil, List.nodup_nil⟩

/-- `findOneAndUpdate` and `updateOne`: the first matching document is replaced. -/
def update (c : Collection) (filter : OrderRecord → Bool) (f : OrderRecord → OrderRecord)
    (hid : ∀ o, (f o).id = o.id) (hreq : ∀ o, (f o).requestId = o.requestId) : Collection where
  docs := updateFirst filter f c.docs
  id_nodup := by rw [map_updateFirst OrderRecord.id hid]; exact c.id_nodup
  requestId_nodup := by rw [map_updateFirst OrderRecord.requestId hreq]; exact c.requestId_nodup

end Collection

namespace OrderRepository

/-- `findByRequestId`. -/
def findByRequestId (c : Collection) (requestId : String) : Option OrderRecord :=
  c.docs.find? fun o => o.requestId = requestId

/-- `findById`. -/
def findById (c : Collection) (orderId : String) : Option OrderRecord :=
  c.docs.find? fun o => o.id = orderId

/-- `create`: `insertOne`, which a unique index may reject. The method returns the order that it was
given, not the document. -/
def create (c : Collection) (order : OrderRecord) : Option Collection :=
  if h : order.id ∉ c.docs.map OrderRecord.id ∧
      order.requestId ∉ c.docs.map OrderRecord.requestId then
    some
      { docs := c.docs ++ [order.stored]
        id_nodup := by
          rw [List.map_append]
          exact c.id_nodup.append (by simp) (by simpa using h.1)
        requestId_nodup := by
          rw [List.map_append]
          exact c.requestId_nodup.append (by simp) (by simpa using h.2) }
  else none

/-- The filter of the conditional write: the id, the version that was read, and the event id not in
the history. -/
def appendFilter (orderId eventId : String) (expectedVersion : ℕ) (o : OrderRecord) : Bool :=
  o.id = orderId && o.version = expectedVersion && o.statusHistory.all (·.eventId ≠ eventId)

/-- `$set` status and `updatedAt`, `$push` the event, `$inc` the version. -/
def pushEvent (event : StatusEvent) (nextStatus : OrderStatus) (now : String) (o : OrderRecord) :
    OrderRecord :=
  { o with
    status := nextStatus
    updatedAt := now
    statusHistory := o.statusHistory ++ [event]
    version := o.version + 1 }

/-- `appendStatusEvent`: the updated document, or `none` when no document matches. -/
def appendStatusEvent (c : Collection) (orderId : String) (event : StatusEvent)
    (nextStatus : OrderStatus) (expectedVersion : ℕ) (now : String) :
    Option OrderRecord × Collection :=
  let filter := appendFilter orderId event.eventId expectedVersion
  ((c.docs.find? filter).map (pushEvent event nextStatus now),
    c.update filter (pushEvent event nextStatus now) (fun _ => rfl) fun _ => rfl)

/-- `$set` the shipment and `updatedAt`. -/
def setShipment (metadata : ShipmentMetadata) (now : String) (o : OrderRecord) : OrderRecord :=
  { o with
    shipment := some metadata.stored
    updatedAt := now }

/-- `updateShipmentMetadata`. -/
def updateShipmentMetadata (c : Collection) (orderId : String) (metadata : ShipmentMetadata)
    (now : String) : Collection :=
  c.update (fun o => o.id = orderId) (setShipment metadata now) (fun _ => rfl) fun _ => rfl

/-! ### Lookups -/

variable {c c' : Collection} {o order : OrderRecord} {i orderId requestId : String}

theorem findById_eq_some_iff : findById c i = some o ↔ o ∈ c.docs ∧ o.id = i :=
  find?_key_iff OrderRecord.id c.id_nodup

theorem findByRequestId_eq_some_iff :
    findByRequestId c requestId = some o ↔ o ∈ c.docs ∧ o.requestId = requestId :=
  find?_key_iff OrderRecord.requestId c.requestId_nodup

theorem id_eq_of_findById (h : findById c i = some o) : o.id = i := (findById_eq_some_iff.mp h).2

theorem findById_of_mem (h : o ∈ c.docs) : findById c o.id = some o :=
  findById_eq_some_iff.mpr ⟨h, rfl⟩

theorem findById_eq_none_iff : findById c i = none ↔ i ∉ c.docs.map OrderRecord.id := by
  simp [findById]

theorem findByRequestId_eq_none_iff :
    findByRequestId c requestId = none ↔ requestId ∉ c.docs.map OrderRecord.requestId := by
  simp [findByRequestId]

/-- Two stored orders with one request id are one order. -/
theorem eq_of_requestId_eq (ho : o ∈ c.docs) (h : order ∈ c.docs)
    (heq : o.requestId = order.requestId) : o = order :=
  List.inj_on_of_nodup_map c.requestId_nodup ho h heq

/-! ### Creating -/

theorem create_eq_some_iff :
    create c order = some c' ↔
      findById c order.id = none ∧ findByRequestId c order.requestId = none ∧
        c'.docs = c.docs ++ [order.stored] := by
  rw [findById_eq_none_iff, findByRequestId_eq_none_iff, create]
  constructor
  · intro h
    split at h
    · next hfree =>
      obtain rfl := Option.some.inj h
      exact ⟨hfree.1, hfree.2, rfl⟩
    · simp at h
  · rintro ⟨hid, hreq, hdocs⟩
    rw [dif_pos ⟨hid, hreq⟩]
    exact congrArg some (Collection.ext hdocs.symm)

/-- An insert is rejected exactly when an index already holds one of the two keys. -/
theorem create_eq_none_iff :
    create c order = none ↔
      findById c order.id ≠ none ∨ findByRequestId c order.requestId ≠ none := by
  rw [Ne, Ne, findById_eq_none_iff, findByRequestId_eq_none_iff, create]
  split
  · next h => simp [h.1, h.2]
  · next h =>
    simp only [true_iff]
    by_contra hcon
    push Not at hcon
    exact h hcon

theorem findById_create (h : create c order = some c') (i : String) :
    findById c' i = if i = order.id then some order.stored else findById c i := by
  obtain ⟨hid, -, hdocs⟩ := create_eq_some_iff.mp h
  rw [findById, hdocs, List.find?_append]
  by_cases hi : i = order.id
  · subst hi
    rw [if_pos rfl, show c.docs.find? (fun o => o.id = order.id) = none from hid]
    simp
  · have hne : ¬ decide (order.stored.id = i) = true := fun h => hi (of_decide_eq_true h).symm
    rw [if_neg hi, findById, List.find?_singleton, if_neg hne, Option.or_none]

/-- A stored order is still stored, and the same, after another one is created. -/
theorem findById_create_of_some (h : create c order = some c') (ho : findById c i = some o) :
    findById c' i = some o := by
  rw [findById_create h, if_neg, ho]
  rintro rfl
  rw [(create_eq_some_iff.mp h).1] at ho
  exact absurd ho (by simp)

theorem mem_create (h : create c order = some c') : o ∈ c'.docs ↔
    o ∈ c.docs ∨ o = order.stored := by
  rw [(create_eq_some_iff.mp h).2.2, List.mem_append, List.mem_singleton]

/-! ### Appending a status event -/

variable {event : StatusEvent} {nextStatus : OrderStatus} {expectedVersion : ℕ} {now : String}

theorem appendFilter_iff :
    appendFilter orderId event.eventId expectedVersion o = true ↔
      o.id = orderId ∧ o.version = expectedVersion ∧ o.hasEvent event.eventId = false := by
  simp [appendFilter, OrderRecord.hasEvent, and_assoc]

/-- The conditional write succeeds exactly when the order is still at the version that was read and
has not recorded the event. -/
theorem appendStatusEvent_eq_some_iff {updated : OrderRecord} :
    appendStatusEvent c orderId event nextStatus expectedVersion now = (some updated, c') ↔
      ∃ o, findById c orderId = some o ∧ o.version = expectedVersion ∧
        o.hasEvent event.eventId = false ∧ updated = pushEvent event nextStatus now o ∧
        c' = (appendStatusEvent c orderId event nextStatus expectedVersion now).2 := by
  rw [Prod.ext_iff]
  simp only [appendStatusEvent, Option.map_eq_some_iff]
  constructor
  · rintro ⟨⟨o, hfind, rfl⟩, rfl⟩
    obtain ⟨hid, hver, hev⟩ := appendFilter_iff.mp (List.find?_some hfind)
    exact ⟨o, findById_eq_some_iff.mpr ⟨List.mem_of_find?_eq_some hfind, hid⟩, hver, hev, rfl, rfl⟩
  · rintro ⟨o, ho, hver, hev, rfl, rfl⟩
    obtain ⟨hmem, hid⟩ := findById_eq_some_iff.mp ho
    have hmatch := appendFilter_iff.mpr ⟨hid, hver, hev⟩
    obtain ⟨b, hb⟩ := Option.isSome_iff_exists.mp (List.find?_isSome.mpr ⟨o, hmem, hmatch⟩)
    obtain ⟨hbid, -, -⟩ := appendFilter_iff.mp (List.find?_some hb)
    have hob : o = b := List.inj_on_of_nodup_map c.id_nodup hmem (List.mem_of_find?_eq_some hb)
      (hid.trans hbid.symm)
    exact ⟨⟨o, hob ▸ hb, rfl⟩, rfl⟩

/-- A conditional write that matches nothing changes nothing. -/
theorem appendStatusEvent_of_none
    (h : appendStatusEvent c orderId event nextStatus expectedVersion now = (none, c')) :
    c' = c := by
  rw [Prod.ext_iff] at h
  simp only [appendStatusEvent, Option.map_eq_none_iff, List.find?_eq_none] at h
  obtain ⟨hnone, rfl⟩ := h
  exact Collection.ext (updateFirst_of_forall_not fun a ha => by simpa using hnone a ha)

theorem findById_appendStatusEvent {updated : OrderRecord}
    (h : appendStatusEvent c orderId event nextStatus expectedVersion now = (some updated, c'))
    (i : String) : findById c' i = if i = orderId then some updated else findById c i := by
  obtain ⟨o, ho, hver, hev, rfl, rfl⟩ := appendStatusEvent_eq_some_iff.mp h
  have hmatch := appendFilter_iff.mpr ⟨id_eq_of_findById ho, hver, hev⟩
  have hupd : findById (appendStatusEvent c orderId event nextStatus expectedVersion now).2 i
      = (findById c i).map fun a => if appendFilter orderId event.eventId expectedVersion a
          then pushEvent event nextStatus now a else a :=
    find?_updateFirst OrderRecord.id (appendFilter orderId event.eventId expectedVersion)
      (pushEvent event nextStatus now) (fun _ => rfl) c.id_nodup
      (fun _ ha => (appendFilter_iff.mp ha).1) i
  rw [hupd]
  by_cases hi : i = orderId
  · rw [if_pos hi, hi, ho, Option.map_some, if_pos hmatch]
  · rw [if_neg hi]
    cases hfind : findById c i with
    | none => rfl
    | some a =>
      have hne : appendFilter orderId event.eventId expectedVersion a = false := by
        by_contra hcon
        exact hi ((id_eq_of_findById hfind).symm.trans
          (appendFilter_iff.mp (by simpa using hcon)).1)
      rw [Option.map_some, hne, if_neg (by simp)]

/-- A stored order is the same after a conditional write, or it has got the event. -/
theorem findById_append_of_some {updated : OrderRecord}
    (h : appendStatusEvent c orderId event nextStatus expectedVersion now = (some updated, c'))
    (ho : findById c i = some o) :
    findById c' i = some o ∨ findById c' i = some (pushEvent event nextStatus now o) := by
  rw [findById_appendStatusEvent h]
  split
  · next hi =>
    obtain ⟨o₀, ho₀, -, -, rfl, -⟩ := appendStatusEvent_eq_some_iff.mp h
    obtain rfl : o = o₀ := Option.some.inj (ho.symm.trans (hi ▸ ho₀))
    exact Or.inr rfl
  · exact Or.inl ho

/-! ### Storing shipment metadata -/

theorem findById_updateShipmentMetadata (c : Collection) (orderId : String)
    (metadata : ShipmentMetadata) (now i : String) :
    findById (updateShipmentMetadata c orderId metadata now) i
      = (findById c i).map fun o => if i = orderId then setShipment metadata now o else o := by
  have hupd : findById (updateShipmentMetadata c orderId metadata now) i
      = (findById c i).map fun o => if decide (o.id = orderId) then setShipment metadata now o
          else o :=
    find?_updateFirst OrderRecord.id (fun o => decide (o.id = orderId)) (setShipment metadata now)
      (fun _ => rfl) c.id_nodup (fun _ ha => of_decide_eq_true ha) i
  rw [hupd]
  cases hfind : findById c i with
  | none => rfl
  | some a =>
    obtain rfl := id_eq_of_findById hfind
    simp

end OrderRepository

end OrderProcessing
