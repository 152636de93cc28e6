import OrderProcessing.Lifecycle
import Mathlib.Data.List.Find

/-!
# The part of the collection that belongs to one order

Every lookup and every write of the service is about one order: by its id, or by its idempotency
key. A call that is about the order does in the part of the collection that belongs to it what it
does in all of it, and a call that is about another order leaves that part as it is.

## Main definitions

* `Collection.restrict` — the order with one idempotency key
* `Collection.Owns` — the id and the key name the same order
* `Effect.orderId`

## Main results

* `appendStatusEvent_restrict`, `updateShipmentMetadata_restrict` — a write to the order
* `CreateOrder.step_restrict`, `StatusUpdate.step_restrict`, `OrderCreatedEvent.step_restrict`
* `CreateOrder.Steps.restrict_eq`, `StatusUpdate.Steps.restrict_eq`,
  `OrderCreatedEvent.Steps.restrict_eq` — calls that are about another order
-/

namespace OrderProcessing

open OrderRepository UpdateFirst

/-! ### The part of the collection that belongs to one order -/

/-- The order with this idempotency key, alone. -/
def Collection.restrict (c : Collection) (key : String) : Collection where
  docs := c.docs.filter fun o => o.requestId = key
  id_nodup := (List.filter_sublist.map OrderRecord.id).nodup c.id_nodup
  requestId_nodup := (List.filter_sublist.map OrderRecord.requestId).nodup c.requestId_nodup

/-- The stored order with this id is the one with this key. -/
def Collection.Owns (c : Collection) (key orderId : String) : Prop :=
  ∀ o ∈ c.docs, o.id = orderId ↔ o.requestId = key

section Restrict

variable {c c' : Collection} {key orderId : String} {o : OrderRecord}

theorem Collection.mem_restrict : o ∈ (c.restrict key).docs ↔ o ∈ c.docs ∧ o.requestId = key := by
  simp [restrict]

theorem findByRequestId_restrict (c : Collection) (key : String) :
    findByRequestId (c.restrict key) key = findByRequestId c key := by
  ext o
  rw [findByRequestId_eq_some_iff, findByRequestId_eq_some_iff, Collection.mem_restrict,
    and_assoc, and_self]

theorem findById_restrict (h : c.Owns key orderId) :
    findById (c.restrict key) orderId = findById c orderId := by
  ext o
  rw [findById_eq_some_iff, findById_eq_some_iff, Collection.mem_restrict]
  constructor
  · rintro ⟨⟨hmem, -⟩, hid⟩
    exact ⟨hmem, hid⟩
  · rintro ⟨hmem, hid⟩
    exact ⟨⟨hmem, (h o hmem).mp hid⟩, hid⟩

/-- An insert under the key, with a fresh id. -/
theorem create_restrict (hkey : o.requestId = key) (hfresh : findById c o.id = none) :
    create (c.restrict key) o = (create c o).map (·.restrict key) := by
  have hfresh' : findById (c.restrict key) o.id = none := by
    rw [findById_eq_none_iff] at hfresh ⊢
    exact fun hmem => hfresh ((List.filter_sublist.map _).subset hmem)
  have hfound : findByRequestId (c.restrict key) o.requestId = findByRequestId c o.requestId := by
    rw [hkey, findByRequestId_restrict]
  cases hcreate : create c o with
  | none =>
    rw [Option.map_none, create_eq_none_iff, hfound, hfresh']
    rw [create_eq_none_iff, hfresh] at hcreate
    exact hcreate
  | some c' =>
    obtain ⟨-, hreq, hdocs⟩ := create_eq_some_iff.mp hcreate
    rw [Option.map_some, create_eq_some_iff, hfound]
    refine ⟨hfresh', hreq, ?_⟩
    show c'.docs.filter _ = c.docs.filter _ ++ [o.stored]
    simp [hdocs, hkey]

/-- An insert under another key. -/
theorem restrict_create (hcreate : create c o = some c') (hkey : o.requestId ≠ key) :
    c'.restrict key = c.restrict key := by
  apply Collection.ext
  show c'.docs.filter _ = c.docs.filter _
  simp [(create_eq_some_iff.mp hcreate).2.2, hkey]

section Update

variable {filter : OrderRecord → Bool} {f : OrderRecord → OrderRecord}
  (hid : ∀ o, (f o).id = o.id) (hreq : ∀ o, (f o).requestId = o.requestId)

theorem restrict_update (h : ∀ o ∈ c.docs, filter o = true → o.requestId = key) :
    (c.update filter f hid hreq).restrict key = (c.restrict key).update filter f hid hreq := by
  apply Collection.ext
  exact filter_updateFirst (fun o => by rw [hreq])
    fun o ho hfilter => decide_eq_true (h o ho hfilter)

theorem restrict_update_of_ne (h : ∀ o ∈ c.docs, filter o = true → o.requestId ≠ key) :
    (c.update filter f hid hreq).restrict key = c.restrict key := by
  apply Collection.ext
  exact filter_updateFirst_of_not (fun o => by rw [hreq])
    fun o ho hfilter => decide_eq_false (h o ho hfilter)

end Update

variable {event : StatusEvent} {nextStatus : OrderStatus} {expectedVersion : ℕ} {now : String}
  {metadata : ShipmentMetadata}

theorem appendStatusEvent_restrict (h : c.Owns key orderId) :
    appendStatusEvent (c.restrict key) orderId event nextStatus expectedVersion now
      = ((appendStatusEvent c orderId event nextStatus expectedVersion now).1,
        (appendStatusEvent c orderId event nextStatus expectedVersion now).2.restrict key) := by
  have hfilter : ∀ o ∈ c.docs, appendFilter orderId event.eventId expectedVersion o = true →
      o.requestId = key := fun o ho hmatch => (h o ho).mp (appendFilter_iff.mp hmatch).1
  refine Prod.ext (congrArg (Option.map _) ?_)
    (restrict_update (f := pushEvent event nextStatus now) (fun _ => rfl) (fun _ => rfl)
      hfilter).symm
  show (c.docs.filter _).find? _ = _
  rw [List.find?_filter]
  refine List.find?_congr fun o ho => ?_
  cases hmatch : appendFilter orderId event.eventId expectedVersion o with
  | false => simp
  | true => simp [hfilter o ho hmatch]

/-- A conditional write of another order. -/
theorem restrict_appendStatusEvent {i : String} (h : c.Owns key orderId) (hne : i ≠ orderId) :
    (appendStatusEvent c i event nextStatus expectedVersion now).2.restrict key
      = c.restrict key :=
  restrict_update_of_ne (f := pushEvent event nextStatus now) (fun _ => rfl) (fun _ => rfl)
    fun o ho hmatch hkey => hne ((appendFilter_iff.mp hmatch).1.symm.trans ((h o ho).mpr hkey))

theorem updateShipmentMetadata_restrict (h : c.Owns key orderId) :
    updateShipmentMetadata (c.restrict key) orderId metadata now
      = (updateShipmentMetadata c orderId metadata now).restrict key :=
  (restrict_update (f := setShipment metadata now) (fun _ => rfl) (fun _ => rfl)
    fun o ho hmatch => (h o ho).mp (of_decide_eq_true hmatch)).symm

/-- A shipment of another order. -/
theorem restrict_updateShipmentMetadata {i : String} (h : c.Owns key orderId) (hne : i ≠ orderId) :
    (updateShipmentMetadata c i metadata now).restrict key = c.restrict key :=
  restrict_update_of_ne (f := setShipment metadata now) (fun _ => rfl) (fun _ => rfl)
    fun o ho hmatch hkey => hne ((of_decide_eq_true hmatch).symm.trans ((h o ho).mpr hkey))

end Restrict

/-! ### Calls that are about the order -/

/-- A reaction, as far as the orders of one key are concerned. -/
def Reaction.restrict {κ : Type} (r : Reaction κ) (key : String) : Reaction κ where
  orders := r.orders.restrict key
  call := r.call
  effect := r.effect

section Own

variable {P : Platform} {maxRetries : ℚ} {c : Collection} {key orderId : String} {input : Input}

/-- A `createOrder` call with the key of the order does not need the other orders, if it does not
draw the id of one of them. -/
theorem CreateOrder.step_restrict {call : CreateOrder} (hkey : call.idempotencyKey = key)
    (hfresh : ∀ uuid now answer, input = .insertOne uuid now answer → findById c uuid = none) :
    call.step P (c.restrict key) input = (call.step P c input).map (·.restrict key) := by
  obtain ⟨payload, idempotencyKey, pc⟩ := call
  subst hkey
  cases pc with
  | lookup =>
    cases input with
    | find answer =>
      cases answer with
      | ok =>
        simp only [CreateOrder.step, findByRequestId_restrict]
        rfl
      | _ => rfl
    | _ => rfl
  | insert payloadHash =>
    cases input with
    | insertOne uuid now answer =>
      have hcreate : create (c.restrict idempotencyKey)
          (newOrder payload idempotencyKey payloadHash uuid now)
          = (create c (newOrder payload idempotencyKey payloadHash uuid now)).map
            (·.restrict idempotencyKey) := create_restrict rfl (hfresh uuid now answer rfl)
      cases answer with
      | lost => rfl
      | _ =>
        simp only [CreateOrder.step, CreateOrder.afterInsert, hcreate]
        cases create c (newOrder payload idempotencyKey payloadHash uuid now) <;> rfl
    | _ => rfl
  | publish order =>
    cases input with
    | sendMessage accepted => cases accepted <;> rfl
    | _ => rfl
  | returned => rfl

theorem StatusUpdate.step_restrict {call : StatusUpdate} (h : c.Owns key call.orderId) :
    call.step P (c.restrict key) input = (call.step P c input).map (·.restrict key) := by
  obtain ⟨orderId, update, pc⟩ := call
  cases pc with
  | append order event =>
    cases input with
    | findOneAndUpdate now answer =>
      simp only [StatusUpdate.step, appendStatusEvent_restrict h]
      cases answer with
      | ok =>
        simp only [StatusUpdate.afterAppend]
        rcases appendStatusEvent c orderId event event.status order.version now with
          ⟨_ | updated, orders⟩ <;> rfl
      | _ => rfl
    | _ => rfl
  | returned => rfl
  | _ =>
    cases input with
    | find answer =>
      cases answer with
      | ok =>
        simp only [StatusUpdate.step, findById_restrict h]
        rfl
      | _ => rfl
    | _ => rfl

theorem StatusValidation.step_restrict {call : StatusValidation} (h : c.Owns key call.orderId) :
    call.step P (c.restrict key) input = (call.step P c input).map (·.restrict key) := by
  obtain ⟨orderId, update, pc⟩ := call
  cases pc with
  | lookup =>
    cases input with
    | find answer =>
      cases answer with
      | ok =>
        simp only [StatusValidation.step, findById_restrict h]
        rfl
      | _ => rfl
    | _ => rfl
  | returned => rfl

theorem OrderCreatedEvent.step_restrict {call : OrderCreatedEvent} (h : c.Owns key call.orderId)
    (hprep : call.Prepared c) :
    call.step maxRetries (c.restrict key) input
      = (call.step maxRetries c input).map (·.restrict key) := by
  obtain ⟨orderId, pc⟩ := call
  cases pc with
  | lookup =>
    cases input with
    | find answer =>
      cases answer with
      | ok =>
        simp only [OrderCreatedEvent.step, findById_restrict h]
        rfl
      | _ => rfl
    | _ => rfl
  | deliver order attempt =>
    cases input with
    | fetch =>
      simp only [OrderCreatedEvent.step]
      split <;> rfl
    | _ => rfl
  | store order metadata =>
    obtain rfl : order.id = orderId := hprep.1
    cases input with
    | updateOne now answer =>
      simp only [OrderCreatedEvent.step, updateShipmentMetadata_restrict h]
      cases answer <;> rfl
    | _ => rfl
  | returned => rfl

end Own

/-! ### Calls that are about other orders -/

/-- The order that an effect is about. -/
def Effect.orderId : Effect → String
  | .published payload _ => payload.orderId
  | .requested request => request.orderId

section Other

variable {P : Platform} {maxRetries : ℚ} {c : Collection} {key orderId : String} {input : Input}

theorem CreateOrder.Steps.restrict_eq {call : CreateOrder} {r : Reaction CreateOrder}
    (h : CreateOrder.Steps P c call input r) (hkey : call.idempotencyKey ≠ key) :
    r.orders.restrict key = c.restrict key := by
  cases h with
  | inserted _ hcreate => exact restrict_create hcreate hkey
  | landed _ hcreate => exact restrict_create hcreate hkey
  | _ => rfl

theorem StatusUpdate.Steps.restrict_eq {call : StatusUpdate} {r : Reaction StatusUpdate}
    (h : StatusUpdate.Steps P c call input r) (howns : c.Owns key orderId)
    (hne : call.orderId ≠ orderId) : r.orders.restrict key = c.restrict key := by
  cases h with
  | appended _ hwrite =>
    rw [← restrict_appendStatusEvent howns hne, hwrite]
  | landed _ hwrite =>
    rw [← restrict_appendStatusEvent howns hne, hwrite]
  | _ => rfl

theorem OrderCreatedEvent.Steps.restrict_eq {call : OrderCreatedEvent}
    {r : Reaction OrderCreatedEvent} (h : OrderCreatedEvent.Steps maxRetries c call input r)
    (hprep : call.Prepared c) (howns : c.Owns key orderId) (hne : call.orderId ≠ orderId) :
    r.orders.restrict key = c.restrict key := by
  have hstore : ∀ {order metadata}, call.pc = .store order metadata → order.id ≠ orderId := by
    intro order metadata hpc
    rw [OrderCreatedEvent.Prepared, hpc] at hprep
    rw [hprep.1]
    exact hne
  cases h with
  | stored hpc => exact restrict_updateShipmentMetadata howns (hstore hpc)
  | landed hpc => exact restrict_updateShipmentMetadata howns (hstore hpc)
  | _ => rfl

/-- What a `createOrder` call publishes is about the order of its key. -/
theorem CreateOrder.Steps.effect_iff {call : CreateOrder} {r : Reaction CreateOrder}
    (h : CreateOrder.Steps P c call input r) (hprep : call.Prepared P c)
    (howns : c.Owns key orderId) {effect : Effect} (heffect : r.effect = some effect) :
    effect.orderId = orderId ↔ call.idempotencyKey = key := by
  cases h with
  | @published order sentAt hpc =>
    obtain rfl := Option.some.inj heffect
    rw [CreateOrder.Prepared, hpc] at hprep
    obtain ⟨⟨uuid, now, hnew⟩, o, ho, hext⟩ := hprep
    have hreq : o.requestId = call.idempotencyKey := by
      rw [hext.requestId_eq, hnew]
      rfl
    have hid : o.id = order.id := hext.id_eq
    show order.id = orderId ↔ _
    rw [← hid, ← hreq]
    exact howns o (findById_eq_some_iff.mp ho).1
  | _ => simp at heffect

/-- What the order-created handler requests is about its order. -/
theorem OrderCreatedEvent.Steps.effect_orderId {call : OrderCreatedEvent}
    {r : Reaction OrderCreatedEvent} (h : OrderCreatedEvent.Steps maxRetries c call input r)
    (hprep : call.Prepared c) {effect : Effect} (heffect : r.effect = some effect) :
    effect.orderId = call.orderId := by
  cases h with
  | fetched hpc =>
    obtain rfl := Option.some.inj heffect
    rw [OrderCreatedEvent.Prepared, hpc] at hprep
    exact hprep.1
  | _ => simp at heffect

end Other

end OrderProcessing
