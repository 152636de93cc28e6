import OrderProcessing.Reference
import OrderProcessing.Service

/-!
# The lifecycle of a stored order

What holds of every stored order, whatever runs concurrently. A status update is validated against a
snapshot and written later, under a filter on the version; in between, other updates and shipment
writes may change the document. The version is what makes this safe: it determines the status, so a
document that still has the version that was read still has the status that was validated.

## Main definitions

* `OrderRecord.WellFormed` — version, status and history agree, and the history follows the
  lifecycle
* `OrderRecord.Extends`, `Collection.Extends` — the append-only order between two states of one
  document, and of the whole collection
* `Call.Prepared` — what a suspended call knows about the snapshot it holds

## Main results

* `Service.relyGuarantee` — every step keeps the documents well formed and only extends them
* `Service.stored_wellFormed` — the invariant of every stored order in every reachable state
-/

namespace OrderProcessing

open OrderRepository

/-! ### One document -/

/-- Version, status and history of an order agree, and the history follows the lifecycle. -/
structure OrderRecord.WellFormed (o : OrderRecord) : Prop where
  version_eq : o.version = o.statusHistory.length
  statuses_eq : o.statusHistory.map (·.status) = OrderStatus.lifecycle.take (o.status.rank + 1)
  eventIds_nodup : (o.statusHistory.map (·.eventId)).Nodup

namespace OrderRecord.WellFormed

variable {o : OrderRecord}

/-- **The version determines the status.** This is what the optimistic lock rests on. -/
theorem version_eq_rank (h : o.WellFormed) : o.version = o.status.rank + 1 := by
  have hlen := congrArg List.length h.statuses_eq
  rw [List.length_map, List.length_take, ← h.version_eq] at hlen
  have := o.status.rank_le_two
  simp only [OrderStatus.lifecycle, List.length_cons, List.length_nil] at hlen
  omega

theorem getLast?_eq (h : o.WellFormed) :
    (o.statusHistory.map (·.status)).getLast? = some o.status := by
  rw [h.statuses_eq]
  cases o.status <;> rfl

theorem history_ne_nil (h : o.WellFormed) : o.statusHistory ≠ [] := by
  intro hnil
  have := h.getLast?_eq
  simp [hnil] at this

theorem newOrder (payload : CreateOrderInput) (key : String) (payloadHash : JsString)
    (uuid now : String) : (newOrder payload key payloadHash uuid now).WellFormed where
  version_eq := rfl
  statuses_eq := rfl
  eventIds_nodup := List.nodup_singleton _

theorem stored (h : o.WellFormed) : o.stored.WellFormed :=
  ⟨h.version_eq, h.statuses_eq, h.eventIds_nodup⟩

theorem setShipment (h : o.WellFormed) (metadata : ShipmentMetadata) (now : String) :
    (setShipment metadata now o).WellFormed :=
  ⟨h.version_eq, h.statuses_eq, h.eventIds_nodup⟩

/-- Appending the direct successor of the status, under an event id that is new. -/
theorem pushEvent (h : o.WellFormed) {event : StatusEvent} (now : String)
    (hrank : event.status.rank = o.status.rank + 1) (hnew : o.hasEvent event.eventId = false) :
    (pushEvent event event.status now o).WellFormed where
  version_eq := by
    simp only [OrderRepository.pushEvent, List.length_append, List.length_singleton, h.version_eq]
  statuses_eq := by
    simp only [OrderRepository.pushEvent, List.map_append, h.statuses_eq, List.map_cons,
      List.map_nil]
    revert hrank
    cases o.status <;> cases event.status <;> decide
  eventIds_nodup := by
    simp only [OrderRepository.pushEvent, List.map_append, List.map_cons, List.map_nil]
    refine h.eventIds_nodup.append (List.nodup_singleton _) ?_
    rw [List.disjoint_singleton]
    intro hmem
    obtain ⟨e, he, heq⟩ := List.mem_map.mp hmem
    have := OrderRecord.hasEvent_iff.mpr ⟨e, he, heq⟩
    rw [hnew] at this
    exact Bool.false_ne_true this

end OrderRecord.WellFormed

/-- `o'` is a later state of the document `o`: the fields fixed at creation are the same, and the
history has only grown at its end. -/
structure OrderRecord.Extends (o o' : OrderRecord) : Prop where
  id_eq : o'.id = o.id
  customerId_eq : o'.customerId = o.customerId
  items_eq : o'.items = o.items
  totalAmount_eq : o'.totalAmount = o.totalAmount
  requestId_eq : o'.requestId = o.requestId
  payloadHash_eq : o'.payloadHash = o.payloadHash
  createdAt_eq : o'.createdAt = o.createdAt
  history_prefix : o.statusHistory <+: o'.statusHistory

namespace OrderRecord.Extends

variable {o o' o'' : OrderRecord}

theorem refl (o : OrderRecord) : o.Extends o :=
  ⟨rfl, rfl, rfl, rfl, rfl, rfl, rfl, List.prefix_refl _⟩

theorem trans (h : o.Extends o') (h' : o'.Extends o'') : o.Extends o'' where
  id_eq := h'.id_eq.trans h.id_eq
  customerId_eq := h'.customerId_eq.trans h.customerId_eq
  items_eq := h'.items_eq.trans h.items_eq
  totalAmount_eq := h'.totalAmount_eq.trans h.totalAmount_eq
  requestId_eq := h'.requestId_eq.trans h.requestId_eq
  payloadHash_eq := h'.payloadHash_eq.trans h.payloadHash_eq
  createdAt_eq := h'.createdAt_eq.trans h.createdAt_eq
  history_prefix := h.history_prefix.trans h'.history_prefix

theorem pushEvent (event : StatusEvent) (status : OrderStatus) (now : String) (o : OrderRecord) :
    o.Extends (pushEvent event status now o) :=
  ⟨rfl, rfl, rfl, rfl, rfl, rfl, rfl, List.prefix_append _ _⟩

theorem setShipment (metadata : ShipmentMetadata) (now : String) (o : OrderRecord) :
    o.Extends (setShipment metadata now o) :=
  ⟨rfl, rfl, rfl, rfl, rfl, rfl, rfl, List.prefix_refl _⟩

/-- A recorded event stays recorded. -/
theorem hasEvent (h : o.Extends o') {eventId : String} (he : o.hasEvent eventId = true) :
    o'.hasEvent eventId = true := by
  obtain ⟨e, hmem, heq⟩ := OrderRecord.hasEvent_iff.mp he
  exact OrderRecord.hasEvent_iff.mpr ⟨e, h.history_prefix.subset hmem, heq⟩

theorem version_le (h : o.Extends o') (ho : o.WellFormed) (ho' : o'.WellFormed) :
    o.version ≤ o'.version := by
  rw [ho.version_eq, ho'.version_eq]
  exact h.history_prefix.length_le

theorem rank_le (h : o.Extends o') (ho : o.WellFormed) (ho' : o'.WellFormed) :
    o.status.rank ≤ o'.status.rank := by
  have := h.version_le ho ho'
  rw [ho.version_eq_rank, ho'.version_eq_rank] at this
  omega

/-- **An unchanged version means an unchanged history.** -/
theorem history_eq_of_version_eq (h : o.Extends o') (ho : o.WellFormed) (ho' : o'.WellFormed)
    (hver : o'.version = o.version) : o'.statusHistory = o.statusHistory := by
  rw [ho.version_eq, ho'.version_eq] at hver
  exact (h.history_prefix.eq_of_length hver.symm).symm

theorem status_eq_of_rank_le (h : o.Extends o') (ho : o.WellFormed) (ho' : o'.WellFormed)
    (hrank : o'.status.rank ≤ o.status.rank) :
    o'.status = o.status ∧ o'.statusHistory = o.statusHistory := by
  have hle := h.rank_le ho ho'
  refine ⟨OrderStatus.rank_injective (by omega), h.history_eq_of_version_eq ho ho' ?_⟩
  rw [ho.version_eq_rank, ho'.version_eq_rank]
  omega

end OrderRecord.Extends

/-! ### The whole collection -/

namespace Collection

variable {c c' c'' : Collection}

/-- Every stored order is well formed. -/
def WellFormed (c : Collection) : Prop := ∀ o ∈ c.docs, o.WellFormed

/-- Every stored order is still stored, in a later state. -/
def Extends (c c' : Collection) : Prop :=
  ∀ i o, findById c i = some o → ∃ o', findById c' i = some o' ∧ o.Extends o'

theorem Extends.refl (c : Collection) : c.Extends c :=
  fun _ o h => ⟨o, h, OrderRecord.Extends.refl o⟩

theorem Extends.trans (h : c.Extends c') (h' : c'.Extends c'') : c.Extends c'' := by
  intro i o ho
  obtain ⟨o', ho', hext⟩ := h i o ho
  obtain ⟨o'', ho'', hext'⟩ := h' i o' ho'
  exact ⟨o'', ho'', hext.trans hext'⟩

theorem wellFormed_empty : empty.WellFormed := by simp [WellFormed, empty]

theorem WellFormed.of_findById {i : String} {o : OrderRecord} (h : c.WellFormed)
    (ho : findById c i = some o) : o.WellFormed := h o (findById_eq_some_iff.mp ho).1

/-- Well-formedness, read off the lookups. -/
theorem wellFormed_of_findById (h : ∀ i o, findById c i = some o → o.WellFormed) : c.WellFormed :=
  fun o ho => h o.id o (findById_of_mem ho)

variable {order : OrderRecord}

theorem extends_create (h : create c order = some c') : c.Extends c' := by
  intro i o ho
  exact ⟨o, findById_create_of_some h ho, OrderRecord.Extends.refl o⟩

theorem WellFormed.create (hc : c.WellFormed) (horder : order.WellFormed)
    (h : create c order = some c') : c'.WellFormed := by
  intro o ho
  rcases (mem_create h).mp ho with ho | rfl
  · exact hc o ho
  · exact horder.stored

section Append

variable {orderId now : String} {event : StatusEvent} {version : ℕ} {updated : OrderRecord}

theorem extends_append {status : OrderStatus}
    (h : appendStatusEvent c orderId event status version now = (some updated, c')) :
    c.Extends c' := by
  intro i o ho
  rcases findById_append_of_some h ho with ho' | ho'
  · exact ⟨o, ho', OrderRecord.Extends.refl o⟩
  · exact ⟨_, ho', OrderRecord.Extends.pushEvent event status now o⟩

/-- The conditional write keeps the documents well formed, if the snapshot it was prepared from was
well formed and the event leads to the direct successor of the snapshot's status. -/
theorem WellFormed.append {snapshot : OrderRecord} (hc : c.WellFormed) (hs : snapshot.WellFormed)
    (hrank : event.status.rank = snapshot.status.rank + 1)
    (h : appendStatusEvent c orderId event event.status snapshot.version now = (some updated, c')) :
    c'.WellFormed := by
  obtain ⟨o, ho, hver, hnew, hupd, -⟩ := appendStatusEvent_eq_some_iff.mp h
  have hwf := hc.of_findById ho
  have hstatus : event.status.rank = o.status.rank + 1 := by
    rw [hwf.version_eq_rank, hs.version_eq_rank] at hver
    omega
  refine wellFormed_of_findById fun i o' ho' => ?_
  rw [findById_appendStatusEvent h] at ho'
  split at ho'
  · cases ho'
    rw [hupd]
    exact hwf.pushEvent now hstatus hnew
  · exact hc.of_findById ho'

end Append

section Shipment

variable (orderId now : String) (metadata : ShipmentMetadata)

theorem extends_updateShipmentMetadata (c : Collection) :
    c.Extends (updateShipmentMetadata c orderId metadata now) := by
  intro i o ho
  rw [findById_updateShipmentMetadata, ho, Option.map_some]
  split
  · exact ⟨_, rfl, OrderRecord.Extends.setShipment metadata now o⟩
  · exact ⟨_, rfl, OrderRecord.Extends.refl o⟩

theorem WellFormed.updateShipmentMetadata (hc : c.WellFormed) :
    (updateShipmentMetadata c orderId metadata now).WellFormed := by
  refine wellFormed_of_findById fun i o ho => ?_
  rw [findById_updateShipmentMetadata] at ho
  obtain ⟨o₀, ho₀, rfl⟩ := Option.map_eq_some_iff.mp ho
  have hwf := hc.of_findById ho₀
  split
  · exact hwf.setShipment metadata now
  · exact hwf

end Shipment

end Collection

/-! ### What a call returns -/

namespace CreateOrderResult

/-- The document that a result of `createOrder` is about: a new order is returned as it was written,
a replayed one as it was read. -/
def document (result : CreateOrderResult) : OrderRecord :=
  if result.created then result.order.stored else result.order

variable (result : CreateOrderResult)

@[simp] theorem document_id : result.document.id = result.order.id := by
  rw [document]
  split <;> rfl

@[simp] theorem document_requestId : result.document.requestId = result.order.requestId := by
  rw [document]
  split <;> rfl

@[simp] theorem document_payloadHash :
    result.document.payloadHash = result.order.payloadHash := by
  rw [document]
  split <;> rfl

end CreateOrderResult

/-! ### Suspended calls -/

/-- What a `createOrder` call knows: the hash it inserts, and that the order it publishes is stored.
-/
def CreateOrder.Prepared (P : Platform) (c : Collection) (call : CreateOrder) : Prop :=
  match call.pc with
  | .insert payloadHash => payloadHash = hashPayload P call.payload.json
  | .publish order =>
    (∃ uuid now, order = OrderProcessing.newOrder call.payload call.idempotencyKey
      (hashPayload P call.payload.json) uuid now) ∧
    ∃ o, findById c order.id = some o ∧ order.stored.Extends o
  | _ => True

/-- What an `applyStatusUpdate` call knows. Its snapshot was stored, and validated; after a lost
race, the order has recorded the event or has reached the status that was asked for. -/
def StatusUpdate.Prepared (P : Platform) (c : Collection) (call : StatusUpdate) : Prop :=
  match call.pc with
  | .append snapshot event =>
    snapshot.WellFormed ∧
      prepareStatusUpdate P call.orderId call.input (some snapshot) = .ok (snapshot, some event) ∧
      ∃ o, findById c call.orderId = some o ∧ snapshot.Extends o
  | .reread =>
    ∃ o input, findById c call.orderId = some o ∧ call.input = some input ∧
      (o.hasEvent input.eventId = true ∨ input.status.rank ≤ o.status.rank)
  | _ => True

/-- What a `handleOrderCreatedEvent` call knows: its snapshot was stored. -/
def OrderCreatedEvent.Prepared (c : Collection) (call : OrderCreatedEvent) : Prop :=
  match call.pc with
  | .deliver order _ | .store order _ =>
    order.id = call.orderId ∧ ∃ o, findById c order.id = some o ∧ order.Extends o
  | _ => True

/-- What a suspended call knows about the collection. -/
def Call.Prepared (P : Platform) (c : Collection) : Call → Prop
  | .createOrder call => call.Prepared P c
  | .applyStatusUpdate call => call.Prepared P c
  | .validateStatusUpdate _ => True
  | .handleOrderCreatedEvent call => call.Prepared c

theorem Request.prepared (P : Platform) (c : Collection) (request : Request) :
    request.call.Prepared P c := by
  cases request <;> trivial

section Stable

variable {P : Platform} {c c' : Collection}

theorem Collection.Extends.exists_extends {i : String} {o : OrderRecord} (h : c.Extends c')
    (ho : ∃ o', findById c i = some o' ∧ o.Extends o') :
    ∃ o', findById c' i = some o' ∧ o.Extends o' := by
  obtain ⟨o', ho', hext⟩ := ho
  obtain ⟨o'', ho'', hext'⟩ := h i o' ho'
  exact ⟨o'', ho'', hext.trans hext'⟩

/-- What a call knows stays true while the documents only grow. -/
theorem Call.Prepared.stable {call : Call} (hc : c.WellFormed) (hc' : c'.WellFormed)
    (hext : c.Extends c') (h : call.Prepared P c) : call.Prepared P c' := by
  rcases call with ⟨payload, key, pc⟩ | ⟨orderId, input, pc⟩ | _ | ⟨orderId, pc⟩
  · cases pc with
    | publish order => exact ⟨h.1, hext.exists_extends h.2⟩
    | _ => exact h
  · cases pc with
    | append snapshot event => exact ⟨h.1, h.2.1, hext.exists_extends h.2.2⟩
    | reread =>
      obtain ⟨o, input, ho, hinput, hor⟩ := h
      obtain ⟨o', ho', hoo'⟩ := hext orderId o ho
      refine ⟨o', input, ho', hinput, hor.imp hoo'.hasEvent fun hrank => hrank.trans ?_⟩
      exact hoo'.rank_le (hc.of_findById ho) (hc'.of_findById ho')
    | _ => exact h
  · exact h
  · cases pc with
    | deliver order attempt => exact ⟨h.1, hext.exists_extends h.2⟩
    | store order metadata => exact ⟨h.1, hext.exists_extends h.2⟩
    | _ => exact h

end Stable

/-! ### One step of each kind of call -/

section Steps

variable {P : Platform} {c : Collection} {input : Input}

theorem CreateOrder.Steps.prepared {call : CreateOrder} {r : Reaction CreateOrder}
    (hc : c.WellFormed) (h : call.Prepared P c) (hstep : CreateOrder.Steps P c call input r) :
    r.orders.WellFormed ∧ c.Extends r.orders ∧ r.call.Prepared P r.orders := by
  cases hstep with
  | lookedUp =>
    refine ⟨hc, .refl c, ?_⟩
    rcases call.afterLookup_cases P (findByRequestId c call.idempotencyKey) with
      ⟨_, _, _, heq⟩ | ⟨_, _, _, heq⟩ | ⟨_, _, _, _, heq⟩ | ⟨_, _, heq⟩
    · rw [heq]; trivial
    · rw [heq]; trivial
    · rw [heq]; trivial
    · rw [heq]; exact rfl
  | @inserted payloadHash uuid now orders' hpc hcreate =>
    rw [CreateOrder.Prepared, hpc] at h
    subst h
    refine ⟨hc.create (.newOrder ..) hcreate, Collection.extends_create hcreate,
      ⟨uuid, now, rfl⟩, _, ?_, .refl _⟩
    rw [findById_create hcreate, if_pos rfl]
  | rejected => exact ⟨hc, .refl c, trivial⟩
  | landed hpc hcreate =>
    exact ⟨hc.create (.newOrder ..) hcreate, Collection.extends_create hcreate, trivial⟩
  | published => exact ⟨hc, .refl c, trivial⟩
  | refused => exact ⟨hc, .refl c, trivial⟩
  | failed => exact ⟨hc, .refl c, trivial⟩

/-- **A lost race.** The order changed since it was read, so it has a new event; it is the event
that was asked for, or it led at least as far. -/
theorem StatusUpdate.reached_of_lostRace {call : StatusUpdate} {snapshot : OrderRecord}
    {event : StatusEvent} {now : String} (hc : c.WellFormed) (hs : snapshot.WellFormed)
    (hprep : prepareStatusUpdate P call.orderId call.input (some snapshot)
      = .ok (snapshot, some event))
    (hstored : ∃ o, findById c call.orderId = some o ∧ snapshot.Extends o)
    (hlost : appendStatusEvent c call.orderId event event.status snapshot.version now = (none, c)) :
    ({ call with pc := .reread } : StatusUpdate).Prepared P c := by
  obtain ⟨-, update, hinput, -, hrank, hid, hstatus, -⟩ := prepareStatusUpdate_eq_event_iff.mp hprep
  obtain ⟨o, ho, hext⟩ := hstored
  refine ⟨o, update, ho, hinput, ?_⟩
  by_contra hcon
  obtain ⟨hev, hbehind⟩ := not_or.mp hcon
  have hwf := hc.of_findById ho
  -- the order has not passed the snapshot, so the filter matches it
  have hver : o.version = snapshot.version := by
    have hle := hext.rank_le hs hwf
    rw [hwf.version_eq_rank, hs.version_eq_rank]
    omega
  have hnew : o.hasEvent event.eventId = false := by rw [hid]; simpa using hev
  have hmatch : appendStatusEvent c call.orderId event event.status snapshot.version now = (_, _) :=
    appendStatusEvent_eq_some_iff.mpr ⟨o, ho, hver, hnew, rfl, rfl⟩
  rw [hlost] at hmatch
  exact absurd (congrArg Prod.fst hmatch) (by simp)

theorem StatusUpdate.Steps.prepared {call : StatusUpdate} {r : Reaction StatusUpdate}
    (hc : c.WellFormed) (h : call.Prepared P c) (hstep : StatusUpdate.Steps P c call input r) :
    r.orders.WellFormed ∧ c.Extends r.orders ∧ r.call.Prepared P r.orders := by
  obtain ⟨orderId, update, pc⟩ := call
  cases hstep with
  | lookedUp hpc =>
    refine ⟨hc, .refl c, ?_⟩
    simp only [afterLookup]
    split
    · trivial
    · trivial
    · next snapshot event hprep =>
      obtain ⟨hfound, -⟩ := prepareStatusUpdate_eq_event_iff.mp hprep
      rw [hfound] at hprep
      exact ⟨hc.of_findById hfound, hprep, snapshot, hfound, .refl snapshot⟩
  | appended hpc hwrite =>
    obtain rfl := hpc
    obtain ⟨hs, hprep, -⟩ := h
    obtain ⟨-, _, -, -, hrank, -, hstatus, -⟩ := prepareStatusUpdate_eq_event_iff.mp hprep
    exact ⟨hc.append hs (by rw [hstatus, hrank]) hwrite, Collection.extends_append hwrite, trivial⟩
  | lostRace hpc hwrite =>
    obtain rfl := hpc
    obtain ⟨hs, hprep, hstored⟩ := h
    exact ⟨hc, .refl c, StatusUpdate.reached_of_lostRace hc hs hprep hstored hwrite⟩
  | landed hpc hwrite =>
    obtain rfl := hpc
    obtain ⟨hs, hprep, -⟩ := h
    obtain ⟨-, _, -, -, hrank, -, hstatus, -⟩ := prepareStatusUpdate_eq_event_iff.mp hprep
    exact ⟨hc.append hs (by rw [hstatus, hrank]) hwrite, Collection.extends_append hwrite, trivial⟩
  | reread hpc =>
    refine ⟨hc, .refl c, ?_⟩
    simp only [afterReread]
    repeat' split
    all_goals trivial
  | failed => exact ⟨hc, .refl c, trivial⟩

theorem OrderCreatedEvent.Steps.prepared {maxRetries : ℚ} {call : OrderCreatedEvent}
    {r : Reaction OrderCreatedEvent} (hc : c.WellFormed) (h : call.Prepared c)
    (hstep : OrderCreatedEvent.Steps maxRetries c call input r) :
    r.orders.WellFormed ∧ c.Extends r.orders ∧ r.call.Prepared r.orders := by
  obtain ⟨orderId, pc⟩ := call
  cases hstep with
  | lookedUp hpc =>
    refine ⟨hc, .refl c, ?_⟩
    rcases OrderCreatedEvent.afterLookup_cases ⟨orderId, pc⟩ (findById c orderId) with
      heq | ⟨order, hfound, -, heq⟩
    · rw [heq]; trivial
    · rw [heq]
      have hid := id_eq_of_findById hfound
      exact ⟨hid, order, hid ▸ hfound, .refl order⟩
  | @fetched order attempt exchange requestedAt hpc hallowed =>
    obtain rfl := hpc
    refine ⟨hc, .refl c, ?_⟩
    rcases OrderCreatedEvent.afterFetch_cases maxRetries ⟨orderId, .deliver order attempt⟩ order
      attempt exchange requestedAt with ⟨_, heq⟩ | heq | ⟨_, heq⟩
    · rw [heq]; trivial
    · rw [heq]; exact h
    · rw [heq]; exact h
  | exhausted => exact ⟨hc, .refl c, trivial⟩
  | stored =>
    exact ⟨hc.updateShipmentMetadata _ _ _,
      Collection.extends_updateShipmentMetadata _ _ _ c, trivial⟩
  | landed =>
    exact ⟨hc.updateShipmentMetadata _ _ _,
      Collection.extends_updateShipmentMetadata _ _ _ c, trivial⟩
  | failed => exact ⟨hc, .refl c, trivial⟩

theorem Call.Steps.prepared {config : AppConfig} {call : Call} {r : Reaction Call}
    (hc : c.WellFormed) (h : call.Prepared P c) (hstep : Call.Steps P config c call input r) :
    r.orders.WellFormed ∧ c.Extends r.orders ∧ r.call.Prepared P r.orders := by
  cases hstep with
  | createOrder hstep => exact CreateOrder.Steps.prepared hc h hstep
  | applyStatusUpdate hstep => exact StatusUpdate.Steps.prepared hc h hstep
  | validateStatusUpdate hstep => cases hstep <;> exact ⟨hc, .refl c, trivial⟩
  | handleOrderCreatedEvent hstep => exact OrderCreatedEvent.Steps.prepared hc h hstep

/-- Where a document comes from: it was stored before the step, or the step created it. -/
theorem Call.Steps.mem_orders {config : AppConfig} {call : Call} {r : Reaction Call}
    (hstep : Call.Steps P config c call input r) {o : OrderRecord} (ho : o ∈ r.orders.docs) :
    (∃ o₀ ∈ c.docs, o₀.Extends o) ∨
      ∃ create payloadHash uuid now, call = .createOrder create ∧ create.pc = .insert payloadHash ∧
        o = (OrderProcessing.newOrder create.payload create.idempotencyKey payloadHash uuid
          now).stored := by
  have hsame : ∀ o ∈ c.docs, ∃ o₀ ∈ c.docs, o₀.Extends o := fun o ho => ⟨o, ho, .refl o⟩
  cases hstep with
  | @createOrder create input r hr =>
    cases hr with
    | inserted hpc hcreate =>
      exact ((mem_create hcreate).mp ho).imp (hsame o) fun ho => ⟨create, _, _, _, rfl, hpc, ho⟩
    | landed hpc hcreate =>
      exact ((mem_create hcreate).mp ho).imp (hsame o) fun ho => ⟨create, _, _, _, rfl, hpc, ho⟩
    | _ => exact Or.inl (hsame o ho)
  | @applyStatusUpdate update input r hr =>
    have happend : ∀ {event status version now updated orders'},
        appendStatusEvent c update.orderId event status version now = (some updated, orders') →
        o ∈ orders'.docs → ∃ o₀ ∈ c.docs, o₀.Extends o := by
      intro event status version now updated orders' hwrite ho
      obtain ⟨o₀, ho₀, -, -, hupd, -⟩ := appendStatusEvent_eq_some_iff.mp hwrite
      have hfind := findById_of_mem ho
      rw [findById_appendStatusEvent hwrite] at hfind
      split at hfind
      · obtain rfl := Option.some.inj hfind
        exact ⟨o₀, (findById_eq_some_iff.mp ho₀).1, hupd ▸ .pushEvent event status now o₀⟩
      · exact hsame o (findById_eq_some_iff.mp hfind).1
    cases hr with
    | appended _ hwrite => exact Or.inl (happend hwrite ho)
    | landed _ hwrite => exact Or.inl (happend hwrite ho)
    | _ => exact Or.inl (hsame o ho)
  | validateStatusUpdate hr => cases hr <;> exact Or.inl (hsame o ho)
  | handleOrderCreatedEvent hr =>
    have hstore : ∀ {orderId metadata now},
        o ∈ (updateShipmentMetadata c orderId metadata now).docs → ∃ o₀ ∈ c.docs, o₀.Extends o := by
      intro orderId metadata now ho
      have hfind := findById_of_mem ho
      rw [findById_updateShipmentMetadata] at hfind
      obtain ⟨o₀, ho₀, heq⟩ := Option.map_eq_some_iff.mp hfind
      refine ⟨o₀, (findById_eq_some_iff.mp ho₀).1, ?_⟩
      rw [← heq]
      split
      · exact .setShipment metadata now o₀
      · exact .refl o₀
    cases hr with
    | stored => exact Or.inl (hstore ho)
    | landed => exact Or.inl (hstore ho)
    | _ => exact Or.inl (hsame o ho)

end Steps

/-! ### The whole service -/

namespace Service

variable {P : Platform} {config : AppConfig} {p : Input → Prop} {s : State}

/-- Every step, of every call, keeps the documents well formed and only extends them. -/
theorem relyGuarantee (P : Platform) (config : AppConfig) (p : Input → Prop) :
    Interleave.RelyGuarantee start (act P config) p (fun w => w.orders.WellFormed)
      (fun w call => call.Prepared P w.orders) (fun w w' => w.orders.Extends w'.orders) where
  start := by
    intro w request w' call hw h
    obtain ⟨rfl, rfl⟩ := Prod.mk.inj (Option.some.inj h)
    exact ⟨hw, .refl w.orders, request.prepared P w.orders⟩
  act := by
    intro w call input w' call' hw hcall _ h
    obtain ⟨r, hstep, rfl, rfl⟩ := act_steps h
    exact Call.Steps.prepared hw hcall hstep
  stable := fun hw hw' hext hcall => hcall.stable hw hw' hext

/-- Every document and every suspended call, in every reachable state. -/
theorem Reachable.invariant (h : Reachable P config p s) :
    s.shared.orders.WellFormed ∧ ∀ call ∈ s.activations, call.Prepared P s.shared.orders :=
  Interleave.invariant (relyGuarantee P config p) h Collection.wellFormed_empty
    fun _ hcall => absurd hcall (List.not_mem_nil)

/-- **Every stored order is well formed**, in every reachable state. -/
theorem stored_wellFormed (h : Reachable P config p s) :
    (∀ o ∈ s.shared.orders.docs,
      o.version = o.statusHistory.length ∧
      (o.statusHistory.map (·.status)).getLast? = some o.status ∧
      o.statusHistory ≠ [] ∧
      o.statusHistory.map (·.status) <+: OrderStatus.lifecycle ∧
      (o.statusHistory.map (·.eventId)).Nodup) ∧
    (s.shared.orders.docs.map OrderRecord.id).Nodup ∧
    (s.shared.orders.docs.map OrderRecord.requestId).Nodup := by
  refine ⟨fun o ho => ?_, s.shared.orders.id_nodup, s.shared.orders.requestId_nodup⟩
  have hwf := h.invariant.1 o ho
  refine ⟨hwf.version_eq, hwf.getLast?_eq, hwf.history_ne_nil, ?_, hwf.eventIds_nodup⟩
  rw [hwf.statuses_eq]
  exact List.take_prefix _ _

/-- Two updates to `SHIPPED` race, with a shipment write in between; one of them is recorded. -/
def shippedRace : List Action :=
  creating 0 (samplePayload 10) "key" "id" "2024-05-01T10:00:00.000Z" ++
    [.invoke (.applyStatusUpdate "id" (some ⟨.shipped, "2024-05-02T10:00:00.000Z", "e1"⟩)),
      .invoke (.applyStatusUpdate "id" (some ⟨.shipped, "2024-05-02T11:00:00.000Z", "e2"⟩)),
      .invoke (.handleOrderCreatedEvent "id"),
      .resume 1 (.find .ok), .resume 2 (.find .ok), .resume 3 (.find .ok),
      .resume 3 (.fetch (.response 200 (some (.obj [(js "shipmentId", .str (js "s-1"))])))
        "2024-05-02T12:00:00.000Z"),
      .resume 2 (.findOneAndUpdate "2024-05-02T12:00:01.000Z" .ok),
      .resume 3 (.updateOne "2024-05-02T12:00:02.000Z" .ok),
      .resume 1 (.findOneAndUpdate "2024-05-02T12:00:03.000Z" .ok)]

theorem stored_wellFormed_shippedRace :
    ∃ s, Run.run (step .reference .default) init shippedRace = some s ∧
      (s.shared.orders.docs.map fun o => (o.version, o.status, o.hasShipment, o.hasEvent "e2"))
        = [(2, .shipped, true, true)] ∧
      (∀ o ∈ s.shared.orders.docs,
        o.version = o.statusHistory.length ∧
        (o.statusHistory.map (·.status)).getLast? = some o.status ∧
        o.statusHistory ≠ [] ∧
        o.statusHistory.map (·.status) <+: OrderStatus.lifecycle ∧
        (o.statusHistory.map (·.eventId)).Nodup) ∧
      (s.shared.orders.docs.map OrderRecord.id).Nodup ∧
      (s.shared.orders.docs.map OrderRecord.requestId).Nodup := by
  have hrun : (Run.run (step .reference .default) init shippedRace).map
      (fun s => s.shared.orders.docs.map
        fun o => (o.version, o.status, o.hasShipment, o.hasEvent "e2"))
      = some [(2, .shipped, true, true)] := by decide
  obtain ⟨s, hs, hdocs⟩ := Option.map_eq_some_iff.mp hrun
  exact ⟨s, hs, hdocs, stored_wellFormed (p := fun _ => True) ⟨_, fun a _ => a.inputs_true, hs⟩⟩

end Service

end OrderProcessing
