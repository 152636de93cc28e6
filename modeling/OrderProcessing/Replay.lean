import OrderProcessing.Lifecycle
import OrderProcessing.Serialization

/-!
# A replay answers for its own request

A create request is recognized by its key and the hash of its payload. The hash stays with the order
through every later write, and without collisions it stands for the serialized payload, which can be
read in one way only. So an order that is returned for a request is about that request, and a
request about something else is turned away.

A replay shows what is stored, and the database keeps no lone surrogates. So a replay may name
another customer or other SKUs than its request, if these have one.

## Main definitions

* `OrderRecord.CreatedFrom`, `OrderRecord.StoredFrom` — the fixed fields of an order are those of a
  payload, as they are or as the database keeps them, and so is the hash
* `OrderRecord.Answers`, `OrderRecord.AnswersStored` — the order is about what the payload asks for
* `CreateOrder.Answered` — the order that a call returns has the hash of the call's payload

## Main results

* `Service.returned_answers` — every `createOrder` call is answered for its own request
* `Service.returned_not_answers` — a replay with a lone surrogate
-/

namespace OrderProcessing

open OrderRepository

/-! ### What an order is about -/

/-- The fields fixed at creation are those of the payload. -/
structure OrderRecord.CreatedFrom (P : Platform) (payload : CreateOrderInput) (o : OrderRecord) :
    Prop where
  customerId_eq : o.customerId = payload.customerId
  items_eq : o.items = payload.items
  totalAmount_eq : o.totalAmount = payload.totalAmount
  payloadHash_eq : o.payloadHash = hashPayload P payload.json

/-- The fields fixed at creation are what the database keeps of the payload. -/
structure OrderRecord.StoredFrom (P : Platform) (payload : CreateOrderInput) (o : OrderRecord) :
    Prop where
  customerId_eq : o.customerId = toWellFormed payload.customerId
  items_eq : o.items = payload.items.map OrderItem.stored
  totalAmount_eq : o.totalAmount = payload.totalAmount
  payloadHash_eq : o.payloadHash = hashPayload P payload.json

/-- The numbers of a payload that has passed the request schema. -/
structure CreateOrderInput.FiniteNumbers (payload : CreateOrderInput) : Prop where
  totalAmount : payload.totalAmount.isFinite = true
  qty : ∀ item ∈ payload.items, item.qty.isFinite = true

/-- The strings that the program reads have no lone surrogates. -/
structure CreateOrderInput.WellFormedText (payload : CreateOrderInput) : Prop where
  customerId : isWellFormed payload.customerId = true
  sku : ∀ item ∈ payload.items, isWellFormed item.sku = true

/-- The order is about what the payload asks for. -/
structure OrderRecord.Answers (payload : CreateOrderInput) (o : OrderRecord) : Prop where
  customerId_eq : o.customerId = payload.customerId
  lines_eq : o.items.map OrderItem.line = payload.items.map OrderItem.line
  totalAmount_eq : o.totalAmount = payload.totalAmount

/-- The order is about what the database keeps of what the payload asks for. -/
structure OrderRecord.AnswersStored (payload : CreateOrderInput) (o : OrderRecord) : Prop where
  customerId_eq : o.customerId = toWellFormed payload.customerId
  lines_eq : o.items.map OrderItem.line
    = payload.items.map fun item => (toWellFormed item.sku, item.qty)
  totalAmount_eq : o.totalAmount = payload.totalAmount

section CreatedFrom

variable {P : Platform} {payload : CreateOrderInput} {o o' : OrderRecord}

theorem OrderRecord.CreatedFrom.newOrder (P : Platform) (payload : CreateOrderInput)
    (key uuid now : String) :
    (newOrder payload key (hashPayload P payload.json) uuid now).CreatedFrom P payload :=
  ⟨rfl, rfl, rfl, rfl⟩

theorem OrderRecord.CreatedFrom.answers (h : o.CreatedFrom P payload) : o.Answers payload :=
  ⟨h.customerId_eq, congrArg (List.map OrderItem.line) h.items_eq, h.totalAmount_eq⟩

theorem OrderRecord.CreatedFrom.stored (h : o.CreatedFrom P payload) :
    o.stored.StoredFrom P payload :=
  ⟨congrArg toWellFormed h.customerId_eq, congrArg (List.map OrderItem.stored) h.items_eq,
    h.totalAmount_eq, h.payloadHash_eq⟩

theorem OrderRecord.StoredFrom.of_extends (h : o.StoredFrom P payload) (hext : o.Extends o') :
    o'.StoredFrom P payload where
  customerId_eq := hext.customerId_eq.trans h.customerId_eq
  items_eq := hext.items_eq.trans h.items_eq
  totalAmount_eq := hext.totalAmount_eq.trans h.totalAmount_eq
  payloadHash_eq := hext.payloadHash_eq.trans h.payloadHash_eq

theorem OrderRecord.StoredFrom.lines_eq (h : o.StoredFrom P payload) : o.items.map OrderItem.line
    = payload.items.map fun item => (toWellFormed item.sku, item.qty) := by
  rw [h.items_eq, List.map_map]
  rfl

/-- **Without lone surrogates the database keeps what the payload asks for.** -/
theorem OrderRecord.answersStored_iff (h : payload.WellFormedText) :
    o.AnswersStored payload ↔ o.Answers payload := by
  have hcustomer := toWellFormed_of_isWellFormed h.customerId
  have hlines : (payload.items.map fun item => (toWellFormed item.sku, item.qty))
      = payload.items.map OrderItem.line := by
    refine List.map_congr_left fun item hitem => ?_
    rw [toWellFormed_of_isWellFormed (h.sku item hitem), OrderItem.line]
  constructor
  · rintro ⟨hc, hl, ht⟩
    exact ⟨hc.trans hcustomer, hl.trans hlines, ht⟩
  · rintro ⟨hc, hl, ht⟩
    exact ⟨hc.trans hcustomer.symm, hl.trans hlines.symm, ht⟩

end CreatedFrom

/-! ### Equal payloads -/

section Same

variable {payload payload' : CreateOrderInput}

/-- Two lines that are written in the same way ask for the same thing. -/
theorem OrderItem.line_eq_of_same {item item' : OrderItem} (hqty : item.qty.isFinite = true)
    (h : Json.Same item.json item'.json) : item'.line = item.line := by
  obtain ⟨sku', hsku', hsku⟩ := h.get? item'.distinct item.sku_eq
  obtain ⟨qty', hqty', hnum⟩ := h.get? item'.distinct item.qty_eq
  have hskus : item'.sku = item.sku := by
    rw [item'.sku_eq] at hsku'
    obtain rfl := Option.some.inj hsku'
    exact hsku.str_inj
  have hqtys : item'.qty = item.qty := by
    rw [item'.qty_eq] at hqty'
    obtain rfl := Option.some.inj hqty'
    exact hnum.num_inj hqty
  rw [OrderItem.line, OrderItem.line, hskus, hqtys]

theorem OrderItem.lines_eq_of_forall₂ {items items' : List OrderItem}
    (hqty : ∀ item ∈ items, item.qty.isFinite = true)
    (h : List.Forall₂ Json.Same (items.map (·.json)) (items'.map (·.json))) :
    items'.map line = items.map line := by
  rw [List.forall₂_map_left_iff, List.forall₂_map_right_iff] at h
  induction h with
  | nil => rfl
  | cons hsame _ ih =>
    rw [List.map_cons, List.map_cons, line_eq_of_same (hqty _ (List.mem_cons_self ..)) hsame,
      ih fun item hitem => hqty item (List.mem_cons_of_mem _ hitem)]

/-- An order stored for a payload that is written like another answers the other one too. -/
theorem OrderRecord.StoredFrom.answersStored {P : Platform} {o : OrderRecord}
    (ho : o.StoredFrom P payload') (hfinite : payload.FiniteNumbers)
    (h : Json.Same payload.json payload'.json) : o.AnswersStored payload where
  customerId_eq := by
    obtain ⟨v, hv, hsame⟩ := h.get? payload'.distinct payload.customerId_eq
    rw [payload'.customerId_eq] at hv
    obtain rfl := Option.some.inj hv
    rw [ho.customerId_eq, hsame.str_inj]
  lines_eq := by
    obtain ⟨v, hv, hsame⟩ := h.get? payload'.distinct payload.items_eq
    rw [payload'.items_eq] at hv
    obtain rfl := Option.some.inj hv
    have hlines := OrderItem.lines_eq_of_forall₂ hfinite.qty hsame.arr_inj
    have hkept := congrArg (List.map fun line => (toWellFormed line.1, line.2)) hlines
    rw [List.map_map, List.map_map] at hkept
    exact ho.lines_eq.trans hkept
  totalAmount_eq := by
    obtain ⟨v, hv, hsame⟩ := h.get? payload'.distinct payload.totalAmount_eq
    rw [payload'.totalAmount_eq] at hv
    obtain rfl := Option.some.inj hv
    rw [ho.totalAmount_eq, hsame.num_inj hfinite.totalAmount]

/-- **Equal hashes mean equal requests**, as far as the order is concerned. -/
theorem OrderRecord.answersStored_of_payloadHash_eq {P : Platform} (hsha : P.CollisionFree)
    (hP : P.NumbersReadable) {o : OrderRecord} (ho : o.StoredFrom P payload')
    (hfinite : payload.FiniteNumbers) (hhash : o.payloadHash = hashPayload P payload.json) :
    o.AnswersStored payload := by
  have htext : stableSerialize P payload.json = stableSerialize P payload'.json :=
    stableSerialize_eq_of_hashPayload_eq hsha hP (hhash.symm.trans ho.payloadHash_eq)
  exact ho.answersStored hfinite (same_of_stableSerialize_eq hP htext)

end Same

/-! ### Every call is answered for its own request -/

/-- The order that the call has returned has the call's key, and the hash of the call's payload. It
was created from this payload, or it is a stored one. -/
def CreateOrder.Answered (P : Platform) (call : CreateOrder) : Prop :=
  ∀ result, call.pc = .returned (.ok result) →
    result.order.requestId = call.idempotencyKey ∧
      result.order.payloadHash = hashPayload P call.payload.json ∧
      (result.created = true → result.order.CreatedFrom P call.payload) ∧
      (result.created = false → ∃ payload, result.order.StoredFrom P payload)

/-- The same for any call; only `createOrder` returns an order for a payload. -/
def Call.Answered (P : Platform) : Call → Prop
  | .createOrder call => call.Answered P
  | _ => True

/-- Every stored order was created from some payload, whose hash it still has. -/
def Collection.Created (P : Platform) (c : Collection) : Prop :=
  ∀ o ∈ c.docs, ∃ payload, o.StoredFrom P payload

section Steps

variable {P : Platform} {config : AppConfig} {c : Collection} {input : Input}

theorem Call.Steps.created {call : Call} {r : Reaction Call} (hcreated : c.Created P)
    (hprep : call.Prepared P c) (h : Call.Steps P config c call input r) : r.orders.Created P := by
  intro o ho
  rcases h.mem_orders ho with ⟨o₀, ho₀, hext⟩ | ⟨create, payloadHash, uuid, now, rfl, hpc, rfl⟩
  · obtain ⟨payload, hpayload⟩ := hcreated o₀ ho₀
    exact ⟨payload, hpayload.of_extends hext⟩
  · have hhash : payloadHash = hashPayload P create.payload.json := by
      simpa only [Call.Prepared, CreateOrder.Prepared, hpc] using hprep
    rw [hhash]
    exact ⟨create.payload, (OrderRecord.CreatedFrom.newOrder P create.payload
      create.idempotencyKey uuid now).stored⟩

theorem CreateOrder.answered_of_error {call : CreateOrder} {error : ServiceError} :
    (call.finish (.error error)).Answered P := by
  intro result hpc
  exact absurd (CreateOrder.Pc.returned.inj hpc) (by simp)

theorem CreateOrder.Steps.answered {call : CreateOrder} {r : Reaction CreateOrder}
    (hcreated : c.Created P) (hprep : call.Prepared P c) (h : CreateOrder.Steps P c call input r) :
    r.call.Answered P := by
  obtain ⟨hpayload, hidempotencyKey⟩ := h.arguments_eq
  cases h with
  | lookedUp =>
    intro result hresult
    obtain ⟨order, hfound, hhash, rfl⟩ := of_afterLookup_returned hresult
    obtain ⟨hmem, hkey⟩ := findByRequestId_eq_some_iff.mp hfound
    rw [hpayload, hidempotencyKey]
    exact ⟨hkey, hhash, fun hnew => Bool.noConfusion hnew, fun _ => hcreated order hmem⟩
  | inserted => exact fun _ hpc => CreateOrder.Pc.noConfusion hpc
  | @published order sentAt hpc =>
    intro result hresult
    obtain rfl := Except.ok.inj (CreateOrder.Pc.returned.inj hresult)
    simp only [Prepared, hpc] at hprep
    obtain ⟨⟨uuid, now, rfl⟩, -⟩ := hprep
    exact ⟨rfl, rfl, fun _ => .newOrder P call.payload call.idempotencyKey uuid now,
      fun hold => Bool.noConfusion hold⟩
  | rejected => exact answered_of_error
  | landed => exact answered_of_error
  | refused => exact answered_of_error
  | failed => exact answered_of_error

theorem Call.Steps.answered {call : Call} {r : Reaction Call} (hcreated : c.Created P)
    (hprep : call.Prepared P c) (h : Call.Steps P config c call input r) : r.call.Answered P := by
  cases h with
  | createOrder h => exact CreateOrder.Steps.answered hcreated hprep h
  | _ => trivial

end Steps

namespace Service

variable {P : Platform} {config : AppConfig} {p : Input → Prop} {s : State}

theorem relyGuarantee_created (P : Platform) (config : AppConfig) (p : Input → Prop) :
    Interleave.RelyGuarantee start (act P config) p
      (fun w => w.orders.WellFormed ∧ w.orders.Created P)
      (fun w call => call.Prepared P w.orders ∧ call.Answered P)
      (fun w w' => w.orders.Extends w'.orders) where
  start := by
    intro w request w' call hw h
    obtain ⟨rfl, rfl⟩ := Prod.mk.inj (Option.some.inj h)
    refine ⟨hw, .refl w.orders, request.prepared P w.orders, ?_⟩
    cases request with
    | createOrder => exact fun _ hpc => CreateOrder.Pc.noConfusion hpc
    | _ => trivial
  act := by
    intro w call input w' call' hw hcall _ h
    obtain ⟨r, hstep, rfl, rfl⟩ := act_steps h
    obtain ⟨hwf, hext, hprep⟩ := Call.Steps.prepared hw.1 hcall.1 hstep
    exact ⟨⟨hwf, hstep.created hw.2 hcall.1⟩, hext, hprep, hstep.answered hw.2 hcall.1⟩
  stable := fun hw hw' hext hcall => ⟨hcall.1.stable hw.1 hw'.1 hext, hcall.2⟩

theorem Reachable.answered (h : Reachable P config p s) :
    s.shared.orders.Created P ∧ ∀ call ∈ s.activations, call.Answered P := by
  have hinit : init.shared.orders.Created P := fun _ ho => absurd ho (List.not_mem_nil)
  obtain ⟨hshared, hcalls⟩ := Interleave.invariant (relyGuarantee_created P config p) h
    ⟨Collection.wellFormed_empty, hinit⟩ fun _ hcall => absurd hcall (List.not_mem_nil)
  exact ⟨hshared.2, fun call hcall => (hcalls call hcall).2⟩

/-- The step of a `createOrder` call whose key belongs to an order about something else: the call
ends with a conflict, and nothing else happens. -/
theorem step_find_of_not_answers (hsha : P.CollisionFree) (hP : P.NumbersReadable)
    (hcreated : s.shared.orders.Created P) {i : ℕ} {payload : CreateOrderInput} {key : String}
    {o : OrderRecord} (hfinite : payload.FiniteNumbers) (ho : o ∈ s.shared.orders.docs)
    (hkey : o.requestId = key) (hother : ¬ o.AnswersStored payload)
    (hi : s.activations[i]? = some (.createOrder ⟨payload, key, .lookup⟩)) :
    step P config s (.resume i (.find .ok)) = some
      { shared := s.shared
        activations := s.activations.set i (.createOrder ⟨payload, key, .returned
          (.error (.idempotencyConflict "Payload mismatch for provided Idempotency-Key"))⟩) } := by
  obtain ⟨payload', hpayload'⟩ := hcreated o ho
  have hfound : findByRequestId s.shared.orders key = some o :=
    findByRequestId_eq_some_iff.mpr ⟨ho, hkey⟩
  have hhash : o.payloadHash ≠ hashPayload P payload.json := fun hhash =>
    hother (OrderRecord.answersStored_of_payloadHash_eq hsha hP hpayload' hfinite hhash)
  refine Interleave.step_resume_eq_some.mpr ⟨_, _, _, hi, ?_, rfl⟩
  simp [act, Call.step, CreateOrder.step, CreateOrder.afterLookup, hfound, hhash,
    CreateOrder.finish, Reaction.map, World.after]

/-- A stored order is still stored in every later state, about the same things. -/
theorem exists_not_answers {t : State} (h : Reachable P config p s)
    (hrun : Run.Reachable (step P config) (Interleave.Action.Inputs p) s t)
    {payload : CreateOrderInput} {o : OrderRecord} (ho : o ∈ s.shared.orders.docs)
    (hother : ¬ o.AnswersStored payload) :
    ∃ o' ∈ t.shared.orders.docs, o'.requestId = o.requestId ∧ ¬ o'.AnswersStored payload := by
  obtain ⟨hwf, hprep⟩ := h.invariant
  have hextends := Interleave.related (relyGuarantee P config p) (fun w => .refl w.orders)
    (fun _ _ _ h h' => h.trans h') hrun hwf hprep
  obtain ⟨o', ho', hext⟩ := hextends o.id o (findById_of_mem ho)
  refine ⟨o', (findById_eq_some_iff.mp ho').1, hext.requestId_eq, fun hanswers => hother ?_⟩
  exact ⟨hext.customerId_eq ▸ hanswers.customerId_eq, hext.items_eq ▸ hanswers.lines_eq,
    hext.totalAmount_eq ▸ hanswers.totalAmount_eq⟩

/-- **A replay never answers for a different request.** An order that a `createOrder` call has
created is about what the call asks for, and one that it has replayed is about what the database
keeps of it; once an order about something else is stored under a key, a call with that key ends at
its lookup with a conflict, which changes nothing. What the database keeps of a payload is what the
payload asks for, unless it has lone surrogates. -/
theorem returned_answers (hsha : P.CollisionFree) (hP : P.NumbersReadable)
    (h : Reachable P config p s) :
    (∀ payload key result, .createOrder ⟨payload, key, .returned (.ok result)⟩ ∈ s.activations →
      payload.FiniteNumbers → result.order.requestId = key ∧
        (result.created = true → result.order.Answers payload) ∧
        (result.created = false → result.order.AnswersStored payload)) ∧
    (∀ payload key o, payload.FiniteNumbers → o ∈ s.shared.orders.docs → o.requestId = key →
      ¬ o.AnswersStored payload →
      ∀ t i, Run.Reachable (step P config) (Interleave.Action.Inputs p) s t →
      t.activations[i]? = some (.createOrder ⟨payload, key, .lookup⟩) →
      step P config t (.resume i (.find .ok)) = some
        { shared := t.shared
          activations := t.activations.set i (.createOrder ⟨payload, key, .returned (.error
            (.idempotencyConflict "Payload mismatch for provided Idempotency-Key"))⟩) }) ∧
    (∀ (payload : CreateOrderInput) (o : OrderRecord), payload.WellFormedText →
      (o.AnswersStored payload ↔ o.Answers payload)) := by
  refine ⟨?_, ?_, fun _ _ htext => OrderRecord.answersStored_iff htext⟩
  · intro payload key result hcall hfinite
    obtain ⟨hkey, hhash, hcreated, hreplayed⟩ := h.answered.2 _ hcall result rfl
    refine ⟨hkey, fun hnew => (hcreated hnew).answers, fun hold => ?_⟩
    obtain ⟨payload', hpayload'⟩ := hreplayed hold
    exact OrderRecord.answersStored_of_payloadHash_eq hsha hP hpayload' hfinite hhash
  · intro payload key o hfinite ho hkey hother t i hrun hi
    obtain ⟨o', ho', hkey', hother'⟩ := exists_not_answers h hrun ho hother
    have hcreated : t.shared.orders.Created P := (Reachable.answered (h.trans hrun)).1
    exact step_find_of_not_answers hsha hP hcreated hfinite ho' (hkey'.trans hkey) hother' hi

/-- A create, its replay, and the start of a call for another amount under the same key. -/
def replayAndConflict : List Action :=
  creating 0 (samplePayload 10) "key" "id" "2024-05-01T10:00:00.000Z" ++
    [.invoke (.createOrder (samplePayload 10) "key"), .resume 1 (.find .ok),
      .invoke (.createOrder (samplePayload 20) "key")]

theorem samplePayload_finiteNumbers (q : ℚ) : (samplePayload q).FiniteNumbers where
  totalAmount := rfl
  qty := by
    intro item hitem
    obtain rfl := List.mem_singleton.mp hitem
    rfl

theorem samplePayload_wellFormedText (q : ℚ) : (samplePayload q).WellFormedText where
  customerId := rfl
  sku := by
    intro item hitem
    obtain rfl := List.mem_singleton.mp hitem
    rfl

theorem returned_answers_replayAndConflict :
    ∃ s result, Run.run (step .reference .default) init replayAndConflict = some s ∧
      .createOrder ⟨samplePayload 10, "key", .returned (.ok result)⟩ ∈ s.activations ∧
      result.created = false ∧ result.order.requestId = "key" ∧
      result.order.Answers (samplePayload 10) ∧
      step .reference .default s (.resume 2 (.find .ok)) = some
        { shared := s.shared
          activations := s.activations.set 2 (.createOrder ⟨samplePayload 20, "key", .returned
            (.error (.idempotencyConflict
              "Payload mismatch for provided Idempotency-Key"))⟩) } := by
  have hrun : (Run.run (step .reference .default) init replayAndConflict).map
      (fun s => s.shared.orders.docs.map fun o => (o.requestId, o.totalAmount))
      = some [("key", .finite 10)] := by decide
  have hreplayed : (Run.run (step .reference .default) init replayAndConflict).bind
      (fun s => s.activations[1]?)
      = some (.createOrder ⟨samplePayload 10, "key", .returned (.ok ⟨_, false⟩)⟩) := rfl
  have hstarted : (Run.run (step .reference .default) init replayAndConflict).bind
      (fun s => s.activations[2]?) = some (.createOrder ⟨samplePayload 20, "key", .lookup⟩) := rfl
  obtain ⟨s, hs, hdocs⟩ := Option.map_eq_some_iff.mp hrun
  rw [hs, Option.bind_some] at hreplayed hstarted
  obtain ⟨o, ho, hfields⟩ := List.mem_map.mp (hdocs ▸ List.mem_singleton_self ("key", _))
  obtain ⟨hkey, htotal⟩ := Prod.mk.inj hfields
  have hother : ¬ o.AnswersStored (samplePayload 20) := by
    intro hanswers
    have htotal' : JsNumber.finite 10 = .finite 20 := htotal.symm.trans hanswers.totalAmount_eq
    exact absurd (JsNumber.finite.inj htotal') (by decide)
  obtain ⟨hreturned, hconflict, hiff⟩ := returned_answers (p := fun _ => True)
    Platform.reference_collisionFree Platform.reference_numbersReadable
    ⟨_, fun a _ => a.inputs_true, hs⟩
  have hmem := List.mem_of_getElem? hreplayed
  obtain ⟨hkey', -, hanswers⟩ := hreturned _ _ _ hmem (samplePayload_finiteNumbers 10)
  exact ⟨s, _, hs, hmem, rfl, hkey',
    (hiff _ _ (samplePayload_wellFormedText 10)).mp (hanswers rfl),
    hconflict (samplePayload 20) "key" o (samplePayload_finiteNumbers 20) ho hkey hother s 2
      (.refl s) hstarted⟩

/-- A customer whose name is one lone surrogate. -/
def lonePayload : CreateOrderInput := .of [0xD800] [(js "A", .finite 1)] (.finite 10)

/-- **A replay may name another customer than its request**: the order was stored with U+FFFD in
place of a lone surrogate, and the request is not turned away either. -/
theorem returned_not_answers :
    ∃ s result, Run.run (step .reference .default) init
        (creating 0 lonePayload "key" "id" "2024-05-01T10:00:00.000Z" ++
          [.invoke (.createOrder lonePayload "key"), .resume 1 (.find .ok)]) = some s ∧
      s.activations[1]? = some (.createOrder ⟨lonePayload, "key", .returned (.ok result)⟩) ∧
      result.created = false ∧ result.order ∈ s.shared.orders.docs ∧
      result.order.customerId = [0xFFFD] ∧ ¬ result.order.Answers lonePayload := by
  refine ⟨_, _, rfl, rfl, rfl, List.mem_singleton_self _, rfl, fun h => ?_⟩
  exact absurd h.customerId_eq (by decide)

end Service

end OrderProcessing
