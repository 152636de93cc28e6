import OrderProcessing.OrderService

/-!
# What one step of a call can do

One inductive predicate for each kind of call, with one constructor for each way the source can go
on from a suspension point, and the lemma that a step is one of them. Every invariant is a case
analysis over these constructors; none unfolds a step function again.
-/

namespace OrderProcessing

open OrderRepository

variable {P : Platform} {orders : Collection} {input : Input}

/-! ### `createOrder` -/

namespace CreateOrder

variable {call : CreateOrder} {r : Reaction CreateOrder}

/-- The ways a step of `createOrder` goes. -/
inductive Steps (P : Platform) (orders : Collection) (call : CreateOrder) :
    Input → Reaction CreateOrder → Prop
  | lookedUp : call.pc = .lookup →
      Steps P orders call (.find .ok)
        ⟨orders, call.afterLookup P (findByRequestId orders call.idempotencyKey), none⟩
  | inserted {payloadHash uuid now orders'} : call.pc = .insert payloadHash →
      create orders (newOrder call.payload call.idempotencyKey payloadHash uuid now)
        = some orders' →
      Steps P orders call (.insertOne uuid now .ok)
        ⟨orders',
          { call with
            pc := .publish (newOrder call.payload call.idempotencyKey payloadHash uuid now) }, none⟩
  | rejected {payloadHash uuid now} : call.pc = .insert payloadHash →
      create orders (newOrder call.payload call.idempotencyKey payloadHash uuid now) = none →
      Steps P orders call (.insertOne uuid now .ok)
        ⟨orders, call.finish (.error .duplicateKey), none⟩
  | landed {payloadHash uuid now orders'} : call.pc = .insert payloadHash →
      create orders (newOrder call.payload call.idempotencyKey payloadHash uuid now)
        = some orders' →
      Steps P orders call (.insertOne uuid now .landed)
        ⟨orders', call.finish (.error .storage), none⟩
  | published {order sentAt} : call.pc = .publish order →
      Steps P orders call (.sendMessage true sentAt)
        ⟨orders, call.finish (.ok { order := order, created := true }),
          some (.published (orderCreatedPayload order) sentAt)⟩
  | refused {order sentAt} : call.pc = .publish order →
      Steps P orders call (.sendMessage false sentAt) ⟨orders, call.finish (.error .queue), none⟩
  | failed {cause : Input} : cause.databaseAnswers = false → (∀ order, call.pc ≠ .publish order) →
      call.completed = false →
      Steps P orders call cause ⟨orders, call.finish (.error .storage), none⟩

theorem steps (h : call.step P orders input = some r) : Steps P orders call input r := by
  unfold step at h
  split at h
  · next hpc => cases h; exact .lookedUp hpc
  · next answer hanswer hpc =>
    cases h
    exact .failed (by simpa [Input.databaseAnswers] using hanswer) (by simp [hpc])
      (by simp [completed, hpc])
  · next payloadHash uuid now answer hpc =>
    cases h
    cases answer with
    | ok =>
      rw [afterInsert]
      split
      · next horders => exact .inserted hpc horders
      · next horders => exact .rejected hpc horders
    | lost =>
      exact .failed (by simp [Input.databaseAnswers]) (by simp [hpc]) (by simp [completed, hpc])
    | landed =>
      rw [afterInsert]
      cases hcreate : create orders
          (newOrder call.payload call.idempotencyKey payloadHash uuid now) with
      | some orders' => exact .landed hpc hcreate
      | none =>
        exact .failed (by simp [Input.databaseAnswers]) (by simp [hpc]) (by simp [completed, hpc])
  · next order sentAt hpc => cases h; exact .published hpc
  · next order sentAt hpc => cases h; exact .refused hpc
  · simp at h

/-! From a known suspension point there are few ways to go on. -/

theorem Steps.of_lookup (h : Steps P orders call input r) (hpc : call.pc = .lookup)
    (hanswers : input.databaseAnswers = true) :
    input = .find .ok ∧
      r = ⟨orders, call.afterLookup P (findByRequestId orders call.idempotencyKey), none⟩ := by
  cases h with
  | lookedUp => exact ⟨rfl, rfl⟩
  | failed hfailed => simp [hanswers] at hfailed
  | inserted h => simp [hpc] at h
  | rejected h => simp [hpc] at h
  | landed h => simp [hpc] at h
  | published h => simp [hpc] at h
  | refused h => simp [hpc] at h

theorem Steps.of_insert {payloadHash : JsString} (h : Steps P orders call input r)
    (hpc : call.pc = .insert payloadHash) (hanswers : input.databaseAnswers = true) :
    ∃ uuid now order, input = .insertOne uuid now .ok ∧
      order = newOrder call.payload call.idempotencyKey payloadHash uuid now ∧
      ((∃ orders', create orders order = some orders' ∧
          r = ⟨orders', { call with pc := .publish order }, none⟩) ∨
        (create orders order = none ∧ r = ⟨orders, call.finish (.error .duplicateKey), none⟩)) := by
  cases h with
  | @inserted hash uuid now orders' h hcreate =>
    obtain rfl : payloadHash = hash := CreateOrder.Pc.insert.inj (hpc.symm.trans h)
    exact ⟨uuid, now, _, rfl, rfl, Or.inl ⟨orders', hcreate, rfl⟩⟩
  | @rejected hash uuid now h hcreate =>
    obtain rfl : payloadHash = hash := CreateOrder.Pc.insert.inj (hpc.symm.trans h)
    exact ⟨uuid, now, _, rfl, rfl, Or.inr ⟨hcreate, rfl⟩⟩
  | failed hfailed => simp [hanswers] at hfailed
  | landed => simp [Input.databaseAnswers] at hanswers
  | lookedUp h => simp [hpc] at h
  | published h => simp [hpc] at h
  | refused h => simp [hpc] at h

theorem Steps.of_publish {order : OrderRecord} (h : Steps P orders call input r)
    (hpc : call.pc = .publish order) :
    ∃ accepted sentAt, input = .sendMessage accepted sentAt ∧
      r = if accepted then
          ⟨orders, call.finish (.ok { order := order, created := true }),
            some (.published (orderCreatedPayload order) sentAt)⟩
        else ⟨orders, call.finish (.error .queue), none⟩ := by
  cases h with
  | @published order' sentAt h =>
    obtain rfl : order = order' := CreateOrder.Pc.publish.inj (hpc.symm.trans h)
    exact ⟨true, sentAt, rfl, rfl⟩
  | @refused order' sentAt h => exact ⟨false, sentAt, rfl, rfl⟩
  | failed _ h => exact absurd hpc (h order)
  | lookedUp h => simp [hpc] at h
  | inserted h => simp [hpc] at h
  | rejected h => simp [hpc] at h
  | landed h => simp [hpc] at h

theorem Steps.not_completed (h : Steps P orders call input r) : call.completed = false := by
  cases h with
  | failed _ _ h => exact h
  | lookedUp hpc => simp [completed, hpc]
  | inserted hpc => simp [completed, hpc]
  | rejected hpc => simp [completed, hpc]
  | landed hpc => simp [completed, hpc]
  | published hpc => simp [completed, hpc]
  | refused hpc => simp [completed, hpc]

theorem Steps.not_returned {outcome : Except ServiceError CreateOrderResult}
    (h : Steps P orders call input r) : call.pc ≠ .returned outcome := by
  intro hpc
  have := h.not_completed
  simp [completed, hpc] at this

/-- A lookup that finds an order ends the call; one that misses ends it or goes on to the insert. -/
theorem afterLookup_cases (P : Platform) (call : CreateOrder) (existing : Option OrderRecord) :
    (∃ order, existing = some order ∧ order.payloadHash ≠ hashPayload P call.payload.json ∧
      call.afterLookup P existing = call.finish
        (.error (.idempotencyConflict "Payload mismatch for provided Idempotency-Key"))) ∨
    (∃ order, existing = some order ∧ order.payloadHash = hashPayload P call.payload.json ∧
      call.afterLookup P existing = call.finish (.ok { order := order, created := false })) ∨
    (existing = none ∧ (checkAvailability call.payload.items).available = false ∧
      ∃ message details, call.afterLookup P existing = call.finish
        (.error (.productUnavailable message details))) ∨
    (existing = none ∧ (checkAvailability call.payload.items).available = true ∧
      call.afterLookup P existing =
        { call with pc := .insert (hashPayload P call.payload.json) }) := by
  cases existing with
  | some order =>
    by_cases hhash : order.payloadHash = hashPayload P call.payload.json
    · exact Or.inr (Or.inl ⟨order, rfl, hhash, by simp [afterLookup, hhash]⟩)
    · exact Or.inl ⟨order, rfl, hhash, by simp [afterLookup, hhash]⟩
  | none =>
    cases havail : (checkAvailability call.payload.items).available with
    | false =>
      refine Or.inr (Or.inr (Or.inl ⟨rfl, rfl,
        (checkAvailability call.payload.items).message.getD "Requested items are unavailable",
        (checkAvailability call.payload.items).unavailableItems, ?_⟩))
      simp [afterLookup, havail]
    | true => exact Or.inr (Or.inr (Or.inr ⟨rfl, rfl, by simp [afterLookup, havail]⟩))

/-- A lookup that ends the call with an order has found it, with the hash of the payload. -/
theorem of_afterLookup_returned {existing : Option OrderRecord} {result : CreateOrderResult}
    (h : (call.afterLookup P existing).pc = .returned (.ok result)) :
    ∃ order, existing = some order ∧ order.payloadHash = hashPayload P call.payload.json ∧
      result = { order := order, created := false } := by
  rcases call.afterLookup_cases P existing with
    ⟨_, _, _, heq⟩ | ⟨order, ho, hhash, heq⟩ | ⟨_, _, _, _, heq⟩ | ⟨_, _, heq⟩
  · simp [heq, finish] at h
  · rw [heq] at h
    exact ⟨order, ho, hhash, (Except.ok.inj (CreateOrder.Pc.returned.inj h)).symm⟩
  · simp [heq, finish] at h
  · simp [heq] at h

/-- A call keeps its arguments. -/
theorem Steps.arguments_eq (h : Steps P orders call input r) :
    r.call.payload = call.payload ∧ r.call.idempotencyKey = call.idempotencyKey := by
  cases h with
  | lookedUp =>
    rcases call.afterLookup_cases P (findByRequestId orders call.idempotencyKey) with
      ⟨_, _, _, heq⟩ | ⟨_, _, _, heq⟩ | ⟨_, _, _, _, heq⟩ | ⟨_, _, heq⟩
    all_goals
      rw [heq]
      exact ⟨rfl, rfl⟩
  | _ => exact ⟨rfl, rfl⟩

end CreateOrder

/-! ### `prepareStatusUpdate` -/

section Prepare

variable {orderId : String} {update : Option StatusUpdateInput} {found : Option OrderRecord}
  {order : OrderRecord} {event : StatusEvent}

/-- An update without an event to append is a duplicate. -/
theorem prepareStatusUpdate_eq_duplicate_iff :
    prepareStatusUpdate P orderId update found = .ok (order, none) ↔
      found = some order ∧ ∃ input, update = some input ∧ order.hasEvent input.eventId = true := by
  cases found with
  | none => simp [prepareStatusUpdate]
  | some o =>
    cases update with
    | none => simp [prepareStatusUpdate]
    | some input =>
      simp only [prepareStatusUpdate]
      split
      · next hev => aesop
      · next hev =>
        split
        · simp; rintro rfl; simpa using hev
        · split <;> simp <;> rintro rfl <;> simpa using hev

/-- An event to append is new to the order and leads to the direct successor of its status. -/
theorem prepareStatusUpdate_eq_event_iff :
    prepareStatusUpdate P orderId update found = .ok (order, some event) ↔
      found = some order ∧ ∃ input, update = some input ∧ order.hasEvent input.eventId = false ∧
        input.status.rank = order.status.rank + 1 ∧ event.eventId = input.eventId ∧
        event.status = input.status ∧ P.toISOString input.atTime = some event.atTime := by
  cases found with
  | none => simp [prepareStatusUpdate]
  | some o =>
    cases update with
    | none => simp [prepareStatusUpdate]
    | some input =>
      simp only [prepareStatusUpdate]
      split
      · next hev => simp; rintro rfl h; simp [hev] at h
      · next hev =>
        split
        · next htrans =>
          simp only [reduceCtorEq, false_iff, not_and]
          rintro h ⟨input', hinput, -, hrank, -⟩
          cases h
          cases hinput
          simp [canTransition_iff.mpr hrank] at htrans
        · next htrans =>
          have hrank := canTransition_iff.mp (by simpa using htrans)
          split
          · next htime => simp; rintro rfl _ _ _ _ h; simp [htime] at h
          · next text htime =>
            constructor
            · rintro h
              cases h
              exact ⟨rfl, input, rfl, by simpa using hev, hrank, rfl, rfl, htime⟩
            · rintro ⟨h, input', hinput, -, -, hid, hstatus, htime'⟩
              cases h
              cases hinput
              obtain ⟨eventId, status, atTime⟩ := event
              simp_all

/-- A new event for any status but the direct successor is a conflict. -/
theorem prepareStatusUpdate_of_not_successor {input : StatusUpdateInput}
    (hnew : order.hasEvent input.eventId = false)
    (hrank : input.status.rank ≠ order.status.rank + 1) :
    prepareStatusUpdate P orderId (some input) (some order) = .error (.statusConflict
      ("Invalid status transition from " ++ order.status.text ++ " to " ++ input.status.text)) := by
  have htrans : canTransition order.status input.status = false := by
    rw [← Bool.not_eq_true, canTransition_iff]
    exact hrank
  simp [prepareStatusUpdate, hnew, htrans]

end Prepare

/-! ### `applyStatusUpdate` -/

namespace StatusUpdate

variable {call : StatusUpdate} {r : Reaction StatusUpdate}

/-- The ways a step of `applyStatusUpdate` goes. -/
inductive Steps (P : Platform) (orders : Collection) (call : StatusUpdate) :
    Input → Reaction StatusUpdate → Prop
  | lookedUp : call.pc = .lookup →
      Steps P orders call (.find .ok)
        ⟨orders, call.afterLookup P (findById orders call.orderId), none⟩
  | appended {order event updated orders' now} : call.pc = .append order event →
      appendStatusEvent orders call.orderId event event.status order.version now
        = (some updated, orders') →
      Steps P orders call (.findOneAndUpdate now .ok) ⟨orders', call.finish (.ok updated), none⟩
  | lostRace {order event now} : call.pc = .append order event →
      appendStatusEvent orders call.orderId event event.status order.version now = (none, orders) →
      Steps P orders call (.findOneAndUpdate now .ok) ⟨orders, { call with pc := .reread }, none⟩
  | landed {order event updated orders' now} : call.pc = .append order event →
      appendStatusEvent orders call.orderId event event.status order.version now
        = (some updated, orders') →
      Steps P orders call (.findOneAndUpdate now .landed)
        ⟨orders', call.finish (.error .storage), none⟩
  | reread : call.pc = .reread →
      Steps P orders call (.find .ok)
        ⟨orders, call.afterReread (findById orders call.orderId), none⟩
  | failed {cause : Input} : cause.databaseAnswers = false →
      call.completed = false →
      Steps P orders call cause ⟨orders, call.finish (.error .storage), none⟩

theorem steps (h : call.step P orders input = some r) : Steps P orders call input r := by
  unfold step at h
  split at h
  · next hpc => cases h; exact .lookedUp hpc
  · next order event now answer hpc =>
    have hnone : ∀ orders',
        appendStatusEvent orders call.orderId event event.status order.version now
          = (none, orders') → orders' = orders := fun _ => appendStatusEvent_of_none
    rcases hwrite : appendStatusEvent orders call.orderId event event.status order.version now with
      ⟨updated | updated, orders'⟩
    · obtain rfl := hnone _ hwrite
      cases answer with
      | ok => simp only [hwrite, afterAppend] at h; cases h; exact .lostRace hpc hwrite
      | lost => cases h; exact .failed rfl (by simp [completed, hpc])
      | landed => simp only [hwrite] at h; cases h; exact .failed rfl (by simp [completed, hpc])
    · cases answer with
      | ok => simp only [hwrite, afterAppend] at h; cases h; exact .appended hpc hwrite
      | lost => cases h; exact .failed rfl (by simp [completed, hpc])
      | landed => simp only [hwrite] at h; cases h; exact .landed hpc hwrite
  · next hpc => cases h; exact .reread hpc
  · next answer hanswer hpc =>
    cases h
    exact .failed (by simpa [Input.databaseAnswers] using hanswer) (by simp [completed, hpc])
  · next answer hanswer hpc =>
    cases h
    exact .failed (by simpa [Input.databaseAnswers] using hanswer) (by simp [completed, hpc])
  · simp at h

theorem Steps.not_completed (h : Steps P orders call input r) : call.completed = false := by
  cases h with
  | failed _ h => exact h
  | lookedUp hpc => simp [completed, hpc]
  | appended hpc => simp [completed, hpc]
  | lostRace hpc => simp [completed, hpc]
  | landed hpc => simp [completed, hpc]
  | reread hpc => simp [completed, hpc]

end StatusUpdate

/-! ### `validateStatusUpdate` -/

namespace StatusValidation

variable {call : StatusValidation} {r : Reaction StatusValidation}

/-- The ways a step of `validateStatusUpdate` goes. -/
inductive Steps (P : Platform) (orders : Collection) (call : StatusValidation) :
    Input → Reaction StatusValidation → Prop
  | lookedUp : call.pc = .lookup →
      Steps P orders call (.find .ok)
        ⟨orders, { call with pc := .returned (prepareStatusUpdate P call.orderId (some call.input)
          (findById orders call.orderId)) }, none⟩
  | failed {cause : Input} : cause.databaseAnswers = false → call.pc = .lookup →
      Steps P orders call cause ⟨orders, { call with pc := .returned (.error .storage) }, none⟩

theorem steps (h : call.step P orders input = some r) : Steps P orders call input r := by
  unfold step at h
  split at h
  · next hpc => cases h; exact .lookedUp hpc
  · next answer hanswer hpc =>
    cases h
    exact .failed (by simpa [Input.databaseAnswers] using hanswer) hpc
  · simp at h

theorem Steps.not_completed (h : Steps P orders call input r) : call.completed = false := by
  cases h with
  | lookedUp hpc => simp [completed, hpc]
  | failed _ hpc => simp [completed, hpc]

end StatusValidation

/-! ### `handleOrderCreatedEvent` -/

namespace OrderCreatedEvent

variable {maxRetries : ℚ} {call : OrderCreatedEvent} {r : Reaction OrderCreatedEvent}

/-- The ways a step of `handleOrderCreatedEvent` goes. -/
inductive Steps (maxRetries : ℚ) (orders : Collection) (call : OrderCreatedEvent) :
    Input → Reaction OrderCreatedEvent → Prop
  | lookedUp : call.pc = .lookup →
      Steps maxRetries orders call (.find .ok)
        ⟨orders, call.afterLookup (findById orders call.orderId), none⟩
  | fetched {order attempt exchange requestedAt} : call.pc = .deliver order attempt →
      retryAllowed maxRetries attempt = true →
      Steps maxRetries orders call (.fetch exchange requestedAt)
        ⟨orders, call.afterFetch maxRetries order attempt exchange requestedAt,
          some (.requested (shipmentRequest order))⟩
  | exhausted {order attempt exchange requestedAt} : call.pc = .deliver order attempt →
      retryAllowed maxRetries attempt = false →
      Steps maxRetries orders call (.fetch exchange requestedAt)
        ⟨orders, call.finish (.error (.delivery .unexpectedState)), none⟩
  | stored {order metadata now} : call.pc = .store order metadata →
      Steps maxRetries orders call (.updateOne now .ok)
        ⟨updateShipmentMetadata orders order.id metadata now, call.finish (.ok ()), none⟩
  | landed {order metadata now} : call.pc = .store order metadata →
      Steps maxRetries orders call (.updateOne now .landed)
        ⟨updateShipmentMetadata orders order.id metadata now, call.finish (.error .storage), none⟩
  | failed {cause : Input} : cause.databaseAnswers = false → call.completed = false →
      Steps maxRetries orders call cause ⟨orders, call.finish (.error .storage), none⟩

theorem steps (h : call.step maxRetries orders input = some r) :
    Steps maxRetries orders call input r := by
  unfold step at h
  split at h
  · next hpc => cases h; exact .lookedUp hpc
  · next answer hanswer hpc =>
    cases h
    exact .failed (by simpa [Input.databaseAnswers] using hanswer) (by simp [completed, hpc])
  · next order attempt exchange requestedAt hpc =>
    split at h
    · next hallowed => cases h; exact .fetched hpc hallowed
    · next hallowed => cases h; exact .exhausted hpc (by simpa using hallowed)
  · next order metadata now answer hpc =>
    cases answer with
    | ok => cases h; exact .stored hpc
    | lost => cases h; exact .failed rfl (by simp [completed, hpc])
    | landed => cases h; exact .landed hpc
  · simp at h

theorem Steps.not_completed (h : Steps maxRetries orders call input r) :
    call.completed = false := by
  cases h with
  | failed _ h => exact h
  | lookedUp hpc => simp [completed, hpc]
  | fetched hpc => simp [completed, hpc]
  | exhausted hpc => simp [completed, hpc]
  | stored hpc => simp [completed, hpc]
  | landed hpc => simp [completed, hpc]

/-- After the lookup the call is over, or it is about to send the first request for an order that
has no shipment. -/
theorem afterLookup_cases (call : OrderCreatedEvent) (found : Option OrderRecord) :
    call.afterLookup found = call.finish (.ok ()) ∨
      ∃ order, found = some order ∧ order.hasShipment = false ∧
        call.afterLookup found = { call with pc := .deliver order 0 } := by
  cases found with
  | none => exact Or.inl rfl
  | some order =>
    cases hship : order.hasShipment with
    | true => exact Or.inl (by simp [afterLookup, hship])
    | false => exact Or.inr ⟨order, rfl, hship, by simp [afterLookup, hship]⟩

/-- After an attempt the call is over, tries again with the same order, or goes on to the write. -/
theorem afterFetch_cases (maxRetries : ℚ) (call : OrderCreatedEvent) (order : OrderRecord)
    (attempt : ℕ) (exchange : Exchange) (requestedAt : String) :
    (∃ error, call.afterFetch maxRetries order attempt exchange requestedAt
      = call.finish (.error error)) ∨
    call.afterFetch maxRetries order attempt exchange requestedAt
      = { call with pc := .deliver order (attempt + 1) } ∨
    (∃ metadata, call.afterFetch maxRetries order attempt exchange requestedAt
      = { call with pc := .store order metadata }) := by
  rw [afterFetch]
  cases hop : deliveryOperation exchange with
  | ok response =>
    simp only [retryStep]
    cases hmeta : buildShipmentMetadata requestedAt response with
    | none => exact Or.inl ⟨_, rfl⟩
    | some metadata => exact Or.inr (Or.inr ⟨metadata, rfl⟩)
  | error error =>
    simp only [retryStep]
    split
    · next heq => split at heq <;> simp at heq; exact Or.inr (Or.inl (by rw [heq]))
    · exact Or.inl ⟨_, rfl⟩
    · next heq => split at heq <;> simp at heq

/-- A call keeps its argument. -/
theorem Steps.orderId_eq (h : Steps maxRetries orders call input r) :
    r.call.orderId = call.orderId := by
  cases h with
  | lookedUp =>
    rcases call.afterLookup_cases (findById orders call.orderId) with heq | ⟨_, _, _, heq⟩
    all_goals exact (congrArg OrderCreatedEvent.orderId heq).trans rfl
  | @fetched order attempt exchange requestedAt =>
    rcases afterFetch_cases maxRetries call order attempt exchange requestedAt with
      ⟨_, heq⟩ | heq | ⟨_, heq⟩
    all_goals exact (congrArg OrderCreatedEvent.orderId heq).trans rfl
  | _ => rfl

end OrderCreatedEvent

end OrderProcessing
