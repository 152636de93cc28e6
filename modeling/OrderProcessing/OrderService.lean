import OrderProcessing.DeliveryClient
import OrderProcessing.Hash
import OrderProcessing.OrderRepository
import OrderProcessing.ProductAvailability

/-!
# The order service

`src/services/order-service.ts`. The methods are asynchronous: between two of its awaited operations
a call is suspended and any other call may run. So each method is a small state machine. Its states
are the points where the source awaits a database operation, a `sendMessage` or a Delivery request;
the code between two such points runs as one step.

## What the environment decides

Every value that the program does not compute is part of the step's `Input`: clock readings, the
`randomUUID`, what Delivery answers, whether the queue accepts a message, and what becomes of a
database operation (`Answer`). A step is then a function, and a run is determined by its inputs.

A database operation may be rejected after it took effect; that is `Answer.landed`. `insertOne` may
also be rejected by a unique index, which the collection decides and not the environment.

## Main definitions

* `canTransition`, `prepareStatusUpdate` — the synchronous core of the lifecycle rules
* `CreateOrder`, `StatusUpdate`, `StatusValidation`, `OrderCreatedEvent` — the running calls
* `CreateOrder.step`, `StatusUpdate.step`, `StatusValidation.step`, `OrderCreatedEvent.step`
-/

namespace OrderProcessing

/-! ### Errors -/

/-- What the methods of `OrderService` throw. -/
inductive ServiceError
  | idempotencyConflict (message : String)
  | orderNotFound (orderId : String)
  | statusConflict (message : String)
  | productUnavailable (message : String) (details : Option (List UnavailableItem))
  /-- The `RangeError` of `toISOString` on an invalid date. -/
  | invalidTime
  /-- The `TypeError` of reading a property of `undefined` or `null`. -/
  | noProperties
  /-- The rejection of `insertOne` by a unique index. -/
  | duplicateKey
  /-- Any other rejection by the database driver. -/
  | storage
  /-- The rejection of `sendMessage`. -/
  | queue
  | delivery (error : DeliveryError)
  deriving DecidableEq

namespace ServiceError

/-- The `name` of the error, which identifies its class. -/
def name : ServiceError → String
  | idempotencyConflict _ => "IdempotencyConflictError"
  | orderNotFound _ => "OrderNotFoundError"
  | statusConflict _ => "StatusConflictError"
  | productUnavailable _ _ => "ProductUnavailableError"
  | invalidTime => "RangeError"
  | noProperties => "TypeError"
  | duplicateKey => "MongoServerError"
  | storage => "MongoError"
  | queue => "QueueError"
  | delivery _ => "DeliveryError"

/-- An error of the database driver that the service did not translate. -/
def isRawStorage : ServiceError → Bool
  | duplicateKey => true
  | storage => true
  | _ => false

end ServiceError

/-! ### The lifecycle rules -/

/-- `allowedTransitions`. -/
def allowedTransitions : OrderStatus → List OrderStatus
  | .pendingShipment => [.shipped]
  | .shipped => [.delivered]
  | .delivered => []

/-- `canTransition`. -/
def canTransition (current next : OrderStatus) : Bool :=
  if current = next then false else (allowedTransitions current).contains next

/-- The table is exactly the successor relation of the lifecycle. -/
theorem canTransition_iff {current next : OrderStatus} :
    canTransition current next = true ↔ next.rank = current.rank + 1 := by
  cases current <;> cases next <;> decide

/-- `prepareStatusUpdate`, after its `findById`. An `input` of `none` is `undefined`: the status
handler passes it on when a message without an event reaches it. -/
def prepareStatusUpdate (P : Platform) (orderId : String) (input : Option StatusUpdateInput)
    (found : Option OrderRecord) : Except ServiceError (OrderRecord × Option StatusEvent) :=
  match found with
  | none => .error (.orderNotFound orderId)
  | some order =>
    match input with
    | none => .error .noProperties
    | some input =>
      if order.hasEvent input.eventId then .ok (order, none)
      else if !canTransition order.status input.status then
        .error (.statusConflict ("Invalid status transition from " ++ order.status.text ++ " to "
          ++ input.status.text))
      else
        match P.toISOString input.atTime with
        | none => .error .invalidTime
        | some canonicalTimestamp =>
          .ok (order, some
            { eventId := input.eventId, status := input.status, atTime := canonicalTimestamp })

/-! ### Inputs and effects -/

/-- What becomes of a database operation. -/
inductive Answer
  | ok
  /-- Rejected, and it has not taken effect. -/
  | lost
  /-- Rejected, although it has taken effect. -/
  | landed
  deriving DecidableEq

/-- The environment's part in one step of a call. -/
inductive Input
  | find (answer : Answer)
  | insertOne (uuid now : String) (answer : Answer)
  | sendMessage (accepted : Bool) (sentAt : String)
  | findOneAndUpdate (now : String) (answer : Answer)
  | fetch (exchange : Exchange) (requestedAt : String)
  | updateOne (now : String) (answer : Answer)

/-- The database rejects no operation (a unique index may still reject an insert). -/
def Input.databaseAnswers : Input → Bool
  | .find answer => answer = .ok
  | .insertOne _ _ answer => answer = .ok
  | .findOneAndUpdate _ answer => answer = .ok
  | .updateOne _ answer => answer = .ok
  | _ => true

/-- No operation fails: the database rejects none, and the queue accepts the message. -/
def Input.succeeds : Input → Bool
  | .sendMessage accepted _ => accepted
  | input => input.databaseAnswers

theorem Input.databaseAnswers_of_succeeds {input : Input} (h : input.succeeds = true) :
    input.databaseAnswers = true := by
  cases input with
  | sendMessage => rfl
  | _ => exact h

/-- `OrderCreatedQueuePayload`. -/
structure OrderCreatedPayload where
  orderId : String
  customerId : JsString
  totalAmount : JsNumber
  status : OrderStatus
  createdAt : String
  items : List OrderItem

/-- The payload that `publishOrderCreated` builds. -/
def orderCreatedPayload (order : OrderRecord) : OrderCreatedPayload where
  orderId := order.id
  customerId := order.customerId
  totalAmount := order.totalAmount
  status := order.status
  createdAt := order.createdAt
  items := order.items

/-- What a step does outside the database. -/
inductive Effect
  /-- The queue accepted an order-created message. -/
  | published (payload : OrderCreatedPayload) (sentAt : String)
  /-- A request was sent to Delivery. -/
  | requested (request : ShipmentRequest)

/-- The result of one step of a call: the collection, the call, and what else happened. -/
structure Reaction (κ : Type) where
  orders : Collection
  call : κ
  effect : Option Effect

/-! ### `createOrder` -/

/-- `CreateOrderResult`: the order, and whether this call has created it. -/
structure CreateOrderResult where
  order : OrderRecord
  created : Bool

/-- Where a `createOrder` call is suspended. -/
inductive CreateOrder.Pc
  | lookup
  | insert (payloadHash : JsString)
  | publish (order : OrderRecord)
  | returned (result : Except ServiceError CreateOrderResult)

/-- A `createOrder` call. -/
structure CreateOrder where
  payload : CreateOrderInput
  idempotencyKey : String
  pc : CreateOrder.Pc

/-- The record that `createOrder` builds. -/
def newOrder (payload : CreateOrderInput) (idempotencyKey : String) (payloadHash : JsString)
    (uuid now : String) : OrderRecord where
  id := uuid
  customerId := payload.customerId
  items := payload.items
  totalAmount := payload.totalAmount
  status := .pendingShipment
  requestId := idempotencyKey
  payloadHash := payloadHash
  createdAt := now
  updatedAt := now
  version := 1
  statusHistory :=
    [{ eventId := "order-created-" ++ idempotencyKey, status := .pendingShipment, atTime := now }]
  shipment := none

namespace CreateOrder

/-- The call has returned or thrown. -/
def completed (call : CreateOrder) : Bool :=
  match call.pc with
  | .returned _ => true
  | _ => false

/-- The end of the call. -/
def finish (call : CreateOrder) (result : Except ServiceError CreateOrderResult) : CreateOrder :=
  { call with pc := .returned result }

/-- From `findByRequestId` to the insert, or to the end of the call. -/
def afterLookup (P : Platform) (call : CreateOrder) (existing : Option OrderRecord) : CreateOrder :=
  let payloadHash := hashPayload P call.payload.json
  match existing with
  | some existing =>
    if existing.payloadHash ≠ payloadHash then
      call.finish (.error (.idempotencyConflict "Payload mismatch for provided Idempotency-Key"))
    else
      call.finish (.ok { order := existing, created := false })
  | none =>
    let availability := checkAvailability call.payload.items
    if !availability.available then
      call.finish (.error (.productUnavailable
        (availability.message.getD "Requested items are unavailable")
        availability.unavailableItems))
    else
      { call with pc := .insert payloadHash }

/-- The insert of the new record. -/
def afterInsert (orders : Collection) (call : CreateOrder) (order : OrderRecord) :
    Answer → Reaction CreateOrder
  | .ok =>
    match OrderRepository.create orders order with
    | some orders' =>
      { orders := orders', call := { call with pc := .publish order }, effect := none }
    | none => { orders := orders, call := call.finish (.error .duplicateKey), effect := none }
  | .lost => { orders := orders, call := call.finish (.error .storage), effect := none }
  | .landed =>
    { orders := (OrderRepository.create orders order).getD orders
      call := call.finish (.error .storage)
      effect := none }

/-- One step of a `createOrder` call. -/
def step (P : Platform) (orders : Collection) (call : CreateOrder) (input : Input) :
    Option (Reaction CreateOrder) :=
  match call.pc, input with
  | .lookup, .find .ok =>
    let existing := OrderRepository.findByRequestId orders call.idempotencyKey
    some { orders := orders, call := call.afterLookup P existing, effect := none }
  | .lookup, .find _ =>
    some { orders := orders, call := call.finish (.error .storage), effect := none }
  | .insert payloadHash, .insertOne uuid now answer =>
    some (call.afterInsert orders
      (newOrder call.payload call.idempotencyKey payloadHash uuid now) answer)
  | .publish order, .sendMessage true sentAt =>
    some
      { orders := orders
        call := call.finish (.ok { order := order, created := true })
        effect := some (.published (orderCreatedPayload order) sentAt) }
  | .publish _, .sendMessage false _ =>
    some { orders := orders, call := call.finish (.error .queue), effect := none }
  | _, _ => none

end CreateOrder

/-! ### `applyStatusUpdate` -/

/-- Where an `applyStatusUpdate` call is suspended. -/
inductive StatusUpdate.Pc
  | lookup
  | append (order : OrderRecord) (event : StatusEvent)
  | reread
  | returned (result : Except ServiceError OrderRecord)

/-- An `applyStatusUpdate` call. -/
structure StatusUpdate where
  orderId : String
  input : Option StatusUpdateInput
  pc : StatusUpdate.Pc

namespace StatusUpdate

/-- The call has returned or thrown. -/
def completed (call : StatusUpdate) : Bool :=
  match call.pc with
  | .returned _ => true
  | _ => false

/-- The end of the call. -/
def finish (call : StatusUpdate) (result : Except ServiceError OrderRecord) : StatusUpdate :=
  { call with pc := .returned result }

/-- From the `findById` of `prepareStatusUpdate` to the write, or to the end of the call. -/
def afterLookup (P : Platform) (call : StatusUpdate) (found : Option OrderRecord) : StatusUpdate :=
  match prepareStatusUpdate P call.orderId call.input found with
  | .error error => call.finish (.error error)
  | .ok (order, none) => call.finish (.ok order)
  | .ok (order, some event) => { call with pc := .append order event }

/-- The conditional write. -/
def afterAppend (call : StatusUpdate) (write : Option OrderRecord × Collection) :
    Reaction StatusUpdate :=
  match write with
  | (some updated, orders) =>
    { orders := orders, call := call.finish (.ok updated), effect := none }
  | (none, orders) => { orders := orders, call := { call with pc := .reread }, effect := none }

/-- The re-read after a lost race. -/
def afterReread (call : StatusUpdate) (latest : Option OrderRecord) : StatusUpdate :=
  let conflict := call.finish
    (.error (.statusConflict "Concurrent modification detected while updating status"))
  match latest, call.input with
  | some latest, some input =>
    if latest.hasEvent input.eventId then call.finish (.ok latest) else conflict
  | _, _ => conflict

/-- One step of an `applyStatusUpdate` call. -/
def step (P : Platform) (orders : Collection) (call : StatusUpdate) (input : Input) :
    Option (Reaction StatusUpdate) :=
  match call.pc, input with
  | .lookup, .find .ok =>
    let found := OrderRepository.findById orders call.orderId
    some { orders := orders, call := call.afterLookup P found, effect := none }
  | .append order event, .findOneAndUpdate now answer =>
    let write := OrderRepository.appendStatusEvent orders call.orderId event event.status
      order.version now
    match answer with
    | .ok => some (call.afterAppend write)
    | .lost =>
      some { orders := orders, call := call.finish (.error .storage), effect := none }
    | .landed =>
      some { orders := write.2, call := call.finish (.error .storage), effect := none }
  | .reread, .find .ok =>
    let latest := OrderRepository.findById orders call.orderId
    some { orders := orders, call := call.afterReread latest, effect := none }
  | .lookup, .find _ | .reread, .find _ =>
    some { orders := orders, call := call.finish (.error .storage), effect := none }
  | _, _ => none

end StatusUpdate

/-! ### `validateStatusUpdate` -/

/-- Where a `validateStatusUpdate` call is suspended. -/
inductive StatusValidation.Pc
  | lookup
  | returned (result : Except ServiceError (OrderRecord × Option StatusEvent))

/-- A `validateStatusUpdate` call. -/
structure StatusValidation where
  orderId : String
  input : StatusUpdateInput
  pc : StatusValidation.Pc

/-- The call has returned or thrown. -/
def StatusValidation.completed (call : StatusValidation) : Bool :=
  match call.pc with
  | .returned _ => true
  | _ => false

/-- One step of a `validateStatusUpdate` call. -/
def StatusValidation.step (P : Platform) (orders : Collection) (call : StatusValidation)
    (input : Input) : Option (Reaction StatusValidation) :=
  match call.pc, input with
  | .lookup, .find .ok =>
    let found := OrderRepository.findById orders call.orderId
    let result := prepareStatusUpdate P call.orderId (some call.input) found
    some { orders := orders, call := { call with pc := .returned result }, effect := none }
  | .lookup, .find _ =>
    some
      { orders := orders
        call := { call with pc := .returned (.error .storage) }
        effect := none }
  | _, _ => none

/-! ### `handleOrderCreatedEvent` -/

/-- Where a `handleOrderCreatedEvent` call is suspended. -/
inductive OrderCreatedEvent.Pc
  | lookup
  /-- Inside `createShipment`, before the attempt of that number. -/
  | deliver (order : OrderRecord) (attempt : ℕ)
  | store (order : OrderRecord) (metadata : ShipmentMetadata)
  | returned (result : Except ServiceError Unit)

/-- A `handleOrderCreatedEvent` call. -/
structure OrderCreatedEvent where
  orderId : String
  pc : OrderCreatedEvent.Pc

namespace OrderCreatedEvent

/-- The call has returned or thrown. -/
def completed (call : OrderCreatedEvent) : Bool :=
  match call.pc with
  | .returned _ => true
  | _ => false

/-- The end of the call. -/
def finish (call : OrderCreatedEvent) (result : Except ServiceError Unit) : OrderCreatedEvent :=
  { call with pc := .returned result }

/-- From `findById` to the Delivery call, or to the end of the call. -/
def afterLookup (call : OrderCreatedEvent) (found : Option OrderRecord) : OrderCreatedEvent :=
  match found with
  | none => call.finish (.ok ())
  | some order =>
    if order.hasShipment then call.finish (.ok ())
    else { call with pc := .deliver order 0 }

/-- One attempt of `createShipment`, up to the next attempt, the database write or the end. -/
def afterFetch (maxRetries : ℚ) (call : OrderCreatedEvent) (order : OrderRecord) (attempt : ℕ)
    (exchange : Exchange) (requestedAt : String) : OrderCreatedEvent :=
  match retryStep maxRetries shouldRetry attempt (deliveryOperation exchange) with
  | .again attempt => { call with pc := .deliver order attempt }
  | .thrown error => call.finish (.error (.delivery error))
  | .returned response =>
    match buildShipmentMetadata requestedAt response with
    | none => call.finish (.error .noProperties)
    | some metadata => { call with pc := .store order metadata }

/-- One step of a `handleOrderCreatedEvent` call. -/
def step (maxRetries : ℚ) (orders : Collection) (call : OrderCreatedEvent) (input : Input) :
    Option (Reaction OrderCreatedEvent) :=
  match call.pc, input with
  | .lookup, .find .ok =>
    let found := OrderRepository.findById orders call.orderId
    some { orders := orders, call := call.afterLookup found, effect := none }
  | .lookup, .find _ =>
    some { orders := orders, call := call.finish (.error .storage), effect := none }
  | .deliver order attempt, .fetch exchange requestedAt =>
    if retryAllowed maxRetries attempt then
      some
        { orders := orders
          call := call.afterFetch maxRetries order attempt exchange requestedAt
          effect := some (.requested (shipmentRequest order)) }
    else
      some
        { orders := orders
          call := call.finish (.error (.delivery .unexpectedState))
          effect := none }
  | .store order metadata, .updateOne now answer =>
    let write := OrderRepository.updateShipmentMetadata orders order.id metadata now
    match answer with
    | .ok => some { orders := write, call := call.finish (.ok ()), effect := none }
    | .lost =>
      some { orders := orders, call := call.finish (.error .storage), effect := none }
    | .landed =>
      some { orders := write, call := call.finish (.error .storage), effect := none }
  | _, _ => none

end OrderCreatedEvent

end OrderProcessing
