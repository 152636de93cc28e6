import OrderProcessing.ForMathlib.Interleave
import OrderProcessing.ServiceSteps

/-!
# The service as a concurrent system

Any number of calls of the four methods of `OrderService` that touch the database, interleaved at
their suspension points. The calls share the collection; what they send to the queue and to Delivery
is logged in the order in which it happens, as the queue backend and Delivery see it.

The queue here is the `QueueClient` interface, which may accept or reject each message. The
in-memory queue, whose messages come back to the service, is added in `OrderProcessing.System`.

## Main definitions

* `Service.step` — one step of the system
* `Service.Reachable` — reachability from the empty database, by steps with admissible inputs
-/

namespace OrderProcessing

/-- The configuration that the modelled code reads. -/
structure AppConfig where
  /-- `DELIVERY_MAX_RETRIES`. -/
  maxRetries : ℚ
  /-- `ORDER_CREATED_QUEUE`. -/
  orderCreatedQueue : String
  /-- `ORDER_STATUS_QUEUE`. -/
  orderStatusQueue : String

/-- The defaults of the configuration schema. -/
def AppConfig.default : AppConfig where
  maxRetries := 3
  orderCreatedQueue := "order-created-events"
  orderStatusQueue := "order-status-events"

/-- A running call of the service. -/
inductive Call
  | createOrder (call : CreateOrder)
  | applyStatusUpdate (call : StatusUpdate)
  | validateStatusUpdate (call : StatusValidation)
  | handleOrderCreatedEvent (call : OrderCreatedEvent)

/-- A method with its arguments. -/
inductive Request
  | createOrder (payload : CreateOrderInput) (idempotencyKey : String)
  | applyStatusUpdate (orderId : String) (input : Option StatusUpdateInput)
  | validateStatusUpdate (orderId : String) (input : StatusUpdateInput)
  | handleOrderCreatedEvent (orderId : String)

/-- A call that has not yet made its first database operation. -/
def Request.call : Request → Call
  | .createOrder payload idempotencyKey => .createOrder ⟨payload, idempotencyKey, .lookup⟩
  | .applyStatusUpdate orderId input => .applyStatusUpdate ⟨orderId, input, .lookup⟩
  | .validateStatusUpdate orderId input => .validateStatusUpdate ⟨orderId, input, .lookup⟩
  | .handleOrderCreatedEvent orderId => .handleOrderCreatedEvent ⟨orderId, .lookup⟩

/-- The call has ended. -/
def Call.completed : Call → Bool
  | .createOrder call => call.completed
  | .applyStatusUpdate call => call.completed
  | .validateStatusUpdate call => call.completed
  | .handleOrderCreatedEvent call => call.completed

/-- The class of the error with which a call ended. -/
def Call.errorName : Call → Option String
  | .createOrder ⟨_, _, .returned (.error error)⟩ => some error.name
  | .applyStatusUpdate ⟨_, _, .returned (.error error)⟩ => some error.name
  | .validateStatusUpdate ⟨_, _, .returned (.error error)⟩ => some error.name
  | .handleOrderCreatedEvent ⟨_, .returned (.error error)⟩ => some error.name
  | _ => none

/-- The reaction of a call of one kind, as that of a call of any kind. -/
def Reaction.map {κ κ' : Type} (f : κ → κ') (r : Reaction κ) : Reaction κ' where
  orders := r.orders
  call := f r.call
  effect := r.effect

/-- One step of a call. -/
def Call.step (P : Platform) (config : AppConfig) (orders : Collection) (call : Call)
    (input : Input) : Option (Reaction Call) :=
  match call with
  | .createOrder c => (c.step P orders input).map (Reaction.map .createOrder)
  | .applyStatusUpdate c => (c.step P orders input).map (Reaction.map .applyStatusUpdate)
  | .validateStatusUpdate c => (c.step P orders input).map (Reaction.map .validateStatusUpdate)
  | .handleOrderCreatedEvent c =>
    (c.step config.maxRetries orders input).map (Reaction.map .handleOrderCreatedEvent)

/-- What the calls share, and what they have done outside the database. -/
structure World where
  orders : Collection
  effects : List Effect

/-- Record what a step did. -/
def World.after {κ : Type} (w : World) (r : Reaction κ) : World where
  orders := r.orders
  effects := w.effects ++ r.effect.toList

namespace Service

/-- The state of the system: the world and the calls, in the order in which they started. -/
abbrev State := Interleave.State World Call

/-- One atomic step of the service. -/
abbrev Action := Interleave.Action Request Input

/-- Starting a call touches nothing. -/
def start (w : World) (request : Request) : Option (World × Call) := some (w, request.call)

/-- One step of a call, with what it does to the database and the log. -/
def act (P : Platform) (config : AppConfig) (w : World) (call : Call) (input : Input) :
    Option (World × Call) :=
  (call.step P config w.orders input).map fun r => (w.after r, r.call)

/-- One step of the system. -/
def step (P : Platform) (config : AppConfig) : State → Action → Option State :=
  Interleave.step start (act P config)

/-- The stored orders `c`, and no call. -/
def initFrom (c : Collection) : State :=
  { shared := { orders := c, effects := [] }, activations := [] }

/-- The empty database, and no call. -/
def init : State := initFrom Collection.empty

/-- Reachability from the empty database, by inputs satisfying `p`. -/
def Reachable (P : Platform) (config : AppConfig) (p : Input → Prop) (s : State) : Prop :=
  Run.Reachable (step P config) (Interleave.Action.Inputs p) init s

/-- A `createOrder` call that starts as number `i` and is not disturbed. -/
def creating (i : ℕ) (payload : CreateOrderInput) (idempotencyKey uuid now : String) :
    List Action :=
  [.invoke (.createOrder payload idempotencyKey), .resume i (.find .ok),
    .resume i (.insertOne uuid now .ok), .resume i (.sendMessage true now)]

end Service

/-- The ways a step of a call goes. -/
inductive Call.Steps (P : Platform) (config : AppConfig) (orders : Collection) :
    Call → Input → Reaction Call → Prop
  | createOrder {c input r} : CreateOrder.Steps P orders c input r →
      Steps P config orders (.createOrder c) input (r.map .createOrder)
  | applyStatusUpdate {c input r} : StatusUpdate.Steps P orders c input r →
      Steps P config orders (.applyStatusUpdate c) input (r.map .applyStatusUpdate)
  | validateStatusUpdate {c input r} : StatusValidation.Steps P orders c input r →
      Steps P config orders (.validateStatusUpdate c) input (r.map .validateStatusUpdate)
  | handleOrderCreatedEvent {c input r} :
      OrderCreatedEvent.Steps config.maxRetries orders c input r →
      Steps P config orders (.handleOrderCreatedEvent c) input (r.map .handleOrderCreatedEvent)

theorem Call.steps {P : Platform} {config : AppConfig} {orders : Collection} {call : Call}
    {input : Input} {r : Reaction Call} (h : call.step P config orders input = some r) :
    Call.Steps P config orders call input r := by
  cases call with
  | createOrder c =>
    obtain ⟨r, hr, rfl⟩ := Option.map_eq_some_iff.mp h
    exact .createOrder (CreateOrder.steps hr)
  | applyStatusUpdate c =>
    obtain ⟨r, hr, rfl⟩ := Option.map_eq_some_iff.mp h
    exact .applyStatusUpdate (StatusUpdate.steps hr)
  | validateStatusUpdate c =>
    obtain ⟨r, hr, rfl⟩ := Option.map_eq_some_iff.mp h
    exact .validateStatusUpdate (StatusValidation.steps hr)
  | handleOrderCreatedEvent c =>
    obtain ⟨r, hr, rfl⟩ := Option.map_eq_some_iff.mp h
    exact .handleOrderCreatedEvent (OrderCreatedEvent.steps hr)

/-- A call that has ended takes no step. -/
theorem Call.Steps.not_completed {P : Platform} {config : AppConfig} {orders : Collection}
    {call : Call} {input : Input} {r : Reaction Call}
    (h : Call.Steps P config orders call input r) :
    call.completed = false := by
  cases h with
  | createOrder h => exact h.not_completed
  | applyStatusUpdate h => exact h.not_completed
  | validateStatusUpdate h => exact h.not_completed
  | handleOrderCreatedEvent h => exact h.not_completed

theorem Service.act_steps {P : Platform} {config : AppConfig} {w w' : World} {call call' : Call}
    {input : Input} (h : Service.act P config w call input = some (w', call')) :
    ∃ r, Call.Steps P config w.orders call input r ∧ w' = w.after r ∧ call' = r.call := by
  obtain ⟨r, hr, heq⟩ := Option.map_eq_some_iff.mp h
  obtain ⟨rfl, rfl⟩ := Prod.mk.inj heq
  exact ⟨r, Call.steps hr, rfl, rfl⟩

end OrderProcessing
