import OrderProcessing.Lifecycle
import OrderProcessing.OutboundEventService

/-!
# The whole application

The two POST routes of `src/routes/orders.ts`, the two consumers that `src/plugins/services.ts` sets
up, and the in-memory queue between them. A request or a `consumeOne` call is a task; a task runs a
method of the service and then does something with its result: it answers, puts a message into the
queue, or acknowledges the message it holds or puts it back.

A poller of `src/utils/queue-workers.ts`, and a debug route that processes a queue, only calls
`consumeOne` again and again; since nothing keeps two of them from overlapping, any number of
`consumeOne` calls may run at any time.

## Main definitions

* `Payload` — what the two queues carry
* `Task` — a running request or `consumeOne` call
* `System.step`, `System.Reachable`

## Main results

* `System.Reachable.service`, `System.Reachable.queue` — a run of the application is a run of the
  service, and a run of the queue
-/

namespace OrderProcessing

/-! ### Messages -/

/-- The payload of a message. -/
inductive Payload
  | orderCreated (payload : OrderCreatedPayload)
  | statusUpdate (orderId : String) (event : StatusEvent)

/-- `payload.orderId`, which both kinds have. -/
def Payload.orderId : Payload → String
  | .orderCreated payload => payload.orderId
  | .statusUpdate orderId _ => orderId

/-- `payload.event`, which an order-created payload does not have. -/
def Payload.event : Payload → Option StatusUpdateInput
  | .orderCreated _ => none
  | .statusUpdate _ event =>
    some { status := event.status, atTime := event.atTime, eventId := event.eventId }

/-! ### Tasks -/

/-- What the status route answers. -/
inductive Reply
  /-- 202. -/
  | accepted
  /-- 200, `duplicate: true`. -/
  | duplicate
  | badRequest (message : String)
  | notFound (orderId : String)
  | conflict (message : String)
  /-- The error is rethrown as it is. -/
  | rethrown (error : ServiceError)

/-- A running request or `consumeOne` call. A handler is there as soon as there is a message. -/
inductive Task
  | postOrder (call : CreateOrder)
  | postStatus (call : Option StatusValidation) (reply : Option Reply)
  | consumeOrderCreated (consumption : Consumption Payload) (handler : Option OrderCreatedEvent)
  | consumeStatus (consumption : Consumption Payload) (handler : Option StatusUpdate)

namespace System

/-- Database, effects and queue. -/
structure World where
  service : OrderProcessing.World
  queue : QueueWorld Payload

/-- The stored orders. -/
abbrev World.orders (w : World) : Collection := w.service.orders

/-- The world with another queue. -/
def World.withQueue (w : World) (queue : QueueWorld Payload) : World := { w with queue := queue }

/-- Record what a step of the service did; a published message goes into the queue. -/
def World.after {κ : Type} (config : AppConfig) (w : World) (r : Reaction κ) : World where
  service := w.service.after r
  queue :=
    match r.effect with
    | some (.published payload sentAt) =>
      w.queue.sendMessage config.orderCreatedQueue (.orderCreated payload) sentAt
    | _ => w.queue

/-- What makes the application start a task. -/
inductive Request
  | postOrder (payload : CreateOrderInput) (idempotencyKey : String)
  | postStatus (orderId : String) (input : StatusUpdateInput)
  | consumeOrderCreated
  | consumeStatus

/-- What a task is resumed with. -/
inductive Input
  /-- The service call of the task takes a step. -/
  | call (input : OrderProcessing.Input)
  /-- The task goes on with the result of its call. -/
  | settle (now : String)

/-- The database, the log and the queue, and all tasks. -/
abbrev State := Interleave.State World Task

/-- One atomic step of the application. -/
abbrev Action := Interleave.Action Request Input

/-- The message that a `consumeOne` call has just taken. -/
def taken (consumption : Consumption Payload) : Option (QueueMessage Payload) :=
  match consumption.pc with
  | .holding message => some message
  | _ => none

/-- A task starts; a consumer takes its message at once. -/
def start (P : Platform) (config : AppConfig) (w : World) : Request → Option (World × Task)
  | .postOrder payload idempotencyKey => some (w, .postOrder ⟨payload, idempotencyKey, .lookup⟩)
  | .postStatus orderId input =>
    -- `Date.parse` gives `NaN` exactly where `toISOString` throws
    match P.toISOString input.atTime with
    | none =>
      some (w, .postStatus none
        (some (.badRequest "Field \"at\" must be a valid ISO-8601 timestamp")))
    | some _ => some (w, .postStatus (some ⟨orderId, input, .lookup⟩) none)
  | .consumeOrderCreated =>
    let (queue, consumption) := Consumption.start w.queue config.orderCreatedQueue
    some (w.withQueue queue, .consumeOrderCreated consumption
      ((taken consumption).map fun message => ⟨message.payload.orderId, .lookup⟩))
  | .consumeStatus =>
    let (queue, consumption) := Consumption.start w.queue config.orderStatusQueue
    some (w.withQueue queue, .consumeStatus consumption
      ((taken consumption).map fun message =>
        ⟨message.payload.orderId, message.payload.event, .lookup⟩))

/-- What the status route does with the result of `validateStatusUpdate`. -/
def afterValidation (config : AppConfig) (w : World) (call : StatusValidation)
    (result : Except ServiceError (OrderRecord × Option StatusEvent)) (now : String) :
    World × Reply :=
  match result with
  | .ok (_, some event) =>
    (w.withQueue
      (w.queue.sendMessage config.orderStatusQueue (.statusUpdate call.orderId event) now),
      .accepted)
  | .ok (_, none) => (w, .duplicate)
  | .error (.orderNotFound orderId) => (w, .notFound orderId)
  | .error (.statusConflict message) => (w, .conflict message)
  | .error error => (w, .rethrown error)

/-- The handler has settled, normally or not. -/
def handled {α : Type} : Except ServiceError α → Bool
  | .ok _ => true
  | .error _ => false

/-- One step of a task. -/
def act (P : Platform) (config : AppConfig) (w : World) : Task → Input → Option (World × Task)
  -- the in-memory queue accepts every message
  | .postOrder _, .call (.sendMessage false _) => none
  | .postOrder call, .call input =>
    (call.step P w.orders input).map fun r => (w.after config r, .postOrder r.call)
  | .postStatus (some call) none, .call input =>
    (call.step P w.orders input).map fun r => (w.after config r, .postStatus (some r.call) none)
  | .postStatus (some call) none, .settle now =>
    match call.pc with
    | .returned result =>
      let (w, reply) := afterValidation config w call result now
      some (w, .postStatus (some call) (some reply))
    | _ => none
  | .consumeOrderCreated consumption (some handler), .call input =>
    (handler.step config.maxRetries w.orders input).map fun r =>
      (w.after config r, .consumeOrderCreated consumption (some r.call))
  | .consumeOrderCreated consumption (some handler), .settle now =>
    match handler.pc with
    | .returned result =>
      (consumption.settle w.queue (handled result) now).map fun r =>
        (w.withQueue r.1, .consumeOrderCreated r.2 (some handler))
    | _ => none
  | .consumeStatus consumption (some handler), .call input =>
    (handler.step P w.orders input).map fun r =>
      (w.after config r, .consumeStatus consumption (some r.call))
  | .consumeStatus consumption (some handler), .settle now =>
    match handler.pc with
    | .returned result =>
      (consumption.settle w.queue (handled result) now).map fun r =>
        (w.withQueue r.1, .consumeStatus r.2 (some handler))
    | _ => none
  | _, _ => none

/-- One step of the application. -/
def step (P : Platform) (config : AppConfig) : State → Action → Option State :=
  Interleave.step (start P config) (act P config)

/-- An empty database and an empty queue. -/
def init : State where
  shared := { service := { orders := Collection.empty, effects := [] }, queue := QueueWorld.empty }
  activations := []

/-- Reachability from an empty database and an empty queue, whatever the environment does. -/
def Reachable (P : Platform) (config : AppConfig) (s : State) : Prop :=
  Run.Reachable (step P config) (Interleave.Action.Inputs fun _ => True) init s

/-! ### Inversion -/

section Steps

variable {P : Platform} {config : AppConfig} {w w' : World} {task task' : Task}

/-- The ways a task starts. -/
inductive Starts (P : Platform) (config : AppConfig) (w : World) : Request → World → Task → Prop
  | postOrder (payload idempotencyKey) : Starts P config w (.postOrder payload idempotencyKey) w
      (.postOrder ⟨payload, idempotencyKey, .lookup⟩)
  | rejected (orderId input message) : Starts P config w (.postStatus orderId input) w
      (.postStatus none (some (.badRequest message)))
  | postStatus (orderId input) : Starts P config w (.postStatus orderId input) w
      (.postStatus (some ⟨orderId, input, .lookup⟩) none)
  | noOrderCreated : Starts P config w .consumeOrderCreated w
      (.consumeOrderCreated ⟨config.orderCreatedQueue, .returnedUndefined⟩ none)
  | orderCreated {message store} : message.queueName = config.orderCreatedQueue →
      (message :: store.messages).Perm w.queue.store.messages →
      Starts P config w .consumeOrderCreated (w.withQueue (w.queue.withStore store))
        (.consumeOrderCreated ⟨config.orderCreatedQueue, .holding message⟩
          (some ⟨message.payload.orderId, .lookup⟩))
  | noStatus : Starts P config w .consumeStatus w
      (.consumeStatus ⟨config.orderStatusQueue, .returnedUndefined⟩ none)
  | status {message store} : message.queueName = config.orderStatusQueue →
      (message :: store.messages).Perm w.queue.store.messages →
      Starts P config w .consumeStatus (w.withQueue (w.queue.withStore store))
        (.consumeStatus ⟨config.orderStatusQueue, .holding message⟩
          (some ⟨message.payload.orderId, message.payload.event, .lookup⟩))

theorem starts {request : Request} (h : start P config w request = some (w', task)) :
    Starts P config w request w' task := by
  cases request with
  | postOrder payload key =>
    obtain ⟨rfl, rfl⟩ := Prod.mk.inj (Option.some.inj h)
    exact .postOrder payload key
  | postStatus orderId input =>
    simp only [start] at h
    split at h
    · obtain ⟨rfl, rfl⟩ := Prod.mk.inj (Option.some.inj h)
      exact .rejected orderId input _
    · obtain ⟨rfl, rfl⟩ := Prod.mk.inj (Option.some.inj h)
      exact .postStatus orderId input
  | consumeOrderCreated =>
    rcases Consumption.start_cases w.queue config.orderCreatedQueue with
      heq | ⟨message, store, hname, hperm, heq⟩
    · simp only [start, heq] at h
      obtain ⟨rfl, rfl⟩ := Prod.mk.inj (Option.some.inj h)
      exact .noOrderCreated
    · simp only [start, heq] at h
      obtain ⟨rfl, rfl⟩ := Prod.mk.inj (Option.some.inj h)
      exact .orderCreated hname hperm
  | consumeStatus =>
    rcases Consumption.start_cases w.queue config.orderStatusQueue with
      heq | ⟨message, store, hname, hperm, heq⟩
    · simp only [start, heq] at h
      obtain ⟨rfl, rfl⟩ := Prod.mk.inj (Option.some.inj h)
      exact .noStatus
    · simp only [start, heq] at h
      obtain ⟨rfl, rfl⟩ := Prod.mk.inj (Option.some.inj h)
      exact .status hname hperm

/-- The ways a step of a task goes. -/
inductive Steps (P : Platform) (config : AppConfig) (w : World) :
    Task → Input → World → Task → Prop
  | createOrder {call input r} : call.step P w.orders input = some r →
      (∀ sentAt, input ≠ .sendMessage false sentAt) →
      Steps P config w (.postOrder call) (.call input) (w.after config r) (.postOrder r.call)
  | validate {call input r} : call.step P w.orders input = some r →
      Steps P config w (.postStatus (some call) none) (.call input) (w.after config r)
        (.postStatus (some r.call) none)
  | accept {call order event now} : call.pc = .returned (.ok (order, some event)) →
      Steps P config w (.postStatus (some call) none) (.settle now)
        (w.withQueue (w.queue.sendMessage config.orderStatusQueue
          (.statusUpdate call.orderId event) now))
        (.postStatus (some call) (some .accepted))
  | reply {call reply now} : reply ≠ .accepted →
      Steps P config w (.postStatus (some call) none) (.settle now) w
        (.postStatus (some call) (some reply))
  | handleOrderCreated {consumption handler input r} :
      handler.step config.maxRetries w.orders input = some r →
      Steps P config w (.consumeOrderCreated consumption (some handler)) (.call input)
        (w.after config r) (.consumeOrderCreated consumption (some r.call))
  | settleOrderCreated {consumption consumption' handler result queue now} :
      handler.pc = .returned result →
      consumption.settle w.queue (handled result) now = some (queue, consumption') →
      Steps P config w (.consumeOrderCreated consumption (some handler)) (.settle now)
        (w.withQueue queue) (.consumeOrderCreated consumption' (some handler))
  | handleStatus {consumption handler input r} : handler.step P w.orders input = some r →
      Steps P config w (.consumeStatus consumption (some handler)) (.call input)
        (w.after config r) (.consumeStatus consumption (some r.call))
  | settleStatus {consumption consumption' handler result queue now} :
      handler.pc = .returned result →
      consumption.settle w.queue (handled result) now = some (queue, consumption') →
      Steps P config w (.consumeStatus consumption (some handler)) (.settle now)
        (w.withQueue queue) (.consumeStatus consumption' (some handler))

theorem steps {input : Input} (h : act P config w task input = some (w', task')) :
    Steps P config w task input w' task' := by
  unfold act at h
  split at h
  · simp at h
  · next call input haccepted =>
    obtain ⟨r, hr, heq⟩ := Option.map_eq_some_iff.mp h
    obtain ⟨rfl, rfl⟩ := Prod.mk.inj heq
    exact .createOrder hr fun sentAt heq => haccepted sentAt (heq ▸ rfl)
  · obtain ⟨r, hr, heq⟩ := Option.map_eq_some_iff.mp h
    obtain ⟨rfl, rfl⟩ := Prod.mk.inj heq
    exact .validate hr
  · split at h
    · next call now result hpc =>
      obtain ⟨rfl, rfl⟩ := Prod.mk.inj (Option.some.inj h)
      rcases result with error | ⟨order, _ | event⟩
      · cases error <;> exact .reply (by simp)
      · exact .reply (by simp)
      · exact .accept hpc
    · simp at h
  · obtain ⟨r, hr, heq⟩ := Option.map_eq_some_iff.mp h
    obtain ⟨rfl, rfl⟩ := Prod.mk.inj heq
    exact .handleOrderCreated hr
  · split at h
    · next hpc =>
      obtain ⟨r, hr, heq⟩ := Option.map_eq_some_iff.mp h
      obtain ⟨rfl, rfl⟩ := Prod.mk.inj heq
      exact .settleOrderCreated hpc hr
    · simp at h
  · obtain ⟨r, hr, heq⟩ := Option.map_eq_some_iff.mp h
    obtain ⟨rfl, rfl⟩ := Prod.mk.inj heq
    exact .handleStatus hr
  · split at h
    · next hpc =>
      obtain ⟨r, hr, heq⟩ := Option.map_eq_some_iff.mp h
      obtain ⟨rfl, rfl⟩ := Prod.mk.inj heq
      exact .settleStatus hpc hr
    · simp at h
  · simp at h

end Steps

/-! ### A run of the service -/

/-- The service call of a task; one that never takes a step, if there is none. -/
def serviceCall : Task → Call
  | .postOrder call => .createOrder call
  | .postStatus (some call) _ => .validateStatusUpdate call
  | .consumeOrderCreated _ (some handler) => .handleOrderCreatedEvent handler
  | .consumeStatus _ (some handler) => .applyStatusUpdate handler
  | .postStatus none _ | .consumeOrderCreated _ none | .consumeStatus _ none =>
    .handleOrderCreatedEvent ⟨"", .lookup⟩

section Projections

variable {P : Platform} {config : AppConfig} {w w' : World} {task task' : Task}

theorem Starts.service {request : Request} (h : Starts P config w request w' task) :
    w'.service = w.service ∧ ∃ r : OrderProcessing.Request, serviceCall task = r.call := by
  have hidle : ∃ r : OrderProcessing.Request, Call.handleOrderCreatedEvent ⟨"", .lookup⟩ = r.call :=
    ⟨.handleOrderCreatedEvent "", rfl⟩
  cases h with
  | postOrder payload key => exact ⟨rfl, .createOrder payload key, rfl⟩
  | rejected => exact ⟨rfl, hidle⟩
  | postStatus orderId input => exact ⟨rfl, .validateStatusUpdate orderId input, rfl⟩
  | noOrderCreated => exact ⟨rfl, hidle⟩
  | orderCreated => exact ⟨rfl, .handleOrderCreatedEvent _, rfl⟩
  | noStatus => exact ⟨rfl, hidle⟩
  | status => exact ⟨rfl, .applyStatusUpdate _ _, rfl⟩

/-- A step of a task is a step of its service call, or none at all. -/
theorem Steps.service {input : Input} (h : Steps P config w task input w' task') :
    (w'.service = w.service ∧ serviceCall task' = serviceCall task) ∨
      ∃ input r, (serviceCall task).step P config w.orders input = some r ∧
        w'.service = w.service.after r ∧ serviceCall task' = r.call := by
  cases h with
  | @createOrder call input r hr _ =>
    exact Or.inr ⟨input, r.map .createOrder, congrArg (Option.map _) hr, rfl, rfl⟩
  | @validate call input r hr =>
    exact Or.inr ⟨input, r.map .validateStatusUpdate, congrArg (Option.map _) hr, rfl, rfl⟩
  | accept => exact Or.inl ⟨rfl, rfl⟩
  | reply => exact Or.inl ⟨rfl, rfl⟩
  | @handleOrderCreated consumption handler input r hr =>
    exact Or.inr ⟨input, r.map .handleOrderCreatedEvent, congrArg (Option.map _) hr, rfl, rfl⟩
  | settleOrderCreated => exact Or.inl ⟨rfl, rfl⟩
  | @handleStatus consumption handler input r hr =>
    exact Or.inr ⟨input, r.map .applyStatusUpdate, congrArg (Option.map _) hr, rfl, rfl⟩
  | settleStatus => exact Or.inl ⟨rfl, rfl⟩

/-- **A run of the application is a run of the service.** -/
theorem Reachable.service {s : State} (h : Reachable P config s) :
    Service.Reachable P config (fun _ => True) (s.map World.service serviceCall) := by
  show Run.Reachable (Interleave.step Service.start (Service.act P config)) _ _ _
  refine Interleave.image World.service serviceCall ?_ ?_ h
  · intro w request w' task hstart
    obtain ⟨hw, r, hr⟩ := (starts hstart).service
    exact ⟨r, by rw [hw, hr]; rfl⟩
  · intro w task input w' task' _ hact
    rcases (steps hact).service with hstutter | ⟨input, r, hr, hw, hcall⟩
    · exact Or.inl hstutter
    · refine Or.inr ⟨input, trivial, ?_⟩
      rw [Service.act, hw, hcall]
      exact congrArg (Option.map _) hr

/-- The service call of a task keeps the documents well formed, and knows what it should. -/
theorem Steps.prepared {input : Input} (hw : w.orders.WellFormed)
    (htask : (serviceCall task).Prepared P w.orders) (h : Steps P config w task input w' task') :
    w'.orders.WellFormed ∧ w.orders.Extends w'.orders ∧
      (serviceCall task').Prepared P w'.orders := by
  rcases h.service with ⟨hservice, hcall⟩ | ⟨input, r, hr, hservice, hcall⟩
  · have horders : w'.orders = w.orders := by rw [World.orders, hservice]
    rw [horders, hcall]
    exact ⟨hw, .refl w.orders, htask⟩
  · have horders : w'.orders = r.orders := by
      rw [World.orders, hservice, OrderProcessing.World.after]
    rw [horders, hcall]
    exact Call.Steps.prepared hw htask (Call.steps hr)

variable {s t : State}

theorem Reachable.prepared (h : Reachable P config s) : s.shared.orders.WellFormed ∧
    ∀ task ∈ s.activations, (serviceCall task).Prepared P s.shared.orders := by
  obtain ⟨hwf, hprep⟩ := h.service.invariant
  exact ⟨hwf, fun task htask => hprep _ (List.mem_map_of_mem htask)⟩

/-- One step of the application is a step of the service, or leaves the documents alone. -/
theorem extends_of_step {a : Action} (h : Reachable P config s)
    (hstep : step P config s a = some t) :
    s.shared.orders.Extends t.shared.orders := by
  obtain ⟨hwf, hprep⟩ := h.prepared
  cases a with
  | invoke request =>
    obtain ⟨w, task, hstart, rfl⟩ := Interleave.step_invoke_eq_some.mp hstep
    have hservice := (starts hstart).service.1
    show s.shared.service.orders.Extends w.service.orders
    rw [hservice]
    exact .refl _
  | resume i input =>
    obtain ⟨task, w, task', hi, hact, rfl⟩ := Interleave.step_resume_eq_some.mp hstep
    exact ((steps hact).prepared hwf (hprep task (List.mem_of_getElem? hi))).2.1

/-- The documents only grow along a run. -/
theorem extends_of_run (h : Reachable P config s)
    (hrun : Run.Reachable (step P config) (Interleave.Action.Inputs fun _ => True) s t) :
    s.shared.orders.Extends t.shared.orders :=
  (Run.Reachable.related_of_invariant (I := Reachable P config)
    (R := fun u v => u.shared.orders.Extends v.shared.orders) hrun h
    (fun _ _ _ hu ha hstep => Run.Reachable.tail hu ha hstep) (fun _ => .refl _)
    (fun _ _ _ h h' => h.trans h') fun _ _ _ hu _ hstep => extends_of_step hu hstep).2

/-! ### A run of the queue -/

/-- The part of a task that deals with the queue. -/
def queueActivation : Task → Queue.Activation Payload
  | .postOrder _ => .sender
  | .postStatus _ _ => .sender
  | .consumeOrderCreated consumption _ => .consumer consumption
  | .consumeStatus consumption _ => .consumer consumption

/-- Only an order that is being created is published. -/
theorem after_queue {κ : Type} {r : Reaction κ}
    (h : ∀ payload sentAt, r.effect ≠ some (.published payload sentAt)) :
    (w.after config r).queue = w.queue := by
  rcases heffect : r.effect with _ | (⟨payload, sentAt⟩ | request)
  · simp only [World.after, heffect]
  · exact absurd heffect (h payload sentAt)
  · simp only [World.after, heffect]

theorem not_published_of_validation {c : Collection} {call : StatusValidation}
    {input : OrderProcessing.Input} {r : Reaction StatusValidation}
    (h : call.step P c input = some r) (payload : OrderCreatedPayload) (sentAt : String) :
    r.effect ≠ some (.published payload sentAt) := by
  cases StatusValidation.steps h <;> simp

theorem not_published_of_statusUpdate {c : Collection} {call : StatusUpdate}
    {input : OrderProcessing.Input} {r : Reaction StatusUpdate}
    (h : call.step P c input = some r) (payload : OrderCreatedPayload) (sentAt : String) :
    r.effect ≠ some (.published payload sentAt) := by
  cases StatusUpdate.steps h <;> simp

theorem not_published_of_orderCreated {maxRetries : ℚ} {c : Collection} {call : OrderCreatedEvent}
    {input : OrderProcessing.Input} {r : Reaction OrderCreatedEvent}
    (h : call.step maxRetries c input = some r) (payload : OrderCreatedPayload) (sentAt : String) :
    r.effect ≠ some (.published payload sentAt) := by
  cases OrderCreatedEvent.steps h <;> simp

theorem start_queue {request : Request} (h : start P config w request = some (w', task)) :
    ∃ request', Queue.start w.queue request' = some (w'.queue, queueActivation task) := by
  cases request with
  | postOrder =>
    obtain ⟨rfl, rfl⟩ := Prod.mk.inj (Option.some.inj h)
    exact ⟨.sender, rfl⟩
  | postStatus orderId input =>
    simp only [start] at h
    split at h
    · obtain ⟨rfl, rfl⟩ := Prod.mk.inj (Option.some.inj h)
      exact ⟨.sender, rfl⟩
    · obtain ⟨rfl, rfl⟩ := Prod.mk.inj (Option.some.inj h)
      exact ⟨.sender, rfl⟩
  | consumeOrderCreated =>
    obtain ⟨rfl, rfl⟩ := Prod.mk.inj (Option.some.inj h)
    exact ⟨.consumeOne config.orderCreatedQueue, rfl⟩
  | consumeStatus =>
    obtain ⟨rfl, rfl⟩ := Prod.mk.inj (Option.some.inj h)
    exact ⟨.consumeOne config.orderStatusQueue, rfl⟩

/-- A step of a task is a step of its part in the queue, or none at all. -/
theorem Steps.queue {input : Input} (h : Steps P config w task input w' task') :
    (w'.queue = w.queue ∧ queueActivation task' = queueActivation task) ∨
      ∃ input', Queue.act w.queue (queueActivation task) input'
        = some (w'.queue, queueActivation task') := by
  cases h with
  | @createOrder call input r hr _ =>
    by_cases hpublished : ∃ payload sentAt, r.effect = some (.published payload sentAt)
    · obtain ⟨payload, sentAt, heffect⟩ := hpublished
      refine Or.inr ⟨.sendMessage config.orderCreatedQueue (.orderCreated payload) sentAt, ?_⟩
      simp only [World.after, heffect]
      rfl
    · push Not at hpublished
      exact Or.inl ⟨after_queue hpublished, rfl⟩
  | validate hr => exact Or.inl ⟨after_queue (not_published_of_validation hr), rfl⟩
  | @accept call order event now _ =>
    exact Or.inr ⟨.sendMessage config.orderStatusQueue (.statusUpdate call.orderId event) now, rfl⟩
  | reply => exact Or.inl ⟨rfl, rfl⟩
  | handleOrderCreated hr => exact Or.inl ⟨after_queue (not_published_of_orderCreated hr), rfl⟩
  | @settleOrderCreated _ _ _ result _ now _ hsettle =>
    exact Or.inr ⟨.settled (handled result) now, Option.map_eq_some_iff.mpr ⟨_, hsettle, rfl⟩⟩
  | handleStatus hr => exact Or.inl ⟨after_queue (not_published_of_statusUpdate hr), rfl⟩
  | @settleStatus _ _ _ result _ now _ hsettle =>
    exact Or.inr ⟨.settled (handled result) now, Option.map_eq_some_iff.mpr ⟨_, hsettle, rfl⟩⟩

/-- **A run of the application is a run of the queue.** -/
theorem Reachable.queue {s : State} (h : Reachable P config s) :
    Queue.Reachable (s.map World.queue queueActivation) := by
  show Run.Reachable (Interleave.step Queue.start Queue.act) _ _ _
  refine Interleave.image World.queue queueActivation ?_ ?_ h
  · intro w request w' task hstart
    exact start_queue hstart
  · intro w task input w' task' _ hact
    rcases (steps hact).queue with hstutter | ⟨input', hinput'⟩
    · exact Or.inl hstutter
    · exact Or.inr ⟨input', trivial, hinput'⟩

end Projections

end System

end OrderProcessing
