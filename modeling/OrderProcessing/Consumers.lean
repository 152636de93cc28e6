import OrderProcessing.QueueConservation
import OrderProcessing.Shipments

/-!
# Consumers and their handlers

The two consumers share one store and tell their messages apart by the name of the queue alone. What
is always true: a consumer's handler works on the order of the message that the consumer has taken,
and the message is acknowledged exactly when the handler has returned normally. Which handler that
is depends on the names. If the two queues have two names, every message reaches the handler of its
kind; the configuration does not ask for that, and if they have one name, a status update may be
taken by the order-created consumer and is then lost.

## Main definitions

* `System.TaskAgrees` — a consumer and its handler agree
* `System.HandledAsKind` — the handler of its kind has returned normally for the message
* `System.ReachesItsKind`

## Main results

* `System.Reachable.agrees` — every consumer agrees with its handler
* `System.reachesItsKind_iff`
-/

namespace OrderProcessing

/-- The consumption of a consumer. -/
def Task.consumption : Task → Option (Consumption Payload)
  | .consumeOrderCreated consumption _ => some consumption
  | .consumeStatus consumption _ => some consumption
  | _ => none

/-- A consumer has acknowledged the message. -/
def Consumption.Acknowledges (consumption : Consumption Payload) (message : QueueMessage Payload) :
    Prop :=
  ∃ now, consumption.pc = .acknowledged message now

/-- How the handler has ended. -/
def OrderCreatedEvent.outcome (call : OrderCreatedEvent) : Option (Except ServiceError Unit) :=
  match call.pc with
  | .returned result => some result
  | _ => none

/-- What the handler of a status update has returned or thrown, once it has. -/
def StatusUpdate.outcome (call : StatusUpdate) : Option (Except ServiceError OrderRecord) :=
  match call.pc with
  | .returned result => some result
  | _ => none

theorem OrderCreatedEvent.outcome_of_not_completed {call : OrderCreatedEvent}
    (h : call.completed = false) : call.outcome = none := by
  obtain ⟨orderId, pc⟩ := call
  cases pc with
  | returned => exact Bool.noConfusion h
  | _ => rfl

theorem StatusUpdate.outcome_of_not_completed {call : StatusUpdate}
    (h : call.completed = false) : call.outcome = none := by
  obtain ⟨orderId, input, pc⟩ := call
  cases pc with
  | returned => exact Bool.noConfusion h
  | _ => rfl

/-- A call keeps its arguments. -/
theorem StatusUpdate.Steps.arguments_eq {P : Platform} {c : Collection} {input : Input}
    {call : StatusUpdate} {r : Reaction StatusUpdate} (h : StatusUpdate.Steps P c call input r) :
    r.call.orderId = call.orderId ∧ r.call.input = call.input := by
  cases h with
  | lookedUp =>
    simp only [afterLookup]
    split <;> exact ⟨rfl, rfl⟩
  | reread =>
    simp only [afterReread]
    split
    · split <;> exact ⟨rfl, rfl⟩
    · exact ⟨rfl, rfl⟩
  | _ => exact ⟨rfl, rfl⟩

namespace System

variable {P : Platform} {config : AppConfig} {w w' : World} {task task' : Task} {s t : State}

/-! ### A consumer and its handler -/

/-- What is true of a consumer whose handler is about certain payloads and has ended in a certain
way, if it has: it has taken a message of its queue that the handler is about, and it has settled as
the handler has. -/
def Agrees {α : Type} (queueName : String) (about : Payload → Prop)
    (outcome : Option (Except ServiceError α)) : Consumption.Pc Payload → Prop
  | .returnedUndefined => False
  | .holding message => message.queueName = queueName ∧ about message.payload
  | .acknowledged message _ =>
    message.queueName = queueName ∧ about message.payload ∧ ∃ a, outcome = some (.ok a)
  | .failed message =>
    message.queueName = queueName ∧ about message.payload ∧ ∃ error, outcome = some (.error error)

/-- A consumer without a handler has found no message. -/
def TaskAgrees (config : AppConfig) : Task → Prop
  | .consumeOrderCreated consumption none => consumption.pc = .returnedUndefined
  | .consumeOrderCreated consumption (some handler) =>
    Agrees config.orderCreatedQueue (fun payload => handler.orderId = payload.orderId)
      handler.outcome consumption.pc
  | .consumeStatus consumption none => consumption.pc = .returnedUndefined
  | .consumeStatus consumption (some handler) =>
    Agrees config.orderStatusQueue
      (fun payload => handler.orderId = payload.orderId ∧ handler.input = payload.event)
      handler.outcome consumption.pc
  | _ => True

/-- While the handler runs, the consumer holds a message that the handler is about. -/
theorem Agrees.holding {α : Type} {queueName : String} {about : Payload → Prop}
    {pc : Consumption.Pc Payload} (h : Agrees (α := α) queueName about none pc) :
    ∃ message, pc = .holding message ∧ message.queueName = queueName ∧ about message.payload := by
  cases pc with
  | returnedUndefined => exact h.elim
  | holding message => exact ⟨message, rfl, h⟩
  | acknowledged message now =>
    obtain ⟨-, -, a, ha⟩ := h
    exact absurd ha (by simp)
  | failed message =>
    obtain ⟨-, -, error, herror⟩ := h
    exact absurd herror (by simp)

/-- A consumer that settles as its handler has ended still agrees with it. -/
theorem Agrees.settle {α : Type} {queueName : String} {about : Payload → Prop}
    {result : Except ServiceError α} {consumption consumption' : Consumption Payload}
    {queue queue' : QueueWorld Payload} {now : String}
    (h : Agrees queueName about (some result) consumption.pc)
    (hsettle : consumption.settle queue (handled result) now = some (queue', consumption')) :
    Agrees queueName about (some result) consumption'.pc := by
  obtain ⟨message, hpc, ⟨hresult, -, rfl⟩ | ⟨hresult, -, rfl⟩⟩ :=
    Consumption.settle_cases hsettle
  · rw [hpc] at h
    cases result with
    | ok a => exact ⟨h.1, h.2, a, rfl⟩
    | error => exact Bool.noConfusion hresult
  · rw [hpc] at h
    cases result with
    | ok => exact Bool.noConfusion hresult
    | error error => exact ⟨h.1, h.2, error, rfl⟩

/-- Every message that was ever sent is in the queue that its payload belongs to. -/
def World.SentKinds (config : AppConfig) (w : World) : Prop :=
  ∀ message ∈ w.queue.sent, MessageKind config message

/-- A message that is sent is put into the queue of its payload. -/
theorem Steps.sentKinds {input : Input} (hw : w.SentKinds config)
    (h : Steps P config w task input w' task') : w'.SentKinds config := by
  have hsame : w'.queue = w.queue → w'.SentKinds config := fun heq => by rwa [World.SentKinds, heq]
  cases h with
  | createOrder hr =>
    cases CreateOrder.steps hr with
    | published =>
      intro message hmem
      rcases List.mem_append.mp hmem with hmem | hmem
      · exact hw message hmem
      · rw [List.mem_singleton.mp hmem]
        exact rfl
    | _ => exact hw
  | validate hr => exact hsame (after_queue (not_published_of_validation hr))
  | accept =>
    intro message hmem
    rcases List.mem_append.mp hmem with hmem | hmem
    · exact hw message hmem
    · rw [List.mem_singleton.mp hmem]
      exact rfl
  | reply => exact hw
  | handleOrderCreated hr => exact hsame (after_queue (not_published_of_orderCreated hr))
  | settleOrderCreated _ hs =>
    obtain ⟨message, -, ⟨-, rfl, -⟩ | ⟨-, rfl, -⟩⟩ := Consumption.settle_cases hs
    · exact hw
    · exact hw
  | handleStatus hr => exact hsame (after_queue (not_published_of_statusUpdate hr))
  | settleStatus _ hs =>
    obtain ⟨message, -, ⟨-, rfl, -⟩ | ⟨-, rfl, -⟩⟩ := Consumption.settle_cases hs
    · exact hw
    · exact hw

/-- Every consumer agrees with its handler, after every step. -/
theorem relyGuarantee_agrees (P : Platform) (config : AppConfig) :
    Interleave.RelyGuarantee (start P config) (act P config) (fun _ => True)
      (World.SentKinds config) (fun _ task => TaskAgrees config task) (fun _ _ => True) where
  start := by
    intro w request w' task hw h
    cases starts h with
    | noOrderCreated => exact ⟨hw, trivial, rfl⟩
    | orderCreated hname => exact ⟨hw, trivial, hname, rfl⟩
    | noStatus => exact ⟨hw, trivial, rfl⟩
    | status hname => exact ⟨hw, trivial, hname, rfl, rfl⟩
    | _ => exact ⟨hw, trivial, trivial⟩
  act := by
    intro w task input w' task' hw htask _ h
    have hsteps := steps h
    refine ⟨hsteps.sentKinds hw, trivial, ?_⟩
    cases hsteps with
    | @handleOrderCreated consumption handler input r hr =>
      have hr' := OrderCreatedEvent.steps hr
      simp only [TaskAgrees] at htask ⊢
      rw [OrderCreatedEvent.outcome_of_not_completed hr'.not_completed] at htask
      obtain ⟨message, hpc, hname, habout⟩ := htask.holding
      rw [hpc]
      exact ⟨hname, hr'.orderId_eq.trans habout⟩
    | @settleOrderCreated consumption consumption' handler result queue now hpc hs =>
      simp only [TaskAgrees, OrderCreatedEvent.outcome, hpc] at htask ⊢
      exact htask.settle hs
    | @handleStatus consumption handler input r hr =>
      have hr' := StatusUpdate.steps hr
      simp only [TaskAgrees] at htask ⊢
      rw [StatusUpdate.outcome_of_not_completed hr'.not_completed] at htask
      obtain ⟨message, hpc, hname, hid, hinput⟩ := htask.holding
      obtain ⟨hid', hinput'⟩ := hr'.arguments_eq
      rw [hpc]
      exact ⟨hname, hid'.trans hid, hinput'.trans hinput⟩
    | @settleStatus consumption consumption' handler result queue now hpc hs =>
      simp only [TaskAgrees, StatusUpdate.outcome, hpc] at htask ⊢
      exact htask.settle hs
    | _ => trivial
  stable := fun _ _ _ htask => htask

/-- Every consumer agrees with its handler, and every message was sent to the queue of its kind. -/
theorem Reachable.agrees (h : Reachable P config s) :
    s.shared.SentKinds config ∧ ∀ task ∈ s.activations, TaskAgrees config task :=
  Interleave.invariant (relyGuarantee_agrees P config) h
    (fun _ hmem => absurd hmem (List.not_mem_nil)) fun _ htask => absurd htask (List.not_mem_nil)

theorem queueActivation_of_consumption {consumption : Consumption Payload}
    (h : task.consumption = some consumption) : queueActivation task = .consumer consumption := by
  cases task with
  | consumeOrderCreated => exact congrArg _ (Option.some.inj h)
  | consumeStatus => exact congrArg _ (Option.some.inj h)
  | _ => simp [Task.consumption] at h

/-- What a consumer holds or has acknowledged was sent. -/
theorem Reachable.mem_sent (h : Reachable P config s) (htask : task ∈ s.activations)
    {consumption : Consumption Payload} (hconsumption : task.consumption = some consumption)
    {message : QueueMessage Payload}
    (hpc : consumption.pc = .holding message ∨ consumption.Acknowledges message) :
    message ∈ s.shared.queue.sent := by
  have hactivation :
      .consumer consumption ∈ (s.map World.queue queueActivation).activations := by
    rw [← queueActivation_of_consumption hconsumption]
    exact List.mem_map_of_mem htask
  have hsent : message ∈ Queue.sent (s.map World.queue queueActivation) := by
    rw [(Queue.conserved h.queue).sent_eq]
    obtain ⟨queueName, pc⟩ := consumption
    rcases hpc with hheld | ⟨now, hack⟩
    · obtain rfl : pc = .holding message := hheld
      refine Multiset.mem_add.mpr (Or.inl (Multiset.mem_add.mpr (Or.inr ?_)))
      exact List.mem_flatMap.mpr ⟨_, hactivation, List.mem_singleton_self message⟩
    · obtain rfl : pc = .acknowledged message now := hack
      refine Multiset.mem_add.mpr (Or.inr ?_)
      exact List.mem_flatMap.mpr ⟨_, hactivation, List.mem_singleton_self message⟩
  exact hsent

/-! ### Messages reach the handler of their kind -/

/-- The message was sent, and it is neither in the store nor in the hands of a consumer. -/
structure Gone (s : State) (message : QueueMessage Payload) : Prop where
  sent : message ∈ s.shared.queue.sent
  not_stored : message ∉ s.shared.queue.store.messages
  not_held : ∀ task ∈ s.activations, ∀ consumption, task.consumption = some consumption →
    consumption.pc ≠ .holding message

/-- The handler of its kind has returned normally for the message, and for this its consumer has
acknowledged it. -/
def HandledAsKind (s : State) (message : QueueMessage Payload) : Prop :=
  match message.payload with
  | .orderCreated payload => ∃ consumption handler,
    .consumeOrderCreated consumption (some handler) ∈ s.activations ∧
      consumption.Acknowledges message ∧ handler.orderId = payload.orderId ∧
      handler.outcome = some (.ok ())
  | .statusUpdate orderId event => ∃ consumption handler order,
    .consumeStatus consumption (some handler) ∈ s.activations ∧
      consumption.Acknowledges message ∧ handler.orderId = orderId ∧
      handler.input = some ⟨event.status, event.atTime, event.eventId⟩ ∧
      handler.outcome = some (.ok order)

/-- A message is gone for good only after the handler of its kind has returned normally. -/
def ReachesItsKind (s : State) : Prop := ∀ message, Gone s message → HandledAsKind s message

/-- What is gone has been acknowledged by one of the two consumers. -/
theorem Gone.acknowledged (h : Reachable P config s) {message : QueueMessage Payload}
    (hgone : Gone s message) : ∃ task ∈ s.activations, ∃ consumption,
      task.consumption = some consumption ∧ consumption.Acknowledges message := by
  obtain ⟨place, hplace, -⟩ := (Queue.conserved h.queue).place message hgone.sent
  have htask : ∀ {i : ℕ} {call : Consumption Payload},
      (s.activations.map queueActivation)[i]? = some (.consumer call) →
      ∃ task ∈ s.activations, task.consumption = some call := by
    intro i call hi
    obtain ⟨task, hmem, hcall⟩ := List.mem_map.mp (List.mem_of_getElem? hi)
    refine ⟨task, hmem, ?_⟩
    cases task with
    | consumeOrderCreated => exact congrArg some (Queue.Activation.consumer.inj hcall)
    | consumeStatus => exact congrArg some (Queue.Activation.consumer.inj hcall)
    | postOrder => cases hcall
    | postStatus => cases hcall
  cases place with
  | stored j => exact absurd (List.mem_of_getElem? hplace) hgone.not_stored
  | held i =>
    obtain ⟨task, hmem, hcall⟩ := htask hplace
    exact absurd rfl (hgone.not_held task hmem _ hcall)
  | acknowledged i =>
    obtain ⟨now, hi⟩ := hplace
    obtain ⟨task, hmem, hcall⟩ := htask hi
    exact ⟨task, hmem, _, hcall, now, rfl⟩

/-- Two names keep the two kinds apart. -/
theorem Reachable.reachesItsKind (hqueues : config.orderCreatedQueue ≠ config.orderStatusQueue)
    (h : Reachable P config s) : ReachesItsKind s := by
  intro message hgone
  obtain ⟨hsent, hagrees⟩ := h.agrees
  have hkind := hsent message hgone.sent
  obtain ⟨task, hmem, consumption, hcall, now, hpc⟩ := hgone.acknowledged h
  have htask := hagrees task hmem
  rw [MessageKind] at hkind
  rw [HandledAsKind]
  rcases task with _ | _ | ⟨call, _ | handler⟩ | ⟨call, _ | handler⟩
  · simp [Task.consumption] at hcall
  · simp [Task.consumption] at hcall
  · obtain rfl := Option.some.inj hcall
    exact absurd (hpc.symm.trans htask) (by simp)
  · obtain rfl := Option.some.inj hcall
    simp only [TaskAgrees, hpc] at htask
    obtain ⟨hname, hid, result, houtcome⟩ := htask
    cases hpayload : message.payload with
    | orderCreated payload =>
      rw [hpayload] at hid
      exact ⟨call, handler, hmem, ⟨now, hpc⟩, hid, houtcome⟩
    | statusUpdate orderId event =>
      rw [hpayload] at hkind
      exact absurd (hname.symm.trans hkind) hqueues
  · obtain rfl := Option.some.inj hcall
    exact absurd (hpc.symm.trans htask) (by simp)
  · obtain rfl := Option.some.inj hcall
    simp only [TaskAgrees, hpc] at htask
    obtain ⟨hname, ⟨hid, hinput⟩, order, houtcome⟩ := htask
    cases hpayload : message.payload with
    | orderCreated payload =>
      rw [hpayload] at hkind
      exact absurd (hkind.symm.trans hname) hqueues
    | statusUpdate orderId event =>
      rw [hpayload] at hid hinput
      exact ⟨call, handler, order, hmem, ⟨now, hpc⟩, hid, hinput, houtcome⟩

/-- The order-created consumer takes the first message of its queue. -/
theorem start_consumeOrderCreated {message : QueueMessage Payload}
    {rest : List (QueueMessage Payload)} (hstore : w.queue.store.messages = message :: rest)
    (hname : message.queueName = config.orderCreatedQueue) :
    start P config w .consumeOrderCreated = some (w.withQueue (w.queue.withStore ⟨rest⟩),
      .consumeOrderCreated ⟨config.orderCreatedQueue, .holding message⟩
        (some ⟨message.payload.orderId, .lookup⟩)) := by
  have hdequeue : w.queue.store.dequeue (fun item => item.queueName = config.orderCreatedQueue)
      = some (message, ⟨rest⟩) :=
    InMemoryQueueStore.dequeue_eq_some_iff.mpr
      ⟨[], rest, hstore, rfl, by simp, decide_eq_true hname⟩
  simp only [start, Consumption.start, hdequeue]
  rfl

/-- The retries are the default, and the two queues have one name. -/
def oneQueue (name : String) : AppConfig := ⟨3, name, name⟩

/-- An order is created and a status update for it accepted. -/
def acceptedUpdate : List Action :=
  [.invoke (.postOrder (samplePayload 10) "key"), .resume 0 (.call (.find .ok)),
    .resume 0 (.call (.insertOne "id" "2024-05-01T10:00:00.000Z" .ok)),
    .resume 0 (.call (.sendMessage true "2024-05-01T10:00:00.000Z")),
    .invoke (.postStatus "id" ⟨.shipped, "2024-05-02T10:00:00.000Z", "e1"⟩),
    .resume 1 (.call (.find .ok)), .resume 1 (.settle "2024-05-02T12:00:00.000Z")]

/-- Two runs of the order-created consumer: the second takes the status update, calls Delivery and
acknowledges it. -/
def takenByTheOther : List Action :=
  [.invoke .consumeOrderCreated, .invoke .consumeOrderCreated, .resume 3 (.call (.find .ok)),
    .resume 3 (.call (.fetch (.response 200 (some (.obj [(js "shipmentId", .str (js "s-1"))])))
      "2024-05-02T12:00:01.000Z")),
    .resume 3 (.call (.updateOne "2024-05-02T12:00:02.000Z" .ok)),
    .resume 3 (.settle "2024-05-02T12:00:03.000Z")]

/-- The order-created message of the run. -/
def createdMessage (name : String) : QueueMessage Payload where
  ref := 0
  queueName := name
  payload := .orderCreated ⟨"id", js "c-1", .finite 10, .pendingShipment,
    "2024-05-01T10:00:00.000Z", (samplePayload 10).items⟩
  sentAt := "2024-05-01T10:00:00.000Z"

/-- The status update of the run. -/
def updateMessage (name : String) : QueueMessage Payload where
  ref := 1
  queueName := name
  payload := .statusUpdate "id" ⟨"e1", .shipped, "2024-05-02T10:00:00.000Z"⟩
  sentAt := "2024-05-02T12:00:00.000Z"

/-- With one name for both queues, the status update is acknowledged by an order-created consumer,
and the order has not been shipped. -/
theorem run_takenByTheOther (name : String) : ∃ s created validation handler handler',
    Run.run (step .reference (oneQueue name)) init (acceptedUpdate ++ takenByTheOther) = some s ∧
      s.shared.queue.sent = [createdMessage name, updateMessage name] ∧
      s.shared.queue.store.messages = [] ∧
      s.shared.orders.docs.map (·.status) = [.pendingShipment] ∧
      s.activations = [.postOrder created, .postStatus validation (some .accepted),
        .consumeOrderCreated ⟨name, .holding (createdMessage name)⟩ handler,
        .consumeOrderCreated
          ⟨name, .acknowledged (updateMessage name) "2024-05-02T12:00:03.000Z"⟩ handler'] := by
  refine ⟨_, _, _, _, _, Run.run_append_eq_some.mpr ⟨_, rfl, Run.run_cons_eq_some.mpr ⟨_,
    Interleave.step_invoke_eq_some.mpr ⟨_, _, start_consumeOrderCreated rfl rfl, rfl⟩,
    Run.run_cons_eq_some.mpr ⟨_,
    Interleave.step_invoke_eq_some.mpr ⟨_, _, start_consumeOrderCreated rfl rfl, rfl⟩,
    rfl⟩⟩⟩, rfl, rfl, rfl, rfl⟩

/-- With one name for both queues, messages do not always reach the handler of their kind. -/
theorem exists_not_reachesItsKind (name : String) :
    ∃ s, Reachable .reference (oneQueue name) s ∧ ¬ ReachesItsKind s := by
  obtain ⟨s, _, _, _, _, hs, hsent, hstore, -, htasks⟩ := run_takenByTheOther name
  refine ⟨s, ⟨_, fun a _ => a.inputs_true, hs⟩, fun hreaches => ?_⟩
  have hgone : Gone s (updateMessage name) := by
    refine ⟨by simp [hsent], by simp [hstore], ?_⟩
    intro task htask call hcall hpc
    rw [htasks] at htask
    simp only [List.mem_cons, List.not_mem_nil, or_false] at htask
    rcases htask with rfl | rfl | rfl | rfl
    · simp [Task.consumption] at hcall
    · simp [Task.consumption] at hcall
    · obtain rfl := Option.some.inj hcall
      have hsame := congrArg QueueMessage.ref (Consumption.Pc.holding.inj hpc)
      simp [createdMessage, updateMessage] at hsame
    · obtain rfl := Option.some.inj hcall
      simp at hpc
  obtain ⟨call, handled, order, hmem, -⟩ := hreaches _ hgone
  rw [htasks] at hmem
  simp at hmem

/-- **Messages reach the handler of their kind exactly if the two queues have two names.** -/
theorem reachesItsKind_iff (orderCreatedQueue orderStatusQueue : String) :
    (∀ P maxRetries s, Reachable P ⟨maxRetries, orderCreatedQueue, orderStatusQueue⟩ s →
      ReachesItsKind s) ↔ orderCreatedQueue ≠ orderStatusQueue := by
  constructor
  · rintro hall rfl
    obtain ⟨s, hs, hnot⟩ := exists_not_reachesItsKind orderCreatedQueue
    exact hnot (hall .reference 3 s hs)
  · intro hqueues P maxRetries s h
    exact h.reachesItsKind hqueues

/-- Both queues are named `orders`. -/
theorem orders_not_reachesItsKind :
    ∃ s, Reachable .reference ⟨3, "orders", "orders"⟩ s ∧ ¬ ReachesItsKind s :=
  exists_not_reachesItsKind "orders"

end System

end OrderProcessing
