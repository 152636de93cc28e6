import OrderProcessing.Processed

/-!
# Recovery

What a queue of orders comes to once the trouble is over. From any state of the server, however it
was reached, let a poll of the order-created queue, or the route that processes it, run while
nothing else does; let the database answer, and let Delivery accept the requests. Then the loop ends
within five steps for each message that was waiting. It has taken them in order, the queue is empty,
none of their orders is without a shipment, and the route answers 200 with all of them.

## What is deliberately absent

The loop has no such property for the status queue, whose handler may refuse a message for good.

## Main definitions

* `System.Input.Helpful` — the database and Delivery do what they should
* `System.Phase` — where a consumer of orders is with its message
* `Server.Emptying` — how far the loop has come

## Main results

* `Server.recovers`
-/

namespace OrderProcessing

open OrderRepository

/-- Delivery accepts the request, and names a shipment. -/
def Exchange.accepts (exchange : Exchange) : Bool :=
  match deliveryOperation exchange with
  | .ok body => Json.truthy (body.get? (js "shipmentId"))
  | .error _ => false

/-- An accepted request leads to the write. -/
theorem OrderCreatedEvent.afterFetch_of_accepts {exchange : Exchange} (h : exchange.accepts = true)
    (call : OrderCreatedEvent) (maxRetries : ℚ) (order : OrderRecord) (attempt : ℕ)
    (requestedAt : String) : ∃ metadata, Json.truthy metadata.shipmentId = true ∧
      call.afterFetch maxRetries order attempt exchange requestedAt
        = { call with pc := .store order metadata } := by
  rw [Exchange.accepts] at h
  cases hbody : deliveryOperation exchange with
  | error error =>
    rw [hbody] at h
    exact Bool.noConfusion h
  | ok body =>
    rw [hbody] at h
    have hmetadata : buildShipmentMetadata requestedAt body
        = some ⟨body.get? (js "shipmentId"), body.get? (js "state"), requestedAt⟩ := by
      cases body with
      | null => exact Bool.noConfusion h
      | _ => rfl
    refine ⟨⟨body.get? (js "shipmentId"), body.get? (js "state"), requestedAt⟩, h, ?_⟩
    simp only [afterFetch, hbody, retryStep, hmetadata]

section Helpful

variable {maxRetries : ℚ} {c : Collection} {call : OrderCreatedEvent} {order : OrderRecord}
  {input : Input} {r : Reaction OrderCreatedEvent}

/-! With a database that answers there is one way to go on from each suspension point. -/

theorem OrderCreatedEvent.Steps.of_lookup (h : Steps maxRetries c call input r)
    (hpc : call.pc = .lookup) (hanswers : input.databaseAnswers = true) :
    r = ⟨c, call.afterLookup (findById c call.orderId), none⟩ := by
  cases h with
  | lookedUp => rfl
  | failed hfailed => simp [hanswers] at hfailed
  | fetched h | exhausted h | stored h | landed h => simp [hpc] at h

theorem OrderCreatedEvent.Steps.of_deliver {attempt : ℕ} (h : Steps maxRetries c call input r)
    (hpc : call.pc = .deliver order attempt) (hallowed : retryAllowed maxRetries attempt = true)
    (hanswers : input.databaseAnswers = true) :
    ∃ exchange requestedAt, input = .fetch exchange requestedAt ∧
      r = ⟨c, call.afterFetch maxRetries order attempt exchange requestedAt,
        some (.requested (shipmentRequest order))⟩ := by
  cases h with
  | fetched h =>
    obtain ⟨rfl, rfl⟩ := OrderCreatedEvent.Pc.deliver.inj (hpc.symm.trans h)
    exact ⟨_, _, rfl, rfl⟩
  | exhausted h hrefused =>
    obtain ⟨rfl, rfl⟩ := OrderCreatedEvent.Pc.deliver.inj (hpc.symm.trans h)
    simp [hallowed] at hrefused
  | failed hfailed => simp [hanswers] at hfailed
  | lookedUp h | stored h | landed h => simp [hpc] at h

theorem OrderCreatedEvent.Steps.of_store {metadata : ShipmentMetadata}
    (h : Steps maxRetries c call input r) (hpc : call.pc = .store order metadata)
    (hanswers : input.databaseAnswers = true) :
    ∃ now, r = ⟨updateShipmentMetadata c order.id metadata now, call.finish (.ok ()), none⟩ := by
  cases h with
  | stored h =>
    obtain ⟨rfl, rfl⟩ := OrderCreatedEvent.Pc.store.inj (hpc.symm.trans h)
    exact ⟨_, rfl⟩
  | landed => simp [Input.databaseAnswers] at hanswers
  | failed hfailed => simp [hanswers] at hfailed
  | lookedUp h | fetched h | exhausted h => simp [hpc] at h

end Helpful

namespace System

variable {P : Platform} {config : AppConfig} {w w' : World} {task task' : Task}

/-! ### One message -/

/-- The order is not without a shipment. -/
def CaughtUp (w : World) (orderId : String) : Prop :=
  ∀ o, findById w.orders orderId = some o → o.hasShipment = true

/-- The database answers, and Delivery accepts what it is asked. -/
def Input.Helpful : Input → Prop
  | .call (.fetch exchange _) => exchange.accepts = true
  | .call input => input.databaseAnswers = true
  | .settle _ => True

theorem Input.Helpful.databaseAnswers {input : OrderProcessing.Input}
    (h : Input.Helpful (.call input)) : input.databaseAnswers = true := by
  cases input with
  | fetch => rfl
  | _ => exact h

/-- Where a consumer of orders is with its message, and how many steps it has left, counting one for
the loop to go on. -/
inductive Phase (config : AppConfig) (w : World) : Task → List (QueueMessage Payload) → ℕ → Prop
  | idle : w.queue.store.queueOf config.orderCreatedQueue = [] →
      Phase config w (.consumeOrderCreated ⟨config.orderCreatedQueue, .returnedUndefined⟩ none) [] 0
  | lookup {message} : Phase config w
      (.consumeOrderCreated ⟨config.orderCreatedQueue, .holding message⟩
        (some ⟨message.payload.orderId, .lookup⟩)) [message] 5
  | deliver {message order} : order.id = message.payload.orderId → Phase config w
      (.consumeOrderCreated ⟨config.orderCreatedQueue, .holding message⟩
        (some ⟨message.payload.orderId, .deliver order 0⟩)) [message] 4
  | store {message order metadata} : order.id = message.payload.orderId →
      Json.truthy metadata.shipmentId = true → Phase config w
      (.consumeOrderCreated ⟨config.orderCreatedQueue, .holding message⟩
        (some ⟨message.payload.orderId, .store order metadata⟩)) [message] 3
  | handled {message} : CaughtUp w message.payload.orderId → Phase config w
      (.consumeOrderCreated ⟨config.orderCreatedQueue, .holding message⟩
        (some ⟨message.payload.orderId, .returned (.ok ())⟩)) [message] 2
  | acknowledged {message now} : CaughtUp w message.payload.orderId → Phase config w
      (.consumeOrderCreated ⟨config.orderCreatedQueue, .acknowledged message now⟩
        (some ⟨message.payload.orderId, .returned (.ok ())⟩)) [message] 1

/-- Metadata with an identifier are a shipment of their order, and take none from another. -/
theorem hasShipment_of_write {c : Collection} {orderId now i : String} {metadata : ShipmentMetadata}
    {o : OrderRecord} (hship : Json.truthy metadata.shipmentId = true)
    (ho : findById (updateShipmentMetadata c orderId metadata now) i = some o) :
    o.hasShipment = true ∨ i ≠ orderId ∧ findById c i = some o := by
  rw [findById_updateShipmentMetadata] at ho
  obtain ⟨o₀, ho₀, rfl⟩ := Option.map_eq_some_iff.mp ho
  by_cases hi : i = orderId
  · rw [if_pos hi]
    exact Or.inl ((OrderRecord.hasShipment_of_eq_stored rfl).trans hship)
  · rw [if_neg hi]
    exact Or.inr ⟨hi, ho₀⟩

/-- **A helpful step brings the message one phase further**, and touches no queue. -/
theorem Phase.act {inHand : List (QueueMessage Payload)} {k : ℕ} {input : Input}
    (hmax : 0 ≤ config.maxRetries) (h : Phase config w task inHand k) (hinput : input.Helpful)
    (hact : System.act P config w task input = some (w', task')) :
    w'.queue = w.queue ∧ (∀ orderId, CaughtUp w orderId → CaughtUp w' orderId) ∧
      ∃ m, m + 1 ≤ k ∧ Phase config w' task' inHand m := by
  cases h with
  | idle => cases steps hact
  | @lookup message =>
    cases steps hact with
    | handleOrderCreated hr =>
      obtain rfl := (OrderCreatedEvent.steps hr).of_lookup rfl hinput.databaseAnswers
      refine ⟨rfl, fun _ hcaught => hcaught, ?_⟩
      cases hfound : findById w.orders message.payload.orderId with
      | none =>
        simp only [OrderCreatedEvent.afterLookup]
        refine ⟨2, by omega, .handled fun o ho => ?_⟩
        exact absurd (hfound.symm.trans ho) (by simp)
      | some order =>
        simp only [OrderCreatedEvent.afterLookup]
        cases hship : order.hasShipment with
        | true =>
          refine ⟨2, by omega, .handled fun o ho => ?_⟩
          rwa [← Option.some.inj (hfound.symm.trans ho)]
        | false => exact ⟨4, by omega, .deliver (id_eq_of_findById hfound)⟩
    | settleOrderCreated hpc => exact OrderCreatedEvent.Pc.noConfusion hpc
  | @deliver message order hid =>
    cases steps hact with
    | handleOrderCreated hr =>
      have hallowed : retryAllowed config.maxRetries 0 = true := by simpa [retryAllowed] using hmax
      obtain ⟨exchange, requestedAt, rfl, rfl⟩ :=
        (OrderCreatedEvent.steps hr).of_deliver rfl hallowed hinput.databaseAnswers
      obtain ⟨metadata, hship, hafter⟩ := OrderCreatedEvent.afterFetch_of_accepts hinput
        ⟨message.payload.orderId, .deliver order 0⟩ config.maxRetries order 0 requestedAt
      refine ⟨rfl, fun _ hcaught => hcaught, 3, by omega, ?_⟩
      rw [hafter]
      exact .store hid hship
    | settleOrderCreated hpc => exact OrderCreatedEvent.Pc.noConfusion hpc
  | @store message order metadata hid hship =>
    cases steps hact with
    | handleOrderCreated hr =>
      obtain ⟨now, rfl⟩ := (OrderCreatedEvent.steps hr).of_store rfl hinput.databaseAnswers
      refine ⟨rfl, fun orderId hcaught o ho => ?_, 2, by omega, .handled fun o ho => ?_⟩
      · rcases hasShipment_of_write hship ho with hshipped | ⟨-, ho⟩
        · exact hshipped
        · exact hcaught o ho
      · rcases hasShipment_of_write hship ho with hshipped | ⟨hne, -⟩
        · exact hshipped
        · exact absurd hid.symm hne
    | settleOrderCreated hpc => exact OrderCreatedEvent.Pc.noConfusion hpc
  | handled hcaught =>
    cases steps hact with
    | handleOrderCreated hr => exact Bool.noConfusion (OrderCreatedEvent.steps hr).not_completed
    | settleOrderCreated hpc hsettle =>
      obtain rfl := OrderCreatedEvent.Pc.returned.inj hpc
      obtain ⟨rfl, rfl⟩ := Prod.mk.inj (Option.some.inj hsettle)
      exact ⟨rfl, fun _ hcaught => hcaught, 1, by omega, .acknowledged hcaught⟩
  | acknowledged hcaught =>
    cases steps hact with
    | handleOrderCreated hr => exact Bool.noConfusion (OrderCreatedEvent.steps hr).not_completed
    | settleOrderCreated _ hsettle => exact absurd hsettle (by simp [Consumption.settle])

/-- Delivery accepts a request. -/
def acceptingExchange : Exchange :=
  .response 200 (some (.obj [(js "shipmentId", .str (js "s-1"))]))

/-- A consumer of orders that has a message can take a helpful step, until it has acknowledged it.
-/
theorem Phase.exists_act (P : Platform) (hmax : 0 ≤ config.maxRetries)
    {inHand : List (QueueMessage Payload)} {k : ℕ} (h : Phase config w task inHand k) (hk : 1 < k) :
    ∃ input r, input.Helpful ∧ System.act P config w task input = some r := by
  cases h with
  | idle => omega
  | lookup => exact ⟨.call (.find .ok), _, rfl, rfl⟩
  | @deliver message order =>
    have hallowed : retryAllowed config.maxRetries 0 = true := by simpa [retryAllowed] using hmax
    have haccepts : acceptingExchange.accepts = true := rfl
    exact ⟨.call (.fetch acceptingExchange ""), _, haccepts,
      by simp only [System.act, OrderCreatedEvent.step, hallowed]; rfl⟩
  | store => exact ⟨.call (.updateOne "" .ok), _, rfl, rfl⟩
  | handled => exact ⟨.settle "", _, trivial, rfl⟩
  | acknowledged => omega

/-- A consumer of orders that starts takes the first message, if there is one. -/
theorem Phase.of_start (h : start P config w .consumeOrderCreated = some (w', task)) :
    w'.orders = w.orders ∧ ∃ inHand, Phase config w' task inHand (5 * inHand.length) ∧
      inHand ++ w'.queue.store.queueOf config.orderCreatedQueue
        = w.queue.store.queueOf config.orderCreatedQueue := by
  cases hqueue : w.queue.store.queueOf config.orderCreatedQueue with
  | nil =>
    have hnone := InMemoryQueueStore.dequeue_of_queueOf_nil hqueue
    simp only [start, Consumption.start, hnone] at h
    obtain ⟨rfl, rfl⟩ := Prod.mk.inj (Option.some.inj h)
    exact ⟨rfl, [], .idle hqueue, hqueue⟩
  | cons message rest =>
    obtain ⟨store, hdequeue, -, hrest, -⟩ := InMemoryQueueStore.dequeue_of_queueOf_cons hqueue
    simp only [start, Consumption.start, hdequeue] at h
    obtain ⟨rfl, rfl⟩ := Prod.mk.inj (Option.some.inj h)
    exact ⟨rfl, [message], .lookup, congrArg (message :: ·) hrest⟩

end System

/-! ### The loop -/

namespace Server

variable {S : Setup} {s t : State} {waiting : List (QueueMessage Payload)} {i n : ℕ}

/-- The messages in the order-created queue. -/
def orderCreatedMessages (S : Setup) (w : System.World) : List (QueueMessage Payload) :=
  w.queue.store.queueOf S.app.orderCreatedQueue

/-- The request starts a loop over the order-created queue. -/
def Request.Drains (S : Setup) (request : Request) : Prop :=
  request = .tick .orderCreated ∨ ∃ exceeded,
    request = .http exceeded (.processQueue .orderCreated) ∧ limited S .global exceeded = none

/-- A helpful step of the job. -/
def Helps (i : ℕ) (a : Action) : Prop :=
  ∃ input : Input, a = .resume i input ∧ input.Within System.Input.Helpful

/-- A consumer of orders that has returned a message is in its last phase with it. -/
theorem phase_of_returned {config : AppConfig} {w : System.World} {current : Task}
    {inHand : List (QueueMessage Payload)} {k : ℕ} {message : QueueMessage Payload × String}
    (h : System.Phase config w current inHand k)
    (hmessage : returnedMessage current = some message) :
    k = 1 ∧ inHand = [message.1] ∧ System.CaughtUp w message.1.payload.orderId := by
  cases h with
  | acknowledged hcaught =>
    obtain rfl := Option.some.inj hmessage
    exact ⟨rfl, rfl, hcaught⟩
  | _ => simp [returnedMessage, Task.consumption] at hmessage

/-- How far the loop has come, and how many steps it has left: what it has processed, what it holds
and what is left are the messages that were waiting. -/
inductive Emptying (S : Setup) (waiting : List (QueueMessage Payload)) (i n : ℕ) (s : State) : Prop
  | mk {answers processed current inHand k} :
      s.activations[i]? = some (.draining ⟨.orderCreated, answers, processed, current⟩) →
      System.Phase S.app s.shared current inHand k →
      processed.map Prod.fst ++ inHand ++ orderCreatedMessages S s.shared = waiting →
      (∀ message ∈ processed.map Prod.fst, System.CaughtUp s.shared message.payload.orderId) →
      n = k + 5 * (orderCreatedMessages S s.shared).length → Emptying S waiting i n s

/-- **A helpful step of the loop brings it one step further.** -/
theorem Emptying.step (hmax : 0 ≤ S.app.maxRetries) (h : Emptying S waiting i n s) {a : Action}
    (ha : Helps i a) (hstep : Server.step S s a = some t) :
    ∃ m, m + 1 ≤ n ∧ Emptying S waiting i m t := by
  obtain ⟨hi, hphase, hwaiting, hcaught, rfl⟩ := h
  obtain ⟨input, rfl, hinput⟩ := ha
  obtain ⟨job, w, job', hi', hact, rfl⟩ := Interleave.step_resume_eq_some.mp hstep
  obtain rfl := Option.some.inj (hi'.symm.trans hi)
  have hget := Interleave.getElem?_set_of_some hi job'
  cases steps hact with
  | consume htask =>
    obtain ⟨hqueue, hkeeps, m, hm, hphase'⟩ := hphase.act hmax hinput htask
    have hmessages : orderCreatedMessages S w = orderCreatedMessages S s.shared := by
      rw [orderCreatedMessages, hqueue]
      rfl
    refine ⟨_, ?_, .mk hget hphase' ?_ (fun message hmem => hkeeps _ (hcaught message hmem)) rfl⟩
    · show m + 5 * (orderCreatedMessages S w).length + 1 ≤ _
      rw [hmessages]
      omega
    · show _ ++ orderCreatedMessages S w = waiting
      rw [hmessages, hwaiting]
  | @next _ message _ task hmessage htask =>
    obtain ⟨rfl, rfl, hcaught'⟩ := phase_of_returned hphase hmessage
    obtain ⟨horders, inHand, hphase', hmessages⟩ := System.Phase.of_start htask
    have hlength := congrArg List.length hmessages
    rw [List.length_append] at hlength
    refine ⟨_, ?_, .mk hget hphase' ?_ ?_ rfl⟩
    · show 5 * inHand.length + 5 * (orderCreatedMessages S w).length + 1 ≤ _
      simp only [orderCreatedMessages] at hlength ⊢
      omega
    · show _ ++ orderCreatedMessages S w = waiting
      rw [← hwaiting, List.map_append, List.append_assoc _ inHand]
      exact congrArg _ hmessages
    · have hcaught'' : ∀ orderId, System.CaughtUp s.shared orderId → System.CaughtUp w orderId :=
        fun orderId h o ho => h o (by rwa [← horders])
      intro m hm
      rw [List.map_append, List.mem_append] at hm
      rcases hm with hm | hm
      · exact hcaught'' _ (hcaught m hm)
      · obtain rfl := List.mem_singleton.mp hm
        exact hcaught'' _ hcaught'

/-- The loop has ended, and the queue is empty. -/
structure Emptied (S : Setup) (waiting : List (QueueMessage Payload)) (i : ℕ) (s : State) :
    Prop where
  /-- The loop has taken the messages in order, and the route answers with them. -/
  response : ∃ drain, s.activations[i]? = some (.draining drain) ∧
    drain.response = some ⟨200, .processed drain.processed⟩ ∧
    drain.processed.map Prod.fst = waiting
  messages : orderCreatedMessages S s.shared = []
  orders : ∀ message ∈ waiting, System.CaughtUp s.shared message.payload.orderId

/-- A loop that cannot take a helpful step has emptied the queue. -/
theorem Emptying.exists_step_or_emptied (hmax : 0 ≤ S.app.maxRetries)
    (h : Emptying S waiting i n s) :
    (∃ a t, Helps i a ∧ Server.step S s a = some t) ∨ Emptied S waiting i s := by
  cases h with
  | @mk answers processed current inHand k hi hphase hwaiting hcaught _ =>
  have hgoes : ∀ (input : Input) {r}, input.Within System.Input.Helpful →
      act S s.shared (.draining ⟨.orderCreated, answers, processed, current⟩) input = some r →
      ∃ a t, Helps i a ∧ Server.step S s a = some t :=
    fun input _ hinput hact => ⟨_, _, ⟨input, rfl, hinput⟩,
      Interleave.step_resume_eq_some.mpr ⟨_, _, _, hi, hact, rfl⟩⟩
  by_cases hk : 1 < k
  · obtain ⟨input, r, hinput, hact⟩ := hphase.exists_act S.platform hmax hk
    exact Or.inl (hgoes (.task input) hinput (congrArg (Option.map _) hact))
  · cases hphase with
    | idle hempty =>
      rw [List.append_nil, orderCreatedMessages, hempty, List.append_nil] at hwaiting
      refine Or.inr ⟨⟨_, hi, rfl, hwaiting⟩, hempty, ?_⟩
      rwa [← hwaiting]
    | acknowledged => exact Or.inl (hgoes .next trivial rfl)
    | _ => omega

/-- A loop over the order-created queue starts with the messages that are waiting. -/
theorem Emptying.of_start {request : Request} (hrequest : request.Drains S)
    (hstep : Server.step S s (.invoke request) = some t) :
    Emptying S (orderCreatedMessages S s.shared) s.activations.length
      (5 * (orderCreatedMessages S s.shared).length) t := by
  obtain ⟨w, job, hstart, rfl⟩ := Interleave.step_invoke_eq_some.mp hstep
  have htask : ∃ answers task, job = .draining ⟨.orderCreated, answers, [], task⟩ ∧
      System.start S.platform S.app s.shared .consumeOrderCreated = some (w, task) := by
    rcases hrequest with rfl | ⟨exceeded, rfl, hlimited⟩
    · simp only [start] at hstart
      split at hstart
      · obtain ⟨task, htask, rfl⟩ := of_startTask hstart
        exact ⟨false, task, rfl, htask⟩
      · simp at hstart
    · simp only [start, Route.tier, hlimited, serve] at hstart
      obtain ⟨task, htask, rfl⟩ := of_startTask hstart
      exact ⟨true, task, rfl, htask⟩
  obtain ⟨answers, task, rfl, htask⟩ := htask
  obtain ⟨-, inHand, hphase, hmessages⟩ := System.Phase.of_start htask
  have hlength := congrArg List.length hmessages
  rw [List.length_append] at hlength
  refine .mk List.getElem?_concat_length hphase hmessages (by simp) ?_
  show _ = 5 * inHand.length + 5 * (orderCreatedMessages S w).length
  simp only [orderCreatedMessages] at hlength ⊢
  omega

/-- What becomes of a loop over the order-created queue while nothing else runs. -/
structure Recovers (S : Setup) (waiting : List (QueueMessage Payload)) (i : ℕ) (as : List Action)
    (s : State) : Prop where
  /-- It takes at most five steps for each message. -/
  length_le : as.length ≤ 5 * waiting.length
  /-- It never fails: it goes on, or has emptied the queue. -/
  goesOn : (∃ a t, Helps i a ∧ step S s a = some t) ∨ Emptied S waiting i s

/-- **Once the database and Delivery do what they should, the queue of orders is emptied.** -/
theorem recovers (hmax : 0 ≤ S.app.maxRetries) {u : State} {request : Request}
    (hrequest : request.Drains S) (hstart : step S s (.invoke request) = some u)
    {as : List Action} (has : ∀ a ∈ as, Helps s.activations.length a)
    (hrun : Run.run (step S) u as = some t) :
    Recovers S (orderCreatedMessages S s.shared) s.activations.length as t := by
  obtain ⟨m, hm, hemptying⟩ := Run.run_variant
    (I := fun n => Emptying S (orderCreatedMessages S s.shared) s.activations.length n) hrun has
    (.of_start hrequest hstart) fun n u a v hu ha hstep => hu.step hmax ha hstep
  exact ⟨by omega, hemptying.exists_step_or_emptied hmax⟩

instance : DecidablePred System.Input.Helpful
  | .call (.fetch exchange _) => inferInstanceAs (Decidable (exchange.accepts = true))
  | .call (.find answer) | .call (.insertOne _ _ answer) | .call (.findOneAndUpdate _ answer)
  | .call (.updateOne _ answer) => inferInstanceAs (Decidable (decide (answer = .ok) = true))
  | .call (.sendMessage _ _) => isTrue rfl
  | .settle _ => isTrue trivial

/-- Two orders are created. A first attempt to process them fails, and puts the older one behind the
other. -/
def troubled : List Action :=
  creating 0 "key" "id" "2024-05-01T10:00:00.000Z" ++
    creating 1 "key2" "id2" "2024-05-01T10:00:01.000Z" ++
    [.invoke (.http none (.processQueue .orderCreated)), .resume 2 (.task (.call (.find .lost))),
      .resume 2 (.task (.settle "2024-05-01T10:00:02.000Z"))]

/-- The inputs with which one message is processed, and the loop goes on. -/
def shippingInputs (now : String) : List Input :=
  [.task (.call (.find .ok)), .task (.call (.fetch System.acceptingExchange now)),
    .task (.call (.updateOne now .ok)), .task (.settle now), .next]

theorem recovers_troubled :
    ∃ s u t, Run.run (step .reference) init troubled = some s ∧
      step .reference s (.invoke (.http none (.processQueue .orderCreated))) = some u ∧
      Run.run (step .reference) u ((shippingInputs "2024-05-01T10:00:03.000Z" ++
        shippingInputs "2024-05-01T10:00:04.000Z").map (.resume 3)) = some t ∧
      (orderCreatedMessages .reference s.shared).map QueueMessage.ref = [1, 0] ∧
      Recovers .reference (orderCreatedMessages .reference s.shared) 3
        ((shippingInputs "2024-05-01T10:00:03.000Z" ++
          shippingInputs "2024-05-01T10:00:04.000Z").map (.resume 3)) t := by
  have hrun : ((Run.run (step .reference) init troubled).bind fun s =>
      (step .reference s (.invoke (.http none (.processQueue .orderCreated)))).bind fun u =>
        (Run.run (step .reference) u ((shippingInputs "2024-05-01T10:00:03.000Z" ++
          shippingInputs "2024-05-01T10:00:04.000Z").map (.resume 3))).map fun _ =>
            (s.activations.length, (orderCreatedMessages .reference s.shared).map QueueMessage.ref))
      = some (3, [1, 0]) := by decide +kernel
  obtain ⟨s, hs, hrest⟩ := Option.bind_eq_some_iff.mp hrun
  obtain ⟨u, hu, hrest⟩ := Option.bind_eq_some_iff.mp hrest
  obtain ⟨t, ht, hobs⟩ := Option.map_eq_some_iff.mp hrest
  obtain ⟨hlength, hmessages⟩ := Prod.mk.inj hobs
  refine ⟨s, u, t, hs, hu, ht, hmessages, ?_⟩
  rw [← hlength] at ht ⊢
  refine recovers (S := .reference) (by decide) (Or.inr ⟨none, rfl, rfl⟩) hu ?_ ht
  intro a ha
  obtain ⟨input, hinput, rfl⟩ := List.mem_map.mp ha
  have hhelpful : ∀ input ∈ shippingInputs "2024-05-01T10:00:03.000Z" ++
      shippingInputs "2024-05-01T10:00:04.000Z", input.Within System.Input.Helpful := by decide
  exact ⟨input, rfl, hhelpful input hinput⟩

end Server

end OrderProcessing
