import OrderProcessing.Consumers
import OrderProcessing.StatusMessages

/-!
# An acknowledged order-created message means a shipment

The order-created handler calls Delivery, turns the body of the answer into metadata and stores it;
if any of this fails, the message goes back into the queue. But the body is cast and not checked. A
successful answer without a `shipmentId` is stored like any other, and the message is acknowledged
although the order still counts as one without a shipment. No message is left that could lead to
another attempt.

## Main definitions

* `Exchange.namesShipment` — Delivery names a shipment, if it accepts the request
* `System.AnswersName` — what Delivery answers to certain handlers in a step
* `OrderCreatedEvent.Secure` — the handler stores, or has found or stored, a shipment with an id

## Main results

* `System.acknowledged_shipped`
* `System.acknowledged_not_shipped` — an answer without a `shipmentId`
-/

namespace OrderProcessing

open OrderRepository

/-! ### What Delivery answers -/

/-- Delivery names a shipment, if it accepts the request with a body that has properties. -/
def Exchange.namesShipment (exchange : Exchange) : Bool :=
  match deliveryOperation exchange with
  | .ok .null => true
  | .ok body => Json.truthy (body.get? (js "shipmentId"))
  | .error _ => true

theorem Exchange.namesShipment_of_metadata {exchange : Exchange} {response : Json}
    {requestedAt : String} {metadata : ShipmentMetadata}
    (hresponse : deliveryOperation exchange = .ok response)
    (hmetadata : buildShipmentMetadata requestedAt response = some metadata) :
    exchange.namesShipment = Json.truthy metadata.shipmentId := by
  rw [namesShipment, hresponse]
  cases response with
  | null => simp [buildShipmentMetadata] at hmetadata
  | _ =>
    obtain rfl := Option.some.inj hmetadata
    rfl

/-- An answer that names no shipment has a body to build metadata from. -/
theorem Exchange.exists_metadata {exchange : Exchange} (h : exchange.namesShipment = false)
    (requestedAt : String) : ∃ response metadata, deliveryOperation exchange = .ok response ∧
      buildShipmentMetadata requestedAt response = some metadata := by
  rw [namesShipment] at h
  split at h
  · exact Bool.noConfusion h
  · next response hnull hresponse =>
    cases response with
    | null => exact absurd rfl hnull
    | _ => exact ⟨_, _, hresponse, rfl⟩
  · exact Bool.noConfusion h

namespace OrderCreatedEvent

variable {maxRetries : ℚ} {c c' : Collection} {input : Input} {call : OrderCreatedEvent}
  {r : Reaction OrderCreatedEvent} {order : OrderRecord} {attempt : ℕ} {exchange : Exchange}
  {requestedAt : String}

/-- An attempt ends the call normally at no time. -/
theorem not_ok_of_afterFetch (u : Unit) :
    (call.afterFetch maxRetries order attempt exchange requestedAt).pc ≠ .returned (.ok u) := by
  rcases call.afterFetch_cases maxRetries order attempt exchange requestedAt with
    ⟨error, heq⟩ | heq | ⟨metadata, heq⟩
  all_goals
    rw [heq]
    simp [finish]

/-- The metadata that an attempt leads to has an id exactly if Delivery has named a shipment. -/
theorem namesShipment_of_afterFetch {order' : OrderRecord} {metadata : ShipmentMetadata}
    (h : (call.afterFetch maxRetries order attempt exchange requestedAt).pc
      = .store order' metadata) : exchange.namesShipment = Json.truthy metadata.shipmentId := by
  rw [afterFetch] at h
  cases hresponse : deliveryOperation exchange with
  | error error =>
    rw [hresponse, retryStep] at h
    split at h <;> next heq => split at heq <;> simp_all [finish]
  | ok response =>
    rw [hresponse, retryStep] at h
    cases hmetadata : buildShipmentMetadata requestedAt response with
    | none => simp [hmetadata, finish] at h
    | some metadata' =>
      simp only [hmetadata, Pc.store.injEq] at h
      rw [← h.2]
      exact Exchange.namesShipment_of_metadata hresponse hmetadata

theorem afterFetch_of_not_namesShipment (call : OrderCreatedEvent) (maxRetries : ℚ)
    (order : OrderRecord) (attempt : ℕ) (requestedAt : String)
    (h : exchange.namesShipment = false) :
    ∃ metadata, Json.truthy metadata.shipmentId = false ∧
      call.afterFetch maxRetries order attempt exchange requestedAt
        = { call with pc := .store order metadata } := by
  obtain ⟨response, metadata, hresponse, hmetadata⟩ := Exchange.exists_metadata h requestedAt
  refine ⟨metadata, ?_, ?_⟩
  · rw [← Exchange.namesShipment_of_metadata hresponse hmetadata, h]
  · simp only [afterFetch, hresponse, retryStep, hmetadata]

/-! ### The handler -/

/-- What the handler stores has an id; and if it has returned normally, so has what is stored. -/
def Secure (c : Collection) (call : OrderCreatedEvent) : Prop :=
  match call.pc with
  | .store _ metadata => Json.truthy metadata.shipmentId = true
  | .returned (.ok _) => ∃ o, findById c call.orderId = some o ∧ o.hasShipment = true
  | _ => True

theorem Secure.stable (h : call.Secure c)
    (hkeeps : (∃ o, findById c call.orderId = some o ∧ o.hasShipment = true) →
      ∃ o, findById c' call.orderId = some o ∧ o.hasShipment = true) : call.Secure c' := by
  obtain ⟨orderId, pc⟩ := call
  cases pc with
  | returned result =>
    cases result with
    | ok => exact hkeeps h
    | error => trivial
  | _ => exact h

/-- The document of the handler's order, after the handler has stored its metadata. -/
theorem findById_of_store {metadata : ShipmentMetadata} (hpc : call.pc = .store order metadata)
    (hprep : call.Prepared c) (now : String) :
    ∃ o, findById (updateShipmentMetadata c order.id metadata now) call.orderId = some o ∧
      o.hasShipment = Json.truthy metadata.shipmentId := by
  rw [OrderCreatedEvent.Prepared, hpc] at hprep
  obtain ⟨hid, o, ho, -⟩ := hprep
  rw [← hid, findById_updateShipmentMetadata, ho, Option.map_some, if_pos rfl]
  exact ⟨_, rfl, OrderRecord.hasShipment_of_eq_stored rfl⟩

/-- A handler of a stored order stays secure as long as Delivery names shipments. -/
theorem Steps.secure (h : Steps maxRetries c call input r) (hprep : call.Prepared c)
    (hstored : ∃ o, findById c call.orderId = some o) (hsecure : call.Secure c)
    (hanswer : ∀ exchange requestedAt, input = .fetch exchange requestedAt →
      exchange.namesShipment = true) : r.call.Secure r.orders := by
  cases h with
  | lookedUp =>
    obtain ⟨o, ho⟩ := hstored
    rw [ho]
    cases hship : o.hasShipment with
    | true => simpa [afterLookup, hship, finish, Secure] using ⟨o, ho, hship⟩
    | false => simp [afterLookup, hship, Secure]
  | @fetched order attempt exchange requestedAt =>
    show (call.afterFetch maxRetries order attempt exchange requestedAt).Secure c
    rw [Secure]
    split
    · next hpc => rw [← namesShipment_of_afterFetch hpc, hanswer exchange requestedAt rfl]
    · next u hpc => exact absurd hpc (not_ok_of_afterFetch u)
    · trivial
  | exhausted => trivial
  | @stored order metadata now hpc =>
    rw [Secure, hpc] at hsecure
    obtain ⟨o, ho, hship⟩ := findById_of_store hpc hprep now
    exact ⟨o, ho, hship.trans hsecure⟩
  | landed => trivial
  | failed => trivial

end OrderCreatedEvent

namespace System

variable {P : Platform} {config : AppConfig} {w w' : World} {s t : State} {i : ℕ}
  {consumption consumption' : Consumption Payload} {handler handler' : OrderCreatedEvent}

/-- The order is stored with a shipment that has an id. -/
def Shipped (s : State) (orderId : String) : Prop :=
  ∃ o, findById s.shared.orders orderId = some o ∧ o.hasShipment = true

/-- An answer of Delivery to an order-created handler names a shipment, if the handler is one of
those that `watched` selects by the number of their task and the order. -/
def AnswersName (watched : ℕ → String → Prop) (s : State) : Action → Prop
  | .resume i (.call (.fetch exchange _)) => ∀ consumption handler,
    s.activations[i]? = some (.consumeOrderCreated consumption (some handler)) →
    watched i handler.orderId → exchange.namesShipment = true
  | _ => True

/-- Every watched handler is secure. -/
def SecureFor (watched : ℕ → String → Prop) (s : State) : Prop :=
  ∀ (i : ℕ) (consumption : Consumption Payload) (handler : OrderCreatedEvent),
    s.activations[i]? = some (.consumeOrderCreated consumption (some handler)) →
    watched i handler.orderId → handler.Secure s.shared.orders

/-- The order of a running handler is stored: the message came from an order that was. -/
theorem Reachable.exists_order_of_running (h : Reachable P config s)
    (hi : s.activations[i]? = some (.consumeOrderCreated consumption (some handler)))
    (hrunning : handler.completed = false) :
    ∃ o, findById s.shared.orders handler.orderId = some o := by
  have hmem := List.mem_of_getElem? hi
  have hagrees := h.agrees.2 _ hmem
  simp only [TaskAgrees, OrderCreatedEvent.outcome_of_not_completed hrunning] at hagrees
  obtain ⟨message, hpc, -, hid⟩ := hagrees.holding
  have hheld : message.payload ∈ payloads (.consumeOrderCreated consumption (some handler)) := by
    simp [payloads, heldPayloads, taken, hpc]
  obtain ⟨o, ho, -⟩ := (h.allAdmissible.2 _ hmem).2 _ hheld
  exact ⟨o, by rw [hid, ho]⟩

/-- A step of a task that runs a handler: the handler takes a step, or it has ended and the consumer
settles. -/
theorem Steps.of_handler {input : Input} {task' : Task}
    (h : Steps P config w (.consumeOrderCreated consumption (some handler)) input w' task') :
    (∃ input' r, input = .call input' ∧
      OrderCreatedEvent.Steps config.maxRetries w.orders handler input' r ∧
      w'.orders = r.orders ∧ w'.queue = w.queue ∧
      task' = .consumeOrderCreated consumption (some r.call)) ∨
    (∃ now result queue consumption', input = .settle now ∧ handler.pc = .returned result ∧
      consumption.settle w.queue (handled result) now = some (queue, consumption') ∧
      w' = w.withQueue queue ∧
      task' = .consumeOrderCreated consumption' (some handler)) := by
  cases h with
  | handleOrderCreated hr =>
    exact Or.inl ⟨_, _, rfl, OrderCreatedEvent.steps hr, rfl,
      after_queue (not_published_of_orderCreated hr), rfl⟩
  | settleOrderCreated hpc hsettle => exact Or.inr ⟨_, _, _, _, rfl, hpc, hsettle, rfl, rfl⟩

/-- Secure handlers stay secure while Delivery names shipments and the shipments stay. -/
theorem SecureFor.step {watched : ℕ → String → Prop} {a : Action} (h : Reachable P config s)
    (hs : SecureFor watched s) (hanswers : AnswersName watched s a)
    (hkeeps : ∀ i orderId, watched i orderId → Shipped s orderId → Shipped t orderId)
    (hstep : step P config s a = some t) : SecureFor watched t := by
  intro i consumption handler hi hwatched
  have hstable : s.activations[i]? = some (.consumeOrderCreated consumption (some handler)) →
      handler.Secure t.shared.orders :=
    fun hi => (hs i consumption handler hi hwatched).stable (hkeeps i _ hwatched)
  cases a with
  | invoke request =>
    obtain ⟨w, task, hstart, rfl⟩ := Interleave.step_invoke_eq_some.mp hstep
    rcases Interleave.getElem?_append_cases hi with hi | ⟨-, rfl⟩
    · exact hstable hi
    · cases starts hstart
      trivial
  | resume j input =>
    obtain ⟨task, w, task', hj, hact, rfl⟩ := Interleave.step_resume_eq_some.mp hstep
    rcases Interleave.getElem?_set_cases hi with ⟨rfl, rfl⟩ | ⟨-, hi⟩
    · rcases task with _ | _ | ⟨consumption₀, _ | handler₀⟩ | ⟨_, _⟩
      · cases steps hact
      · cases steps hact
      · cases steps hact
      · rcases (steps hact).of_handler with ⟨input, r, rfl, hr, horders, -, htask⟩ |
          ⟨now, result, queue, consumption', rfl, -, -, rfl, htask⟩
        · obtain ⟨-, hhandler⟩ := Task.consumeOrderCreated.inj htask
          obtain rfl := Option.some.inj hhandler
          rw [hr.orderId_eq] at hwatched
          show r.call.Secure w.orders
          rw [horders]
          refine hr.secure (h.prepared.2 _ (List.mem_of_getElem? hj))
            (h.exists_order_of_running hj hr.not_completed) (hs i _ _ hj hwatched) ?_
          rintro exchange requestedAt rfl
          exact hanswers _ _ hj hwatched
        · obtain ⟨-, hhandler⟩ := Task.consumeOrderCreated.inj htask
          obtain rfl := Option.some.inj hhandler
          exact hs i _ _ hj hwatched
      · cases steps hact
    · exact hstable hi

/-- While the handlers of an order are secure, its shipment is only replaced by another one. -/
theorem Shipped.step {a : Action} {orderId : String} (h : Reachable P config s)
    (hs : SecureFor (fun _ id => id = orderId) s) (hship : Shipped s orderId)
    (hstep : step P config s a = some t) : Shipped t orderId := by
  obtain ⟨o, ho, hid⟩ := hship
  cases a with
  | invoke request =>
    obtain ⟨w, task, hstart, rfl⟩ := Interleave.step_invoke_eq_some.mp hstep
    refine ⟨o, ?_, hid⟩
    show findById w.service.orders orderId = some o
    rw [(starts hstart).service.1]
    exact ho
  | resume j input =>
    obtain ⟨task, w, task', hj, hact, rfl⟩ := Interleave.step_resume_eq_some.mp hstep
    obtain ⟨o', ho', hsame | ⟨consumption, handler, order, metadata, rfl, hpc, hhandler, hnew⟩⟩ :=
      (steps hact).shipment (h.prepared.2 task (List.mem_of_getElem? hj)) ho
    · exact ⟨o', ho', by rw [OrderRecord.hasShipment, hsame]; exact hid⟩
    · have hsecure := hs j consumption handler hj hhandler
      rw [OrderCreatedEvent.Secure, hpc] at hsecure
      exact ⟨o', ho', (OrderRecord.hasShipment_of_eq_stored hnew).trans hsecure⟩

/-- Every watched handler is secure after a run in which Delivery names shipments to them. -/
theorem secureFor_of_answersName {watched : ℕ → String → Prop} {as : List Action}
    (hrun : Run.run (step P config) init as = some t)
    (hanswers : Run.Along (step P config) (AnswersName watched) init as)
    (hkeeps : ∀ {u a v}, Reachable P config u → SecureFor watched u → step P config u a = some v →
      ∀ i orderId, watched i orderId → Shipped u orderId → Shipped v orderId) :
    SecureFor watched t := by
  refine (Run.run_along (p := Interleave.Action.Inputs fun _ => True) (Q := fun _ _ => True)
    (I := fun u => Reachable P config u ∧ SecureFor watched u) hrun (fun a _ => a.inputs_true)
    ⟨.refl init, fun i _ _ hi => absurd hi (by simp [init])⟩ hanswers ?_).1.2
  rintro u a v ⟨hu, hsecure⟩ ha hanswer hstep
  exact ⟨⟨Run.Reachable.tail hu ha hstep,
    hsecure.step hu hanswer (hkeeps hu hsecure hstep) hstep⟩, trivial⟩

/-- The order-created consumer with this number has acknowledged the message of the order. -/
def AcknowledgedFor (s : State) (i : ℕ) (orderId : String) : Prop :=
  ∃ consumption handler message payload,
    s.activations[i]? = some (.consumeOrderCreated consumption handler) ∧
      consumption.Acknowledges message ∧ message.payload = .orderCreated payload ∧
      payload.orderId = orderId

/-- The handler of an acknowledged message is about its order, and has returned normally. -/
theorem AcknowledgedFor.exists_handler {orderId : String} (h : Reachable P config s)
    (hack : AcknowledgedFor s i orderId) : ∃ consumption handler,
      s.activations[i]? = some (.consumeOrderCreated consumption (some handler)) ∧
      handler.orderId = orderId ∧ handler.pc = .returned (.ok ()) := by
  obtain ⟨consumption, handler, message, payload, hi, ⟨now, hpc⟩, hpayload, rfl⟩ := hack
  have hagrees := h.agrees.2 _ (List.mem_of_getElem? hi)
  cases handler with
  | none => exact absurd (hpc.symm.trans hagrees) (by simp)
  | some handler =>
    simp only [TaskAgrees, hpc] at hagrees
    obtain ⟨-, hid, result, houtcome⟩ := hagrees
    rw [hpayload] at hid
    refine ⟨consumption, handler, hi, hid, ?_⟩
    obtain ⟨orderId, handlerPc⟩ := handler
    cases handlerPc with
    | returned outcome => exact congrArg OrderCreatedEvent.Pc.returned (Option.some.inj houtcome)
    | _ => exact absurd houtcome (by simp [OrderCreatedEvent.outcome])

theorem AcknowledgedFor.shipped {watched : ℕ → String → Prop} {orderId : String}
    (h : Reachable P config s) (hack : AcknowledgedFor s i orderId) (hwatched : watched i orderId)
    (hsecure : SecureFor watched s) : Shipped s orderId := by
  obtain ⟨consumption, handler, hi, rfl, hpc⟩ := hack.exists_handler h
  have hdone := hsecure i consumption handler hi hwatched
  rwa [OrderCreatedEvent.Secure, hpc] at hdone

/-! ### An answer without a shipment -/

/-- Delivery has accepted the request of the handler without naming a shipment. The handler may
still fail; if it returns normally, the order has no shipment, and no other message of the order is
left.
-/
def SpoiledHandler (s : State) (consumption : Consumption Payload) (handler : OrderCreatedEvent) :
    Prop :=
  match handler.pc with
  | .store _ metadata => Json.truthy metadata.shipmentId = false
  | .returned (.error _) => True
  | .returned (.ok _) =>
    (∃ o, findById s.shared.orders handler.orderId = some o ∧ o.hasShipment = false) ∧
      tokens handler.orderId s = consumptionTokens handler.orderId consumption
  | _ => False

/-- The activation with number `i` is such a handler. -/
def Spoiled (s : State) (i : ℕ) : Prop :=
  ∃ consumption handler,
    s.activations[i]? = some (.consumeOrderCreated consumption (some handler)) ∧
      SpoiledHandler s consumption handler

/-- An answer that names no shipment spoils the handler. -/
theorem Spoiled.of_answer {a : Action}
    (hanswer : ¬ AnswersName (fun j _ => j = i) s a) (hstep : step P config s a = some t) :
    Spoiled t i := by
  rcases a with request | ⟨j, input⟩
  · exact absurd trivial hanswer
  · rcases input with input | now
    · cases input with
      | fetch exchange requestedAt =>
        simp only [AnswersName] at hanswer
        push Not at hanswer
        obtain ⟨consumption, handler, hj, rfl, hnot⟩ := hanswer
        obtain ⟨task, w, task', hj', hact, rfl⟩ := Interleave.step_resume_eq_some.mp hstep
        obtain rfl := Option.some.inj (hj.symm.trans hj')
        rcases (steps hact).of_handler with ⟨input, r, heq, hr, horders, -, rfl⟩ |
          ⟨_, _, _, _, heq, -⟩
        · obtain rfl := Input.call.inj heq
          refine ⟨consumption, r.call, Interleave.getElem?_set_of_some hj _, ?_⟩
          cases hr with
          | @fetched order attempt _ _ hpc hallowed =>
            obtain ⟨metadata, hmetadata, hstore⟩ := handler.afterFetch_of_not_namesShipment
              config.maxRetries order attempt requestedAt (by simpa using hnot)
            rw [SpoiledHandler, hstore]
            exact hmetadata
          | exhausted => trivial
          | failed hfailed => exact Bool.noConfusion hfailed
        · exact Input.noConfusion heq
      | _ => exact absurd trivial hanswer
    · exact absurd trivial hanswer

/-- A handler that has left its order without a shipment: the order stays so. -/
theorem SpoiledHandler.of_other {a : Action}
    (hqueues : config.orderCreatedQueue ≠ config.orderStatusQueue) (h : Reachable P config s)
    (hs : SpoiledHandler s consumption handler)
    (hi : s.activations[i]? = some (.consumeOrderCreated consumption (some handler)))
    (hi' : t.activations[i]? = some (.consumeOrderCreated consumption (some handler)))
    (hother : ∀ input, a ≠ .resume i input) (hstep : step P config s a = some t) :
    SpoiledHandler t consumption handler := by
  rw [SpoiledHandler] at hs ⊢
  split at hs
  · exact hs
  · trivial
  · obtain ⟨⟨o, ho, hship⟩, htokens⟩ := hs
    have hle := le_tokens hi' handler.orderId
    have htokens' : tokens handler.orderId t = consumptionTokens handler.orderId consumption := by
      rcases tokens_step hstep handler.orderId with hmoved | ⟨hnone, -⟩
      · exact Nat.le_antisymm (hmoved.trans htokens.le) hle
      · exact absurd (ho.symm.trans hnone) (by simp)
    refine ⟨?_, htokens'⟩
    cases a with
    | invoke request =>
      obtain ⟨w, task, hstart, rfl⟩ := Interleave.step_invoke_eq_some.mp hstep
      refine ⟨o, ?_, hship⟩
      show findById w.service.orders handler.orderId = some o
      rw [(starts hstart).service.1]
      exact ho
    | resume j input =>
      obtain ⟨task, w, task', hj, hact, rfl⟩ := Interleave.step_resume_eq_some.mp hstep
      obtain ⟨o', ho', hsame | ⟨consumption', handler', _, _, rfl, hpc', hid, -⟩⟩ :=
        (steps hact).shipment (h.prepared.2 task (List.mem_of_getElem? hj)) ho
      · exact ⟨o', ho', by rw [OrderRecord.hasShipment, hsame]; exact hship⟩
      · -- another handler about to store a shipment would have a token of its own
        have hrunning := OrderCreatedEvent.not_completed_of_committed
          (OrderCreatedEvent.committed_of_store hpc')
        have hone := taskTokens_of_running hqueues (h.kinds.2 _ (List.mem_of_getElem? hj)) hrunning
        have hij : i ≠ j := fun hij => hother input (hij ▸ rfl)
        have htwo := add_le_tokens hi hj hij handler.orderId
        rw [hid] at hone
        rw [htokens, hone] at htwo
        exact absurd htwo (Nat.not_succ_le_self _)
  · exact hs.elim

/-- A step of the handler itself: what it stores is no shipment. -/
theorem SpoiledHandler.of_call {w : World} {input : OrderProcessing.Input}
    {r : Reaction OrderCreatedEvent}
    (hqueues : config.orderCreatedQueue ≠ config.orderStatusQueue) (h : Reachable P config s)
    (hs : SpoiledHandler s consumption handler)
    (hi : s.activations[i]? = some (.consumeOrderCreated consumption (some handler)))
    (hr : OrderCreatedEvent.Steps config.maxRetries s.shared.orders handler input r)
    (horders : w.orders = r.orders)
    (hreach : Reachable P config
      ⟨w, s.activations.set i (.consumeOrderCreated consumption (some r.call))⟩) :
    SpoiledHandler ⟨w, s.activations.set i (.consumeOrderCreated consumption (some r.call))⟩
      consumption r.call := by
  have hone := taskTokens_of_running hqueues (h.kinds.2 _ (List.mem_of_getElem? hi))
    hr.not_completed
  have hmost := (hreach.guarded handler.orderId).1
  have hleast := le_tokens (s := ⟨w, s.activations.set i
    (.consumeOrderCreated consumption (some r.call))⟩) (Interleave.getElem?_set_of_some hi _)
    handler.orderId
  rw [SpoiledHandler] at hs
  cases hr with
  | lookedUp hpc => simp [hpc] at hs
  | fetched hpc => simp [hpc] at hs
  | exhausted hpc => simp [hpc] at hs
  | @stored order metadata now hpc =>
    rw [hpc] at hs
    obtain ⟨o, ho, hship⟩ := OrderCreatedEvent.findById_of_store hpc
      (h.prepared.2 _ (List.mem_of_getElem? hi)) now
    refine ⟨⟨o, ?_, hship.trans hs⟩, ?_⟩
    · show findById w.orders _ = _
      rw [horders]
      exact ho
    · exact Nat.le_antisymm (hmost.trans hone.ge) hleast
  | landed => trivial
  | failed => trivial

/-- The consumer settles: a handler that has returned normally has handled the last message. -/
theorem SpoiledHandler.of_settle {consumption' : Consumption Payload} {queue : QueueWorld Payload}
    {result : Except ServiceError Unit} {now : String}
    (hs : SpoiledHandler s consumption handler)
    (hi : s.activations[i]? = some (.consumeOrderCreated consumption (some handler)))
    (hpc : handler.pc = .returned result)
    (hsettle : consumption.settle s.shared.queue (handled result) now
      = some (queue, consumption')) :
    SpoiledHandler ⟨s.shared.withQueue queue,
      s.activations.set i (.consumeOrderCreated consumption' (some handler))⟩ consumption'
      handler := by
  rw [SpoiledHandler, hpc] at hs ⊢
  cases result with
  | error => trivial
  | ok =>
    obtain ⟨hstored, htokens⟩ := hs
    refine ⟨hstored, ?_⟩
    obtain ⟨message, -, ⟨-, rfl, rfl⟩ | ⟨hnot, -⟩⟩ := Consumption.settle_cases hsettle
    · have hsum := Interleave.sum_map_set (taskTokens handler.orderId) hi
        (.consumeOrderCreated { consumption with pc := .acknowledged message now }
          (some handler))
      have hstore : storeTokens handler.orderId (s.shared.withQueue s.shared.queue)
          = storeTokens handler.orderId s.shared := rfl
      simp only [tokens, taskTokens, heldTokens] at htokens hsum ⊢
      rw [hstore]
      omega
    · exact Bool.noConfusion hnot

/-- **A spoiled handler stays spoiled.** -/
theorem Spoiled.step {a : Action} (hqueues : config.orderCreatedQueue ≠ config.orderStatusQueue)
    (h : Reachable P config s) (hs : Spoiled s i) (hstep : step P config s a = some t) :
    Spoiled t i := by
  obtain ⟨consumption, handler, hi, hspoiled⟩ := hs
  cases a with
  | invoke request =>
    obtain ⟨w, task, hstart, rfl⟩ := Interleave.step_invoke_eq_some.mp hstep
    have hi' := Interleave.getElem?_append_of_some hi task
    exact ⟨consumption, handler, hi',
      hspoiled.of_other hqueues h hi hi' (fun _ heq => by simp at heq) hstep⟩
  | resume j input =>
    have hreach : Reachable P config t :=
      Run.Reachable.tail h (Interleave.Action.inputs_true _) hstep
    have hstep' := hstep
    obtain ⟨task, w, task', hj, hact, rfl⟩ := Interleave.step_resume_eq_some.mp hstep
    by_cases hij : j = i
    · subst hij
      obtain rfl := Option.some.inj (hi.symm.trans hj)
      have hset := Interleave.getElem?_set_of_some hi
      rcases (steps hact).of_handler with ⟨input, r, rfl, hr, horders, -, rfl⟩ |
        ⟨now, result, queue, consumption', rfl, hpc, hsettle, rfl, rfl⟩
      · exact ⟨consumption, r.call, hset _, hspoiled.of_call hqueues h hi hr horders hreach⟩
      · exact ⟨consumption', handler, hset _, hspoiled.of_settle hi hpc hsettle⟩
    · have hi' : (s.activations.set j task')[i]? = _ := (List.getElem?_set_ne hij).trans hi
      refine ⟨consumption, handler, hi', hspoiled.of_other hqueues h hi hi' ?_ hstep'⟩
      rintro input' heq
      exact hij (Interleave.Action.resume.inj heq).1

/-! ### Acknowledged messages -/

/-- The consumer has acknowledged its message, or the message is back at the end of the queue. -/
def Settled (s t : State) (i : ℕ) (queueName : String) (message : QueueMessage Payload)
    (handler : Option OrderCreatedEvent) : Prop :=
  (t.shared.queue.store = s.shared.queue.store ∧ ∃ now, t.activations[i]?
    = some (.consumeOrderCreated ⟨queueName, .acknowledged message now⟩ handler)) ∨
  (t.shared.queue.store.messages = s.shared.queue.store.messages ++ [message] ∧
    t.activations[i]? = some (.consumeOrderCreated ⟨queueName, .failed message⟩ handler))

/-- A consumer that settles holds a message: it acknowledges it or puts it back. -/
theorem settled_step {handler : Option OrderCreatedEvent} {now : String}
    (hi : s.activations[i]? = some (.consumeOrderCreated consumption handler))
    (hstep : step P config s (.resume i (.settle now)) = some t) :
    ∃ message, consumption.pc = .holding message ∧
      Settled s t i consumption.queueName message handler := by
  obtain ⟨task, w, task', hi', hact, rfl⟩ := Interleave.step_resume_eq_some.mp hstep
  obtain rfl := Option.some.inj (hi.symm.trans hi')
  cases handler with
  | none => cases steps hact
  | some handler =>
    rcases (steps hact).of_handler with ⟨_, _, heq, -⟩ |
      ⟨now', result, queue, consumption', -, -, hsettle, rfl, rfl⟩
    · exact Input.noConfusion heq
    · obtain ⟨message, hpc, hcases⟩ := Consumption.settle_cases hsettle
      refine ⟨message, hpc, ?_⟩
      rcases hcases with ⟨-, rfl, rfl⟩ | ⟨-, rfl, rfl⟩
      · exact Or.inl ⟨rfl, now', Interleave.getElem?_set_of_some hi _⟩
      · exact Or.inr ⟨rfl, Interleave.getElem?_set_of_some hi _⟩

/-- If Delivery names shipments for an order, then an acknowledged message means a shipment,
whatever the names of the two queues. -/
theorem AcknowledgedFor.shipped_of_answersName {as : List Action} {orderId : String}
    (hrun : Run.run (step P config) init as = some s) (hack : AcknowledgedFor s i orderId)
    (hanswers : Run.Along (step P config) (AnswersName fun _ id => id = orderId) init as) :
    Shipped s orderId := by
  refine hack.shipped ⟨as, fun a _ => a.inputs_true, hrun⟩ rfl
    (secureFor_of_answersName hrun hanswers ?_)
  rintro u a v hu hsecure hstep _ _ rfl hship
  exact hship.step hu hsecure hstep

/-- With two names it is enough to look at the answers to the handler of the message, and each of
them counts. -/
theorem AcknowledgedFor.shipped_iff {as : List Action} {orderId : String}
    (hqueues : config.orderCreatedQueue ≠ config.orderStatusQueue)
    (hrun : Run.run (step P config) init as = some s) (hack : AcknowledgedFor s i orderId) :
    Shipped s orderId ↔ Run.Along (step P config) (AnswersName fun j _ => j = i) init as := by
  have hreach : Reachable P config s := ⟨as, fun a _ => a.inputs_true, hrun⟩
  constructor
  · rintro ⟨o, ho, hship⟩
    rcases Run.along_or (I := Reachable P config) (D := fun u => Spoiled u i)
      (p := Interleave.Action.Inputs fun _ => True)
      (fun _ _ _ hu ha hstep => Run.Reachable.tail hu ha hstep)
      (fun _ _ _ hu _ hspoiled hstep => hspoiled.step hqueues hu hstep)
      (fun _ _ _ _ _ hanswer hstep => Spoiled.of_answer hanswer hstep) hrun
      (fun a _ => a.inputs_true) (.refl init) with halong | ⟨_, handler, hi, hspoiled⟩
    · exact halong
    · obtain ⟨_, handler', hi', rfl, hpc⟩ := hack.exists_handler hreach
      obtain ⟨-, hhandler⟩ := Task.consumeOrderCreated.inj (Option.some.inj (hi.symm.trans hi'))
      obtain rfl := Option.some.inj hhandler
      rw [SpoiledHandler, hpc] at hspoiled
      obtain ⟨⟨o', ho', hnone⟩, -⟩ := hspoiled
      obtain rfl := Option.some.inj (ho.symm.trans ho')
      rw [hship] at hnone
      exact Bool.noConfusion hnone
  · intro hanswers
    refine hack.shipped hreach rfl (secureFor_of_answersName hrun hanswers ?_)
    rintro u a v hu - hstep _ _ rfl ⟨o, ho, hship⟩
    obtain ⟨o', ho', hsame⟩ := keepsShipments_step hqueues hu hstep _ o ho hship
    exact ⟨o', ho', by rwa [OrderRecord.hasShipment, hsame]⟩

/-- **An acknowledged order-created message means a shipment, if Delivery names one whenever it
accepts a request for the order.** With two queue names, the answers to the handler of the message
decide: the order has a shipment if and only if each of them names one, if accepted. A message that
is not acknowledged is put back. -/
theorem acknowledged_shipped {as : List Action}
    (hrun : Run.run (step P config) init as = some s) :
    (∀ i orderId, AcknowledgedFor s i orderId →
      (Run.Along (step P config) (AnswersName fun _ id => id = orderId) init as →
        Shipped s orderId) ∧
      (config.orderCreatedQueue ≠ config.orderStatusQueue →
        (Shipped s orderId ↔ Run.Along (step P config) (AnswersName fun j _ => j = i) init as))) ∧
    ∀ (i : ℕ) consumption handler now t,
      s.activations[i]? = some (.consumeOrderCreated consumption handler) →
      step P config s (.resume i (.settle now)) = some t →
      ∃ message, consumption.pc = .holding message ∧
        Settled s t i consumption.queueName message handler :=
  ⟨fun _ _ hack => ⟨hack.shipped_of_answersName hrun, fun hqueues => hack.shipped_iff hqueues hrun⟩,
    fun _ _ _ _ _ hi hstep => settled_step hi hstep⟩

/-- The order whose message a task has acknowledged. -/
def acknowledgedOrder : Task → Option String
  | .consumeOrderCreated ⟨_, .acknowledged ⟨_, _, .orderCreated payload, _⟩ _⟩ _ =>
    some payload.orderId
  | _ => none

theorem acknowledgedFor_of_acknowledgedOrder {orderId : String}
    (h : (s.activations[i]?).bind acknowledgedOrder = some orderId) :
    AcknowledgedFor s i orderId := by
  obtain ⟨task, hi, htask⟩ := Option.bind_eq_some_iff.mp h
  unfold acknowledgedOrder at htask
  split at htask
  · next payload sentAt now handler =>
    exact ⟨_, _, _, _, hi, ⟨_, rfl⟩, rfl, Option.some.inj htask⟩
  · simp at htask

/-- Delivery is not available at first, and then accepts the request with this body. -/
def acceptedWith (body : Json) : List Action :=
  [.invoke (.postOrder (samplePayload 10) "key"), .resume 0 (.call (.find .ok)),
    .resume 0 (.call (.insertOne "id" "2024-05-01T10:00:00.000Z" .ok)),
    .resume 0 (.call (.sendMessage true "2024-05-01T10:00:00.000Z")),
    .invoke .consumeOrderCreated, .resume 1 (.call (.find .ok)),
    .resume 1 (.call (.fetch (.response 503 none) "2024-05-01T10:00:01.000Z")),
    .resume 1 (.call (.fetch (.response 200 (some body)) "2024-05-01T10:00:02.000Z")),
    .resume 1 (.call (.updateOne "2024-05-01T10:00:02.000Z" .ok)),
    .resume 1 (.settle "2024-05-01T10:00:03.000Z")]

/-- Delivery names the shipment. -/
theorem acknowledged_shipped_named :
    ∃ s, Run.run (step .reference .default) init
        (acceptedWith (.obj [(js "shipmentId", .str (js "s-1"))])) = some s ∧
      AcknowledgedFor s 1 "id" ∧ Shipped s "id" ∧
      Run.Along (step .reference .default) (AnswersName fun j _ => j = 1) init
        (acceptedWith (.obj [(js "shipmentId", .str (js "s-1"))])) := by
  have hrun : (Run.run (step .reference .default) init
      (acceptedWith (.obj [(js "shipmentId", .str (js "s-1"))]))).map (fun s =>
        ((findById s.shared.orders "id").map OrderRecord.hasShipment,
          (s.activations[1]?).bind acknowledgedOrder)) = some (some true, some "id") := by decide
  obtain ⟨s, hs, hobs⟩ := Option.map_eq_some_iff.mp hrun
  obtain ⟨hdoc, hordered⟩ := Prod.mk.inj hobs
  have hack := acknowledgedFor_of_acknowledgedOrder hordered
  have hship : Shipped s "id" := Option.map_eq_some_iff.mp hdoc
  exact ⟨s, hs, hack, hship,
    (((acknowledged_shipped hs).1 1 "id" hack).2 (by decide)).mp hship⟩

/-- Delivery answers 200 with an empty object: the message is acknowledged, nothing is left in the
queue, and the order has no shipment. -/
theorem acknowledged_not_shipped :
    ∃ s, Reachable .reference .default s ∧ AcknowledgedFor s 1 "id" ∧
      s.shared.queue.store.messages.length = 0 ∧ ¬ Shipped s "id" := by
  have hrun : (Run.run (step .reference .default) init (acceptedWith (.obj []))).map (fun s =>
      ((findById s.shared.orders "id").map OrderRecord.hasShipment,
        (s.activations[1]?).bind acknowledgedOrder, s.shared.queue.store.messages.length))
      = some (some false, some "id", 0) := by decide
  obtain ⟨s, hs, hobs⟩ := Option.map_eq_some_iff.mp hrun
  obtain ⟨hdoc, hrest⟩ := Prod.mk.inj hobs
  obtain ⟨hordered, hempty⟩ := Prod.mk.inj hrest
  refine ⟨s, ⟨_, fun a _ => a.inputs_true, hs⟩, acknowledgedFor_of_acknowledgedOrder hordered,
    hempty, ?_⟩
  rintro ⟨o, ho, hship⟩
  rw [ho] at hdoc
  exact absurd (hship.symm.trans (Option.some.inj hdoc)) (by decide)

end System

end OrderProcessing
