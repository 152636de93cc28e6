import OrderProcessing.Admission
import OrderProcessing.Reads

/-!
# Requests to Delivery

What the server asks of Delivery, and what becomes of the answers. Every request about a stored
order is the one that is built from it. A stored shipment that counts as one was built from the
answer to the last of these requests: the handler that asks is the only one that is running for the
order, and once the shipment is stored nobody asks again. Requests that were not answered, or whose
answer was lost with the write, come before.

## What is deliberately absent

A shipment without a truthy identifier does not count as one. Its order may be asked about again, so
nothing is said about its metadata.

## Main definitions

* `World.requestsFor` — the requests about an order that were sent to Delivery
* `Server.AnsweredLast` — what the last of them was answered
* `Server.DeliveriesExplained` — the requests about an order, and its shipment

## Main results

* `Server.no_request_after_shipment`
* `Server.deliveries_explained`
-/

namespace OrderProcessing

open OrderRepository

/-! ### The requests about an order -/

/-- The request, if this is one to Delivery. -/
def Effect.request? : Effect → Option ShipmentRequest
  | .requested request => some request
  | .published _ _ => none

/-- The requests about an order, in the order in which they were sent. -/
def World.requestsFor (orderId : String) (w : World) : List ShipmentRequest :=
  (w.effects.filterMap Effect.request?).filter fun request => request.orderId = orderId

/-- Anything but a request leaves the requests as they are. -/
theorem World.requestsFor_after {κ : Type} {w : World} {r : Reaction κ}
    (h : ∀ request, r.effect ≠ some (.requested request)) (orderId : String) :
    (w.after r).requestsFor orderId = w.requestsFor orderId := by
  have hnone : r.effect.toList.filterMap Effect.request? = [] := by
    rcases heffect : r.effect with _ | (⟨payload, sentAt⟩ | request)
    · rfl
    · rfl
    · exact absurd heffect (h request)
  rw [requestsFor, World.after, List.filterMap_append, hnone, List.append_nil]
  rfl

/-- A request counts for its own order alone. -/
theorem World.requestsFor_request {κ : Type} {w : World} {r : Reaction κ} {order : OrderRecord}
    (h : r.effect = some (.requested (shipmentRequest order))) (orderId : String) :
    (w.after r).requestsFor orderId = if order.id = orderId
      then w.requestsFor orderId ++ [shipmentRequest order] else w.requestsFor orderId := by
  have hrequest : r.effect.toList.filterMap Effect.request? = [shipmentRequest order] := by
    rw [h]
    rfl
  rw [requestsFor, World.after, List.filterMap_append, hrequest, List.filter_append]
  by_cases hid : order.id = orderId
  · simp [requestsFor, shipmentRequest, hid]
  · simp [requestsFor, shipmentRequest, hid]

theorem OrderCreatedEvent.orderId_afterFetch (maxRetries : ℚ) (call : OrderCreatedEvent)
    (order : OrderRecord) (attempt : ℕ) (exchange : Exchange) (requestedAt : String) :
    (call.afterFetch maxRetries order attempt exchange requestedAt).orderId = call.orderId := by
  rcases afterFetch_cases maxRetries call order attempt exchange requestedAt with
    ⟨_, heq⟩ | heq | ⟨_, heq⟩
  all_goals exact (congrArg OrderCreatedEvent.orderId heq).trans rfl

/-- What the answer to an attempt must have been for the handler to go on to the write. -/
theorem OrderCreatedEvent.of_afterFetch_store {maxRetries : ℚ} {call : OrderCreatedEvent}
    {order order' : OrderRecord} {attempt : ℕ} {exchange : Exchange} {requestedAt : String}
    {metadata : ShipmentMetadata}
    (h : (call.afterFetch maxRetries order attempt exchange requestedAt).pc
      = .store order' metadata) :
    ∃ response, deliveryOperation exchange = .ok response ∧
      buildShipmentMetadata requestedAt response = some metadata := by
  rw [afterFetch] at h
  cases hop : deliveryOperation exchange with
  | ok response =>
    simp only [hop, retryStep] at h
    refine ⟨response, rfl, ?_⟩
    cases hmeta : buildShipmentMetadata requestedAt response with
    | none =>
      simp only [hmeta] at h
      exact OrderCreatedEvent.Pc.noConfusion h
    | some metadata' =>
      simp only [hmeta] at h
      rw [(OrderCreatedEvent.Pc.store.inj h).2]
  | error error =>
    simp only [hop, retryStep] at h
    split at h
    · exact OrderCreatedEvent.Pc.noConfusion h
    · exact OrderCreatedEvent.Pc.noConfusion h
    · next heq => split at heq <;> simp at heq

namespace System

variable {P : Platform} {config : AppConfig} {w w' : World} {task task' : Task}

/-- The task is a handler that is about to store these metadata. -/
def Stores (task : Task) (orderId : String) (metadata : ShipmentMetadata) : Prop :=
  ∃ consumption handler order, task = .consumeOrderCreated consumption (some handler) ∧
    handler.orderId = orderId ∧ handler.pc = .store order metadata

/-- The step is a request to Delivery. -/
inductive Requests (config : AppConfig) (w : World) : Task → Input → World → Task → Prop
  | mk {consumption handler order attempt exchange requestedAt w'} :
      handler.pc = .deliver order attempt → w'.orders = w.orders →
      (∀ orderId, w'.service.requestsFor orderId = if order.id = orderId
        then w.service.requestsFor orderId ++ [shipmentRequest order]
        else w.service.requestsFor orderId) →
      Requests config w (.consumeOrderCreated consumption (some handler))
        (.call (.fetch exchange requestedAt)) w'
        (.consumeOrderCreated consumption
          (some (handler.afterFetch config.maxRetries order attempt exchange requestedAt)))

/-- A step is a request to Delivery, or it sends none, and does not lead to a write. -/
theorem Steps.requests {input : Input} (h : Steps P config w task input w' task') :
    Requests config w task input w' task' ∨
      ((∀ orderId, w'.service.requestsFor orderId = w.service.requestsFor orderId) ∧
        ∀ orderId metadata, ¬ Stores task' orderId metadata) := by
  have hnot : ∀ {task}, (∀ consumption handler, task ≠ .consumeOrderCreated consumption
      (some handler)) → ∀ orderId metadata, ¬ Stores task orderId metadata := by
    rintro task htask orderId metadata ⟨consumption, handler, -, rfl, -⟩
    exact htask consumption handler rfl
  have hpc : ∀ {consumption handler}, (∀ order metadata, handler.pc ≠ .store order metadata) →
      ∀ orderId metadata,
        ¬ Stores (.consumeOrderCreated consumption (some handler)) orderId metadata := by
    rintro consumption handler hpc orderId metadata ⟨_, _, order, heq, -, hstore⟩
    obtain rfl := Option.some.inj (Task.consumeOrderCreated.inj heq).2
    exact hpc order metadata hstore
  cases h with
  | createOrder hr =>
    refine Or.inr ⟨World.requestsFor_after ?_, hnot (by simp)⟩
    cases CreateOrder.steps hr <;> simp
  | validate hr =>
    refine Or.inr ⟨World.requestsFor_after ?_, hnot (by simp)⟩
    cases StatusValidation.steps hr <;> simp
  | accept => exact Or.inr ⟨fun _ => rfl, hnot (by simp)⟩
  | reply => exact Or.inr ⟨fun _ => rfl, hnot (by simp)⟩
  | @handleOrderCreated consumption handler input r hr =>
    cases OrderCreatedEvent.steps hr with
    | lookedUp =>
      refine Or.inr ⟨World.requestsFor_after (by simp), hpc ?_⟩
      rcases handler.afterLookup_cases (findById w.orders handler.orderId) with
        heq | ⟨_, _, _, heq⟩
      · simp [heq, OrderCreatedEvent.finish]
      · simp [heq]
    | fetched hdeliver => exact Or.inl (.mk hdeliver rfl (World.requestsFor_request rfl))
    | _ =>
      exact Or.inr ⟨World.requestsFor_after (by simp), hpc (by simp [OrderCreatedEvent.finish])⟩
  | settleOrderCreated hreturned =>
    exact Or.inr ⟨fun _ => rfl, hpc (by simp [hreturned])⟩
  | handleStatus hr =>
    refine Or.inr ⟨World.requestsFor_after ?_, hnot (by simp)⟩
    cases StatusUpdate.steps hr <;> simp
  | settleStatus => exact Or.inr ⟨fun _ => rfl, hnot (by simp)⟩

/-- Where the shipment of a document comes from in one step. -/
theorem Steps.shipped {input : Input} (h : Steps P config w task input w' task')
    (hprep : (serviceCall task).Prepared P w.orders) {o : OrderRecord} (ho : o ∈ w'.orders.docs)
    {metadata : ShipmentMetadata} (hmetadata : o.shipment = some metadata) :
    (∃ o₀ ∈ w.orders.docs, o₀.id = o.id ∧ o₀.shipment = o.shipment) ∨
      ∃ built, metadata = built.stored ∧ Stores task o.id built := by
  cases h.origin ho with
  | @kept o₀ ho₀ hext =>
    obtain ⟨o', ho', hship⟩ := h.shipment hprep (findById_of_mem ho₀)
    rw [← hext.id_eq, findById_of_mem ho] at ho'
    obtain rfl := Option.some.inj ho'
    rcases hship with hsame | ⟨consumption, handler, order, metadata', rfl, hpc, hid, hstored⟩
    · exact Or.inl ⟨o₀, ho₀, hext.id_eq.symm, hsame.symm⟩
    · exact Or.inr ⟨metadata', Option.some.inj (hmetadata.symm.trans hstored), consumption, handler,
        order, rfl, hid.trans hext.id_eq.symm, hpc⟩
  | inserted _ _ _ _ _ heq =>
    rw [heq] at hmetadata
    simp [newOrder, OrderRecord.stored] at hmetadata

/-- A task that has just started does not store a shipment. -/
theorem Starts.not_stores {request : Request} (h : Starts P config w request w' task)
    (orderId : String) (metadata : ShipmentMetadata) : ¬ Stores task orderId metadata := by
  rintro ⟨consumption, handler, order, rfl, -, hpc⟩
  cases h
  exact OrderCreatedEvent.Pc.noConfusion hpc

end System

/-! ### The tasks of the jobs -/

namespace Server

open Interleave (shown)

variable {S : Setup} {s t : State}

/-- A step of the server is one of the task of a job, or it leaves the database and Delivery alone,
and the tasks as they are, but for one that has just started. -/
theorem step_cases {a : Action} (h : step S s a = some t) :
    (t.shared.service = s.shared.service ∧ ∀ i current, shown task t.activations i = some current →
      shown task s.activations i = some current ∨
        ∃ request w w', System.Starts S.platform S.app w request w' current) ∨
    ∃ i input current current', a = .resume i (.task input) ∧
      shown task s.activations i = some current ∧
      System.Steps S.platform S.app s.shared current input t.shared current' ∧
      ∀ j, shown task t.activations j = if j = i then some current'
        else shown task s.activations j := by
  cases a with
  | invoke request =>
    obtain ⟨w, job, hstart, rfl⟩ := Interleave.step_invoke_eq_some.mp h
    have hstarts := starts hstart
    refine Or.inl ⟨hstarts.service, fun i current hi => ?_⟩
    rw [Interleave.shown_append] at hi
    split at hi
    · cases hstarts with
      | createOrder =>
        obtain rfl := Option.some.inj hi
        exact Or.inr ⟨_, s.shared, _, .postOrder _ _⟩
      | updateStatus _ _ _ htask =>
        obtain rfl := Option.some.inj hi
        exact Or.inr ⟨_, _, _, System.starts htask⟩
      | draining htask =>
        obtain rfl := Option.some.inj hi
        exact Or.inr ⟨_, _, _, System.starts htask⟩
      | _ => simp [task] at hi
    · exact Or.inl hi
  | resume i input =>
    obtain ⟨job, w, job', hi, hact, rfl⟩ := Interleave.step_resume_eq_some.mp h
    have hshown : ∀ current, task job = some current →
        shown task s.activations i = some current := fun current hcurrent =>
      Interleave.shown_eq_some_iff.mpr ⟨job, hi, hcurrent⟩
    cases steps hact with
    | post htask =>
      exact Or.inr ⟨i, _, _, _, rfl, hshown _ rfl, System.steps htask,
        fun j => Interleave.shown_set hi _ j⟩
    | read =>
      refine Or.inl ⟨rfl, fun j current hj => ?_⟩
      rw [Interleave.shown_set hi] at hj
      split at hj
      · simp [task] at hj
      · exact Or.inl hj
    | consume htask =>
      exact Or.inr ⟨i, _, _, _, rfl, hshown _ rfl, System.steps htask,
        fun j => Interleave.shown_set hi _ j⟩
    | next _ htask =>
      have hstarts := System.starts htask
      refine Or.inl ⟨hstarts.service.1, fun j current hj => ?_⟩
      rw [Interleave.shown_set hi] at hj
      split at hj
      · obtain rfl := Option.some.inj hj
        exact Or.inr ⟨_, _, _, hstarts⟩
      · exact Or.inl hj

/-- The requests to Delivery about an order. -/
def requestsFor (orderId : String) (s : State) : List ShipmentRequest :=
  s.shared.service.requestsFor orderId

/-- A handler that has seen its order without a shipment is the only one. -/
theorem Reachable.committed_unique (hqueues : S.app.orderCreatedQueue ≠ S.app.orderStatusQueue)
    (h : Reachable S s) {i j : ℕ} {consumption consumption' : Consumption Payload}
    {handler handler' : OrderCreatedEvent}
    (hi : shown task s.activations i = some (.consumeOrderCreated consumption (some handler)))
    (hj : shown task s.activations j = some (.consumeOrderCreated consumption' (some handler')))
    (hcommitted : handler.committed = true) (hcommitted' : handler'.committed = true)
    (hid : handler'.orderId = handler.orderId) : i = j := by
  obtain ⟨s', hs', -, number, hnumber⟩ := h.system
  refine hnumber.injective hi hj (System.active_unique hqueues hs'
    ⟨consumption, handler, hnumber.shows hi,
      OrderCreatedEvent.not_completed_of_committed hcommitted, rfl⟩
    ⟨consumption', handler', hnumber.shows hj,
      OrderCreatedEvent.not_completed_of_committed hcommitted', hid⟩)

/-- Its order has no shipment yet. -/
theorem Reachable.unshipped (hqueues : S.app.orderCreatedQueue ≠ S.app.orderStatusQueue)
    (h : Reachable S s) {i : ℕ} {consumption : Consumption Payload} {handler : OrderCreatedEvent}
    (hi : shown task s.activations i = some (.consumeOrderCreated consumption (some handler)))
    (hcommitted : handler.committed = true) {o : OrderRecord} (ho : o ∈ s.shared.orders.docs)
    (hid : handler.orderId = o.id) : o.hasShipment = false := by
  obtain ⟨s', hs', hshared, number, hnumber⟩ := h.system
  obtain ⟨o', ho', hship⟩ := hs'.unshipped hqueues _ _ _ (hnumber.shows hi) hcommitted
  have hshared : s'.shared = s.shared := hshared
  rw [hshared, hid, findById_of_mem ho] at ho'
  rwa [Option.some.inj ho']

/-- The service call of the task of a job knows what it should. -/
theorem Reachable.prepared (h : Reachable S s) {i : ℕ} {current : Task}
    (hi : shown task s.activations i = some current) :
    (System.serviceCall current).Prepared S.platform s.shared.orders := by
  obtain ⟨s', hs', hshared, number, hnumber⟩ := h.system
  have hshared : s'.shared = s.shared := hshared
  rw [← hshared]
  exact hs'.prepared.2 current (List.mem_of_getElem? (hnumber.shows hi))

/-- **Nobody asks about an order that has a shipment.** -/
theorem requestsFor_step (hqueues : S.app.orderCreatedQueue ≠ S.app.orderStatusQueue)
    (h : Reachable S s) {o : OrderRecord} (ho : o ∈ s.shared.orders.docs)
    (hship : o.hasShipment = true) {a : Action} (hstep : step S s a = some t) :
    requestsFor o.id t = requestsFor o.id s := by
  rcases step_cases hstep with ⟨hservice, -⟩ | ⟨i, input, current, current', rfl, hi, hsteps, -⟩
  · rw [requestsFor, requestsFor, hservice]
  · have hprep := h.prepared hi
    rcases hsteps.requests with hrequests | ⟨hnone, -⟩
    · cases hrequests with
      | @mk consumption handler order _ _ _ _ hpc _ hasked =>
      have hcommitted : handler.committed = true := by rw [OrderCreatedEvent.committed, hpc]
      have hid : order.id = handler.orderId := by
        simp only [System.serviceCall, Call.Prepared, OrderCreatedEvent.Prepared, hpc] at hprep
        exact hprep.1
      refine (hasked o.id).trans (if_neg fun heq => ?_)
      rw [h.unshipped hqueues hi hcommitted ho (hid.symm.trans heq)] at hship
      exact Bool.noConfusion hship
    · exact hnone o.id

/-- **Once an order has a shipment, Delivery is never asked about it again.** -/
theorem no_request_after_shipment (hqueues : S.app.orderCreatedQueue ≠ S.app.orderStatusQueue)
    (h : Reachable S s) {o : OrderRecord} (ho : o ∈ s.shared.orders.docs)
    (hship : o.hasShipment = true) (hrun : Leads S s t) :
    requestsFor o.id t = requestsFor o.id s := by
  refine (Run.Reachable.invariant
    (I := fun u => Leads S s u ∧ requestsFor o.id u = requestsFor o.id s) hrun
    ⟨.refl s, rfl⟩ ?_).2
  rintro u a v ⟨hu, hsame⟩ ha hstep
  refine ⟨hu.tail ha hstep, ?_⟩
  obtain ⟨o', ho', hcontinues⟩ := continues_of_leads hqueues h hu (findById_of_mem ho)
  obtain ⟨hmem, hid⟩ := findById_eq_some_iff.mp ho'
  have hship' : o'.hasShipment = true := by
    rwa [OrderRecord.hasShipment, hcontinues.shipment_eq hship]
  have hreach : Reachable S u := Run.Reachable.trans h hu
  rw [← hsame, ← hid]
  exact requestsFor_step hqueues hreach hmem hship' hstep

/-- Delivery fails once and then answers; the write of the shipment takes effect but is reported as
failed. -/
def askedTwice : List Action :=
  creating 0 "key" "id" "2024-05-01T10:00:00.000Z" ++
    [.invoke (.http none (.processQueue .orderCreated)), .resume 1 (.task (.call (.find .ok))),
      .resume 1 (.task (.call (.fetch (.response 503 none) "2024-05-01T10:00:01.000Z"))),
      .resume 1 (.task (.call (.fetch
        (.response 200 (some (.obj [(js "shipmentId", .str (js "s-1"))])))
        "2024-05-01T10:00:02.000Z"))),
      .resume 1 (.task (.call (.updateOne "2024-05-01T10:00:02.000Z" .landed))),
      .resume 1 (.task (.settle "2024-05-01T10:00:03.000Z"))]

/-- The message is taken again. -/
def askedTwiceRest : List Action :=
  [.invoke (.http none (.processQueue .orderCreated)), .resume 2 (.task (.call (.find .ok))),
    .resume 2 (.task (.settle "2024-05-01T10:00:04.000Z")), .resume 2 .next]

theorem no_request_after_shipment_askedTwice :
    ∃ s t, Run.run (step .reference) init askedTwice = some s ∧
      Run.run (step .reference) s askedTwiceRest = some t ∧
      s.shared.orders.docs.map OrderRecord.hasShipment = [true] ∧
      (requestsFor "id" s).length = 2 ∧
      ∀ o ∈ s.shared.orders.docs, requestsFor o.id t = requestsFor o.id s := by
  have hrun : ((Run.run (step .reference) init askedTwice).bind fun s =>
      (Run.run (step .reference) s askedTwiceRest).map fun _ =>
        (s.shared.orders.docs.map OrderRecord.hasShipment, (requestsFor "id" s).length))
      = some ([true], 2) := by decide +kernel
  obtain ⟨s, hs, hrest⟩ := Option.bind_eq_some_iff.mp hrun
  obtain ⟨t, ht, hobs⟩ := Option.map_eq_some_iff.mp hrest
  obtain ⟨hdocs, hlength⟩ := Prod.mk.inj hobs
  refine ⟨s, t, hs, ht, hdocs, hlength, fun o ho => ?_⟩
  have hship : o.hasShipment = true := by
    have hmem := List.mem_map_of_mem (f := OrderRecord.hasShipment) ho
    rwa [hdocs, List.mem_singleton] at hmem
  exact no_request_after_shipment Setup.reference_queues
    ⟨askedTwice, fun a _ => a.inputs_true, hs⟩ ho hship
    ⟨askedTwiceRest, fun a _ => a.inputs_true, ht⟩

/-! ### Answers -/

/-- The metadata are what Delivery has answered to the last request about the order. -/
inductive AnsweredLast (S : Setup) (as : List Action) (s : State) (orderId : String)
    (metadata : ShipmentMetadata) : Prop
  | mk {before later i exchange requestedAt request response u v} :
      as = before ++ .resume i (.task (.call (.fetch exchange requestedAt))) :: later →
      Run.run (step S) init before = some u →
      step S u (.resume i (.task (.call (.fetch exchange requestedAt)))) = some v →
      requestsFor orderId v = requestsFor orderId u ++ [request] →
      requestsFor orderId s = requestsFor orderId v →
      deliveryOperation exchange = .ok response →
      buildShipmentMetadata requestedAt response = some metadata →
      AnsweredLast S as s orderId metadata

/-- It stays the last one until the next. -/
theorem AnsweredLast.later {as : List Action} {orderId : String} {metadata : ShipmentMetadata}
    (h : AnsweredLast S as s orderId metadata)
    (hsame : requestsFor orderId t = requestsFor orderId s) (a : Action) :
    AnsweredLast S (as ++ [a]) t orderId metadata := by
  obtain ⟨rfl, hu, hv, hasked, hlast, hanswer, hmetadata⟩ := h
  exact ⟨List.append_assoc .., hu, hv, hasked, hsame.trans hlast, hanswer, hmetadata⟩

/-- What every write of a shipment, done or about to be done, was answered. -/
structure Answered (S : Setup) (as : List Action) (s : State) : Prop where
  pending : ∀ {i current orderId metadata}, shown task s.activations i = some current →
    System.Stores current orderId metadata → AnsweredLast S as s orderId metadata
  stored : ∀ {o metadata}, o ∈ s.shared.orders.docs → o.shipment = some metadata →
    o.hasShipment = true → ∃ built, metadata = built.stored ∧ AnsweredLast S as s o.id built

theorem Answered.step (hqueues : S.app.orderCreatedQueue ≠ S.app.orderStatusQueue)
    {as : List Action} (hrun : Run.run (step S) init as = some s) (hs : Answered S as s)
    {a : Action} (hstep : Server.step S s a = some t) : Answered S (as ++ [a]) t := by
  have hreach : Reachable S s := ⟨as, fun a _ => a.inputs_true, hrun⟩
  rcases step_cases hstep with ⟨hservice, htasks⟩ |
    ⟨i, input, current, current', rfl, hi, hsteps, htasks⟩
  · have hsame : ∀ orderId, requestsFor orderId t = requestsFor orderId s := fun orderId => by
      rw [requestsFor, requestsFor, hservice]
    constructor
    · intro i current orderId metadata hi hstores
      rcases htasks i current hi with hi | ⟨_, _, _, hstarts⟩
      · exact (hs.pending hi hstores).later (hsame orderId) a
      · exact absurd hstores (hstarts.not_stores orderId metadata)
    · intro o metadata ho hmetadata hship
      rw [System.World.orders, hservice] at ho
      obtain ⟨built, hbuilt, hanswered⟩ := hs.stored ho hmetadata hship
      exact ⟨built, hbuilt, hanswered.later (hsame o.id) a⟩
  · have hprep := hreach.prepared hi
    rcases hsteps.requests with hrequests | ⟨hnone, hnot⟩
    · cases hrequests with
      | @mk consumption handler order attempt exchange requestedAt _ hpc horders hasked =>
      have hcommitted : handler.committed = true := by rw [OrderCreatedEvent.committed, hpc]
      have hid : order.id = handler.orderId := by
        simp only [System.serviceCall, Call.Prepared, OrderCreatedEvent.Prepared, hpc] at hprep
        exact hprep.1
      constructor
      · intro j current orderId metadata hj hstores
        rw [htasks] at hj
        split at hj
        · -- the answer has just arrived
          obtain rfl := Option.some.inj hj
          obtain ⟨_, handler', order', heq, rfl, hstore⟩ := hstores
          obtain rfl := Option.some.inj (Task.consumeOrderCreated.inj heq).2
          obtain ⟨response, hanswer, hmetadata⟩ := OrderCreatedEvent.of_afterFetch_store hstore
          rw [OrderCreatedEvent.orderId_afterFetch, ← hid]
          exact ⟨rfl, hrun, hstep, (hasked order.id).trans (if_pos rfl), rfl, hanswer, hmetadata⟩
        · next hji =>
          refine (hs.pending hj hstores).later ((hasked orderId).trans (if_neg ?_)) _
          rintro rfl
          obtain ⟨consumption', handler', order', rfl, hid', hstore⟩ := hstores
          exact hji (hreach.committed_unique hqueues hi hj hcommitted
            (OrderCreatedEvent.committed_of_store hstore) (hid'.trans hid)).symm
      · intro o metadata ho hmetadata hship
        rw [horders] at ho
        obtain ⟨built, hbuilt, hanswered⟩ := hs.stored ho hmetadata hship
        exact ⟨built, hbuilt,
          hanswered.later (requestsFor_step hqueues hreach ho hship hstep) _⟩
    · constructor
      · intro j current orderId metadata hj hstores
        rw [htasks] at hj
        split at hj
        · obtain rfl := Option.some.inj hj
          exact absurd hstores (hnot orderId metadata)
        · exact (hs.pending hj hstores).later (hnone orderId) _
      · intro o metadata ho hmetadata hship
        rcases hsteps.shipped hprep ho hmetadata with
          ⟨o₀, ho₀, hid, hsame⟩ | ⟨built, hbuilt, hstores⟩
        · have hship₀ : o₀.hasShipment = true := by rwa [OrderRecord.hasShipment, hsame]
          rw [← hid]
          obtain ⟨built, hbuilt, hanswered⟩ := hs.stored ho₀ (hsame.trans hmetadata) hship₀
          exact ⟨built, hbuilt, hanswered.later (hnone o₀.id) _⟩
        · exact ⟨built, hbuilt, (hs.pending hi hstores).later (hnone o.id) _⟩

/-- The requests about a stored order, and its shipment. -/
structure DeliveriesExplained (S : Setup) (as : List Action) (s : State) (o : OrderRecord) :
    Prop where
  /-- All requests about the order are the one that is built from it. -/
  requests : ∀ request ∈ requestsFor o.id s, request = shipmentRequest o
  /-- A shipment that has a truthy identifier is what the database keeps of the metadata that were
  built from the answer to the last request. -/
  answer : S.app.orderCreatedQueue ≠ S.app.orderStatusQueue → ∀ metadata,
    o.shipment = some metadata → o.hasShipment = true →
    ∃ built, metadata = built.stored ∧ AnsweredLast S as s o.id built

/-- A request is about a document that is stored. -/
theorem Reachable.mem_requestsFor (h : Reachable S s) {o : OrderRecord}
    (ho : o ∈ s.shared.orders.docs) {request : ShipmentRequest}
    (hmem : request ∈ requestsFor o.id s) : request = shipmentRequest o := by
  obtain ⟨s', hs', hembedded⟩ := h.system
  have hshared : s'.shared = s.shared := hembedded.shared
  obtain ⟨hmem, hid⟩ := List.mem_filter.mp hmem
  obtain ⟨effect, heffect, hrequest⟩ := List.mem_filterMap.mp hmem
  cases effect with
  | published payload sentAt => exact absurd hrequest (by simp [Effect.request?])
  | requested request' =>
    obtain rfl := Option.some.inj hrequest
    rw [← hshared] at heffect ho
    obtain ⟨o', ho', rfl⟩ := hs'.service.requested _ heffect
    have hfound := findById_of_mem (show o' ∈ s'.shared.orders.docs from ho')
    rw [show o'.id = o.id from of_decide_eq_true hid, findById_of_mem ho] at hfound
    rw [Option.some.inj hfound]

theorem answered_of_run (hqueues : S.app.orderCreatedQueue ≠ S.app.orderStatusQueue)
    {as : List Action} (hrun : Run.run (step S) init as = some s) : Answered S as s := by
  refine Run.run_invariant hrun ⟨?_, ?_⟩ fun bs u a v hu hanswered hstep =>
    hanswered.step hqueues hu hstep
  · intro i current orderId metadata hi
    exact absurd hi (by simp [shown, init])
  · intro o metadata ho
    exact absurd ho List.not_mem_nil

/-- **All requests about an order are built from it, and its shipment is the answer to the last
one.** -/
theorem deliveries_explained {as : List Action} (hrun : Run.run (step S) init as = some s)
    {o : OrderRecord} (ho : o ∈ s.shared.orders.docs) : DeliveriesExplained S as s o where
  requests _ hmem := Reachable.mem_requestsFor ⟨as, fun a _ => a.inputs_true, hrun⟩ ho hmem
  answer hqueues _ hmetadata hship := (answered_of_run hqueues hrun).stored ho hmetadata hship

theorem deliveries_explained_askedTwice :
    ∃ s, Run.run (step .reference) init askedTwice = some s ∧
      (requestsFor "id" s).length = 2 ∧ s.shared.orders.docs.map OrderRecord.hasShipment = [true] ∧
      ∀ o ∈ s.shared.orders.docs, DeliveriesExplained .reference askedTwice s o := by
  have hrun : (Run.run (step .reference) init askedTwice).map (fun s =>
      ((requestsFor "id" s).length, s.shared.orders.docs.map OrderRecord.hasShipment))
      = some (2, [true]) := by decide +kernel
  obtain ⟨s, hs, hobs⟩ := Option.map_eq_some_iff.mp hrun
  obtain ⟨hlength, hdocs⟩ := Prod.mk.inj hobs
  exact ⟨s, hs, hlength, hdocs, fun o ho => deliveries_explained hs ho⟩

end Server

end OrderProcessing
