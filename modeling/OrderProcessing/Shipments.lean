import OrderProcessing.System
import Mathlib.Algebra.Order.BigOperators.Group.List
import Mathlib.Algebra.Order.Group.Nat

/-!
# One shipment for each order

The order-created handler reads the order, calls Delivery, which may take long, and then stores the
shipment without looking again. That a stored shipment is never overwritten therefore rests on there
being one message for each order, and one handler at a time for each message. The message is a
token: it is made when the order is created, and it moves between the creating call, the store and
the consumers.

## Main definitions

* `System.tokens` — the order-created messages of an order, sent or about to be sent
* `System.MessageKind` — what the name of its queue says about a message
* `OrderCreatedEvent.committed` — the handler has seen that the order has no shipment
* `System.OneShipment`

## Main results

* `System.Reachable.guarded` — no order has two tokens
* `System.active_unique`, `System.keepsShipments`
* `Service.Reachable.requested` — every request to Delivery is about a stored order
* `System.oneShipment`
-/

namespace OrderProcessing

open OrderRepository

namespace System

variable {P : Platform} {config : AppConfig} {w w' : World} {task task' : Task} {s t : State}

/-! ### The token of an order -/

/-- An order-created message of the order. -/
def isCreatedFor (orderId : String) : Payload → Bool
  | .orderCreated payload => payload.orderId = orderId
  | .statusUpdate _ _ => false

/-- The order-created messages of the order in the store. -/
def storeTokens (orderId : String) (w : World) : ℕ :=
  w.queue.store.messages.countP fun message => isCreatedFor orderId message.payload

/-- The order-created messages of the order that a consumer holds. -/
def consumptionTokens (orderId : String) (consumption : Consumption Payload) : ℕ :=
  match consumption.pc with
  | .holding message => if isCreatedFor orderId message.payload then 1 else 0
  | _ => 0

/-- The order-created messages about the order that the task has in hand. -/
def heldTokens (orderId : String) : Task → ℕ
  | .consumeOrderCreated consumption _ => consumptionTokens orderId consumption
  | .consumeStatus consumption _ => consumptionTokens orderId consumption
  | _ => 0

/-- One, if the call is about to publish the order. -/
def publishTokens (orderId : String) (call : CreateOrder) : ℕ :=
  match call.pc with
  | .publish order => if order.id = orderId then 1 else 0
  | _ => 0

/-- The messages that a task holds or is about to send. -/
def taskTokens (orderId : String) : Task → ℕ
  | .postOrder call => publishTokens orderId call
  | task => heldTokens orderId task

/-- The order-created messages of the order, wherever they are. -/
def tokens (orderId : String) (s : State) : ℕ :=
  storeTokens orderId s.shared + (s.activations.map (taskTokens orderId)).sum

theorem heldTokens_le_taskTokens (orderId : String) (task : Task) :
    heldTokens orderId task ≤ taskTokens orderId task := by
  cases task with
  | postOrder => exact Nat.zero_le _
  | _ => exact le_refl _

/-- Taking a message out of the store, or putting it there, moves its token. -/
theorem storeTokens_cons {orderId : String} {message : QueueMessage Payload}
    {messages : List (QueueMessage Payload)}
    (hperm : (message :: messages).Perm w.queue.store.messages) :
    storeTokens orderId w
      = messages.countP (fun message => isCreatedFor orderId message.payload)
        + if isCreatedFor orderId message.payload then 1 else 0 := by
  rw [storeTokens, ← hperm.countP_eq, List.countP_cons]

theorem storeTokens_enqueue (orderId : String) (w : World) (message : QueueMessage Payload) :
    storeTokens orderId (w.withQueue (w.queue.withStore (w.queue.store.enqueue message)))
      = storeTokens orderId w + if isCreatedFor orderId message.payload then 1 else 0 := by
  simp [storeTokens, World.withQueue, QueueWorld.withStore, InMemoryQueueStore.enqueue,
    List.countP_cons]

/-- Starting a task moves a token, and makes none. -/
theorem Starts.tokens {request : Request} (h : Starts P config w request w' task)
    (orderId : String) :
    storeTokens orderId w' + taskTokens orderId task = storeTokens orderId w := by
  cases h with
  | orderCreated _ hperm => exact (storeTokens_cons hperm).symm
  | status _ hperm => exact (storeTokens_cons hperm).symm
  | _ => rfl

/-- A consumer that settles gives its token up or puts it back. -/
theorem settle_tokens {consumption consumption' : Consumption Payload} {queue : QueueWorld Payload}
    {succeeded : Bool} {now : String}
    (h : consumption.settle w.queue succeeded now = some (queue, consumption')) (orderId : String) :
    storeTokens orderId (w.withQueue queue) + consumptionTokens orderId consumption'
      ≤ storeTokens orderId w + consumptionTokens orderId consumption := by
  obtain ⟨message, hpc, ⟨-, rfl, rfl⟩ | ⟨-, rfl, rfl⟩⟩ := Consumption.settle_cases h
  · exact Nat.add_le_add_left (Nat.zero_le _) _
  · rw [storeTokens_enqueue, consumptionTokens, consumptionTokens, hpc]
    exact le_refl _

/-- A call that has just looked its key up publishes nothing. -/
theorem publishTokens_afterLookup (orderId : String) (call : CreateOrder)
    (existing : Option OrderRecord) : publishTokens orderId (call.afterLookup P existing) = 0 := by
  rcases call.afterLookup_cases P existing with
    ⟨_, _, _, heq⟩ | ⟨_, _, _, heq⟩ | ⟨_, _, _, _, heq⟩ | ⟨_, _, heq⟩
  all_goals
    rw [heq]
    rfl

/-- **A token is made only when its order is inserted**; every other step moves it or gives it up.
-/
theorem Steps.tokens {input : Input} (h : Steps P config w task input w' task') (orderId : String) :
    storeTokens orderId w' + taskTokens orderId task'
        ≤ storeTokens orderId w + taskTokens orderId task ∨
      (findById w.orders orderId = none ∧ findById w'.orders orderId ≠ none ∧
        storeTokens orderId w' + taskTokens orderId task'
          ≤ storeTokens orderId w + taskTokens orderId task + 1) := by
  have hqueue : w'.queue = w.queue → storeTokens orderId w' = storeTokens orderId w := by
    intro heq
    rw [storeTokens, heq]
    rfl
  cases h with
  | @createOrder call input r hr _ =>
    cases CreateOrder.steps hr with
    | lookedUp =>
      refine Or.inl ?_
      show storeTokens orderId w + publishTokens orderId (call.afterLookup P _) ≤ _
      rw [publishTokens_afterLookup]
      exact Nat.le_add_right _ _
    | @inserted payloadHash uuid now orders' hpc hcreate =>
      by_cases hid : uuid = orderId
      · subst hid
        refine Or.inr ⟨(create_eq_some_iff.mp hcreate).1, ?_, ?_⟩
        · show findById orders' uuid ≠ none
          rw [findById_create hcreate]
          exact (if_pos rfl).trans_ne (Option.some_ne_none _)
        · show storeTokens uuid w + (if uuid = uuid then 1 else 0) ≤ _
          rw [if_pos rfl]
          omega
      · refine Or.inl ?_
        show storeTokens orderId w + (if uuid = orderId then 1 else 0) ≤ _
        rw [if_neg hid]
        exact Nat.le_add_right _ _
    | @published order sentAt hpc =>
      refine Or.inl ?_
      show storeTokens orderId (w.withQueue (w.queue.withStore (w.queue.store.enqueue _))) + 0 ≤ _
      rw [storeTokens_enqueue, taskTokens, publishTokens, hpc]
      simp [isCreatedFor, QueueWorld.newMessage, orderCreatedPayload]
    | _ => exact Or.inl (Nat.le_add_right _ _)
  | validate hr =>
    rw [hqueue (after_queue (not_published_of_validation hr))]
    exact Or.inl (le_refl _)
  | @accept call order event now hpc =>
    refine Or.inl ?_
    show storeTokens orderId (w.withQueue (w.queue.withStore (w.queue.store.enqueue _))) + 0 ≤ _
    rw [storeTokens_enqueue]
    simp [isCreatedFor, QueueWorld.newMessage]
  | reply => exact Or.inl (le_refl _)
  | handleOrderCreated hr =>
    rw [hqueue (after_queue (not_published_of_orderCreated hr))]
    exact Or.inl (le_refl _)
  | settleOrderCreated _ hs => exact Or.inl (settle_tokens hs orderId)
  | handleStatus hr =>
    rw [hqueue (after_queue (not_published_of_statusUpdate hr))]
    exact Or.inl (le_refl _)
  | settleStatus _ hs => exact Or.inl (settle_tokens hs orderId)

/-- What the tokens say in one state: an order that is not stored has none, and no order has two. -/
def Guarded (s : State) : Prop :=
  ∀ orderId, tokens orderId s ≤ 1 ∧ (findById s.shared.orders orderId = none → tokens orderId s = 0)

/-- One step of the application makes a token only when it inserts the order. -/
theorem tokens_step {a : Action} (h : step P config s a = some t) (orderId : String) :
    tokens orderId t ≤ tokens orderId s ∨
      (findById s.shared.orders orderId = none ∧ findById t.shared.orders orderId ≠ none ∧
        tokens orderId t ≤ tokens orderId s + 1) := by
  cases a with
  | invoke request =>
    obtain ⟨w, task, hstart, rfl⟩ := Interleave.step_invoke_eq_some.mp h
    have htokens := (starts hstart).tokens orderId
    refine Or.inl ?_
    simp only [tokens, List.map_append, List.sum_append, List.map_cons, List.map_nil,
      List.sum_cons, List.sum_nil]
    omega
  | resume i input =>
    obtain ⟨task, w, task', hi, hact, rfl⟩ := Interleave.step_resume_eq_some.mp h
    have hsum := Interleave.sum_map_set (taskTokens orderId) hi task'
    simp only [tokens]
    rcases (steps hact).tokens orderId with hmoved | ⟨habsent, hpresent, hmade⟩
    · exact Or.inl (by omega)
    · exact Or.inr ⟨habsent, hpresent, by omega⟩

theorem Guarded.step {a : Action} (hext : s.shared.orders.Extends t.shared.orders) (hs : Guarded s)
    (h : step P config s a = some t) : Guarded t := by
  intro orderId
  obtain ⟨hle, hnone⟩ := hs orderId
  have habsent : findById t.shared.orders orderId = none →
      findById s.shared.orders orderId = none := by
    intro ht
    by_contra hsome
    obtain ⟨o, ho⟩ := Option.ne_none_iff_exists'.mp hsome
    obtain ⟨o', ho', -⟩ := hext orderId o ho
    rw [ht] at ho'
    exact absurd ho' (by simp)
  rcases tokens_step h orderId with hmoved | ⟨habs, hpresent, hmade⟩
  · exact ⟨by omega, fun ht => by have := hnone (habsent ht); omega⟩
  · have hzero := hnone habs
    exact ⟨by omega, fun ht => absurd ht hpresent⟩

/-- The tokens of one task, or of two, are part of all tokens. -/
theorem le_tokens {i : ℕ} (hi : s.activations[i]? = some task) (orderId : String) :
    taskTokens orderId task ≤ tokens orderId s :=
  (Interleave.le_sum_map (taskTokens orderId) hi).trans (Nat.le_add_left _ _)

theorem add_le_tokens {i j : ℕ} (hi : s.activations[i]? = some task)
    (hj : s.activations[j]? = some task') (hij : i ≠ j) (orderId : String) :
    taskTokens orderId task + taskTokens orderId task' ≤ tokens orderId s :=
  (Interleave.add_le_sum_map (taskTokens orderId) hi hj hij).trans (Nat.le_add_left _ _)

/-! ### Which consumer handles which messages -/

/-- A message is in the queue that its payload belongs to. -/
def MessageKind (config : AppConfig) (message : QueueMessage Payload) : Prop :=
  match message.payload with
  | .orderCreated _ => message.queueName = config.orderCreatedQueue
  | .statusUpdate _ _ => message.queueName = config.orderStatusQueue

/-- What is true of a consumer: it holds a message of its queue while its handler runs, and the
handler is about the order of that message. -/
structure ConsumerKind (config : AppConfig) (consumption : Consumption Payload)
    (handler : Option OrderCreatedEvent) : Prop where
  message : ∀ message, consumption.pc = .holding message → MessageKind config message ∧
    message.queueName = config.orderCreatedQueue ∧
    ∀ call, handler = some call → call.orderId = message.payload.orderId
  holding : ∀ call, handler = some call → call.completed = false →
    ∃ message, consumption.pc = .holding message

/-- The messages of the task are of the kind that its queue is for. -/
def TaskKind (config : AppConfig) : Task → Prop
  | .consumeOrderCreated consumption handler => ConsumerKind config consumption handler
  | .consumeStatus consumption _ =>
    ∀ message, consumption.pc = .holding message → MessageKind config message
  | _ => True

/-- So are those that wait. -/
def World.Kinds (config : AppConfig) (w : World) : Prop :=
  ∀ message ∈ w.queue.store.messages, MessageKind config message

theorem settle_kinds {consumption consumption' : Consumption Payload} {queue : QueueWorld Payload}
    {succeeded : Bool} {now : String} (hw : w.Kinds config)
    (hheld : ∀ message, consumption.pc = .holding message → MessageKind config message)
    (h : consumption.settle w.queue succeeded now = some (queue, consumption')) :
    (w.withQueue queue).Kinds config := by
  intro message hmem
  rcases Consumption.mem_of_settle h hmem with hmem | hpc
  · exact hw message hmem
  · exact hheld message hpc

theorem Starts.kinds {P : Platform} {request : Request} (hw : w.Kinds config)
    (h : Starts P config w request w' task) : w'.Kinds config ∧ TaskKind config task := by
  cases h with
  | noOrderCreated => exact ⟨hw, by simp, by simp⟩
  | @orderCreated message store hname hperm =>
    obtain ⟨htaken, hleft⟩ := List.forall_mem_cons.mp fun m hm => hw m (hperm.mem_iff.mp hm)
    refine ⟨hleft, ?_, fun _ _ _ => ⟨message, rfl⟩⟩
    intro message' hpc
    obtain rfl := Consumption.Pc.holding.inj hpc
    exact ⟨htaken, hname, fun call hcall => (Option.some.inj hcall) ▸ rfl⟩
  | noStatus => exact ⟨hw, by simp [TaskKind]⟩
  | status hname hperm =>
    obtain ⟨htaken, hleft⟩ := List.forall_mem_cons.mp fun m hm => hw m (hperm.mem_iff.mp hm)
    refine ⟨hleft, ?_⟩
    intro message' hpc
    obtain rfl := Consumption.Pc.holding.inj hpc
    exact htaken
  | _ => exact ⟨hw, trivial⟩

theorem Steps.kinds {P : Platform} {input : Input} (hw : w.Kinds config)
    (htask : TaskKind config task) (h : Steps P config w task input w' task') :
    w'.Kinds config ∧ TaskKind config task' := by
  have hsame : w'.queue = w.queue → w'.Kinds config := fun heq => by rwa [World.Kinds, heq]
  cases h with
  | @createOrder call input r hr _ =>
    refine ⟨?_, trivial⟩
    cases CreateOrder.steps hr with
    | published => exact List.forall_mem_append.mpr ⟨hw, List.forall_mem_singleton.mpr rfl⟩
    | _ => exact hw
  | validate hr => exact ⟨hsame (after_queue (not_published_of_validation hr)), trivial⟩
  | accept =>
    exact ⟨List.forall_mem_append.mpr ⟨hw, List.forall_mem_singleton.mpr rfl⟩, trivial⟩
  | reply => exact ⟨hw, trivial⟩
  | @handleOrderCreated consumption handler input r hr =>
    have hsteps := OrderCreatedEvent.steps hr
    refine ⟨hsame (after_queue (not_published_of_orderCreated hr)), ?_, ?_⟩
    · intro message hpc
      obtain ⟨hkind, hname, hcall⟩ := htask.message message hpc
      refine ⟨hkind, hname, fun call hsome => ?_⟩
      obtain rfl := Option.some.inj hsome
      rw [hsteps.orderId_eq]
      exact hcall handler rfl
    · intro _ _ _
      exact htask.holding handler rfl hsteps.not_completed
  | @settleOrderCreated consumption consumption' handler result queue now hpc hs =>
    have hnot := Consumption.not_holding_of_settle hs
    refine ⟨settle_kinds hw (fun m hm => (htask.message m hm).1) hs,
      fun m hm => absurd hm (hnot m), ?_⟩
    intro call hcall hrunning
    obtain rfl := Option.some.inj hcall
    rw [OrderCreatedEvent.completed, hpc] at hrunning
    exact Bool.noConfusion hrunning
  | handleStatus hr => exact ⟨hsame (after_queue (not_published_of_statusUpdate hr)), htask⟩
  | settleStatus _ hs =>
    have hnot := Consumption.not_holding_of_settle hs
    exact ⟨settle_kinds hw htask hs, fun m hm => absurd hm (hnot m)⟩

/-- Every message stays in the queue that its payload belongs to. -/
theorem relyGuarantee_kinds (P : Platform) (config : AppConfig) :
    Interleave.RelyGuarantee (start P config) (act P config) (fun _ => True)
      (World.Kinds config) (fun _ task => TaskKind config task) (fun _ _ => True) where
  start := by
    intro w request w' task hw h
    obtain ⟨hw', htask⟩ := (starts h).kinds hw
    exact ⟨hw', trivial, htask⟩
  act := by
    intro w task input w' task' hw htask _ h
    obtain ⟨hw', htask'⟩ := (steps h).kinds hw htask
    exact ⟨hw', trivial, htask'⟩
  stable := fun _ _ _ htask => htask

/-- An order-created handler that is running has the token of its order. -/
theorem taskTokens_of_running {consumption : Consumption Payload} {handler : OrderCreatedEvent}
    (hqueues : config.orderCreatedQueue ≠ config.orderStatusQueue)
    (hkind : TaskKind config (.consumeOrderCreated consumption (some handler)))
    (hrunning : handler.completed = false) :
    taskTokens handler.orderId (.consumeOrderCreated consumption (some handler)) = 1 := by
  obtain ⟨message, hpc⟩ := hkind.holding handler rfl hrunning
  obtain ⟨hmessage, hname, hcall⟩ := hkind.message message hpc
  have hid := hcall handler rfl
  rw [taskTokens, heldTokens, consumptionTokens, hpc]
  · cases hpayload : message.payload with
    | orderCreated payload =>
      rw [hpayload] at hid
      exact if_pos (by rw [hpayload]; simpa [isCreatedFor, Payload.orderId] using hid.symm)
    | statusUpdate orderId event =>
      rw [MessageKind, hpayload] at hmessage
      exact absurd (hname.symm.trans hmessage) hqueues
  · simp

end System

/-! ### A handler that is about to store a shipment -/

/-- The handler has seen the order without a shipment, and may store one. -/
def OrderCreatedEvent.committed (call : OrderCreatedEvent) : Bool :=
  match call.pc with
  | .deliver _ _ => true
  | .store _ _ => true
  | _ => false

theorem OrderCreatedEvent.not_completed_of_committed {call : OrderCreatedEvent}
    (h : call.committed = true) : call.completed = false := by
  obtain ⟨orderId, pc⟩ := call
  cases pc with
  | returned => exact Bool.noConfusion h
  | _ => rfl

section Steps

variable {P : Platform} {config : AppConfig} {c : Collection} {input : Input}

/-- A handler commits itself when it finds the order without a shipment. -/
theorem OrderCreatedEvent.Steps.committed {maxRetries : ℚ} {call : OrderCreatedEvent}
    {r : Reaction OrderCreatedEvent} (h : OrderCreatedEvent.Steps maxRetries c call input r)
    (hcommitted : r.call.committed = true) : r.orders = c ∧
      (call.committed = true ∨ ∃ o, findById c call.orderId = some o ∧ o.hasShipment = false) := by
  cases h with
  | lookedUp =>
    rcases call.afterLookup_cases (findById c call.orderId) with heq | ⟨o, ho, hship, -⟩
    · rw [heq] at hcommitted
      exact Bool.noConfusion hcommitted
    · exact ⟨rfl, Or.inr ⟨o, ho, hship⟩⟩
  | fetched hpc => exact ⟨rfl, Or.inl (by rw [OrderCreatedEvent.committed, hpc])⟩
  | _ => exact Bool.noConfusion hcommitted

theorem OrderCreatedEvent.committed_of_store {call : OrderCreatedEvent} {order : OrderRecord}
    {metadata : ShipmentMetadata} (hpc : call.pc = .store order metadata) :
    call.committed = true := by
  rw [OrderCreatedEvent.committed, hpc]

/-- Only a handler that is about to store a shipment changes the shipment of an order, and only of
its own. -/
theorem Call.Steps.shipment {call : Call} {r : Reaction Call}
    (h : Call.Steps P config c call input r) (hprep : call.Prepared P c) {i : String}
    {o : OrderRecord} (ho : findById c i = some o) :
    ∃ o', findById r.orders i = some o' ∧ (o'.shipment = o.shipment ∨
      ∃ handler order metadata, call = .handleOrderCreatedEvent handler ∧
        handler.pc = .store order metadata ∧ handler.orderId = i ∧
        o'.shipment = some metadata.stored) := by
  cases h with
  | createOrder hr =>
    cases hr with
    | inserted _ hcreate => exact ⟨o, findById_create_of_some hcreate ho, Or.inl rfl⟩
    | landed _ hcreate => exact ⟨o, findById_create_of_some hcreate ho, Or.inl rfl⟩
    | _ => exact ⟨o, ho, Or.inl rfl⟩
  | applyStatusUpdate hr =>
    cases hr with
    | appended _ hwrite =>
      rcases findById_append_of_some hwrite ho with ho' | ho'
      · exact ⟨o, ho', Or.inl rfl⟩
      · exact ⟨_, ho', Or.inl rfl⟩
    | landed _ hwrite =>
      rcases findById_append_of_some hwrite ho with ho' | ho'
      · exact ⟨o, ho', Or.inl rfl⟩
      · exact ⟨_, ho', Or.inl rfl⟩
    | _ => exact ⟨o, ho, Or.inl rfl⟩
  | validateStatusUpdate hr => cases hr <;> exact ⟨o, ho, Or.inl rfl⟩
  | @handleOrderCreatedEvent call input r hr =>
    have hstore : ∀ {order metadata now}, call.pc = .store order metadata →
        ∃ o', findById (updateShipmentMetadata c order.id metadata now) i = some o' ∧
          (o'.shipment = o.shipment ∨ ∃ handler order metadata,
            Call.handleOrderCreatedEvent call = .handleOrderCreatedEvent handler ∧
              handler.pc = .store order metadata ∧ handler.orderId = i ∧
              o'.shipment = some metadata.stored) := by
      intro order metadata now hpc
      rw [findById_updateShipmentMetadata, ho, Option.map_some]
      refine ⟨_, rfl, ?_⟩
      split
      · next hi =>
        have hid : order.id = call.orderId := by
          simp only [Call.Prepared, OrderCreatedEvent.Prepared, hpc] at hprep
          exact hprep.1
        exact Or.inr ⟨call, order, metadata, rfl, hpc, hid.symm.trans hi.symm, rfl⟩
      · exact Or.inl rfl
    cases hr with
    | stored hpc => exact hstore hpc
    | landed hpc => exact hstore hpc
    | _ => exact ⟨o, ho, Or.inl rfl⟩

end Steps

namespace System

variable {P : Platform} {config : AppConfig} {w w' : World} {task task' : Task} {s t : State}

/-! ### Every reachable state -/

theorem Reachable.guarded (h : Reachable P config s) : Guarded s := by
  have hboth : Reachable P config s ∧ Guarded s := by
    refine Run.Reachable.invariant (I := fun u => Reachable P config u ∧ Guarded u) h
      ⟨.refl init, fun _ => ⟨Nat.zero_le 1, fun _ => rfl⟩⟩ ?_
    rintro u a v ⟨hu, hguarded⟩ ha hstep
    exact ⟨Run.Reachable.tail hu ha hstep, hguarded.step (extends_of_step hu hstep) hstep⟩
  exact hboth.2

theorem Reachable.kinds (h : Reachable P config s) : s.shared.Kinds config ∧
    ∀ task ∈ s.activations, TaskKind config task :=
  Interleave.invariant (relyGuarantee_kinds P config) h
    (fun _ hmem => absurd hmem (List.not_mem_nil)) fun _ htask => absurd htask (List.not_mem_nil)

/-- The task with this number runs `handleOrderCreatedEvent` for the order. -/
def ActiveFor (s : State) (i : ℕ) (orderId : String) : Prop :=
  ∃ consumption handler,
    s.activations[i]? = some (.consumeOrderCreated consumption (some handler)) ∧
    handler.completed = false ∧ handler.orderId = orderId

/-- **At most one run of the handler is active for each order.** -/
theorem active_unique (hqueues : config.orderCreatedQueue ≠ config.orderStatusQueue)
    (h : Reachable P config s) {i j : ℕ} {orderId : String} (hi : ActiveFor s i orderId)
    (hj : ActiveFor s j orderId) : i = j := by
  obtain ⟨consumption, handler, hi, hrunning, rfl⟩ := hi
  obtain ⟨consumption', handler', hj, hrunning', heq⟩ := hj
  by_contra hij
  have hone := taskTokens_of_running hqueues (h.kinds.2 _ (List.mem_of_getElem? hi)) hrunning
  have hone' := taskTokens_of_running hqueues (h.kinds.2 _ (List.mem_of_getElem? hj)) hrunning'
  rw [heq] at hone'
  have htwo := add_le_tokens hi hj hij handler.orderId
  have hle := (h.guarded handler.orderId).1
  omega

/-- Only a handler that is about to store a shipment changes the shipment of an order, and only of
its own. -/
theorem Steps.shipment {input : Input} (h : Steps P config w task input w' task')
    (hprep : (serviceCall task).Prepared P w.orders) {i : String} {o : OrderRecord}
    (ho : findById w.orders i = some o) : ∃ o', findById w'.orders i = some o' ∧
      (o'.shipment = o.shipment ∨ ∃ consumption handler order metadata,
        task = .consumeOrderCreated consumption (some handler) ∧
          handler.pc = .store order metadata ∧ handler.orderId = i ∧
          o'.shipment = some metadata.stored) := by
  rcases h.service with ⟨hservice, -⟩ | ⟨input, r, hr, hservice, -⟩
  · have horders : w'.orders = w.orders := by rw [World.orders, hservice]
    exact ⟨o, by rw [horders, ho], Or.inl rfl⟩
  · have horders : w'.orders = r.orders := by
      rw [World.orders, hservice, OrderProcessing.World.after]
    obtain ⟨o', ho', hship⟩ := (Call.steps hr).shipment hprep ho
    refine ⟨o', by rw [horders, ho'], hship.imp_right ?_⟩
    rintro ⟨handler, order, metadata, hcall, hpc, hid, hmetadata⟩
    have hidle : (⟨"", .lookup⟩ : OrderCreatedEvent) ≠ handler := by
      rintro rfl
      exact OrderCreatedEvent.Pc.noConfusion hpc
    rcases task with call | ⟨_ | call, reply⟩ | ⟨consumption, _ | handler'⟩ |
      ⟨consumption, _ | call⟩
    · exact Call.noConfusion hcall
    · exact absurd (Call.handleOrderCreatedEvent.inj hcall) hidle
    · exact Call.noConfusion hcall
    · exact absurd (Call.handleOrderCreatedEvent.inj hcall) hidle
    · obtain rfl := Call.handleOrderCreatedEvent.inj hcall
      exact ⟨consumption, handler', order, metadata, rfl, hpc, hid, hmetadata⟩
    · exact absurd (Call.handleOrderCreatedEvent.inj hcall) hidle
    · exact Call.noConfusion hcall

/-- The order of a committed handler has no shipment. -/
def Unshipped (s : State) : Prop :=
  ∀ (i : ℕ) (consumption : Consumption Payload) (handler : OrderCreatedEvent),
    s.activations[i]? = some (.consumeOrderCreated consumption (some handler)) →
    handler.committed = true →
    ∃ o, findById s.shared.orders handler.orderId = some o ∧ o.hasShipment = false

/-- **Nobody stores a shipment behind the back of a committed handler.** -/
theorem Unshipped.step {a : Action} (hqueues : config.orderCreatedQueue ≠ config.orderStatusQueue)
    (h : Reachable P config s) (hs : Unshipped s) (hstep : step P config s a = some t) :
    Unshipped t := by
  obtain ⟨-, hprep⟩ := h.prepared
  intro i consumption handler hi hcommitted
  cases a with
  | invoke request =>
    obtain ⟨w, task, hstart, rfl⟩ := Interleave.step_invoke_eq_some.mp hstep
    have hstarts := starts hstart
    have horders : w.orders = s.shared.orders := by rw [World.orders, hstarts.service.1]
    show ∃ o, findById w.orders handler.orderId = some o ∧ _
    rw [horders]
    rcases Interleave.getElem?_append_cases hi with hi | ⟨-, rfl⟩
    · exact hs i consumption handler hi hcommitted
    · -- a handler that has just started has not looked at its order
      cases hstarts
      exact Bool.noConfusion hcommitted
  | resume j input =>
    obtain ⟨task, w, task', hj, hact, rfl⟩ := Interleave.step_resume_eq_some.mp hstep
    have hsteps := steps hact
    show ∃ o, findById w.orders handler.orderId = some o ∧ _
    rcases Interleave.getElem?_set_cases hi with ⟨rfl, rfl⟩ | ⟨hij, hi⟩
    · cases hsteps with
      | @handleOrderCreated _ before input r hr =>
        have hr' := OrderCreatedEvent.steps hr
        obtain ⟨horders, hbefore⟩ := hr'.committed hcommitted
        show ∃ o, findById r.orders r.call.orderId = some o ∧ _
        rw [horders, hr'.orderId_eq]
        rcases hbefore with hbefore | hfound
        · exact hs i consumption before hj hbefore
        · exact hfound
      | settleOrderCreated hpc =>
        rw [OrderCreatedEvent.committed, hpc] at hcommitted
        exact Bool.noConfusion hcommitted
    · obtain ⟨o, ho, hship⟩ := hs i consumption handler hi hcommitted
      obtain ⟨o', ho', hsame | ⟨consumption', handler', _, _, rfl, hpc, hid, -⟩⟩ :=
        hsteps.shipment (hprep task (List.mem_of_getElem? hj)) ho
      · exact ⟨o', ho', by rw [OrderRecord.hasShipment, hsame]; exact hship⟩
      · have hcommitted' := OrderCreatedEvent.committed_of_store hpc
        have hactive : ActiveFor s i handler.orderId := ⟨consumption, handler, hi,
          OrderCreatedEvent.not_completed_of_committed hcommitted, rfl⟩
        have hactive' : ActiveFor s j handler.orderId := ⟨consumption', handler', hj,
          OrderCreatedEvent.not_completed_of_committed hcommitted', hid⟩
        exact absurd (active_unique hqueues h hactive hactive') hij

/-- The order of a committed handler has no shipment, in every reachable state. -/
theorem Reachable.unshipped (hqueues : config.orderCreatedQueue ≠ config.orderStatusQueue)
    (h : Reachable P config s) : Unshipped s := by
  have hboth : Reachable P config s ∧ Unshipped s := by
    refine Run.Reachable.invariant (I := fun u => Reachable P config u ∧ Unshipped u) h
      ⟨.refl init, ?_⟩ ?_
    · intro i consumption handler hi
      exact absurd hi (by simp [init])
    · rintro u a v ⟨hu, hunshipped⟩ ha hstep
      exact ⟨Run.Reachable.tail hu ha hstep, hunshipped.step hqueues hu hstep⟩
  exact hboth.2

/-! ### A stored shipment -/

/-- Every shipment that counts as one is still there, unchanged, in the later state. -/
def KeepsShipments (s t : State) : Prop :=
  ∀ i o, findById s.shared.orders i = some o → o.hasShipment = true →
    ∃ o', findById t.shared.orders i = some o' ∧ o'.shipment = o.shipment

theorem KeepsShipments.refl (s : State) : KeepsShipments s s := fun _ o ho _ => ⟨o, ho, rfl⟩

theorem KeepsShipments.trans {u : State} (h : KeepsShipments s t) (h' : KeepsShipments t u) :
    KeepsShipments s u := by
  intro i o ho hship
  obtain ⟨o', ho', hsame⟩ := h i o ho hship
  have hship' : o'.hasShipment = true := by rwa [OrderRecord.hasShipment, hsame]
  obtain ⟨o'', ho'', hsame'⟩ := h' i o' ho' hship'
  exact ⟨o'', ho'', hsame'.trans hsame⟩

/-- No step touches the shipment of an order that has one. -/
theorem keepsShipments_step {a : Action}
    (hqueues : config.orderCreatedQueue ≠ config.orderStatusQueue) (h : Reachable P config s)
    (hstep : step P config s a = some t) : KeepsShipments s t := by
  intro i o ho hship
  cases a with
  | invoke request =>
    obtain ⟨w, task, hstart, rfl⟩ := Interleave.step_invoke_eq_some.mp hstep
    have horders : w.orders = s.shared.orders := by rw [World.orders, (starts hstart).service.1]
    refine ⟨o, ?_, rfl⟩
    show findById w.orders i = some o
    rw [horders, ho]
  | resume j input =>
    obtain ⟨task, w, task', hj, hact, rfl⟩ := Interleave.step_resume_eq_some.mp hstep
    have hprep := h.prepared.2 task (List.mem_of_getElem? hj)
    obtain ⟨o', ho', hsame | ⟨consumption, handler, _, _, rfl, hpc, rfl, -⟩⟩ :=
      (steps hact).shipment hprep ho
    · exact ⟨o', ho', hsame⟩
    · have hcommitted := OrderCreatedEvent.committed_of_store hpc
      obtain ⟨o₀, ho₀, hnone⟩ := h.unshipped hqueues j consumption handler hj hcommitted
      obtain rfl : o = o₀ := Option.some.inj (ho.symm.trans ho₀)
      rw [hship] at hnone
      exact Bool.noConfusion hnone

/-- **A stored shipment is never overwritten.** -/
theorem keepsShipments (hqueues : config.orderCreatedQueue ≠ config.orderStatusQueue)
    (h : Reachable P config s)
    (hrun : Run.Reachable (step P config) (Interleave.Action.Inputs fun _ => True) s t) :
    KeepsShipments s t :=
  (Run.Reachable.related_of_invariant (I := fun u => Reachable P config u) (R := KeepsShipments)
    hrun h (fun _ _ _ hu ha hstep => Run.Reachable.tail hu ha hstep) KeepsShipments.refl
    (fun _ _ _ h h' => h.trans h') fun _ _ _ hu _ hstep => keepsShipments_step hqueues hu hstep).2

end System

/-! ### Requests to Delivery -/

/-- A request says nothing about an order that could change. -/
theorem shipmentRequest_of_extends {o o' : OrderRecord} (h : o.Extends o') :
    shipmentRequest o' = shipmentRequest o := by
  simp only [shipmentRequest, h.id_eq, h.customerId_eq, h.items_eq, h.totalAmount_eq,
    h.requestId_eq]

/-- Every request that was sent is the request for a stored order. -/
def World.Requested (w : World) : Prop :=
  ∀ request, .requested request ∈ w.effects →
    ∃ o ∈ w.orders.docs, request = shipmentRequest o

section Requested

variable {P : Platform} {config : AppConfig}

theorem Call.Steps.requested {c : Collection} {input : Input} {call : Call} {r : Reaction Call}
    (h : Call.Steps P config c call input r) (hprep : call.Prepared P c) {request : ShipmentRequest}
    (heffect : r.effect = some (.requested request)) :
    ∃ o ∈ c.docs, request = shipmentRequest o := by
  cases h with
  | createOrder hr => cases hr <;> simp [Reaction.map] at heffect
  | applyStatusUpdate hr => cases hr <;> simp [Reaction.map] at heffect
  | validateStatusUpdate hr => cases hr <;> simp [Reaction.map] at heffect
  | handleOrderCreatedEvent hr =>
    cases hr with
    | fetched hpc =>
      obtain rfl := Effect.requested.inj (Option.some.inj heffect)
      simp only [Call.Prepared, OrderCreatedEvent.Prepared, hpc] at hprep
      obtain ⟨-, o, ho, hext⟩ := hprep
      exact ⟨o, (findById_eq_some_iff.mp ho).1, (shipmentRequest_of_extends hext).symm⟩
    | _ => simp [Reaction.map] at heffect

theorem World.Requested.after {w : World} {call : Call} {input : Input} {r : Reaction Call}
    (hw : w.Requested) (hext : w.orders.Extends r.orders) (hprep : call.Prepared P w.orders)
    (h : Call.Steps P config w.orders call input r) : (w.after r).Requested := by
  have hlater : ∀ {request}, (∃ o ∈ w.orders.docs, request = shipmentRequest o) →
      ∃ o ∈ r.orders.docs, request = shipmentRequest o := by
    rintro request ⟨o, ho, rfl⟩
    obtain ⟨o', ho', hoo'⟩ := hext o.id o (findById_of_mem ho)
    exact ⟨o', (findById_eq_some_iff.mp ho').1, (shipmentRequest_of_extends hoo').symm⟩
  intro request hmem
  rcases List.mem_append.mp hmem with hmem | hmem
  · exact hlater (hw request hmem)
  · exact hlater (h.requested hprep (Option.mem_toList.mp hmem))

theorem Service.relyGuarantee_requested (P : Platform) (config : AppConfig) (p : Input → Prop) :
    Interleave.RelyGuarantee Service.start (Service.act P config) p
      (fun w => w.orders.WellFormed ∧ w.Requested) (fun w call => call.Prepared P w.orders)
      (fun w w' => w.orders.Extends w'.orders) where
  start := by
    intro w request w' call hw h
    obtain ⟨rfl, rfl⟩ := Prod.mk.inj (Option.some.inj h)
    exact ⟨hw, .refl w.orders, request.prepared P w.orders⟩
  act := by
    intro w call input w' call' hw hcall _ h
    obtain ⟨r, hstep, rfl, rfl⟩ := Service.act_steps h
    obtain ⟨hwf, hext, hprep⟩ := Call.Steps.prepared hw.1 hcall hstep
    exact ⟨⟨hwf, hw.2.after hext hcall hstep⟩, hext, hprep⟩
  stable := fun hw hw' hext hcall => hcall.stable hw.1 hw'.1 hext

theorem Service.Reachable.requested {p : Input → Prop} {s : Service.State}
    (h : Service.Reachable P config p s) : s.shared.Requested :=
  (Interleave.invariant (Service.relyGuarantee_requested P config p) h
    ⟨Collection.wellFormed_empty, fun _ hmem => absurd hmem (List.not_mem_nil)⟩
    fun _ hcall => absurd hcall (List.not_mem_nil)).1.2

/-- Two requests under one idempotency key are the same request. -/
theorem World.Requested.eq_of_idempotencyKey_eq {w : World} (hw : w.Requested)
    {request request' : ShipmentRequest} (hmem : .requested request ∈ w.effects)
    (hmem' : .requested request' ∈ w.effects)
    (heq : request.idempotencyKey = request'.idempotencyKey) : request = request' := by
  obtain ⟨o, ho, rfl⟩ := hw request hmem
  obtain ⟨o', ho', rfl⟩ := hw request' hmem'
  exact congrArg shipmentRequest (eq_of_requestId_eq ho ho' heq)

end Requested

namespace System

variable {P : Platform} {config : AppConfig} {s : State}

/-- The order-created messages of an order, in the store and in the hands of consumers. -/
theorem Reachable.messages_le_one (h : Reachable P config s) (orderId : String) :
    storeTokens orderId s.shared + (s.activations.map (heldTokens orderId)).sum ≤ 1 := by
  have hheld : (s.activations.map (heldTokens orderId)).sum
      ≤ (s.activations.map (taskTokens orderId)).sum :=
    List.sum_le_sum fun task _ => heldTokens_le_taskTokens orderId task
  have hle := (h.guarded orderId).1
  rw [tokens] at hle
  omega

/-- What one shipment for each order comes down to. -/
structure OneShipment (P : Platform) (config : AppConfig) (s : State) : Prop where
  /-- There is at most one order-created message, waiting or held. -/
  messages : ∀ orderId,
    storeTokens orderId s.shared + (s.activations.map (heldTokens orderId)).sum ≤ 1
  /-- At most one handler is running. -/
  active : ∀ i j orderId, ActiveFor s i orderId → ActiveFor s j orderId → i = j
  /-- No handler that may still store a shipment is about an order that has one. -/
  unshipped : Unshipped s
  /-- A stored shipment stays as it is. -/
  kept : ∀ t, Run.Reachable (step P config) (Interleave.Action.Inputs fun _ => True) s t →
    KeepsShipments s t
  /-- Requests to Delivery under one idempotency key are the same. -/
  requests : ∀ request request', .requested request ∈ s.shared.service.effects →
    .requested request' ∈ s.shared.service.effects →
    request.idempotencyKey = request'.idempotencyKey → request = request'

/-- **One shipment for each order**, in every reachable state, if the two queues have two names. -/
theorem oneShipment (hqueues : config.orderCreatedQueue ≠ config.orderStatusQueue)
    (h : Reachable P config s) : OneShipment P config s where
  messages := h.messages_le_one
  active := fun _ _ _ hi hj => active_unique hqueues h hi hj
  unshipped := h.unshipped hqueues
  kept := fun _ hrun => keepsShipments hqueues h hrun
  requests := fun _ _ hmem hmem' heq => h.service.requested.eq_of_idempotencyKey_eq hmem hmem' heq

/-- Delivery fails once and then answers; the write of the shipment takes effect but is reported as
failed, so the message goes back into the queue and another consumer takes it. -/
def handledTwice : List Action :=
  [.invoke (.postOrder (samplePayload 10) "key"), .resume 0 (.call (.find .ok)),
    .resume 0 (.call (.insertOne "id" "2024-05-01T10:00:00.000Z" .ok)),
    .resume 0 (.call (.sendMessage true "2024-05-01T10:00:00.000Z")),
    .invoke .consumeOrderCreated, .invoke .consumeOrderCreated, .resume 1 (.call (.find .ok)),
    .resume 1 (.call (.fetch (.response 503 none) "2024-05-01T10:00:01.000Z")),
    .resume 1 (.call (.fetch (.response 200 (some (.obj [(js "shipmentId", .str (js "s-1"))])))
      "2024-05-01T10:00:02.000Z")),
    .resume 1 (.call (.updateOne "2024-05-01T10:00:02.000Z" .landed)),
    .resume 1 (.settle "2024-05-01T10:00:03.000Z"), .invoke .consumeOrderCreated]

theorem oneShipment_handledTwice :
    ∃ s, Run.run (step .reference .default) init handledTwice = some s ∧
      s.shared.orders.docs.map OrderRecord.hasShipment = [true] ∧
      s.shared.service.effects.length = 3 ∧ tokens "id" s = 1 ∧
      OneShipment .reference .default s := by
  have hrun : (Run.run (step .reference .default) init handledTwice).map
      (fun s => (s.shared.orders.docs.map OrderRecord.hasShipment, s.shared.service.effects.length,
        tokens "id" s)) = some ([true], 3, 1) := by decide
  obtain ⟨s, hs, hobs⟩ := Option.map_eq_some_iff.mp hrun
  obtain ⟨hdocs, hrest⟩ := Prod.mk.inj hobs
  obtain ⟨heffects, htokens⟩ := Prod.mk.inj hrest
  exact ⟨s, hs, hdocs, heffects, htokens,
    oneShipment (by decide) ⟨_, fun a _ => a.inputs_true, hs⟩⟩

end System

end OrderProcessing
