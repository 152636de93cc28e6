import OrderProcessing.Consumers
import OrderProcessing.ForMathlib.Deletion
import OrderProcessing.Restriction

/-!
# Orders do not interfere

Nothing that is done for one order depends on the others, although all of them share one collection
and one queue: a call works on the part of the collection that belongs to its order, and a consumer
finds the messages of one order in the sequence in which they were sent, whatever stands between
them. Deleting from a run everything that is done for other orders leaves a run that does the same
for this one.

What one order could take away from another is a fresh id. That `randomUUID` does not return the id
of a stored order is assumed of every step.

## Main definitions

* `World.RestrictsTo` — the part of the world that belongs to one order
* `QueueMessage.contents`, `Task.contents` — apart from the identity of messages
* `System.concerns` — which requests are kept
* `System.FreshUuid`

## Main results

* `System.separates` — nobody sees the steps of other orders
* `System.orders_do_not_interfere`
-/

namespace OrderProcessing

open OrderRepository

/-! ### Messages apart from their identity -/

/-- The message as an object without identity. -/
def QueueMessage.contents {α : Type} (message : QueueMessage α) : QueueMessage α :=
  { message with ref := 0 }

/-- Where a `consumeOne` call is, apart from the identity of its message. -/
def Consumption.Pc.contents {α : Type} : Consumption.Pc α → Consumption.Pc α
  | .returnedUndefined => .returnedUndefined
  | .holding message => .holding message.contents
  | .acknowledged message processedAt => .acknowledged message.contents processedAt
  | .failed message => .failed message.contents

/-- A `consumeOne` call, apart from the identity of its message. -/
def Consumption.contents {α : Type} (consumption : Consumption α) : Consumption α :=
  { consumption with pc := consumption.pc.contents }

/-- A task, and all that it has come to, apart from the identity of messages. -/
def Task.contents : Task → Task
  | .consumeOrderCreated consumption handler => .consumeOrderCreated consumption.contents handler
  | .consumeStatus consumption handler => .consumeStatus consumption.contents handler
  | task => task

/-- A change of the messages that the predicate does not see. -/
theorem InMemoryQueueStore.dequeue_map {α : Type} {predicate : QueueMessage α → Bool}
    {f : QueueMessage α → QueueMessage α} (hf : ∀ m, predicate (f m) = predicate m)
    (messages : List (QueueMessage α)) :
    dequeue ⟨messages.map f⟩ predicate
      = (dequeue ⟨messages⟩ predicate).map fun r => (f r.1, ⟨r.2.messages.map f⟩) := by
  induction messages with
  | nil => rfl
  | cons message messages ih =>
    rw [List.map_cons, dequeue_cons, dequeue_cons, hf, ih]
    split
    · rfl
    · rw [Option.map_map, Option.map_map]
      rfl

/-- A message is found by its contents, so the same one is found among messages with the same
contents. -/
theorem dequeue_contents {α : Type} {messages messages' : List (QueueMessage α)}
    (hsame : messages'.map QueueMessage.contents = messages.map QueueMessage.contents)
    (queueName : String) :
    (InMemoryQueueStore.dequeue ⟨messages'⟩ fun item => item.queueName = queueName).map
        (fun r => (r.1.contents, InMemoryQueueStore.mk (r.2.messages.map QueueMessage.contents)))
      = (InMemoryQueueStore.dequeue ⟨messages⟩ fun item => item.queueName = queueName).map
        fun r =>
          (r.1.contents, InMemoryQueueStore.mk (r.2.messages.map QueueMessage.contents)) := by
  rw [← InMemoryQueueStore.dequeue_map (f := QueueMessage.contents) (fun _ => rfl),
    ← InMemoryQueueStore.dequeue_map (f := QueueMessage.contents) (fun _ => rfl), hsame]

namespace System

variable {P : Platform} {config : AppConfig} {w w' : World} {key orderId : String}

/-! ### The world of one order -/

/-- The world `w'` is the part of `w` that belongs to the order. -/
structure World.RestrictsTo (key orderId : String) (w w' : World) : Prop where
  orders : w'.orders = w.orders.restrict key
  effects : w'.service.effects = w.service.effects.filter fun effect => effect.orderId = orderId
  messages : w'.queue.store.messages.map QueueMessage.contents
    = (w.queue.store.messages.filter fun message => message.payload.orderId = orderId).map
      QueueMessage.contents

/-- A message of the order goes to the end of both queues. -/
theorem World.RestrictsTo.enqueue (h : w.RestrictsTo key orderId w')
    {message message' : QueueMessage Payload} (hid : message.payload.orderId = orderId)
    (hsame : message'.contents = message.contents) (sent sent' : List (QueueMessage Payload)) :
    World.RestrictsTo key orderId (w.withQueue ⟨w.queue.store.enqueue message, sent⟩)
      (w'.withQueue ⟨w'.queue.store.enqueue message', sent'⟩) where
  orders := h.orders
  effects := h.effects
  messages := by
    show (w'.queue.store.messages ++ [message']).map _
      = ((w.queue.store.messages ++ [message]).filter _).map _
    rw [List.filter_append, List.filter_cons_of_pos (by simpa using hid), List.filter_nil,
      List.map_append, List.map_append, h.messages]
    simp [hsame]

/-- A message of another order goes to the end of the queue. -/
theorem World.RestrictsTo.enqueue_other (h : w.RestrictsTo key orderId w')
    {message : QueueMessage Payload} (hid : message.payload.orderId ≠ orderId)
    (sent : List (QueueMessage Payload)) :
    World.RestrictsTo key orderId (w.withQueue ⟨w.queue.store.enqueue message, sent⟩) w' where
  orders := h.orders
  effects := h.effects
  messages := by
    show _ = ((w.queue.store.messages ++ [message]).filter _).map _
    rw [List.filter_append, List.filter_cons_of_neg (by simpa using hid), List.filter_nil,
      List.append_nil, h.messages]

theorem World.RestrictsTo.send (h : w.RestrictsTo key orderId w') {payload : Payload}
    (hid : payload.orderId = orderId) (queueName now : String) :
    World.RestrictsTo key orderId (w.withQueue (w.queue.sendMessage queueName payload now))
      (w'.withQueue (w'.queue.sendMessage queueName payload now)) := by
  have hsame : (w'.queue.newMessage queueName payload now).contents
      = (w.queue.newMessage queueName payload now).contents := rfl
  exact h.enqueue hid hsame _ _

theorem World.RestrictsTo.send_other (h : w.RestrictsTo key orderId w') {payload : Payload}
    (hid : payload.orderId ≠ orderId) (queueName now : String) :
    World.RestrictsTo key orderId (w.withQueue (w.queue.sendMessage queueName payload now)) w' := by
  have hne : (w.queue.newMessage queueName payload now).payload.orderId ≠ orderId := hid
  exact h.enqueue_other hne _

/-- A step of a call that is about the order. -/
theorem World.RestrictsTo.after {κ : Type} {r : Reaction κ} (h : w.RestrictsTo key orderId w')
    (heffect : ∀ effect, r.effect = some effect → effect.orderId = orderId) :
    World.RestrictsTo key orderId (w.after config r) (w'.after config (r.restrict key)) := by
  have heffects : w'.service.effects ++ r.effect.toList
      = (w.service.effects ++ r.effect.toList).filter fun effect => effect.orderId = orderId := by
    rw [List.filter_append, ← h.effects]
    refine congrArg _ (List.filter_eq_self.mpr fun effect hmem => ?_).symm
    exact decide_eq_true (heffect effect (Option.mem_toList.mp hmem))
  refine ⟨rfl, heffects, ?_⟩
  rcases hr : r.effect with _ | (⟨payload, sentAt⟩ | request)
  · simp only [World.after, Reaction.restrict, hr]
    exact h.messages
  · simp only [World.after, Reaction.restrict, hr]
    have hid : Payload.orderId (.orderCreated payload) = orderId := heffect _ hr
    exact (h.send hid _ _).messages
  · simp only [World.after, Reaction.restrict, hr]
    exact h.messages

/-- A step of a call that is about another order. -/
theorem World.RestrictsTo.after_other {κ : Type} {r : Reaction κ}
    (h : w.RestrictsTo key orderId w') (horders : r.orders.restrict key = w.orders.restrict key)
    (heffect : ∀ effect, r.effect = some effect → effect.orderId ≠ orderId) :
    World.RestrictsTo key orderId (w.after config r) w' := by
  have heffects : w'.service.effects
      = (w.service.effects ++ r.effect.toList).filter fun effect => effect.orderId = orderId := by
    rw [List.filter_append, ← h.effects, List.filter_eq_nil_iff.mpr, List.append_nil]
    intro effect hmem
    simpa using heffect effect (Option.mem_toList.mp hmem)
  refine ⟨h.orders.trans horders.symm, heffects, ?_⟩
  rcases hr : r.effect with _ | (⟨payload, sentAt⟩ | request)
  · simp only [World.after, hr]
    exact h.messages
  · simp only [World.after, hr]
    have hid : Payload.orderId (.orderCreated payload) ≠ orderId := heffect _ hr
    exact (h.send_other hid _ _).messages
  · simp only [World.after, hr]
    exact h.messages

/-! ### Consumers -/

/-- Among the messages that satisfy `q`, a dequeue finds the same message, if it is one of them. -/
theorem dequeue_filter {α : Type} {messages rest : List (QueueMessage α)} {message : QueueMessage α}
    {predicate q : QueueMessage α → Bool} (hq : q message = true)
    (h : InMemoryQueueStore.dequeue ⟨messages⟩ predicate = some (message, ⟨rest⟩)) :
    InMemoryQueueStore.dequeue ⟨messages.filter q⟩ predicate = some (message, ⟨rest.filter q⟩) := by
  obtain ⟨older, newer, rfl, rfl, holder, hmessage⟩ :=
    InMemoryQueueStore.dequeue_eq_some_iff.mp h
  refine InMemoryQueueStore.dequeue_eq_some_iff.mpr
    ⟨older.filter q, newer.filter q, ?_, List.filter_append .., ?_, hmessage⟩
  · rw [List.filter_append, List.filter_cons_of_pos hq]
  · exact fun m hm => holder m (List.mem_filter.mp hm).1

/-- A dequeue that takes another message leaves those that satisfy `q`. -/
theorem filter_of_dequeue {α : Type} {messages rest : List (QueueMessage α)}
    {message : QueueMessage α} {predicate q : QueueMessage α → Bool} (hq : q message = false)
    (h : InMemoryQueueStore.dequeue ⟨messages⟩ predicate = some (message, ⟨rest⟩)) :
    rest.filter q = messages.filter q := by
  obtain ⟨older, newer, rfl, rfl, -, -⟩ := InMemoryQueueStore.dequeue_eq_some_iff.mp h
  rw [List.filter_append, List.filter_append, List.filter_cons_of_neg (by simp [hq])]

/-- A consumer that takes a message of the order, or none. -/
theorem World.RestrictsTo.start_kept (h : w.RestrictsTo key orderId w') (queueName : String)
    (hown : ∀ message ∈ taken (Consumption.start w.queue queueName).2,
      message.payload.orderId = orderId) :
    World.RestrictsTo key orderId (w.withQueue (Consumption.start w.queue queueName).1)
        (w'.withQueue (Consumption.start w'.queue queueName).1) ∧
      (Consumption.start w'.queue queueName).2.contents
        = (Consumption.start w.queue queueName).2.contents := by
  have hsame := dequeue_contents h.messages queueName
  cases hdequeue : w.queue.store.dequeue fun item => item.queueName = queueName with
  | none =>
    have hnone : InMemoryQueueStore.dequeue ⟨w.queue.store.messages.filter fun message =>
        message.payload.orderId = orderId⟩ (fun item => item.queueName = queueName) = none := by
      rw [InMemoryQueueStore.dequeue_eq_none_iff] at hdequeue ⊢
      exact fun m hm => hdequeue m (List.mem_filter.mp hm).1
    rw [hnone, Option.map_none, Option.map_eq_none_iff] at hsame
    have hdequeue' : w'.queue.store.dequeue (fun item => item.queueName = queueName) = none := hsame
    simp only [Consumption.start, hdequeue, hdequeue']
    exact ⟨h, trivial⟩
  | some r =>
    obtain ⟨message, ⟨rest⟩⟩ := r
    simp only [Consumption.start, hdequeue] at hown ⊢
    have hid : message.payload.orderId = orderId := hown message rfl
    rw [dequeue_filter (decide_eq_true hid) hdequeue, Option.map_some,
      Option.map_eq_some_iff] at hsame
    obtain ⟨⟨message', store'⟩, hfound, heq⟩ := hsame
    obtain ⟨hmessage, hrest⟩ := Prod.mk.inj heq
    have hdequeue' : w'.queue.store.dequeue (fun item => item.queueName = queueName)
        = some (message', store') := hfound
    simp only [hdequeue']
    refine ⟨⟨h.orders, h.effects, InMemoryQueueStore.mk.inj hrest⟩, ?_⟩
    exact congrArg (fun m => Consumption.mk queueName (.holding m)) hmessage

/-- A consumer that takes a message of another order. -/
theorem World.RestrictsTo.start_deleted (h : w.RestrictsTo key orderId w') {queueName : String}
    {message : QueueMessage Payload}
    (htaken : message ∈ taken (Consumption.start w.queue queueName).2)
    (hother : message.payload.orderId ≠ orderId) :
    World.RestrictsTo key orderId (w.withQueue (Consumption.start w.queue queueName).1) w' := by
  cases hdequeue : w.queue.store.dequeue fun item => item.queueName = queueName with
  | none =>
    simp only [Consumption.start, hdequeue] at htaken
    exact absurd htaken (by simp [taken])
  | some r =>
    obtain ⟨message', ⟨rest⟩⟩ := r
    simp only [Consumption.start, hdequeue] at htaken ⊢
    obtain rfl : message' = message := Option.some.inj htaken
    refine ⟨h.orders, h.effects, h.messages.trans ?_⟩
    show _ = (rest.filter _).map _
    rw [filter_of_dequeue (decide_eq_false hother) hdequeue]

/-- A consumer that settles, with a message of the order. -/
theorem World.RestrictsTo.settle_kept (h : w.RestrictsTo key orderId w')
    {consumption consumption' consumption₁ : Consumption Payload} {queue : QueueWorld Payload}
    {succeeded : Bool} {now : String} (hsame : consumption'.contents = consumption.contents)
    (hown : ∀ message ∈ taken consumption, message.payload.orderId = orderId)
    (hsettle : consumption.settle w.queue succeeded now = some (queue, consumption₁)) :
    ∃ queue' consumption₁', consumption'.settle w'.queue succeeded now
        = some (queue', consumption₁') ∧
      World.RestrictsTo key orderId (w.withQueue queue) (w'.withQueue queue') ∧
      consumption₁'.contents = consumption₁.contents := by
  obtain ⟨message, hpc, hcases⟩ := Consumption.settle_cases hsettle
  obtain ⟨queueName, pc⟩ := consumption
  obtain ⟨queueName', pc'⟩ := consumption'
  obtain rfl : pc = .holding message := hpc
  obtain ⟨hname, hpc'⟩ := Consumption.mk.inj hsame
  obtain rfl : queueName' = queueName := hname
  cases pc' with
  | holding message' =>
    have hmessage : message'.contents = message.contents := Consumption.Pc.holding.inj hpc'
    rcases hcases with ⟨rfl, rfl, rfl⟩ | ⟨rfl, rfl, rfl⟩
    · exact ⟨w'.queue, _, rfl, h,
        congrArg (fun m => Consumption.mk queueName' (.acknowledged m now)) hmessage⟩
    · exact ⟨_, _, rfl, h.enqueue (hown message rfl) hmessage _ _,
        congrArg (fun m => Consumption.mk queueName' (.failed m)) hmessage⟩
  | _ => exact absurd hpc' (by simp [Consumption.Pc.contents])

/-- A consumer that settles, with a message of another order. -/
theorem World.RestrictsTo.settle_deleted (h : w.RestrictsTo key orderId w')
    {consumption consumption₁ : Consumption Payload} {queue : QueueWorld Payload}
    {succeeded : Bool} {now : String}
    (hother : ∀ message ∈ taken consumption, message.payload.orderId ≠ orderId)
    (hsettle : consumption.settle w.queue succeeded now = some (queue, consumption₁)) :
    World.RestrictsTo key orderId (w.withQueue queue) w' := by
  obtain ⟨message, hpc, ⟨-, rfl, -⟩ | ⟨-, rfl, -⟩⟩ := Consumption.settle_cases hsettle
  · exact h
  · have hheld : message ∈ taken consumption := by simp [taken, hpc]
    exact h.enqueue_other (hother message hheld) _

/-! ### Tasks -/

/-- What a task is about: its key and the order ids that it works with. -/
def About (isKey isId : String → Prop) : Task → Prop
  | .postOrder call => isKey call.idempotencyKey
  | .postStatus call _ => ∀ c ∈ call, isId c.orderId
  | .consumeOrderCreated consumption handler =>
    (∀ message ∈ taken consumption, isId message.payload.orderId) ∧
      ∀ call ∈ handler, isId call.orderId
  | .consumeStatus consumption handler =>
    (∀ message ∈ taken consumption, isId message.payload.orderId) ∧
      ∀ call ∈ handler, isId call.orderId

/-- A consumer that has settled holds no message. -/
theorem taken_of_settle {consumption consumption' : Consumption Payload}
    {queue queue' : QueueWorld Payload} {succeeded : Bool} {now : String}
    (h : consumption.settle queue succeeded now = some (queue', consumption')) :
    taken consumption' = none := by
  obtain ⟨message, -, ⟨-, -, rfl⟩ | ⟨-, -, rfl⟩⟩ := Consumption.settle_cases h <;> rfl

/-- A task is about the same order all the time. -/
theorem Steps.about {input : Input} {task task' : Task} {isKey isId : String → Prop}
    (h : Steps P config w task input w' task') (habout : About isKey isId task) :
    About isKey isId task' := by
  cases h with
  | createOrder hr =>
    show isKey _
    rw [(CreateOrder.steps hr).arguments_eq.2]
    exact habout
  | validate hr =>
    intro c hc
    obtain rfl := Option.some.inj hc
    have hid := habout _ rfl
    cases StatusValidation.steps hr <;> exact hid
  | accept => exact habout
  | reply => exact habout
  | handleOrderCreated hr =>
    refine ⟨habout.1, fun call hcall => ?_⟩
    obtain rfl := Option.some.inj hcall
    rw [(OrderCreatedEvent.steps hr).orderId_eq]
    exact habout.2 _ rfl
  | settleOrderCreated _ hsettle =>
    exact ⟨by simp [taken_of_settle hsettle], habout.2⟩
  | handleStatus hr =>
    refine ⟨habout.1, fun call hcall => ?_⟩
    obtain rfl := Option.some.inj hcall
    rw [(StatusUpdate.steps hr).arguments_eq.1]
    exact habout.2 _ rfl
  | settleStatus _ hsettle => exact ⟨by simp [taken_of_settle hsettle], habout.2⟩

/-- The requests that are about the order, given what they have become: a request with its key or
its id, or a consumer that has taken one of its messages, or none. -/
def concerns (key orderId : String) : Request → Task → Bool
  | .postOrder _ idempotencyKey, _ => idempotencyKey = key
  | .postStatus i _, _ => i = orderId
  | _, task => (task.consumption.bind taken).all fun message => message.payload.orderId = orderId

/-- What `randomUUID` returns is not the id of a stored order. -/
def FreshUuid (s : State) : Action → Prop
  | .resume _ (.call (.insertOne uuid _ _)) => findById s.shared.orders uuid = none
  | _ => True

instance (s : State) : DecidablePred (FreshUuid s)
  | .invoke _ => isTrue trivial
  | .resume _ (.settle _) => isTrue trivial
  | .resume _ (.call input) =>
    match input with
    | .insertOne uuid _ _ => inferInstanceAs (Decidable (findById s.shared.orders uuid = none))
    | .find _ | .sendMessage _ _ | .findOneAndUpdate _ _ | .fetch _ _ | .updateOne _ _ =>
      isTrue trivial

/-- The message that a consumer has taken, and the handler that it starts. -/
theorem taken_contents (consumption : Consumption Payload) :
    taken consumption.contents = (taken consumption).map QueueMessage.contents := by
  obtain ⟨queueName, pc⟩ := consumption
  cases pc <;> rfl

theorem map_taken_of_contents {β : Type} {consumption consumption' : Consumption Payload}
    (hsame : consumption'.contents = consumption.contents) (f : Payload → β) :
    (taken consumption').map (fun message => f message.payload)
      = (taken consumption).map fun message => f message.payload := by
  have hforget : ∀ consumption : Consumption Payload,
      (taken consumption).map (fun message => f message.payload)
        = (taken consumption.contents).map fun message => f message.payload := by
    intro consumption
    rw [taken_contents, Option.map_map]
    rfl
  rw [hforget, hsame, ← hforget]

/-- A consumer that starts is about the order of the message that it has taken. -/
theorem about_consumeOrderCreated {isKey isId : String → Prop} {consumption : Consumption Payload}
    (h : ∀ message ∈ taken consumption, isId message.payload.orderId) :
    About isKey isId (.consumeOrderCreated consumption
      ((taken consumption).map fun message => ⟨message.payload.orderId, .lookup⟩)) := by
  refine ⟨h, fun call hcall => ?_⟩
  obtain ⟨message, hmessage, rfl⟩ := Option.map_eq_some_iff.mp hcall
  exact h message hmessage

theorem about_consumeStatus {isKey isId : String → Prop} {consumption : Consumption Payload}
    (h : ∀ message ∈ taken consumption, isId message.payload.orderId) :
    About isKey isId (.consumeStatus consumption ((taken consumption).map
      fun message => ⟨message.payload.orderId, message.payload.event, .lookup⟩)) := by
  refine ⟨h, fun call hcall => ?_⟩
  obtain ⟨message, hmessage, rfl⟩ := Option.map_eq_some_iff.mp hcall
  exact h message hmessage

section Separates

variable {request : Request} {task task' : Task} {s : State} {input : Input}

theorem start_consumeOrderCreated_eq : start P config w .consumeOrderCreated
    = some (w.withQueue (Consumption.start w.queue config.orderCreatedQueue).1,
      .consumeOrderCreated (Consumption.start w.queue config.orderCreatedQueue).2
        ((taken (Consumption.start w.queue config.orderCreatedQueue).2).map
          fun message => ⟨message.payload.orderId, .lookup⟩)) := rfl

theorem start_consumeStatus_eq : start P config w .consumeStatus
    = some (w.withQueue (Consumption.start w.queue config.orderStatusQueue).1,
      .consumeStatus (Consumption.start w.queue config.orderStatusQueue).2
        ((taken (Consumption.start w.queue config.orderStatusQueue).2).map
          fun message => ⟨message.payload.orderId, message.payload.event, .lookup⟩)) := rfl

/-- A request for the order starts in the same way without the others. -/
theorem start_kept (h : w.RestrictsTo key orderId w')
    {w₁ : World} (hstart : start P config w request = some (w₁, task))
    (hconcerns : concerns key orderId request task = true) :
    ∃ w₁' task', start P config w' request = some (w₁', task') ∧
      World.RestrictsTo key orderId w₁ w₁' ∧
      About (· = key) (· = orderId) task ∧ task'.contents = task.contents := by
  cases request with
  | postOrder payload idempotencyKey =>
    obtain ⟨rfl, rfl⟩ := Prod.mk.inj (Option.some.inj hstart)
    have hkey : idempotencyKey = key := of_decide_eq_true hconcerns
    exact ⟨w', _, rfl, h, hkey, rfl⟩
  | postStatus i update =>
    have hid : i = orderId := of_decide_eq_true hconcerns
    simp only [start] at hstart ⊢
    split at hstart
    · obtain ⟨rfl, rfl⟩ := Prod.mk.inj (Option.some.inj hstart)
      exact ⟨w', _, rfl, h, by simp [About], rfl⟩
    · obtain ⟨rfl, rfl⟩ := Prod.mk.inj (Option.some.inj hstart)
      exact ⟨w', _, rfl, h, by simpa [About] using hid, rfl⟩
  | consumeOrderCreated =>
    rw [start_consumeOrderCreated_eq] at hstart
    obtain ⟨rfl, rfl⟩ := Prod.mk.inj (Option.some.inj hstart)
    have hown : ∀ message ∈ taken (Consumption.start w.queue config.orderCreatedQueue).2,
        message.payload.orderId = orderId :=
      fun message hm => of_decide_eq_true ((Option.all_eq_true ..).mp hconcerns message hm)
    obtain ⟨hrestricts, hsame⟩ := h.start_kept config.orderCreatedQueue hown
    refine ⟨_, _, start_consumeOrderCreated_eq, hrestricts, about_consumeOrderCreated hown, ?_⟩
    rw [map_taken_of_contents hsame fun payload => OrderCreatedEvent.mk payload.orderId .lookup]
    exact congrArg (Task.consumeOrderCreated · _) hsame
  | consumeStatus =>
    rw [start_consumeStatus_eq] at hstart
    obtain ⟨rfl, rfl⟩ := Prod.mk.inj (Option.some.inj hstart)
    have hown : ∀ message ∈ taken (Consumption.start w.queue config.orderStatusQueue).2,
        message.payload.orderId = orderId :=
      fun message hm => of_decide_eq_true ((Option.all_eq_true ..).mp hconcerns message hm)
    obtain ⟨hrestricts, hsame⟩ := h.start_kept config.orderStatusQueue hown
    refine ⟨_, _, start_consumeStatus_eq, hrestricts, about_consumeStatus hown, ?_⟩
    rw [map_taken_of_contents hsame
      fun payload => StatusUpdate.mk payload.orderId payload.event .lookup]
    exact congrArg (Task.consumeStatus · _) hsame

/-- A request for another order. -/
theorem start_deleted (h : w.RestrictsTo key orderId w')
    {w₁ : World} (hstart : start P config w request = some (w₁, task))
    (hconcerns : concerns key orderId request task = false) :
    World.RestrictsTo key orderId w₁ w' ∧ About (· ≠ key) (· ≠ orderId) task := by
  cases request with
  | postOrder payload idempotencyKey =>
    obtain ⟨rfl, rfl⟩ := Prod.mk.inj (Option.some.inj hstart)
    have hkey : idempotencyKey ≠ key := of_decide_eq_false hconcerns
    exact ⟨h, hkey⟩
  | postStatus i update =>
    have hid : i ≠ orderId := of_decide_eq_false hconcerns
    simp only [start] at hstart
    split at hstart
    · obtain ⟨rfl, rfl⟩ := Prod.mk.inj (Option.some.inj hstart)
      exact ⟨h, by simp [About]⟩
    · obtain ⟨rfl, rfl⟩ := Prod.mk.inj (Option.some.inj hstart)
      exact ⟨h, by simpa [About] using hid⟩
  | consumeOrderCreated =>
    rw [start_consumeOrderCreated_eq] at hstart
    obtain ⟨rfl, rfl⟩ := Prod.mk.inj (Option.some.inj hstart)
    obtain ⟨message, htaken, hother⟩ := (Option.all_eq_false ..).mp hconcerns
    have hne : message.payload.orderId ≠ orderId := of_decide_eq_false hother
    refine ⟨h.start_deleted htaken hne, about_consumeOrderCreated fun m hm => ?_⟩
    obtain rfl := Option.some.inj (htaken.symm.trans hm)
    exact hne
  | consumeStatus =>
    rw [start_consumeStatus_eq] at hstart
    obtain ⟨rfl, rfl⟩ := Prod.mk.inj (Option.some.inj hstart)
    obtain ⟨message, htaken, hother⟩ := (Option.all_eq_false ..).mp hconcerns
    have hne : message.payload.orderId ≠ orderId := of_decide_eq_false hother
    refine ⟨h.start_deleted htaken hne, about_consumeStatus fun m hm => ?_⟩
    obtain rfl := Option.some.inj (htaken.symm.trans hm)
    exact hne

/-! ### One step of a task -/

/-- A step of `createOrder`, unless the queue refuses its message. -/
theorem act_postOrder {call : CreateOrder} {input : OrderProcessing.Input}
    {r : Reaction CreateOrder} (hr : call.step P w.orders input = some r)
    (haccepted : ∀ sentAt, input ≠ .sendMessage false sentAt) :
    act P config w (.postOrder call) (.call input)
      = some (w.after config r, .postOrder r.call) := by
  cases input with
  | sendMessage accepted sentAt =>
    cases accepted with
    | true => exact congrArg (Option.map _) hr
    | false => exact absurd rfl (haccepted sentAt)
  | _ => exact congrArg (Option.map _) hr

/-- What the status route does with a result does not depend on other orders. -/
theorem afterValidation_kept (config : AppConfig) (h : w.RestrictsTo key orderId w')
    {call : StatusValidation}
    (hid : call.orderId = orderId)
    (result : Except ServiceError (OrderRecord × Option StatusEvent)) (now : String) :
    World.RestrictsTo key orderId (afterValidation config w call result now).1
        (afterValidation config w' call result now).1 ∧
      (afterValidation config w' call result now).2
        = (afterValidation config w call result now).2 := by
  rcases result with error | ⟨order, _ | event⟩
  · cases error <;> exact ⟨h, rfl⟩
  · exact ⟨h, rfl⟩
  · have hpayload : (Payload.statusUpdate call.orderId event).orderId = orderId := hid
    exact ⟨h.send hpayload _ _, rfl⟩

/-! Tasks with the same contents are of one kind. -/

theorem eq_postOrder_of_contents {call : CreateOrder} (h : task'.contents = .postOrder call) :
    task' = .postOrder call := by
  cases task' with
  | postOrder => exact h
  | _ => exact Task.noConfusion h

theorem eq_postStatus_of_contents {call : Option StatusValidation} {reply : Option Reply}
    (h : task'.contents = .postStatus call reply) : task' = .postStatus call reply := by
  cases task' with
  | postStatus => exact h
  | _ => exact Task.noConfusion h

theorem eq_consumeOrderCreated_of_contents {consumption : Consumption Payload}
    {handler : Option OrderCreatedEvent}
    (h : task'.contents = .consumeOrderCreated consumption handler) :
    ∃ consumption', task' = .consumeOrderCreated consumption' handler ∧
      consumption'.contents = consumption := by
  cases task' with
  | consumeOrderCreated consumption' handler' =>
    obtain ⟨hcontents, rfl⟩ := Task.consumeOrderCreated.inj h
    exact ⟨consumption', rfl, hcontents⟩
  | _ => exact Task.noConfusion h

theorem eq_consumeStatus_of_contents {consumption : Consumption Payload}
    {handler : Option StatusUpdate} (h : task'.contents = .consumeStatus consumption handler) :
    ∃ consumption', task' = .consumeStatus consumption' handler ∧
      consumption'.contents = consumption := by
  cases task' with
  | consumeStatus consumption' handler' =>
    obtain ⟨hcontents, rfl⟩ := Task.consumeStatus.inj h
    exact ⟨consumption', rfl, hcontents⟩
  | _ => exact Task.noConfusion h

section Kept

variable (h : w.RestrictsTo key orderId w') (howns : w.orders.Owns key orderId) {w₁ : World}
  {task₁ : Task}

include h howns

/-! One lemma for each kind of task: the step is the same without the other orders. -/

theorem act_kept_postOrder {call : CreateOrder} (hprep : call.Prepared P w.orders)
    (hfresh : ∀ uuid now answer, input = .call (.insertOne uuid now answer) →
      findById w.orders uuid = none)
    (hkey : call.idempotencyKey = key)
    (hact : act P config w (.postOrder call) input = some (w₁, task₁)) :
    ∃ w₁' task₁', act P config w' (.postOrder call) input = some (w₁', task₁') ∧
      World.RestrictsTo key orderId w₁ w₁' ∧ task₁'.contents = task₁.contents := by
  cases steps hact with
  | @createOrder _ input r hr haccepted =>
    have hfresh' : ∀ uuid now answer, input = .insertOne uuid now answer →
        findById w.orders uuid = none :=
      fun uuid now answer heq => hfresh uuid now answer (congrArg Input.call heq)
    have hr' : call.step P w'.orders input = some (r.restrict key) := by
      rw [h.orders, CreateOrder.step_restrict hkey hfresh', hr]
      rfl
    have heffect : ∀ effect, r.effect = some effect → effect.orderId = orderId :=
      fun effect heq => ((CreateOrder.steps hr).effect_iff hprep howns heq).mpr hkey
    exact ⟨_, _, act_postOrder hr' haccepted, h.after heffect, rfl⟩

theorem act_kept_postStatus {call : Option StatusValidation} {reply : Option Reply}
    (habout : ∀ c ∈ call, c.orderId = orderId)
    (hact : act P config w (.postStatus call reply) input = some (w₁, task₁)) :
    ∃ w₁' task₁', act P config w' (.postStatus call reply) input = some (w₁', task₁') ∧
      World.RestrictsTo key orderId w₁ w₁' ∧ task₁'.contents = task₁.contents := by
  rcases call with _ | call
  · cases steps hact
  have hid : call.orderId = orderId := habout call rfl
  rcases input with input | now
  · cases steps hact with
    | @validate _ _ r hr =>
      have hr' : call.step P w'.orders input = some (r.restrict key) := by
        rw [h.orders, StatusValidation.step_restrict (by rwa [hid]), hr]
        rfl
      have heffect : ∀ effect, r.effect = some effect → effect.orderId = orderId := by
        intro effect heq
        cases StatusValidation.steps hr <;> simp at heq
      exact ⟨_, _, congrArg (Option.map _) hr', h.after heffect, rfl⟩
  · rcases reply with _ | reply
    · simp only [act] at hact ⊢
      split at hact
      · next result hpc =>
        obtain ⟨rfl, rfl⟩ := Prod.mk.inj (Option.some.inj hact)
        obtain ⟨hrestricts, hreply⟩ := afterValidation_kept config h hid result now
        exact ⟨_, _, rfl, hrestricts, by rw [hreply]⟩
      · simp at hact
    · cases steps hact

theorem act_kept_consumeOrderCreated {consumption consumption' : Consumption Payload}
    {handler : Option OrderCreatedEvent}
    (hprep : (serviceCall (.consumeOrderCreated consumption handler)).Prepared P w.orders)
    (habout : About (· = key) (· = orderId) (.consumeOrderCreated consumption handler))
    (hcontents : consumption'.contents = consumption.contents)
    (hact : act P config w (.consumeOrderCreated consumption handler) input = some (w₁, task₁)) :
    ∃ w₁' task₁', act P config w' (.consumeOrderCreated consumption' handler) input
        = some (w₁', task₁') ∧
      World.RestrictsTo key orderId w₁ w₁' ∧ task₁'.contents = task₁.contents := by
  cases steps hact with
  | @handleOrderCreated _ call input r hr =>
    have hid : call.orderId = orderId := habout.2 call rfl
    have hr' : call.step config.maxRetries w'.orders input = some (r.restrict key) := by
      rw [h.orders, OrderCreatedEvent.step_restrict (by rwa [hid]) hprep, hr]
      rfl
    have heffect : ∀ effect, r.effect = some effect → effect.orderId = orderId := fun effect heq =>
      ((OrderCreatedEvent.steps hr).effect_orderId hprep heq).trans hid
    exact ⟨_, _, congrArg (Option.map _) hr', h.after heffect,
      congrArg (Task.consumeOrderCreated · _) hcontents⟩
  | @settleOrderCreated _ _ call result _ now hpc hsettle =>
    obtain ⟨queue', consumption₁', hsettle', hrestricts, hcontents'⟩ :=
      h.settle_kept hcontents habout.1 hsettle
    refine ⟨_, .consumeOrderCreated consumption₁' (some call), ?_, hrestricts,
      congrArg (Task.consumeOrderCreated · (some call)) hcontents'⟩
    simp only [act, hpc, hsettle']
    rfl

theorem act_kept_consumeStatus {consumption consumption' : Consumption Payload}
    {handler : Option StatusUpdate}
    (habout : About (· = key) (· = orderId) (.consumeStatus consumption handler))
    (hcontents : consumption'.contents = consumption.contents)
    (hact : act P config w (.consumeStatus consumption handler) input = some (w₁, task₁)) :
    ∃ w₁' task₁', act P config w' (.consumeStatus consumption' handler) input
        = some (w₁', task₁') ∧
      World.RestrictsTo key orderId w₁ w₁' ∧ task₁'.contents = task₁.contents := by
  cases steps hact with
  | @handleStatus _ call input r hr =>
    have hid : call.orderId = orderId := habout.2 call rfl
    have hr' : call.step P w'.orders input = some (r.restrict key) := by
      rw [h.orders, StatusUpdate.step_restrict (by rwa [hid]), hr]
      rfl
    have heffect : ∀ effect, r.effect = some effect → effect.orderId = orderId := by
      intro effect heq
      cases StatusUpdate.steps hr <;> simp at heq
    exact ⟨_, _, congrArg (Option.map _) hr', h.after heffect,
      congrArg (Task.consumeStatus · _) hcontents⟩
  | @settleStatus _ _ call result _ now hpc hsettle =>
    obtain ⟨queue', consumption₁', hsettle', hrestricts, hcontents'⟩ :=
      h.settle_kept hcontents habout.1 hsettle
    refine ⟨_, .consumeStatus consumption₁' (some call), ?_, hrestricts,
      congrArg (Task.consumeStatus · (some call)) hcontents'⟩
    simp only [act, hpc, hsettle']
    rfl

/-- A step of a task that is about the order. -/
theorem act_kept (hprep : (serviceCall task).Prepared P w.orders)
    (hfresh : ∀ uuid now answer, input = .call (.insertOne uuid now answer) →
      findById w.orders uuid = none)
    (habout : About (· = key) (· = orderId) task) (hsame : task'.contents = task.contents)
    (hact : act P config w task input = some (w₁, task₁)) :
    ∃ w₁' task₁', act P config w' task' input = some (w₁', task₁') ∧
      World.RestrictsTo key orderId w₁ w₁' ∧ task₁'.contents = task₁.contents := by
  cases task with
  | postOrder call =>
    obtain rfl := eq_postOrder_of_contents hsame
    exact act_kept_postOrder h howns hprep hfresh habout hact
  | postStatus call reply =>
    obtain rfl := eq_postStatus_of_contents hsame
    exact act_kept_postStatus h howns habout hact
  | consumeOrderCreated consumption handler =>
    obtain ⟨consumption', rfl, hcontents⟩ := eq_consumeOrderCreated_of_contents hsame
    exact act_kept_consumeOrderCreated h howns hprep habout hcontents hact
  | consumeStatus consumption handler =>
    obtain ⟨consumption', rfl, hcontents⟩ := eq_consumeStatus_of_contents hsame
    exact act_kept_consumeStatus h howns habout hcontents hact

end Kept

/-- A step of a task that is about another order. -/
theorem act_deleted (h : w.RestrictsTo key orderId w')
    (hprep : (serviceCall task).Prepared P w.orders) (howns : w.orders.Owns key orderId)
    (habout : About (· ≠ key) (· ≠ orderId) task) {w₁ : World} {task₁ : Task}
    (hact : act P config w task input = some (w₁, task₁)) :
    World.RestrictsTo key orderId w₁ w' := by
  cases steps hact with
  | createOrder hr _ =>
    have hsteps := CreateOrder.steps hr
    refine h.after_other (hsteps.restrict_eq habout) fun effect heq hid => ?_
    exact habout ((hsteps.effect_iff hprep howns heq).mp hid)
  | validate hr =>
    cases StatusValidation.steps hr <;> exact h.after_other rfl (by simp)
  | @accept call order event now hpc =>
    have hpayload : (Payload.statusUpdate call.orderId event).orderId ≠ orderId := habout call rfl
    exact h.send_other hpayload _ _
  | reply => exact h
  | handleOrderCreated hr =>
    have hsteps := OrderCreatedEvent.steps hr
    have hne := habout.2 _ rfl
    refine h.after_other (hsteps.restrict_eq hprep howns hne) fun effect heq hid => ?_
    exact hne ((hsteps.effect_orderId hprep heq).symm.trans hid)
  | settleOrderCreated _ hsettle => exact h.settle_deleted habout.1 hsettle
  | handleStatus hr =>
    have hsteps := StatusUpdate.steps hr
    refine h.after_other (hsteps.restrict_eq howns (habout.2 _ rfl)) fun effect heq => ?_
    cases hsteps <;> simp at heq
  | settleStatus _ hsettle => exact h.settle_deleted habout.1 hsettle

end Separates

/-! ### Runs -/

variable {s t : State} {order : OrderRecord}

/-- What may be used at each step: the state is reachable, ids and keys belong together, and uuids
are fresh. -/
def Allowed (P : Platform) (config : AppConfig) (key orderId : String) (s : State) (a : Action) :
    Prop :=
  Reachable P config s ∧ s.shared.orders.Owns key orderId ∧ FreshUuid s a

/-- **Nobody sees the steps that are about other orders.** -/
theorem separates (P : Platform) (config : AppConfig) (key orderId : String) :
    Interleave.Separates (start P config) (act P config) (concerns key orderId)
      (Allowed P config key orderId) (World.RestrictsTo key orderId)
      (fun task task' => About (· = key) (· = orderId) task ∧ task'.contents = task.contents)
      (About (· ≠ key) (· ≠ orderId)) where
  start_kept := by
    rintro s w' request w task - h hstart hconcerns
    exact start_kept h hstart hconcerns
  start_deleted := by
    rintro s w' request w task - h hstart hconcerns
    exact start_deleted h hstart hconcerns
  act_kept := by
    rintro s i input w' task task' w task₁ ⟨hreach, howns, hfresh⟩ h hi ⟨habout, hsame⟩ hact
    have hprep := hreach.prepared.2 task (List.mem_of_getElem? hi)
    have hfresh' : ∀ uuid now answer, input = .call (.insertOne uuid now answer) →
        findById s.shared.orders uuid = none := by
      rintro uuid now answer rfl
      exact hfresh
    obtain ⟨w₁', task₁', hact', hrestricts, hsame'⟩ :=
      act_kept h howns hprep hfresh' habout hsame hact
    exact ⟨w₁', task₁', hact', hrestricts, (steps hact).about habout, hsame'⟩
  act_deleted := by
    rintro s i input w' task w task₁ ⟨hreach, howns, -⟩ h hi habout hact
    have hprep := hreach.prepared.2 task (List.mem_of_getElem? hi)
    exact ⟨act_deleted h hprep howns habout hact, (steps hact).about habout⟩

/-- Nothing is stored, sent or running at the start. -/
theorem separated_init (key orderId : String) :
    Interleave.Separated (World.RestrictsTo key orderId)
      (fun task task' => About (· = key) (· = orderId) task ∧ task'.contents = task.contents)
      (About (· ≠ key) (· ≠ orderId)) [] init init where
  length_eq := rfl
  shared := ⟨Collection.ext rfl, rfl, rfl⟩
  kept := .nil
  deleted := by simp

/-- Ids and keys belong together from the start, because they do at the end. -/
theorem owns_of_reachable (hs : Reachable P config s)
    (hst : Run.Reachable (step P config) (Interleave.Action.Inputs fun _ => True) s t)
    (horder : order ∈ t.shared.orders.docs) :
    s.shared.orders.Owns order.requestId order.id := by
  have hext := (Run.Reachable.related_of_invariant (I := Reachable P config)
    (R := fun u v => u.shared.orders.Extends v.shared.orders) hst hs
    (fun _ _ _ hu ha hstep => Run.Reachable.tail hu ha hstep) (fun _ => .refl _)
    (fun _ _ _ h h' => h.trans h') fun _ _ _ hu _ hstep => extends_of_step hu hstep).2
  intro o ho
  obtain ⟨o', ho', hoo'⟩ := hext o.id o (findById_of_mem ho)
  have hmem := (findById_eq_some_iff.mp ho').1
  rw [← hoo'.id_eq, ← hoo'.requestId_eq]
  constructor
  · intro hid
    rw [List.inj_on_of_nodup_map t.shared.orders.id_nodup hmem horder hid]
  · intro hreq
    rw [eq_of_requestId_eq hmem horder hreq]

/-- What is left of a run if everything is deleted that is about other orders, and for each task
whether it is left. -/
def withoutOthers (P : Platform) (config : AppConfig) (order : OrderRecord) (as : List Action) :
    List Action × List Bool :=
  Interleave.delete (start P config) (act P config) (concerns order.requestId order.id) init [] as

/-- The messages of an order that wait in a queue, apart from their identity. -/
def messagesOf (orderId queueName : String) (s : State) : List (QueueMessage Payload) :=
  ((s.shared.queue.store.messages.filter fun message => message.payload.orderId = orderId).map
    QueueMessage.contents).filter fun message => message.queueName = queueName

theorem World.RestrictsTo.messagesOf_eq {key orderId : String}
    (h : World.RestrictsTo key orderId s.shared t.shared) (queueName : String) :
    messagesOf orderId queueName t = messagesOf orderId queueName s := by
  have hown : t.shared.queue.store.messages.filter (fun message =>
      message.payload.orderId = orderId) = t.shared.queue.store.messages := by
    refine List.filter_eq_self.mpr fun message hm => ?_
    have hmem : message.contents ∈ (s.shared.queue.store.messages.filter fun message =>
        message.payload.orderId = orderId).map QueueMessage.contents :=
      h.messages ▸ List.mem_map_of_mem hm
    obtain ⟨m, hm, hsame⟩ := List.mem_map.mp hmem
    have hpayload : m.payload = message.payload := congrArg (·.payload) hsame
    rw [← hpayload]
    exact (List.mem_filter.mp hm).2
  rw [messagesOf, messagesOf, hown, h.messages]

/-- **Orders do not interfere.** Deleting from a run everything that is about other orders leaves a
run. It ends with the same document, the same messages and effects, and every task that is left ends
as it did. -/
theorem orders_do_not_interfere {as : List Action}
    (hrun : Run.run (step P config) init as = some s)
    (hfresh : Run.Along (step P config) FreshUuid init as)
    (hstored : order ∈ s.shared.orders.docs) :
    ∃ t, Run.run (step P config) init (withoutOthers P config order as).1 = some t ∧
      findById t.shared.orders order.id = some order ∧
      (∀ queueName, messagesOf order.id queueName t = messagesOf order.id queueName s) ∧
      t.shared.service.effects
        = s.shared.service.effects.filter (fun effect => effect.orderId = order.id) ∧
      t.activations.map Task.contents
        = (Interleave.kept (withoutOthers P config order as).2 s.activations).map
          Task.contents := by
  have hallowed : Run.Along (step P config) (Allowed P config order.requestId order.id) init as :=
    Run.along_of_reachable hrun (fun a _ => a.inputs_true) hfresh fun u a hu hus hfresh =>
      ⟨hu, owns_of_reachable hu hus hstored, hfresh⟩
  obtain ⟨t, hleft, ht⟩ := Interleave.run_delete
    (separates P config order.requestId order.id) hrun hallowed (separated_init _ _)
  have howns := owns_of_reachable ⟨as, fun a _ => a.inputs_true, hrun⟩ (.refl s) hstored
  refine ⟨t, hleft, ?_, ht.shared.messagesOf_eq, ht.shared.effects, ?_⟩
  · have horders : t.shared.orders = _ := ht.shared.orders
    rw [horders, findById_restrict howns, findById_of_mem hstored]
  · rw [← List.forall₂_eq_eq_eq, List.forall₂_map_left_iff, List.forall₂_map_right_iff]
    exact (List.Forall₂.flip ht.kept).imp fun _ _ hM => hM.2

/-- Two orders are created, and for both an update with the same event id is accepted. One consumer
applies the update of the first order, another one that of the second. -/
def sharedEventId : List Action :=
  [.invoke (.postOrder (samplePayload 10) "key-a"), .invoke (.postOrder (samplePayload 20) "key-b"),
    .resume 0 (.call (.find .ok)), .resume 1 (.call (.find .ok)),
    .resume 0 (.call (.insertOne "a" "2024-05-01T10:00:00.000Z" .ok)),
    .resume 1 (.call (.insertOne "b" "2024-05-01T10:00:00.000Z" .ok)),
    .resume 1 (.call (.sendMessage true "2024-05-01T10:00:00.000Z")),
    .resume 0 (.call (.sendMessage true "2024-05-01T10:00:00.000Z")),
    .invoke (.postStatus "a" ⟨.shipped, "2024-05-02T10:00:00.000Z", "e1"⟩),
    .resume 2 (.call (.find .ok)), .resume 2 (.settle "2024-05-02T12:00:00.000Z"),
    .invoke (.postStatus "b" ⟨.shipped, "2024-05-02T10:00:00.000Z", "e1"⟩),
    .resume 3 (.call (.find .ok)), .resume 3 (.settle "2024-05-02T12:00:00.000Z"),
    .invoke .consumeStatus, .invoke .consumeStatus,
    .resume 4 (.call (.find .ok)), .resume 5 (.call (.find .ok)),
    .resume 4 (.call (.findOneAndUpdate "2024-05-02T12:00:01.000Z" .ok)),
    .resume 5 (.call (.findOneAndUpdate "2024-05-02T12:00:01.000Z" .ok))]

theorem orders_do_not_interfere_sharedEventId :
    ∃ s order, Run.run (step .reference .default) init sharedEventId = some s ∧
      s.shared.orders.docs.length = 2 ∧ order.id = "b" ∧ order.status = .shipped ∧
      (withoutOthers .reference .default order sharedEventId).2
        = [false, true, false, true, false, true] ∧
      ∃ t, Run.run (step .reference .default) init
          (withoutOthers .reference .default order sharedEventId).1 = some t ∧
        findById t.shared.orders "b" = some order := by
  have hrun : (Run.run (step .reference .default) init sharedEventId).map (fun s =>
      (s.shared.orders.docs.length, (findById s.shared.orders "b").map fun o =>
        (o.status, o.requestId))) = some (2, some (.shipped, "key-b")) := by decide
  obtain ⟨s, hs, hobs⟩ := Option.map_eq_some_iff.mp hrun
  obtain ⟨hlength, hdoc⟩ := Prod.mk.inj hobs
  obtain ⟨order, horder, hfields⟩ := Option.map_eq_some_iff.mp hdoc
  obtain ⟨hstatus, hkey⟩ := Prod.mk.inj hfields
  obtain ⟨hmem, hid⟩ := findById_eq_some_iff.mp horder
  have hfresh : Run.Along (step .reference .default) FreshUuid init sharedEventId := by decide
  obtain ⟨t, ht, hsame, -⟩ := orders_do_not_interfere hs hfresh hmem
  refine ⟨s, order, hs, hlength, hid, hstatus, ?_, t, ht, ?_⟩
  · rw [withoutOthers, hid, hkey]
    decide
  · rwa [hid] at hsame

end System

end OrderProcessing
