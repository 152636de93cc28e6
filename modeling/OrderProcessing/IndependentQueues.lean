import OrderProcessing.ForMathlib.KeyedQueues
import OrderProcessing.ForMathlib.Run
import OrderProcessing.System

/-!
# One list, many queues

The store keeps the messages of all queues in one list, takes messages out of the middle of it and
filters it. Nobody who works with a queue sees that: the store answers every operation as a family
of separate queues does, one for each name.

## Main definitions

* `InMemoryQueueStore.perform` — an operation on the store
* `QueueFamily.perform` — the same operation on separate queues

## Main results

* `InMemoryQueueStore.independent`
* `InMemoryQueueStore.queueOf_answers` — operations on other queues make no difference
* `Queue.Reachable.queueFamily`, `System.Reachable.queueFamily` — whatever runs on the store
* `clear_isolated` — clearing a queue by its debug route
-/

namespace OrderProcessing

open KeyedQueues

variable {α : Type}

/-! ### Operations -/

/-- A call of one of the operations of `InMemoryQueueStore`. -/
inductive StoreOperation (α : Type)
  | enqueue (message : QueueMessage α)
  /-- With the predicate of `consumeOne`. -/
  | dequeue (queueName : String)
  | clearQueue (queueName : String)
  | clear
  | all

/-- What an operation answers. The contents of the store are of type `γ`. -/
inductive StoreAnswer (α γ : Type)
  | done
  | dequeued (message : Option (QueueMessage α))
  | listed (contents : γ)

/-- The same answer, with the contents seen in another way. -/
def StoreAnswer.map {γ δ : Type} (f : γ → δ) : StoreAnswer α γ → StoreAnswer α δ
  | .done => .done
  | .dequeued message => .dequeued message
  | .listed contents => .listed (f contents)

/-- An operation on the store. -/
def InMemoryQueueStore.perform (store : InMemoryQueueStore α) :
    StoreOperation α → InMemoryQueueStore α × StoreAnswer α (List (QueueMessage α))
  | .enqueue message => (store.enqueue message, .done)
  | .dequeue queueName =>
    match store.dequeue fun item => item.queueName = queueName with
    | none => (store, .dequeued none)
    | some (message, rest) => (rest, .dequeued (some message))
  | .clearQueue queueName => (store.clearQueue queueName, .done)
  | .clear => (store.clear, .done)
  | .all => (store, .listed store.all)

/-- A queue for each name. -/
abbrev QueueFamily (α : Type) := String → List (QueueMessage α)

/-- The same operation on separate queues. -/
def QueueFamily.perform (queues : QueueFamily α) :
    StoreOperation α → QueueFamily α × StoreAnswer α (QueueFamily α)
  | .enqueue message => (push queues message.queueName message, .done)
  | .dequeue queueName => ((pop queues queueName).1, .dequeued (pop queues queueName).2)
  | .clearQueue queueName => (drop queues queueName, .done)
  | .clear => (fun _ => [], .done)
  | .all => (queues, .listed queues)

/-! ### Refinement -/

namespace InMemoryQueueStore

/-- The queues in a list of messages. -/
def queuesOf (messages : List (QueueMessage α)) : QueueFamily α :=
  project QueueMessage.queueName messages

/-- A dequeue is a pop of one queue. -/
theorem pop_queueOf (store : InMemoryQueueStore α) (queueName : String) :
    pop store.queueOf queueName =
      match store.dequeue fun item => item.queueName = queueName with
      | none => (store.queueOf, none)
      | some (message, rest) => (rest.queueOf, some message) := by
  cases hdequeue : store.dequeue fun item => item.queueName = queueName with
  | none =>
    have hother : ∀ message ∈ store.messages, message.queueName ≠ queueName :=
      fun message hmem => of_decide_eq_false (dequeue_eq_none_iff.mp hdequeue message hmem)
    exact pop_of_nil (project_eq_nil_iff.mpr hother)
  | some r =>
    obtain ⟨message, rest⟩ := r
    obtain ⟨older, newer, hmessages, hrest, holder, hname⟩ := dequeue_eq_some_iff.mp hdequeue
    obtain rfl : message.queueName = queueName := of_decide_eq_true hname
    have hpop : pop (queuesOf (older ++ message :: newer)) message.queueName
        = (queuesOf (older ++ newer), some message) :=
      pop_project_append_cons fun m hm => of_decide_eq_false (holder m hm)
    rw [← hmessages, ← hrest] at hpop
    exact hpop

theorem queueOf_clearQueue (store : InMemoryQueueStore α) (queueName : String) :
    (store.clearQueue queueName).queueOf = drop store.queueOf queueName :=
  project_filter_ne store.messages queueName

/-- One operation. -/
theorem perform_queueOf (store : InMemoryQueueStore α) (operation : StoreOperation α) :
    QueueFamily.perform store.queueOf operation
      = Prod.map queueOf (StoreAnswer.map queuesOf) (store.perform operation) := by
  cases operation with
  | enqueue message =>
    have hpush : push store.queueOf message.queueName message = (store.enqueue message).queueOf :=
      (project_append_singleton store.messages message).symm
    rw [QueueFamily.perform, hpush]
    rfl
  | dequeue queueName =>
    rw [QueueFamily.perform, pop_queueOf, perform]
    cases store.dequeue fun item => item.queueName = queueName with
    | none => rfl
    | some r => rfl
  | clearQueue queueName =>
    rw [QueueFamily.perform, ← queueOf_clearQueue]
    rfl
  | clear => rfl
  | all => rfl

/-- **One list behaves as independent queues**: a sequence of operations on the store answers what
the same operations answer on a family of queues, one for each name, and leaves the same messages in
each of them. -/
theorem independent (store : InMemoryQueueStore α) (operations : List (StoreOperation α)) :
    Run.answers QueueFamily.perform store.queueOf operations
      = Prod.map queueOf (List.map (StoreAnswer.map queuesOf))
          (Run.answers perform store operations) :=
  Run.answers_map perform_queueOf store operations

end InMemoryQueueStore

/-! ### One queue among the others -/

/-- The operation is about this queue. -/
def StoreOperation.concerns (queueName : String) : StoreOperation α → Bool
  | .enqueue message => message.queueName = queueName
  | .dequeue name => name = queueName
  | .clearQueue name => name = queueName
  | .clear => true
  | .all => false

theorem QueueFamily.perform_of_concerns {queues queues' : QueueFamily α} {queueName : String}
    {operation : StoreOperation α} (hown : operation.concerns queueName = true)
    (h : queues queueName = queues' queueName) :
    (QueueFamily.perform queues operation).1 queueName
      = (QueueFamily.perform queues' operation).1 queueName := by
  cases operation with
  | enqueue message =>
    obtain rfl : message.queueName = queueName := of_decide_eq_true hown
    simp only [QueueFamily.perform, push_self, h]
  | dequeue name =>
    obtain rfl : name = queueName := of_decide_eq_true hown
    simp only [QueueFamily.perform, pop_fst_self, h]
  | clearQueue name =>
    obtain rfl : name = queueName := of_decide_eq_true hown
    simp only [QueueFamily.perform, drop_self]
  | clear => rfl
  | all => exact h

theorem QueueFamily.perform_of_not_concerns {queues : QueueFamily α} {queueName : String}
    {operation : StoreOperation α} (hother : operation.concerns queueName = false) :
    (QueueFamily.perform queues operation).1 queueName = queues queueName := by
  cases operation with
  | enqueue message => exact push_of_ne (Ne.symm (of_decide_eq_false hother))
  | dequeue name => exact pop_fst_of_ne (Ne.symm (of_decide_eq_false hother))
  | clearQueue name => exact drop_of_ne (Ne.symm (of_decide_eq_false hother))
  | clear => exact Bool.noConfusion hother
  | all => rfl

/-- What a queue holds is what the operations on this queue have made of it, whatever operations on
other queues there were in between. -/
theorem InMemoryQueueStore.queueOf_answers (store : InMemoryQueueStore α) (queueName : String)
    (operations : List (StoreOperation α)) :
    (Run.answers perform store operations).1.queueOf queueName
      = (Run.answers perform store (operations.filter (·.concerns queueName))).1.queueOf
          queueName := by
  have hfamily : ∀ operations, (Run.answers perform store operations).1.queueOf queueName
      = (Run.answers QueueFamily.perform store.queueOf operations).1 queueName := by
    intro operations
    rw [Run.answers_map perform_queueOf]
    rfl
  rw [hfamily, hfamily]
  refine Run.answers_filter (f := fun queues : QueueFamily α => queues queueName) ?_ ?_ rfl
    operations
  · intro queues queues' operation hown h
    exact QueueFamily.perform_of_concerns hown h
  · intro queues operation hother
    exact QueueFamily.perform_of_not_concerns hother

/-! ### Senders and consumers -/

namespace Queue

theorem store_of_start (w : QueueWorld α) (queueName : String) :
    (Consumption.start w queueName).1.store = (w.store.perform (.dequeue queueName)).1 := by
  rw [Consumption.start, InMemoryQueueStore.perform]
  cases w.store.dequeue fun item => item.queueName = queueName with
  | none => rfl
  | some r => rfl

/-- A step does one operation on the store, or none. -/
theorem store_of_step {s t : State α} {a : Action α} (h : step s a = some t) :
    t.shared.store = s.shared.store ∨
      ∃ operation, t.shared.store = (s.shared.store.perform operation).1 := by
  rcases a with (_ | queueName) | ⟨i, input⟩
  · obtain ⟨w, k, hk, rfl⟩ := Interleave.step_invoke_eq_some.mp h
    obtain ⟨rfl, -⟩ := Prod.mk.inj (Option.some.inj hk)
    exact Or.inl rfl
  · obtain ⟨w, k, hk, rfl⟩ := Interleave.step_invoke_eq_some.mp h
    obtain ⟨rfl, -⟩ := Prod.mk.inj (Option.some.inj hk)
    exact Or.inr ⟨.dequeue queueName, store_of_start s.shared queueName⟩
  · obtain ⟨k, w, k', -, hact, rfl⟩ := Interleave.step_resume_eq_some.mp h
    rcases k with _ | call
    · rcases input with ⟨queueName, payload, now⟩ | _
      · obtain ⟨rfl, -⟩ := Prod.mk.inj (Option.some.inj hact)
        exact Or.inr ⟨.enqueue (s.shared.newMessage queueName payload now), rfl⟩
      · exact nomatch hact
    · rcases input with _ | ⟨succeeded, now⟩
      · exact nomatch hact
      · obtain ⟨r, hsettle, heq⟩ := Option.map_eq_some_iff.mp hact
        obtain ⟨rfl, -⟩ := Prod.mk.inj heq
        obtain ⟨message, -, ⟨-, hstore, -⟩ | ⟨-, hstore, -⟩⟩ := Consumption.settle_cases hsettle
        · exact Or.inl (congrArg QueueWorld.store hstore)
        · exact Or.inr ⟨.enqueue message, congrArg QueueWorld.store hstore⟩

/-- **Senders and consumers work on separate queues**: what the store holds at any time is what a
sequence of operations makes of a family of empty queues. -/
theorem Reachable.queueFamily {s : State α} (h : Reachable s) :
    ∃ operations, s.shared.store.queueOf
      = (Run.answers QueueFamily.perform (fun _ => []) operations).1 := by
  obtain ⟨operations, hstore⟩ := Run.Reachable.invariant (I := fun v : State α => ∃ operations,
    v.shared.store = (Run.answers InMemoryQueueStore.perform ⟨[]⟩ operations).1) h ⟨[], rfl⟩ <| by
      rintro u a v ⟨operations, hu⟩ _ hv
      rcases store_of_step hv with heq | ⟨operation, heq⟩
      · exact ⟨operations, heq.trans hu⟩
      · refine ⟨operations ++ [operation], ?_⟩
        rw [Run.answers_append_fst, ← hu]
        exact heq
  have hfamily := Run.answers_map InMemoryQueueStore.perform_queueOf ⟨[]⟩ operations
  exact ⟨operations, by rw [hstore]; exact (congrArg Prod.fst hfamily).symm⟩

end Queue

/-- The same for the application. -/
theorem System.Reachable.queueFamily {P : Platform} {config : AppConfig} {s : System.State}
    (h : System.Reachable P config s) :
    ∃ operations, s.shared.queue.store.queueOf
      = (Run.answers QueueFamily.perform (fun _ => []) operations).1 :=
  Queue.Reachable.queueFamily h.queue

/-! ### Debug routes -/

section DebugRoutes

variable (config : AppConfig) (store : InMemoryQueueStore α)

/-- `GET /debug/queues/order-created`. -/
def listOrderCreated : List (QueueMessage α) :=
  store.all.filter fun message => message.queueName = config.orderCreatedQueue

/-- `GET /debug/queues/order-status`. -/
def listOrderStatus : List (QueueMessage α) :=
  store.all.filter fun message => message.queueName = config.orderStatusQueue

/-- `DELETE /debug/queues/order-created`. -/
def clearOrderCreated : InMemoryQueueStore α := store.clearQueue config.orderCreatedQueue

/-- `DELETE /debug/queues/order-status`. -/
def clearOrderStatus : InMemoryQueueStore α := store.clearQueue config.orderStatusQueue

variable {config}

/-- **Each queue is cleared by itself**, if they have two names. -/
theorem clear_isolated (h : config.orderCreatedQueue ≠ config.orderStatusQueue) :
    (listOrderCreated config (clearOrderCreated config store) = [] ∧
      listOrderStatus config (clearOrderCreated config store) = listOrderStatus config store) ∧
    listOrderStatus config (clearOrderStatus config store) = [] ∧
      listOrderCreated config (clearOrderStatus config store) = listOrderCreated config store := by
  have hcreated := store.queueOf_clearQueue config.orderCreatedQueue
  have hstatus := store.queueOf_clearQueue config.orderStatusQueue
  exact ⟨⟨(congrFun hcreated _).trans drop_self, (congrFun hcreated _).trans (drop_of_ne h.symm)⟩,
    (congrFun hstatus _).trans drop_self, (congrFun hstatus _).trans (drop_of_ne h)⟩

end DebugRoutes

end OrderProcessing
