import OrderProcessing.Consumers
import OrderProcessing.ForMathlib.Embedding
import OrderProcessing.IndependentQueues
import OrderProcessing.Routes

/-!
# The server

Everything that `src/app.ts` puts together: the order routes, the debug routes and the pollers, over
the database, the service and the queue. `OrderProcessing.System` is the part of it that the service
and the consumers make up; here are also the requests that never reach the service, reads, the
routes that list and clear a queue, and the loops that call `consumeOne` until it finds nothing.

## What is deliberately absent

The probes `/healthz` and `/readyz`, which touch neither orders nor queues; requests that the router
matches with no route, among them those whose order id is longer than 100 units; and bodies of
requests to routes that ask for none. Which requests exceed a rate limit is chosen by the
environment.

## Main definitions

* `Server.Job` — a request that is being served, or a poll
* `Server.step`, `Server.Reachable`
* `Server.Job.response`

## Main results

* `Server.embedding`, `Server.exists_system_run` — a run of the server contains a run of the
  application with the same database, log and queue
* `Server.refines_application`
-/

namespace OrderProcessing

/-- What a server is started with. -/
structure Setup where
  platform : Platform
  /-- The format `date-time` of the validator. -/
  isDateTime : JsString → Bool
  config : LoadedConfig

/-- The part of the configuration that the queues and the service read. -/
abbrev Setup.app (S : Setup) : AppConfig := S.config.app

/-- The two queues of the application. -/
inductive QueueKind
  | orderCreated
  | orderStatus
  deriving DecidableEq

namespace Server

/-! ### Requests -/

/-- A request that the router has matched, with what the route reads of it. -/
inductive Route
  | createOrder (headers : Json) (body : Incoming)
  | getOrder (orderId : String)
  | updateStatus (orderId : String) (headers : Json) (body : Incoming)
  | listQueue (queue : QueueKind)
  | clearQueue (queue : QueueKind)
  | processQueue (queue : QueueKind)

/-- The limiter that a route names. -/
def Route.tier : Route → Tier
  | .createOrder _ _ => .orderCreate
  | .getOrder _ => .orderRead
  | .updateStatus _ _ _ => .orderStatus
  | .listQueue _ | .clearQueue _ | .processQueue _ => .global

/-- What makes the server start a job. -/
inductive Request
  /-- A request; if it exceeds its limit, with the rest of the window in milliseconds. -/
  | http (exceeded : Option ℚ) (route : Route)
  /-- The timer of a poller. -/
  | tick (queue : QueueKind)

/-- The response to a request that exceeds its limit. -/
def limited (S : Setup) (tier : Tier) (exceeded : Option ℚ) : Option Response :=
  if S.config.rateLimit.enabled then
    exceeded.map fun ttl =>
      ⟨429, .tooManyRequests (errorResponseBuilder S.platform S.config.rateLimit tier ttl)⟩
  else none

/-- What is done with a request before its handler: the body is read, body and headers are
validated, and the handler asks for the idempotency key. -/
def validate (S : Setup) (schema : Schema) (headers : Json) (body : Incoming) :
    Except Response (Body × String) :=
  match body with
  | .unreadable => .error ⟨400, .invalid⟩
  | .tooLarge => .error ⟨413, .invalid⟩
  | .unsupported => .error ⟨415, .invalid⟩
  | .parsed body =>
    if schema.accepts S.isDateTime body.json &&
        idempotencyHeaderSchema.accepts S.isDateTime headers then
      match acceptedKey headers with
      | some key => .ok (body, key)
      | none => .error ⟨400, .error "Idempotency-Key header is required"⟩
    else .error ⟨400, .invalid⟩

/-! ### Jobs -/

/-- Where a `getOrder` call is suspended. -/
inductive GetOrder.Pc
  | lookup
  | returned (result : Except ServiceError OrderRecord)

/-- A `getOrder` call. -/
structure GetOrder where
  orderId : String
  pc : GetOrder.Pc

/-- The one step of a `getOrder` call. -/
def GetOrder.step (orders : Collection) (call : GetOrder) (answer : Answer) : Option GetOrder :=
  match call.pc, answer with
  | .lookup, .ok =>
    match OrderRepository.findById orders call.orderId with
    | some order => some { call with pc := .returned (.ok order) }
    | none => some { call with pc := .returned (.error (.orderNotFound call.orderId)) }
  | .lookup, _ => some { call with pc := .returned (.error .storage) }
  | .returned _, _ => none

/-- The loop of a debug route or of a poll: it consumes until nothing is found. -/
structure Drain where
  queue : QueueKind
  /-- A debug route answers; a poller only logs. -/
  answers : Bool
  processed : List (QueueMessage Payload × String)
  /-- The `consumeOne` call that is running, or that was the last one. -/
  current : Task

/-- A request that is being served, or a poll. -/
inductive Job
  /-- The response is there, without a call of the service; a queue may have been cleared for it. -/
  | answered (response : Response) (cleared : List (QueueMessage Payload))
  | post (task : Task)
  | reading (call : GetOrder)
  | draining (drain : Drain)

/-- The error with which the handler of a task has ended. -/
def handlerError : Task → Option ServiceError
  | .consumeOrderCreated _ (some ⟨_, .returned (.error error)⟩) => some error
  | .consumeStatus _ (some ⟨_, _, .returned (.error error)⟩) => some error
  | _ => none

/-- The message that the `consumeOne` call of a task has returned. -/
def returnedMessage (task : Task) : Option (QueueMessage Payload × String) :=
  match task.consumption with
  | some ⟨_, .acknowledged message processedAt⟩ => some (message, processedAt)
  | _ => none

/-- What a debug route answers once its loop has ended; the error of a handler is not translated. -/
def Drain.response (drain : Drain) : Option Response :=
  match drain.current.consumption with
  | some ⟨_, .returnedUndefined⟩ => some ⟨200, .processed drain.processed⟩
  | some ⟨_, .failed _⟩ => (handlerError drain.current).map ServiceError.response
  | _ => none

/-- The response, once there is one. -/
def Job.response : Job → Option Response
  | .answered response _ => some response
  | .post (.postOrder ⟨_, _, .returned result⟩) => some (createOrderResponse result)
  | .post (.postStatus _ (some reply)) => some reply.response
  | .reading ⟨_, .returned result⟩ => some (getOrderResponse result)
  | .draining drain => if drain.answers then drain.response else none
  | _ => none

/-- The `consumeOne` of a queue. -/
def consume : QueueKind → System.Request
  | .orderCreated => .consumeOrderCreated
  | .orderStatus => .consumeStatus

/-- The configured name of a queue. -/
def queueName (S : Setup) : QueueKind → String
  | .orderCreated => S.app.orderCreatedQueue
  | .orderStatus => S.app.orderStatusQueue

/-- The routes that list a queue. -/
def listed (S : Setup) (store : InMemoryQueueStore Payload) :
    QueueKind → List (QueueMessage Payload)
  | .orderCreated => listOrderCreated S.app store
  | .orderStatus => listOrderStatus S.app store

/-- The routes that clear a queue. -/
def cleared (S : Setup) (store : InMemoryQueueStore Payload) :
    QueueKind → InMemoryQueueStore Payload
  | .orderCreated => clearOrderCreated S.app store
  | .orderStatus => clearOrderStatus S.app store

/-- What a job is resumed with. -/
inductive Input
  /-- The running task of the application takes a step. -/
  | task (input : System.Input)
  /-- The database answers a read. -/
  | find (answer : Answer)
  /-- A loop goes on. -/
  | next

/-- The database, the log and the queue, and all jobs. -/
abbrev State := Interleave.State System.World Job

/-- One atomic step of the server. -/
abbrev Action := Interleave.Action Request Input

/-- A task of the application starts. -/
def startTask (S : Setup) (w : System.World) (request : System.Request)
    (wrap : Task → Job) : Option (System.World × Job) :=
  (System.start S.platform S.app w request).map fun r => (r.1, wrap r.2)

/-- A request is served, up to the first `await`. -/
def serve (S : Setup) (w : System.World) : Route → Option (System.World × Job)
  | .createOrder headers body =>
    match validate S createOrderBodySchema headers body with
    | .error response => some (w, .answered response [])
    | .ok (body, key) =>
      match CreateOrderInput.cast body with
      | some payload => startTask S w (.postOrder payload key) .post
      | none => none
  | .getOrder orderId => some (w, .reading ⟨orderId, .lookup⟩)
  | .updateStatus orderId headers body =>
    match validate S statusUpdateBodySchema headers body with
    | .error response => some (w, .answered response [])
    | .ok (body, key) =>
      match StatusUpdateBody.cast body with
      | some update => startTask S w (.postStatus orderId ⟨update.status, update.atTime, key⟩) .post
      | none => none
  | .listQueue queue => some (w, .answered ⟨200, .messages (listed S w.queue.store queue)⟩ [])
  | .clearQueue queue =>
    some (w.withQueue (w.queue.withStore (cleared S w.queue.store queue)),
      .answered ⟨200, .cleared⟩ (listed S w.queue.store queue))
  | .processQueue queue =>
    startTask S w (consume queue) fun task => .draining ⟨queue, true, [], task⟩

/-- A request is checked and taken up, or a poller starts; there are pollers only if they are
configured. -/
def start (S : Setup) (w : System.World) : Request → Option (System.World × Job)
  | .http exceeded route =>
    match limited S route.tier exceeded with
    | some response => some (w, .answered response [])
    | none => serve S w route
  | .tick queue =>
    if S.config.autoConsumeStatusQueue then
      startTask S w (consume queue) fun task => .draining ⟨queue, false, [], task⟩
    else none

/-- One step of a job. -/
def act (S : Setup) (w : System.World) : Job → Input → Option (System.World × Job)
  | .post task, .task input =>
    (System.act S.platform S.app w task input).map fun r => (r.1, .post r.2)
  | .reading call, .find answer =>
    (call.step w.orders answer).map fun call => (w, .reading call)
  | .draining drain, .task input =>
    (System.act S.platform S.app w drain.current input).map fun r =>
      (r.1, .draining { drain with current := r.2 })
  | .draining drain, .next =>
    -- the loop body ends with the message that `consumeOne` has returned, and the next call starts
    (returnedMessage drain.current).bind fun message =>
      startTask S w (consume drain.queue) fun task =>
        .draining { drain with processed := drain.processed ++ [message], current := task }
  | _, _ => none

/-- One step of the server. -/
def step (S : Setup) : State → Action → Option State := Interleave.step (start S) (act S)

/-- An empty database and an empty queue. -/
def init : State := { shared := System.init.shared, activations := [] }

/-- Reachability from an empty database and an empty queue, whatever the environment does. -/
def Reachable (S : Setup) (s : State) : Prop :=
  Run.Reachable (step S) (Interleave.Action.Inputs fun _ => True) init s

/-! ### Inversion -/

/-- What a lookup that does not fail answers. -/
def GetOrder.result (orders : Collection) (orderId : String) : Except ServiceError OrderRecord :=
  match OrderRepository.findById orders orderId with
  | some order => .ok order
  | none => .error (.orderNotFound orderId)

theorem GetOrder.result_eq_ok_iff {orders : Collection} {orderId : String} {order : OrderRecord} :
    GetOrder.result orders orderId = .ok order ↔
      OrderRepository.findById orders orderId = some order := by
  rw [GetOrder.result]
  cases OrderRepository.findById orders orderId <;> simp

/-- The call after its step. -/
theorem GetOrder.of_step {orders : Collection} {call call' : GetOrder} {answer : Answer}
    (h : call.step orders answer = some call') : call.pc = .lookup ∧
      (call' = ⟨call.orderId, .returned (.error .storage)⟩ ∨
        call' = ⟨call.orderId, .returned (GetOrder.result orders call.orderId)⟩) := by
  obtain ⟨orderId, pc⟩ := call
  cases pc with
  | lookup =>
    refine ⟨rfl, ?_⟩
    cases answer with
    | ok =>
      refine Or.inr ?_
      simp only [step] at h
      rw [GetOrder.result]
      split at h
      · next hfound => rw [← Option.some.inj h, hfound]
      · next hfound => rw [← Option.some.inj h, hfound]
    | lost => exact Or.inl (Option.some.inj h).symm
    | landed => exact Or.inl (Option.some.inj h).symm
  | returned result => simp [step] at h

section Steps

variable {S : Setup} {w w' : System.World} {job job' : Job}

/-- The status codes of the responses that need no call of the service. -/
def AnsweredAtOnce (response : Response) : Prop :=
  response.statusCode ∈ [200, 400, 413, 415, 429]

/-- The ways a request is taken up. -/
inductive Starts (S : Setup) (w : System.World) : Request → System.World → Job → Prop
  | answered {request response} : AnsweredAtOnce response →
      Starts S w request w (.answered response [])
  | cleared {exceeded queue} : Starts S w (.http exceeded (.clearQueue queue))
      (w.withQueue (w.queue.withStore (w.queue.store.clearQueue (queueName S queue))))
      (.answered ⟨200, .cleared⟩ (w.queue.store.queueOf (queueName S queue)))
  | reading {exceeded orderId} :
      Starts S w (.http exceeded (.getOrder orderId)) w (.reading ⟨orderId, .lookup⟩)
  | createOrder {exceeded headers body payload key} :
      createOrderBodySchema.accepts S.isDateTime body.json = true →
      idempotencyHeaderSchema.accepts S.isDateTime headers = true →
      acceptedKey headers = some key → CreateOrderInput.cast body = some payload →
      Starts S w (.http exceeded (.createOrder headers (.parsed body))) w
        (.post (.postOrder ⟨payload, key, .lookup⟩))
  | updateStatus {exceeded orderId headers body update key w' task} :
      idempotencyHeaderSchema.accepts S.isDateTime headers = true →
      acceptedKey headers = some key → StatusUpdateBody.cast body = some update →
      System.start S.platform S.app w (.postStatus orderId ⟨update.status, update.atTime, key⟩)
        = some (w', task) →
      Starts S w (.http exceeded (.updateStatus orderId headers (.parsed body))) w' (.post task)
  | draining {request queue answers w' task} :
      System.start S.platform S.app w (consume queue) = some (w', task) →
      Starts S w request w' (.draining ⟨queue, answers, [], task⟩)

theorem of_startTask {request : System.Request} {wrap : Task → Job}
    (h : startTask S w request wrap = some (w', job)) :
    ∃ task, System.start S.platform S.app w request = some (w', task) ∧ job = wrap task := by
  obtain ⟨r, hr, heq⟩ := Option.map_eq_some_iff.mp h
  obtain ⟨rfl, rfl⟩ := Prod.mk.inj heq
  exact ⟨r.2, hr, rfl⟩

/-- An admitted request has a body and a header that its schemas accept. -/
theorem of_validate {schema : Schema} {headers : Json} {body : Incoming} {body' : Body}
    {key : String} (h : validate S schema headers body = .ok (body', key)) :
    body = .parsed body' ∧ schema.accepts S.isDateTime body'.json = true ∧
      idempotencyHeaderSchema.accepts S.isDateTime headers = true ∧
      acceptedKey headers = some key := by
  cases body with
  | parsed body =>
    simp only [validate] at h
    split at h
    · next haccepts =>
      obtain ⟨hbody, hheaders⟩ := Bool.and_eq_true_iff.mp haccepts
      split at h
      · next key' hkey =>
        obtain ⟨rfl, rfl⟩ := Prod.mk.inj (Except.ok.inj h)
        exact ⟨rfl, hbody, hheaders, hkey⟩
      · simp at h
    · simp at h
  | _ => simp [validate] at h

theorem statusCode_of_validate {schema : Schema} {headers : Json} {body : Incoming}
    {response : Response} (h : validate S schema headers body = .error response) :
    response.statusCode = body.refusal := by
  cases body with
  | parsed body =>
    simp only [validate] at h
    split at h
    · split at h
      · simp at h
      · exact congrArg Response.statusCode (Except.error.inj h).symm
    · exact congrArg Response.statusCode (Except.error.inj h).symm
  | _ => exact congrArg Response.statusCode (Except.error.inj h).symm

/-- A request that is not admitted is answered at once. -/
theorem answeredAtOnce_of_validate {schema : Schema} {headers : Json} {body : Incoming}
    {response : Response} (h : validate S schema headers body = .error response) :
    AnsweredAtOnce response := by
  rw [AnsweredAtOnce, statusCode_of_validate h]
  cases body <;> simp [Incoming.refusal]

theorem answeredAtOnce_of_limited {tier : Tier} {exceeded : Option ℚ} {response : Response}
    (h : limited S tier exceeded = some response) : AnsweredAtOnce response := by
  rw [limited] at h
  split at h
  · obtain ⟨ttl, -, rfl⟩ := Option.map_eq_some_iff.mp h
    simp [AnsweredAtOnce]
  · simp at h

theorem listed_eq (S : Setup) (store : InMemoryQueueStore Payload) (queue : QueueKind) :
    listed S store queue = store.queueOf (queueName S queue) := by
  cases queue <;> rfl

theorem cleared_eq (S : Setup) (store : InMemoryQueueStore Payload) (queue : QueueKind) :
    cleared S store queue = store.clearQueue (queueName S queue) := by
  cases queue <;> rfl

theorem serve_starts {exceeded : Option ℚ} {route : Route}
    (h : serve S w route = some (w', job)) : Starts S w (.http exceeded route) w' job := by
  cases route with
  | createOrder headers body =>
    simp only [serve] at h
    split at h
    · next response hvalidate =>
      obtain ⟨rfl, rfl⟩ := Prod.mk.inj (Option.some.inj h)
      exact .answered (answeredAtOnce_of_validate hvalidate)
    · next body' key hvalidate =>
      obtain ⟨rfl, hbody, hheaders, hkey⟩ := of_validate hvalidate
      split at h
      · next payload hcast =>
        obtain ⟨task, htask, rfl⟩ := of_startTask h
        obtain ⟨rfl, rfl⟩ := Prod.mk.inj (Option.some.inj htask)
        exact .createOrder hbody hheaders hkey hcast
      · simp at h
  | getOrder orderId =>
    obtain ⟨rfl, rfl⟩ := Prod.mk.inj (Option.some.inj h)
    exact .reading
  | updateStatus orderId headers body =>
    simp only [serve] at h
    split at h
    · next response hvalidate =>
      obtain ⟨rfl, rfl⟩ := Prod.mk.inj (Option.some.inj h)
      exact .answered (answeredAtOnce_of_validate hvalidate)
    · next body' key hvalidate =>
      obtain ⟨rfl, -, hheaders, hkey⟩ := of_validate hvalidate
      split at h
      · next update hcast =>
        obtain ⟨task, htask, rfl⟩ := of_startTask h
        exact .updateStatus hheaders hkey hcast htask
      · simp at h
  | listQueue queue =>
    obtain ⟨rfl, rfl⟩ := Prod.mk.inj (Option.some.inj h)
    exact .answered (List.mem_cons_self ..)
  | clearQueue queue =>
    obtain ⟨rfl, rfl⟩ := Prod.mk.inj (Option.some.inj h)
    rw [listed_eq, cleared_eq]
    exact .cleared
  | processQueue queue =>
    simp only [serve] at h
    obtain ⟨task, htask, rfl⟩ := of_startTask h
    exact .draining htask

theorem starts {request : Request} (h : start S w request = some (w', job)) :
    Starts S w request w' job := by
  cases request with
  | http exceeded route =>
    simp only [start] at h
    split at h
    · next response hlimited =>
      obtain ⟨rfl, rfl⟩ := Prod.mk.inj (Option.some.inj h)
      exact .answered (answeredAtOnce_of_limited hlimited)
    · exact serve_starts h
  | tick queue =>
    simp only [start] at h
    split at h
    · obtain ⟨task, htask, rfl⟩ := of_startTask h
      exact .draining htask
    · simp at h

/-- The ways a step of a job goes. -/
inductive Steps (S : Setup) (w : System.World) : Job → Input → System.World → Job → Prop
  | post {task input w' task'} : System.act S.platform S.app w task input = some (w', task') →
      Steps S w (.post task) (.task input) w' (.post task')
  | read {call answer call'} : call.step w.orders answer = some call' →
      Steps S w (.reading call) (.find answer) w (.reading call')
  | consume {drain input w' task'} :
      System.act S.platform S.app w drain.current input = some (w', task') →
      Steps S w (.draining drain) (.task input) w' (.draining { drain with current := task' })
  | next {drain message w' task'} : returnedMessage drain.current = some message →
      System.start S.platform S.app w (consume drain.queue) = some (w', task') →
      Steps S w (.draining drain) .next w'
        (.draining { drain with processed := drain.processed ++ [message], current := task' })

theorem steps {input : Input} (h : act S w job input = some (w', job')) :
    Steps S w job input w' job' := by
  unfold act at h
  split at h
  · obtain ⟨r, hr, heq⟩ := Option.map_eq_some_iff.mp h
    obtain ⟨rfl, rfl⟩ := Prod.mk.inj heq
    exact .post hr
  · obtain ⟨call', hcall, heq⟩ := Option.map_eq_some_iff.mp h
    obtain ⟨rfl, rfl⟩ := Prod.mk.inj heq
    exact .read hcall
  · obtain ⟨r, hr, heq⟩ := Option.map_eq_some_iff.mp h
    obtain ⟨rfl, rfl⟩ := Prod.mk.inj heq
    exact .consume hr
  · obtain ⟨message, hmessage, h⟩ := Option.bind_eq_some_iff.mp h
    obtain ⟨task, htask, rfl⟩ := of_startTask h
    exact .next hmessage htask
  · simp at h

/-- A task that has returned a message is a consumer that has acknowledged it. -/
theorem consumption_of_returnedMessage {task : Task} {message : QueueMessage Payload × String}
    (h : returnedMessage task = some message) :
    ∃ consumption, task.consumption = some consumption ∧
      consumption.pc = .acknowledged message.1 message.2 := by
  simp only [returnedMessage] at h
  split at h
  · next hconsumption =>
    rw [← Option.some.inj h]
    exact ⟨_, hconsumption, rfl⟩
  · simp at h

end Steps

/-! ### A run of the application -/

/-- The task of the application that a job runs. -/
def task : Job → Option Task
  | .post task => some task
  | .draining drain => some drain.current
  | .answered _ _ | .reading _ => none

section Embedding

variable {S : Setup}

theorem start_consume (S : Setup) (w : System.World) (queue : QueueKind) :
    ∃ task, System.start S.platform S.app w (consume queue)
      = some (w.withQueue (Consumption.start w.queue (queueName S queue)).1, task) := by
  cases queue <;> exact ⟨_, rfl⟩

/-- A queue is cleared by consumers that never settle. -/
theorem spawns_clearQueue {p : System.Input → Prop} (queue : QueueKind) (w : System.World) :
    Interleave.Spawns (System.start S.platform S.app) (System.act S.platform S.app) p w
      (w.withQueue (w.queue.withStore (w.queue.store.clearQueue (queueName S queue)))) := by
  generalize hqueue : w.queue.store.queueOf (queueName S queue) = messages
  induction messages generalizing w with
  | nil =>
    have hclear : w.queue.store.clearQueue (queueName S queue) = w.queue.store := by
      refine congrArg InMemoryQueueStore.mk (List.filter_eq_self.mpr fun message hmem => ?_)
      have hother := List.filter_eq_nil_iff.mp hqueue message hmem
      simpa using hother
    rw [hclear]
    exact .refl w
  | cons message rest ih =>
    obtain ⟨store, hdequeue, -, hrest, hothers, -⟩ :=
      InMemoryQueueStore.dequeue_of_queueOf_cons hqueue
    obtain ⟨task, htask⟩ := start_consume S w queue
    have hstart : (Consumption.start w.queue (queueName S queue)).1 = w.queue.withStore store := by
      simp only [Consumption.start, hdequeue]
    rw [hstart] at htask
    have hcleared := ih (w.withQueue (w.queue.withStore store)) hrest
    have hstore : store.clearQueue (queueName S queue)
        = w.queue.store.clearQueue (queueName S queue) := congrArg InMemoryQueueStore.mk hothers
    refine (Interleave.Spawns.of_start htask).trans ?_
    rw [← hstore]
    exact hcleared

/-- The condition on the inputs of the application. -/
def Input.Within (p : System.Input → Prop) : Input → Prop
  | .task input => p input
  | .find _ | .next => True

/-- How each step of the server is explained by the application. -/
theorem embedding (S : Setup) (p : System.Input → Prop) :
    Interleave.Embedding (start S) (act S) (Input.Within p) (System.start S.platform S.app)
      (System.act S.platform S.app) p (fun _ => True) id task where
  start := by
    intro w request w' job _ h
    cases starts h with
    | answered => exact Or.inr ⟨rfl, .refl w⟩
    | @cleared _ queue => exact Or.inr ⟨rfl, spawns_clearQueue queue w⟩
    | reading => exact Or.inr ⟨rfl, .refl w⟩
    | @createOrder _ _ _ payload key =>
      exact Or.inl ⟨.postOrder payload key, _, rfl, rfl⟩
    | updateStatus _ _ _ htask => exact Or.inl ⟨_, _, htask, rfl⟩
    | draining htask => exact Or.inl ⟨_, _, htask, rfl⟩
  act := by
    intro w job input w' job' _ hp h
    cases steps h with
    | post htask => exact Or.inl ⟨_, _, _, hp, rfl, htask, rfl⟩
    | read => exact Or.inr (Or.inr ⟨rfl, rfl⟩)
    | consume htask => exact Or.inl ⟨_, _, _, hp, rfl, htask, rfl⟩
    | next _ htask => exact Or.inr (Or.inl ⟨_, _, htask, rfl⟩)

/-- **A run of the server contains a run of the application**, with the same database, log and
queue, and with the task of every job. -/
theorem exists_system_run {p : System.Input → Prop} {s t : State} {s' : System.State}
    (hs : Interleave.Embedded id task s s')
    (h : Run.Reachable (step S) (Interleave.Action.Inputs (Input.Within p)) s t) :
    ∃ t', Run.Reachable (System.step S.platform S.app) (Interleave.Action.Inputs p) s' t' ∧
      Interleave.Embedded id task t t' :=
  (embedding S p).reachable (fun _ _ => trivial) hs h

/-- Every run is one without a condition on the inputs. -/
theorem within_true_of_run {s t : State}
    (h : Run.Reachable (step S) (Interleave.Action.Inputs fun _ => True) s t) :
    Run.Reachable (step S) (Interleave.Action.Inputs (Input.Within fun _ => True)) s t := by
  refine h.mono fun a _ => ?_
  cases a with
  | invoke => trivial
  | resume i input => cases input <;> trivial

/-- The same without a condition on the inputs. -/
theorem exists_system_run_of_run {s t : State} {s' : System.State}
    (hs : Interleave.Embedded id task s s')
    (h : Run.Reachable (step S) (Interleave.Action.Inputs fun _ => True) s t) :
    ∃ t', Run.Reachable (System.step S.platform S.app) (Interleave.Action.Inputs fun _ => True)
      s' t' ∧ Interleave.Embedded id task t t' :=
  exists_system_run hs (within_true_of_run h)

theorem Reachable.system {s : State} (h : Reachable S s) :
    ∃ s', System.Reachable S.platform S.app s' ∧ Interleave.Embedded id task s s' :=
  exists_system_run_of_run ⟨rfl, .nil⟩ h

/-- The documents only grow along a run. -/
theorem extends_of_run {s t : State} (h : Reachable S s)
    (hrun : Run.Reachable (step S) (Interleave.Action.Inputs fun _ => True) s t) :
    s.shared.orders.Extends t.shared.orders := by
  obtain ⟨s', hs', hembedded⟩ := h.system
  obtain ⟨t', ht', hembedded'⟩ := exists_system_run_of_run hembedded hrun
  have hshared : s'.shared = s.shared := hembedded.shared
  have hshared' : t'.shared = t.shared := hembedded'.shared
  rw [← hshared, ← hshared']
  exact System.extends_of_run hs' ht'

end Embedding

end Server

/-! ### A server to run -/

/-- The reference platform, with a validator that takes every string for a timestamp. -/
def Setup.reference : Setup where
  platform := .reference
  isDateTime := fun _ => true
  config := (loadConfig sampleEnvironment).get rfl

theorem Setup.reference_queues :
    Setup.reference.app.orderCreatedQueue ≠ Setup.reference.app.orderStatusQueue := by decide

/-- The headers of a request with this key. -/
def sampleHeaders (idempotencyKey : String) : Json :=
  .obj [(js "idempotency-key", .str (js idempotencyKey))]

/-- The body of a create request. -/
def sampleBody (totalAmount : ℚ) : Body :=
  ⟨(samplePayload totalAmount).json, (samplePayload totalAmount).distinct⟩

/-- The body of a status request. -/
def sampleStatusBody (status atTime : String) : Body :=
  ⟨.obj [(js "status", .str (js status)), (js "at", .str (js atTime))], rfl⟩

namespace Server

/-- A `POST /orders` that starts as number `i`, is not disturbed and creates the order. -/
def creating (i : ℕ) (idempotencyKey uuid now : String) : List Action :=
  [.invoke (.http none (.createOrder (sampleHeaders idempotencyKey) (.parsed (sampleBody 10)))),
    .resume i (.task (.call (.find .ok))), .resume i (.task (.call (.insertOne uuid now .ok))),
    .resume i (.task (.call (.sendMessage true now)))]

/-- A status request that starts as number `i` and is not disturbed. -/
def updating (i : ℕ) (orderId eventId status atTime now : String) : List Action :=
  [.invoke (.http none (.updateStatus orderId (sampleHeaders eventId)
      (.parsed (sampleStatusBody status atTime)))),
    .resume i (.task (.call (.find .ok))), .resume i (.task (.settle now))]

/-- Job `i` takes an order-created message through Delivery and acknowledges it. -/
def shipping (i : ℕ) (now : String) : List Action :=
  [.resume i (.task (.call (.find .ok))),
    .resume i (.task (.call (.fetch
      (.response 200 (some (.obj [(js "shipmentId", .str (js "s-1"))]))) now))),
    .resume i (.task (.call (.updateOne now .ok))), .resume i (.task (.settle now))]

/-! ### Refinement -/

section Refinement

variable {S : Setup} {s t : State}

/-- A run of the application that shows what a run of the server does, from its first state to its
last. -/
structure Refines (S : Setup) (s t : State) (s' t' : System.State) : Prop where
  reachable : System.Reachable S.platform S.app s'
  run : Run.Reachable (System.step S.platform S.app) (Interleave.Action.Inputs fun _ => True) s' t'
  before : Interleave.Embedded id task s s'
  after : Interleave.Embedded id task t t'

/-- **The server refines the application**: whatever it does from a reachable state on, with
requests that are refused, reads, cleared queues and loops, the application can do. -/
theorem refines_application (h : Reachable S s)
    (hrun : Run.Reachable (step S) (Interleave.Action.Inputs fun _ => True) s t) :
    ∃ s' t', Refines S s t s' t' := by
  obtain ⟨s', hs', hembedded⟩ := h.system
  obtain ⟨t', ht', hembedded'⟩ := exists_system_run_of_run hembedded hrun
  exact ⟨s', t', hs', ht', hembedded, hembedded'⟩

/-- A queue is cleared and listed, and a request is refused. -/
def clearing : List Action :=
  [.invoke (.http none (.clearQueue .orderCreated)),
    .invoke (.http none (.listQueue .orderCreated)),
    .invoke (.http none (.createOrder (sampleHeaders " ") .unsupported))]

theorem refines_application_clearing :
    ∃ s t s' t', Run.run (step .reference) init (creating 0 "key" "id" "2024-05-01T10:00:00.000Z")
        = some s ∧ Run.run (step .reference) s clearing = some t ∧
      s.shared.queue.store.messages.length = 1 ∧ t.shared.queue.store.messages.length = 0 ∧
      Refines .reference s t s' t' := by
  have hrun : ((Run.run (step .reference) init
      (creating 0 "key" "id" "2024-05-01T10:00:00.000Z")).bind fun s =>
        (Run.run (step .reference) s clearing).map fun t =>
          (s.shared.queue.store.messages.length, t.shared.queue.store.messages.length))
      = some (1, 0) := by decide +kernel
  obtain ⟨s, hs, hrest⟩ := Option.bind_eq_some_iff.mp hrun
  obtain ⟨t, ht, hobs⟩ := Option.map_eq_some_iff.mp hrest
  obtain ⟨hbefore, hafter⟩ := Prod.mk.inj hobs
  obtain ⟨s', t', hrefines⟩ := refines_application (S := .reference)
    ⟨_, fun a _ => a.inputs_true, hs⟩ ⟨clearing, fun a _ => a.inputs_true, ht⟩
  exact ⟨s, t, s', t', hs, ht, hbefore, hafter, hrefines⟩

end Refinement

end Server

end OrderProcessing
