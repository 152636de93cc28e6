import OrderProcessing.Deliveries

/-!
# Restarts

The database outlives the process, the queue does not: `src/plugins/services.ts` makes an empty
`InMemoryQueueStore` each time the application is built. So the service lives in a sequence of
processes over one database, and what a process was doing when it ended is never resumed.

For safety this is nothing new. A process that ends is explained by one that clears both queues and
then leaves its jobs alone (`Restarts.refines_server`), and what was answered before a restart holds
after it. But the messages were the only thing that led from an order to Delivery: an order that is
stored when the process ends is never shipped by the next one.

## What is deliberately absent

All processes have one configuration, and one ends before the next starts.

## Main definitions

* `Restarts.step`, `Restarts.Reachable`
* `Restarts.Abandoned` — an order that no message and no job of the running process is about

## Main results

* `Restarts.refines_server`
* `Restarts.restarts_keep_keys`, `Restarts.restarts_keep_orders`
* `Restarts.restart_forgets`, `Restarts.clearing_forgets`
-/

namespace OrderProcessing

open OrderRepository

/-! ### An order that is left alone -/

namespace System

variable {P : Platform} {config : AppConfig} {w w' w'' : World} {task task' : Task}
  {orderId : String}

/-- The order is stored with the same shipment as before, and Delivery was not asked about it. -/
structure LeavesAlone (orderId : String) (w w' : World) : Prop where
  requests : w'.service.requestsFor orderId = w.service.requestsFor orderId
  shipment : ∀ o, findById w.orders orderId = some o →
    ∃ o', findById w'.orders orderId = some o' ∧ o'.shipment = o.shipment

theorem LeavesAlone.of_service (h : w'.service = w.service) : LeavesAlone orderId w w' := by
  refine ⟨by rw [h], fun o ho => ⟨o, ?_, rfl⟩⟩
  rw [World.orders, h]
  exact ho

theorem LeavesAlone.trans (h : LeavesAlone orderId w w') (h' : LeavesAlone orderId w' w'') :
    LeavesAlone orderId w w'' := by
  refine ⟨h'.requests.trans h.requests, fun o ho => ?_⟩
  obtain ⟨o', ho', hsame⟩ := h.shipment o ho
  obtain ⟨o'', ho'', hsame'⟩ := h'.shipment o' ho'
  exact ⟨o'', ho'', hsame'.trans hsame⟩

/-- A task that has no message of the order in hand leaves the order alone. -/
theorem Steps.leavesAlone {input : Input}
    (hqueues : config.orderCreatedQueue ≠ config.orderStatusQueue)
    (h : Steps P config w task input w' task') (hkind : TaskKind config task)
    (hprep : (serviceCall task).Prepared P w.orders) (hnone : taskTokens orderId task = 0) :
    LeavesAlone orderId w w' := by
  have hother : ∀ {consumption handler},
      task = .consumeOrderCreated consumption (some handler) → handler.completed = false →
      handler.orderId ≠ orderId := by
    rintro consumption handler rfl hrunning rfl
    rw [taskTokens_of_running hqueues hkind hrunning] at hnone
    exact absurd hnone one_ne_zero
  constructor
  · rcases h.requests with ⟨hpc, -, hrequests⟩ | ⟨hsame, -⟩
    · rw [hrequests]
      refine if_neg fun hid => hother rfl ?_ ?_
      · rw [OrderCreatedEvent.completed, hpc]
      · simp only [serviceCall, Call.Prepared, OrderCreatedEvent.Prepared, hpc] at hprep
        exact hprep.1.symm.trans hid
    · exact hsame orderId
  · intro o ho
    obtain ⟨o', ho', hsame | ⟨consumption, handler, order, metadata, htask, hpc, hid, -⟩⟩ :=
      h.shipment hprep ho
    · exact ⟨o', ho', hsame⟩
    · refine absurd hid (hother htask ?_)
      rw [OrderCreatedEvent.completed, hpc]

end System

namespace Restarts

/-- The world, and the number of the process that is running. -/
structure World where
  world : System.World
  process : ℕ

/-- A job of a process; the start of a process has nothing to do. -/
structure Job where
  process : ℕ
  job : Option Server.Job

/-- A request to the running process, or the start of the next one. -/
inductive Request
  | request (request : Server.Request)
  | restart

/-- The database and the queue, and the jobs of all processes. -/
abbrev State := Interleave.State World Job

/-- One atomic step of the service. -/
abbrev Action := Interleave.Action Request Server.Input

/-- A new process finds the database as it is, and an empty queue. -/
def World.restart (w : World) : World where
  world := w.world.withQueue (w.world.queue.withStore ⟨[]⟩)
  process := w.process + 1

/-- A request starts a job of the running process. -/
def start (S : Setup) (w : World) : Request → Option (World × Job)
  | .request request =>
    (Server.start S w.world request).map fun r => ({ w with world := r.1 }, ⟨w.process, some r.2⟩)
  | .restart => some (w.restart, ⟨w.process + 1, none⟩)

/-- Only the jobs of the running process take steps. -/
def act (S : Setup) (w : World) (k : Job) (input : Server.Input) : Option (World × Job) :=
  if k.process = w.process then
    k.job.bind fun job => (Server.act S w.world job input).map fun r =>
      ({ w with world := r.1 }, { k with job := some r.2 })
  else none

/-- One step of the service. -/
def step (S : Setup) : State → Action → Option State := Interleave.step (start S) (act S)

/-- The first process, with an empty database. -/
def init : State := { shared := ⟨Server.init.shared, 0⟩, activations := [] }

/-- Runs of the service, whatever the environment does, through any number of processes. -/
abbrev Leads (S : Setup) (s t : State) : Prop :=
  Run.Reachable (step S) (Interleave.Action.Inputs fun _ => True) s t

/-- Reachability from the empty database, whatever the environment does. -/
def Reachable (S : Setup) (s : State) : Prop := Leads S init s

/-! ### Inversion -/

section Inversion

variable {S : Setup} {w w' : World} {k k' : Job}

/-- How a job starts. -/
inductive Starts (S : Setup) (w : World) : Request → World → Job → Prop
  | request {request world job} : Server.start S w.world request = some (world, job) →
      Starts S w (.request request) ⟨world, w.process⟩ ⟨w.process, some job⟩
  | restart : Starts S w .restart w.restart ⟨w.process + 1, none⟩

theorem starts {request : Request} (h : start S w request = some (w', k)) :
    Starts S w request w' k := by
  cases request with
  | request request =>
    obtain ⟨⟨world, job⟩, hstart, heq⟩ := Option.map_eq_some_iff.mp h
    obtain ⟨rfl, rfl⟩ := Prod.mk.inj heq
    exact .request hstart
  | restart =>
    obtain ⟨rfl, rfl⟩ := Prod.mk.inj (Option.some.inj h)
    exact .restart

/-- A job of the running process takes a step of the server. -/
inductive Steps (S : Setup) (w : World) : Job → Server.Input → World → Job → Prop
  | mk {job input world job'} : Server.act S w.world job input = some (world, job') →
      Steps S w ⟨w.process, some job⟩ input ⟨world, w.process⟩ ⟨w.process, some job'⟩

theorem steps {input : Server.Input} (h : act S w k input = some (w', k')) :
    Steps S w k input w' k' := by
  obtain ⟨process, job⟩ := k
  simp only [act] at h
  split at h
  · next hprocess =>
    subst hprocess
    obtain ⟨job, rfl, h⟩ := Option.bind_eq_some_iff.mp h
    obtain ⟨⟨world, job'⟩, hact, heq⟩ := Option.map_eq_some_iff.mp h
    obtain ⟨rfl, rfl⟩ := Prod.mk.inj heq
    exact .mk hact
  · simp at h

end Inversion

/-! ### A service to run -/

/-- What the running process does. -/
def serving (as : List Server.Action) : List Action :=
  as.map fun
    | .invoke request => .invoke (.request request)
    | .resume i input => .resume i input

/-- An order is created, and a loop has its message in hand when the process ends. -/
def interrupted : List Action :=
  serving (Server.creating 0 "key" "id" "2024-05-01T10:00:00.000Z" ++
    [.invoke (.http none (.processQueue .orderCreated)), .resume 1 (.task (.call (.find .ok)))])

/-- The next process gets the request again, and the queue is processed again. -/
def resumed : List Action :=
  serving [.invoke (.http none (.createOrder (sampleHeaders "key") (.parsed (sampleBody 10)))),
    .resume 3 (.task (.call (.find .ok))), .invoke (.http none (.processQueue .orderCreated))]

/-- The status codes of the responses. -/
def statusCodes (s : State) : List (Option ℕ) :=
  s.activations.map fun k => (k.job.bind Server.Job.response).map Response.statusCode

/-! ### A process that clears its queues -/

section Embedding

variable {S : Setup} {s t : State}

/-- There is no third queue. -/
theorem clearQueue_clearQueue {w : System.World} (hkinds : w.Kinds S.app) :
    (w.queue.store.clearQueue S.app.orderCreatedQueue).clearQueue S.app.orderStatusQueue
      = ⟨[]⟩ := by
  refine congrArg InMemoryQueueStore.mk (List.filter_eq_nil_iff.mpr fun message hmem => ?_)
  obtain ⟨hstored, hcreated⟩ := List.mem_filter.mp hmem
  have hkind := hkinds message hstored
  cases hpayload : message.payload with
  | orderCreated payload =>
    rw [System.MessageKind, hpayload] at hkind
    simp [hkind] at hcreated
  | statusUpdate orderId event =>
    rw [System.MessageKind, hpayload] at hkind
    simp [hkind]

theorem start_clearQueue (S : Setup) (w : System.World) (queue : QueueKind) :
    Server.start S w (.http none (.clearQueue queue))
      = some (w.withQueue (w.queue.withStore (w.queue.store.clearQueue (Server.queueName S queue))),
        .answered ⟨200, .cleared⟩ (Server.listed S w.queue.store queue)) := by
  have hlimited : Server.limited S .global none = none := by
    rw [Server.limited]
    split <;> rfl
  simp only [Server.start, Server.Route.tier, hlimited, Server.serve, Server.cleared_eq]

/-- A new process finds what is left when both queues are cleared. -/
theorem spawns_restart {w : World} (hkinds : w.world.Kinds S.app) :
    Interleave.Spawns (Server.start S) (Server.act S) (fun _ => True) w.world w.restart.world := by
  have hfirst := start_clearQueue S w.world .orderCreated
  have hsecond := start_clearQueue S (w.world.withQueue (w.world.queue.withStore
    (w.world.queue.store.clearQueue S.app.orderCreatedQueue))) .orderStatus
  have hempty := clearQueue_clearQueue hkinds
  rw [World.restart, ← hempty]
  exact (Interleave.Spawns.of_start hfirst).trans (.of_start hsecond)

/-- How each step of the service is explained by one process. -/
theorem embedding (S : Setup) :
    Interleave.Embedding (start S) (act S) (fun _ => True) (Server.start S) (Server.act S)
      (fun _ => True) (System.World.Kinds S.app) World.world Job.job where
  start := by
    intro w request w' k hkinds h
    cases starts h with
    | request hstart => exact Or.inl ⟨_, _, hstart, rfl⟩
    | restart => exact Or.inr ⟨rfl, spawns_restart hkinds⟩
  act := by
    intro w k input w' k' _ _ h
    obtain ⟨hact⟩ := steps h
    exact Or.inl ⟨_, input, _, trivial, rfl, hact, rfl⟩

/-- Every message that waits is in the queue of its kind. -/
theorem kinds_of_server {s' : Server.State} (h : Server.Reachable S s') :
    s'.shared.Kinds S.app := by
  obtain ⟨s'', hs'', hembedded⟩ := h.system
  have hshared : s''.shared = s'.shared := hembedded.shared
  rw [← hshared]
  exact hs''.kinds.1

/-- **A run through any number of processes contains a run of one**, with the same database, log and
queue, and with the jobs of all processes. -/
theorem exists_server_run {s' : Server.State} (hs' : Server.Reachable S s')
    (hs : Interleave.Embedded World.world Job.job s s') (h : Leads S s t) :
    ∃ t', Server.Leads S s' t' ∧ Interleave.Embedded World.world Job.job t t' :=
  (embedding S).reachable (fun _ hu => kinds_of_server (Run.Reachable.trans hs' hu)) hs h

theorem Reachable.server (h : Reachable S s) :
    ∃ s', Server.Reachable S s' ∧ Interleave.Embedded World.world Job.job s s' :=
  exists_server_run (.refl _) ⟨rfl, .nil⟩ h

/-- A run of one process that shows what a run through several does, from its first state to its
last. -/
structure Refines (S : Setup) (s t : State) (s' t' : Server.State) : Prop where
  reachable : Server.Reachable S s'
  run : Server.Leads S s' t'
  before : Interleave.Embedded World.world Job.job s s'
  after : Interleave.Embedded World.world Job.job t t'

/-- **What the service does over several processes, one process can do.** -/
theorem refines_server (h : Reachable S s) (hrun : Leads S s t) : ∃ s' t', Refines S s t s' t' := by
  obtain ⟨s', hs', hembedded⟩ := h.server
  obtain ⟨t', ht', hembedded'⟩ := exists_server_run hs' hembedded hrun
  exact ⟨s', t', hs', ht', hembedded, hembedded'⟩

theorem refines_server_interrupted :
    ∃ s t s' t', Run.run (step .reference) init interrupted = some s ∧
      Run.run (step .reference) s (.invoke .restart :: resumed) = some t ∧
      statusCodes t = [some 201, none, none, some 200, some 200] ∧
      Refines .reference s t s' t' := by
  have hrun : ((Run.run (step .reference) init interrupted).bind fun s =>
      (Run.run (step .reference) s (.invoke .restart :: resumed)).map statusCodes)
      = some [some 201, none, none, some 200, some 200] := by decide +kernel
  obtain ⟨s, hs, hrest⟩ := Option.bind_eq_some_iff.mp hrun
  obtain ⟨t, ht, hcodes⟩ := Option.map_eq_some_iff.mp hrest
  obtain ⟨s', t', hrefines⟩ := refines_server (S := .reference)
    ⟨interrupted, fun a _ => a.inputs_true, hs⟩
    ⟨.invoke .restart :: resumed, fun a _ => a.inputs_true, ht⟩
  exact ⟨s, t, s', t', hs, ht, hcodes, hrefines⟩

end Embedding

/-! ### What was answered -/

section Answers

variable {S : Setup} {s t : State}

/-- The request with this number was answered with an order, by whatever process. -/
def AnsweredWith (s : State) (i : ℕ) (call : CreateOrder) (statusCode : ℕ) (orderId : String) :
    Prop :=
  ∃ process status, s.activations[i]? = some ⟨process, some (.post (.postOrder call))⟩ ∧
    (Server.Job.post (.postOrder call)).response = some ⟨statusCode, .order orderId status⟩

theorem AnsweredWith.shown {i : ℕ} {call : CreateOrder} {statusCode : ℕ} {orderId : String}
    (h : AnsweredWith s i call statusCode orderId) :
    Interleave.shown Job.job s.activations i = some (.post (.postOrder call)) := by
  obtain ⟨process, status, hi, -⟩ := h
  exact Interleave.shown_eq_some_iff.mpr ⟨_, hi, rfl⟩

/-- The one process has answered it too. -/
theorem AnsweredWith.server {s' : Server.State} {number : ℕ → ℕ}
    (hnumber : Interleave.EmbedsAt Job.job s.activations s'.activations number) {i : ℕ}
    {call : CreateOrder} {statusCode : ℕ} {orderId : String}
    (h : AnsweredWith s i call statusCode orderId) :
    Server.AnsweredWith s' (number i) call statusCode orderId := by
  have hi := hnumber.shows h.shown
  obtain ⟨process, status, -, hresponse⟩ := h
  exact ⟨hi, status, hresponse⟩

/-- What the create requests are answered, key by key, in all processes together. -/
structure KeysKept (P : Platform) (s : State) : Prop where
  /-- The order that is named is stored, with the key and the hash of the request. -/
  stored : ∀ {i call statusCode orderId}, AnsweredWith s i call statusCode orderId →
    ∃ o ∈ s.shared.world.orders.docs, o.id = orderId ∧ o.requestId = call.idempotencyKey ∧
      o.payloadHash = hashPayload P call.payload.json
  /-- Two requests with one key have named one order, and their payloads have one hash. -/
  same : ∀ {i j call call' statusCode statusCode' orderId orderId'},
    AnsweredWith s i call statusCode orderId → AnsweredWith s j call' statusCode' orderId' →
    call.idempotencyKey = call'.idempotencyKey → orderId = orderId' ∧
      hashPayload P call.payload.json = hashPayload P call'.payload.json
  /-- At most one of them was answered 201. -/
  created : ∀ {i j call call' orderId orderId'}, AnsweredWith s i call 201 orderId →
    AnsweredWith s j call' 201 orderId' → call.idempotencyKey = call'.idempotencyKey → i = j

/-- **Keys hold across restarts.** A request is recognised as a replay, or as one with another
payload, also by a process that has not seen the first one. -/
theorem restarts_keep_keys (h : Reachable S s) : KeysKept S.platform s := by
  obtain ⟨s', hs', hshared, number, hnumber⟩ := h.server
  have hshared : s'.shared = s.shared.world := hshared
  refine ⟨fun hi => ?_, fun hi hj hkeys => ?_, fun hi hj hkeys => ?_⟩
  · rw [← hshared]
    exact hs'.exists_stored (hi.server hnumber)
  · exact hs'.answers_same (hi.server hnumber) (hj.server hnumber) hkeys
  · exact hnumber.injective hi.shown hj.shown
      (hs'.created_unique (hi.server hnumber) (hj.server hnumber) hkeys)

theorem restarts_keep_keys_resumed :
    ∃ s, Run.run (step .reference) init (interrupted ++ .invoke .restart :: resumed) = some s ∧
      statusCodes s = [some 201, none, none, some 200, some 200] ∧ KeysKept .reference s := by
  have hrun : (Run.run (step .reference) init
      (interrupted ++ .invoke .restart :: resumed)).map statusCodes
      = some [some 201, none, none, some 200, some 200] := by decide +kernel
  obtain ⟨s, hs, hcodes⟩ := Option.map_eq_some_iff.mp hrun
  exact ⟨s, hs, hcodes, restarts_keep_keys (S := .reference) ⟨_, fun a _ => a.inputs_true, hs⟩⟩

/-- **What a client was shown stays**, whichever process has shown it. -/
theorem restarts_keep_orders (hqueues : S.app.orderCreatedQueue ≠ S.app.orderStatusQueue)
    (h : Reachable S s) {k : Job} (hk : k ∈ s.activations) {job : Server.Job}
    (hjob : k.job = some job) {order : OrderRecord} (horder : job.snapshot = some order)
    (hrun : Leads S s t) : ∃ order', findById t.shared.world.orders order.id = some order' ∧
      Server.Continues order order' := by
  obtain ⟨s', hs', hembedded⟩ := h.server
  obtain ⟨t', ht', hembedded'⟩ := exists_server_run hs' hembedded hrun
  have hshared : t'.shared = t.shared.world := hembedded'.shared
  obtain ⟨u, hu, hus, hstored⟩ := hs'.exists_snapshot (hembedded.embeds.mem hk hjob) horder
  rw [← hshared]
  exact Server.continues_of_leads hqueues hu (hus.trans ht') hstored

theorem restarts_keep_orders_resumed :
    ∃ s t k job order order', Run.run (step .reference) init interrupted = some s ∧
      Run.run (step .reference) s (.invoke .restart :: resumed) = some t ∧
      s.activations[0]? = some k ∧ k.job = some job ∧ job.snapshot = some order ∧
      findById t.shared.world.orders order.id = some order' ∧ Server.Continues order order' := by
  have hrun : ((Run.run (step .reference) init interrupted).bind fun s =>
      (Run.run (step .reference) s (.invoke .restart :: resumed)).map fun _ =>
        (s.activations[0]?.bind Job.job).bind fun job => job.snapshot.map OrderRecord.id)
      = some (some "id") := by decide +kernel
  obtain ⟨s, hs, hrest⟩ := Option.bind_eq_some_iff.mp hrun
  obtain ⟨t, ht, hobs⟩ := Option.map_eq_some_iff.mp hrest
  obtain ⟨job, hjob, hsnapshot⟩ := Option.bind_eq_some_iff.mp hobs
  obtain ⟨k, hk, hjob⟩ := Option.bind_eq_some_iff.mp hjob
  obtain ⟨order, horder, -⟩ := Option.map_eq_some_iff.mp hsnapshot
  obtain ⟨order', horder', hcontinues⟩ := restarts_keep_orders (S := .reference)
    Setup.reference_queues ⟨interrupted, fun a _ => a.inputs_true, hs⟩ (List.mem_of_getElem? hk)
    hjob horder ⟨.invoke .restart :: resumed, fun a _ => a.inputs_true, ht⟩
  exact ⟨s, t, k, job, order, order', hs, ht, hk, hjob, horder, horder', hcontinues⟩

end Answers

/-! ### What is forgotten -/

section Forgotten

variable {S : Setup} {s t u : State} {orderId : String}

/-- The messages of an order that a job has in hand or is about to send. -/
def jobTokens (orderId : String) (job : Server.Job) : ℕ :=
  (Server.task job).elim 0 (System.taskTokens orderId)

/-- The order is stored, but no message waits for it, and no job of the running process has one in
hand. -/
structure Abandoned (s : State) (orderId : String) : Prop where
  stored : findById s.shared.world.orders orderId ≠ none
  waiting : System.storeTokens orderId s.shared.world = 0
  inHand : ∀ k ∈ s.activations, k.process = s.shared.process → ∀ job, k.job = some job →
    jobTokens orderId job = 0

/-- A request that is taken up takes messages out of the store, and makes none. -/
theorem tokens_of_starts {w w' : System.World} {request : Server.Request} {job : Server.Job}
    (h : Server.Starts S w request w' job) (hwaiting : System.storeTokens orderId w = 0) :
    System.storeTokens orderId w' = 0 ∧ jobTokens orderId job = 0 := by
  cases h with
  | cleared =>
    refine ⟨?_, rfl⟩
    rw [System.storeTokens, List.countP_eq_zero] at hwaiting ⊢
    intro message hmem
    exact hwaiting message (List.mem_of_mem_filter hmem)
  | updateStatus _ _ _ htask =>
    have htokens := (System.starts htask).tokens orderId
    exact ⟨by omega, show System.taskTokens orderId _ = 0 by omega⟩
  | @draining _ _ _ _ task htask =>
    have htokens := (System.starts htask).tokens orderId
    exact ⟨by omega, show System.taskTokens orderId task = 0 by omega⟩
  | _ => exact ⟨hwaiting, rfl⟩

/-- Without a message of the order there is no way to get one. -/
theorem tokens_of_steps {w w' : System.World} {job job' : Server.Job} {input : Server.Input}
    (h : Server.Steps S w job input w' job') (hstored : findById w.orders orderId ≠ none)
    (hwaiting : System.storeTokens orderId w = 0) (hnone : jobTokens orderId job = 0) :
    System.storeTokens orderId w' = 0 ∧ jobTokens orderId job' = 0 := by
  have hstep : ∀ {input task task'}, System.taskTokens orderId task = 0 →
      System.act S.platform S.app w task input = some (w', task') →
      System.storeTokens orderId w' = 0 ∧ System.taskTokens orderId task' = 0 := by
    intro input task task' hnone htask
    rcases (System.steps htask).tokens orderId with htokens | ⟨habsent, -⟩
    · omega
    · exact absurd habsent hstored
  cases h with
  | post htask => exact hstep hnone htask
  | read => exact ⟨hwaiting, rfl⟩
  | consume htask => exact hstep hnone htask
  | @next _ _ _ task' _ htask =>
    have htokens := (System.starts htask).tokens orderId
    exact ⟨by omega, show System.taskTokens orderId task' = 0 by omega⟩

/-- What is known of the task of a job. -/
theorem Reachable.task_of_job (h : Reachable S s) {k : Job} (hk : k ∈ s.activations)
    {job : Server.Job} (hjob : k.job = some job) {task : Task}
    (htask : Server.task job = some task) :
    System.TaskKind S.app task ∧
      (System.serviceCall task).Prepared S.platform s.shared.world.orders := by
  obtain ⟨s', hs', hembedded⟩ := h.server
  obtain ⟨s'', hs'', hembedded'⟩ := hs'.system
  have hshared : s'.shared = s.shared.world := hembedded.shared
  have hshared' : s''.shared = s'.shared := hembedded'.shared
  have hmem := hembedded'.embeds.mem (hembedded.embeds.mem hk hjob) htask
  rw [← hshared, ← hshared']
  exact ⟨hs''.kinds.2 task hmem, hs''.prepared.2 task hmem⟩

/-- A job without a message of the order leaves the order alone. -/
theorem leavesAlone_of_steps {w w' : System.World} {job job' : Server.Job} {input : Server.Input}
    (hqueues : S.app.orderCreatedQueue ≠ S.app.orderStatusQueue)
    (h : Server.Steps S w job input w' job')
    (hjob : ∀ task, Server.task job = some task → System.TaskKind S.app task ∧
      (System.serviceCall task).Prepared S.platform w.orders)
    (hnone : jobTokens orderId job = 0) : System.LeavesAlone orderId w w' := by
  cases h with
  | post htask =>
    obtain ⟨hkind, hprep⟩ := hjob _ rfl
    exact (System.steps htask).leavesAlone hqueues hkind hprep hnone
  | read => exact .of_service rfl
  | consume htask =>
    obtain ⟨hkind, hprep⟩ := hjob _ rfl
    exact (System.steps htask).leavesAlone hqueues hkind hprep hnone
  | next _ htask => exact .of_service (System.starts htask).service.1

/-- No job belongs to a process that is still to come. -/
theorem Reachable.process_le (h : Reachable S s) :
    ∀ k ∈ s.activations, k.process ≤ s.shared.process := by
  have hrely : Interleave.RelyGuarantee (start S) (act S) (fun _ => True) (fun _ => True)
      (fun w k => k.process ≤ w.process) (fun w w' => w.process ≤ w'.process) := by
    refine ⟨fun _ h => ?_, fun _ _ _ h => ?_, fun _ _ hle hk => Nat.le_trans hk hle⟩
    · cases starts h with
      | request => exact ⟨trivial, Nat.le_refl _, Nat.le_refl _⟩
      | restart => exact ⟨trivial, Nat.le_succ _, Nat.le_refl _⟩
    · cases steps h
      exact ⟨trivial, Nat.le_refl _, Nat.le_refl _⟩
  exact (Interleave.invariant hrely h trivial fun _ hk => absurd hk List.not_mem_nil).2

/-- A new process knows of no order. -/
theorem abandoned_restart (h : Reachable S s)
    (hstored : findById s.shared.world.orders orderId ≠ none) :
    Abandoned ⟨s.shared.restart, s.activations ++ [⟨s.shared.process + 1, none⟩]⟩ orderId := by
  refine ⟨hstored, rfl, fun k hk hprocess job hjob => ?_⟩
  rcases List.mem_append.mp hk with hk | hk
  · have hle := h.process_le k hk
    have hnext : k.process = s.shared.process + 1 := hprocess
    omega
  · obtain rfl := List.mem_singleton.mp hk
    simp at hjob

/-- **An abandoned order stays abandoned**, and is left alone. -/
theorem Abandoned.step {a : Action} (hqueues : S.app.orderCreatedQueue ≠ S.app.orderStatusQueue)
    (h : Reachable S s) (hs : Abandoned s orderId) (hstep : Restarts.step S s a = some t) :
    Abandoned t orderId ∧ System.LeavesAlone orderId s.shared.world t.shared.world := by
  have hstored : ∀ {w : System.World}, System.LeavesAlone orderId s.shared.world w →
      findById w.orders orderId ≠ none := by
    intro w hleaves
    obtain ⟨o, ho⟩ := Option.ne_none_iff_exists'.mp hs.stored
    obtain ⟨o', ho', -⟩ := hleaves.shipment o ho
    rw [ho']
    exact Option.some_ne_none o'
  cases a with
  | invoke request =>
    obtain ⟨w, k, hstart, rfl⟩ := Interleave.step_invoke_eq_some.mp hstep
    cases starts hstart with
    | request hrequest =>
      have hstarts := Server.starts hrequest
      have hleaves : System.LeavesAlone orderId s.shared.world _ := .of_service hstarts.service
      obtain ⟨hwaiting, hnone⟩ := tokens_of_starts hstarts hs.waiting
      refine ⟨⟨hstored hleaves, hwaiting, fun k hk hprocess job hjob => ?_⟩, hleaves⟩
      rcases List.mem_append.mp hk with hk | hk
      · exact hs.inHand k hk hprocess job hjob
      · obtain rfl := List.mem_singleton.mp hk
        obtain rfl := Option.some.inj hjob
        exact hnone
    | restart => exact ⟨abandoned_restart h hs.stored, .of_service rfl⟩
  | resume i input =>
    obtain ⟨k, w, k', hi, hact, rfl⟩ := Interleave.step_resume_eq_some.mp hstep
    have hk := List.mem_of_getElem? hi
    obtain ⟨hserver⟩ := steps hact
    have hsteps := Server.steps hserver
    have hbefore := hs.inHand _ hk rfl _ rfl
    have hleaves := leavesAlone_of_steps hqueues hsteps
      (fun task htask => h.task_of_job hk rfl htask) hbefore
    obtain ⟨hwaiting, hnone⟩ := tokens_of_steps hsteps hs.stored hs.waiting hbefore
    refine ⟨⟨hstored hleaves, hwaiting, fun k hk hprocess job hjob => ?_⟩, hleaves⟩
    rcases List.mem_or_eq_of_mem_set hk with hk | rfl
    · exact hs.inHand k hk hprocess job hjob
    · obtain rfl := Option.some.inj hjob
      exact hnone

/-- Along every run. -/
theorem Abandoned.leavesAlone (hqueues : S.app.orderCreatedQueue ≠ S.app.orderStatusQueue)
    (h : Reachable S s) (hs : Abandoned s orderId) (hrun : Leads S s t) :
    System.LeavesAlone orderId s.shared.world t.shared.world := by
  have hall : Reachable S t ∧ Abandoned t orderId ∧
      System.LeavesAlone orderId s.shared.world t.shared.world := by
    refine Run.Reachable.invariant (I := fun u => Reachable S u ∧ Abandoned u orderId ∧
      System.LeavesAlone orderId s.shared.world u.shared.world) hrun
      ⟨h, hs, .of_service rfl⟩ ?_
    rintro u a v ⟨hu, habandoned, hleaves⟩ ha hstep
    obtain ⟨habandoned', hleaves'⟩ := habandoned.step hqueues hu hstep
    exact ⟨hu.tail ha hstep, habandoned', hleaves.trans hleaves'⟩
  exact hall.2.2

/-- **What a restart forgets.** An order that is stored when the process ends keeps the shipment
that it has, or stays without one, and no later process asks Delivery about it. -/
theorem restart_forgets (hqueues : S.app.orderCreatedQueue ≠ S.app.orderStatusQueue)
    (h : Reachable S s) (hrestart : Restarts.step S s (.invoke .restart) = some u)
    (hstored : findById s.shared.world.orders orderId ≠ none) (hrun : Leads S u t) :
    System.LeavesAlone orderId s.shared.world t.shared.world := by
  have hu : Reachable S u := Run.Reachable.tail h (Interleave.Action.inputs_true _) hrestart
  obtain ⟨w, k, hstart, rfl⟩ := Interleave.step_invoke_eq_some.mp hrestart
  cases starts hstart with
  | restart =>
    have hleaves : System.LeavesAlone orderId s.shared.world s.shared.restart.world :=
      .of_service rfl
    exact hleaves.trans ((abandoned_restart h hstored).leavesAlone hqueues hu hrun)

theorem restart_forgets_resumed :
    ∃ s u t, Run.run (step .reference) init interrupted = some s ∧
      step .reference s (.invoke .restart) = some u ∧ Run.run (step .reference) u resumed = some t ∧
      (findById s.shared.world.orders "id").map OrderRecord.hasShipment = some false ∧
      System.LeavesAlone "id" s.shared.world t.shared.world := by
  have hrun : ((Run.run (step .reference) init interrupted).bind fun s =>
      (step .reference s (.invoke .restart)).bind fun u =>
        (Run.run (step .reference) u resumed).map fun _ =>
          (findById s.shared.world.orders "id").map OrderRecord.hasShipment)
      = some (some false) := by decide +kernel
  obtain ⟨s, hs, hrest⟩ := Option.bind_eq_some_iff.mp hrun
  obtain ⟨u, hu, hrest⟩ := Option.bind_eq_some_iff.mp hrest
  obtain ⟨t, ht, hobs⟩ := Option.map_eq_some_iff.mp hrest
  obtain ⟨o, ho, -⟩ := Option.map_eq_some_iff.mp hobs
  refine ⟨s, u, t, hs, hu, ht, hobs, ?_⟩
  exact restart_forgets Setup.reference_queues ⟨interrupted, fun a _ => a.inputs_true, hs⟩ hu
    (by rw [ho]; exact Option.some_ne_none o) ⟨resumed, fun a _ => a.inputs_true, ht⟩

/-- The message of an order is in one place. -/
theorem Reachable.inHand_of_waiting (h : Reachable S s)
    (hwaiting : 0 < System.storeTokens orderId s.shared.world) :
    findById s.shared.world.orders orderId ≠ none ∧
      ∀ k ∈ s.activations, ∀ job, k.job = some job → jobTokens orderId job = 0 := by
  obtain ⟨s', hs', hembedded⟩ := h.server
  obtain ⟨s'', hs'', hembedded'⟩ := hs'.system
  have hshared : s''.shared = s.shared.world := hembedded'.shared.trans hembedded.shared
  obtain ⟨hle, hnone⟩ := hs''.guarded orderId
  rw [← hshared] at hwaiting ⊢
  have htokens : System.tokens orderId s'' = System.storeTokens orderId s''.shared
    + (s''.activations.map (System.taskTokens orderId)).sum := rfl
  refine ⟨fun habsent => ?_, fun k hk job hjob => ?_⟩
  · have hzero := hnone habsent
    omega
  · cases htask : Server.task job with
    | none => simp [jobTokens, htask]
    | some task =>
      have hmem := hembedded'.embeds.mem (hembedded.embeds.mem hk hjob) htask
      obtain ⟨i, hi⟩ := List.mem_iff_getElem?.mp hmem
      have htask_le := Interleave.le_sum_map (System.taskTokens orderId) hi
      simp only [jobTokens, htask, Option.elim_some]
      omega

/-- **What a cleared queue forgets.** The same is true of an order whose message is cleared, also
without a restart. -/
theorem clearing_forgets (hqueues : S.app.orderCreatedQueue ≠ S.app.orderStatusQueue)
    (h : Reachable S s) {exceeded : Option ℚ} (hwithin : Server.limited S .global exceeded = none)
    (hclear : Restarts.step S s (.invoke (.request (.http exceeded (.clearQueue .orderCreated))))
      = some u) (hwaiting : 0 < System.storeTokens orderId s.shared.world) (hrun : Leads S u t) :
    System.LeavesAlone orderId s.shared.world t.shared.world := by
  have hu : Reachable S u := Run.Reachable.tail h (Interleave.Action.inputs_true _) hclear
  obtain ⟨hstored, hnone⟩ := h.inHand_of_waiting hwaiting
  obtain ⟨s', hs', hembedded⟩ := h.server
  have hkinds := kinds_of_server hs'
  have hshared : s'.shared = s.shared.world := hembedded.shared
  rw [hshared] at hkinds
  obtain ⟨w, k, hstart, rfl⟩ := Interleave.step_invoke_eq_some.mp hclear
  cases starts hstart with
  | request hrequest =>
    simp only [Server.start, Server.Route.tier, hwithin, Server.serve, Server.cleared_eq]
      at hrequest
    obtain ⟨rfl, rfl⟩ := Prod.mk.inj (Option.some.inj hrequest)
    have hleaves : System.LeavesAlone orderId s.shared.world
        (s.shared.world.withQueue (s.shared.world.queue.withStore
          (s.shared.world.queue.store.clearQueue (Server.queueName S .orderCreated)))) :=
      .of_service rfl
    refine hleaves.trans (Abandoned.leavesAlone hqueues hu ⟨hstored, ?_, ?_⟩ hrun)
    · rw [System.storeTokens, List.countP_eq_zero]
      intro message hmem hcreated
      obtain ⟨hmessage, hother⟩ := List.mem_filter.mp hmem
      have hkind := hkinds message hmessage
      cases hpayload : message.payload with
      | orderCreated payload =>
        rw [System.MessageKind, hpayload] at hkind
        simp [hkind, Server.queueName] at hother
      | statusUpdate orderId event => simp [hpayload, System.isCreatedFor] at hcreated
    · intro k hk hprocess job hjob
      rcases List.mem_append.mp hk with hk | hk
      · exact hnone k hk job hjob
      · obtain rfl := List.mem_singleton.mp hk
        obtain rfl := Option.some.inj hjob
        rfl

theorem clearing_forgets_processed :
    ∃ s u t, Run.run (step .reference) init
        (serving (Server.creating 0 "key" "id" "2024-05-01T10:00:00.000Z")) = some s ∧
      step .reference s (.invoke (.request (.http none (.clearQueue .orderCreated)))) = some u ∧
      Run.run (step .reference) u (serving [.invoke (.http none (.processQueue .orderCreated))])
        = some t ∧
      System.storeTokens "id" s.shared.world = 1 ∧
      System.LeavesAlone "id" s.shared.world t.shared.world := by
  have hrun : ((Run.run (step .reference) init
      (serving (Server.creating 0 "key" "id" "2024-05-01T10:00:00.000Z"))).bind fun s =>
        (step .reference s (.invoke (.request (.http none (.clearQueue .orderCreated))))).bind
          fun u => (Run.run (step .reference) u
            (serving [.invoke (.http none (.processQueue .orderCreated))])).map fun _ =>
              System.storeTokens "id" s.shared.world) = some 1 := by decide +kernel
  obtain ⟨s, hs, hrest⟩ := Option.bind_eq_some_iff.mp hrun
  obtain ⟨u, hu, hrest⟩ := Option.bind_eq_some_iff.mp hrest
  obtain ⟨t, ht, htokens⟩ := Option.map_eq_some_iff.mp hrest
  refine ⟨s, u, t, hs, hu, ht, htokens, ?_⟩
  exact clearing_forgets Setup.reference_queues ⟨_, fun a _ => a.inputs_true, hs⟩ rfl hu
    (by omega) ⟨_, fun a _ => a.inputs_true, ht⟩

end Forgotten

end Restarts

end OrderProcessing
