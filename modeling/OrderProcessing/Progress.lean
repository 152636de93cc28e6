import OrderProcessing.Accounting

/-!
# Every request is served

Nothing in the code waits for another request, so a request can hang only where the database or
Delivery does. Every HTTP request is taken up, whatever its headers and its body. As long as a
request is not answered, and as long as a loop has not ended, it has a step to take; and there is a
bound on its steps, whatever the other requests do: three for a request, and for a loop a number
that depends on how many messages it has processed and on the retries that are configured.

## Main definitions

* `Server.Job.ended` — there is a response, or the loop of a poller has ended
* `Server.Job.effort` — grows with every step
* `Server.Served`

## Main results

* `Server.exists_start`, `Server.Reachable.exists_step`, `Server.job_effort`
* `Server.served`
-/

namespace OrderProcessing

namespace Server

variable {S : Setup} {s t : State} {w : System.World}

/-! ### Requests are taken up -/

/-- **Every HTTP request is taken up.** No body that a schema accepts escapes the type that the
handler declares. -/
theorem exists_start (S : Setup) (w : System.World) (exceeded : Option ℚ) (route : Route) :
    ∃ w' job, start S w (.http exceeded route) = some (w', job) := by
  simp only [start]
  cases limited S route.tier exceeded with
  | some response => exact ⟨_, _, rfl⟩
  | none =>
    cases route with
    | createOrder headers body =>
      simp only [serve]
      cases hvalidate : validate S createOrderBodySchema headers body with
      | error response => exact ⟨_, _, rfl⟩
      | ok r =>
        obtain ⟨-, hbody, -⟩ := of_validate hvalidate
        obtain ⟨payload, hcast, -⟩ := CreateOrderInput.exists_cast hbody
        exact ⟨_, _, by simp only [hcast, startTask, System.start]; rfl⟩
    | updateStatus orderId headers body =>
      simp only [serve]
      cases hvalidate : validate S statusUpdateBodySchema headers body with
      | error response => exact ⟨_, _, rfl⟩
      | ok r =>
        obtain ⟨-, hbody, -⟩ := of_validate hvalidate
        obtain ⟨update, hcast, -⟩ := StatusUpdateBody.exists_cast hbody
        cases htime : S.platform.toISOString update.atTime with
        | none => exact ⟨_, _, by simp only [hcast, startTask, System.start, htime]; rfl⟩
        | some text => exact ⟨_, _, by simp only [hcast, startTask, System.start, htime]; rfl⟩
    | processQueue queue =>
      obtain ⟨task, htask⟩ := start_consume S w queue
      exact ⟨_, _, by simp only [serve, startTask, htask]; rfl⟩
    | _ => exact ⟨_, _, rfl⟩

/-! ### Requests do not hang -/

/-- The `consumeOne` call is over, and the loop with it. -/
def loopEnded (task : Task) : Bool :=
  match task.consumption with
  | some ⟨_, .returnedUndefined⟩ => true
  | some ⟨_, .failed _⟩ => true
  | _ => false

/-- There is a response, or the loop of a poller has ended. -/
def Job.ended (job : Job) : Bool :=
  match job with
  | .draining drain => loopEnded drain.current
  | job => job.response.isSome

/-- A handler that has not returned can take a step. -/
theorem OrderCreatedEvent.exists_step (maxRetries : ℚ) (orders : Collection)
    {handler : OrderCreatedEvent} (h : handler.outcome = none) :
    ∃ input r, handler.step maxRetries orders input = some r := by
  obtain ⟨orderId, pc⟩ := handler
  cases pc with
  | lookup => exact ⟨.find .lost, _, rfl⟩
  | deliver order attempt =>
    refine ⟨.fetch (.failed "AbortError") "", ?_⟩
    cases hallowed : retryAllowed maxRetries attempt with
    | true => exact ⟨_, by simp only [OrderCreatedEvent.step, hallowed]; rfl⟩
    | false => exact ⟨_, by simp only [OrderCreatedEvent.step, hallowed]; rfl⟩
  | store order metadata => exact ⟨.updateOne "" .lost, _, rfl⟩
  | returned result => simp [OrderCreatedEvent.outcome] at h

theorem StatusUpdate.exists_step (P : Platform) (orders : Collection) {handler : StatusUpdate}
    (h : handler.outcome = none) : ∃ input r, handler.step P orders input = some r := by
  obtain ⟨orderId, update, pc⟩ := handler
  cases pc with
  | lookup => exact ⟨.find .lost, _, rfl⟩
  | append order event => exact ⟨.findOneAndUpdate "" .lost, _, rfl⟩
  | reread => exact ⟨.find .lost, _, rfl⟩
  | returned result => simp [StatusUpdate.outcome] at h

/-- A handler that has returned: its consumer can settle, or it has settled. -/
theorem exists_settle {α : Type} {queueName : String} {about : Payload → Prop}
    {result : Except ServiceError α} {consumption : Consumption Payload}
    (h : System.Agrees queueName about (some result) consumption.pc)
    (queue : QueueWorld Payload) :
    (∃ message now, consumption.pc = .acknowledged message now) ∨
      (∃ message, consumption.pc = .failed message) ∨
      ∃ r, consumption.settle queue (System.handled result) "" = some r := by
  obtain ⟨name, pc⟩ := consumption
  cases pc with
  | returnedUndefined => exact h.elim
  | holding message =>
    refine Or.inr (Or.inr ?_)
    cases result <;> exact ⟨_, rfl⟩
  | acknowledged message now => exact Or.inl ⟨message, now, rfl⟩
  | failed message => exact Or.inr (Or.inl ⟨message, rfl⟩)

/-- A settled `consumeOne` call has returned a message, or its loop has ended. -/
theorem returnedMessage_or_loopEnded {task : Task} {consumption : Consumption Payload}
    (htask : task.consumption = some consumption)
    (h : (∃ message now, consumption.pc = .acknowledged message now) ∨
      ∃ message, consumption.pc = .failed message) :
    (∃ message, returnedMessage task = some message) ∨ loopEnded task = true := by
  obtain ⟨queueName, pc⟩ := consumption
  rcases h with ⟨message, now, hpc⟩ | ⟨message, hpc⟩
  · obtain rfl : pc = _ := hpc
    exact Or.inl ⟨(message, now), by simp only [returnedMessage, htask]⟩
  · obtain rfl : pc = _ := hpc
    exact Or.inr (by simp only [loopEnded, htask])

/-- A `consumeOne` call goes on, or it has returned a message, or its loop has ended. -/
theorem exists_consumeStep {task : Task} (hagrees : System.TaskAgrees S.app task)
    (hconsumption : task.consumption.isSome = true) (w : System.World) :
    (∃ input r, System.act S.platform S.app w task input = some r) ∨
      (∃ message, returnedMessage task = some message) ∨ loopEnded task = true := by
  rcases task with _ | _ | ⟨consumption, _ | handler⟩ | ⟨consumption, _ | handler⟩
  · exact Bool.noConfusion hconsumption
  · exact Bool.noConfusion hconsumption
  · obtain ⟨queueName, pc⟩ := consumption
    obtain rfl : pc = .returnedUndefined := hagrees
    exact Or.inr (Or.inr rfl)
  · cases houtcome : handler.outcome with
    | none =>
      obtain ⟨input, r, hr⟩ :=
        OrderCreatedEvent.exists_step S.app.maxRetries w.orders houtcome
      exact Or.inl ⟨.call input, _, by simp only [System.act, hr]; rfl⟩
    | some result =>
      obtain ⟨orderId, pc⟩ := handler
      cases pc with
      | returned result' =>
        obtain rfl : result' = result := Option.some.inj houtcome
        have hagree : System.Agrees S.app.orderCreatedQueue
            (fun payload => orderId = payload.orderId)
            (some result') consumption.pc := hagrees
        rcases exists_settle hagree w.queue with hacked | hfailed | ⟨r, hr⟩
        · exact Or.inr (returnedMessage_or_loopEnded rfl (Or.inl hacked))
        · exact Or.inr (returnedMessage_or_loopEnded rfl (Or.inr hfailed))
        · exact Or.inl ⟨.settle "", _, by simp only [System.act, hr]; rfl⟩
      | _ => simp [OrderCreatedEvent.outcome] at houtcome
  · obtain ⟨queueName, pc⟩ := consumption
    obtain rfl : pc = .returnedUndefined := hagrees
    exact Or.inr (Or.inr rfl)
  · cases houtcome : handler.outcome with
    | none =>
      obtain ⟨input, r, hr⟩ := StatusUpdate.exists_step S.platform w.orders houtcome
      exact Or.inl ⟨.call input, _, by simp only [System.act, hr]; rfl⟩
    | some result =>
      obtain ⟨orderId, update, pc⟩ := handler
      cases pc with
      | returned result' =>
        obtain rfl : result' = result := Option.some.inj houtcome
        have hagree : System.Agrees S.app.orderStatusQueue
            (fun payload => orderId = payload.orderId ∧ update = payload.event)
            (some result') consumption.pc := hagrees
        rcases exists_settle hagree w.queue with hacked | hfailed | ⟨r, hr⟩
        · exact Or.inr (returnedMessage_or_loopEnded rfl (Or.inl hacked))
        · exact Or.inr (returnedMessage_or_loopEnded rfl (Or.inr hfailed))
        · exact Or.inl ⟨.settle "", _, by simp only [System.act, hr]; rfl⟩
      | _ => simp [StatusUpdate.outcome] at houtcome

/-- **A job that has not ended can take a step.** -/
theorem Reachable.exists_step (h : Reachable S s) {i : ℕ} {job : Job}
    (hi : s.activations[i]? = some job) (hended : job.ended = false) :
    ∃ input t, step S s (.resume i input) = some t := by
  have hjob := List.mem_of_getElem? hi
  have hkept := h.kept job hjob
  have hagrees := h.task_of_job (fun _ hs' => hs'.agrees.2) job hjob
  suffices hact : ∃ input r, act S s.shared job input = some r by
    obtain ⟨input, ⟨w, job'⟩, hact⟩ := hact
    exact ⟨input, _, Interleave.step_resume_eq_some.mpr ⟨job, w, job', hi, hact, rfl⟩⟩
  cases job with
  | answered => exact Bool.noConfusion hended
  | reading call =>
    obtain ⟨orderId, pc⟩ := call
    cases pc with
    | lookup => exact ⟨.find .lost, _, rfl⟩
    | returned => exact Bool.noConfusion hended
  | post task =>
    rcases task with ⟨payload, key, pc⟩ | ⟨call, reply⟩ | _ | _
    · cases pc with
      | lookup => exact ⟨.task (.call (.find .lost)), _, rfl⟩
      | insert payloadHash => exact ⟨.task (.call (.insertOne "" "" .lost)), _, rfl⟩
      | publish order => exact ⟨.task (.call (.sendMessage true "")), _, rfl⟩
      | returned => exact Bool.noConfusion hended
    · cases reply with
      | some reply => exact Bool.noConfusion hended
      | none =>
        obtain ⟨⟨orderId, update, pc⟩, rfl⟩ :=
          Option.isSome_iff_exists.mp (hkept.resolve_right (by simp))
        cases pc with
        | lookup => exact ⟨.task (.call (.find .lost)), _, rfl⟩
        | returned => exact ⟨.task (.settle ""), _, rfl⟩
    · exact hkept.elim
    · exact hkept.elim
  | draining drain =>
    rcases exists_consumeStep (hagrees _ rfl) hkept s.shared with
      ⟨input, r, hr⟩ | ⟨message, hmessage⟩ | hloop
    · exact ⟨.task input, _, by simp only [act, hr]; rfl⟩
    · obtain ⟨task, htask⟩ := start_consume S s.shared drain.queue
      exact ⟨.next, _, by simp only [act, hmessage, startTask, htask]; rfl⟩
    · exact absurd (hended.symm.trans hloop) (by simp)

/-- A debug route whose loop has ended is answered: its handler has thrown, if there was one. -/
theorem exists_response {drain : Drain} (hagrees : System.TaskAgrees S.app drain.current)
    (hended : loopEnded drain.current = true) : ∃ response, drain.response = some response := by
  obtain ⟨queue, answers, processed, task⟩ := drain
  rcases task with _ | _ | ⟨⟨queueName, pc⟩, _ | handler⟩ | ⟨⟨queueName, pc⟩, _ | handler⟩
  · exact Bool.noConfusion hended
  · exact Bool.noConfusion hended
  · obtain rfl : pc = .returnedUndefined := hagrees
    exact ⟨_, rfl⟩
  · cases pc with
    | returnedUndefined => exact ⟨_, rfl⟩
    | failed message =>
      obtain ⟨-, -, error, herror⟩ := hagrees
      obtain ⟨orderId, _ | _ | _ | result⟩ := handler
      · simp [OrderCreatedEvent.outcome] at herror
      · simp [OrderCreatedEvent.outcome] at herror
      · simp [OrderCreatedEvent.outcome] at herror
      · obtain rfl : result = .error error := Option.some.inj herror
        exact ⟨_, rfl⟩
    | _ => exact Bool.noConfusion hended
  · obtain rfl : pc = .returnedUndefined := hagrees
    exact ⟨_, rfl⟩
  · cases pc with
    | returnedUndefined => exact ⟨_, rfl⟩
    | failed message =>
      obtain ⟨-, -, error, herror⟩ := hagrees
      obtain ⟨orderId, update, _ | _ | _ | result⟩ := handler
      · simp [StatusUpdate.outcome] at herror
      · simp [StatusUpdate.outcome] at herror
      · simp [StatusUpdate.outcome] at herror
      · obtain rfl : result = .error error := Option.some.inj herror
        exact ⟨_, rfl⟩
    | _ => exact Bool.noConfusion hended

/-! ### Requests take few steps -/

/-- How far a handler has come, if fewer than `N + 1` attempts are allowed. -/
def handlerEffort (N : ℕ) (handler : OrderCreatedEvent) : ℕ :=
  match handler.pc with
  | .lookup => 0
  | .deliver _ attempt => 1 + min attempt N
  | .store _ _ => N + 2
  | .returned _ => N + 3

/-- How far an `applyStatusUpdate` call has come. -/
def updateEffort (handler : StatusUpdate) : ℕ :=
  match handler.pc with
  | .lookup => 0
  | .append _ _ => 1
  | .reread => 2
  | .returned _ => 3

/-- How far a task has come. -/
def taskEffort (N : ℕ) : Task → ℕ
  | .postOrder ⟨_, _, .lookup⟩ => 0
  | .postOrder ⟨_, _, .insert _⟩ => 1
  | .postOrder ⟨_, _, .publish _⟩ => 2
  | .postOrder ⟨_, _, .returned _⟩ => 3
  | .postStatus (some ⟨_, _, .lookup⟩) none => 0
  | .postStatus (some ⟨_, _, .returned _⟩) none => 1
  | .postStatus _ _ => 2
  | .consumeOrderCreated ⟨_, .holding _⟩ (some handler) => handlerEffort N handler
  | .consumeStatus ⟨_, .holding _⟩ (some handler) => updateEffort handler
  | .consumeOrderCreated _ _ | .consumeStatus _ _ => N + 4

/-- How far a job has come. -/
def Job.effort (N : ℕ) : Job → ℕ
  | .answered _ _ => 0
  | .post task => taskEffort N task
  | .reading ⟨_, .lookup⟩ => 0
  | .reading ⟨_, .returned _⟩ => 1
  | .draining drain => drain.processed.length * (N + 5) + taskEffort N drain.current

theorem createOrder_effort {P : Platform} {c : Collection} {input : OrderProcessing.Input}
    {call : CreateOrder} {r : Reaction CreateOrder} (h : CreateOrder.Steps P c call input r)
    (N : ℕ) : taskEffort N (.postOrder call) + 1 ≤ taskEffort N (.postOrder r.call) := by
  obtain ⟨payload, key, pc⟩ := call
  have hle : ∀ pc, taskEffort N (.postOrder ⟨payload, key, pc⟩) ≤ 3 := by
    intro pc
    cases pc <;> simp [taskEffort]
  cases h with
  | lookedUp hpc =>
    obtain rfl : pc = .lookup := hpc
    rcases CreateOrder.afterLookup_cases P ⟨payload, key, .lookup⟩
        (OrderRepository.findByRequestId c key) with
      ⟨_, _, _, heq⟩ | ⟨_, _, _, heq⟩ | ⟨_, _, _, _, heq⟩ | ⟨_, _, heq⟩
    all_goals
      rw [show (OrderRepository.findByRequestId c key) = _ from rfl, heq]
      simp [taskEffort, CreateOrder.finish]
  | inserted hpc =>
    obtain rfl : pc = _ := hpc
    exact Nat.le_refl 2
  | rejected hpc =>
    obtain rfl : pc = _ := hpc
    simp [taskEffort, CreateOrder.finish]
  | landed hpc =>
    obtain rfl : pc = _ := hpc
    simp [taskEffort, CreateOrder.finish]
  | published hpc =>
    obtain rfl : pc = _ := hpc
    exact Nat.le_refl 3
  | refused hpc =>
    obtain rfl : pc = _ := hpc
    exact Nat.le_refl 3
  | failed _ _ hrunning =>
    cases pc with
    | returned => exact Bool.noConfusion hrunning
    | _ => simp [taskEffort, CreateOrder.finish]

theorem handler_effort {maxRetries : ℚ} {N : ℕ} (hN : maxRetries < N) {c : Collection}
    {input : OrderProcessing.Input} {handler : OrderCreatedEvent} {r : Reaction OrderCreatedEvent}
    (h : OrderCreatedEvent.Steps maxRetries c handler input r) :
    handlerEffort N handler + 1 ≤ handlerEffort N r.call := by
  cases h with
  | lookedUp hpc =>
    rcases handler.afterLookup_cases (OrderRepository.findById c handler.orderId) with
      heq | ⟨_, _, _, heq⟩
    all_goals
      rw [heq]
      simp only [handlerEffort, hpc, OrderCreatedEvent.finish]
      omega
  | @fetched order attempt exchange requestedAt hpc hallowed =>
    have hattempt : attempt < N := by
      have hle : (attempt : ℚ) ≤ maxRetries := of_decide_eq_true hallowed
      exact_mod_cast lt_of_le_of_lt hle hN
    rcases OrderCreatedEvent.afterFetch_cases maxRetries handler order attempt exchange requestedAt
      with ⟨_, heq⟩ | heq | ⟨_, heq⟩
    all_goals
      rw [heq]
      simp only [handlerEffort, hpc, OrderCreatedEvent.finish]
      omega
  | exhausted hpc =>
    simp only [handlerEffort, hpc, OrderCreatedEvent.finish]
    omega
  | stored hpc =>
    simp only [handlerEffort, hpc, OrderCreatedEvent.finish]
    omega
  | landed hpc =>
    simp only [handlerEffort, hpc, OrderCreatedEvent.finish]
    omega
  | failed _ hrunning =>
    obtain ⟨orderId, pc⟩ := handler
    cases pc with
    | returned => exact Bool.noConfusion hrunning
    | _ =>
      simp only [handlerEffort, OrderCreatedEvent.finish]
      omega

theorem exists_of_afterReread (handler : StatusUpdate) (latest : Option OrderRecord) :
    ∃ result, handler.afterReread latest = handler.finish result := by
  simp only [StatusUpdate.afterReread]
  split
  · split
    · exact ⟨_, rfl⟩
    · exact ⟨_, rfl⟩
  · exact ⟨_, rfl⟩

theorem update_effort {P : Platform} {c : Collection} {input : OrderProcessing.Input}
    {handler : StatusUpdate} {r : Reaction StatusUpdate}
    (h : StatusUpdate.Steps P c handler input r) :
    updateEffort handler + 1 ≤ updateEffort r.call := by
  cases h with
  | lookedUp hpc =>
    have hbefore : updateEffort handler = 0 := by simp only [updateEffort, hpc]
    rw [hbefore, StatusUpdate.afterLookup]
    split <;> simp [updateEffort, StatusUpdate.finish]
  | appended hpc => simp [updateEffort, hpc, StatusUpdate.finish]
  | lostRace hpc => simp [updateEffort, hpc]
  | landed hpc => simp [updateEffort, hpc, StatusUpdate.finish]
  | reread hpc =>
    have hbefore : updateEffort handler = 2 := by simp only [updateEffort, hpc]
    obtain ⟨result, hresult⟩ := exists_of_afterReread handler
      (OrderRepository.findById c handler.orderId)
    rw [hbefore, hresult]
    exact Nat.le_refl 3
  | failed _ hrunning =>
    obtain ⟨orderId, update, pc⟩ := handler
    cases pc with
    | returned => exact Bool.noConfusion hrunning
    | _ => simp [updateEffort, StatusUpdate.finish]

theorem taskEffort_of_settled {N : ℕ} (task : Task) {consumption : Consumption Payload}
    (htask : task.consumption = some consumption)
    (hpc : ∀ message, consumption.pc ≠ .holding message) : taskEffort N task = N + 4 := by
  obtain ⟨queueName, pc⟩ := consumption
  rcases task with _ | _ | ⟨consumption, handler⟩ | ⟨consumption, handler⟩
  · simp [Task.consumption] at htask
  · simp [Task.consumption] at htask
  · obtain rfl := Option.some.inj htask
    cases pc with
    | holding message => exact absurd rfl (hpc message)
    | _ => rfl
  · obtain rfl := Option.some.inj htask
    cases pc with
    | holding message => exact absurd rfl (hpc message)
    | _ => rfl

theorem validation_effort (N : ℕ) {call : StatusValidation} (hpc : call.pc = .lookup)
    {result : Except ServiceError (OrderRecord × Option StatusEvent)} :
    taskEffort N (.postStatus (some call) none) + 1
      ≤ taskEffort N (.postStatus (some { call with pc := .returned result }) none) := by
  obtain ⟨orderId, update, pc⟩ := call
  obtain rfl : pc = .lookup := hpc
  exact Nat.le_refl 1

/-- **Every step of a task brings it further.** -/
theorem task_effort {N : ℕ} (hN : S.app.maxRetries < N) {w w' : System.World} {task task' : Task}
    {input : System.Input} (hagrees : System.TaskAgrees S.app task)
    (h : System.Steps S.platform S.app w task input w' task') :
    taskEffort N task + 1 ≤ taskEffort N task' := by
  cases h with
  | createOrder hr _ => exact createOrder_effort (CreateOrder.steps hr) N
  | validate hr =>
    cases StatusValidation.steps hr with
    | lookedUp hpc => exact validation_effort N hpc
    | failed _ hpc => exact validation_effort N hpc
  | @accept call _ _ _ hpc =>
    obtain ⟨orderId, update, pc⟩ := call
    obtain rfl : pc = _ := hpc
    exact Nat.le_refl 2
  | @reply call reply _ _ =>
    obtain ⟨orderId, update, pc⟩ := call
    cases pc with
    | lookup => exact Nat.le_add_left 1 1
    | returned => exact Nat.le_refl 2
  | @handleOrderCreated consumption handler input r hr =>
    have hr' := OrderCreatedEvent.steps hr
    simp only [System.TaskAgrees] at hagrees
    rw [OrderCreatedEvent.outcome_of_not_completed hr'.not_completed] at hagrees
    obtain ⟨message, hpc, -⟩ := hagrees.holding
    obtain ⟨queueName, pc⟩ := consumption
    obtain rfl : pc = .holding message := hpc
    exact handler_effort hN hr'
  | @settleOrderCreated consumption consumption' handler result queue now hpc hs =>
    have hnot := Consumption.not_holding_of_settle hs
    obtain ⟨message, hholding, -⟩ := Consumption.settle_cases hs
    obtain ⟨queueName, pc⟩ := consumption
    obtain rfl : pc = .holding message := hholding
    rw [taskEffort_of_settled (.consumeOrderCreated consumption' (some handler)) rfl hnot]
    show handlerEffort N handler + 1 ≤ N + 4
    rw [handlerEffort, hpc]
  | @handleStatus consumption handler input r hr =>
    have hr' := StatusUpdate.steps hr
    simp only [System.TaskAgrees] at hagrees
    rw [StatusUpdate.outcome_of_not_completed hr'.not_completed] at hagrees
    obtain ⟨message, hpc, -⟩ := hagrees.holding
    obtain ⟨queueName, pc⟩ := consumption
    obtain rfl : pc = .holding message := hpc
    exact update_effort hr'
  | @settleStatus consumption consumption' handler result queue now hpc hs =>
    have hnot := Consumption.not_holding_of_settle hs
    obtain ⟨message, hholding, -⟩ := Consumption.settle_cases hs
    obtain ⟨queueName, pc⟩ := consumption
    obtain rfl : pc = .holding message := hholding
    rw [taskEffort_of_settled (.consumeStatus consumption' (some handler)) rfl hnot]
    show updateEffort handler + 1 ≤ N + 4
    simp only [updateEffort, hpc]
    omega

/-- The effort of a job that is not a loop, and of one that has processed so many messages. -/
def Job.bound (N : ℕ) : Job → ℕ
  | .draining drain => (drain.processed.length + 1) * (N + 5)
  | _ => 3

theorem taskEffort_le (N : ℕ) {task : Task} (h : task.consumption.isSome = true) :
    taskEffort N task ≤ N + 4 := by
  rcases task with _ | _ | ⟨⟨queueName, pc⟩, handler⟩ | ⟨⟨queueName, pc⟩, handler⟩
  · exact Bool.noConfusion h
  · exact Bool.noConfusion h
  · cases handler with
    | none => cases pc <;> exact Nat.le_refl _
    | some handler =>
      cases pc with
      | holding message =>
        show handlerEffort N handler ≤ N + 4
        rw [handlerEffort]
        split <;> omega
      | _ => exact Nat.le_refl _
  · cases handler with
    | none => cases pc <;> exact Nat.le_refl _
    | some handler =>
      cases pc with
      | holding message =>
        show updateEffort handler ≤ N + 4
        rw [updateEffort]
        split <;> omega
      | _ => exact Nat.le_refl _

theorem Job.effort_le {N : ℕ} {job : Job} (hkept : job.Kept) : job.effort N ≤ job.bound N := by
  cases job with
  | answered => exact Nat.zero_le _
  | reading call =>
    obtain ⟨orderId, _ | result⟩ := call
    · exact Nat.zero_le _
    · exact Nat.le_add_left 1 2
  | post task =>
    rcases task with ⟨payload, key, pc⟩ | ⟨call, reply⟩ | _ | _
    · cases pc <;> simp [Job.effort, Job.bound, taskEffort]
    · simp only [Job.effort, Job.bound, taskEffort]
      split <;> simp_all
    · exact hkept.elim
    · exact hkept.elim
  | draining drain =>
    have hle := taskEffort_le N hkept
    have hmul := Nat.add_mul drain.processed.length 1 (N + 5)
    simp only [Job.effort, Job.bound]
    omega

/-- **Every step of a job brings it further.** -/
theorem job_effort {N : ℕ} (hN : S.app.maxRetries < N) {w w' : System.World} {job job' : Job}
    {input : Input} (hagrees : ∀ t, task job = some t → System.TaskAgrees S.app t)
    (hkept : job.Kept) (h : Steps S w job input w' job') :
    job.effort N + 1 ≤ job'.effort N := by
  cases h with
  | post htask => exact task_effort hN (hagrees _ rfl) (System.steps htask)
  | @read call answer call' hcall =>
    obtain ⟨hpc, hcall'⟩ := GetOrder.of_step hcall
    obtain ⟨orderId, pc⟩ := call
    obtain rfl : pc = .lookup := hpc
    rcases hcall' with rfl | rfl
    · exact Nat.le_refl 1
    · exact Nat.le_refl 1
  | @consume drain _ _ task' htask =>
    have hgrown := task_effort hN (hagrees _ rfl) (System.steps htask)
    simp only [Job.effort]
    omega
  | @next drain message _ task' =>
    have hle := taskEffort_le N hkept
    have hmul := Nat.add_mul drain.processed.length 1 (N + 5)
    simp only [Job.effort, List.length_append, List.length_singleton]
    omega

/-- What it means that the requests are served. -/
structure Served (S : Setup) (N : ℕ) (s : State) : Prop where
  /-- A request of any kind is taken up now. -/
  starts : ∀ exceeded route, ∃ w job, start S s.shared (.http exceeded route) = some (w, job)
  /-- A job that has not ended can take a step now. -/
  steps : ∀ (i : ℕ) job, s.activations[i]? = some job → job.ended = false →
    ∃ input t, step S s (.resume i input) = some t
  /-- A debug route whose loop has ended is answered. -/
  answers : ∀ drain, .draining drain ∈ s.activations → drain.answers = true →
    loopEnded drain.current = true → ∃ response, (Job.draining drain).response = some response
  /-- And no job has taken more steps than its bound. -/
  bounded : ∀ as, Run.run (step S) init as = some s → ∀ (i : ℕ) job,
    s.activations[i]? = some job → as.countP (Interleave.Action.isResume i) ≤ job.bound N

/-- **Every request is served.** -/
theorem served (h : Reachable S s) {N : ℕ} (hN : S.app.maxRetries < N) : Served S N s where
  starts := exists_start S s.shared
  steps := fun _ _ hi hended => h.exists_step hi hended
  answers := by
    intro drain hdrain hanswers hended
    have hagrees := h.task_of_job (fun _ hs' => hs'.agrees.2) _ hdrain _ rfl
    simp only [Job.response, hanswers]
    exact exists_response hagrees hended
  bounded := by
    intro as hrun i job hi
    have hcount := Interleave.countP_isResume_le (I := Reachable S) (Job.effort N)
      (fun u a v hu hstep => hu.tail a.inputs_true hstep) ?_ hrun (.refl init) hi
    · exact Nat.le_trans (Nat.le_of_add_right_le hcount)
        (Job.effort_le (h.kept job (List.mem_of_getElem? hi)))
    · intro u j k input w k' hu hj hact
      have hk := List.mem_of_getElem? hj
      exact job_effort hN (hu.task_of_job (fun _ hs' => hs'.agrees.2) k hk) (hu.kept k hk)
        (Server.steps hact)

theorem served_clearedAndProcessed :
    ∃ s, Run.run (step .reference) init clearedAndProcessed = some s ∧
      s.activations.map (fun job => (job.ended, job.effort 4, job.bound 4))
        = [(true, 3, 3), (true, 3, 3), (true, 2, 3), (true, 0, 3), (true, 17, 18), (false, 0, 9)] ∧
      Served .reference 4 s := by
  have hrun : (Run.run (step .reference) init clearedAndProcessed).map
      (fun s => s.activations.map fun job => (job.ended, job.effort 4, job.bound 4))
      = some [(true, 3, 3), (true, 3, 3), (true, 2, 3), (true, 0, 3), (true, 17, 18),
        (false, 0, 9)] := by decide +kernel
  obtain ⟨s, hs, hobs⟩ := Option.map_eq_some_iff.mp hrun
  exact ⟨s, hs, hobs, served (S := .reference) ⟨_, fun a _ => a.inputs_true, hs⟩ (by decide)⟩

end Server

end OrderProcessing
