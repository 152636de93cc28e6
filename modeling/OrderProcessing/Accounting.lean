import OrderProcessing.Server
import OrderProcessing.StatusMessages

/-!
# What becomes of what was accepted

Two balances of the server. A message that was sent is in the store, in the hands of one consumer,
among the messages that one loop has processed, or was cleared by one request; and the messages that
were sent are exactly those of the requests answered 201 or 202, one for each. Both hold in every
reachable state, with any number of requests, consumers and pollers, and with queues being cleared
at any time.

## Main definitions

* `Server.Job.messages` — the messages that a job has taken out of the store
* `Server.Job.receipts` — the message that a job has sent

## Main results

* `Server.messages_conserved`
* `Server.receipts_balance`
-/

namespace OrderProcessing

/-! ### The queue -/

/-- A message that is put back is not sent again. -/
theorem Consumption.sent_of_settle {α : Type} {w w' : QueueWorld α} {call call' : Consumption α}
    {succeeded : Bool} {now : String} (h : call.settle w succeeded now = some (w', call')) :
    w'.sent = w.sent := by
  obtain ⟨message, -, ⟨-, rfl, -⟩ | ⟨-, rfl, -⟩⟩ := settle_cases h <;> rfl

namespace Queue

variable {α : Type} {w w' : QueueWorld α} {k k' : Activation α}

/-- A consumer that starts holds what it has taken. -/
theorem start_balance {request : Request} (h : start w request = some (w', k)) :
    (w'.sent : Multiset (QueueMessage α)) + w.store.messages
      = w.sent + w'.store.messages + k.content := by
  cases request with
  | sender =>
    obtain ⟨rfl, rfl⟩ := Prod.mk.inj (Option.some.inj h)
    exact (add_zero _).symm
  | consumeOne queueName =>
    obtain ⟨rfl, rfl⟩ := Prod.mk.inj (Option.some.inj h)
    rcases Consumption.start_cases w queueName with heq | ⟨message, store, -, hperm, heq⟩
    · rw [heq]
      exact (add_zero _).symm
    · rw [heq]
      show (w.sent : Multiset (QueueMessage α)) + w.store.messages
        = w.sent + store.messages + [message]
      rw [← Multiset.coe_eq_coe.mpr hperm, ← Multiset.cons_coe, ← Multiset.singleton_add]
      show _ + ({message} + _) = _ + _ + {message}
      abel

/-- An activation that sends adds to both sides; one that settles keeps its message or puts it back.
-/
theorem act_balance {input : Input α} (h : act w k input = some (w', k')) :
    (w'.sent : Multiset (QueueMessage α)) + w.store.messages + k.content
      = w.sent + w'.store.messages + k'.content := by
  rcases k with _ | ⟨queueName, pc⟩
  · rcases input with ⟨queueName, payload, now⟩ | _
    · obtain ⟨rfl, rfl⟩ := Prod.mk.inj (Option.some.inj h)
      show ((w.sent ++ [_] : List _) : Multiset (QueueMessage α)) + w.store.messages + 0
        = w.sent + ((w.store.messages ++ [_] : List _) : Multiset (QueueMessage α)) + 0
      rw [← Multiset.coe_add, ← Multiset.coe_add]
      abel
    · simp [act] at h
  · rcases input with _ | ⟨succeeded, now⟩
    · simp [act] at h
    · obtain ⟨r, hr, heq⟩ := Option.map_eq_some_iff.mp h
      obtain ⟨rfl, rfl⟩ := Prod.mk.inj heq
      obtain ⟨message, hpc, ⟨-, hw, hcall⟩ | ⟨-, hw, hcall⟩⟩ := Consumption.settle_cases hr
      · rw [hw, hcall, show pc = .holding message from hpc]
        rfl
      · rw [hw, hcall, show pc = .holding message from hpc]
        show (w.sent : Multiset (QueueMessage α)) + w.store.messages + [message]
          = w.sent + ((w.store.messages ++ [message] : List _) : Multiset (QueueMessage α)) + 0
        rw [← Multiset.coe_add]
        abel

end Queue

/-- Clearing a queue takes its messages, and no others. -/
theorem InMemoryQueueStore.clearQueue_balance {α : Type} (store : InMemoryQueueStore α)
    (queueName : String) : ((store.clearQueue queueName).messages : Multiset (QueueMessage α))
      + store.queueOf queueName = store.messages := by
  rw [add_comm, Multiset.coe_add]
  refine Multiset.coe_eq_coe.mpr ?_
  simpa [queueOf, clearQueue] using
    List.filter_append_perm (fun message => decide (message.queueName = queueName)) store.messages

namespace Server

variable {S : Setup} {s : State}

/-! ### Messages -/

/-- The message that the consumer of a task holds or has acknowledged. -/
def taskMessages (task : Task) : List (QueueMessage Payload) :=
  (System.queueActivation task).content

/-- The messages that a job has taken out of the store for good, and the one it holds. -/
def Job.messages : Job → List (QueueMessage Payload)
  | .answered _ cleared => cleared
  | .post task => taskMessages task
  | .reading _ => []
  | .draining drain => drain.processed.map Prod.fst ++ taskMessages drain.current

theorem Job.messages_draining (drain : Drain) :
    ((Job.draining drain).messages : Multiset (QueueMessage Payload))
      = (drain.processed.map Prod.fst : List (QueueMessage Payload))
        + (taskMessages drain.current : Multiset (QueueMessage Payload)) :=
  (Multiset.coe_add _ _).symm

theorem startTask_balance {w w' : System.World} {request : System.Request} {task : Task}
    (h : System.start S.platform S.app w request = some (w', task)) :
    (w'.queue.sent : Multiset (QueueMessage Payload)) + w.queue.store.messages
      = w.queue.sent + w'.queue.store.messages + taskMessages task := by
  obtain ⟨request', hrequest'⟩ := System.start_queue h
  exact Queue.start_balance hrequest'

theorem actTask_balance {w w' : System.World} {input : System.Input} {task task' : Task}
    (h : System.act S.platform S.app w task input = some (w', task')) :
    (w'.queue.sent : Multiset (QueueMessage Payload)) + w.queue.store.messages + taskMessages task
      = w.queue.sent + w'.queue.store.messages + taskMessages task' := by
  rcases (System.steps h).queue with ⟨hqueue, htask⟩ | ⟨input', hinput'⟩
  · rw [hqueue, taskMessages, taskMessages, htask]
  · exact Queue.act_balance hinput'

theorem messages_of_consumption {task : Task} {consumption : Consumption Payload}
    (h : task.consumption = some consumption) :
    taskMessages task = (Queue.Activation.consumer consumption).content := by
  rw [taskMessages, System.queueActivation_of_consumption h]

/-- A task that has returned a message has nothing else. -/
theorem messages_of_returnedMessage {task : Task} {message : QueueMessage Payload × String}
    (h : returnedMessage task = some message) : taskMessages task = [message.1] := by
  obtain ⟨⟨queueName, pc⟩, hconsumption, rfl⟩ := consumption_of_returnedMessage h
  exact messages_of_consumption hconsumption

/-- Every step of the server moves messages, and makes or loses none. -/
theorem balanced_messages (S : Setup) :
    Interleave.Balanced (start S) (act S) (fun _ => True)
      (fun w => (w.queue.sent : Multiset (QueueMessage Payload)))
      (fun w => (w.queue.store.messages : Multiset (QueueMessage Payload)))
      (fun job => (job.messages : Multiset (QueueMessage Payload))) where
  start := by
    intro w request w' job h
    cases starts h with
    | answered => exact (add_zero _).symm
    | @cleared _ queue =>
      show (w.queue.sent : Multiset (QueueMessage Payload)) + w.queue.store.messages
        = w.queue.sent + (w.queue.store.clearQueue (queueName S queue)).messages
          + w.queue.store.queueOf (queueName S queue)
      rw [add_assoc, InMemoryQueueStore.clearQueue_balance]
    | reading => exact (add_zero _).symm
    | createOrder => exact (add_zero _).symm
    | updateStatus _ _ _ htask => exact startTask_balance htask
    | draining htask => exact startTask_balance htask
  act := by
    intro w job input w' job' _ h
    cases steps h with
    | post htask => exact actTask_balance htask
    | read => rfl
    | @consume drain input w' task' htask =>
      have hbalance := actTask_balance htask
      rw [Job.messages_draining, Job.messages_draining, add_left_comm, hbalance]
      abel
    | @next drain message w' task' hmessage htask =>
      have hbalance := startTask_balance htask
      rw [Job.messages_draining, Job.messages_draining, messages_of_returnedMessage hmessage,
        List.map_append, ← Multiset.coe_add, hbalance]
      show _ + (_ + {message.1}) = _ + (_ + {message.1} + _)
      abel

/-- The messages of all jobs. -/
theorem Reachable.messages (h : Reachable S s) :
    (s.shared.queue.sent : Multiset (QueueMessage Payload))
      = s.shared.queue.store.messages + (s.activations.flatMap Job.messages) := by
  rw [Interleave.coe_flatMap]
  exact (balanced_messages S).reachable h rfl

/-- Two sends make two messages. -/
theorem Reachable.sent_nodup (h : Reachable S s) : s.shared.queue.sent.Nodup := by
  obtain ⟨s', hs', hembedded⟩ := h.system
  have hnodup := (Queue.conserved hs'.queue).ref_nodup
  have hsent : (s'.map System.World.queue System.queueActivation).shared.sent
      = s.shared.queue.sent := by
    show s'.shared.queue.sent = _
    rw [hembedded.shared]
    rfl
  rw [hsent] at hnodup
  exact hnodup.of_map _

/-- A loop that has found nothing has taken what it lists. -/
theorem messages_of_response {drain : Drain} {processed : List (QueueMessage Payload × String)}
    (h : drain.response = some ⟨200, .processed processed⟩) :
    (Job.draining drain).messages = processed.map Prod.fst := by
  simp only [Drain.response] at h
  split at h
  · next queueName hconsumption =>
    have hprocessed : drain.processed = processed := by simpa using h
    rw [Job.messages, messages_of_consumption hconsumption, hprocessed]
    exact List.append_nil _
  · obtain ⟨error, -, heq⟩ := Option.map_eq_some_iff.mp h
    exact ResponseBody.noConfusion (congrArg Response.body heq)
  · simp at h

/-- Where the messages are, in one state. -/
structure Conserved (s : State) : Prop where
  sent_eq : (s.shared.queue.sent : Multiset (QueueMessage Payload))
    = s.shared.queue.store.messages + (s.activations.flatMap Job.messages)
  sent_nodup : s.shared.queue.sent.Nodup
  /-- A message that waits has been taken by no job; one that does not wait, by exactly one. -/
  place : ∀ message ∈ s.shared.queue.sent,
    (message ∈ s.shared.queue.store.messages ∧ ∀ job ∈ s.activations, message ∉ job.messages) ∨
    (message ∉ s.shared.queue.store.messages ∧
      ∃! i : ℕ, ∃ job, s.activations[i]? = some job ∧ message ∈ job.messages)
  /-- A debug route that has processed a queue lists exactly the messages that it has taken. -/
  listed : ∀ drain, .draining drain ∈ s.activations → ∀ processed,
    drain.response = some ⟨200, .processed processed⟩ →
    (Job.draining drain).messages = processed.map Prod.fst

/-- **No message is lost or duplicated by the server**, also when queues are cleared. -/
theorem messages_conserved (h : Reachable S s) : Conserved s := by
  have hsent := h.messages
  have hnodup := h.sent_nodup
  have hperm : s.shared.queue.sent.Perm
      (s.shared.queue.store.messages ++ s.activations.flatMap Job.messages) :=
    Multiset.coe_eq_coe.mp (hsent.trans (Multiset.coe_add _ _))
  obtain ⟨-, htaken, hdisjoint⟩ := List.nodup_append'.mp (hperm.nodup_iff.mp hnodup)
  refine ⟨hsent, hnodup, fun message hmem => ?_, fun _ _ _ => messages_of_response⟩
  have htaken_of : ∀ job ∈ s.activations, message ∈ job.messages →
      message ∈ s.activations.flatMap Job.messages := fun job hjob hmessage =>
    List.mem_flatMap.mpr ⟨job, hjob, hmessage⟩
  rcases List.mem_append.mp (hperm.mem_iff.mp hmem) with hstored | hjobs
  · exact Or.inl ⟨hstored, fun job hjob hmessage =>
      hdisjoint hstored (htaken_of job hjob hmessage)⟩
  · obtain ⟨job, hjob, hmessage⟩ := List.mem_flatMap.mp hjobs
    obtain ⟨i, hi⟩ := List.mem_iff_getElem?.mp hjob
    refine Or.inr ⟨fun hstored => hdisjoint hstored hjobs, i, ⟨job, hi, hmessage⟩, ?_⟩
    rintro j ⟨job', hj, hmessage'⟩
    exact Interleave.index_eq_of_mem htaken hj hi hmessage' hmessage

/-- Two orders are created and a status update is accepted; the status queue is cleared, a debug
route processes the first order while a poller holds the second. -/
def clearedAndProcessed : List Action :=
  creating 0 "k1" "id-1" "2024-05-01T10:00:00.000Z" ++
    creating 1 "k2" "id-2" "2024-05-01T10:00:01.000Z" ++
    updating 2 "id-1" "e1" "SHIPPED" "2024-05-02T10:00:00.000Z" "2024-05-02T10:00:01.000Z" ++
    [.invoke (.http none (.clearQueue .orderStatus)),
      .invoke (.http none (.processQueue .orderCreated)), .invoke (.tick .orderCreated)] ++
    shipping 4 "2024-05-02T10:00:02.000Z" ++ [.resume 4 .next]

theorem messages_conserved_clearedAndProcessed :
    ∃ s, Run.run (step .reference) init clearedAndProcessed = some s ∧
      s.activations.map (fun job => job.messages.map QueueMessage.ref)
        = [[], [], [], [2], [0], [1]] ∧ Conserved s := by
  have hrun : (Run.run (step .reference) init clearedAndProcessed).map
      (fun s => s.activations.map fun job => job.messages.map QueueMessage.ref)
      = some [[], [], [], [2], [0], [1]] := by decide +kernel
  obtain ⟨s, hs, hobs⟩ := Option.map_eq_some_iff.mp hrun
  exact ⟨s, hs, hobs, messages_conserved ⟨_, fun a _ => a.inputs_true, hs⟩⟩

/-! ### Receipts -/

/-- The message that a task has sent. -/
def taskReceipts : Task → List Payload
  | .postOrder ⟨_, _, .returned (.ok ⟨order, true⟩)⟩ => [.orderCreated (orderCreatedPayload order)]
  | .postStatus (some call) (some .accepted) => System.validatedPayloads call
  | _ => []

/-- The message that a job has sent. -/
def Job.receipts (job : Job) : List Payload := (task job).elim [] taskReceipts

theorem receipts_of_consumption {task : Task} {consumption : Consumption Payload}
    (h : task.consumption = some consumption) : taskReceipts task = [] := by
  cases task with
  | consumeOrderCreated => rfl
  | consumeStatus => rfl
  | _ => simp [Task.consumption] at h

/-- Only a call that has created its order has sent something. -/
theorem receipts_of_not_created {call : CreateOrder}
    (h : ∀ order, call.pc ≠ .returned (.ok ⟨order, true⟩)) :
    taskReceipts (.postOrder call) = [] := by
  obtain ⟨payload, key, pc⟩ := call
  rcases pc with _ | _ | _ | (error | ⟨order, _ | _⟩)
  · rfl
  · rfl
  · rfl
  · rfl
  · rfl
  · exact absurd rfl (h order)

theorem startTask_receipts {w w' : System.World} {request : System.Request} {task : Task}
    (h : System.start S.platform S.app w request = some (w', task)) :
    w'.queue.sent = w.queue.sent ∧ taskReceipts task = [] := by
  cases System.starts h <;> exact ⟨rfl, rfl⟩

/-- The payloads of all messages that were sent. -/
def sentPayloads (w : System.World) : Multiset Payload :=
  (w.queue.sent.map QueueMessage.payload : List Payload)

/-- A step that sends a message ends its request with an acceptance. -/
theorem actTask_receipts {w w' : System.World} {input : System.Input} {task task' : Task}
    (h : System.act S.platform S.app w task input = some (w', task')) :
    sentPayloads w' + taskReceipts task = sentPayloads w + taskReceipts task' := by
  have hsame : w'.queue.sent = w.queue.sent → taskReceipts task = taskReceipts task' →
      sentPayloads w' + taskReceipts task = sentPayloads w + taskReceipts task' := by
    intro hsent hreceipts
    rw [sentPayloads, sentPayloads, hsent, hreceipts]
  have hsent : ∀ queueName payload now,
      w'.queue = w.queue.sendMessage queueName payload now → taskReceipts task = [] →
      taskReceipts task' = [payload] →
      sentPayloads w' + taskReceipts task = sentPayloads w + taskReceipts task' := by
    intro queueName payload now hqueue hreceipts hreceipts'
    rw [sentPayloads, sentPayloads, hqueue, hreceipts, hreceipts', Multiset.coe_nil, add_zero,
      Multiset.coe_add]
    exact congrArg Multiset.ofList (List.map_append ..)
  cases System.steps h with
  | @createOrder call input r hr _ =>
    have hr' := CreateOrder.steps hr
    have hcall : taskReceipts (.postOrder call) = [] :=
      receipts_of_not_created fun order => hr'.not_returned
    cases hr' with
    | lookedUp =>
      refine hsame rfl (hcall.trans (receipts_of_not_created fun order hreturned => ?_).symm)
      obtain ⟨_, -, -, hresult⟩ := CreateOrder.of_afterLookup_returned hreturned
      exact Bool.noConfusion (congrArg CreateOrderResult.created hresult)
    | @published order sentAt =>
      exact hsent _ (.orderCreated (orderCreatedPayload order)) sentAt rfl hcall rfl
    | _ => exact hsame rfl hcall
  | validate hr =>
    exact hsame (congrArg QueueWorld.sent (System.after_queue
      (System.not_published_of_validation hr))) rfl
  | @accept call order event now hpc =>
    refine hsent _ _ _ rfl rfl ?_
    rw [taskReceipts, System.validatedPayloads, hpc]
  | @reply call reply now hreply =>
    refine hsame rfl ?_
    cases reply with
    | accepted => exact absurd rfl hreply
    | _ => rfl
  | handleOrderCreated hr =>
    exact hsame (congrArg QueueWorld.sent (System.after_queue
      (System.not_published_of_orderCreated hr))) rfl
  | settleOrderCreated _ hs => exact hsame (Consumption.sent_of_settle hs) rfl
  | handleStatus hr =>
    exact hsame (congrArg QueueWorld.sent (System.after_queue
      (System.not_published_of_statusUpdate hr))) rfl
  | settleStatus _ hs => exact hsame (Consumption.sent_of_settle hs) rfl

/-- Every message that is sent ends the request that has sent it. -/
theorem balanced_receipts (S : Setup) :
    Interleave.Balanced (start S) (act S) (fun _ => True) sentPayloads (fun _ => 0)
      (fun job => (job.receipts : Multiset Payload)) where
  start := by
    intro w request w' job h
    have htask : ∀ {request w' task}, System.start S.platform S.app w request = some (w', task) →
        sentPayloads w' + 0 = sentPayloads w + 0 + (taskReceipts task : Multiset Payload) := by
      intro request w' task htask
      obtain ⟨hsent, hreceipts⟩ := startTask_receipts htask
      rw [sentPayloads, hsent, hreceipts]
      exact (add_zero _).symm
    cases starts h with
    | answered => exact (add_zero _).symm
    | cleared => exact (add_zero _).symm
    | reading => exact (add_zero _).symm
    | createOrder => exact (add_zero _).symm
    | updateStatus _ _ _ hstart => exact htask hstart
    | draining hstart => exact htask hstart
  act := by
    intro w job input w' job' _ h
    rw [add_zero, add_zero]
    cases steps h with
    | post htask => exact actTask_receipts htask
    | read => rfl
    | consume htask => exact actTask_receipts htask
    | @next drain message w' task' hmessage htask =>
      obtain ⟨hsent, hreceipts⟩ := startTask_receipts htask
      obtain ⟨consumption, hconsumption, -⟩ := consumption_of_returnedMessage hmessage
      show sentPayloads w' + (taskReceipts drain.current : Multiset Payload)
        = sentPayloads w + (taskReceipts task' : Multiset Payload)
      rw [sentPayloads, hsent, hreceipts, receipts_of_consumption hconsumption]
      rfl

end Server

/-! ### Validated updates -/

/-- A status update that a validation has let through is the one that was asked for, with its
timestamp in canonical form. -/
def StatusValidation.Answered (P : Platform) (call : StatusValidation) : Prop :=
  ∀ order event, call.pc = .returned (.ok (order, some event)) →
    event.eventId = call.input.eventId ∧ event.status = call.input.status ∧
      P.toISOString call.input.atTime = some event.atTime

theorem StatusValidation.Steps.answered {P : Platform} {c : Collection} {call : StatusValidation}
    {input : Input} {r : Reaction StatusValidation} (h : StatusValidation.Steps P c call input r) :
    r.call.Answered P := by
  intro order event hpc
  cases h with
  | lookedUp =>
    obtain ⟨-, update, hupdate, -, -, hid, hstatus, htime⟩ :=
      prepareStatusUpdate_eq_event_iff.mp (StatusValidation.Pc.returned.inj hpc)
    obtain rfl := Option.some.inj hupdate
    exact ⟨hid, hstatus, htime⟩
  | failed => exact absurd (StatusValidation.Pc.returned.inj hpc) (by simp)

/-- An accepted status request has validated its update. -/
def TaskAnswered (P : Platform) : Task → Prop
  | .postStatus call reply =>
    (∀ c, call = some c → c.Answered P) ∧ (reply = some .accepted →
      ∃ c order event, call = some c ∧ c.pc = .returned (.ok (order, some event)))
  | _ => True

namespace System

variable {P : Platform} {config : AppConfig} {s : State}

theorem relyGuarantee_answered (P : Platform) (config : AppConfig) :
    Interleave.RelyGuarantee (start P config) (act P config) (fun _ => True) (fun _ => True)
      (fun _ task => TaskAnswered P task) (fun _ _ => True) where
  start := by
    intro w request w' task _ h
    refine ⟨trivial, trivial, ?_⟩
    cases starts h with
    | rejected => exact ⟨by simp, by simp⟩
    | postStatus =>
      refine ⟨fun c hc order event hpc => ?_, by simp⟩
      rw [← Option.some.inj hc] at hpc
      exact StatusValidation.Pc.noConfusion hpc
    | _ => trivial
  act := by
    intro w task input w' task' _ htask _ h
    refine ⟨trivial, trivial, ?_⟩
    cases steps h with
    | validate hr =>
      refine ⟨fun c hc => ?_, by simp⟩
      rw [← Option.some.inj hc]
      exact (StatusValidation.steps hr).answered
    | @accept call order event now hpc => exact ⟨htask.1, fun _ => ⟨call, order, event, rfl, hpc⟩⟩
    | @reply call reply now hreply =>
      exact ⟨htask.1, fun haccepted => absurd (Option.some.inj haccepted) hreply⟩
    | _ => trivial
  stable := fun _ _ _ htask => htask

theorem Reachable.taskAnswered (h : Reachable P config s) :
    ∀ task ∈ s.activations, TaskAnswered P task :=
  (Interleave.invariant (relyGuarantee_answered P config) h trivial
    fun _ htask => absurd htask (List.not_mem_nil)).2

/-- A task goes on consuming, or goes on not consuming. -/
theorem Steps.consumption_isSome {w w' : World} {input : Input} {task task' : Task}
    (h : Steps P config w task input w' task') :
    task'.consumption.isSome = task.consumption.isSome := by
  cases h <;> rfl

end System

/-! ### Acceptances -/

namespace Server

variable {S : Setup} {s : State}

/-- What is true of a job throughout. -/
def Job.Kept : Job → Prop
  | .answered response _ => AnsweredAtOnce response
  | .post (.postOrder _) => True
  | .post (.postStatus call reply) => call.isSome = true ∨ reply.isSome = true
  | .post (.consumeOrderCreated _ _) | .post (.consumeStatus _ _) => False
  | .reading _ => True
  | .draining drain => drain.current.consumption.isSome = true

theorem consumption_of_consume {w w' : System.World} {queue : QueueKind} {task : Task}
    (h : System.start S.platform S.app w (consume queue) = some (w', task)) :
    task.consumption.isSome = true := by
  cases queue <;> cases System.starts h <;> rfl

theorem relyGuarantee_kept (S : Setup) :
    Interleave.RelyGuarantee (start S) (act S) (fun _ => True) (fun _ => True)
      (fun _ job => job.Kept) (fun _ _ => True) where
  start := by
    intro w request w' job _ h
    refine ⟨trivial, trivial, ?_⟩
    cases starts h with
    | answered hresponse => exact hresponse
    | cleared => exact List.mem_cons_self ..
    | updateStatus _ _ _ htask =>
      cases System.starts htask with
      | rejected => exact Or.inr rfl
      | postStatus => exact Or.inl rfl
    | draining htask => exact consumption_of_consume htask
    | _ => trivial
  act := by
    intro w job input w' job' _ hjob _ h
    refine ⟨trivial, trivial, ?_⟩
    cases steps h with
    | post htask =>
      cases System.steps htask with
      | createOrder => trivial
      | validate => exact Or.inl rfl
      | accept => exact Or.inl rfl
      | reply => exact Or.inl rfl
      | _ => exact hjob
    | consume htask => exact (System.steps htask).consumption_isSome.trans hjob
    | next _ htask => exact consumption_of_consume htask
    | _ => trivial
  stable := fun _ _ _ hjob => hjob

theorem Reachable.kept (h : Reachable S s) : ∀ job ∈ s.activations, job.Kept :=
  (Interleave.invariant (relyGuarantee_kept S) h trivial
    fun _ hjob => absurd hjob (List.not_mem_nil)).2

/-- The task of a job of the server is a task of the application. -/
theorem Reachable.task_of_job {p : Task → Prop} (h : Reachable S s)
    (hp : ∀ s', System.Reachable S.platform S.app s' → ∀ task ∈ s'.activations, p task) :
    ∀ job ∈ s.activations, ∀ t, task job = some t → p t := by
  intro job hjob t ht
  obtain ⟨s', hs', hembedded⟩ := h.system
  exact hp s' hs' t (hembedded.embeds.mem hjob ht)

/-- The request was answered 201 or 202. -/
def Job.accepted (job : Job) : Bool :=
  job.response.any fun response => response.statusCode = 201 || response.statusCode = 202

/-- What a request that was answered 201 or 202 has sent, and that no other job has sent anything.
-/
inductive Receipt (P : Platform) : Job → List Payload → Prop
  | none {job} : job.accepted = false → Receipt P job []
  | created {call order} : call.pc = .returned (.ok ⟨order, true⟩) →
      (Job.post (.postOrder call)).response = some ⟨201, .order order.id order.status.text⟩ →
      Receipt P (.post (.postOrder call)) [.orderCreated (orderCreatedPayload order)]
  | accepted {call event} : (Job.post (.postStatus (some call) (some .accepted))).response
        = some ⟨202, .accepted⟩ →
      event.eventId = call.input.eventId → event.status = call.input.status →
      P.toISOString call.input.atTime = some event.atTime →
      Receipt P (.post (.postStatus (some call) (some .accepted)))
        [.statusUpdate call.orderId event]

/-- An error is no acceptance. -/
theorem accepted_of_error {job : Job} {error : ServiceError}
    (h : job.response = some error.response) : job.accepted = false := by
  have hcode : 400 ≤ error.response.statusCode := error.le_statusCode
  rw [Job.accepted, h, Option.any_some, Bool.or_eq_false_iff, decide_eq_false_iff_not,
    decide_eq_false_iff_not]
  omega

theorem receipt_postOrder (P : Platform) (call : CreateOrder) :
    Receipt P (.post (.postOrder call)) (Job.post (.postOrder call)).receipts := by
  obtain ⟨payload, key, pc⟩ := call
  rcases pc with _ | _ | _ | (error | ⟨order, _ | _⟩)
  · exact .none rfl
  · exact .none rfl
  · exact .none rfl
  · cases error with
    | delivery => exact .none (accepted_of_error rfl)
    | _ => exact .none rfl
  · exact .none rfl
  · exact .created rfl rfl

theorem receipt_postStatus {P : Platform} {call : Option StatusValidation} {reply : Option Reply}
    (h : TaskAnswered P (.postStatus call reply)) :
    Receipt P (.post (.postStatus call reply)) (Job.post (.postStatus call reply)).receipts := by
  rcases reply with _ | reply
  · cases call <;> exact .none rfl
  · cases reply with
    | accepted =>
      obtain ⟨c, order, event, rfl, hpc⟩ := h.2 rfl
      obtain ⟨hid, hstatus, htime⟩ := h.1 c rfl order event hpc
      have hreceipts : (Job.post (.postStatus (some c) (some .accepted))).receipts
          = [.statusUpdate c.orderId event] := by
        show System.validatedPayloads c = _
        rw [System.validatedPayloads, hpc]
      rw [hreceipts]
      exact .accepted rfl hid hstatus htime
    | rethrown error => cases call <;> exact .none (accepted_of_error rfl)
    | _ => cases call <;> exact .none rfl

/-- Every job has the receipt that its response calls for. -/
theorem receipt_of_kept {P : Platform} {job : Job} (hkept : job.Kept)
    (hanswered : ∀ t, task job = some t → TaskAnswered P t) : Receipt P job job.receipts := by
  cases job with
  | answered response cleared =>
    refine .none ?_
    have hcode : response.statusCode ∈ [200, 400, 413, 415, 429] := hkept
    simp only [Job.accepted, Job.response, Option.any_some, Bool.or_eq_false_iff,
      decide_eq_false_iff_not]
    simp only [List.mem_cons, List.not_mem_nil, or_false] at hcode
    omega
  | post task =>
    cases task with
    | postOrder call => exact receipt_postOrder P call
    | postStatus call reply => exact receipt_postStatus (hanswered _ rfl)
    | _ => exact .none rfl
  | reading call =>
    obtain ⟨orderId, _ | (error | order)⟩ := call
    · exact .none rfl
    · cases error with
      | delivery => exact .none (accepted_of_error rfl)
      | _ => exact .none rfl
    · refine .none ?_
      simp only [Job.accepted, Job.response, getOrderResponse]
      split <;> rfl
  | draining drain =>
    obtain ⟨consumption, hconsumption⟩ := Option.isSome_iff_exists.mp hkept
    have hreceipts : (Job.draining drain).receipts = [] := receipts_of_consumption hconsumption
    rw [hreceipts]
    refine .none ?_
    obtain ⟨queue, answers, processed, current⟩ := drain
    obtain ⟨queueName, pc⟩ := consumption
    cases answers with
    | false => rfl
    | true =>
      cases pc with
      | failed message =>
        cases herror : handlerError current with
        | none => simp [Job.accepted, Job.response, Drain.response, hconsumption, herror]
        | some error =>
          have hresponse : (Job.draining ⟨queue, true, processed, current⟩).response
              = some error.response := by
            simp [Job.response, Drain.response, hconsumption, herror]
          exact accepted_of_error hresponse
      | _ => simp [Job.accepted, Job.response, Drain.response, hconsumption]

theorem Receipt.length_eq {P : Platform} {job : Job} {payloads : List Payload}
    (h : Receipt P job payloads) : payloads.length = if job.accepted then 1 else 0 := by
  cases h with
  | none haccepted => rw [haccepted]; rfl
  | created _ hresponse => rw [Job.accepted, hresponse]; rfl
  | accepted hresponse => rw [Job.accepted, hresponse]; rfl

/-- What was sent, and by whom, in one state. -/
structure Accounted (P : Platform) (s : State) : Prop where
  /-- The payloads that were ever sent are those that the jobs have sent, each once. -/
  sent_eq : sentPayloads s.shared = s.activations.flatMap Job.receipts
  receipts : ∀ job ∈ s.activations, Receipt P job job.receipts
  /-- So there are as many messages as requests that were answered 201 or 202. -/
  length_eq : s.shared.queue.sent.length = s.activations.countP Job.accepted

/-- The payloads of all jobs. -/
theorem Reachable.receipts (h : Reachable S s) :
    sentPayloads s.shared = s.activations.flatMap Job.receipts := by
  rw [Interleave.coe_flatMap]
  exact ((balanced_receipts S).reachable h rfl).trans (zero_add _)

theorem Reachable.receipt (h : Reachable S s) {job : Job} (hjob : job ∈ s.activations) :
    Receipt S.platform job job.receipts :=
  receipt_of_kept (h.kept job hjob) (h.task_of_job (fun _ hs' => hs'.taskAnswered) job hjob)

/-- **One message for each acceptance, and no others.** -/
theorem receipts_balance (h : Reachable S s) : Accounted S.platform s := by
  refine ⟨h.receipts, fun _ hjob => h.receipt hjob, ?_⟩
  calc s.shared.queue.sent.length
      = (s.activations.flatMap Job.receipts).length := by
        simpa [sentPayloads] using congrArg Multiset.card h.receipts
    _ = s.activations.countP Job.accepted :=
        Interleave.length_flatMap_eq_countP fun job hjob => (h.receipt hjob).length_eq

theorem receipts_balance_clearedAndProcessed :
    ∃ s, Run.run (step .reference) init clearedAndProcessed = some s ∧
      s.activations.map Job.accepted = [true, true, true, false, false, false] ∧
      Accounted .reference s := by
  have hrun : (Run.run (step .reference) init clearedAndProcessed).map
      (fun s => s.activations.map Job.accepted) = some [true, true, true, false, false, false] := by
    decide +kernel
  obtain ⟨s, hs, hobs⟩ := Option.map_eq_some_iff.mp hrun
  exact ⟨s, hs, hobs, receipts_balance (S := .reference) ⟨_, fun a _ => a.inputs_true, hs⟩⟩

end Server

end OrderProcessing
