import OrderProcessing.Accounting
import OrderProcessing.Processed
import OrderProcessing.Reads

/-!
# What was accepted can be found

A request that was answered 201 or 202 has left one message of its own, and nothing that the server
does later makes it disappear without a trace. In every reachable state its order is shipped, or its
update is in the history; or else the message waits in the store, or a loop has it in hand, or
somebody has cleared the queue. So while no queue is cleared, and no loop is running, everything
that was accepted is done or still waits.

Some of it waits for good. A status request is checked against the order as it is then, and another
update may be applied first. Once an order is delivered, an update of it that is not recorded cannot
be applied any more, and its message returns to the queue after each attempt until somebody clears
the queue.

## Main definitions

* `Server.Whereabouts` — where a message is that was not dealt with
* `Server.AllCompleted` — each accepted request with its message

## Main results

* `Server.accepted_completed`
* `Server.delivered_updates_stay`
-/

namespace OrderProcessing

open OrderRepository

namespace Server

variable {S : Setup} {s t : State}

/-- A message that was sent and not dealt with. -/
inductive Whereabouts (s : State) (message : QueueMessage Payload) : Prop
  | waiting : message ∈ s.shared.queue.store.messages → Whereabouts s message
  | inHand {drain consumption} : .draining drain ∈ s.activations →
      drain.current.consumption = some consumption → consumption.pc = .holding message →
      Whereabouts s message
  | cleared {response messages} : .answered response messages ∈ s.activations →
      message ∈ messages → Whereabouts s message

/-- A message that the task of a loop has is in its hands, or was acknowledged. -/
theorem mem_taskMessages {current : Task} {message : QueueMessage Payload}
    (h : message ∈ taskMessages current) : ∃ consumption, current.consumption = some consumption ∧
      (consumption.pc = .holding message ∨ consumption.Acknowledges message) := by
  have hconsumption : ∀ consumption : Consumption Payload,
      message ∈ (Queue.Activation.consumer consumption).content →
      consumption.pc = .holding message ∨ consumption.Acknowledges message := by
    rintro ⟨queueName, pc⟩ hmem
    cases pc with
    | holding held => exact Or.inl (congrArg _ (List.mem_singleton.mp hmem).symm)
    | acknowledged returned now =>
      exact Or.inr ⟨now, by rw [List.mem_singleton.mp hmem]⟩
    | _ => exact absurd hmem List.not_mem_nil
  cases current with
  | consumeOrderCreated consumption => exact ⟨consumption, rfl, hconsumption consumption h⟩
  | consumeStatus consumption => exact ⟨consumption, rfl, hconsumption consumption h⟩
  | _ => exact absurd h List.not_mem_nil

/-- Every message that was sent was dealt with, or it can be found. -/
theorem done_or_whereabouts (hqueues : S.app.orderCreatedQueue ≠ S.app.orderStatusQueue)
    {p : System.Input → Prop} (h : Run.Reachable (step S) (Within p) init s)
    {message : QueueMessage Payload} (hsent : message ∈ s.shared.queue.sent) :
    System.Done (∀ input, p input → input.namesShipment) s.shared message.payload ∨
      Whereabouts s message := by
  have hreach := reachable_of_within h
  have hmem : message ∈ (s.shared.queue.store.messages : Multiset (QueueMessage Payload))
      + s.activations.flatMap Job.messages := by
    rw [← hreach.messages]
    exact Multiset.mem_coe.mpr hsent
  rcases Multiset.mem_add.mp hmem with hstored | htaken
  · exact Or.inr (.waiting (Multiset.mem_coe.mp hstored))
  · obtain ⟨job, hjob, hmessage⟩ := List.mem_flatMap.mp (Multiset.mem_coe.mp htaken)
    cases job with
    | answered => exact Or.inr (.cleared hjob hmessage)
    | post current =>
      have hkept := hreach.kept _ hjob
      cases current with
      | postOrder => exact absurd hmessage List.not_mem_nil
      | postStatus => exact absurd hmessage List.not_mem_nil
      | _ => exact hkept.elim
    | reading => exact absurd hmessage List.not_mem_nil
    | draining drain =>
      rcases List.mem_append.mp hmessage with hprocessed | hcurrent
      · obtain ⟨returned, hreturned, rfl⟩ := List.mem_map.mp hprocessed
        exact Or.inl (recorded hqueues h _ hjob returned hreturned)
      · obtain ⟨consumption, hconsumption, hheld | hack⟩ := mem_taskMessages hcurrent
        · exact Or.inr (.inHand hjob hconsumption hheld)
        · exact Or.inl (done_of_acknowledged hqueues h hjob rfl hconsumption hack)

/-- What has become of a request that was answered 201 or 202, and of its message. -/
structure Completed (P : Platform) (named : Prop) (s : State) (job : Job)
    (message : QueueMessage Payload) : Prop where
  /-- The request has sent this message, and no other. -/
  receipt : Receipt P job [message.payload]
  completed : System.Done named s.shared message.payload ∨ Whereabouts s message

/-- What has become of all these requests, of which each has a message of its own. -/
structure AllCompleted (P : Platform) (named : Prop) (s : State)
    (messages : List (QueueMessage Payload)) : Prop where
  /-- These are the messages that were ever sent. -/
  perm : messages.Perm s.shared.queue.sent
  nodup : messages.Nodup
  completed : List.Forall₂ (Completed P named s) (s.activations.filter Job.accepted) messages

/-- **Everything that was accepted is done, or can be found.** -/
theorem accepted_completed (hqueues : S.app.orderCreatedQueue ≠ S.app.orderStatusQueue)
    {p : System.Input → Prop} (h : Run.Reachable (step S) (Within p) init s) :
    ∃ messages, AllCompleted S.platform (∀ input, p input → input.namesShipment) s messages := by
  have hreach := reachable_of_within h
  have hlength : ∀ job ∈ s.activations, job.receipts.length = if job.accepted then 1 else 0 :=
    fun job hjob => (hreach.receipt hjob).length_eq
  have hsent : (s.shared.queue.sent.map QueueMessage.payload).Perm
      (s.activations.flatMap Job.receipts) := Multiset.coe_eq_coe.mp hreach.receipts
  obtain ⟨messages, hperm, hown⟩ := Interleave.exists_perm_forall₂ hlength hsent
  refine ⟨messages, hperm, hperm.nodup_iff.mpr hreach.sent_nodup, ?_⟩
  -- the messages are those that were sent, and the jobs are those of the run
  have hmessages : ∀ message ∈ messages, message ∈ s.shared.queue.sent := fun _ hmem =>
    hperm.subset hmem
  have hjobs : ∀ job ∈ s.activations.filter Job.accepted, job ∈ s.activations := fun _ hmem =>
    List.mem_of_mem_filter hmem
  have hboth := (List.forall₂_and_left _ _).mpr ⟨hmessages, hown.flip⟩
  refine ((List.forall₂_and_left _ _).mpr ⟨hjobs, hboth.flip⟩).imp ?_
  rintro job message ⟨hjob, hmessage, hreceipts⟩
  exact ⟨hreceipts ▸ hreach.receipt hjob, done_or_whereabouts hqueues h hmessage⟩

theorem accepted_completed_clearedAndProcessed :
    ∃ s, Run.run (step .reference) init clearedAndProcessed = some s ∧
      s.activations.map Job.accepted = [true, true, true, false, false, false] ∧
      ∃ messages, AllCompleted .reference
        (∀ input, System.Input.namesShipment input → input.namesShipment) s messages := by
  have hrun : (Run.run (step .reference) init clearedAndProcessed).map
      (fun s => s.activations.map Job.accepted) = some [true, true, true, false, false, false] := by
    decide +kernel
  obtain ⟨s, hs, hobs⟩ := Option.map_eq_some_iff.mp hrun
  exact ⟨s, hs, hobs, accepted_completed (S := .reference) Setup.reference_queues
    ⟨_, by decide +kernel, hs⟩⟩

/-! ### What waits for good -/

/-- A delivered order has the history that it will always have. -/
theorem history_eq_of_delivered (h : Reachable S s) {order : OrderRecord}
    (horder : order ∈ s.shared.orders.docs) (hdelivered : order.status = .delivered)
    (hrun : Leads S s t) :
    ∃ o, findById t.shared.orders order.id = some o ∧ o.statusHistory = order.statusHistory := by
  obtain ⟨o, ho, hext, -, -⟩ := exists_later h hrun (findById_of_mem horder)
  have ht : Reachable S t := Run.Reachable.trans h hrun
  have hlast : o.status.rank ≤ order.status.rank := by
    rw [hdelivered]
    exact o.status.rank_le_two
  have hwf := ht.wellFormed.of_findById ho
  exact ⟨o, ho, (hext.status_eq_of_rank_le (h.wellFormed order horder) hwf hlast).2⟩

/-- **An update of a delivered order stays**, if it is not recorded: whatever runs, its message
waits or a loop has it in hand, until the queue is cleared. -/
theorem delivered_updates_stay (hqueues : S.app.orderCreatedQueue ≠ S.app.orderStatusQueue)
    (h : Reachable S s) {order : OrderRecord} (horder : order ∈ s.shared.orders.docs)
    (hdelivered : order.status = .delivered) {event : StatusEvent}
    (hnew : order.hasEvent event.eventId = false) (hrun : Leads S s t)
    {message : QueueMessage Payload} (hsent : message ∈ t.shared.queue.sent)
    (hpayload : message.payload = .statusUpdate order.id event) : Whereabouts t message := by
  have ht := within_true_of_run (Run.Reachable.trans h hrun)
  rcases done_or_whereabouts hqueues ht hsent with hdone | hfound
  · rw [hpayload] at hdone
    obtain ⟨o, ho, hevent⟩ := hdone
    obtain ⟨o', ho', hhistory⟩ := history_eq_of_delivered h horder hdelivered hrun
    obtain rfl := Option.some.inj (ho.symm.trans ho')
    rw [OrderRecord.hasEvent, hhistory] at hevent
    exact absurd hevent (Bool.eq_false_iff.mp hnew)
  · exact hfound

/-- Two updates are accepted that ask for the same, and the order goes on with one of them. -/
def overtaken : List Action :=
  creating 0 "key" "id" "2024-05-01T10:00:00.000Z" ++
    updating 1 "id" "e1" "SHIPPED" "2024-05-02T10:00:00.000Z" "2024-05-02T10:00:01.000Z" ++
    updating 2 "id" "e2" "SHIPPED" "2024-05-02T10:00:00.000Z" "2024-05-02T10:00:02.000Z" ++
    [.invoke (.tick .orderStatus), .resume 3 (.task (.call (.find .ok))),
      .resume 3 (.task (.call (.findOneAndUpdate "2024-05-02T10:00:03.000Z" .ok))),
      .resume 3 (.task (.settle "2024-05-02T10:00:04.000Z"))] ++
    updating 4 "id" "e3" "DELIVERED" "2024-05-03T10:00:00.000Z" "2024-05-03T10:00:01.000Z" ++
    [.resume 3 .next, .invoke (.tick .orderStatus), .resume 5 (.task (.call (.find .ok))),
      .resume 5 (.task (.call (.findOneAndUpdate "2024-05-03T10:00:02.000Z" .ok)))]

/-- The poller and a debug route try the other one. -/
def overtakenRest : List Action :=
  [.resume 3 (.task (.call (.find .ok))), .resume 3 (.task (.settle "2024-05-03T10:00:03.000Z")),
    .invoke (.http none (.processQueue .orderStatus)), .resume 6 (.task (.call (.find .ok))),
    .resume 6 (.task (.settle "2024-05-03T10:00:04.000Z"))]

theorem delivered_updates_stay_overtaken :
    ∃ s t order message, Run.run (step .reference) init overtaken = some s ∧
      Run.run (step .reference) s overtakenRest = some t ∧ s.shared.orders.docs = [order] ∧
      order.status = .delivered ∧ t.shared.queue.sent[2]? = some message ∧
      message.payload = .statusUpdate order.id ⟨"e2", .shipped, "2024-05-02T10:00:00.000Z"⟩ ∧
      Whereabouts t message := by
  refine ⟨_, _, _, _, rfl, rfl, rfl, rfl, rfl, rfl, ?_⟩
  exact delivered_updates_stay (S := .reference) Setup.reference_queues
    ⟨overtaken, fun a _ => a.inputs_true, rfl⟩ List.mem_cons_self rfl rfl
    ⟨overtakenRest, fun a _ => a.inputs_true, rfl⟩ (List.mem_of_getElem? (i := 2) rfl) rfl

end Server

end OrderProcessing
