import OrderProcessing.Accounting

/-!
# Where a history comes from

The first entry of a history is written with the order. Every later entry was appended by the status
handler, from a message; the message was put into the queue by a status request; and that request
was answered 202. The entry has the event id and the status that this request asked for, and its
timestamp in canonical form. The message may have been cleared, and the consumer may have failed
afterwards: the history has the entry all the same.

## Main definitions

* `OrderRecord.Founded` — the first entry
* `System.World.HistorySent` — every later entry was sent

## Main results

* `Server.history_explained`
-/

namespace OrderProcessing

open OrderRepository

/-! ### One step of a call -/

section Steps

variable {P : Platform} {config : AppConfig} {c : Collection} {input : Input} {call : Call}
  {r : Reaction Call} {o : OrderRecord}

/-- The history begins with the creation of the order. -/
def OrderRecord.Founded (o : OrderRecord) : Prop :=
  ∃ later, o.statusHistory =
    ⟨"order-created-" ++ o.requestId, .pendingShipment, o.createdAt⟩ :: later

theorem OrderRecord.Founded.of_extends {o' : OrderRecord} (h : o.Founded) (hext : o.Extends o') :
    o'.Founded := by
  obtain ⟨later, hlater⟩ := h
  obtain ⟨new, hnew⟩ := hext.history_prefix
  refine ⟨later ++ new, ?_⟩
  rw [← hnew, hlater, hext.requestId_eq, hext.createdAt_eq]
  rfl

theorem Call.Steps.founded (hc : ∀ o ∈ c.docs, o.Founded)
    (h : Call.Steps P config c call input r) : ∀ o ∈ r.orders.docs, o.Founded := by
  intro o ho
  rcases h.mem_orders ho with ⟨o₀, ho₀, hext⟩ | ⟨create, payloadHash, uuid, now, -, -, rfl⟩
  · exact (hc o₀ ho₀).of_extends hext
  · exact ⟨[], rfl⟩

/-- Where the history of a document comes from: it is as before, or the order is new, or a status
update has appended its event. -/
inductive HistoryFrom (c : Collection) (call : Call) (o : OrderRecord) : Prop
  | kept {o₀} : o₀ ∈ c.docs → o₀.id = o.id → o.statusHistory = o₀.statusHistory →
      HistoryFrom c call o
  | created {entry} : o.statusHistory = [entry] → HistoryFrom c call o
  | appended {update snapshot event o₀} : call = .applyStatusUpdate update →
      update.pc = .append snapshot event → update.orderId = o.id → o₀ ∈ c.docs → o₀.id = o.id →
      o.statusHistory = o₀.statusHistory ++ [event] → HistoryFrom c call o

namespace HistoryFrom

variable {orders' : Collection}

theorem of_mem (ho : o ∈ c.docs) : HistoryFrom c call o := .kept ho rfl rfl

theorem of_create {order : OrderRecord} {entry : StatusEvent} (h : create c order = some orders')
    (hentry : order.statusHistory = [entry]) (ho : o ∈ orders'.docs) : HistoryFrom c call o := by
  rcases (mem_create h).mp ho with ho | rfl
  · exact of_mem ho
  · exact .created hentry

theorem of_append {update : StatusUpdate} {snapshot updated : OrderRecord} {event : StatusEvent}
    {version : ℕ} {now : String} (hpc : update.pc = .append snapshot event)
    (h : appendStatusEvent c update.orderId event event.status version now
      = (some updated, orders')) (ho : o ∈ orders'.docs) :
    HistoryFrom c (.applyStatusUpdate update) o := by
  obtain ⟨o₀, ho₀, -, -, hupd, -⟩ := appendStatusEvent_eq_some_iff.mp h
  obtain ⟨hmem, hid⟩ := findById_eq_some_iff.mp ho₀
  have hfind := findById_of_mem ho
  rw [findById_appendStatusEvent h] at hfind
  split at hfind
  · next heq =>
    obtain rfl := Option.some.inj hfind
    refine .appended rfl hpc heq.symm hmem (hid.trans heq.symm) ?_
    rw [hupd]
    rfl
  · exact of_mem (findById_eq_some_iff.mp hfind).1

theorem of_updateShipmentMetadata {orderId now : String} {metadata : ShipmentMetadata}
    (ho : o ∈ (updateShipmentMetadata c orderId metadata now).docs) : HistoryFrom c call o := by
  have hfind := findById_of_mem ho
  rw [findById_updateShipmentMetadata] at hfind
  obtain ⟨o₀, ho₀, heq⟩ := Option.map_eq_some_iff.mp hfind
  obtain ⟨hmem, hid⟩ := findById_eq_some_iff.mp ho₀
  refine .kept hmem hid ?_
  rw [← heq]
  split <;> rfl

end HistoryFrom

theorem Call.Steps.history (h : Call.Steps P config c call input r) (ho : o ∈ r.orders.docs) :
    HistoryFrom c call o := by
  cases h with
  | createOrder hr =>
    cases hr with
    | inserted _ hcreate => exact .of_create hcreate rfl ho
    | landed _ hcreate => exact .of_create hcreate rfl ho
    | _ => exact .of_mem ho
  | applyStatusUpdate hr =>
    cases hr with
    | appended hpc hwrite => exact .of_append hpc hwrite ho
    | landed hpc hwrite => exact .of_append hpc hwrite ho
    | _ => exact .of_mem ho
  | validateStatusUpdate hr => cases hr <;> exact .of_mem ho
  | handleOrderCreatedEvent hr =>
    cases hr with
    | stored => exact .of_updateShipmentMetadata ho
    | landed => exact .of_updateShipmentMetadata ho
    | _ => exact .of_mem ho

theorem Service.Reachable.founded {p : Input → Prop} {s : Service.State}
    (h : Service.Reachable P config p s) : ∀ o ∈ s.shared.orders.docs, o.Founded := by
  have hrely : Interleave.RelyGuarantee Service.start (Service.act P config) p
      (fun w => ∀ o ∈ w.orders.docs, o.Founded) (fun _ _ => True) (fun _ _ => True) := by
    refine ⟨?_, ?_, fun _ _ _ _ => trivial⟩
    · intro w request w' call hw hstart
      obtain ⟨rfl, rfl⟩ := Prod.mk.inj (Option.some.inj hstart)
      exact ⟨hw, trivial, trivial⟩
    · intro w call input w' call' hw _ _ hact
      obtain ⟨r, hr, rfl, rfl⟩ := Service.act_steps hact
      exact ⟨hr.founded hw, trivial, trivial⟩
  exact (Interleave.invariant hrely h (fun _ ho => absurd ho List.not_mem_nil)
    fun _ _ => trivial).1

end Steps

/-! ### One step of the application -/

namespace System

variable {P : Platform} {config : AppConfig} {w w' : World} {task task' : Task} {s t : State}

/-- Every entry after the first was sent as a status update of its order. -/
def World.HistorySent (w : World) : Prop :=
  ∀ o ∈ w.orders.docs, ∀ entry ∈ o.statusHistory.tail,
    ∃ message ∈ w.queue.sent, message.payload = .statusUpdate o.id entry

/-- Only the status consumer applies status updates. -/
theorem exists_of_serviceCall {update : StatusUpdate}
    (h : serviceCall task = .applyStatusUpdate update) :
    ∃ consumption, task = .consumeStatus consumption (some update) := by
  rcases task with _ | ⟨_ | _, _⟩ | ⟨_, _ | _⟩ | ⟨consumption, _ | call⟩
  case consumeStatus.some =>
    obtain rfl := Call.applyStatusUpdate.inj h
    exact ⟨consumption, rfl⟩
  all_goals exact Call.noConfusion h

/-- What was sent stays sent. -/
theorem Steps.sent_subset {input : Input} (h : Steps P config w task input w' task') :
    w.queue.sent ⊆ w'.queue.sent := by
  rcases h.queue with ⟨hqueue, -⟩ | ⟨input', hinput'⟩
  · rw [hqueue]
    exact List.Subset.refl _
  · generalize queueActivation task = k at hinput'
    rcases k with _ | call
    · rcases input' with ⟨queueName, payload, now⟩ | _
      · obtain ⟨hqueue, -⟩ := Prod.mk.inj (Option.some.inj hinput')
        rw [← hqueue]
        exact List.subset_append_left _ _
      · simp [Queue.act] at hinput'
    · rcases input' with _ | ⟨succeeded, now⟩
      · simp [Queue.act] at hinput'
      · obtain ⟨r, hr, heq⟩ := Option.map_eq_some_iff.mp hinput'
        obtain ⟨hqueue, -⟩ := Prod.mk.inj heq
        rw [← hqueue, Consumption.sent_of_settle hr]
        exact List.Subset.refl _

/-- A handler that is about to append an event holds the message with this event. -/
theorem Reachable.holding_of_append (h : Reachable P config s)
    {consumption : Consumption Payload} {call : StatusUpdate}
    (htask : .consumeStatus consumption (some call) ∈ s.activations) {snapshot : OrderRecord}
    {event : StatusEvent} (hpc : call.pc = .append snapshot event) :
    ∃ message, consumption.pc = .holding message ∧
      message.payload = .statusUpdate call.orderId event := by
  have hagrees := h.agrees.2 _ htask
  have hprepared := h.prepared.2 _ htask
  simp only [TaskAgrees, StatusUpdate.outcome, hpc] at hagrees
  simp only [serviceCall, Call.Prepared, StatusUpdate.Prepared, hpc] at hprepared
  obtain ⟨message, hholding, -, hid, hinput⟩ := hagrees.holding
  obtain ⟨-, update, hupdate, -, -, heventId, hstatus, htime⟩ :=
    prepareStatusUpdate_eq_event_iff.mp hprepared.2.1
  have hcanonical : P.toISOString update.atTime = some update.atTime := by
    have hmem : message.payload ∈ payloads (.consumeStatus consumption (some call)) := by
      simp [payloads, heldPayloads, taken, hholding]
    obtain ⟨o, -, hadmissible⟩ := (h.allAdmissible.2 _ htask).2 _ hmem
    exact (hadmissible update (hinput.symm.trans hupdate)).2.2
  have hatTime : event.atTime = update.atTime := Option.some.inj (htime.symm.trans hcanonical)
  refine ⟨message, hholding, ?_⟩
  rw [hupdate] at hinput
  cases hpayload : message.payload with
  | orderCreated payload =>
    rw [hpayload] at hinput
    exact absurd hinput (by simp [Payload.event])
  | statusUpdate orderId event' =>
    rw [hpayload] at hinput hid
    obtain rfl := Option.some.inj hinput
    obtain ⟨eventId, status, atTime⟩ := event
    obtain ⟨eventId', status', atTime'⟩ := event'
    obtain rfl : eventId = eventId' := heventId
    obtain rfl : status = status' := hstatus
    obtain rfl : atTime = atTime' := hatTime
    rw [hid]
    rfl

theorem World.HistorySent.step {a : Action} (h : Reachable P config s) (hs : s.shared.HistorySent)
    (hstep : step P config s a = some t) : t.shared.HistorySent := by
  cases a with
  | invoke request =>
    obtain ⟨w, task, hstart, rfl⟩ := Interleave.step_invoke_eq_some.mp hstep
    cases starts hstart <;> exact hs
  | resume i input =>
    obtain ⟨task, w, task', hi, hact, rfl⟩ := Interleave.step_resume_eq_some.mp hstep
    have hsteps := steps hact
    have hmem := List.mem_of_getElem? hi
    have hsent := hsteps.sent_subset
    intro o ho entry hentry
    have hbefore : ∀ o₀ ∈ s.shared.orders.docs, o₀.id = o.id → entry ∈ o₀.statusHistory.tail →
        ∃ message ∈ w.queue.sent, message.payload = .statusUpdate o.id entry := by
      intro o₀ ho₀ hid hentry
      obtain ⟨message, hmessage, hpayload⟩ := hs o₀ ho₀ entry hentry
      exact ⟨message, hsent hmessage, by rw [hpayload, hid]⟩
    rcases hsteps.service with ⟨hservice, -⟩ | ⟨input, r, hr, hservice, -⟩
    · have horders : w.orders = s.shared.orders := by rw [World.orders, hservice]
      exact hbefore o (horders ▸ ho) rfl hentry
    · have horders : w.orders = r.orders := by
        rw [World.orders, hservice, OrderProcessing.World.after]
      cases (Call.steps hr).history (horders ▸ ho) with
      | kept ho₀ hid hhistory => exact hbefore _ ho₀ hid (hhistory ▸ hentry)
      | created hhistory =>
        rw [hhistory] at hentry
        exact absurd hentry List.not_mem_nil
      | @appended call snapshot event o₀ hcall hpc hid ho₀ hid₀ hhistory =>
        have hne := (h.prepared.1 o₀ ho₀).history_ne_nil
        rw [hhistory, List.tail_append_of_ne_nil hne] at hentry
        rcases List.mem_append.mp hentry with hentry | hentry
        · exact hbefore o₀ ho₀ hid₀ hentry
        · obtain rfl := List.mem_singleton.mp hentry
          obtain ⟨consumption, rfl⟩ := exists_of_serviceCall hcall
          obtain ⟨message, hholding, hpayload⟩ := h.holding_of_append hmem hpc
          exact ⟨message, hsent (h.mem_sent hmem rfl (Or.inl hholding)), by rw [hpayload, hid]⟩

/-- Every later entry was sent, in every reachable state. -/
theorem Reachable.historySent (h : Reachable P config s) : s.shared.HistorySent := by
  have hboth : Reachable P config s ∧ s.shared.HistorySent := by
    refine Run.Reachable.invariant (I := fun u => Reachable P config u ∧ u.shared.HistorySent) h
      ⟨.refl init, fun _ ho => absurd ho List.not_mem_nil⟩ ?_
    rintro u a v ⟨hu, hsent⟩ ha hstep
    exact ⟨Run.Reachable.tail hu ha hstep, World.HistorySent.step hu hsent hstep⟩
  exact hboth.2

end System

/-! ### The requests behind a history -/

namespace Server

variable {S : Setup} {s : State}

/-- The request that has sent a message was answered with an acceptance. -/
theorem Reachable.exists_receipt (h : Reachable S s) {message : QueueMessage Payload}
    (hmem : message ∈ s.shared.queue.sent) :
    ∃ job ∈ s.activations, ∃ payloads, Receipt S.platform job payloads ∧
      message.payload ∈ payloads := by
  have hpayload : message.payload ∈ sentPayloads s.shared := List.mem_map_of_mem hmem
  rw [h.receipts] at hpayload
  obtain ⟨job, hjob, hreceipt⟩ := List.mem_flatMap.mp (Multiset.mem_coe.mp hpayload)
  exact ⟨job, hjob, _, h.receipt hjob, hreceipt⟩

/-- How the history of an order came about. -/
structure HistoryExplained (P : Platform) (s : State) (o : OrderRecord) : Prop where
  /-- The first entry was written when the order was created. -/
  first : o.statusHistory.head? =
    some ⟨"order-created-" ++ o.requestId, .pendingShipment, o.createdAt⟩
  /-- Every later one is what a status request asked for, and this request was answered 202. -/
  later : ∀ entry ∈ o.statusHistory.tail, ∃ call : StatusValidation,
    .post (.postStatus (some call) (some .accepted)) ∈ s.activations ∧ call.orderId = o.id ∧
      entry.eventId = call.input.eventId ∧ entry.status = call.input.status ∧
      P.toISOString call.input.atTime = some entry.atTime

/-- **Every history consists of the creation and of accepted status updates.** -/
theorem history_explained (h : Reachable S s) :
    ∀ o ∈ s.shared.orders.docs, HistoryExplained S.platform s o := by
  intro o ho
  obtain ⟨s', hs', hembedded⟩ := h.system
  have hshared : s'.shared = s.shared := hembedded.shared
  refine ⟨?_, fun entry hentry => ?_⟩
  · obtain ⟨later, hlater⟩ := hs'.service.founded o (by
      show o ∈ s'.shared.orders.docs
      rwa [hshared])
    rw [hlater]
    rfl
  · obtain ⟨message, hmem, hpayload⟩ := hs'.historySent o (hshared ▸ ho) entry hentry
    obtain ⟨job, hjob, payloads, hreceipt, hmessage⟩ := h.exists_receipt (hshared ▸ hmem)
    rw [hpayload] at hmessage
    cases hreceipt with
    | none => exact absurd hmessage List.not_mem_nil
    | created => exact absurd (List.mem_singleton.mp hmessage) (by simp)
    | @accepted call event _ hid hstatus htime =>
      obtain ⟨horderId, rfl⟩ := Payload.statusUpdate.inj (List.mem_singleton.mp hmessage)
      exact ⟨call, hjob, horderId.symm, hid, hstatus, htime⟩

/-- An order is shipped and delivered by two accepted updates, with a third one accepted under the
event id of the first. -/
def shippedAndDelivered : List Action :=
  creating 0 "key" "id" "2024-05-01T10:00:00.000Z" ++
    updating 1 "id" "e1" "SHIPPED" "2024-05-02T10:00:00.000Z" "2024-05-02T10:00:01.000Z" ++
    updating 2 "id" "e1" "SHIPPED" "2024-05-02T10:00:00.000Z" "2024-05-02T10:00:02.000Z" ++
    [.invoke (.tick .orderStatus), .resume 3 (.task (.call (.find .ok))),
      .resume 3 (.task (.call (.findOneAndUpdate "2024-05-02T10:00:03.000Z" .ok))),
      .resume 3 (.task (.settle "2024-05-02T10:00:04.000Z")), .resume 3 .next,
      .resume 3 (.task (.call (.find .ok))),
      .resume 3 (.task (.settle "2024-05-02T10:00:05.000Z"))] ++
    updating 4 "id" "e2" "DELIVERED" "2024-05-03T10:00:00.000Z" "2024-05-03T10:00:01.000Z" ++
    [.resume 3 .next, .resume 3 (.task (.call (.find .ok))),
      .resume 3 (.task (.call (.findOneAndUpdate "2024-05-03T10:00:02.000Z" .landed)))]

theorem history_explained_shippedAndDelivered :
    ∃ s, Run.run (step .reference) init shippedAndDelivered = some s ∧
      (s.shared.orders.docs.map fun o => o.statusHistory.map StatusEvent.eventId)
        = [["order-created-key", "e1", "e2"]] ∧
      ∀ o ∈ s.shared.orders.docs, HistoryExplained .reference s o := by
  have hrun : (Run.run (step .reference) init shippedAndDelivered).map
      (fun s => s.shared.orders.docs.map fun o => o.statusHistory.map StatusEvent.eventId)
      = some [["order-created-key", "e1", "e2"]] := by decide +kernel
  obtain ⟨s, hs, hobs⟩ := Option.map_eq_some_iff.mp hrun
  exact ⟨s, hs, hobs, history_explained (S := .reference) ⟨_, fun a _ => a.inputs_true, hs⟩⟩

end Server

end OrderProcessing
