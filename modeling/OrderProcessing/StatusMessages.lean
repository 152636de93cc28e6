import OrderProcessing.System

/-!
# The messages of the status queue

A status update is validated when its message is sent and again when the message is handled, and in
between the order may have moved on. What stays true of every message, in the store, in the hands of
a consumer or about to be sent: its order is stored, and the status it asks for is at most one step
ahead of the order. If it is one step ahead, its event is new to the order.

So a handler that runs alone appends the event of a message that is one step ahead, and changes
nothing for any other message; it throws a `StatusConflictError` for a message that has been
overtaken.

## Main definitions

* `Payload.Admissible` — what is true of every message
* `handleStatus` — the status handler, run alone

## Main results

* `System.relyGuarantee` — every step of every task keeps all messages admissible
* `handleStatus_cases` — what the handler does with an admissible message
* `System.waiting_statusUpdate` — what can happen to an accepted status update
-/

namespace OrderProcessing

open OrderRepository

/-! ### Admissible messages -/

/-- The order of the message is stored; a status update is at most one step ahead of it, and brings
a new event if it is one step ahead. Its timestamp is canonical. -/
def Payload.Admissible (P : Platform) (c : Collection) (payload : Payload) : Prop :=
  ∃ o, findById c payload.orderId = some o ∧ ∀ update, payload.event = some update →
    update.status.rank ≤ o.status.rank + 1 ∧
    (update.status.rank = o.status.rank + 1 → o.hasEvent update.eventId = false) ∧
    P.toISOString update.atTime = some update.atTime

/-- A message stays admissible while the documents only grow: either the order is as before, or the
message is no longer ahead of it. -/
theorem Payload.Admissible.stable {P : Platform} {c c' : Collection} {payload : Payload}
    (hc : c.WellFormed) (hc' : c'.WellFormed) (hext : c.Extends c') (h : payload.Admissible P c) :
    payload.Admissible P c' := by
  obtain ⟨o, ho, hupdate⟩ := h
  obtain ⟨o', ho', hoo'⟩ := hext payload.orderId o ho
  have hwf := hc.of_findById ho
  have hwf' := hc'.of_findById ho'
  refine ⟨o', ho', fun update hevent => ?_⟩
  obtain ⟨hle, hnew, htime⟩ := hupdate update hevent
  have hrank := hoo'.rank_le hwf hwf'
  refine ⟨by omega, fun hahead => ?_, htime⟩
  obtain ⟨-, hhistory⟩ := hoo'.status_eq_of_rank_le hwf hwf' (by omega)
  rw [OrderRecord.hasEvent, hhistory]
  exact hnew (by omega)

/-- A validated update is admissible. -/
theorem admissible_of_prepare {P : Platform} {c : Collection} {orderId : String}
    {update : Option StatusUpdateInput} {order : OrderRecord} {event : StatusEvent}
    (h : prepareStatusUpdate P orderId update (findById c orderId) = .ok (order, some event)) :
    (Payload.statusUpdate orderId event).Admissible P c := by
  obtain ⟨hfound, input, -, hnew, hrank, hid, hstatus, htime⟩ :=
    prepareStatusUpdate_eq_event_iff.mp h
  refine ⟨order, hfound, fun update hevent => ?_⟩
  obtain rfl := Option.some.inj hevent
  refine ⟨?_, fun _ => ?_, P.toISOString_canonical htime⟩
  · rw [hstatus, hrank]
  · rw [hid]
    exact hnew

namespace System

variable {P : Platform} {config : AppConfig} {w w' : World} {task task' : Task}

/-- The message that a consumer holds. -/
def heldPayloads (consumption : Consumption Payload) : List Payload :=
  (taken consumption).toList.map (·.payload)

/-- The status update that a validation has let through. -/
def validatedPayloads (call : StatusValidation) : List Payload :=
  match call.pc with
  | .returned (.ok (_, some event)) => [.statusUpdate call.orderId event]
  | _ => []

/-- The messages that a task holds, and the status update that it is about to send. -/
def payloads : Task → List Payload
  | .postStatus (some call) none => validatedPayloads call
  | .consumeOrderCreated consumption _ => heldPayloads consumption
  | .consumeStatus consumption _ => heldPayloads consumption
  | _ => []

/-- What is true of the database and the queue. -/
def World.Admissible (P : Platform) (w : World) : Prop :=
  w.orders.WellFormed ∧ ∀ message ∈ w.queue.store.messages, message.payload.Admissible P w.orders

/-- What is true of a task. -/
def TaskAdmissible (P : Platform) (w : World) (task : Task) : Prop :=
  (serviceCall task).Prepared P w.orders ∧ ∀ payload ∈ payloads task, payload.Admissible P w.orders

/-- Every message in the store after a step was there before, was held by the task or about to be
sent by it, or is the message of an order that the task has created. -/
theorem Steps.store {input : Input} (h : Steps P config w task input w' task')
    {message : QueueMessage Payload} (hmem : message ∈ w'.queue.store.messages) :
    message ∈ w.queue.store.messages ∨ message.payload ∈ payloads task ∨
      ∃ call order, task = .postOrder call ∧ call.pc = .publish order ∧
        message.payload = .orderCreated (orderCreatedPayload order) := by
  have hsettle : ∀ {consumption consumption' : Consumption Payload} {queue succeeded now},
      consumption.settle w.queue succeeded now = some (queue, consumption') →
      message ∈ queue.store.messages →
      message ∈ w.queue.store.messages ∨ message.payload ∈ heldPayloads consumption := by
    intro consumption consumption' queue succeeded now hsettle hmem
    refine (Consumption.mem_of_settle hsettle hmem).imp_right fun hpc => ?_
    simp [heldPayloads, taken, hpc]
  cases h with
  | @createOrder call input r hr _ =>
    cases CreateOrder.steps hr with
    | @published order sentAt hpc =>
      rcases List.mem_append.mp hmem with hmem | hmem
      · exact Or.inl hmem
      · rw [List.mem_singleton.mp hmem]
        exact Or.inr (Or.inr ⟨call, order, rfl, hpc, rfl⟩)
    | _ => exact Or.inl hmem
  | validate hr =>
    rw [after_queue (not_published_of_validation hr)] at hmem
    exact Or.inl hmem
  | @accept call order event now hpc =>
    rcases List.mem_append.mp hmem with hmem | hmem
    · exact Or.inl hmem
    · rw [List.mem_singleton.mp hmem]
      refine Or.inr (Or.inl ?_)
      rw [payloads, validatedPayloads, hpc]
      exact List.mem_singleton_self _
  | reply => exact Or.inl hmem
  | handleOrderCreated hr =>
    rw [after_queue (not_published_of_orderCreated hr)] at hmem
    exact Or.inl hmem
  | settleOrderCreated _ hs => exact (hsettle hs hmem).imp_right Or.inl
  | handleStatus hr =>
    rw [after_queue (not_published_of_statusUpdate hr)] at hmem
    exact Or.inl hmem
  | settleStatus _ hs => exact (hsettle hs hmem).imp_right Or.inl

/-- A message that a task has after a step it had before, or it is a status update that the step has
validated. -/
theorem Steps.payloads {input : Input} (h : Steps P config w task input w' task')
    {payload : Payload} (hmem : payload ∈ System.payloads task') :
    payload ∈ System.payloads task ∨ (w'.orders = w.orders ∧ payload.Admissible P w.orders) := by
  have hsettle : ∀ {consumption consumption' : Consumption Payload} {queue succeeded now},
      consumption.settle w.queue succeeded now = some (queue, consumption') →
      heldPayloads consumption' = [] := by
    intro consumption consumption' queue succeeded now hsettle
    have hnot := Consumption.not_holding_of_settle hsettle
    rw [heldPayloads, taken]
    split
    · next message hpc => exact absurd hpc (hnot message)
    · rfl
  cases h with
  | createOrder => exact absurd hmem (List.not_mem_nil)
  | @validate call input r hr =>
    cases StatusValidation.steps hr with
    | lookedUp =>
      cases hprep : prepareStatusUpdate P call.orderId (some call.input)
          (findById w.orders call.orderId) with
      | error => simp [System.payloads, validatedPayloads, hprep] at hmem
      | ok result =>
        obtain ⟨order, _ | event⟩ := result
        · simp [System.payloads, validatedPayloads, hprep] at hmem
        · obtain rfl : payload = .statusUpdate call.orderId event := by
            simpa [System.payloads, validatedPayloads, hprep] using hmem
          exact Or.inr ⟨rfl, admissible_of_prepare hprep⟩
    | failed => exact absurd hmem (List.not_mem_nil)
  | accept => exact absurd hmem (List.not_mem_nil)
  | reply => exact absurd hmem (List.not_mem_nil)
  | handleOrderCreated => exact Or.inl hmem
  | settleOrderCreated _ hs =>
    rw [System.payloads, hsettle hs] at hmem
    exact absurd hmem (List.not_mem_nil)
  | handleStatus => exact Or.inl hmem
  | settleStatus _ hs =>
    rw [System.payloads, hsettle hs] at hmem
    exact absurd hmem (List.not_mem_nil)

/-- An order that is about to be published is stored, so its message is admissible. -/
theorem admissible_orderCreated {c : Collection} {call : CreateOrder} {order : OrderRecord}
    (h : (Call.createOrder call).Prepared P c) (hpc : call.pc = .publish order) :
    (Payload.orderCreated (orderCreatedPayload order)).Admissible P c := by
  simp only [Call.Prepared, CreateOrder.Prepared, hpc] at h
  obtain ⟨-, o, ho, -⟩ := h
  exact ⟨o, ho, fun _ hevent => absurd hevent (by simp [Payload.event])⟩

/-- Every step of every task keeps all messages admissible, and only extends the documents. -/
theorem relyGuarantee (P : Platform) (config : AppConfig) :
    Interleave.RelyGuarantee (start P config) (act P config) (fun _ => True)
      (World.Admissible P) (TaskAdmissible P) (fun w w' => w.orders.Extends w'.orders) where
  start := by
    intro w request w' task hw h
    have hnone : ∀ {task : Task}, payloads task = [] →
        ∀ payload ∈ payloads task, payload.Admissible P w.orders := by
      intro task hnil payload hmem
      rw [hnil] at hmem
      exact absurd hmem (List.not_mem_nil)
    cases starts h with
    | postOrder => exact ⟨hw, .refl _, trivial, hnone rfl⟩
    | rejected => exact ⟨hw, .refl _, trivial, hnone rfl⟩
    | postStatus => exact ⟨hw, .refl _, trivial, hnone rfl⟩
    | noOrderCreated => exact ⟨hw, .refl _, trivial, hnone rfl⟩
    | orderCreated _ hperm =>
      obtain ⟨htaken, hleft⟩ := List.forall_mem_cons.mp fun m hm => hw.2 m (hperm.mem_iff.mp hm)
      refine ⟨⟨hw.1, hleft⟩, .refl _, trivial, fun payload hmem => ?_⟩
      rw [List.mem_singleton.mp hmem]
      exact htaken
    | noStatus => exact ⟨hw, .refl _, trivial, hnone rfl⟩
    | status _ hperm =>
      obtain ⟨htaken, hleft⟩ := List.forall_mem_cons.mp fun m hm => hw.2 m (hperm.mem_iff.mp hm)
      refine ⟨⟨hw.1, hleft⟩, .refl _, trivial, fun payload hmem => ?_⟩
      rw [List.mem_singleton.mp hmem]
      exact htaken
  act := by
    intro w task input w' task' hw htask _ h
    have hsteps := steps h
    obtain ⟨hwf, hext, hprep⟩ := hsteps.prepared hw.1 htask.1
    refine ⟨⟨hwf, ?_⟩, hext, hprep, ?_⟩
    · intro message hmem
      rcases hsteps.store hmem with hmem | hmem | ⟨call, order, rfl, hpc, hpayload⟩
      · exact (hw.2 message hmem).stable hw.1 hwf hext
      · exact (htask.2 message.payload hmem).stable hw.1 hwf hext
      · rw [hpayload]
        exact (admissible_orderCreated htask.1 hpc).stable hw.1 hwf hext
    · intro payload hmem
      rcases hsteps.payloads hmem with hmem | ⟨horders, hadmissible⟩
      · exact (htask.2 payload hmem).stable hw.1 hwf hext
      · rw [horders]
        exact hadmissible
  stable := fun hw hw' hext htask => ⟨htask.1.stable hw.1 hw'.1 hext,
    fun payload hmem => (htask.2 payload hmem).stable hw.1 hw'.1 hext⟩

variable {s : State}

/-- The database, the queue and every task, in every reachable state. -/
theorem Reachable.allAdmissible (h : Reachable P config s) :
    s.shared.Admissible P ∧ ∀ task ∈ s.activations, TaskAdmissible P s.shared task :=
  Interleave.invariant (relyGuarantee P config) h
    ⟨Collection.wellFormed_empty, fun _ hmem => absurd hmem (List.not_mem_nil)⟩
    fun _ htask => absurd htask (List.not_mem_nil)

/-- Every message in the store is admissible, and every document well formed. -/
theorem Reachable.admissible (h : Reachable P config s) : s.shared.Admissible P :=
  h.allAdmissible.1

end System

/-! ### The handler alone -/

namespace StatusUpdate

/-- The input with which a call goes on when the database answers at the time `now`. -/
def nextInput (call : StatusUpdate) (now : String) : Input :=
  match call.pc with
  | .append _ _ => .findOneAndUpdate now .ok
  | _ => .find .ok

/-- At most `n` steps of a call that runs alone. -/
def runAlone (P : Platform) (now : String) :
    ℕ → Collection → StatusUpdate → Collection × StatusUpdate
  | 0, c, call => (c, call)
  | n + 1, c, call =>
    match call.step P c (call.nextInput now) with
    | none => (c, call)
    | some r => runAlone P now n r.orders r.call

variable {P : Platform} {c : Collection} {now orderId : String} {update : Option StatusUpdateInput}
  {n : ℕ}

theorem runAlone_returned (result : Except ServiceError OrderRecord) :
    runAlone P now n c ⟨orderId, update, .returned result⟩
      = (c, ⟨orderId, update, .returned result⟩) := by
  cases n <;> rfl

theorem runAlone_lookup : runAlone P now (n + 1) c ⟨orderId, update, .lookup⟩
    = runAlone P now n c (afterLookup P ⟨orderId, update, .lookup⟩ (findById c orderId)) := rfl

theorem runAlone_append {order updated : OrderRecord} {event : StatusEvent} {c' : Collection}
    (h : appendStatusEvent c orderId event event.status order.version now = (some updated, c')) :
    runAlone P now (n + 1) c ⟨orderId, update, .append order event⟩
      = (c', ⟨orderId, update, .returned (.ok updated)⟩) := by
  have hstep : step P c ⟨orderId, update, .append order event⟩ (.findOneAndUpdate now .ok)
      = some ⟨c', ⟨orderId, update, .returned (.ok updated)⟩, none⟩ := by
    simp only [step, h]
    rfl
  rw [runAlone, nextInput, hstep]
  exact runAlone_returned _

end StatusUpdate

/-- The status handler, run alone on a message: a lookup, then a write, then perhaps a re-read. -/
def handleStatus (P : Platform) (c : Collection) (payload : Payload) (now : String) :
    Collection × StatusUpdate :=
  StatusUpdate.runAlone P now 3 c ⟨payload.orderId, payload.event, .lookup⟩

namespace System

/-- The same world with other documents. -/
def World.withOrders (w : World) (orders : Collection) : World :=
  { w with service := { w.service with orders := orders } }

theorem after_of_effect_none {κ : Type} {config : AppConfig} {w : World} {r : Reaction κ}
    (h : r.effect = none) : w.after config r = w.withOrders r.orders := by
  simp [World.after, OrderProcessing.World.after, World.withOrders, h]

theorem effect_of_statusUpdate {P : Platform} {c : Collection} {call : StatusUpdate}
    {input : OrderProcessing.Input} {r : Reaction StatusUpdate} (h : call.step P c input = some r) :
    r.effect = none := by
  cases StatusUpdate.steps h <;> rfl

/-- The handler alone is a run of the application in which only the consumer takes steps, and the
database answers. -/
theorem run_runAlone {P : Platform} {config : AppConfig} {consumption : Consumption Payload} {i : ℕ}
    (now : String) (n : ℕ) {s : State} {call : StatusUpdate}
    (hi : s.activations[i]? = some (.consumeStatus consumption (some call))) :
    ∃ inputs : List OrderProcessing.Input, (∀ input ∈ inputs, input.databaseAnswers = true) ∧
      Run.run (step P config) s (inputs.map fun input => .resume i (.call input)) = some
        { shared := s.shared.withOrders (StatusUpdate.runAlone P now n s.shared.orders call).1
          activations := s.activations.set i (.consumeStatus consumption
            (some (StatusUpdate.runAlone P now n s.shared.orders call).2)) } := by
  induction n generalizing s call with
  | zero =>
    refine ⟨[], by simp, congrArg some ?_⟩
    rw [StatusUpdate.runAlone, Interleave.set_of_getElem? hi]
    rfl
  | succ n ih =>
    cases hstep : call.step P s.shared.orders (call.nextInput now) with
    | none =>
      refine ⟨[], by simp, congrArg some ?_⟩
      rw [StatusUpdate.runAlone, hstep]
      show s = { shared := s.shared.withOrders s.shared.orders, activations := _ }
      rw [Interleave.set_of_getElem? hi]
      rfl
    | some r =>
      let s' : State := ⟨s.shared.withOrders r.orders,
        s.activations.set i (.consumeStatus consumption (some r.call))⟩
      have hone : step P config s (.resume i (.call (call.nextInput now))) = some s' := by
        refine Interleave.step_resume_eq_some.mpr ⟨_, s'.shared, _, hi, ?_, rfl⟩
        show (call.step P s.shared.orders (call.nextInput now)).map _ = _
        rw [hstep, Option.map_some, after_of_effect_none (effect_of_statusUpdate hstep)]
      have hi' : s'.activations[i]? = some (.consumeStatus consumption (some r.call)) :=
        Interleave.getElem?_set_of_some hi _
      obtain ⟨inputs, hanswers, hrun⟩ := ih hi'
      refine ⟨call.nextInput now :: inputs, ?_, Run.run_cons_eq_some.mpr ⟨s', hone, ?_⟩⟩
      · intro input hmem
        rcases List.mem_cons.mp hmem with rfl | hmem
        · rw [StatusUpdate.nextInput]
          split <;> rfl
        · exact hanswers input hmem
      · rw [hrun, StatusUpdate.runAlone, hstep, List.set_set]
        rfl

end System

/-- What the handler does with a message for the order `o`: the collection and the result. -/
inductive Handled (c : Collection) (payload : Payload) (o : OrderRecord) :
    Collection → Except ServiceError OrderRecord → Prop
  | noEvent : payload.event = none → Handled c payload o c (.error .noProperties)
  | duplicate {update} : payload.event = some update → o.hasEvent update.eventId = true →
      Handled c payload o c (.ok o)
  | appended {update c' event now} : payload.event = some update →
      o.hasEvent update.eventId = false → update.status.rank = o.status.rank + 1 →
      event.eventId = update.eventId → event.status = update.status →
      appendStatusEvent c payload.orderId event event.status o.version now
        = (some (pushEvent event event.status now o), c') →
      Handled c payload o c' (.ok (pushEvent event event.status now o))
  | overtaken {update} : payload.event = some update →
      o.hasEvent update.eventId = false → update.status.rank ≤ o.status.rank →
      Handled c payload o c (.error (.statusConflict
        ("Invalid status transition from " ++ o.status.text ++ " to " ++ update.status.text)))

namespace Handled

variable {c c' : Collection} {payload : Payload} {o : OrderRecord}
  {result : Except ServiceError OrderRecord} {update : StatusUpdateInput}

/-- The handler completes normally exactly if the event is recorded or is the next one. -/
theorem ok_iff (h : Handled c payload o c' result) (hevent : payload.event = some update) :
    (∃ updated, result = .ok updated) ↔
      o.hasEvent update.eventId = true ∨ update.status.rank = o.status.rank + 1 := by
  cases h with
  | noEvent hnone => exact absurd (hevent.symm.trans hnone) (by simp)
  | duplicate hu hev =>
    obtain rfl := Option.some.inj (hu.symm.trans hevent)
    exact ⟨fun _ => Or.inl hev, fun _ => ⟨o, rfl⟩⟩
  | appended hu hev hahead =>
    obtain rfl := Option.some.inj (hu.symm.trans hevent)
    exact ⟨fun _ => Or.inr hahead, fun _ => ⟨_, rfl⟩⟩
  | overtaken hu hev hbehind =>
    obtain rfl := Option.some.inj (hu.symm.trans hevent)
    refine ⟨fun ⟨_, hok⟩ => absurd hok (by simp), fun hor => ?_⟩
    rcases hor with hev' | hahead
    · rw [hev] at hev'
      exact Bool.noConfusion hev'
    · omega

/-- Otherwise the order is at or past the status asked for, and the handler changes nothing. -/
theorem of_not_processable (h : Handled c payload o c' result)
    (hevent : payload.event = some update)
    (hnot : ¬ (o.hasEvent update.eventId = true ∨ update.status.rank = o.status.rank + 1)) :
    update.status.rank ≤ o.status.rank ∧ c' = c ∧
      ∃ message, result = .error (.statusConflict message) := by
  cases h with
  | noEvent hnone => exact absurd (hevent.symm.trans hnone) (by simp)
  | duplicate hu hev =>
    obtain rfl := Option.some.inj (hu.symm.trans hevent)
    exact absurd (Or.inl hev) hnot
  | appended hu hev hahead =>
    obtain rfl := Option.some.inj (hu.symm.trans hevent)
    exact absurd (Or.inr hahead) hnot
  | overtaken hu hev hbehind =>
    obtain rfl := Option.some.inj (hu.symm.trans hevent)
    exact ⟨hbehind, rfl, _, rfl⟩

end Handled

/-- **What the handler does with an admissible message.** It always settles. -/
theorem handleStatus_cases {P : Platform} {c : Collection} {payload : Payload} (now : String)
    (h : payload.Admissible P c) : ∃ o c' result, findById c payload.orderId = some o ∧
      handleStatus P c payload now = (c', ⟨payload.orderId, payload.event, .returned result⟩) ∧
      Handled c payload o c' result := by
  obtain ⟨o, ho, hupdate⟩ := h
  cases hevent : payload.event with
  | none =>
    refine ⟨o, c, .error .noProperties, ho, ?_, .noEvent hevent⟩
    rw [handleStatus, hevent, StatusUpdate.runAlone_lookup, ho]
    exact StatusUpdate.runAlone_returned _
  | some update =>
    obtain ⟨hle, hnew, htime⟩ := hupdate update hevent
    by_cases hev : o.hasEvent update.eventId = true
    · have hprep : prepareStatusUpdate P payload.orderId (some update) (some o) = .ok (o, none) :=
        prepareStatusUpdate_eq_duplicate_iff.mpr ⟨rfl, update, rfl, hev⟩
      refine ⟨o, c, .ok o, ho, ?_, .duplicate hevent hev⟩
      rw [handleStatus, hevent, StatusUpdate.runAlone_lookup, ho]
      simp only [StatusUpdate.afterLookup, hprep]
      exact StatusUpdate.runAlone_returned _
    · rw [Bool.not_eq_true] at hev
      by_cases hahead : update.status.rank = o.status.rank + 1
      · let event : StatusEvent := ⟨update.eventId, update.status, update.atTime⟩
        have hprep : prepareStatusUpdate P payload.orderId (some update) (some o)
            = .ok (o, some event) :=
          prepareStatusUpdate_eq_event_iff.mpr ⟨rfl, update, rfl, hev, hahead, rfl, rfl, htime⟩
        have hwrite : appendStatusEvent c payload.orderId event event.status o.version now
            = (some (pushEvent event event.status now o), _) :=
          appendStatusEvent_eq_some_iff.mpr ⟨o, ho, rfl, hev, rfl, rfl⟩
        refine ⟨o, _, _, ho, ?_, .appended hevent hev hahead rfl rfl hwrite⟩
        rw [handleStatus, hevent, StatusUpdate.runAlone_lookup, ho]
        simp only [StatusUpdate.afterLookup, hprep]
        exact StatusUpdate.runAlone_append hwrite
      · refine ⟨o, c, _, ho, ?_, .overtaken hevent hev (by omega)⟩
        rw [handleStatus, hevent, StatusUpdate.runAlone_lookup, ho]
        simp only [StatusUpdate.afterLookup, prepareStatusUpdate_of_not_successor hev hahead]
        exact StatusUpdate.runAlone_returned _

/-! ### Accepted status updates -/

namespace System

variable {P : Platform} {config : AppConfig} {s : State}

/-- The messages that wait in the status queue. -/
def statusQueue (config : AppConfig) (w : World) : List (QueueMessage Payload) :=
  w.queue.store.messages.filter (·.queueName = config.orderStatusQueue)

theorem Reachable.admissible_of_mem (h : Reachable P config s) {message : QueueMessage Payload}
    (hmem : message ∈ statusQueue config s.shared) : message.payload.Admissible P s.shared.orders :=
  h.admissible.2 message (List.mem_filter.mp hmem).1

/-- The handler has nothing to object to: the event is recorded, or it is the next one. -/
def Processable (o : OrderRecord) (event : StatusEvent) : Prop :=
  o.hasEvent event.eventId = true ∨ event.status.rank = o.status.rank + 1

/-- What comes of a status update for the order `o` that waits in the queue: the handler, run alone,
returns normally exactly if it has nothing to object to; otherwise the order has reached the status
asked for in another way, and the handler throws and changes nothing. -/
structure Outcome (P : Platform) (c : Collection) (payload : Payload) (o : OrderRecord)
    (event : StatusEvent) : Prop where
  le_successor : event.status.rank ≤ o.status.rank + 1
  returns_iff : ∀ now, (∃ updated, (handleStatus P c payload now).2.pc = .returned (.ok updated)) ↔
    Processable o event
  of_overtaken : ¬ Processable o event → event.status ≤ o.status ∧ ∀ now,
    (handleStatus P c payload now).1 = c ∧
      ∃ message, (handleStatus P c payload now).2.pc = .returned (.error (.statusConflict message))

theorem Outcome.of_admissible {c : Collection} {payload : Payload} {o : OrderRecord}
    {event : StatusEvent} (hadmissible : payload.Admissible P c)
    (ho : findById c payload.orderId = some o)
    (hevent : payload.event = some ⟨event.status, event.atTime, event.eventId⟩) :
    Outcome P c payload o event := by
  have hle : event.status.rank ≤ o.status.rank + 1 := by
    obtain ⟨o', ho', hupdate⟩ := hadmissible
    obtain rfl : o = o' := Option.some.inj (ho.symm.trans ho')
    exact (hupdate _ hevent).1
  have hcases : ∀ now, ∃ c' result, handleStatus P c payload now
      = (c', ⟨payload.orderId, payload.event, .returned result⟩) ∧
      Handled c payload o c' result := by
    intro now
    obtain ⟨o', c', result, ho', hhandle, hhandled⟩ := handleStatus_cases now hadmissible
    obtain rfl : o = o' := Option.some.inj (ho.symm.trans ho')
    exact ⟨c', result, hhandle, hhandled⟩
  refine ⟨hle, ?_, ?_⟩
  · intro now
    obtain ⟨c', result, hhandle, hhandled⟩ := hcases now
    rw [hhandle]
    simpa [Processable] using hhandled.ok_iff hevent
  · intro hnot
    constructor
    · obtain ⟨c', result, -, hhandled⟩ := hcases ""
      exact OrderStatus.le_iff_rank.mpr (hhandled.of_not_processable hevent hnot).1
    · intro now
      obtain ⟨c', result, hhandle, hhandled⟩ := hcases now
      obtain ⟨-, rfl, text, rfl⟩ := hhandled.of_not_processable hevent hnot
      exact ⟨by rw [hhandle], text, by rw [hhandle]⟩

/-- **An accepted status update can be processed, or has been overtaken.** -/
theorem waiting_statusUpdate (h : Reachable P config s) :
    ∀ message ∈ statusQueue config s.shared, ∀ orderId event,
      message.payload = .statusUpdate orderId event →
      ∃ o, findById s.shared.orders orderId = some o ∧
        Outcome P s.shared.orders message.payload o event := by
  intro message hmem orderId event hpayload
  obtain ⟨o, ho, -⟩ := h.admissible_of_mem hmem
  have hid : message.payload.orderId = orderId := by
    rw [hpayload]
    rfl
  have hevent : message.payload.event = some ⟨event.status, event.atTime, event.eventId⟩ := by
    rw [hpayload]
    rfl
  exact ⟨o, hid ▸ ho, .of_admissible (h.admissible_of_mem hmem) ho hevent⟩

/-- Two updates to `SHIPPED` are accepted, under different event ids, before the first is applied.
-/
def acceptedTwice : List Action :=
  [.invoke (.postOrder (samplePayload 10) "key"), .resume 0 (.call (.find .ok)),
    .resume 0 (.call (.insertOne "id" "2024-05-01T10:00:00.000Z" .ok)),
    .resume 0 (.call (.sendMessage true "2024-05-01T10:00:00.000Z")),
    .invoke (.postStatus "id" ⟨.shipped, "2024-05-02T10:00:00.000Z", "e1"⟩),
    .invoke (.postStatus "id" ⟨.shipped, "2024-05-02T11:00:00.000Z", "e2"⟩),
    .resume 1 (.call (.find .ok)), .resume 2 (.call (.find .ok)),
    .resume 1 (.settle "2024-05-02T12:00:00.000Z"), .resume 2 (.settle "2024-05-02T12:00:01.000Z"),
    .invoke .consumeStatus, .resume 3 (.call (.find .ok)),
    .resume 3 (.call (.findOneAndUpdate "2024-05-02T12:00:02.000Z" .ok)),
    .resume 3 (.settle "2024-05-02T12:00:03.000Z")]

/-- The second update still waits when the order has been shipped. -/
theorem run_acceptedTwice :
    ∃ s message o, Run.run (step .reference .default) init acceptedTwice = some s ∧
      message ∈ statusQueue .default s.shared ∧
      message.payload = .statusUpdate "id" ⟨"e2", .shipped, "2024-05-02T11:00:00.000Z"⟩ ∧
      findById s.shared.orders "id" = some o ∧ o.status = .shipped ∧ o.hasEvent "e2" = false := by
  have hrun : (Run.run (step .reference .default) init acceptedTwice).map
      (fun s => (findById s.shared.orders "id").map fun o => (o.status, o.hasEvent "e2"))
      = some (some (.shipped, false)) := by decide
  have hqueue : (Run.run (step .reference .default) init acceptedTwice).bind
      (fun s => (statusQueue .default s.shared)[0]?) = some ⟨2, "order-status-events",
        .statusUpdate "id" ⟨"e2", .shipped, "2024-05-02T11:00:00.000Z"⟩,
        "2024-05-02T12:00:01.000Z"⟩ := rfl
  obtain ⟨s, hs, hobs⟩ := Option.map_eq_some_iff.mp hrun
  rw [hs, Option.bind_some] at hqueue
  obtain ⟨o, ho, hfields⟩ := Option.map_eq_some_iff.mp hobs
  obtain ⟨hstatus, hev⟩ := Prod.mk.inj hfields
  exact ⟨s, _, o, hs, List.mem_of_getElem? hqueue, rfl, ho, hstatus, hev⟩

theorem waiting_statusUpdate_acceptedTwice :
    ∃ s message o, Run.run (step .reference .default) init acceptedTwice = some s ∧
      message ∈ statusQueue .default s.shared ∧ findById s.shared.orders "id" = some o ∧
      Outcome .reference s.shared.orders message.payload o
        ⟨"e2", .shipped, "2024-05-02T11:00:00.000Z"⟩ := by
  obtain ⟨s, message, _, hs, hmem, hpayload, -⟩ := run_acceptedTwice
  obtain ⟨o, ho, houtcome⟩ :=
    waiting_statusUpdate ⟨_, fun a _ => a.inputs_true, hs⟩ message hmem _ _ hpayload
  exact ⟨s, message, o, hs, hmem, ho, houtcome⟩

/-- The second of two accepted updates cannot be processed any more. -/
theorem acceptedTwice_not_processable :
    ∃ s message o, Reachable .reference .default s ∧ message ∈ statusQueue .default s.shared ∧
      message.payload = .statusUpdate "id" ⟨"e2", .shipped, "2024-05-02T11:00:00.000Z"⟩ ∧
      findById s.shared.orders "id" = some o ∧
      ¬ Processable o ⟨"e2", .shipped, "2024-05-02T11:00:00.000Z"⟩ ∧
      ∀ now, ∃ text, (handleStatus .reference s.shared.orders message.payload now).2.pc
        = .returned (.error (.statusConflict text)) := by
  obtain ⟨s, message, o, hs, hmem, hpayload, ho, hstatus, hev⟩ := run_acceptedTwice
  have hreach : Reachable .reference .default s := ⟨_, fun a _ => a.inputs_true, hs⟩
  have hevent : message.payload.event
      = some ⟨.shipped, "2024-05-02T11:00:00.000Z", "e2"⟩ := by
    rw [hpayload]
    rfl
  have hnot : ¬ Processable o ⟨"e2", .shipped, "2024-05-02T11:00:00.000Z"⟩ := by
    rw [Processable, hev, hstatus]
    decide
  refine ⟨s, message, o, hreach, hmem, hpayload, ho, hnot, fun now => ?_⟩
  obtain ⟨o', c', result, ho', hhandle, hhandled⟩ :=
    handleStatus_cases now (hreach.admissible_of_mem hmem)
  have hsame : findById s.shared.orders message.payload.orderId = some o := by
    rw [hpayload]
    exact ho
  obtain rfl : o = o' := Option.some.inj (hsame.symm.trans ho')
  obtain ⟨-, -, text, rfl⟩ := hhandled.of_not_processable hevent hnot
  exact ⟨text, by rw [hhandle]⟩

end System

end OrderProcessing
