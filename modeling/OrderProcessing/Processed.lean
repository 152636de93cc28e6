import OrderProcessing.Acknowledgement
import OrderProcessing.Duplicates
import OrderProcessing.Server

/-!
# What was processed has happened

A debug route lists the messages that its loop has processed, and a poller goes on to the next
message once `consumeOne` has returned one. In both cases the message has had its effect: a status
update is in the history of its order, and so is the shipment of an order-created message, as long
as Delivery names a shipment whenever it accepts a request. The effect is still there in every later
state.

## Main definitions

* `StatusUpdate.Applied` — the event of an update is in the history
* `Server.Recorded` — every processed message has had its effect

## Main results

* `Server.processed_recorded`
-/

namespace OrderProcessing

open OrderRepository

/-! ### Applied updates -/

/-- The event of an update that has returned normally is in the history of its order. -/
def StatusUpdate.Applied (c : Collection) (call : StatusUpdate) : Prop :=
  ∀ order, call.pc = .returned (.ok order) → ∃ update o, call.input = some update ∧
    findById c call.orderId = some o ∧ o.hasEvent update.eventId = true

/-- The same for any call. -/
def Call.Applied (c : Collection) : Call → Prop
  | .applyStatusUpdate call => call.Applied c
  | _ => True

section Steps

variable {P : Platform} {c c' : Collection} {input : Input}

theorem Call.Applied.stable {call : Call} (hext : c.Extends c') (h : call.Applied c) :
    call.Applied c' := by
  cases call with
  | applyStatusUpdate call =>
    intro order hpc
    obtain ⟨update, o, hupdate, ho, hev⟩ := h order hpc
    obtain ⟨o', ho', hoo'⟩ := hext _ o ho
    exact ⟨update, o', hupdate, ho', hoo'.hasEvent hev⟩
  | _ => trivial

theorem StatusUpdate.Steps.applied {call : StatusUpdate} {r : Reaction StatusUpdate}
    (hprep : call.Prepared P c) (h : StatusUpdate.Steps P c call input r) :
    r.call.Applied r.orders := by
  obtain ⟨hid, hinput⟩ := h.arguments_eq
  intro order hpc
  rw [hid, hinput]
  cases h with
  | lookedUp hlookup =>
    obtain ⟨hfound, update, hupdate, hev⟩ := (Steps.lookedUp hlookup).of_duplicate hpc
    exact ⟨update, order, hupdate, hfound, hev⟩
  | @appended snapshot event updated orders' now happend hwrite =>
    obtain ⟨_, -, -, -, hupd, -⟩ := appendStatusEvent_eq_some_iff.mp hwrite
    simp only [Prepared, happend] at hprep
    obtain ⟨-, update, hupdate, -, -, heventId, -⟩ :=
      prepareStatusUpdate_eq_event_iff.mp hprep.2.1
    refine ⟨update, updated, hupdate, ?_, ?_⟩
    · rw [findById_appendStatusEvent hwrite, if_pos rfl]
    · rw [hupd]
      exact OrderRecord.hasEvent_iff.mpr ⟨event, by simp [pushEvent], heventId⟩
  | reread hreread =>
    have hstep : Steps P c call (.find .ok) _ := .reread hreread
    obtain ⟨hfound, update, hupdate, hev⟩ := hstep.of_duplicate hpc
    exact ⟨update, order, hupdate, hfound, hev⟩
  | lostRace => exact StatusUpdate.Pc.noConfusion hpc
  | landed => exact absurd (StatusUpdate.Pc.returned.inj hpc) (by simp)
  | failed => exact absurd (StatusUpdate.Pc.returned.inj hpc) (by simp)

theorem Service.relyGuarantee_applied (P : Platform) (config : AppConfig) (p : Input → Prop) :
    Interleave.RelyGuarantee Service.start (Service.act P config) p (fun w => w.orders.WellFormed)
      (fun w call => call.Prepared P w.orders ∧ call.Applied w.orders)
      (fun w w' => w.orders.Extends w'.orders) where
  start := by
    intro w request w' call hw h
    obtain ⟨rfl, rfl⟩ := Prod.mk.inj (Option.some.inj h)
    refine ⟨hw, .refl w.orders, request.prepared P w.orders, ?_⟩
    cases request with
    | applyStatusUpdate => exact fun _ hpc => StatusUpdate.Pc.noConfusion hpc
    | _ => trivial
  act := by
    intro w call input w' call' hw hcall _ h
    obtain ⟨r, hstep, rfl, rfl⟩ := Service.act_steps h
    obtain ⟨hwf, hext, hprep⟩ := Call.Steps.prepared hw hcall.1 hstep
    refine ⟨hwf, hext, hprep, ?_⟩
    cases hstep with
    | applyStatusUpdate hr => exact hr.applied hcall.1
    | _ => trivial
  stable := fun hw hw' hext hcall => ⟨hcall.1.stable hw hw' hext, hcall.2.stable hext⟩

theorem Service.Reachable.applied {config : AppConfig} {p : Input → Prop} {s : Service.State}
    (h : Service.Reachable P config p s) :
    ∀ call ∈ s.activations, call.Applied s.shared.orders := by
  intro call hcall
  exact ((Interleave.invariant (relyGuarantee_applied P config p) h Collection.wellFormed_empty
    fun _ hcall => absurd hcall List.not_mem_nil).2 call hcall).2

end Steps

theorem StatusUpdate.pc_of_outcome {call : StatusUpdate}
    {result : Except ServiceError OrderRecord} (h : call.outcome = some result) :
    call.pc = .returned result := by
  rw [outcome] at h
  split at h
  · next hpc => rw [hpc, Option.some.inj h]
  · simp at h

/-! ### Acknowledged messages -/

namespace System

variable {P : Platform} {config : AppConfig} {s t : State}

/-- The message of an applied update, or of a shipped order. -/
def Done (named : Prop) (w : World) (payload : Payload) : Prop :=
  match payload with
  | .statusUpdate orderId event =>
    ∃ o, findById w.orders orderId = some o ∧ o.hasEvent event.eventId = true
  | .orderCreated payload =>
    named → ∃ o, findById w.orders payload.orderId = some o ∧ o.hasShipment = true

theorem Done.of_extends {named : Prop} {payload : Payload}
    (hext : s.shared.orders.Extends t.shared.orders) (hkeeps : KeepsShipments s t)
    (h : Done named s.shared payload) : Done named t.shared payload := by
  cases payload with
  | statusUpdate orderId event =>
    obtain ⟨o, ho, hev⟩ := h
    obtain ⟨o', ho', hoo'⟩ := hext orderId o ho
    exact ⟨o', ho', hoo'.hasEvent hev⟩
  | orderCreated payload =>
    intro hnamed
    obtain ⟨o, ho, hship⟩ := h hnamed
    obtain ⟨o', ho', hsame⟩ := hkeeps _ o ho hship
    exact ⟨o', ho', by rwa [OrderRecord.hasShipment, hsame]⟩

/-- Delivery names a shipment whenever it accepts a request. -/
def Input.namesShipment : Input → Prop
  | .call (.fetch exchange _) => exchange.namesShipment = true
  | _ => True

theorem along_answersName {p : Input → Prop} (hp : ∀ input, p input → input.namesShipment)
    {as : List Action} (has : ∀ a ∈ as, a.Inputs p) (watched : ℕ → String → Prop) (s : State) :
    Run.Along (step P config) (AnswersName watched) s as := by
  induction as generalizing s with
  | nil => trivial
  | cons a as ih =>
    obtain ⟨ha, has⟩ := List.forall_mem_cons.mp has
    refine ⟨?_, fun t _ => ih has t⟩
    rcases a with request | ⟨i, (input | now)⟩
    · trivial
    · cases input with
      | fetch exchange requestedAt => exact fun _ _ _ _ => hp _ ha
      | _ => trivial
    · trivial

/-- **An acknowledged message has had its effect.** -/
theorem done_of_acknowledged (hqueues : config.orderCreatedQueue ≠ config.orderStatusQueue)
    {p : Input → Prop}
    (h : Run.Reachable (step P config) (Interleave.Action.Inputs p) init s) {task : Task}
    (htask : task ∈ s.activations) {consumption : Consumption Payload}
    (hconsumption : task.consumption = some consumption) {message : QueueMessage Payload}
    (hack : consumption.Acknowledges message) :
    Done (∀ input, p input → input.namesShipment) s.shared message.payload := by
  have hreach : Reachable P config s := h.mono fun a _ => a.inputs_true
  obtain ⟨hkinds, hagrees⟩ := hreach.agrees
  have hkind := hkinds message (hreach.mem_sent htask hconsumption (Or.inr hack))
  have hagree := hagrees task htask
  obtain ⟨now, hpc⟩ := hack
  rw [MessageKind] at hkind
  rcases task with _ | _ | ⟨call, _ | handler⟩ | ⟨call, _ | handler⟩
  · simp [Task.consumption] at hconsumption
  · simp [Task.consumption] at hconsumption
  · obtain rfl := Option.some.inj hconsumption
    exact absurd (hpc.symm.trans hagree) (by simp)
  · obtain rfl := Option.some.inj hconsumption
    simp only [TaskAgrees, hpc] at hagree
    cases hpayload : message.payload with
    | orderCreated payload =>
      intro hnamed
      obtain ⟨as, has, hrun⟩ := h
      obtain ⟨i, hi⟩ := List.mem_iff_getElem?.mp htask
      have hacknowledged : AcknowledgedFor s i payload.orderId :=
        ⟨call, some handler, message, payload, hi, ⟨now, hpc⟩, hpayload, rfl⟩
      exact hacknowledged.shipped_of_answersName hrun (along_answersName hnamed has _ init)
    | statusUpdate orderId event =>
      rw [hpayload] at hkind
      exact absurd (hagree.1.symm.trans hkind) hqueues
  · obtain rfl := Option.some.inj hconsumption
    exact absurd (hpc.symm.trans hagree) (by simp)
  · obtain rfl := Option.some.inj hconsumption
    simp only [TaskAgrees, hpc] at hagree
    obtain ⟨hname, ⟨hid, hinput⟩, order, houtcome⟩ := hagree
    cases hpayload : message.payload with
    | orderCreated payload =>
      rw [hpayload] at hkind
      exact absurd (hkind.symm.trans hname) hqueues
    | statusUpdate orderId event =>
      rw [hpayload] at hid hinput
      have happlied := hreach.service.applied (.applyStatusUpdate handler)
        (List.mem_map_of_mem (f := serviceCall) htask)
      obtain ⟨update, o, hupdate, ho, hev⟩ := happlied order (StatusUpdate.pc_of_outcome houtcome)
      rw [hinput] at hupdate
      obtain rfl := Option.some.inj hupdate
      rw [hid] at ho
      exact ⟨o, ho, hev⟩

end System

/-! ### Processed messages -/

namespace Server

variable {S : Setup} {s t : State}

/-- The condition on the inputs that `p` puts on those of the application. -/
abbrev Within (p : System.Input → Prop) : Action → Prop :=
  Interleave.Action.Inputs (Input.Within p)

/-- The messages that a loop has processed. -/
def Job.processed : Job → List (QueueMessage Payload × String)
  | .draining drain => drain.processed
  | _ => []

/-- Every processed message has had its effect. -/
def Recorded (named : Prop) (s : State) : Prop :=
  ∀ job ∈ s.activations, ∀ message ∈ job.processed,
    System.Done named s.shared message.1.payload

/-- A message that is processed in a step was processed before, or its consumer has just returned
it. -/
theorem processed_cases {a : Action} (hstep : step S s a = some t) {job : Job}
    (hjob : job ∈ t.activations) {message : QueueMessage Payload × String}
    (hmem : message ∈ job.processed) :
    (∃ job' ∈ s.activations, message ∈ job'.processed) ∨
      ∃ job' ∈ s.activations, ∃ current, task job' = some current ∧
        returnedMessage current = some message := by
  cases a with
  | invoke request =>
    obtain ⟨w, k, hstart, rfl⟩ := Interleave.step_invoke_eq_some.mp hstep
    rcases List.mem_append.mp hjob with hjob | hjob
    · exact Or.inl ⟨job, hjob, hmem⟩
    · obtain rfl := List.mem_singleton.mp hjob
      cases starts hstart <;> exact absurd hmem List.not_mem_nil
  | resume i input =>
    obtain ⟨k, w, k', hi, hact, rfl⟩ := Interleave.step_resume_eq_some.mp hstep
    have hk := List.mem_of_getElem? hi
    rcases List.mem_or_eq_of_mem_set hjob with hjob | rfl
    · exact Or.inl ⟨job, hjob, hmem⟩
    · cases steps hact with
      | post => exact absurd hmem List.not_mem_nil
      | read => exact absurd hmem List.not_mem_nil
      | consume => exact Or.inl ⟨_, hk, hmem⟩
      | @next drain last _ _ hlast =>
        rcases List.mem_append.mp hmem with hmem | hmem
        · exact Or.inl ⟨_, hk, hmem⟩
        · obtain rfl := List.mem_singleton.mp hmem
          exact Or.inr ⟨_, hk, drain.current, rfl, hlast⟩

/-- An effect stays. -/
theorem done_of_run (hqueues : S.app.orderCreatedQueue ≠ S.app.orderStatusQueue)
    (h : Reachable S s) (hrun : Run.Reachable (step S) (Interleave.Action.Inputs fun _ => True) s t)
    {named : Prop} {payload : Payload} (hdone : System.Done named s.shared payload) :
    System.Done named t.shared payload := by
  obtain ⟨s', hs', hembedded⟩ := h.system
  obtain ⟨t', ht', hembedded'⟩ := exists_system_run_of_run hembedded hrun
  have hshared : s'.shared = s.shared := hembedded.shared
  have hshared' : t'.shared = t.shared := hembedded'.shared
  rw [← hshared] at hdone
  rw [← hshared']
  exact hdone.of_extends (System.extends_of_run hs' ht') (System.keepsShipments hqueues hs' ht')

/-- A message that the task of a job has acknowledged has had its effect. -/
theorem done_of_acknowledged (hqueues : S.app.orderCreatedQueue ≠ S.app.orderStatusQueue)
    {p : System.Input → Prop} (h : Run.Reachable (step S) (Within p) init s) {job : Job}
    (hjob : job ∈ s.activations) {current : Task} (hcurrent : task job = some current)
    {consumption : Consumption Payload} (hconsumption : current.consumption = some consumption)
    {message : QueueMessage Payload} (hack : consumption.Acknowledges message) :
    System.Done (∀ input, p input → input.namesShipment) s.shared message.payload := by
  have hinit : Interleave.Embedded id task init System.init := ⟨rfl, .nil⟩
  obtain ⟨s', hs', hembedded⟩ := exists_system_run hinit h
  have hdone := System.done_of_acknowledged hqueues hs' (hembedded.embeds.mem hjob hcurrent)
    hconsumption hack
  rwa [hembedded.shared] at hdone

theorem reachable_of_within {p : System.Input → Prop}
    (h : Run.Reachable (step S) (Within p) init s) : Reachable S s :=
  h.mono fun a _ => a.inputs_true

theorem recorded (hqueues : S.app.orderCreatedQueue ≠ S.app.orderStatusQueue)
    {p : System.Input → Prop} (h : Run.Reachable (step S) (Within p) init s) :
    Recorded (∀ input, p input → input.namesShipment) s := by
  refine (h.invariant (I := fun u => Run.Reachable (step S) (Within p) init u ∧
    Recorded (∀ input, p input → input.namesShipment) u)
    ⟨.refl init, fun _ hjob => absurd hjob List.not_mem_nil⟩ ?_).2
  rintro u a v ⟨hu, hrecorded⟩ ha hstep
  refine ⟨hu.tail ha hstep, fun job hjob message hmem => ?_⟩
  have hlater : ∀ {payload}, System.Done (∀ input, p input → input.namesShipment) u.shared payload →
      System.Done (∀ input, p input → input.namesShipment) v.shared payload :=
    done_of_run hqueues (reachable_of_within hu) (.single a.inputs_true hstep)
  rcases processed_cases hstep hjob hmem with ⟨job', hjob', hmem'⟩ |
    ⟨job', hjob', current, hcurrent, hreturned⟩
  · exact hlater (hrecorded job' hjob' message hmem')
  · obtain ⟨consumption, hconsumption, hpc⟩ := consumption_of_returnedMessage hreturned
    exact hlater (done_of_acknowledged hqueues hu hjob' hcurrent hconsumption ⟨_, hpc⟩)

/-- **Every processed message has had its effect**, which is there from then on. -/
theorem processed_recorded (hqueues : S.app.orderCreatedQueue ≠ S.app.orderStatusQueue)
    {p : System.Input → Prop} (h : Run.Reachable (step S) (Within p) init s)
    (hrun : Run.Reachable (step S) (Interleave.Action.Inputs fun _ => True) s t) :
    ∀ job ∈ s.activations, ∀ message ∈ job.processed,
      System.Done (∀ input, p input → input.namesShipment) t.shared message.1.payload :=
  fun job hjob message hmem =>
    done_of_run hqueues (reachable_of_within h) hrun (recorded hqueues h job hjob message hmem)

instance : DecidablePred System.Input.namesShipment
  | .call (.fetch exchange _) => inferInstanceAs (Decidable (exchange.namesShipment = true))
  | .call (.find _) | .call (.insertOne _ _ _) | .call (.sendMessage _ _)
  | .call (.findOneAndUpdate _ _) | .call (.updateOne _ _) | .settle _ => isTrue trivial

instance {p : System.Input → Prop} [DecidablePred p] : DecidablePred (Input.Within p)
  | .task input => inferInstanceAs (Decidable (p input))
  | .find _ | .next => isTrue trivial

/-- A debug route ships an order, and a poller applies an update of it. -/
def shippedAndApplied : List Action :=
  creating 0 "key" "id" "2024-05-01T10:00:00.000Z" ++
    updating 1 "id" "e1" "SHIPPED" "2024-05-02T10:00:00.000Z" "2024-05-02T10:00:01.000Z" ++
    [.invoke (.http none (.processQueue .orderCreated))] ++
    shipping 2 "2024-05-02T10:00:02.000Z" ++
    [.resume 2 .next, .invoke (.tick .orderStatus), .resume 3 (.task (.call (.find .ok))),
      .resume 3 (.task (.call (.findOneAndUpdate "2024-05-02T10:00:03.000Z" .ok))),
      .resume 3 (.task (.settle "2024-05-02T10:00:04.000Z")), .resume 3 .next]

/-- Then Delivery forgets to name a shipment. -/
def shippedAndAppliedRest : List Action :=
  creating 4 "key2" "id2" "2024-05-03T10:00:00.000Z" ++
    [.invoke (.http none (.processQueue .orderCreated)), .resume 5 (.task (.call (.find .ok))),
      .resume 5 (.task (.call
        (.fetch (.response 200 (some (.obj []))) "2024-05-03T10:00:01.000Z"))),
      .resume 5 (.task (.call (.updateOne "2024-05-03T10:00:01.000Z" .ok)))]

theorem processed_recorded_shippedAndApplied :
    ∃ s t, Run.run (step .reference) init shippedAndApplied = some s ∧
      Run.run (step .reference) s shippedAndAppliedRest = some t ∧
      s.activations.map (fun job => job.processed.map fun message => message.1.ref)
        = [[], [], [0], [1]] ∧
      ∀ job ∈ s.activations, ∀ message ∈ job.processed,
        System.Done (∀ input, System.Input.namesShipment input → input.namesShipment) t.shared
          message.1.payload := by
  have hrun : ((Run.run (step .reference) init shippedAndApplied).bind fun s =>
      (Run.run (step .reference) s shippedAndAppliedRest).map fun _ =>
        s.activations.map fun job => job.processed.map fun message => message.1.ref)
      = some [[], [], [0], [1]] := by decide +kernel
  obtain ⟨s, hs, hrest⟩ := Option.bind_eq_some_iff.mp hrun
  obtain ⟨t, ht, hobs⟩ := Option.map_eq_some_iff.mp hrest
  exact ⟨s, t, hs, ht, hobs, processed_recorded Setup.reference_queues
    ⟨_, by decide +kernel, hs⟩ ⟨shippedAndAppliedRest, fun a _ => a.inputs_true, ht⟩⟩

end Server

end OrderProcessing
