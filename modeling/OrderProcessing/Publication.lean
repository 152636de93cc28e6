import OrderProcessing.IdempotentCreate
import OrderProcessing.Lifecycle

/-!
# When a successful `createOrder` means a published order

`createOrder` inserts the order, then publishes its message. If the queue rejects the message, the
call fails but the order stays; a replay answers from storage alone, and publishes nothing. So a
call that returns an order can be relied on for its message exactly until a replay follows a
rejection.

## Main definitions

* `Service.Accepted`, `Service.AboutToSend` — the queue has the message, or a running call sends it
* `Service.ReturnsSecured` — a call that returns an order leaves one of the two behind
* `Service.NotAfterRejection` — no replay of a request whose message was rejected

## Main results

* `Service.returnsSecured_of_notAfterRejection`
-/

namespace OrderProcessing

open OrderRepository

/-- The order whose message was accepted. -/
def Effect.publishedOrder : Effect → Option String
  | .published payload _ => some payload.orderId
  | _ => none

/-- The key and the order of a call that is about to send the message. -/
def Call.publishing : Call → Option (String × String)
  | .createOrder ⟨_, key, .publish order⟩ => some (key, order.id)
  | _ => none

/-- The key and the order that a `createOrder` call has returned, created or replayed. -/
def Call.returnedOrder : Call → Option (String × String)
  | .createOrder ⟨_, key, .returned (.ok result)⟩ => some (key, result.order.id)
  | _ => none

/-- The key and the payload hash of a call whose message the queue rejected. -/
def Call.rejectedRequest (P : Platform) : Call → Option (String × JsString)
  | .createOrder ⟨payload, key, .returned (.error .queue)⟩ => some (key, hashPayload P payload.json)
  | _ => none

/-- The key and the payload hash of a call that is about to look its key up. -/
def Call.lookingUp (P : Platform) : Call → Option (String × JsString)
  | .createOrder ⟨payload, key, .lookup⟩ => some (key, hashPayload P payload.json)
  | _ => none

section Observers

variable {P : Platform} {call : CreateOrder} {key orderId : String} {payloadHash : JsString}

theorem Call.publishing_eq_some_iff {k : Call} : k.publishing = some (key, orderId) ↔
    ∃ call order, k = .createOrder call ∧ call.idempotencyKey = key ∧ call.pc = .publish order ∧
      order.id = orderId := by
  rcases k with ⟨payload, key', pc⟩ | _ | _ | _
  · cases pc <;> simp [publishing]
  all_goals simp [publishing]

theorem Call.rejectedRequest_eq_some_iff {k : Call} :
    k.rejectedRequest P = some (key, payloadHash) ↔ ∃ call, k = .createOrder call ∧
      call.idempotencyKey = key ∧ call.pc = .returned (.error .queue) ∧
      hashPayload P call.payload.json = payloadHash := by
  rcases k with ⟨payload, key', pc⟩ | _ | _ | _
  · rcases pc with _ | _ | _ | error | result
    · simp [rejectedRequest]
    · simp [rejectedRequest]
    · simp [rejectedRequest]
    · cases error <;> simp [rejectedRequest]
    · simp [rejectedRequest]
  all_goals simp [rejectedRequest]

theorem Call.lookingUp_of_lookup (hpc : call.pc = .lookup) : Call.lookingUp P (.createOrder call)
    = some (call.idempotencyKey, hashPayload P call.payload.json) := by
  obtain ⟨payload, key, pc⟩ := call
  obtain rfl : pc = .lookup := hpc
  rfl

theorem Call.returnedOrder_eq_some_iff {k : Call} : k.returnedOrder = some (key, orderId) ↔
    ∃ call result, k = .createOrder call ∧ call.idempotencyKey = key ∧
      call.pc = .returned (.ok result) ∧ result.order.id = orderId := by
  rcases k with ⟨payload, key', pc⟩ | _ | _ | _
  · rcases pc with _ | _ | _ | error | result <;> simp [returnedOrder]
  all_goals simp [returnedOrder]

end Observers

namespace Service

variable {P : Platform} {config : AppConfig} {s t : State} {key orderId : String}

/-- The queue has accepted the order-created message of the order. -/
def Accepted (s : State) (orderId : String) : Prop :=
  ∃ e ∈ s.shared.effects, e.publishedOrder = some orderId

/-- A running call with the key is about to send the message. -/
def AboutToSend (s : State) (key orderId : String) : Prop :=
  ∃ k ∈ s.activations, k.publishing = some (key, orderId)

/-- A `createOrder` call that ends with an order leaves it stored under its key, and its message
accepted or about to be sent. -/
def ReturnsSecured (P : Platform) (config : AppConfig) (s : State) : Action → Prop
  | .invoke _ => True
  | .resume i input => ∀ t ∈ step P config s (.resume i input), ∀ k ∈ t.activations[i]?,
      ∀ returned ∈ k.returnedOrder,
        (findByRequestId t.shared.orders returned.1).map (·.id) = some returned.2 ∧
          (Accepted t returned.2 ∨ AboutToSend t returned.1 returned.2)

/-- No call looks up the key of a call whose message was rejected, with the same payload. -/
def NotAfterRejection (P : Platform) (s : State) : Action → Prop
  | .resume i (.find _) => ∀ k ∈ s.activations[i]?, ∀ request ∈ k.lookingUp P,
      ∀ other ∈ s.activations, other.rejectedRequest P ≠ some request
  | _ => True

instance : Decidable (Accepted s orderId) :=
  inferInstanceAs (Decidable (∃ e ∈ s.shared.effects, e.publishedOrder = some orderId))

instance : Decidable (AboutToSend s key orderId) :=
  inferInstanceAs (Decidable (∃ k ∈ s.activations, k.publishing = some (key, orderId)))

instance (a : Action) : Decidable (ReturnsSecured P config s a) :=
  match a with
  | .invoke _ => isTrue trivial
  | .resume i input => inferInstanceAs (Decidable (∀ t ∈ step P config s (.resume i input),
      ∀ k ∈ t.activations[i]?, ∀ returned ∈ k.returnedOrder,
        (findByRequestId t.shared.orders returned.1).map (·.id) = some returned.2 ∧
          (Accepted t returned.2 ∨ AboutToSend t returned.1 returned.2)))

instance (a : Action) : Decidable (NotAfterRejection P s a) := by
  unfold NotAfterRejection
  split <;> infer_instance

/-- The message of the order was accepted, is about to be sent, or was rejected. -/
def Covers (P : Platform) (s : State) (o : OrderRecord) : Prop :=
  Accepted s o.id ∨ AboutToSend s o.requestId o.id ∨
    ∃ k ∈ s.activations, k.rejectedRequest P = some (o.requestId, o.payloadHash)

/-! ### What one step keeps -/

theorem Accepted.of_effects (h : Accepted s orderId)
    (heffects : ∀ e ∈ s.shared.effects, e ∈ t.shared.effects) : Accepted t orderId := by
  obtain ⟨e, he, hid⟩ := h
  exact ⟨e, heffects e he, hid⟩

theorem covers_of_extends {o o' : OrderRecord} (hext : o.Extends o') (h : Covers P s o) :
    Covers P s o' := by
  rw [Covers, hext.id_eq, hext.requestId_eq, hext.payloadHash_eq]
  exact h

/-- A call that steps was not rejected, so only what it was about to send may be lost. -/
theorem covers_of_set {o : OrderRecord} {i : ℕ} {k k' : Call} {w : World}
    (hk : s.activations[i]? = some k) (hrunning : k.completed = false)
    (heffects : ∀ e ∈ s.shared.effects, e ∈ w.effects)
    (hpub : k.publishing ≠ some (o.requestId, o.id)) (h : Covers P s o) :
    Covers P ⟨w, s.activations.set i k'⟩ o := by
  rcases h with h | ⟨k₁, hk₁, heq⟩ | ⟨k₁, hk₁, heq⟩
  · exact Or.inl (h.of_effects heffects)
  · refine Or.inr (Or.inl ⟨k₁, Interleave.mem_set_of_ne hk₁ hk ?_, heq⟩)
    rintro rfl
    exact hpub heq
  · refine Or.inr (Or.inr ⟨k₁, Interleave.mem_set_of_ne hk₁ hk ?_, heq⟩)
    rintro rfl
    obtain ⟨call, rfl, -, hpc, -⟩ := Call.rejectedRequest_eq_some_iff.mp heq
    rw [completed_iff.mpr ⟨_, hpc⟩] at hrunning
    cases hrunning

/-- The message that the call was about to send is accepted or rejected. -/
theorem covers_of_publishing {o : OrderRecord} {i : ℕ} {k : Call} {input : Input}
    {r : Reaction Call}
    (hk : s.activations[i]? = some k) (ho : o ∈ s.shared.orders.docs)
    (hprep : k.Prepared P s.shared.orders) (hr : Call.Steps P config s.shared.orders k input r)
    (hpub : k.publishing = some (o.requestId, o.id)) :
    Covers P ⟨s.shared.after r, s.activations.set i r.call⟩ o := by
  obtain ⟨call, order, rfl, hkey, hpc, hid⟩ := Call.publishing_eq_some_iff.mp hpub
  cases hr with
  | createOrder hr =>
    obtain ⟨accepted, sentAt, rfl, rfl⟩ := hr.of_publish hpc
    cases accepted with
    | true =>
      exact Or.inl ⟨_, List.mem_append_right _ (List.mem_singleton_self _), congrArg some hid⟩
    | false =>
      simp only [Call.Prepared, CreateOrder.Prepared, hpc] at hprep
      obtain ⟨⟨uuid, now, hnew⟩, o₁, ho₁, hext⟩ := hprep
      rw [hid] at ho₁
      obtain rfl : o = o₁ := Option.some.inj ((findById_of_mem ho).symm.trans ho₁)
      refine Or.inr (Or.inr ⟨_, Interleave.mem_set_of_some hk _, ?_⟩)
      refine Call.rejectedRequest_eq_some_iff.mpr ⟨_, rfl, hkey, rfl, ?_⟩
      rw [hext.payloadHash_eq, hnew]
      rfl

theorem covers_step {a : Action} (hprep : ∀ k ∈ s.activations, k.Prepared P s.shared.orders)
    (h : ∀ o ∈ s.shared.orders.docs, Covers P s o)
    (ha : a.Inputs fun input => input.databaseAnswers = true) (hstep : step P config s a = some t) :
    ∀ o ∈ t.shared.orders.docs, Covers P t o := by
  cases a with
  | invoke request =>
    obtain ⟨w, k, hstart, rfl⟩ := Interleave.step_invoke_eq_some.mp hstep
    obtain ⟨rfl, -⟩ := Prod.mk.inj (Option.some.inj hstart)
    intro o ho
    refine (h o ho).imp id (Or.imp ?_ ?_)
    · exact fun ⟨k, hk, heq⟩ => ⟨k, List.mem_append_left _ hk, heq⟩
    · exact fun ⟨k, hk, heq⟩ => ⟨k, List.mem_append_left _ hk, heq⟩
  | resume i input =>
    obtain ⟨k, w, k', hk, hact, rfl⟩ := Interleave.step_resume_eq_some.mp hstep
    obtain ⟨r, hr, rfl, rfl⟩ := act_steps hact
    have hold : ∀ o₀ ∈ s.shared.orders.docs,
        Covers P ⟨s.shared.after r, s.activations.set i r.call⟩ o₀ := by
      intro o₀ ho₀
      by_cases hpub : k.publishing = some (o₀.requestId, o₀.id)
      · exact covers_of_publishing hk ho₀ (hprep k (List.mem_of_getElem? hk)) hr hpub
      · exact covers_of_set hk hr.not_completed (fun e he => List.mem_append_left _ he) hpub
          (h o₀ ho₀)
    intro o ho
    rcases hr.mem_orders ho with ⟨o₀, ho₀, hext⟩ | ⟨call, payloadHash, _, _, rfl, hpc, -⟩
    · exact covers_of_extends hext (hold o₀ ho₀)
    · cases hr with
      | createOrder hr =>
        obtain ⟨uuid, now, order, rfl, horder, ⟨orders', hcreate, rfl⟩ | ⟨-, rfl⟩⟩ :=
          hr.of_insert hpc ha
        · rcases (mem_create hcreate).mp ho with ho | rfl
          · exact hold o ho
          · refine Or.inr (Or.inl ⟨_, Interleave.mem_set_of_some hk _, ?_⟩)
            exact Call.publishing_eq_some_iff.mpr
              ⟨_, order, rfl, by rw [horder]; rfl, rfl, rfl⟩
        · exact hold o ho

/-- A lookup that does not follow a rejection finds an order that is published, or about to be. -/
theorem secured_of_found {i : ℕ} {call : CreateOrder} {k : Call} {w : World} {o : OrderRecord}
    (hk : s.activations[i]? = some (.createOrder call)) (hpc : call.pc = .lookup)
    (hkey : o.requestId = call.idempotencyKey)
    (hhash : o.payloadHash = hashPayload P call.payload.json) (hcovers : Covers P s o)
    (heffects : ∀ e ∈ s.shared.effects, e ∈ w.effects)
    (hreplay : NotAfterRejection P s (.resume i (.find .ok))) :
    Accepted ⟨w, s.activations.set i k⟩ o.id ∨
      AboutToSend ⟨w, s.activations.set i k⟩ call.idempotencyKey o.id := by
  rcases hcovers with haccepted | ⟨k₁, hk₁, hpub⟩ | ⟨other, hother, hrejected⟩
  · exact Or.inl (haccepted.of_effects heffects)
  · rw [hkey] at hpub
    refine Or.inr ⟨k₁, Interleave.mem_set_of_ne hk₁ hk ?_, hpub⟩
    rintro rfl
    obtain ⟨_, _, heq, _, hpc', _⟩ := Call.publishing_eq_some_iff.mp hpub
    rw [← Call.createOrder.inj heq, hpc] at hpc'
    exact CreateOrder.Pc.noConfusion hpc'
  · refine absurd ?_ (hreplay _ hk _ (Call.lookingUp_of_lookup hpc) other hother)
    rw [hrejected, hkey, hhash]

/-- A call publishes the order that is stored under its key. -/
theorem findByRequestId_of_publish {c : Collection} {call : CreateOrder} {order : OrderRecord}
    (hprep : (Call.createOrder call).Prepared P c) (hpc : call.pc = .publish order) :
    (findByRequestId c call.idempotencyKey).map (·.id) = some order.id := by
  simp only [Call.Prepared, CreateOrder.Prepared, hpc] at hprep
  obtain ⟨⟨uuid, now, hnew⟩, o, ho, hext⟩ := hprep
  have hfind : findByRequestId c call.idempotencyKey = some o := by
    refine findByRequestId_eq_some_iff.mpr ⟨(findById_eq_some_iff.mp ho).1, ?_⟩
    rw [hext.requestId_eq, hnew]
    rfl
  rw [hfind, Option.map_some, hext.id_eq, OrderRecord.stored_id]

/-- A step that ends a call with an order is a replay, or the publication of the order. -/
theorem returnsSecured_step {a : Action} (hprep : ∀ k ∈ s.activations, k.Prepared P s.shared.orders)
    (h : ∀ o ∈ s.shared.orders.docs, Covers P s o)
    (ha : a.Inputs fun input => input.databaseAnswers = true)
    (hreplay : NotAfterRejection P s a) : ReturnsSecured P config s a := by
  cases a with
  | invoke request => trivial
  | resume i input =>
    rintro t hstep k' hk' ⟨key, orderId⟩ hreturned
    obtain ⟨call', result, rfl, rfl, hresult, rfl⟩ := Call.returnedOrder_eq_some_iff.mp hreturned
    obtain ⟨k, w, k', hk, hact, rfl⟩ := Interleave.step_resume_eq_some.mp hstep
    obtain ⟨r, hr, rfl, rfl⟩ := act_steps hact
    have hcall' : r.call = .createOrder call' :=
      Option.some.inj ((Interleave.getElem?_set_of_some hk _).symm.trans hk')
    cases hr with
    | @createOrder call input r hr =>
      obtain rfl : r.call = call' := Call.createOrder.inj hcall'
      have hkey := hr.arguments_eq.2
      cases hpc : call.pc with
      | lookup =>
        obtain ⟨rfl, rfl⟩ := hr.of_lookup hpc ha
        obtain ⟨o, ho, hhash, rfl⟩ := CreateOrder.of_afterLookup_returned hresult
        obtain ⟨hmem, hreq⟩ := findByRequestId_eq_some_iff.mp ho
        rw [hkey]
        refine ⟨congrArg (Option.map OrderRecord.id) ho, ?_⟩
        exact secured_of_found hk hpc hreq hhash (h o hmem)
          (fun _ he => List.mem_append_left _ he) hreplay
      | insert payloadHash =>
        obtain ⟨uuid, now, order, rfl, -, ⟨orders', -, rfl⟩ | ⟨-, rfl⟩⟩ := hr.of_insert hpc ha
        · simp at hresult
        · simp [CreateOrder.finish] at hresult
      | publish order =>
        obtain ⟨accepted, sentAt, rfl, rfl⟩ := hr.of_publish hpc
        cases accepted with
        | true =>
          obtain rfl : { order := order, created := true } = result :=
            Except.ok.inj (CreateOrder.Pc.returned.inj hresult)
          rw [hkey]
          refine ⟨findByRequestId_of_publish (hprep _ (List.mem_of_getElem? hk)) hpc, Or.inl ?_⟩
          exact ⟨_, List.mem_append_right _ (List.mem_singleton_self _), rfl⟩
        | false => simp [CreateOrder.finish] at hresult
      | returned outcome => exact absurd hpc hr.not_returned
    | _ => simp [Reaction.map] at hcall'

/-- **A call that returns an order has it published, or about to be**, in every run in which no
replay follows the rejection of its message. -/
theorem returnsSecured_of_notAfterRejection {as : List Action}
    (hrun : Run.run (step P config) init as = some s)
    (has : ∀ a ∈ as, a.Inputs fun input => input.databaseAnswers = true)
    (hreplay : Run.Along (step P config) (NotAfterRejection P) init as) :
    Run.Along (step P config) (ReturnsSecured P config) init as := by
  refine (Run.run_along (I := fun u => (u.shared.orders.WellFormed ∧
      ∀ k ∈ u.activations, k.Prepared P u.shared.orders) ∧
      ∀ o ∈ u.shared.orders.docs, Covers P u o) hrun has ?_ hreplay ?_).2
  · exact ⟨⟨Collection.wellFormed_empty, fun _ hk => absurd hk List.not_mem_nil⟩,
      fun o ho => absurd ho List.not_mem_nil⟩
  · rintro u a v ⟨hu, hcovers⟩ ha hreplay hstep
    have hv := ((relyGuarantee P config fun _ => True).step a.inputs_true hu.1 hu.2 hstep).1
    exact ⟨⟨hv, covers_step hu.2 hcovers ha hstep⟩, returnsSecured_step hu.2 hcovers ha hreplay⟩

/-- Two orders; the message of the second is rejected, and its key is used for another payload. -/
def conflictAfterRejection : List Action :=
  creating 0 (samplePayload 10) "key" "id" "2024-05-01T10:00:00.000Z" ++
    [.invoke (.createOrder (samplePayload 10) "key"), .resume 1 (.find .ok),
      .invoke (.createOrder (samplePayload 10) "key-2"), .resume 2 (.find .ok),
      .resume 2 (.insertOne "id-2" "2024-05-01T11:00:00.000Z" .ok),
      .resume 2 (.sendMessage false "2024-05-01T11:00:00.001Z"),
      .invoke (.createOrder (samplePayload 20) "key-2"), .resume 3 (.find .ok)]

theorem returnsSecured_conflictAfterRejection :
    ∃ s, Run.run (step .reference .default) init conflictAfterRejection = some s ∧
      s.activations.map Call.errorName
        = [none, none, some "QueueError", some "IdempotencyConflictError"] ∧
      Run.Along (step .reference .default) (ReturnsSecured .reference .default) init
        conflictAfterRejection := by
  have hrun : (Run.run (step .reference .default) init conflictAfterRejection).map
      (fun s => s.activations.map Call.errorName)
      = some [none, none, some "QueueError", some "IdempotencyConflictError"] := by decide
  obtain ⟨s, hs, hnames⟩ := Option.map_eq_some_iff.mp hrun
  exact ⟨s, hs, hnames, returnsSecured_of_notAfterRejection hs (by decide) (by decide)⟩

/-- The message of the order is rejected, and the client replays its request. -/
def replayAfterRejection : List Action :=
  [.invoke (.createOrder (samplePayload 10) "key"), .resume 0 (.find .ok),
    .resume 0 (.insertOne "id" "2024-05-01T10:00:00.000Z" .ok),
    .resume 0 (.sendMessage false "2024-05-01T10:00:00.001Z"),
    .invoke (.createOrder (samplePayload 10) "key"), .resume 1 (.find .ok)]

/-- The replay succeeds, although nothing was published and no call is left to publish anything. -/
theorem replayAfterRejection_not_secured :
    (∀ a ∈ replayAfterRejection, a.Inputs fun input => input.databaseAnswers = true) ∧
    (Run.run (step .reference .default) init replayAfterRejection).map
      (fun s => (s.activations.map Call.errorName, s.activations.map Call.returnedOrder,
        s.shared.effects.length))
      = some ([some "QueueError", none], [none, some ("key", "id")], 0) ∧
    ¬ Run.Along (step .reference .default) (ReturnsSecured .reference .default) init
      replayAfterRejection := by
  decide

end Service

end OrderProcessing
