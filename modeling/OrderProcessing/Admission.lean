import OrderProcessing.Accounting
import OrderProcessing.AvailabilityLimit
import OrderProcessing.Replay

/-!
# Create requests and their orders

Every stored order was asked for by a request that passed the schema, and it still shows: the order
satisfies what the schema asks of a body, and no line exceeds the inventory. In the other direction,
a request that was answered with an order has the key and the hash of that order. So all requests
with one key that were answered 200 or 201 name one order, whatever else was going on, and at most
one of them was answered 201. A request may still fail for other reasons; nothing is said here about
requests that were answered 409 or 500.

## Main definitions

* `CreateOrder.Inserted` — the call has inserted the order
* `Server.Admitted` — where a stored order comes from
* `Server.KeysAnswered` — what the requests with one key are answered

## Main results

* `Server.stored_admitted`
* `Server.keys_answered`
-/

namespace OrderProcessing

open OrderRepository

/-! ### The call that has inserted an order -/

/-- The call has inserted the order: it is about to publish it, or it has returned it as created, or
the database has reported a failure. -/
def CreateOrder.Inserted (call : CreateOrder) (orderId : String) : Prop :=
  match call.pc with
  | .publish order => order.id = orderId
  | .returned (.ok result) => result.created = true ∧ result.order.id = orderId
  | .returned (.error error) => error = .storage
  | _ => False

section Steps

variable {P : Platform} {config : AppConfig} {c : Collection} {input : Input}

theorem CreateOrder.Steps.keeps_inserted {call : CreateOrder} {r : Reaction CreateOrder}
    {orderId : String} (h : CreateOrder.Steps P c call input r)
    (haccepted : ∀ sentAt, input ≠ .sendMessage false sentAt) (hinserted : call.Inserted orderId) :
    r.call.Inserted orderId := by
  have hrunning := h.not_completed
  obtain ⟨payload, key, pc⟩ := call
  cases pc with
  | lookup => exact hinserted.elim
  | insert payloadHash => exact hinserted.elim
  | publish order =>
    obtain ⟨accepted, sentAt, rfl, rfl⟩ := h.of_publish rfl
    cases accepted with
    | true => exact ⟨rfl, hinserted⟩
    | false => exact absurd rfl (haccepted sentAt)
  | returned result => exact Bool.noConfusion hrunning

/-- A document that was not stored before a step of `createOrder` is the one that it has inserted.
-/
theorem CreateOrder.Steps.origin {call : CreateOrder} {r : Reaction CreateOrder} {o : OrderRecord}
    (h : CreateOrder.Steps P c call input r) (ho : o ∈ r.orders.docs) :
    o ∈ c.docs ∨ ∃ payloadHash uuid now, call.pc = .insert payloadHash ∧
      o = (newOrder call.payload call.idempotencyKey payloadHash uuid now).stored ∧
      r.call.Inserted o.id := by
  cases h with
  | inserted hpc hcreate =>
    refine ((mem_create hcreate).mp ho).imp_right fun heq => ⟨_, _, _, hpc, heq, ?_⟩
    rw [heq]
    exact rfl
  | landed hpc hcreate =>
    exact ((mem_create hcreate).mp ho).imp_right fun heq => ⟨_, _, _, hpc, heq, rfl⟩
  | _ => exact Or.inl ho

namespace System

variable {w w' : World} {task task' : Task} {o : OrderRecord}

/-- Where a document comes from in one step of a task: it was stored before, or the task is a create
request that has inserted it. -/
inductive Origin (w : World) (task task' : Task) (o : OrderRecord) : Prop
  | kept {o₀} : o₀ ∈ w.orders.docs → o₀.Extends o → Origin w task task' o
  | inserted {call call' payloadHash uuid now} : task = .postOrder call →
      task' = .postOrder call' → call'.payload = call.payload →
      call'.idempotencyKey = call.idempotencyKey → call.pc = .insert payloadHash →
      o = (newOrder call.payload call.idempotencyKey payloadHash uuid now).stored →
      call'.Inserted o.id →
      Origin w task task' o

theorem Steps.origin {input : Input} (h : Steps P config w task input w' task')
    (ho : o ∈ w'.orders.docs) : Origin w task task' o := by
  have hother : ∀ {call : Call} {input r}, Call.Steps P config w.orders call input r →
      (∀ create, call ≠ .createOrder create) → o ∈ r.orders.docs → Origin w task task' o := by
    intro call input r hr hcall ho
    rcases hr.mem_orders ho with ⟨o₀, ho₀, hext⟩ | ⟨create, _, _, _, heq, -⟩
    · exact .kept ho₀ hext
    · exact absurd heq (hcall create)
  cases h with
  | createOrder hr _ =>
    have hr' := CreateOrder.steps hr
    obtain ⟨hpayload, hkey⟩ := hr'.arguments_eq
    rcases hr'.origin ho with ho | ⟨payloadHash, uuid, now, hpc, heq, hinserted⟩
    · exact .kept ho (.refl o)
    · exact .inserted rfl rfl hpayload hkey hpc heq hinserted
  | validate hr => exact hother (.validateStatusUpdate (StatusValidation.steps hr)) (by simp) ho
  | handleOrderCreated hr =>
    exact hother (.handleOrderCreatedEvent (OrderCreatedEvent.steps hr)) (by simp) ho
  | handleStatus hr => exact hother (.applyStatusUpdate (StatusUpdate.steps hr)) (by simp) ho
  | _ => exact .kept ho (.refl o)

end System

end Steps

/-! ### The order that a call has returned -/

/-- The order that a call has returned is stored. -/
def CreateOrder.ReturnsStored (c : Collection) (call : CreateOrder) : Prop :=
  ∀ result, call.pc = .returned (.ok result) →
    ∃ o, findById c result.order.id = some o ∧ result.document.Extends o

/-- The same for any call; nothing is asked of the others. -/
def Call.ReturnsStored (c : Collection) : Call → Prop
  | .createOrder call => call.ReturnsStored c
  | _ => True

section Returned

variable {P : Platform} {config : AppConfig} {c c' : Collection} {input : Input}

theorem Call.ReturnsStored.stable {call : Call} (hext : c.Extends c') (h : call.ReturnsStored c) :
    call.ReturnsStored c' := by
  cases call with
  | createOrder call => exact fun result hpc => hext.exists_extends (h result hpc)
  | _ => trivial

theorem CreateOrder.Steps.returnsStored {call : CreateOrder} {r : Reaction CreateOrder}
    (hprep : call.Prepared P c) (h : CreateOrder.Steps P c call input r) :
    r.call.ReturnsStored r.orders := by
  intro result hresult
  cases h with
  | lookedUp =>
    obtain ⟨order, hfound, -, rfl⟩ := of_afterLookup_returned hresult
    obtain ⟨hmem, -⟩ := findByRequestId_eq_some_iff.mp hfound
    exact ⟨order, findById_of_mem hmem, .refl order⟩
  | @published order sentAt hpc =>
    obtain rfl := Except.ok.inj (CreateOrder.Pc.returned.inj hresult)
    simp only [Prepared, hpc] at hprep
    exact hprep.2
  | inserted => exact CreateOrder.Pc.noConfusion hresult
  | _ => exact absurd (CreateOrder.Pc.returned.inj hresult) (by simp)

theorem Service.relyGuarantee_returnsStored (P : Platform) (config : AppConfig)
    (p : Input → Prop) :
    Interleave.RelyGuarantee Service.start (Service.act P config) p (fun w => w.orders.WellFormed)
      (fun w call => call.Prepared P w.orders ∧ call.ReturnsStored w.orders)
      (fun w w' => w.orders.Extends w'.orders) where
  start := by
    intro w request w' call hw h
    obtain ⟨rfl, rfl⟩ := Prod.mk.inj (Option.some.inj h)
    refine ⟨hw, .refl w.orders, request.prepared P w.orders, ?_⟩
    cases request with
    | createOrder => exact fun _ hpc => CreateOrder.Pc.noConfusion hpc
    | _ => trivial
  act := by
    intro w call input w' call' hw hcall _ h
    obtain ⟨r, hstep, rfl, rfl⟩ := Service.act_steps h
    obtain ⟨hwf, hext, hprep⟩ := Call.Steps.prepared hw hcall.1 hstep
    refine ⟨hwf, hext, hprep, ?_⟩
    cases hstep with
    | createOrder hr => exact hr.returnsStored hcall.1
    | _ => trivial
  stable := fun hw hw' hext hcall => ⟨hcall.1.stable hw hw' hext, hcall.2.stable hext⟩

theorem Service.Reachable.returnsStored {p : Input → Prop} {s : Service.State}
    (h : Service.Reachable P config p s) :
    ∀ call ∈ s.activations, call.ReturnsStored s.shared.orders := by
  intro call hcall
  exact ((Interleave.invariant (relyGuarantee_returnsStored P config p) h
    Collection.wellFormed_empty fun _ hcall => absurd hcall List.not_mem_nil).2 call hcall).2

end Returned

/-! ### Admitted requests -/

namespace Server

variable {S : Setup} {s t : State}

/-- Taking up a request leaves the database alone. -/
theorem Starts.service {w w' : System.World} {request : Request} {job : Job}
    (h : Starts S w request w' job) : w'.service = w.service := by
  cases h with
  | updateStatus _ _ _ htask => exact (System.starts htask).service.1
  | draining htask => exact (System.starts htask).service.1
  | _ => rfl

/-- A create request has a payload that the schema accepts, and a key that is not empty. -/
def Job.Admitted : Job → Prop
  | .post (.postOrder call) => call.payload.Valid ∧
    ∃ value, trim value ≠ [] ∧ call.idempotencyKey = text (trim value)
  | _ => True

theorem relyGuarantee_admitted (S : Setup) :
    Interleave.RelyGuarantee (start S) (act S) (fun _ => True) (fun _ => True)
      (fun _ job => job.Admitted) (fun _ _ => True) where
  start := by
    intro w request w' job _ h
    refine ⟨trivial, trivial, ?_⟩
    cases starts h with
    | createOrder hbody hheaders hkey hcast =>
      obtain ⟨payload, hpayload, hvalid⟩ := CreateOrderInput.exists_cast hbody
      obtain ⟨value, -, hne, htext⟩ := exists_of_acceptedKey hheaders hkey
      obtain rfl := Option.some.inj (hcast.symm.trans hpayload)
      exact ⟨hvalid, value, hne, htext⟩
    | updateStatus _ _ _ htask => cases System.starts htask <;> trivial
    | _ => trivial
  act := by
    intro w job input w' job' _ hjob _ h
    refine ⟨trivial, trivial, ?_⟩
    cases steps h with
    | post htask =>
      cases System.steps htask with
      | createOrder hr =>
        obtain ⟨hpayload, hkey⟩ := (CreateOrder.steps hr).arguments_eq
        rw [Job.Admitted, hpayload, hkey]
        exact hjob
      | _ => trivial
    | _ => trivial
  stable := fun _ _ _ hjob => hjob

theorem Reachable.admitted (h : Reachable S s) : ∀ job ∈ s.activations, job.Admitted :=
  (Interleave.invariant (relyGuarantee_admitted S) h trivial
    fun _ hjob => absurd hjob (List.not_mem_nil)).2

/-- The job is the create request that has inserted the order. -/
def Job.Made (P : Platform) (job : Job) (o : OrderRecord) : Prop :=
  ∃ call : CreateOrder, job = .post (.postOrder call) ∧ call.Inserted o.id ∧
    o.StoredFrom P call.payload ∧ o.requestId = call.idempotencyKey

/-- A call that is about to insert has the hash of its payload. -/
theorem Reachable.payloadHash_eq (h : Reachable S s) {call : CreateOrder}
    (hjob : .post (.postOrder call) ∈ s.activations) {payloadHash : JsString}
    (hpc : call.pc = .insert payloadHash) :
    payloadHash = hashPayload S.platform call.payload.json := by
  obtain ⟨s', hs', hembedded⟩ := h.system
  have hprepared := hs'.prepared.2 _ (hembedded.embeds.mem hjob rfl)
  simpa only [System.serviceCall, Call.Prepared, CreateOrder.Prepared, hpc] using hprepared

/-- Every step of the server keeps the documents, or is that of a create request which inserts one.
-/
theorem originates (S : Setup) :
    Interleave.Originates (start S) (act S) (fun _ => True) (Reachable S)
      (fun w o => o ∈ w.orders.docs) OrderRecord.Extends (Job.Made S.platform) where
  start := by
    intro s request w job o _ h ho
    have horders : w.orders = s.shared.orders := by rw [System.World.orders, (starts h).service]
    exact ⟨o, horders ▸ ho, .refl o⟩
  keep := by
    rintro w job input w' job' o h ⟨call, rfl, hinserted, hfrom, hkey⟩
    cases steps h with
    | post htask =>
      cases System.steps htask with
      | createOrder hr haccepted =>
        have hr' := CreateOrder.steps hr
        obtain ⟨hpayload', hkey'⟩ := hr'.arguments_eq
        exact ⟨_, rfl, hr'.keeps_inserted haccepted hinserted, hpayload' ▸ hfrom,
          hkey'.symm ▸ hkey⟩
  act := by
    intro s i job input w job' o hs hi _ h ho
    have hjob := List.mem_of_getElem? hi
    cases steps h with
    | post htask =>
      cases (System.steps htask).origin ho with
      | kept ho₀ hext => exact Or.inl ⟨_, ho₀, hext⟩
      | @inserted call call' payloadHash uuid now hcall hcall' hpayload hkey hpc heq hinserted =>
        subst hcall hcall'
        have hhash := hs.payloadHash_eq hjob hpc
        refine Or.inr ⟨call', rfl, hinserted, ?_, ?_⟩
        · rw [heq, hhash, hpayload]
          exact (OrderRecord.CreatedFrom.newOrder S.platform call.payload call.idempotencyKey uuid
            now).stored
        · rw [heq, hkey]
          rfl
    | read => exact Or.inl ⟨o, ho, .refl o⟩
    | consume htask =>
      have hkept := hs.kept _ hjob
      cases (System.steps htask).origin ho with
      | kept ho₀ hext => exact Or.inl ⟨_, ho₀, hext⟩
      | inserted hcall =>
        rw [Job.Kept, hcall] at hkept
        exact Bool.noConfusion hkept
    | next _ htask =>
      have horders : w.orders = s.shared.orders := by
        rw [System.World.orders, (System.starts htask).service.1]
      exact Or.inl ⟨o, horders ▸ ho, .refl o⟩
  later := by
    rintro job o₀ o ⟨call, rfl, hinserted, hfrom, hkey⟩ hext
    exact ⟨call, rfl, hext.id_eq.symm ▸ hinserted, hfrom.of_extends hext,
      hext.requestId_eq.trans hkey⟩

/-- Where a stored order comes from, and what is therefore true of it. -/
structure Admitted (P : Platform) (s : State) (o : OrderRecord) : Prop where
  /-- A create request has inserted it. -/
  made : ∃ job ∈ s.activations, job.Made P o
  /-- The key of this request was trimmed and is not empty. -/
  requestId : ∃ value, trim value ≠ [] ∧ o.requestId = text (trim value)
  customerId : o.customerId ≠ []
  items : o.items ≠ []
  lines : ∀ item ∈ o.items, item.sku ≠ [] ∧
    ∃ n : ℤ, item.qty = .finite n ∧ 1 ≤ n ∧ n ≤ maxPerItem
  totalAmount : ∃ q, o.totalAmount = .finite q ∧ 0 < q

/-- Two requests with one key, once with spaces around it, look the key up before either inserts its
order; a third one comes later. -/
def racedAndReplayed : List Action :=
  [.invoke (.http none (.createOrder (sampleHeaders " key ") (.parsed (sampleBody 10)))),
    .invoke (.http none (.createOrder (sampleHeaders "key") (.parsed (sampleBody 10)))),
    .resume 0 (.task (.call (.find .ok))), .resume 1 (.task (.call (.find .ok))),
    .resume 0 (.task (.call (.insertOne "id" "2024-05-01T10:00:00.000Z" .ok))),
    .resume 1 (.task (.call (.insertOne "id-2" "2024-05-01T10:00:00.000Z" .ok))),
    .resume 0 (.task (.call (.sendMessage true "2024-05-01T10:00:00.000Z"))),
    .invoke (.http none (.createOrder (sampleHeaders "key") (.parsed (sampleBody 10)))),
    .resume 2 (.task (.call (.find .ok)))]

/-- One, if the call has inserted the order and knows it. -/
def madeCount (orderId : String) (call : CreateOrder) : ℕ :=
  match call.pc with
  | .publish order => if order.id = orderId then 1 else 0
  | .returned (.ok ⟨order, true⟩) => if order.id = orderId then 1 else 0
  | _ => 0

/-- The same for any job. -/
def Job.madeCount (orderId : String) : Job → ℕ
  | .post (.postOrder call) => Server.madeCount orderId call
  | _ => 0

/-- One, if the order is stored. -/
def storedCount (orderId : String) (c : Collection) : ℕ := (findById c orderId).elim 0 fun _ => 1

theorem storedCount_of_extends {c c' : Collection} (hext : c.Extends c') (orderId : String) :
    storedCount orderId c ≤ storedCount orderId c' := by
  rw [storedCount, storedCount]
  cases hfind : findById c orderId with
  | none => exact Nat.zero_le _
  | some o =>
    obtain ⟨o', ho', -⟩ := hext orderId o hfind
    rw [ho']
    exact Nat.le_refl 1

theorem madeCount_of_not_created {orderId : String} {call : CreateOrder}
    (hpublish : ∀ order, call.pc ≠ .publish order)
    (hcreated : ∀ order, call.pc ≠ .returned (.ok ⟨order, true⟩)) : madeCount orderId call = 0 := by
  obtain ⟨payload, key, pc⟩ := call
  rcases pc with _ | _ | order | (error | ⟨order, _ | _⟩)
  · rfl
  · rfl
  · exact absurd rfl (hpublish order)
  · rfl
  · rfl
  · exact absurd rfl (hcreated order)

/-- A call counts once its order is stored. -/
theorem madeCount_step {c : Collection} {P : Platform} {input : OrderProcessing.Input}
    {call : CreateOrder} {r : Reaction CreateOrder} (h : CreateOrder.Steps P c call input r)
    (hext : c.Extends r.orders) (orderId : String) :
    madeCount orderId r.call + storedCount orderId c
      ≤ madeCount orderId call + storedCount orderId r.orders := by
  have hgrown := storedCount_of_extends hext orderId
  have hnew : (∀ order, r.call.pc ≠ .publish order) →
      (∀ order, r.call.pc ≠ .returned (.ok ⟨order, true⟩)) →
      madeCount orderId r.call + storedCount orderId c
        ≤ madeCount orderId call + storedCount orderId r.orders := by
    intro hpublish hcreated
    rw [madeCount_of_not_created hpublish hcreated]
    omega
  cases h with
  | lookedUp =>
    refine hnew (fun order hpc => ?_) fun order hpc => ?_
    · rcases call.afterLookup_cases P (findByRequestId c call.idempotencyKey) with
        ⟨_, _, _, heq⟩ | ⟨_, _, _, heq⟩ | ⟨_, _, _, _, heq⟩ | ⟨_, _, heq⟩
      all_goals
        rw [heq] at hpc
        exact CreateOrder.Pc.noConfusion hpc
    · obtain ⟨_, -, -, hresult⟩ := CreateOrder.of_afterLookup_returned hpc
      exact Bool.noConfusion (congrArg CreateOrderResult.created hresult)
  | @inserted payloadHash uuid now orders' hpc hcreate =>
    show (if uuid = orderId then 1 else 0) + _ ≤ _
    by_cases hid : uuid = orderId
    · subst hid
      have habsent : storedCount uuid c = 0 := by
        rw [storedCount, show findById c uuid = none from (create_eq_some_iff.mp hcreate).1]
        rfl
      have hpresent : storedCount uuid orders' = 1 := by
        rw [storedCount, findById_create hcreate]
        exact congrArg (Option.elim · 0 fun _ => 1) (if_pos rfl)
      rw [if_pos rfl, habsent, hpresent]
      omega
    · rw [if_neg hid]
      omega
  | @published order sentAt hpc =>
    have hcount : madeCount orderId call = if order.id = orderId then 1 else 0 := by
      simp only [madeCount, hpc]
    rw [hcount]
    exact Nat.le_refl _
  | _ => exact hnew (by simp [CreateOrder.finish]) (by simp [CreateOrder.finish])

theorem bounded (S : Setup) (orderId : String) :
    Interleave.Bounded (start S) (act S) (fun _ => True) (Reachable S)
      (fun w => storedCount orderId w.orders) (Job.madeCount orderId) where
  start := by
    intro s request w job _ h
    have hstarts := starts h
    have horders : w.orders = s.shared.orders := by rw [System.World.orders, hstarts.service]
    have hjob : job.madeCount orderId = 0 := by
      cases hstarts with
      | updateStatus _ _ _ htask => cases System.starts htask <;> rfl
      | _ => rfl
    rw [hjob, horders, Nat.zero_add]
  act := by
    intro s i job input w job' hs hi _ h
    have hstep : step S s (.resume i input) = some ⟨w, s.activations.set i job'⟩ :=
      Interleave.step_resume_eq_some.mpr ⟨job, w, job', hi, h, rfl⟩
    have hrun : Run.Reachable (step S) (Interleave.Action.Inputs fun _ => True) s
        ⟨w, s.activations.set i job'⟩ := .single (a := .resume i input) trivial hstep
    have hext : s.shared.orders.Extends w.orders := extends_of_run hs hrun
    have hgrown := storedCount_of_extends hext orderId
    cases steps h with
    | @post task _ _ task' htask =>
      cases System.steps htask with
      | createOrder hr _ => exact madeCount_step (CreateOrder.steps hr) hext orderId
      | _ => exact Nat.add_le_add_left hgrown 0
    | _ => exact Nat.add_le_add_left hgrown 0

/-- The request with number `i` was answered with an order. -/
def AnsweredWith (s : State) (i : ℕ) (call : CreateOrder) (statusCode : ℕ) (orderId : String) :
    Prop :=
  s.activations[i]? = some (.post (.postOrder call)) ∧
    ∃ status, (Job.post (.postOrder call)).response = some ⟨statusCode, .order orderId status⟩

theorem AnsweredWith.returned {i : ℕ} {call : CreateOrder} {statusCode : ℕ} {orderId : String}
    (h : AnsweredWith s i call statusCode orderId) :
    ∃ order created, call.pc = .returned (.ok ⟨order, created⟩) ∧ order.id = orderId ∧
      statusCode = if created then 201 else 200 := by
  obtain ⟨-, status, hresponse⟩ := h
  obtain ⟨payload, key, pc⟩ := call
  rcases pc with _ | _ | _ | (error | ⟨order, created⟩)
  · simp [Job.response] at hresponse
  · simp [Job.response] at hresponse
  · simp [Job.response] at hresponse
  · cases error <;> simp [Job.response, createOrderResponse, ServiceError.response] at hresponse
  · obtain ⟨hcode, hid, -⟩ : (if created then 201 else 200) = statusCode ∧ order.id = orderId ∧
        order.status.text = status := by
      simpa [Job.response, createOrderResponse] using hresponse
    exact ⟨order, created, rfl, hid, hcode.symm⟩

/-- What the create requests are answered, key by key. -/
structure KeysAnswered (P : Platform) (s : State) : Prop where
  /-- The order that is named is stored, with the key and the hash of the request. -/
  stored : ∀ {i call statusCode orderId}, AnsweredWith s i call statusCode orderId →
    ∃ o ∈ s.shared.orders.docs, o.id = orderId ∧ o.requestId = call.idempotencyKey ∧
      o.payloadHash = hashPayload P call.payload.json
  /-- Two requests with one key have named one order, and their payloads have one hash. -/
  same : ∀ {i j call call' statusCode statusCode' orderId orderId'},
    AnsweredWith s i call statusCode orderId → AnsweredWith s j call' statusCode' orderId' →
    call.idempotencyKey = call'.idempotencyKey → orderId = orderId' ∧
      hashPayload P call.payload.json = hashPayload P call'.payload.json
  /-- At most one of them was answered 201. -/
  created : ∀ {i j call call' orderId orderId'}, AnsweredWith s i call 201 orderId →
    AnsweredWith s j call' 201 orderId' → call.idempotencyKey = call'.idempotencyKey → i = j

theorem Reachable.exists_stored (h : Reachable S s) {i : ℕ} {call : CreateOrder} {statusCode : ℕ}
    {orderId : String} (hanswered : AnsweredWith s i call statusCode orderId) :
    ∃ o ∈ s.shared.orders.docs, o.id = orderId ∧ o.requestId = call.idempotencyKey ∧
      o.payloadHash = hashPayload S.platform call.payload.json := by
  obtain ⟨order, created, hpc, hid, -⟩ := hanswered.returned
  obtain ⟨s', hs', hembedded⟩ := h.system
  have hshared : s'.shared = s.shared := hembedded.shared
  have hcall : Call.createOrder call
      ∈ (s'.map System.World.service System.serviceCall).activations :=
    List.mem_map_of_mem (f := System.serviceCall)
      (hembedded.embeds.mem (List.mem_of_getElem? hanswered.1) rfl)
  obtain ⟨hkey, hhash, -⟩ := hs'.service.answered.2 _ hcall ⟨order, created⟩ hpc
  obtain ⟨o, ho, hext⟩ := hs'.service.returnsStored _ hcall ⟨order, created⟩ hpc
  have hstored : findById s'.shared.orders order.id = some o := ho
  rw [hshared] at hstored
  refine ⟨o, (findById_eq_some_iff.mp hstored).1, ?_, ?_, ?_⟩
  · exact hext.id_eq.trans ((CreateOrderResult.document_id _).trans hid)
  · exact hext.requestId_eq.trans ((CreateOrderResult.document_requestId _).trans hkey)
  · exact hext.payloadHash_eq.trans ((CreateOrderResult.document_payloadHash _).trans hhash)

/-- The key leads to one stored document. -/
theorem Reachable.answers_same (h : Reachable S s) {i j : ℕ} {call call' : CreateOrder}
    {statusCode statusCode' : ℕ} {orderId orderId' : String}
    (hi : AnsweredWith s i call statusCode orderId)
    (hj : AnsweredWith s j call' statusCode' orderId')
    (hkeys : call.idempotencyKey = call'.idempotencyKey) : orderId = orderId' ∧
      hashPayload S.platform call.payload.json = hashPayload S.platform call'.payload.json := by
  obtain ⟨o, ho, hid, hkey, hhash⟩ := h.exists_stored hi
  obtain ⟨o', ho', hid', hkey', hhash'⟩ := h.exists_stored hj
  obtain rfl : o = o' := eq_of_requestId_eq ho ho' (by rw [hkey, hkey', hkeys])
  exact ⟨hid.symm.trans hid', hhash.symm.trans hhash'⟩

/-- One document is inserted by one call. -/
theorem Reachable.created_unique (h : Reachable S s) {i j : ℕ} {call call' : CreateOrder}
    {orderId orderId' : String} (hi : AnsweredWith s i call 201 orderId)
    (hj : AnsweredWith s j call' 201 orderId')
    (hkeys : call.idempotencyKey = call'.idempotencyKey) : i = j := by
  obtain ⟨hids, -⟩ := h.answers_same hi hj hkeys
  have hmade : ∀ {i call orderId}, AnsweredWith s i call 201 orderId →
      (Job.post (.postOrder call)).madeCount orderId = 1 := by
    intro i call orderId hi
    obtain ⟨order, created, hpc, hid, hcode⟩ := hi.returned
    cases created with
    | true => simp only [Job.madeCount, madeCount, hpc, if_pos hid]
    | false => exact absurd hcode (by decide)
  have hbound := (bounded S orderId).reachable
    (fun _ _ _ hu ha hstep => Run.Reachable.tail hu ha hstep) h (.refl init) (Nat.zero_le _)
  have hcap : storedCount orderId s.shared.orders ≤ 1 := by
    rw [storedCount]
    cases findById s.shared.orders orderId with
    | none => exact Nat.zero_le 1
    | some o => exact Nat.le_refl 1
  -- two calls that have inserted the order would weigh more than the one document
  by_contra hij
  have htwo := Interleave.add_le_sum_map (Job.madeCount orderId) hi.1 hj.1 hij
  rw [hmade hi, hids, hmade hj, ← hids] at htwo
  omega

/-- **Requests with one key name one order, and at most one of them was answered 201.** -/
theorem keys_answered (h : Reachable S s) : KeysAnswered S.platform s :=
  ⟨h.exists_stored, h.answers_same, h.created_unique⟩

theorem keys_answered_racedAndReplayed :
    ∃ s, Run.run (step .reference) init racedAndReplayed = some s ∧
      s.activations.map (fun job => job.response.map Response.statusCode)
        = [some 201, some 500, some 200] ∧
      KeysAnswered .reference s := by
  have hrun : (Run.run (step .reference) init racedAndReplayed).map
      (fun s => s.activations.map fun job => job.response.map Response.statusCode)
      = some [some 201, some 500, some 200] := by decide +kernel
  obtain ⟨s, hs, hobs⟩ := Option.map_eq_some_iff.mp hrun
  exact ⟨s, hs, hobs, keys_answered (S := .reference) ⟨_, fun a _ => a.inputs_true, hs⟩⟩

end Server

end OrderProcessing
