import OrderProcessing.Responses

/-!
# Requests that come again

Clients repeat requests that they have seen no answer to, and Delivery repeats its callbacks. Here
is what such a request is answered when what it asks for has happened before it looks: whatever runs
beside it, there are few answers left.

A create request for a key under which an order is stored does not change anything. It is answered
with that order if it has the hash of its payload, with a conflict if not, and with an internal
error if its lookup has failed. An update of a stored order is not answered 404, it is answered as a
duplicate if its event is recorded, and it is not accepted if the order has reached its status; here
too the database may fail.

## Main definitions

* `Server.Unlooked` — a request that has not yet looked anything up
* `Server.RepeatResponse`, `Server.LateReply` — the answers that are left
* `Server.RepeatAnswered` — what becomes of a create request that comes again

## Main results

* `Server.repeats_answered`, `Server.updates_answered`
-/

namespace OrderProcessing

open OrderRepository

namespace Server

variable {S : Setup} {s t u : State} {order : OrderRecord} {i : ℕ}

/-- The request is waiting for its first lookup. -/
def Job.AtLookup : Job → Prop
  | .post (.postOrder call) => call.pc = .lookup
  | .post (.postStatus (some call) none) => call.pc = .lookup
  | _ => False

/-- If there is already a request with this number, it has not yet looked anything up. -/
def Unlooked (s : State) (i : ℕ) : Prop := ∀ job, s.activations[i]? = some job → job.AtLookup

/-- A request that is yet to come. -/
theorem Unlooked.of_length_le (h : s.activations.length ≤ i) : Unlooked s i := by
  intro job hjob
  rw [List.getElem?_eq_none h] at hjob
  simp at hjob

/-- A stored document is stored from then on. -/
theorem exists_later_mem (h : Reachable S s) (hrun : Leads S s t)
    (horder : order ∈ s.shared.orders.docs) :
    ∃ o ∈ t.shared.orders.docs, order.Extends o ∧ order.status.rank ≤ o.status.rank := by
  obtain ⟨o, ho, hext, -, hrank⟩ := exists_later h hrun (findById_of_mem horder)
  exact ⟨o, (findById_eq_some_iff.mp ho).1, hext, hrank⟩

/-! ### Create requests -/

/-- Where a `createOrder` call can be if the order was stored under its key before it has looked. -/
inductive Repeated (order : OrderRecord) (payloadHash : JsString) : CreateOrder.Pc → Prop
  | waiting : Repeated order payloadHash .lookup
  | failed : Repeated order payloadHash (.returned (.error .storage))
  | replayed {order'} : order'.id = order.id → order.payloadHash = payloadHash →
      Repeated order payloadHash (.returned (.ok ⟨order', false⟩))
  | conflict {message} : order.payloadHash ≠ payloadHash →
      Repeated order payloadHash (.returned (.error (.idempotencyConflict message)))

theorem Repeated.step {P : Platform} {c : Collection} {call : CreateOrder}
    {input : OrderProcessing.Input} {r : Reaction CreateOrder} {o : OrderRecord} (ho : o ∈ c.docs)
    (hext : order.Extends o) (hkey : call.idempotencyKey = order.requestId)
    (h : Repeated order (hashPayload P call.payload.json) call.pc)
    (hstep : CreateOrder.Steps P c call input r) :
    Repeated order (hashPayload P call.payload.json) r.call.pc := by
  cases hstep with
  | lookedUp =>
    have hfound : findByRequestId c call.idempotencyKey = some o :=
      findByRequestId_eq_some_iff.mpr ⟨ho, hext.requestId_eq.trans hkey.symm⟩
    rw [hfound]
    by_cases hhash : order.payloadHash = hashPayload P call.payload.json
    · have hsame : o.payloadHash = hashPayload P call.payload.json :=
        hext.payloadHash_eq.trans hhash
      rw [CreateOrder.afterLookup, if_neg (not_not_intro hsame)]
      exact .replayed hext.id_eq hhash
    · have hother : o.payloadHash ≠ hashPayload P call.payload.json := by
        rwa [hext.payloadHash_eq]
      rw [CreateOrder.afterLookup, if_pos hother]
      exact .conflict hhash
  | failed => exact .failed
  | inserted hpc | rejected hpc | landed hpc | published hpc | refused hpc =>
    rw [hpc] at h
    cases h

/-- Such a call writes nothing and sends nothing. -/
theorem Repeated.unchanged {P : Platform} {c : Collection} {call : CreateOrder}
    {input : OrderProcessing.Input} {r : Reaction CreateOrder} {payloadHash : JsString}
    (h : Repeated order payloadHash call.pc) (hstep : CreateOrder.Steps P c call input r) :
    r.orders = c ∧ r.effect = none := by
  cases hstep with
  | lookedUp => exact ⟨rfl, rfl⟩
  | failed => exact ⟨rfl, rfl⟩
  | inserted hpc | rejected hpc | landed hpc | published hpc | refused hpc =>
    rw [hpc] at h
    cases h

/-- What a create request is answered when the order was stored under its key before it has looked.
-/
inductive RepeatResponse (order : OrderRecord) (payloadHash : JsString) : Response → Prop
  | failed : RepeatResponse order payloadHash ⟨500, .internal .storage⟩
  | replayed {status} : order.payloadHash = payloadHash →
      RepeatResponse order payloadHash ⟨200, .order order.id status⟩
  | conflict {message} : order.payloadHash ≠ payloadHash →
      RepeatResponse order payloadHash ⟨409, .error message⟩

theorem Repeated.response {call : CreateOrder} {payloadHash : JsString} {response : Response}
    (h : Repeated order payloadHash call.pc)
    (hresponse : (Job.post (.postOrder call)).response = some response) :
    RepeatResponse order payloadHash response := by
  obtain ⟨payload, key, pc⟩ := call
  cases h with
  | waiting => simp [Job.response] at hresponse
  | failed =>
    rw [← Option.some.inj hresponse]
    exact .failed
  | replayed hid hhash =>
    rw [← Option.some.inj hresponse, createOrderResponse, hid]
    exact .replayed hhash
  | conflict hhash =>
    rw [← Option.some.inj hresponse]
    exact .conflict hhash

theorem Unlooked.repeated (h : Reachable S s) (horder : order ∈ s.shared.orders.docs)
    (hrun : Leads S s t) (hunlooked : Unlooked s i) {call : CreateOrder}
    (hi : t.activations[i]? = some (.post (.postOrder call)))
    (hkey : call.idempotencyKey = order.requestId) :
    Repeated order (hashPayload S.platform call.payload.json) call.pc := by
  refine Interleave.of_getElem? (q := fun job => ∀ call, job = .post (.postOrder call) →
    call.idempotencyKey = order.requestId →
    Repeated order (hashPayload S.platform call.payload.json) call.pc) hrun ?_ ?_ ?_ _ hi call rfl
    hkey
  · rintro u request w _ - hstart call rfl -
    cases starts hstart with
    | createOrder => exact .waiting
    | updateStatus _ _ _ htask => cases System.starts htask
  · rintro u job input w _ hu - hact hjob call' rfl hkey
    cases steps hact with
    | post htask =>
      cases System.steps htask with
      | createOrder hr _ =>
        have hr' := CreateOrder.steps hr
        obtain ⟨hpayload, hkey'⟩ := hr'.arguments_eq
        obtain ⟨o, ho, hext, -⟩ := exists_later_mem h hu horder
        have hcall := hkey'.symm.trans hkey
        rw [hpayload]
        exact (hjob _ rfl hcall).step ho hext hcall hr'
  · rintro job hjob call rfl -
    rw [show call.pc = .lookup from hunlooked _ hjob]
    exact .waiting

/-- The key of a create request. -/
def Job.createKey? : Job → Option String
  | .post (.postOrder call) => some call.idempotencyKey
  | _ => none

theorem Job.exists_of_createKey? {job : Job} {key : String} (h : job.createKey? = some key) :
    ∃ call, job = .post (.postOrder call) ∧ call.idempotencyKey = key := by
  cases job with
  | post task =>
    cases task with
    | postOrder call => exact ⟨call, rfl, Option.some.inj h⟩
    | _ => simp [createKey?] at h
  | _ => simp [createKey?] at h

theorem Steps.createKey?_eq {w w' : System.World} {job job' : Job} {input : Input}
    (h : Steps S w job input w' job') : job'.createKey? = job.createKey? := by
  cases h with
  | post htask =>
    cases System.steps htask with
    | createOrder hr => exact congrArg some (CreateOrder.steps hr).arguments_eq.2
    | _ => rfl
  | _ => rfl

/-- Neither the start of such a request nor its steps change anything. -/
theorem Unlooked.unchanged (h : Reachable S s) (horder : order ∈ s.shared.orders.docs)
    (hunlooked : Unlooked s i) {v : State} {a : Action} (hu : Leads S s u)
    (hconcerns : Concerns u i a) (hstep : step S u a = some v) (hv : Leads S v t)
    {call : CreateOrder} (hi : t.activations[i]? = some (.post (.postOrder call)))
    (hkey : call.idempotencyKey = order.requestId) : v.shared = u.shared := by
  -- what the request is at the end, it is when the step has been taken
  have hend : ∀ {k}, v.activations[i]? = some k → k.createKey? = some order.requestId := by
    intro k hk
    obtain ⟨k', hk', hsame⟩ := Interleave.exists_getElem?
      (q := fun job => job.createKey? = k.createKey?)
      (fun hact hq => (steps hact).createKey?_eq.trans hq) hv hk rfl
    obtain rfl := Option.some.inj (hi.symm.trans hk')
    exact hsame.symm.trans (congrArg some hkey)
  cases a with
  | invoke request =>
    obtain ⟨w, k, hstart, rfl⟩ := Interleave.step_invoke_eq_some.mp hstep
    obtain rfl : i = u.activations.length := hconcerns
    obtain ⟨create, rfl, -⟩ := Job.exists_of_createKey? (hend List.getElem?_concat_length)
    cases starts hstart with
    | createOrder => rfl
    | updateStatus _ _ _ htask => cases System.starts htask
  | resume j input =>
    obtain ⟨k, w, k', hj, hact, rfl⟩ := Interleave.step_resume_eq_some.mp hstep
    obtain rfl : i = j := hconcerns
    have hk := (steps hact).createKey?_eq.symm.trans
      (hend (Interleave.getElem?_set_of_some hj k'))
    obtain ⟨create, rfl, hcreate⟩ := Job.exists_of_createKey? hk
    have hrepeated := hunlooked.repeated h horder hu hj hcreate
    cases steps hact with
    | post htask =>
      cases System.steps htask with
      | createOrder hr _ =>
        obtain ⟨horders, heffect⟩ := hrepeated.unchanged (CreateOrder.steps hr)
        exact System.after_eq_self horders heffect

/-- The lookup of the request with number `i` has failed. -/
def LookupFailed (S : Setup) (s t : State) (i : ℕ) : Prop :=
  ∃ u v answer, answer ≠ .ok ∧ Leads S s u ∧
    step S u (.resume i (.task (.call (.find answer)))) = some v ∧ Leads S v t

theorem LookupFailed.later {a : Action} (h : LookupFailed S s t i) (hstep : step S t a = some u) :
    LookupFailed S s u i := by
  obtain ⟨v, w, answer, hanswer, hv, hfind, hw⟩ := h
  exact ⟨v, w, answer, hanswer, hv, hfind, hw.trans (Leads.of_step hstep)⟩

/-- A storage error of such a call is that of its lookup. -/
theorem Repeated.exists_find {P : Platform} {c : Collection} {call : CreateOrder}
    {input : OrderProcessing.Input} {r : Reaction CreateOrder} {payloadHash : JsString}
    (h : Repeated order payloadHash call.pc) (hstep : call.step P c input = some r)
    (hpc : r.call.pc = .returned (.error .storage)) :
    ∃ answer, answer ≠ .ok ∧ input = .find answer := by
  have hsteps := CreateOrder.steps hstep
  have hrunning := hsteps.not_completed
  -- a call that has not returned is at its lookup
  have hlookup : call.pc = .lookup := by
    obtain ⟨payload, key, pc⟩ := call
    cases h with
    | waiting => rfl
    | _ => exact Bool.noConfusion hrunning
  cases input with
  | find answer =>
    refine ⟨answer, ?_, rfl⟩
    rintro rfl
    obtain ⟨-, rfl⟩ := hsteps.of_lookup hlookup rfl
    rcases call.afterLookup_cases P (findByRequestId c call.idempotencyKey) with
      ⟨_, _, _, heq⟩ | ⟨_, _, _, heq⟩ | ⟨_, _, _, _, heq⟩ | ⟨_, _, heq⟩
    all_goals
      rw [heq] at hpc
      simp [CreateOrder.finish] at hpc
  | _ => simp [CreateOrder.step, hlookup] at hstep

theorem Unlooked.lookupFailed (h : Reachable S s) (horder : order ∈ s.shared.orders.docs)
    (hrun : Leads S s t) (hunlooked : Unlooked s i) {call : CreateOrder}
    (hi : t.activations[i]? = some (.post (.postOrder call)))
    (hkey : call.idempotencyKey = order.requestId)
    (hpc : call.pc = .returned (.error .storage)) : LookupFailed S s t i := by
  refine (Run.Reachable.invariant (I := fun u => Leads S s u ∧
    ∀ call, u.activations[i]? = some (.post (.postOrder call)) →
      call.idempotencyKey = order.requestId → call.pc = .returned (.error .storage) →
      LookupFailed S s u i) hrun ⟨.refl s, ?_⟩ ?_).2 call hi hkey hpc
  · intro call hi _ hpc
    have hlookup : call.pc = .lookup := hunlooked _ hi
    exact absurd (hlookup.symm.trans hpc) CreateOrder.Pc.noConfusion
  · rintro u a v ⟨hu, hfailed⟩ ha hstep
    refine ⟨hu.tail ha hstep, fun call hi hkey hpc => ?_⟩
    cases a with
    | invoke request =>
      obtain ⟨w, k, hstart, rfl⟩ := Interleave.step_invoke_eq_some.mp hstep
      rcases Interleave.getElem?_append_cases hi with hi | ⟨-, rfl⟩
      · exact (hfailed call hi hkey hpc).later hstep
      · cases starts hstart with
        | createOrder => exact CreateOrder.Pc.noConfusion hpc
        | updateStatus _ _ _ htask => cases System.starts htask
    | resume j input =>
      obtain ⟨k, w, k', hj, hact, rfl⟩ := Interleave.step_resume_eq_some.mp hstep
      rcases Interleave.getElem?_set_cases hi with ⟨rfl, rfl⟩ | ⟨-, hi⟩
      · cases steps hact with
        | post htask =>
          cases System.steps htask with
          | createOrder hr _ =>
            have hkey₀ := (CreateOrder.steps hr).arguments_eq.2.symm.trans hkey
            have hrepeated := hunlooked.repeated h horder hu hj hkey₀
            obtain ⟨answer, hanswer, rfl⟩ := hrepeated.exists_find hr hpc
            exact ⟨u, _, answer, hanswer, hu, hstep, .refl _⟩
      · exact (hfailed call hi hkey hpc).later hstep

/-- What becomes of a create request when the order was stored under its key before it has looked.
-/
structure RepeatAnswered (S : Setup) (s t : State) (i : ℕ) (order : OrderRecord)
    (call : CreateOrder) : Prop where
  /-- Neither the start of the request nor its steps change anything. -/
  unchanged : ∀ {u v a}, Leads S s u → Concerns u i a → step S u a = some v → Leads S v t →
    v.shared = u.shared
  answered : ∀ {response}, (Job.post (.postOrder call)).response = some response →
    RepeatResponse order (hashPayload S.platform call.payload.json) response
  /-- An internal error means that the lookup has failed. -/
  failed : (Job.post (.postOrder call)).response = some ⟨500, .internal .storage⟩ →
    LookupFailed S s t i

/-- **A repeated create request is answered with the order, or turned away.** From the moment an
order is stored under a key, no request with this key that has not yet looked creates anything. -/
theorem repeats_answered (h : Reachable S s) (horder : order ∈ s.shared.orders.docs)
    (hrun : Leads S s t) (hunlooked : Unlooked s i) {call : CreateOrder}
    (hi : t.activations[i]? = some (.post (.postOrder call)))
    (hkey : call.idempotencyKey = order.requestId) : RepeatAnswered S s t i order call where
  unchanged hu hconcerns hstep hv := hunlooked.unchanged h horder hu hconcerns hstep hv hi hkey
  answered hresponse := (hunlooked.repeated h horder hrun hi hkey).response hresponse
  failed hresponse := by
    refine hunlooked.lookupFailed h horder hrun hi hkey ?_
    have hrepeated := hunlooked.repeated h horder hrun hi hkey
    obtain ⟨payload, key, pc⟩ := call
    cases hrepeated with
    | failed => rfl
    | _ => simp [Job.response, createOrderResponse] at hresponse

/-- The request is repeated, and then sent with another amount. -/
def repeating : List Action :=
  [.invoke (.http none (.createOrder (sampleHeaders "key") (.parsed (sampleBody 10)))),
    .invoke (.http none (.createOrder (sampleHeaders "key") (.parsed (sampleBody 20)))),
    .resume 2 (.task (.call (.find .ok))), .resume 1 (.task (.call (.find .ok)))]

theorem repeats_answered_repeating :
    ∃ s t order replay other,
      Run.run (step .reference) init (creating 0 "key" "id" "2024-05-01T10:00:00.000Z") = some s ∧
      Run.run (step .reference) s repeating = some t ∧ s.shared.orders.docs = [order] ∧
      t.activations[1]? = some (.post (.postOrder replay)) ∧
      t.activations[2]? = some (.post (.postOrder other)) ∧
      (Job.post (.postOrder replay)).response = some ⟨200, .order "id" "PENDING_SHIPMENT"⟩ ∧
      (Job.post (.postOrder other)).response
        = some ⟨409, .error "Payload mismatch for provided Idempotency-Key"⟩ ∧
      RepeatAnswered .reference s t 1 order replay ∧
      RepeatAnswered .reference s t 2 order other := by
  refine ⟨_, _, _, _, _, rfl, rfl, rfl, rfl, rfl, rfl, rfl, ?_, ?_⟩
  · exact repeats_answered (S := .reference) (i := 1)
      ⟨creating 0 "key" "id" "2024-05-01T10:00:00.000Z", fun a _ => a.inputs_true, rfl⟩
      List.mem_cons_self ⟨repeating, fun a _ => a.inputs_true, rfl⟩
      (.of_length_le (Nat.le_refl 1)) rfl rfl
  · exact repeats_answered (S := .reference) (i := 2)
      ⟨creating 0 "key" "id" "2024-05-01T10:00:00.000Z", fun a _ => a.inputs_true, rfl⟩
      List.mem_cons_self ⟨repeating, fun a _ => a.inputs_true, rfl⟩
      (.of_length_le (Nat.le_succ 1)) rfl rfl

/-! ### Status requests -/

/-- What the status route answers, given the result of `validateStatusUpdate`. -/
def replyTo : Except ServiceError (OrderRecord × Option StatusEvent) → Reply
  | .ok (_, some _) => .accepted
  | .ok (_, none) => .duplicate
  | .error (.orderNotFound orderId) => .notFound orderId
  | .error (.statusConflict message) => .conflict message
  | .error error => .rethrown error

/-- The route settles with this answer. -/
theorem replyTo_of_settle {P : Platform} {config : AppConfig} {w w' : System.World}
    {call : StatusValidation} {now : String} {task : Task}
    (h : System.act P config w (.postStatus (some call) none) (.settle now) = some (w', task)) :
    ∃ result, call.pc = .returned result ∧
      task = .postStatus (some call) (some (replyTo result)) := by
  simp only [System.act] at h
  split at h
  · next result hpc =>
    refine ⟨result, hpc, ?_⟩
    obtain ⟨-, rfl⟩ := Prod.mk.inj (Option.some.inj h)
    rcases result with error | ⟨order, _ | event⟩
    · cases error <;> rfl
    · rfl
    · rfl
  · simp at h

/-- What the status route answers about an update of an order that was stored like this before the
request has looked. -/
inductive LateReply (order : OrderRecord) (input : StatusUpdateInput) : Reply → Prop
  | failed : LateReply order input (.rethrown .storage)
  | duplicate : LateReply order input .duplicate
  | conflict {message} : order.hasEvent input.eventId = false →
      LateReply order input (.conflict message)
  | accepted : order.hasEvent input.eventId = false → order.status.rank < input.status.rank →
      LateReply order input .accepted

/-- The order is looked up in a later form. -/
theorem lateReply_prepareStatusUpdate {P : Platform} {o : OrderRecord} {input : StatusUpdateInput}
    (orderId : String) (hext : order.Extends o) (hrank : order.status.rank ≤ o.status.rank)
    (htime : (P.toISOString input.atTime).isSome = true) :
    LateReply order input (replyTo (prepareStatusUpdate P orderId (some input) (some o))) := by
  simp only [prepareStatusUpdate]
  split
  · exact .duplicate
  · next hevent =>
    have hnew : order.hasEvent input.eventId = false :=
      Bool.eq_false_iff.mpr fun hrecorded => hevent (hext.hasEvent hrecorded)
    split
    · exact .conflict hnew
    · next htransition =>
      have hnext := canTransition_iff.mp (by simpa using htransition)
      obtain ⟨canonicalTimestamp, hcanonical⟩ := Option.isSome_iff_exists.mp htime
      rw [hcanonical]
      exact .accepted hnew (by omega)

/-- A request that is validated has a time that can be parsed. -/
theorem Reachable.parsed (h : Reachable S s) {call : StatusValidation} {reply : Option Reply}
    (hi : s.activations[i]? = some (.post (.postStatus (some call) reply))) :
    (S.platform.toISOString call.input.atTime).isSome = true := by
  refine Interleave.of_getElem? (q := fun job => ∀ call reply,
    job = .post (.postStatus (some call) reply) →
    (S.platform.toISOString call.input.atTime).isSome = true) h ?_ ?_ ?_ _ hi call reply rfl
  · rintro u request w _ - hstart call reply rfl
    cases starts hstart with
    | updateStatus _ _ _ htask =>
      simp only [System.start] at htask
      split at htask
      · simp at htask
      · next canonicalTimestamp hcanonical =>
        obtain ⟨-, htask⟩ := Prod.mk.inj (Option.some.inj htask)
        obtain rfl := Option.some.inj (Task.postStatus.inj htask).1
        exact Option.isSome_iff_exists.mpr ⟨canonicalTimestamp, hcanonical⟩
  · rintro u job input w _ - - hact hjob call' reply rfl
    cases steps hact with
    | post htask =>
      cases System.steps htask with
      | @validate call _ r hr => cases StatusValidation.steps hr <;> exact hjob call none rfl
      | _ => exact hjob _ _ rfl
  · exact fun job hjob => absurd hjob (by simp [init])

/-- What has become of a request that had not looked when the order was stored like this. -/
structure Late (order : OrderRecord) (call : StatusValidation) (reply : Option Reply) : Prop where
  returned : ∀ {result}, call.pc = .returned result → LateReply order call.input (replyTo result)
  replied : ∀ {answer}, reply = some answer → LateReply order call.input answer

theorem Late.of_lookup {call : StatusValidation} (hpc : call.pc = .lookup) :
    Late order call none where
  returned := fun hreturned => by simp [hpc] at hreturned
  replied := fun hanswer => by simp at hanswer

theorem Late.of_returned {call : StatusValidation}
    {result : Except ServiceError (OrderRecord × Option StatusEvent)}
    (hpc : call.pc = .returned result) (h : LateReply order call.input (replyTo result)) :
    Late order call none where
  returned := fun hreturned => by
    rwa [← StatusValidation.Pc.returned.inj (hpc.symm.trans hreturned)]
  replied := fun hanswer => by simp at hanswer

theorem Late.settle {P : Platform} {config : AppConfig} {w w' : System.World}
    {call call' : StatusValidation} {now : String} {reply : Option Reply}
    (h : Late order call none)
    (hact : System.act P config w (.postStatus (some call) none) (.settle now)
      = some (w', .postStatus (some call') reply)) : Late order call' reply := by
  obtain ⟨result, hpc, htask⟩ := replyTo_of_settle hact
  obtain ⟨hcall, rfl⟩ := Task.postStatus.inj htask
  obtain rfl := Option.some.inj hcall
  refine ⟨h.returned, fun hanswer => ?_⟩
  obtain rfl := Option.some.inj hanswer
  exact h.returned hpc

theorem Unlooked.late (h : Reachable S s) (horder : order ∈ s.shared.orders.docs)
    (hrun : Leads S s t) (hunlooked : Unlooked s i) {call : StatusValidation} {reply : Option Reply}
    (hi : t.activations[i]? = some (.post (.postStatus (some call) reply)))
    (hid : call.orderId = order.id) : Late order call reply := by
  refine Interleave.of_getElem? (q := fun job => ∀ call reply,
    job = .post (.postStatus (some call) reply) → call.orderId = order.id →
    Late order call reply) hrun ?_ ?_ ?_ _ hi call reply rfl hid
  · rintro u request w _ - hstart call reply rfl -
    cases starts hstart with
    | updateStatus _ _ _ htask =>
      cases System.starts htask
      exact .of_lookup rfl
  · rintro u job input w _ hu hj hact hjob call' reply' rfl hid
    cases steps hact with
    | post htask =>
      cases System.steps htask with
      | @validate call _ r hr =>
        cases StatusValidation.steps hr with
        | lookedUp hpc =>
          obtain ⟨o, ho, hext, hrank⟩ := exists_later_mem h hu horder
          have hfound : findById u.shared.orders call.orderId = some o :=
            findById_eq_some_iff.mpr ⟨ho, hext.id_eq.trans hid.symm⟩
          have htime := Reachable.parsed (Run.Reachable.trans h hu) hj
          refine .of_returned rfl ?_
          rw [hfound]
          exact lateReply_prepareStatusUpdate call.orderId hext hrank htime
        | failed => exact .of_returned rfl .failed
      | accept => exact (hjob _ none rfl hid).settle htask
      | reply => exact (hjob _ none rfl hid).settle htask
  · rintro job hjob call reply rfl -
    have hlookup := hunlooked _ hjob
    cases reply with
    | none => exact .of_lookup hlookup
    | some answer => exact hlookup.elim

/-- **An update that comes late is not accepted.** -/
theorem updates_answered (h : Reachable S s) (horder : order ∈ s.shared.orders.docs)
    (hrun : Leads S s t) (hunlooked : Unlooked s i) {call : StatusValidation} {reply : Reply}
    (hi : t.activations[i]? = some (.post (.postStatus (some call) (some reply))))
    (hid : call.orderId = order.id) : LateReply order call.input reply :=
  (hunlooked.late h horder hrun hi hid).replied rfl

/-- An update is applied. -/
def updatedOnce : List Action :=
  creating 0 "key" "id" "2024-05-01T10:00:00.000Z" ++
    updating 1 "id" "e1" "SHIPPED" "2024-05-02T10:00:00.000Z" "2024-05-02T10:00:01.000Z" ++
    [.invoke (.tick .orderStatus), .resume 2 (.task (.call (.find .ok))),
      .resume 2 (.task (.call (.findOneAndUpdate "2024-05-02T10:00:03.000Z" .ok))),
      .resume 2 (.task (.settle "2024-05-02T10:00:04.000Z"))]

/-- It is sent again, it is sent as another event, and the next one is sent. -/
def updatedAgain : List Action :=
  updating 3 "id" "e1" "SHIPPED" "2024-05-02T10:00:00.000Z" "2024-05-03T10:00:01.000Z" ++
    updating 4 "id" "e2" "SHIPPED" "2024-05-02T10:00:00.000Z" "2024-05-03T10:00:02.000Z" ++
    updating 5 "id" "e3" "DELIVERED" "2024-05-03T10:00:00.000Z" "2024-05-03T10:00:03.000Z"

theorem updates_answered_updatedAgain :
    ∃ s t order first second third, Run.run (step .reference) init updatedOnce = some s ∧
      Run.run (step .reference) s updatedAgain = some t ∧ s.shared.orders.docs = [order] ∧
      t.activations[3]? = some (.post (.postStatus (some first) (some .duplicate))) ∧
      t.activations[4]? = some (.post (.postStatus (some second)
        (some (.conflict "Invalid status transition from SHIPPED to SHIPPED")))) ∧
      t.activations[5]? = some (.post (.postStatus (some third) (some .accepted))) ∧
      LateReply order first.input .duplicate ∧
      LateReply order second.input
        (.conflict "Invalid status transition from SHIPPED to SHIPPED") ∧
      LateReply order third.input .accepted := by
  refine ⟨_, _, _, _, _, _, rfl, rfl, rfl, rfl, rfl, rfl, ?_, ?_, ?_⟩
  · exact updates_answered (S := .reference) (i := 3)
      ⟨updatedOnce, fun a _ => a.inputs_true, rfl⟩ List.mem_cons_self
      ⟨updatedAgain, fun a _ => a.inputs_true, rfl⟩ (.of_length_le (Nat.le_refl 3)) rfl rfl
  · exact updates_answered (S := .reference) (i := 4)
      ⟨updatedOnce, fun a _ => a.inputs_true, rfl⟩ List.mem_cons_self
      ⟨updatedAgain, fun a _ => a.inputs_true, rfl⟩ (.of_length_le (Nat.le_succ 3)) rfl rfl
  · exact updates_answered (S := .reference) (i := 5)
      ⟨updatedOnce, fun a _ => a.inputs_true, rfl⟩ List.mem_cons_self
      ⟨updatedAgain, fun a _ => a.inputs_true, rfl⟩ (.of_length_le (Nat.le_add_right 3 2)) rfl rfl

end Server

end OrderProcessing
