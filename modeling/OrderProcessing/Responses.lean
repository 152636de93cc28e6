import OrderProcessing.Reads

/-!
# Requests and their responses

A request that is answered with a client error has changed nothing: none of its steps has touched
the database, the log or the queue. This is what makes it safe to correct such a request and send it
again. It is not true of other failures, where a write may have taken effect although the database
has reported an error.

## Queues that are processed

The debug routes that process a queue are another matter. If Delivery refuses a shipment, they are
answered under the status code of this refusal, which may be that of a client error; by then
Delivery has been asked and the message has been put back at the end of its queue.

## Main definitions

* `Server.Job.isDraining` — the request processes a queue
* `Server.Concerns` — the step starts the request, or is one of its steps
* `Server.Job.Committed` — the job may have changed something

## Main results

* `Server.clientError_changes_nothing`
-/

namespace OrderProcessing

open OrderRepository

namespace System

variable {P : Platform} {config : AppConfig} {w w' : World} {task task' : Task}

/-- A step that writes and sends nothing leaves the world as it is. -/
theorem after_eq_self {κ : Type} {r : Reaction κ} (horders : r.orders = w.orders)
    (heffect : r.effect = none) : w.after config r = w := by
  obtain ⟨⟨orders, effects⟩, queue⟩ := w
  obtain ⟨orders', call, effect⟩ := r
  obtain rfl : orders' = orders := horders
  obtain rfl : effect = none := heffect
  simp [World.after, OrderProcessing.World.after]

end System

namespace Server

variable {S : Setup} {s t u v : State} {w w' : System.World} {job job' : Job}

/-! ### Client errors -/

/-- The call has inserted its order, or the database has failed. -/
def createCommitted (call : CreateOrder) : Bool :=
  match call.pc with
  | .publish _ => true
  | .returned (.ok _) => true
  | .returned (.error error) => error.isRawStorage
  | _ => false

/-- The job may have changed something, and is not going to be answered with a client error. -/
def Job.Committed : Job → Prop
  | .answered response _ => response.statusCode = 200
  | .post (.postOrder call) => createCommitted call = true
  | .post (.postStatus _ reply) => reply = some .accepted
  | .post _ => True
  | .reading _ => False
  | .draining _ => True

theorem Starts.unchanged_or_committed {request : Request} (h : Starts S w request w' job) :
    w' = w ∨ job.Committed := by
  cases h with
  | cleared => exact Or.inr rfl
  | updateStatus _ _ _ htask =>
    left
    cases System.starts htask <;> rfl
  | draining => exact Or.inr trivial
  | _ => exact Or.inl rfl

theorem createOrder_unchanged_or_committed {input : OrderProcessing.Input} {call : CreateOrder}
    {r : Reaction CreateOrder} (h : CreateOrder.Steps S.platform w.orders call input r)
    (haccepted : ∀ sentAt, input ≠ .sendMessage false sentAt) :
    w.after S.app r = w ∨ createCommitted r.call = true := by
  cases h with
  | refused => exact absurd rfl (haccepted _)
  | lookedUp => exact Or.inl (System.after_eq_self rfl rfl)
  | rejected => exact Or.inl (System.after_eq_self rfl rfl)
  | failed => exact Or.inl (System.after_eq_self rfl rfl)
  | _ => exact Or.inr rfl

/-- **A step changes nothing, or its job is committed from then on.** -/
theorem Steps.unchanged_or_committed {input : Input} (h : Steps S w job input w' job') :
    w' = w ∨ job'.Committed := by
  cases h with
  | post htask =>
    cases System.steps htask with
    | createOrder hr haccepted =>
      exact createOrder_unchanged_or_committed (CreateOrder.steps hr) haccepted
    | validate hr =>
      refine Or.inl ?_
      cases StatusValidation.steps hr <;> exact System.after_eq_self rfl rfl
    | reply => exact Or.inl rfl
    | accept => exact Or.inr rfl
    | _ => exact Or.inr trivial
  | read => exact Or.inl rfl
  | _ => exact Or.inr trivial

/-- A committed job remains committed. -/
theorem Steps.committed {input : Input} (h : Steps S w job input w' job') (hjob : job.Committed) :
    job'.Committed := by
  cases h with
  | post htask =>
    cases System.steps htask with
    | @createOrder call input r hr haccepted =>
      have hr' := CreateOrder.steps hr
      have hrunning := hr'.not_completed
      obtain ⟨payload, key, pc⟩ := call
      cases pc with
      | publish order =>
        obtain ⟨accepted, sentAt, rfl, rfl⟩ := hr'.of_publish rfl
        cases accepted with
        | true => exact rfl
        | false => exact absurd rfl (haccepted sentAt)
      | returned => exact Bool.noConfusion hrunning
      | _ => exact Bool.noConfusion hjob
    | validate => exact absurd hjob (by simp [Job.Committed])
    | reply => exact absurd hjob (by simp [Job.Committed])
    | accept => exact rfl
    | _ => trivial
  | read => exact hjob.elim
  | _ => trivial

/-- The job processes a queue. -/
def Job.isDraining : Job → Bool
  | .draining _ => true
  | _ => false

/-- A response that says that the request was at fault. -/
def ClientError (response : Response) : Prop :=
  400 ≤ response.statusCode ∧ response.statusCode < 500

/-- A committed job that processes no queue is not answered with a client error. -/
theorem Job.Committed.not_clientError (hjob : job.Committed) (hdraining : job.isDraining = false)
    {response : Response} (h : job.response = some response) : ¬ ClientError response := by
  cases job with
  | answered response' =>
    obtain rfl := Option.some.inj h
    rw [ClientError, show response'.statusCode = 200 from hjob]
    omega
  | reading => exact hjob.elim
  | draining => exact Bool.noConfusion hdraining
  | post task =>
    rcases task with ⟨payload, key, pc⟩ | ⟨call, reply⟩ | _ | _
    · rcases pc with _ | _ | _ | (error | ⟨order, created⟩)
      · simp [Job.response] at h
      · simp [Job.response] at h
      · simp [Job.response] at h
      · cases error with
        | duplicateKey => rw [← Option.some.inj h]; exact fun herror => absurd herror.2 (by decide)
        | storage => rw [← Option.some.inj h]; exact fun herror => absurd herror.2 (by decide)
        | _ => exact Bool.noConfusion hjob
      · rw [← Option.some.inj h]
        cases created <;> simp [ClientError, createOrderResponse]
    · obtain rfl : reply = some .accepted := hjob
      rw [← Option.some.inj h]
      simp [ClientError, Reply.response]
    · simp [Job.response] at h
    · simp [Job.response] at h

/-- The action starts request `i`, or is one of its steps. -/
def Concerns (s : State) (i : ℕ) : Action → Prop
  | .invoke _ => i = s.activations.length
  | .resume j _ => i = j

/-- **A request that is answered with a client error has changed nothing**, in any of its steps, if
it does not process a queue. -/
theorem clientError_changes_nothing {a : Action} {i : ℕ} (hconcerns : Concerns u i a)
    (hstep : step S u a = some v) (hrun : Leads S v t) (hi : t.activations[i]? = some job)
    (hdraining : job.isDraining = false) {response : Response}
    (hresponse : job.response = some response) (herror : ClientError response) :
    v.shared = u.shared := by
  have hend : ∀ {k}, v.activations[i]? = some k → ¬ k.Committed := by
    intro k hk hcommitted
    obtain ⟨k', hk', hcommitted'⟩ :=
      Interleave.exists_getElem? (fun hact hq => (steps hact).committed hq) hrun hk hcommitted
    obtain rfl : k' = job := Option.some.inj (hk'.symm.trans hi)
    exact hcommitted'.not_clientError hdraining hresponse herror
  cases a with
  | invoke request =>
    obtain ⟨w, k, hstart, rfl⟩ := Interleave.step_invoke_eq_some.mp hstep
    obtain rfl : i = u.activations.length := hconcerns
    refine (starts hstart).unchanged_or_committed.resolve_right (hend ?_)
    exact List.getElem?_concat_length
  | resume j input =>
    obtain ⟨k, w, k', hj, hact, rfl⟩ := Interleave.step_resume_eq_some.mp hstep
    obtain rfl : i = j := hconcerns
    exact (steps hact).unchanged_or_committed.resolve_right
      (hend (Interleave.getElem?_set_of_some hj k'))

/-- A create request, and another one that has its key and asks for something else. -/
def conflicting : List Action :=
  creating 0 "key" "id" "2024-05-01T10:00:00.000Z" ++
    [.invoke (.http none (.createOrder (sampleHeaders "key") (.parsed (sampleBody 20))))]

theorem clientError_changes_nothing_conflicting :
    ∃ u v, Run.run (step .reference) init conflicting = some u ∧
      step .reference u (.resume 1 (.task (.call (.find .ok)))) = some v ∧
      ((v.activations[1]?).bind Job.response).map Response.statusCode = some 409 ∧
      v.shared = u.shared := by
  have hrun : ((Run.run (step .reference) init
      (conflicting ++ [.resume 1 (.task (.call (.find .ok)))])).bind fun v =>
        (v.activations[1]?).map fun job => (job.isDraining, job.response.map Response.statusCode))
      = some (false, some 409) := by decide +kernel
  obtain ⟨v, hv, hobs⟩ := Option.bind_eq_some_iff.mp hrun
  obtain ⟨u, hu, hlast⟩ := Run.run_append_eq_some.mp hv
  obtain ⟨v', hstep, hend⟩ := Run.run_cons_eq_some.mp hlast
  obtain rfl : v' = v := Option.some.inj hend
  obtain ⟨job, hi, hjob⟩ := Option.map_eq_some_iff.mp hobs
  obtain ⟨hdraining, hcode⟩ := Prod.mk.inj hjob
  obtain ⟨response, hresponse, herror⟩ := Option.map_eq_some_iff.mp hcode
  refine ⟨u, v', hu, hstep, by rw [hi, Option.bind_some, hcode], ?_⟩
  have hconcerns : Concerns u 1 (.resume 1 (.task (.call (.find .ok)))) := rfl
  exact clientError_changes_nothing hconcerns hstep (.refl v') hi hdraining hresponse
    ⟨by omega, by omega⟩

end Server

end OrderProcessing
