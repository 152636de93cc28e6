import OrderProcessing.Server

/-!
# Reads never go back

Every order that a client is shown, by `POST /orders` or by `GET /orders/:orderId`, is a document as
it was stored at some moment of the run, and no later than the moment of the answer. A read that has
not yet looked its order up when a client is answered looks at the same moment or a later one. So it
shows that order again, with at least the version, the status and the history that were shown
before, and with the shipment if there was one; or the database fails. It never says that the order
is not found.

## What is deliberately absent

The response schema. What is said here is said of documents; a document is shown as
`OrderRecord.view` of it, and a created order by its id and status alone.

## Main definitions

* `Server.Job.snapshot` — the document that a job shows or is about to show
* `Server.Unread` — a read that has not yet looked
* `Server.ShowsAtLeast` — what a later read answers

## Main results

* `Server.Reachable.exists_snapshot` — what is shown was stored
* `Server.reads_see_answers`
-/

namespace OrderProcessing

open OrderRepository

namespace Server

variable {S : Setup} {s t u : State}

/-- Runs of the server, whatever the environment does. -/
abbrev Leads (S : Setup) (s t : State) : Prop :=
  Run.Reachable (step S) (Interleave.Action.Inputs fun _ => True) s t

theorem Leads.of_step {a : Action} (h : step S s a = some t) : Leads S s t :=
  .single a.inputs_true h

/-! ### What is shown was stored -/

/-- The document that a job shows, or that a create request is about to publish and then to show. -/
def Job.snapshot : Job → Option OrderRecord
  | .post (.postOrder ⟨_, _, .publish order⟩) => some order.stored
  | .post (.postOrder ⟨_, _, .returned (.ok result)⟩) => some result.document
  | .reading ⟨_, .returned (.ok order)⟩ => some order
  | _ => none

theorem snapshot_reading {orderId : String} {result : Except ServiceError OrderRecord}
    {order : OrderRecord} (h : (Job.reading ⟨orderId, .returned result⟩).snapshot = some order) :
    result = .ok order := by
  cases result with
  | error error => simp [Job.snapshot] at h
  | ok order' => exact congrArg Except.ok (Option.some.inj h)

/-- The document was stored like this, at some moment of the run. -/
def WasStored (S : Setup) (s : State) (order : OrderRecord) : Prop :=
  ∃ u, Reachable S u ∧ Leads S u s ∧ findById u.shared.orders order.id = some order

theorem WasStored.of_leads {order : OrderRecord} (h : WasStored S s order) (hrun : Leads S s t) :
    WasStored S t order := by
  obtain ⟨u, hu, hus, horder⟩ := h
  exact ⟨u, hu, hus.trans hrun, horder⟩

/-- A step of a create request shows what it has shown, what is stored, or what it has inserted. -/
theorem snapshot_of_createOrder {P : Platform} {c : Collection} {input : OrderProcessing.Input}
    {call : CreateOrder} {r : Reaction CreateOrder} (h : CreateOrder.Steps P c call input r)
    {order : OrderRecord} (horder : (Job.post (.postOrder r.call)).snapshot = some order) :
    (Job.post (.postOrder call)).snapshot = some order ∨ findById c order.id = some order ∨
      findById r.orders order.id = some order := by
  cases h with
  | lookedUp =>
    refine Or.inr (Or.inl ?_)
    rcases call.afterLookup_cases P (findByRequestId c call.idempotencyKey) with
      ⟨_, _, _, heq⟩ | ⟨found, hfound, -, heq⟩ | ⟨_, _, _, _, heq⟩ | ⟨_, _, heq⟩
    · simp [heq, Job.snapshot, CreateOrder.finish] at horder
    · obtain rfl : found = order := by
        simpa [heq, Job.snapshot, CreateOrderResult.document, CreateOrder.finish] using horder
      exact findById_of_mem (findByRequestId_eq_some_iff.mp hfound).1
    · simp [heq, Job.snapshot, CreateOrder.finish] at horder
    · simp [heq, Job.snapshot] at horder
  | inserted hpc hcreate =>
    refine Or.inr (Or.inr ?_)
    rw [← Option.some.inj horder]
    exact (findById_create hcreate _).trans (if_pos rfl)
  | @published published sentAt hpc =>
    refine Or.inl ?_
    rw [← Option.some.inj horder]
    obtain ⟨payload, key, pc⟩ := call
    obtain rfl : pc = .publish published := hpc
    rfl
  | _ => simp [Job.snapshot, CreateOrder.finish] at horder

/-- Taking up a request shows nothing. -/
theorem Starts.snapshot {w w' : System.World} {request : Request} {job : Job}
    (h : Starts S w request w' job) : job.snapshot = none := by
  cases h with
  | updateStatus _ _ _ htask => cases System.starts htask <;> rfl
  | _ => rfl

/-- **What is shown was stored.** -/
theorem Reachable.exists_snapshot (h : Reachable S s) {job : Job} (hjob : job ∈ s.activations)
    {order : OrderRecord} (horder : job.snapshot = some order) : WasStored S s order := by
  have hall : Reachable S s ∧ ∀ job ∈ s.activations, ∀ order, job.snapshot = some order →
      WasStored S s order := by
    refine Run.Reachable.invariant (I := fun u => Reachable S u ∧ ∀ job ∈ u.activations,
      ∀ order, job.snapshot = some order → WasStored S u order) h
      ⟨.refl init, fun _ hjob => absurd hjob List.not_mem_nil⟩ ?_
    rintro u a v ⟨hu, hshown⟩ ha hstep
    have hv : Reachable S v := hu.tail ha hstep
    have hleads := Leads.of_step hstep
    refine ⟨hv, fun job hjob order horder => ?_⟩
    have hbefore : ∀ {job}, job ∈ u.activations → job.snapshot = some order → WasStored S v order :=
      fun hjob horder => (hshown _ hjob order horder).of_leads hleads
    cases a with
    | invoke request =>
      obtain ⟨w, new, hnew, rfl⟩ := Interleave.step_invoke_eq_some.mp hstep
      rcases List.mem_append.mp hjob with hjob | hjob
      · exact hbefore hjob horder
      · rw [List.mem_singleton.mp hjob, (starts hnew).snapshot] at horder
        exact absurd horder (by simp)
    | resume i input =>
      obtain ⟨old, w, new, hi, hact, rfl⟩ := Interleave.step_resume_eq_some.mp hstep
      have hold := List.mem_of_getElem? hi
      rcases List.mem_or_eq_of_mem_set hjob with hjob | rfl
      · exact hbefore hjob horder
      · cases steps hact with
        | post htask =>
          cases System.steps htask with
          | createOrder hr _ =>
            rcases snapshot_of_createOrder (CreateOrder.steps hr) horder with
              hsame | hfound | hfound
            · exact hbefore hold hsame
            · exact ⟨u, hu, hleads, hfound⟩
            · exact ⟨_, hv, .refl _, hfound⟩
          | _ => simp [Job.snapshot] at horder
        | read hcall =>
          obtain ⟨-, rfl | rfl⟩ := GetOrder.of_step hcall
          · exact absurd (snapshot_reading horder) (by simp)
          · have hfound := GetOrder.result_eq_ok_iff.mp (snapshot_reading horder)
            exact ⟨u, hu, hleads, by rw [id_eq_of_findById hfound, hfound]⟩
        | _ => simp [Job.snapshot] at horder
  exact hall.2 job hjob order horder

/-! ### Later reads -/

/-- The document is still there, and nothing that it has shown is gone. -/
structure Continues (order order' : OrderRecord) : Prop where
  extends_order : order.Extends order'
  version_le : order.version ≤ order'.version
  rank_le : order.status.rank ≤ order'.status.rank
  shipment_eq : order.hasShipment = true → order'.shipment = order.shipment

theorem Reachable.wellFormed (h : Reachable S s) : s.shared.orders.WellFormed := by
  obtain ⟨s', hs', hembedded⟩ := h.system
  have hshared : s'.shared = s.shared := hembedded.shared
  rw [← hshared]
  exact hs'.prepared.1

/-- Along a run of the server every stored document stays, with at least its version and status. -/
theorem exists_later (h : Reachable S s) (hrun : Leads S s t) {orderId : String}
    {order : OrderRecord} (horder : findById s.shared.orders orderId = some order) :
    ∃ order', findById t.shared.orders orderId = some order' ∧ order.Extends order' ∧
      order.version ≤ order'.version ∧ order.status.rank ≤ order'.status.rank := by
  obtain ⟨order', horder', hext⟩ := extends_of_run h hrun orderId order horder
  have ht : Reachable S t := Run.Reachable.trans h hrun
  have hwf := h.wellFormed.of_findById horder
  have hwf' := ht.wellFormed.of_findById horder'
  exact ⟨order', horder', hext, hext.version_le hwf hwf', hext.rank_le hwf hwf'⟩

/-- Along a run of the server every stored document continues. -/
theorem continues_of_leads (hqueues : S.app.orderCreatedQueue ≠ S.app.orderStatusQueue)
    (h : Reachable S s) (hrun : Leads S s t) {orderId : String} {order : OrderRecord}
    (horder : findById s.shared.orders orderId = some order) :
    ∃ order', findById t.shared.orders orderId = some order' ∧ Continues order order' := by
  obtain ⟨order', horder', hext, hversion, hrank⟩ := exists_later h hrun horder
  refine ⟨order', horder', hext, hversion, hrank, fun hship => ?_⟩
  obtain ⟨s', hs', hembedded⟩ := h.system
  obtain ⟨t', ht', hembedded'⟩ := exists_system_run_of_run hembedded hrun
  have hshared : s'.shared = s.shared := hembedded.shared
  have hshared' : t'.shared = t.shared := hembedded'.shared
  rw [← hshared] at horder
  rw [← hshared'] at horder'
  obtain ⟨order'', horder'', hsame⟩ :=
    System.keepsShipments hqueues hs' ht' orderId order horder hship
  rw [Option.some.inj (horder'.symm.trans horder'')]
  exact hsame

/-- If there is already a request with this number, it is a read that has not yet looked. -/
def Unread (s : State) (i : ℕ) : Prop :=
  ∀ job, s.activations[i]? = some job → ∃ orderId, job = .reading ⟨orderId, .lookup⟩

/-- What a read has found, or that the database has failed. -/
def LookedAt (S : Setup) (s t : State) (orderId : String)
    (result : Except ServiceError OrderRecord) : Prop :=
  result = .error .storage ∨
    ∃ u, Leads S s u ∧ Leads S u t ∧ result = GetOrder.result u.shared.orders orderId

/-- A read that has not yet looked looks later. -/
theorem Unread.lookedAt {i : ℕ} (h : Unread s i) (hrun : Leads S s t) {orderId : String}
    {result : Except ServiceError OrderRecord}
    (hi : t.activations[i]? = some (.reading ⟨orderId, .returned result⟩)) :
    LookedAt S s t orderId result := by
  have hall : Leads S s t ∧ ∀ orderId result,
      t.activations[i]? = some (.reading ⟨orderId, .returned result⟩) →
      LookedAt S s t orderId result := by
    refine Run.Reachable.invariant (I := fun v => Leads S s v ∧ ∀ orderId result,
      v.activations[i]? = some (.reading ⟨orderId, .returned result⟩) →
      LookedAt S s v orderId result) hrun ⟨.refl s, fun orderId result hi => ?_⟩ ?_
    · obtain ⟨_, heq⟩ := h _ hi
      exact absurd heq (by simp)
    · rintro u a v ⟨hu, hlooked⟩ ha hstep
      refine ⟨hu.tail ha hstep, fun orderId result hi => ?_⟩
      have hbefore : u.activations[i]? = some (.reading ⟨orderId, .returned result⟩) →
          LookedAt S s v orderId result := by
        intro hi
        refine (hlooked orderId result hi).imp_right ?_
        rintro ⟨u', hu', hu'u, hresult⟩
        exact ⟨u', hu', hu'u.tail ha hstep, hresult⟩
      cases a with
      | invoke request =>
        obtain ⟨w, job, hstart, rfl⟩ := Interleave.step_invoke_eq_some.mp hstep
        rcases Interleave.getElem?_append_cases hi with hi | ⟨-, rfl⟩
        · exact hbefore hi
        · cases starts hstart
      | resume j input =>
        obtain ⟨job, w, job', hj, hact, rfl⟩ := Interleave.step_resume_eq_some.mp hstep
        rcases Interleave.getElem?_set_cases hi with ⟨-, rfl⟩ | ⟨-, hi⟩
        · cases steps hact with
          | read hcall =>
            obtain ⟨-, hreturned⟩ := GetOrder.of_step hcall
            simp only [GetOrder.mk.injEq, GetOrder.Pc.returned.injEq] at hreturned
            rcases hreturned with ⟨-, rfl⟩ | ⟨rfl, rfl⟩
            · exact Or.inl rfl
            · exact Or.inr ⟨u, hu, Leads.of_step hstep, rfl⟩
        · exact hbefore hi
  exact hall.2 orderId result hi

/-- What a read answers after the order was shown. -/
inductive ShowsAtLeast (order : OrderRecord) : Except ServiceError OrderRecord → Prop
  | failed : ShowsAtLeast order (.error .storage)
  | shown {order'} : Continues order order' → ShowsAtLeast order (.ok order')

/-- **Reads never go back.** Once a client has been shown an order, every read of it that looks from
then on shows it again, as far as it was, or the database fails. -/
theorem reads_see_answers (hqueues : S.app.orderCreatedQueue ≠ S.app.orderStatusQueue)
    (h : Reachable S s) {job : Job} (hjob : job ∈ s.activations) {order : OrderRecord}
    (horder : job.snapshot = some order) (hrun : Leads S s t) {i : ℕ} (hunread : Unread s i)
    {result : Except ServiceError OrderRecord}
    (hi : t.activations[i]? = some (.reading ⟨order.id, .returned result⟩)) :
    ShowsAtLeast order result := by
  obtain ⟨u, hu, hus, hstored⟩ := h.exists_snapshot hjob horder
  rcases hunread.lookedAt hrun hi with rfl | ⟨v, hsv, -, rfl⟩
  · exact .failed
  · obtain ⟨order', horder', hcontinues⟩ :=
      continues_of_leads hqueues hu (hus.trans hsv) hstored
    rw [GetOrder.result_eq_ok_iff.mpr horder']
    exact .shown hcontinues

/-- An order is created, read, shipped and updated, and read again. -/
def readTwice : List Action :=
  creating 0 "key" "id" "2024-05-01T10:00:00.000Z" ++
    [.invoke (.http none (.getOrder "id")), .resume 1 (.find .ok),
      .invoke (.http none (.getOrder "id")), .invoke (.http none (.processQueue .orderCreated))]

/-- The rest of the run: the second read is the last to look. -/
def readTwiceRest : List Action :=
  shipping 3 "2024-05-02T10:00:02.000Z" ++ [.resume 2 (.find .ok)]

theorem reads_see_answers_readTwice :
    ∃ s t order order', Run.run (step .reference) init readTwice = some s ∧
      Run.run (step .reference) s readTwiceRest = some t ∧
      s.activations[1]? = some (.reading ⟨"id", .returned (.ok order)⟩) ∧
      t.activations[2]? = some (.reading ⟨"id", .returned (.ok order')⟩) ∧
      order.hasShipment = false ∧ order'.hasShipment = true ∧
      ShowsAtLeast order (.ok order') := by
  refine ⟨_, _, _, _, rfl, rfl, rfl, rfl, rfl, rfl, ?_⟩
  refine reads_see_answers (S := .reference) (i := 2) Setup.reference_queues
    ⟨readTwice, fun a _ => a.inputs_true, rfl⟩ (List.mem_of_getElem? (i := 1) rfl) rfl
    ⟨readTwiceRest, fun a _ => a.inputs_true, rfl⟩ ?_ rfl
  rintro job hjob
  exact ⟨"id", (Option.some.inj hjob).symm⟩

end Server

end OrderProcessing
