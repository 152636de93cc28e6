import OrderProcessing.StatusMessages

/-!
# The order of processing does not matter for the lifecycle

Take the messages that wait in the status queue and handle each of them once, one after another, in
any order. A message that is one step ahead of its order advances it; all further messages for the
order are then duplicates or overtaken, so no order advances twice. Which of several event ids is
recorded depends on the order of processing; the statuses and the versions do not.

## Main definitions

* `handleAll` — the handler, run to its end on one message after another
* `Advances` — one of the messages is one step ahead of the order

## Main results

* `handleAll_processed` — every order advances by one step or not at all
* `System.handleAll_confluent`
-/

namespace OrderProcessing

open OrderRepository

variable {P : Platform}

/-- Handle messages one after another, each at its own time. A message whose handler throws goes
back into the queue and is not handled again, so the collection is all that is passed on. -/
def handleAll (P : Platform) : Collection → List (Payload × String) → Collection × List StatusUpdate
  | c, [] => (c, [])
  | c, (payload, now) :: rest =>
    let (c', call) := handleStatus P c payload now
    let (c'', calls) := handleAll P c' rest
    (c'', call :: calls)

/-- One of the messages asks for the direct successor of the order's status. -/
def Advances (payloads : List Payload) (o : OrderRecord) : Prop :=
  ∃ payload ∈ payloads, payload.orderId = o.id ∧
    ∃ update, payload.event = some update ∧ update.status.rank = o.status.rank + 1

/-! ### One message -/

section Handled

variable {c c' : Collection} {payload : Payload} {o : OrderRecord}
  {result : Except ServiceError OrderRecord}

/-- Handling a message keeps the documents well formed and only extends them. -/
theorem Handled.extends (hc : c.WellFormed) (ho : findById c payload.orderId = some o)
    (h : Handled c payload o c' result) : c'.WellFormed ∧ c.Extends c' := by
  cases h with
  | noEvent => exact ⟨hc, .refl c⟩
  | duplicate => exact ⟨hc, .refl c⟩
  | appended _ hnew hahead hid hstatus hwrite =>
    refine ⟨hc.append (hc.of_findById ho) ?_ hwrite, Collection.extends_append hwrite⟩
    rw [hstatus, hahead]
  | overtaken => exact ⟨hc, .refl c⟩

/-- A status update advances its order by one step or leaves it as it is, and touches no other. -/
theorem Handled.advances (hadmissible : payload.Admissible P c)
    (ho : findById c payload.orderId = some o) (h : Handled c payload o c' result) {i : String}
    {order : OrderRecord} (horder : findById c i = some order) :
    (Advances [payload] order ∧ ∃ order', findById c' i = some order' ∧
        order'.status.rank = order.status.rank + 1 ∧ order'.version = order.version + 1) ∨
      (¬ Advances [payload] order ∧ findById c' i = some order) := by
  obtain ⟨o₀, ho₀, hupdate⟩ := hadmissible
  obtain rfl : o = o₀ := Option.some.inj (ho.symm.trans ho₀)
  have hid : order.id = i := id_eq_of_findById horder
  -- the order that the message is about, if the message is one step ahead of it
  have hahead : Advances [payload] order → order = o ∧ ∃ update, payload.event = some update ∧
      update.status.rank = o.status.rank + 1 := by
    rintro ⟨payload', hmem, horderId, update, hevent, hrank⟩
    obtain rfl := List.mem_singleton.mp hmem
    have heq : order = o := by
      rw [← hid, ← horderId, ho] at horder
      exact (Option.some.inj horder).symm
    exact ⟨heq, update, hevent, heq ▸ hrank⟩
  have hsame : c' = c → (∀ update, payload.event = some update →
      update.status.rank ≠ o.status.rank + 1) →
      ¬ Advances [payload] order ∧ findById c' i = some order := by
    rintro rfl hnot
    refine ⟨fun hadv => ?_, horder⟩
    obtain ⟨-, update, hevent, hrank⟩ := hahead hadv
    exact hnot update hevent hrank
  cases h with
  | noEvent hnone =>
    exact Or.inr (hsame rfl fun update hevent => absurd (hnone.symm.trans hevent) (by simp))
  | @duplicate update hu hev =>
    refine Or.inr (hsame rfl fun update' hevent hrank => ?_)
    obtain rfl := Option.some.inj (hu.symm.trans hevent)
    rw [(hupdate update hu).2.1 hrank] at hev
    exact Bool.noConfusion hev
  | @appended update c' event now hu hnew hrank hevent hstatus hwrite =>
    rw [findById_appendStatusEvent hwrite]
    by_cases hi : i = payload.orderId
    · obtain rfl : o = order := by
        rw [hi, ho] at horder
        exact Option.some.inj horder
      refine Or.inl ⟨⟨payload, List.mem_singleton_self payload, ?_, update, hu, hrank⟩, _,
        if_pos hi, ?_, rfl⟩
      · rw [hid, hi]
      · show event.status.rank = o.status.rank + 1
        rw [hstatus, hrank]
    · refine Or.inr ⟨fun hadv => ?_, by rw [if_neg hi, horder]⟩
      obtain ⟨rfl, -⟩ := hahead hadv
      exact hi (hid.symm.trans (id_eq_of_findById ho))
  | @overtaken update hu hnew hbehind =>
    refine Or.inr (hsame rfl fun update' hevent hrank => ?_)
    obtain rfl := Option.some.inj (hu.symm.trans hevent)
    omega

/-- No order appears. -/
theorem Handled.findById_none (ho : findById c payload.orderId = some o)
    (h : Handled c payload o c' result) {i : String} (hi : findById c i = none) :
    findById c' i = none := by
  cases h with
  | appended _ _ _ _ _ hwrite =>
    rw [findById_appendStatusEvent hwrite, if_neg, hi]
    rintro rfl
    rw [ho] at hi
    exact absurd hi (by simp)
  | _ => exact hi

theorem Handled.ne_orderNotFound (h : Handled c payload o c' result) (orderId : String) :
    result ≠ .error (.orderNotFound orderId) := by
  cases h <;> simp

end Handled

/-! ### All messages -/

theorem advances_cons {payload : Payload} {payloads : List Payload} {o : OrderRecord} :
    Advances (payload :: payloads) o ↔ Advances [payload] o ∨ Advances payloads o := by
  simp [Advances]

theorem Advances.perm {payloads payloads' : List Payload} {o : OrderRecord}
    (hperm : payloads.Perm payloads') (h : Advances payloads o) : Advances payloads' o := by
  obtain ⟨payload, hmem, h⟩ := h
  exact ⟨payload, hperm.mem_iff.mp hmem, h⟩

/-- What comes of a collection when messages are handled. -/
structure Processed (c : Collection) (payloads : List Payload) (c' : Collection)
    (calls : List StatusUpdate) : Prop where
  /-- Every handler settles, and none throws an `OrderNotFoundError`. -/
  settled : ∀ call ∈ calls, ∃ result, call.pc = .returned result ∧
    ∀ orderId, result ≠ .error (.orderNotFound orderId)
  advanced : ∀ i o, findById c i = some o → Advances payloads o → ∃ o', findById c' i = some o' ∧
    o'.status.rank = o.status.rank + 1 ∧ o'.version = o.version + 1
  unchanged : ∀ i o, findById c i = some o → ¬ Advances payloads o → findById c' i = some o
  absent : ∀ i, findById c i = none → findById c' i = none

/-- **Every order advances by one step or not at all**, whatever the order of the messages. -/
theorem handleAll_processed {c : Collection} {l : List (Payload × String)} (hc : c.WellFormed)
    (hl : ∀ payload ∈ l.map Prod.fst, payload.Admissible P c) :
    Processed c (l.map Prod.fst) (handleAll P c l).1 (handleAll P c l).2 := by
  induction l generalizing c with
  | nil =>
    refine ⟨fun _ hmem => absurd hmem (List.not_mem_nil), ?_, fun _ _ ho _ => ho, fun _ hi => hi⟩
    rintro _ _ _ ⟨payload, hmem, -⟩
    exact absurd hmem (List.not_mem_nil)
  | cons message l ih =>
    obtain ⟨payload, now⟩ := message
    have hpayload : payload.Admissible P c := hl payload (List.mem_cons_self ..)
    have hrest : ∀ payload ∈ l.map Prod.fst, payload.Admissible P c :=
      fun payload hmem => hl payload (List.mem_cons_of_mem _ hmem)
    obtain ⟨o, c', result, ho, hhandle, hhandled⟩ := handleStatus_cases now hpayload
    obtain ⟨hc', hext⟩ := hhandled.extends hc ho
    have hih := ih hc' fun payload hmem => (hrest payload hmem).stable hc hc' hext
    have hall : handleAll P c ((payload, now) :: l) = ((handleAll P c' l).1,
        ⟨payload.orderId, payload.event, .returned result⟩ :: (handleAll P c' l).2) := by
      rw [handleAll, hhandle]
    rw [hall, List.map_cons]
    refine ⟨?_, ?_, ?_, fun i hi => hih.absent i (hhandled.findById_none ho hi)⟩
    · intro call hmem
      rcases List.mem_cons.mp hmem with rfl | hmem
      · exact ⟨result, rfl, hhandled.ne_orderNotFound⟩
      · exact hih.settled call hmem
    · intro i order horder hadv
      rcases hhandled.advances hpayload ho horder with
        ⟨hone, order', horder', hrank, hversion⟩ | ⟨hnone, hsame⟩
      · -- the rest is at most one step ahead of the order as it was, so not ahead of it any more
        have hstop : ¬ Advances (l.map Prod.fst) order' := by
          rintro ⟨q, hmem, hid, update, hevent, hahead⟩
          obtain ⟨o₁, ho₁, hupdate⟩ := hrest q hmem
          obtain rfl : order = o₁ := by
            rw [hid, id_eq_of_findById horder', horder] at ho₁
            exact Option.some.inj ho₁
          have hle := (hupdate update hevent).1
          omega
        exact ⟨order', hih.unchanged i order' horder' hstop, hrank, hversion⟩
      · exact hih.advanced i order hsame ((advances_cons.mp hadv).resolve_left hnone)
    · intro i order horder hnot
      obtain ⟨hnone, hstop⟩ := not_or.mp (mt advances_cons.mpr hnot)
      rcases hhandled.advances hpayload ho horder with ⟨hone, -⟩ | ⟨-, hsame⟩
      · exact absurd hone hnone
      · exact hih.unchanged i order hsame hstop

/-- What the order of processing must not change. -/
def lifecycle (o : OrderRecord) : OrderStatus × ℕ := (o.status, o.version)

/-- Two ways of processing the same messages leave every order at the same status and version. -/
theorem Processed.lifecycle_eq {c c₁ c₂ : Collection} {payloads : List Payload}
    {calls₁ calls₂ : List StatusUpdate} (h₁ : Processed c payloads c₁ calls₁)
    (h₂ : Processed c payloads c₂ calls₂) (i : String) :
    (findById c₁ i).map lifecycle = (findById c₂ i).map lifecycle := by
  cases hi : findById c i with
  | none => rw [h₁.absent i hi, h₂.absent i hi]
  | some o =>
    by_cases hadv : Advances payloads o
    · obtain ⟨o₁, ho₁, hrank₁, hversion₁⟩ := h₁.advanced i o hi hadv
      obtain ⟨o₂, ho₂, hrank₂, hversion₂⟩ := h₂.advanced i o hi hadv
      have hstatus : o₁.status = o₂.status :=
        OrderStatus.rank_injective (hrank₁.trans hrank₂.symm)
      rw [ho₁, ho₂, Option.map_some, Option.map_some, lifecycle, lifecycle, hstatus, hversion₁,
        hversion₂]
    · rw [h₁.unchanged i o hi hadv, h₂.unchanged i o hi hadv]

theorem Processed.perm {c c' : Collection} {payloads payloads' : List Payload}
    {calls : List StatusUpdate} (hperm : payloads.Perm payloads')
    (h : Processed c payloads c' calls) : Processed c payloads' c' calls where
  settled := h.settled
  advanced := fun i o ho hadv => h.advanced i o ho (hadv.perm hperm.symm)
  unchanged := fun i o ho hnot => h.unchanged i o ho fun hadv => hnot (hadv.perm hperm)
  absent := h.absent

namespace System

variable {config : AppConfig} {s : State}

/-- The payloads of the messages that wait in the status queue. -/
def waiting (config : AppConfig) (w : World) : List Payload :=
  (statusQueue config w).map (·.payload)

/-- **The order of processing does not matter for the lifecycle.** Handling every waiting message
once advances exactly the orders that one of the messages is one step ahead of. -/
theorem handleAll_confluent (h : Reachable P config s) :
    (∀ l : List (Payload × String), (l.map Prod.fst).Perm (waiting config s.shared) →
      Processed s.shared.orders (waiting config s.shared) (handleAll P s.shared.orders l).1
        (handleAll P s.shared.orders l).2) ∧
    (∀ l l' : List (Payload × String), (l.map Prod.fst).Perm (waiting config s.shared) →
      (l'.map Prod.fst).Perm (waiting config s.shared) → ∀ i,
      (findById (handleAll P s.shared.orders l).1 i).map lifecycle
        = (findById (handleAll P s.shared.orders l').1 i).map lifecycle) := by
  have hprocessed : ∀ l : List (Payload × String), (l.map Prod.fst).Perm (waiting config s.shared) →
      Processed s.shared.orders (waiting config s.shared) (handleAll P s.shared.orders l).1
        (handleAll P s.shared.orders l).2 := by
    intro l hperm
    refine (handleAll_processed h.admissible.1 fun payload hmem => ?_).perm hperm
    obtain ⟨message, hmessage, rfl⟩ := List.mem_map.mp (hperm.mem_iff.mp hmem)
    exact h.admissible_of_mem hmessage
  exact ⟨hprocessed, fun l l' hl hl' i => (hprocessed l hl).lifecycle_eq (hprocessed l' hl') i⟩

/-- Two updates to `SHIPPED` wait; the one sent second is handled first. -/
theorem handleAll_confluent_reversed :
    ∃ s, Run.run (step .reference .default) init (acceptedTwice.take 10) = some s ∧
      waiting .default s.shared = [.statusUpdate "id" ⟨"e1", .shipped, "2024-05-02T10:00:00.000Z"⟩,
        .statusUpdate "id" ⟨"e2", .shipped, "2024-05-02T11:00:00.000Z"⟩] ∧
      (findById (handleAll .reference s.shared.orders
        [(.statusUpdate "id" ⟨"e2", .shipped, "2024-05-02T11:00:00.000Z"⟩, "t1"),
          (.statusUpdate "id" ⟨"e1", .shipped, "2024-05-02T10:00:00.000Z"⟩, "t2")]).1 "id").map
        lifecycle
      = (findById (handleAll .reference s.shared.orders
        [(.statusUpdate "id" ⟨"e1", .shipped, "2024-05-02T10:00:00.000Z"⟩, "t1"),
          (.statusUpdate "id" ⟨"e2", .shipped, "2024-05-02T11:00:00.000Z"⟩, "t2")]).1 "id").map
        lifecycle := by
  have hrun : (Run.run (step .reference .default) init (acceptedTwice.take 10)).map
      (fun s => waiting .default s.shared) = some
        [.statusUpdate "id" ⟨"e1", .shipped, "2024-05-02T10:00:00.000Z"⟩,
          .statusUpdate "id" ⟨"e2", .shipped, "2024-05-02T11:00:00.000Z"⟩] := rfl
  obtain ⟨s, hs, hwaiting⟩ := Option.map_eq_some_iff.mp hrun
  refine ⟨s, hs, hwaiting, ?_⟩
  refine (handleAll_confluent ⟨_, fun a _ => a.inputs_true, hs⟩).2 _ _ ?_ ?_ "id"
  · rw [hwaiting]
    exact .swap _ _ _
  · rw [hwaiting]
    exact .refl _

end System

end OrderProcessing
