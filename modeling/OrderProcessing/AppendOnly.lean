import OrderProcessing.Lifecycle

/-!
# Orders only grow

A two-state law. Between any two states of a run, a stored order keeps what was fixed when it was
created and its history is only continued; the version goes up with the history, so a client that
sees the same version twice has seen the same status and history. Shipment writes are outside the
lock and leave all of this alone.

## Main definitions

* `OrderRecord.Grows` — what a later state of a document has in common with an earlier one
* `OrderRecord.SameLifecycle` — version, status and history are the same
* `Service.OnlyShipment` — a step that changes an order by a shipment write, or not at all

## Main results

* `Service.orders_grow`
-/

namespace OrderProcessing

open OrderRepository

/-- `o'` is a later state of `o`, and its version tells whether anything but the shipment has
changed. -/
structure OrderRecord.Grows (o o' : OrderRecord) : Prop extends o.Extends o' where
  version_le : o.version ≤ o'.version
  status_le : o.status ≤ o'.status
  of_version_eq : o'.version = o.version →
    o'.status = o.status ∧ o'.statusHistory = o.statusHistory

theorem OrderRecord.Extends.grows {o o' : OrderRecord} (h : o.Extends o') (ho : o.WellFormed)
    (ho' : o'.WellFormed) : o.Grows o' where
  toExtends := h
  version_le := h.version_le ho ho'
  status_le := OrderStatus.le_iff_rank.mpr (h.rank_le ho ho')
  of_version_eq := by
    intro hver
    refine ⟨OrderStatus.rank_injective ?_, h.history_eq_of_version_eq ho ho' hver⟩
    rw [ho.version_eq_rank, ho'.version_eq_rank] at hver
    omega

/-- Version, status and history are the same. -/
structure OrderRecord.SameLifecycle (o o' : OrderRecord) : Prop where
  version_eq : o'.version = o.version
  status_eq : o'.status = o.status
  history_eq : o'.statusHistory = o.statusHistory

namespace OrderRecord.SameLifecycle

variable {o o' o'' : OrderRecord}

theorem refl (o : OrderRecord) : o.SameLifecycle o := ⟨rfl, rfl, rfl⟩

theorem trans (h : o.SameLifecycle o') (h' : o'.SameLifecycle o'') : o.SameLifecycle o'' :=
  ⟨h'.version_eq.trans h.version_eq, h'.status_eq.trans h.status_eq,
    h'.history_eq.trans h.history_eq⟩

theorem setShipment (metadata : ShipmentMetadata) (now : String) (o : OrderRecord) :
    o.SameLifecycle (setShipment metadata now o) := ⟨rfl, rfl, rfl⟩

end OrderRecord.SameLifecycle

/-- A shipment write leaves version, status and history of every order alone. -/
theorem sameLifecycle_updateShipmentMetadata {c : Collection} {i : String} {o : OrderRecord}
    (orderId : String) (metadata : ShipmentMetadata) (now : String) (ho : findById c i = some o) :
    ∃ o', findById (updateShipmentMetadata c orderId metadata now) i = some o' ∧
      o.SameLifecycle o' := by
  rw [findById_updateShipmentMetadata, ho, Option.map_some]
  split
  · exact ⟨_, rfl, .setShipment metadata now o⟩
  · exact ⟨_, rfl, .refl o⟩

/-- The only step of a call that sends an `updateOne` to the database is the shipment write. -/
theorem Call.Steps.sameLifecycle {P : Platform} {config : AppConfig} {c : Collection} {call : Call}
    {input : Input} {r : Reaction Call} (h : Call.Steps P config c call input r) {now : String}
    {answer : Answer} (hinput : input = .updateOne now answer) {i : String} {o : OrderRecord}
    (ho : findById c i = some o) : ∃ o', findById r.orders i = some o' ∧ o.SameLifecycle o' := by
  subst hinput
  cases h with
  | createOrder hr => cases hr with | failed => exact ⟨o, ho, .refl o⟩
  | applyStatusUpdate hr => cases hr with | failed => exact ⟨o, ho, .refl o⟩
  | validateStatusUpdate hr => cases hr with | failed => exact ⟨o, ho, .refl o⟩
  | handleOrderCreatedEvent hr =>
    cases hr with
    | stored => exact sameLifecycle_updateShipmentMetadata _ _ _ ho
    | landed => exact sameLifecycle_updateShipmentMetadata _ _ _ ho
    | failed => exact ⟨o, ho, .refl o⟩

namespace Service

variable {P : Platform} {config : AppConfig} {p : Input → Prop} {s t : State}

/-- The database step is a shipment write. -/
def IsShipmentWrite : Action → Prop
  | .resume _ (.updateOne _ _) => True
  | _ => False

/-- The step changes the order by a shipment write, or not at all. -/
def OnlyShipment (P : Platform) (config : AppConfig) (i : String) (s : State) (a : Action) : Prop :=
  IsShipmentWrite a ∨
    ∀ t, step P config s a = some t → findById t.shared.orders i = findById s.shared.orders i

/-- One step that touches nothing but the shipment of the order. -/
theorem OnlyShipment.sameLifecycle {a : Action} {i : String} {o : OrderRecord}
    (h : OnlyShipment P config i s a) (hstep : step P config s a = some t)
    (ho : findById s.shared.orders i = some o) :
    ∃ o', findById t.shared.orders i = some o' ∧ o.SameLifecycle o' := by
  rcases h with hwrite | hsame
  · rcases a with request | ⟨j, input⟩
    · exact hwrite.elim
    · cases input with
      | updateOne now answer =>
        obtain ⟨call, w, call', -, hact, rfl⟩ := Interleave.step_resume_eq_some.mp hstep
        obtain ⟨r, hr, rfl, -⟩ := act_steps hact
        exact hr.sameLifecycle rfl ho
      | _ => exact hwrite.elim
  · exact ⟨o, by rw [hsame t hstep, ho], .refl o⟩

/-- A run that touches nothing but the shipment of the order. -/
theorem sameLifecycle_of_onlyShipment {as : List Action} {i : String} {o : OrderRecord}
    (hrun : Run.run (step P config) s as = some t)
    (honly : Run.Along (step P config) (OnlyShipment P config i) s as)
    (ho : findById s.shared.orders i = some o) :
    ∃ o', findById t.shared.orders i = some o' ∧ o.SameLifecycle o' := by
  refine (Run.run_along (p := fun _ => True) (Q := fun _ _ => True)
    (I := fun u => ∃ o', findById u.shared.orders i = some o' ∧ o.SameLifecycle o') hrun
    (fun _ _ => trivial) ⟨o, ho, .refl o⟩ honly ?_).1
  rintro u a v ⟨o', ho', hsame⟩ - hstepOnly hstep
  obtain ⟨o'', ho'', hsame'⟩ := hstepOnly.sameLifecycle hstep ho'
  exact ⟨⟨o'', ho'', hsame.trans hsame'⟩, trivial⟩

/-- **Orders only grow.** Between two states of a run, every stored order stays stored and only
grows; and if nothing but shipment writes has touched it, its version, status and history are the
same. -/
theorem orders_grow (h : Reachable P config p s) {as : List Action} (has : ∀ a ∈ as, a.Inputs p)
    (hrun : Run.run (step P config) s as = some t) :
    ∀ i o, findById s.shared.orders i = some o →
      ∃ o', findById t.shared.orders i = some o' ∧ o.Grows o' ∧
        (Run.Along (step P config) (OnlyShipment P config i) s as → o.SameLifecycle o') := by
  have hreach : Run.Reachable (step P config) (Interleave.Action.Inputs p) s t := ⟨as, has, hrun⟩
  obtain ⟨hwf, hprep⟩ := h.invariant
  have hwf' : t.shared.orders.WellFormed := (Reachable.invariant (h.trans hreach)).1
  have hext := Interleave.related (relyGuarantee P config p) (fun w => .refl w.orders)
    (fun _ _ _ h h' => h.trans h') hreach hwf hprep
  intro i o ho
  obtain ⟨o', ho', hoo'⟩ := hext i o ho
  refine ⟨o', ho', hoo'.grows (hwf.of_findById ho) (hwf'.of_findById ho'), fun honly => ?_⟩
  obtain ⟨o'', ho'', hsame⟩ := sameLifecycle_of_onlyShipment hrun honly ho
  obtain rfl : o' = o'' := Option.some.inj (ho'.symm.trans ho'')
  exact hsame

/-- The race up to the shipment write: the order is shipped, and its shipment is not yet stored. -/
theorem orders_grow_shippedRace :
    ∃ s t o o', Run.run (step .reference .default) init (shippedRace.take 12) = some s ∧
      Run.run (step .reference .default) s [.resume 3 (.updateOne "2024-05-02T12:00:02.000Z" .ok)]
        = some t ∧
      findById s.shared.orders "id" = some o ∧ (o.version, o.hasShipment) = (2, false) ∧
      findById t.shared.orders "id" = some o' ∧ o'.hasShipment = true ∧
      o.Grows o' ∧ o.SameLifecycle o' := by
  have hrun : (Run.run (step .reference .default) init (shippedRace.take 12)).bind
      (fun s => (findById s.shared.orders "id").map fun o => (o.version, o.hasShipment))
      = some (2, false) := by decide
  have hwrite : (Run.run (step .reference .default) init (shippedRace.take 13)).bind
      (fun s => (findById s.shared.orders "id").map (·.hasShipment)) = some true := by decide
  obtain ⟨s, hs, hobs⟩ := Option.bind_eq_some_iff.mp hrun
  obtain ⟨o, ho, hfields⟩ := Option.map_eq_some_iff.mp hobs
  obtain ⟨t, ht, hobs'⟩ := Option.bind_eq_some_iff.mp hwrite
  obtain ⟨o₁, ho₁, hship⟩ := Option.map_eq_some_iff.mp hobs'
  have hsplit : shippedRace.take 13 = shippedRace.take 12
      ++ [.resume 3 (.updateOne "2024-05-02T12:00:02.000Z" .ok)] := rfl
  rw [hsplit] at ht
  obtain ⟨s₁, hs₁, ht⟩ := Run.run_append_eq_some.mp ht
  obtain rfl : s = s₁ := Option.some.inj (hs.symm.trans hs₁)
  obtain ⟨o', ho', hgrows, hsame⟩ := orders_grow (p := fun _ => True)
    ⟨_, fun a _ => a.inputs_true, hs⟩ (fun a _ => a.inputs_true) ht "id" o ho
  obtain rfl : o₁ = o' := Option.some.inj (ho₁.symm.trans ho')
  exact ⟨s, t, o, o₁, hs, ht, ho, hfields, ho₁, hship, hgrows,
    hsame ⟨Or.inl trivial, fun _ _ => trivial⟩⟩

end Service

end OrderProcessing
