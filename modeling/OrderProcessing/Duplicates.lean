import OrderProcessing.Lifecycle

/-!
# What a duplicate answer means

An update whose event id is in the history is answered without an event to append. The ids of one
history are distinct, so there is one entry that the update is taken for, and the order has reached
the status of that entry. That is the status asked for when the update repeats the entry, as a
redelivery does. An event id that is used again for a later status is answered in the same way, and
says nothing about that status.
-/

namespace OrderProcessing

open OrderRepository

/-- The status of an order has reached the status of every entry of its history. -/
theorem OrderRecord.WellFormed.status_le {o : OrderRecord} {entry : StatusEvent} (h : o.WellFormed)
    (hentry : entry ∈ o.statusHistory) : entry.status ≤ o.status := by
  have hmem : entry.status ∈ OrderStatus.lifecycle.take (o.status.rank + 1) := by
    rw [← h.statuses_eq]
    exact List.mem_map_of_mem hentry
  rw [OrderStatus.le_iff_rank]
  revert hmem
  cases entry.status <;> cases o.status <;> decide

/-- The update is answered for one entry of the history, whose status the order has reached. -/
def AnsweredByEntry (order : OrderRecord) (update : StatusUpdateInput) : Prop :=
  ∃ entry ∈ order.statusHistory, entry.eventId = update.eventId ∧
    (∀ other ∈ order.statusHistory, other.eventId = update.eventId → other = entry) ∧
    entry.status ≤ order.status ∧ (update.status ≤ entry.status → update.status ≤ order.status)

theorem OrderRecord.WellFormed.answeredByEntry {o : OrderRecord} {update : StatusUpdateInput}
    (h : o.WellFormed) (hev : o.hasEvent update.eventId = true) : AnsweredByEntry o update := by
  obtain ⟨entry, hentry, hid⟩ := OrderRecord.hasEvent_iff.mp hev
  have hle := h.status_le hentry
  refine ⟨entry, hentry, hid, fun other hother hid' => ?_, hle, fun hreq => hreq.trans hle⟩
  exact List.inj_on_of_nodup_map h.eventIds_nodup hother hentry (hid'.trans hid.symm)

/-! ### One step -/

section Steps

variable {P : Platform} {c : Collection} {order : OrderRecord}

/-- A validation that has no event to append has found the event in the history. -/
theorem StatusValidation.Steps.of_duplicate {call : StatusValidation}
    {r : Reaction StatusValidation} (h : StatusValidation.Steps P c call (.find .ok) r)
    (hpc : r.call.pc = .returned (.ok (order, none))) :
    findById c call.orderId = some order ∧ order.hasEvent call.input.eventId = true := by
  cases h with
  | lookedUp =>
    have hprep := StatusValidation.Pc.returned.inj hpc
    obtain ⟨hfound, update, hupdate, hev⟩ := prepareStatusUpdate_eq_duplicate_iff.mp hprep
    obtain rfl := Option.some.inj hupdate
    exact ⟨hfound, hev⟩
  | failed hfailed => simp [Input.databaseAnswers] at hfailed

/-- An update that returns the order at a lookup or a re-read has found the event in the history. -/
theorem StatusUpdate.Steps.of_duplicate {call : StatusUpdate} {r : Reaction StatusUpdate}
    (h : StatusUpdate.Steps P c call (.find .ok) r) (hpc : r.call.pc = .returned (.ok order)) :
    findById c call.orderId = some order ∧
      ∃ update, call.input = some update ∧ order.hasEvent update.eventId = true := by
  cases h with
  | lookedUp =>
    simp only [StatusUpdate.afterLookup] at hpc
    split at hpc
    · simp [StatusUpdate.finish] at hpc
    · next order' hprep =>
      obtain rfl : order' = order := Except.ok.inj (StatusUpdate.Pc.returned.inj hpc)
      exact prepareStatusUpdate_eq_duplicate_iff.mp hprep
    · simp at hpc
  | reread =>
    simp only [StatusUpdate.afterReread] at hpc
    split at hpc
    · next latest update hfound hupdate =>
      split at hpc
      · next hev =>
        obtain rfl : latest = order := Except.ok.inj (StatusUpdate.Pc.returned.inj hpc)
        exact ⟨hfound, update, hupdate, hev⟩
      · simp [StatusUpdate.finish] at hpc
    · simp [StatusUpdate.finish] at hpc
  | failed hfailed => simp [Input.databaseAnswers] at hfailed

end Steps

/-! ### Every reachable state -/

/-- Whatever `validateStatusUpdate` and `applyStatusUpdate` answer without an event to append, at a
lookup or after a lost race, they answer for an entry of the stored order. -/
structure DuplicatesAreRecorded (P : Platform) (c : Collection) : Prop where
  validated : ∀ call r order, StatusValidation.step P c call (.find .ok) = some r →
    r.call.pc = .returned (.ok (order, none)) →
    findById c call.orderId = some order ∧ AnsweredByEntry order call.input
  applied : ∀ call r order, StatusUpdate.step P c call (.find .ok) = some r →
    r.call.pc = .returned (.ok order) →
    findById c call.orderId = some order ∧
      ∃ update, call.input = some update ∧ AnsweredByEntry order update

namespace Service

variable {P : Platform} {config : AppConfig} {p : Input → Prop} {s : State}

/-- **A duplicate answer is an answer for a recorded entry.** -/
theorem duplicatesAreRecorded (h : Reachable P config p s) :
    DuplicatesAreRecorded P s.shared.orders := by
  have hwf := h.invariant.1
  constructor
  · intro call r order hstep hpc
    obtain ⟨hfound, hev⟩ := (StatusValidation.steps hstep).of_duplicate hpc
    exact ⟨hfound, (hwf.of_findById hfound).answeredByEntry hev⟩
  · intro call r order hstep hpc
    obtain ⟨hfound, update, hupdate, hev⟩ := (StatusUpdate.steps hstep).of_duplicate hpc
    exact ⟨hfound, update, hupdate, (hwf.of_findById hfound).answeredByEntry hev⟩

/-- An order that has been shipped under the event id `e1`. -/
def shippedOnce : List Action :=
  creating 0 (samplePayload 10) "key" "id" "2024-05-01T10:00:00.000Z" ++
    [.invoke (.applyStatusUpdate "id" (some ⟨.shipped, "2024-05-02T10:00:00.000Z", "e1"⟩)),
      .resume 1 (.find .ok), .resume 1 (.findOneAndUpdate "2024-05-02T12:00:00.000Z" .ok)]

theorem duplicatesAreRecorded_shippedOnce :
    ∃ s, Run.run (step .reference .default) init shippedOnce = some s ∧
      (findById s.shared.orders "id").map (fun o => (o.status, o.hasEvent "e1"))
        = some (.shipped, true) ∧
      DuplicatesAreRecorded .reference s.shared.orders := by
  have hrun : (Run.run (step .reference .default) init shippedOnce).map
      (fun s => (findById s.shared.orders "id").map fun o => (o.status, o.hasEvent "e1"))
      = some (some (.shipped, true)) := by decide
  obtain ⟨s, hs, hobs⟩ := Option.map_eq_some_iff.mp hrun
  exact ⟨s, hs, hobs, duplicatesAreRecorded (p := fun _ => True) ⟨_, fun a _ => a.inputs_true, hs⟩⟩

/-- `DELIVERED` under the event id that `SHIPPED` was recorded with is answered as a duplicate,
while the order is only shipped. -/
theorem duplicate_beyond_status :
    ∃ s o, Reachable .reference .default (fun _ => True) s ∧
      findById s.shared.orders "id" = some o ∧
      prepareStatusUpdate .reference "id"
        (some ⟨.delivered, "2024-05-03T10:00:00.000Z", "e1"⟩) (some o) = .ok (o, none) ∧
      ¬ OrderStatus.delivered ≤ o.status := by
  have hrun : (Run.run (step .reference .default) init shippedOnce).map
      (fun s => (findById s.shared.orders "id").map fun o => (o.status, o.hasEvent "e1"))
      = some (some (.shipped, true)) := by decide
  obtain ⟨s, hs, hobs⟩ := Option.map_eq_some_iff.mp hrun
  obtain ⟨o, ho, heq⟩ := Option.map_eq_some_iff.mp hobs
  obtain ⟨hstatus, hev⟩ := Prod.mk.inj heq
  refine ⟨s, o, ⟨_, fun a _ => a.inputs_true, hs⟩, ho,
    prepareStatusUpdate_eq_duplicate_iff.mpr ⟨rfl, _, rfl, hev⟩, ?_⟩
  rw [hstatus]
  decide

end Service

end OrderProcessing
