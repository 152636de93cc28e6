import OrderProcessing.System
import Mathlib.Algebra.Order.Field.Rat
import Mathlib.Tactic.NormNum

/-!
# The availability limit is per line

`checkAvailability` looks at one line at a time, and a request may name a product on several lines.
So no line of a stored order is over the limit of a product, and the lines of one product together
ask for at most the limit times their number. They may well ask for more than the limit.

## Main definitions

* `requestedQty` — what the lines of a product ask for together
* `Call.Checked` — what `createOrder` is about to insert has passed the check

## Main results

* `System.stored_lines_available`
* `System.stored_total_exceeds` — two lines within the limit, whose sum is not
-/

namespace OrderProcessing

/-! ### Quantities -/

/-- `m + n`, on exact numbers. -/
def JsNumber.add : JsNumber → JsNumber → JsNumber
  | .finite q, .finite r => .finite (q + r)
  | .finite _, n => n
  | m, .finite _ => m
  | .infinity b, .infinity c => if b = c then .infinity b else .nan
  | _, _ => .nan

/-- What the lines of a product ask for together. -/
def requestedQty (items : List OrderItem) (sku : JsString) : JsNumber :=
  ((items.filter fun item => item.sku = sku).map OrderItem.qty).foldr JsNumber.add (.finite 0)

/-- How many lines there are of a product. -/
def lineCount (items : List OrderItem) (sku : JsString) : ℕ :=
  items.countP fun item => item.sku = sku

/-- A sum is within the sum of the bounds. -/
theorem JsNumber.gt_add {m n : JsNumber} {a b : ℚ} (hm : m.gt a = false) (hn : n.gt b = false) :
    (m.add n).gt (a + b) = false := by
  rcases m with q | (_ | _) | _ <;> rcases n with r | (_ | _) | _ <;>
    simp_all [add, gt]
  exact add_le_add hm hn

theorem requestedQty_gt {items : List OrderItem} {limit : ℚ}
    (h : ∀ item ∈ items, item.qty.gt limit = false) (sku : JsString) :
    (requestedQty items sku).gt (limit * lineCount items sku) = false := by
  induction items with
  | nil => simp [requestedQty, lineCount, JsNumber.gt]
  | cons item items ih =>
    have hitem := h item (List.mem_cons_self ..)
    have hitems := ih fun item hitem => h item (List.mem_cons_of_mem _ hitem)
    by_cases hsku : item.sku = sku
    · have hsum := JsNumber.gt_add hitem hitems
      have hbound : limit * lineCount (item :: items) sku
          = limit + limit * lineCount items sku := by
        rw [lineCount, List.countP_cons_of_pos (by simpa using hsku), ← lineCount, Nat.cast_add,
          Nat.cast_one, mul_add, mul_one, add_comm]
      rw [hbound]
      simpa [requestedQty, hsku] using hsum
    · have hcount : lineCount (item :: items) sku = lineCount items sku :=
        List.countP_cons_of_neg (by simpa using hsku)
      rw [hcount]
      simpa [requestedQty, hsku] using hitems

/-! ### What is stored has passed the check -/

/-- Every line of every stored order is available. -/
def Collection.Available (c : Collection) : Prop :=
  ∀ o ∈ c.docs, (checkAvailability o.items).available = true

/-- The check does not depend on what the database keeps of the lines. -/
theorem available_map_stored {items : List OrderItem}
    (h : (checkAvailability items).available = true) :
    (checkAvailability (items.map OrderItem.stored)).available = true := by
  rw [checkAvailability_available_iff] at h ⊢
  rintro item hitem
  obtain ⟨item', hitem', rfl⟩ := List.mem_map.mp hitem
  exact h item' hitem'

/-- A `createOrder` call that is about to insert has passed the check. -/
def Call.Checked : Call → Prop
  | .createOrder call =>
    (∃ payloadHash, call.pc = .insert payloadHash) →
      (checkAvailability call.payload.items).available = true
  | _ => True

section Steps

variable {P : Platform} {config : AppConfig} {c : Collection} {call : Call} {input : Input}
  {r : Reaction Call}

theorem Call.Steps.available (hc : c.Available) (hcall : call.Checked)
    (h : Call.Steps P config c call input r) : r.orders.Available := by
  intro o ho
  rcases h.mem_orders ho with ⟨o₀, ho₀, hext⟩ | ⟨create, payloadHash, uuid, now, rfl, hpc, rfl⟩
  · rw [hext.items_eq]
    exact hc o₀ ho₀
  · exact available_map_stored (hcall ⟨payloadHash, hpc⟩)

theorem Call.Steps.checked (h : Call.Steps P config c call input r) : r.call.Checked := by
  cases h with
  | @createOrder create input r h =>
    rintro ⟨payloadHash, hpc⟩
    cases h with
    | lookedUp =>
      rcases create.afterLookup_cases P (OrderRepository.findByRequestId c create.idempotencyKey)
        with ⟨_, _, _, heq⟩ | ⟨_, _, _, heq⟩ | ⟨_, _, _, _, heq⟩ | ⟨_, havailable, heq⟩
      · simp [heq, CreateOrder.finish] at hpc
      · simp [heq, CreateOrder.finish] at hpc
      · simp [heq, CreateOrder.finish] at hpc
      · show (checkAvailability (create.afterLookup P _).payload.items).available = true
        rw [heq]
        exact havailable
    | _ => simp [CreateOrder.finish] at hpc
  | _ => trivial

end Steps

namespace Service

variable {P : Platform} {config : AppConfig} {p : Input → Prop} {s : State}

theorem relyGuarantee_available (P : Platform) (config : AppConfig) (p : Input → Prop) :
    Interleave.RelyGuarantee start (act P config) p (fun w => w.orders.Available)
      (fun _ call => call.Checked) (fun _ _ => True) where
  start := by
    intro w request w' call hw h
    obtain ⟨rfl, rfl⟩ := Prod.mk.inj (Option.some.inj h)
    refine ⟨hw, trivial, ?_⟩
    cases request with
    | createOrder => exact fun ⟨_, hpc⟩ => CreateOrder.Pc.noConfusion hpc
    | _ => trivial
  act := by
    intro w call input w' call' hw hcall _ h
    obtain ⟨r, hstep, rfl, rfl⟩ := act_steps h
    exact ⟨hstep.available hw hcall, trivial, hstep.checked⟩
  stable := fun _ _ _ hcall => hcall

theorem Reachable.available (h : Reachable P config p s) : s.shared.orders.Available :=
  (Interleave.invariant (relyGuarantee_available P config p) h
    (fun _ ho => absurd ho List.not_mem_nil) fun _ hcall => absurd hcall List.not_mem_nil).1

end Service

namespace System

variable {P : Platform} {config : AppConfig} {s : State}

/-- **No line of a stored order is over the limit**, in every reachable state, and the lines of one
product together ask for at most the limit times their number. That is what the check is about: it
passes exactly if each line by itself is within the limit. -/
theorem stored_lines_available (h : Reachable P config s) :
    (∀ o ∈ s.shared.orders.docs,
      (∀ item ∈ o.items, item.qty.gt maxPerItem = false) ∧
      ∀ sku, (requestedQty o.items sku).gt (maxPerItem * lineCount o.items sku) = false) ∧
    ∀ items, (checkAvailability items).available = true ↔
      ∀ item ∈ items, item.qty.gt maxPerItem = false := by
  refine ⟨fun o ho => ?_, fun items => checkAvailability_available_iff⟩
  have hlines := checkAvailability_available_iff.mp (h.service.available o ho)
  exact ⟨hlines, requestedQty_gt hlines⟩

/-- Ten pieces of `A` on one line, and ten more on another. -/
def splitPayload : CreateOrderInput :=
  .of (js "c-1") [(js "A", .finite 10), (js "A", .finite 10)] (.finite 20)

/-- The order is accepted and stored. -/
def splitOrder : List Action :=
  [.invoke (.postOrder splitPayload "key"), .resume 0 (.call (.find .ok)),
    .resume 0 (.call (.insertOne "id" "2024-05-01T10:00:00.000Z" .ok))]

theorem stored_lines_available_splitOrder :
    ∃ s, Run.run (step .reference .default) init splitOrder = some s ∧
      s.shared.orders.docs.map (fun o => lineCount o.items (js "A")) = [2] ∧
      (∀ o ∈ s.shared.orders.docs,
        (∀ item ∈ o.items, item.qty.gt maxPerItem = false) ∧
        ∀ sku, (requestedQty o.items sku).gt (maxPerItem * lineCount o.items sku) = false) ∧
      ∀ items, (checkAvailability items).available = true ↔
        ∀ item ∈ items, item.qty.gt maxPerItem = false := by
  have hrun : (Run.run (step .reference .default) init splitOrder).map
      (fun s => s.shared.orders.docs.map fun o => lineCount o.items (js "A")) = some [2] := by
    decide
  obtain ⟨s, hs, hdocs⟩ := Option.map_eq_some_iff.mp hrun
  exact ⟨s, hs, hdocs, stored_lines_available ⟨_, fun a _ => a.inputs_true, hs⟩⟩

/-- **A stored order may ask for more of a product than the limit**: the check passes two lines of
ten pieces, and the order is stored. -/
theorem stored_total_exceeds :
    (checkAvailability splitPayload.items).available = true ∧
    (requestedQty splitPayload.items (js "A")).gt maxPerItem = true ∧
    ∃ s, Reachable .reference .default s ∧
      ∃ o ∈ s.shared.orders.docs, (requestedQty o.items (js "A")).gt maxPerItem = true := by
  have htotal : (requestedQty splitPayload.items (js "A")).gt maxPerItem = true := by
    have hsum : requestedQty splitPayload.items (js "A") = .finite (10 + (10 + 0)) := rfl
    rw [hsum, JsNumber.gt, decide_eq_true_eq, maxPerItem]
    norm_num
  have hrun : (Run.run (step .reference .default) init splitOrder).map
      (fun s => s.shared.orders.docs.map OrderRecord.items) = some [splitPayload.items] := rfl
  obtain ⟨s, hs, hdocs⟩ := Option.map_eq_some_iff.mp hrun
  obtain ⟨o, ho, hitems⟩ := List.mem_map.mp (hdocs ▸ List.mem_singleton_self splitPayload.items)
  exact ⟨by decide, htotal, s, ⟨_, fun a _ => a.inputs_true, hs⟩, o, ho, hitems ▸ htotal⟩

end System

end OrderProcessing
