import OrderProcessing.Order

/-!
# Product availability

`src/services/product-availability-service.ts`: a line is unavailable when its own quantity exceeds
`MAX_PER_ITEM`.
-/

namespace OrderProcessing

/-- A line that is refused, as the error lists it. -/
structure UnavailableItem where
  sku : JsString
  requestedQty : JsNumber
  maxAvailable : ℕ
  deriving DecidableEq

/-- The outcome of the check; a refusal comes with the lines and a message. -/
structure AvailabilityCheckResult where
  available : Bool
  unavailableItems : Option (List UnavailableItem)
  message : Option String

/-- `MAX_PER_ITEM`. -/
def maxPerItem : ℕ := 10

/-- `checkAvailability`. -/
def checkAvailability (items : List OrderItem) : AvailabilityCheckResult :=
  let unavailable := (items.filter fun item => item.qty.gt maxPerItem).map fun item =>
    { sku := item.sku, requestedQty := item.qty, maxAvailable := maxPerItem : UnavailableItem }
  if unavailable.length > 0 then
    { available := false
      unavailableItems := some unavailable
      message := some "One or more items are unavailable because they exceed inventory limits" }
  else
    { available := true, unavailableItems := none, message := none }

/-- The check is per line. -/
theorem checkAvailability_available_iff {items : List OrderItem} :
    (checkAvailability items).available = true ↔
      ∀ item ∈ items, item.qty.gt maxPerItem = false := by
  rw [checkAvailability]
  simp only [List.length_map]
  split
  · next h =>
    obtain ⟨item, hitem⟩ := List.exists_mem_of_length_pos h
    obtain ⟨hmem, hgt⟩ := List.mem_filter.mp hitem
    simp only [Bool.false_eq_true, false_iff]
    intro hall
    rw [hall item hmem] at hgt
    exact Bool.false_ne_true hgt
  · next h =>
    have hnil : items.filter (fun item => item.qty.gt maxPerItem) = [] :=
      List.length_eq_zero_iff.mp (by omega)
    simpa [List.filter_eq_nil_iff] using hnil

end OrderProcessing
