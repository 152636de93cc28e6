import OrderProcessing.Json
import Mathlib.Order.Basic
import Mathlib.Order.Defs.LinearOrder

/-!
# Orders

`src/types/order.ts`. The create payload is a JSON object that has the declared shape: its typed
fields come with the proof that they are the properties of that object, so the hash of the object
and the fields stored from it can never be about two different requests.

The lifecycle `PENDING_SHIPMENT < SHIPPED < DELIVERED` is a linear order, through
`OrderStatus.rank`.
-/

namespace OrderProcessing

/-! ### The lifecycle -/

/-- `OrderStatus`: how far an order has come. -/
inductive OrderStatus
  | pendingShipment
  | shipped
  | delivered
  deriving DecidableEq, Repr

namespace OrderStatus

/-- The position in the lifecycle. -/
def rank : OrderStatus → ℕ
  | pendingShipment => 0
  | shipped => 1
  | delivered => 2

theorem rank_injective : Function.Injective rank := by
  intro s t h
  cases s <;> cases t <;> simp_all [rank]

instance : LinearOrder OrderStatus := LinearOrder.lift' rank rank_injective

theorem le_iff_rank {s t : OrderStatus} : s ≤ t ↔ s.rank ≤ t.rank := Iff.rfl

theorem rank_le_two (s : OrderStatus) : s.rank ≤ 2 := by cases s <;> decide

/-- The text that error messages show. -/
def text : OrderStatus → String
  | pendingShipment => "PENDING_SHIPMENT"
  | shipped => "SHIPPED"
  | delivered => "DELIVERED"

/-- The whole lifecycle, in order. -/
def lifecycle : List OrderStatus := [pendingShipment, shipped, delivered]

end OrderStatus

/-! ### Create requests -/

/-- A line of an order: a JSON object with a string `sku` and a number `qty`. -/
structure OrderItem where
  /-- The line as it was parsed, extra fields included. -/
  json : Json
  sku : JsString
  qty : JsNumber
  sku_eq : json.get? (js "sku") = some (.str sku)
  qty_eq : json.get? (js "qty") = some (.num qty)
  distinct : json.distinctKeys = true

/-- What an order is about: its SKU and quantity. -/
def OrderItem.line (item : OrderItem) : JsString × JsNumber := (item.sku, item.qty)

/-- A create body: a JSON object that has the fields `CreateOrderInput` declares. -/
structure CreateOrderInput where
  /-- The body as it was parsed, extra fields included. -/
  json : Json
  customerId : JsString
  items : List OrderItem
  totalAmount : JsNumber
  customerId_eq : json.get? (js "customerId") = some (.str customerId)
  items_eq : json.get? (js "items") = some (.arr (items.map (·.json)))
  totalAmount_eq : json.get? (js "totalAmount") = some (.num totalAmount)
  distinct : json.distinctKeys = true

/-! ### Stored orders -/

/-- One step in the lifecycle of an order, under the key of the request that reported it. -/
structure StatusEvent where
  eventId : String
  status : OrderStatus
  atTime : String
  deriving DecidableEq

/-- What a callback of Delivery reports. -/
structure StatusUpdateInput where
  status : OrderStatus
  atTime : String
  eventId : String
  deriving DecidableEq

/-- `shipmentId` and `state` are whatever Delivery's body holds under these names. -/
structure ShipmentMetadata where
  shipmentId : Option Json
  state : Option Json
  requestedAt : String

/-- An order, as the service holds it and as a document of the collection. -/
structure OrderRecord where
  id : String
  customerId : JsString
  items : List OrderItem
  totalAmount : JsNumber
  status : OrderStatus
  requestId : String
  payloadHash : JsString
  createdAt : String
  updatedAt : String
  version : ℕ
  statusHistory : List StatusEvent
  shipment : Option ShipmentMetadata

/-- `order.statusHistory.some((item) => item.eventId === eventId)`. -/
def OrderRecord.hasEvent (order : OrderRecord) (eventId : String) : Bool :=
  order.statusHistory.any fun event => event.eventId = eventId

theorem OrderRecord.hasEvent_iff {order : OrderRecord} {eventId : String} :
    order.hasEvent eventId = true ↔ ∃ event ∈ order.statusHistory, event.eventId = eventId := by
  simp [hasEvent]

/-- `order.shipment?.shipmentId`, as a condition. -/
def OrderRecord.hasShipment (order : OrderRecord) : Bool :=
  Json.truthy (order.shipment.bind (·.shipmentId))

end OrderProcessing
