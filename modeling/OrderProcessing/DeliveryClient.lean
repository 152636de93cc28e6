import OrderProcessing.Order
import OrderProcessing.Retry

/-!
# The Delivery client

`src/clients/delivery-client.ts`. One attempt is an `Exchange`, what one `fetch` resolves or rejects
with: either no response arrives, or one with a status code and a body that is or is not JSON.
`deliveryOperation` is the attempt's outcome, `shouldRetry` the predicate that decides on another
one.

What happens inside of `fetch` is not part of the client. There redirects are followed, and a
response with status 407 or 421 is dealt with before the client sees any.

The body of a successful response is cast, not checked, so `buildShipmentMetadata` reads properties
of an arbitrary JSON value. Only `null` has none to read; that is a `TypeError`.
-/

namespace OrderProcessing

/-- What one `fetch` of `POST /v1/shipments` resolves or rejects with. -/
inductive Exchange
  /-- It rejects: a transport error, or the abort timer, under the name of the error. -/
  | failed (name : String)
  /-- It resolves with a response; `none` when its body cannot be read as JSON. -/
  | response (status : ℕ) (body : Option Json)

/-- What `createShipment` throws. -/
inductive DeliveryError
  /-- `DeliveryHttpError`. -/
  | http (statusCode : ℕ)
  /-- What `fetch` rejects with. -/
  | transport (name : String)
  /-- What `response.json()` rejects with. -/
  | invalidBody
  /-- `Retry logic reached an unexpected state`. -/
  | unexpectedState
  deriving DecidableEq

/-- The request, with the header that Delivery deduplicates on. -/
structure ShipmentRequest where
  idempotencyKey : String
  orderId : String
  customerId : JsString
  items : List OrderItem
  totalAmount : JsNumber

/-- The request about an order. -/
def shipmentRequest (order : OrderRecord) : ShipmentRequest where
  idempotencyKey := order.requestId
  orderId := order.id
  customerId := order.customerId
  items := order.items
  totalAmount := order.totalAmount

/-- `operation`: `response.ok` is a status from 200 to 299. -/
def deliveryOperation : Exchange → Except DeliveryError Json
  | .failed name => .error (.transport name)
  | .response status body =>
    if 200 ≤ status && status ≤ 299 then
      match body with
      | some data => .ok data
      | none => .error .invalidBody
    else .error (.http status)

/-- `shouldRetry`. -/
def shouldRetry : DeliveryError → Bool
  | .http statusCode => 500 ≤ statusCode || statusCode = 429
  | .transport name => if name = "AbortError" then true else true
  | _ => true

/-- `buildShipmentMetadata`; `none` where reading a property of `null` throws. -/
def buildShipmentMetadata (requestedAt : String) : Json → Option ShipmentMetadata
  | .null => none
  | response => some
      { shipmentId := response.get? (js "shipmentId")
        state := response.get? (js "state")
        requestedAt := requestedAt }

end OrderProcessing
