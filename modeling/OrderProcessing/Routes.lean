import OrderProcessing.RateLimit
import OrderProcessing.Schema
import OrderProcessing.System
import Mathlib.Data.List.DropRight

/-!
# Requests and responses

The parts of `src/routes/orders.ts` and `src/routes/debug.ts` in front of the service and behind it:
the schemas of headers and bodies, the idempotency key, and the status code and body of each
response.

## What the framework adds

It reads the body of a request before it looks at a schema, and refuses one that is too long, of a
media type it has no parser for, or no JSON. It answers an error that no handler has translated
under the `statusCode` that the error has, or under 500. Its error responses show a message and no
other property of an error. And it shows an order through the response schema: a value that is not
of the declared type is turned into one.

## Types that are only declared

A handler reads `request.body` under a declared type, which nothing checks at run time.
`CreateOrderInput.cast` and `StatusUpdateBody.cast` are defined where that type is true of the body;
`CreateOrderInput.exists_cast` and `StatusUpdateBody.exists_cast` say that the schemas admit no
other bodies.

## Main definitions

* `extractIdempotencyKey`
* `createOrderBodySchema`, `statusUpdateBodySchema`, `idempotencyHeaderSchema`
* `Incoming` — what becomes of the body of a request
* `Response`, `createOrderResponse`, `getOrderResponse`, `Reply.response`
* `OrderRecord.view` — an order through the response schema
-/

namespace OrderProcessing

/-! ### The idempotency key -/

/-- White space and line terminators, which `trim` removes. -/
def isSpace (u : UInt16) : Bool :=
  (0x09 ≤ u && u ≤ 0x0D) || u = 0x20 || u = 0xA0 || u = 0x1680 || (0x2000 ≤ u && u ≤ 0x200A) ||
    u = 0x2028 || u = 0x2029 || u = 0x202F || u = 0x205F || u = 0x3000 || u = 0xFEFF

/-- `value.trim()`. -/
def trim (value : JsString) : JsString := (value.dropWhile isSpace).rdropWhile isSpace

/-- `extractIdempotencyKey`. A header that is an array holds strings. -/
def extractIdempotencyKey (headers : Json) : Option JsString :=
  match headers.get? (js "idempotency-key") with
  | some (.str value) => some (trim value)
  | some (.arr (.str value :: _)) => some value
  | _ => none

/-- `idempotencyHeaderSchema`. -/
def idempotencyHeaderSchema : Schema :=
  .object [js "idempotency-key"] [(js "idempotency-key", .string 1)]

/-- The handlers go on with a key that is not empty. -/
def acceptedKey (headers : Json) : Option String :=
  (extractIdempotencyKey headers).bind fun key => if key = [] then none else some (text key)

/-- Behind the header schema a key is what `trim` has left, and never the first of an array. -/
theorem exists_of_acceptedKey {isDateTime : JsString → Bool} {headers : Json} {key : String}
    (hheaders : idempotencyHeaderSchema.accepts isDateTime headers = true)
    (h : acceptedKey headers = some key) :
    ∃ value, headers.get? (js "idempotency-key") = some (.str value) ∧ trim value ≠ [] ∧
      key = text (trim value) := by
  obtain ⟨w, hw, hstring⟩ := Schema.exists_property hheaders (List.mem_singleton_self _)
    (List.mem_singleton_self _)
  obtain ⟨value, rfl, -⟩ := Schema.accepts_string_iff.mp hstring
  obtain ⟨key', hkey', h⟩ := Option.bind_eq_some_iff.mp h
  have hextract : extractIdempotencyKey headers = some (trim value) := by
    simp only [extractIdempotencyKey, hw]
  obtain rfl : trim value = key' := Option.some.inj (hextract.symm.trans hkey')
  split at h
  · simp at h
  · next hne => exact ⟨value, hw, hne, (Option.some.inj h).symm⟩

/-! ### Bodies -/

/-- What `JSON.parse` has made of the body of a request; a body of plain text is a string. -/
structure Body where
  json : Json
  distinct : json.distinctKeys = true

/-- What the framework makes of the body of a request. -/
inductive Incoming
  | parsed (body : Body)
  /-- There is none, it is not JSON, or it has a property that may not be set, such as `__proto__`.
  -/
  | unreadable
  /-- It is longer than 1 MiB. -/
  | tooLarge
  /-- Its media type is neither that of JSON nor that of plain text. -/
  | unsupported

/-- The status code of the answer to a request that is refused before its handler runs. -/
def Incoming.refusal : Incoming → ℕ
  | .tooLarge => 413
  | .unsupported => 415
  | .unreadable | .parsed _ => 400

/-- `createOrderBodySchema`. -/
def createOrderBodySchema : Schema :=
  .object [js "customerId", js "items", js "totalAmount"]
    [(js "customerId", .string 1),
     (js "totalAmount", .number 0),
     (js "items", .array 1 (.object [js "sku", js "qty"]
       [(js "sku", .string 1), (js "qty", .integer 1)]))]

/-- `statusUpdateBodySchema`. -/
def statusUpdateBodySchema : Schema :=
  .object [js "status", js "at"]
    [(js "status", .enum [js "SHIPPED", js "DELIVERED"]), (js "at", .dateTime)]

/-- The value as an order item, if it is one. -/
def OrderItem.cast (json : Json) : Option OrderItem :=
  if hdistinct : json.distinctKeys = true then
    match hsku : json.get? (js "sku"), hqty : json.get? (js "qty") with
    | some (.str sku), some (.num qty) => some
        { json := json
          sku := sku
          qty := qty
          sku_eq := hsku
          qty_eq := hqty
          distinct := hdistinct }
    | _, _ => none
  else none

theorem OrderItem.cast_eq_some_iff {json : Json} {item : OrderItem} :
    OrderItem.cast json = some item ↔ item.json = json := by
  rw [OrderItem.cast]
  constructor
  · intro h
    split at h
    · split at h
      · exact congrArg OrderItem.json (Option.some.inj h).symm
      · simp at h
    · simp at h
  · rintro rfl
    rw [dif_pos item.distinct]
    split
    · next sku qty hsku hqty =>
      obtain ⟨json, sku', qty', hsku', hqty', hdistinct⟩ := item
      obtain rfl : sku = sku' := by simpa using hsku.symm.trans hsku'
      obtain rfl : qty = qty' := by simpa using hqty.symm.trans hqty'
      rfl
    · next hnot => exact absurd item.qty_eq (hnot _ _ item.sku_eq)

/-- The values as order items, if all of them are. -/
def castItems (vs : List Json) : Option (List OrderItem) := vs.mapM OrderItem.cast

theorem castItems_eq_some_iff {vs : List Json} {items : List OrderItem} :
    castItems vs = some items ↔ items.map (·.json) = vs := by
  rw [castItems]
  induction vs generalizing items with
  | nil =>
    rw [List.mapM_nil, List.map_eq_nil_iff]
    exact ⟨fun h => (Option.some.inj h).symm, fun h => by rw [h]; rfl⟩
  | cons v vs ih =>
    rw [List.mapM_cons]
    constructor
    · intro h
      obtain ⟨item, hitem, h⟩ := Option.bind_eq_some_iff.mp h
      obtain ⟨rest, hrest, h⟩ := Option.bind_eq_some_iff.mp h
      obtain rfl : item :: rest = items := Option.some.inj h
      rw [List.map_cons, OrderItem.cast_eq_some_iff.mp hitem, ih.mp hrest]
    · intro h
      obtain ⟨item, rest, rfl, hitem, hrest⟩ := List.map_eq_cons_iff.mp h
      rw [OrderItem.cast_eq_some_iff.mpr hitem, Option.bind_eq_bind, Option.bind_some,
        ih.mpr hrest]
      rfl

/-- The body under the type `CreateOrderInput`, where this type is true of it. -/
def CreateOrderInput.cast (body : Body) : Option CreateOrderInput :=
  match hcustomer : body.json.get? (js "customerId"), hitems : body.json.get? (js "items"),
    htotal : body.json.get? (js "totalAmount") with
  | some (.str customerId), some (.arr vs), some (.num totalAmount) =>
    match hcast : castItems vs with
    | some items => some
      { json := body.json
        customerId := customerId
        items := items
        totalAmount := totalAmount
        customerId_eq := hcustomer
        items_eq := by rw [castItems_eq_some_iff.mp hcast]; exact hitems
        totalAmount_eq := htotal
        distinct := body.distinct }
    | none => none
  | _, _, _ => none

/-- What the schema asks of an item. -/
structure OrderItem.Valid (item : OrderItem) : Prop where
  sku_ne_nil : item.sku ≠ []
  qty_eq : ∃ n : ℤ, item.qty = .finite n ∧ 1 ≤ n

/-- What the schema asks of a body. -/
structure CreateOrderInput.Valid (payload : CreateOrderInput) : Prop where
  customerId_ne_nil : payload.customerId ≠ []
  items_ne_nil : payload.items ≠ []
  items_valid : ∀ item ∈ payload.items, item.Valid
  totalAmount_eq : ∃ q, payload.totalAmount = .finite q ∧ 0 < q

section Cast

variable {isDateTime : JsString → Bool} {body : Body}

theorem exists_item {v : Json} (hv : v.distinctKeys = true)
    (h : (Schema.object [js "sku", js "qty"]
      [(js "sku", .string 1), (js "qty", .integer 1)]).accepts isDateTime v = true) :
    ∃ item : OrderItem, item.json = v ∧ item.Valid := by
  obtain ⟨w, hsku, hstring⟩ :=
    Schema.exists_property h List.mem_cons_self List.mem_cons_self
  obtain ⟨w', hqty, hinteger⟩ := Schema.exists_property h
    (List.mem_cons_of_mem _ List.mem_cons_self) (List.mem_cons_of_mem _ List.mem_cons_self)
  obtain ⟨sku, rfl, hlength⟩ := Schema.accepts_string_iff.mp hstring
  obtain ⟨n, rfl, hmin⟩ := Schema.accepts_integer_iff.mp hinteger
  exact ⟨⟨v, sku, .finite n, hsku, hqty, hv⟩, rfl, one_le_ucs2length.mp hlength, n, rfl, hmin⟩

/-- The items that an array of accepted items holds. -/
theorem exists_items {vs : List Json} (hdistinct : ∀ v ∈ vs, v.distinctKeys = true)
    (h : ∀ v ∈ vs, (Schema.object [js "sku", js "qty"]
      [(js "sku", .string 1), (js "qty", .integer 1)]).accepts isDateTime v = true) :
    ∃ items : List OrderItem, items.map (·.json) = vs ∧ ∀ item ∈ items, item.Valid := by
  induction vs with
  | nil => exact ⟨[], rfl, by simp⟩
  | cons v vs ih =>
    obtain ⟨hv, hvs⟩ := List.forall_mem_cons.mp h
    obtain ⟨hdv, hdvs⟩ := List.forall_mem_cons.mp hdistinct
    obtain ⟨item, rfl, hitem⟩ := exists_item hdv hv
    obtain ⟨items, rfl, hitems⟩ := ih hdvs hvs
    exact ⟨item :: items, rfl, List.forall_mem_cons.mpr ⟨hitem, hitems⟩⟩

theorem CreateOrderInput.cast_eq {customerId : JsString} {items : List OrderItem}
    {totalAmount : JsNumber}
    (hcustomer : body.json.get? (js "customerId") = some (.str customerId))
    (hitems : body.json.get? (js "items") = some (.arr (items.map (·.json))))
    (htotal : body.json.get? (js "totalAmount") = some (.num totalAmount)) :
    CreateOrderInput.cast body = some
      { json := body.json
        customerId := customerId
        items := items
        totalAmount := totalAmount
        customerId_eq := hcustomer
        items_eq := hitems
        totalAmount_eq := htotal
        distinct := body.distinct } := by
  rw [CreateOrderInput.cast]
  split
  · next customerId' vs totalAmount' hcustomer' hitems' htotal' =>
    obtain rfl : customerId' = customerId := by simpa using hcustomer'.symm.trans hcustomer
    obtain rfl : vs = items.map (·.json) := by simpa using hitems'.symm.trans hitems
    obtain rfl : totalAmount' = totalAmount := by simpa using htotal'.symm.trans htotal
    split
    · next items' hcast =>
      obtain rfl : items' = items :=
        Option.some.inj (hcast.symm.trans (castItems_eq_some_iff.mpr rfl))
      rfl
    · next hcast => simp [castItems_eq_some_iff.mpr (rfl : items.map (·.json) = _)] at hcast
  · next hnot => exact absurd htotal (hnot _ _ _ hcustomer hitems)

/-- **The declared type of a create body is true of every body that the schema accepts.** -/
theorem CreateOrderInput.exists_cast
    (h : createOrderBodySchema.accepts isDateTime body.json = true) :
    ∃ payload, CreateOrderInput.cast body = some payload ∧ payload.Valid := by
  obtain ⟨w, hcustomer, hstring⟩ := Schema.exists_property h List.mem_cons_self List.mem_cons_self
  obtain ⟨w', hitems, harray⟩ := Schema.exists_property h
    (List.mem_cons_of_mem _ List.mem_cons_self)
    (List.mem_cons_of_mem _ (List.mem_cons_of_mem _ List.mem_cons_self))
  obtain ⟨w'', htotal, hnumber⟩ := Schema.exists_property h
    (List.mem_cons_of_mem _ (List.mem_cons_of_mem _ List.mem_cons_self))
    (List.mem_cons_of_mem _ List.mem_cons_self)
  obtain ⟨customerId, rfl, hlength⟩ := Schema.accepts_string_iff.mp hstring
  obtain ⟨vs, rfl, hnonempty, haccepts⟩ := Schema.accepts_array_iff.mp harray
  obtain ⟨q, rfl, hq⟩ := Schema.accepts_number_iff.mp hnumber
  have hdistinct := Json.distinctKeysItems_iff.mp (Json.distinctKeys_of_get? body.distinct hitems)
  obtain ⟨items, rfl, hvalid⟩ := exists_items hdistinct haccepts
  refine ⟨_, CreateOrderInput.cast_eq hcustomer hitems htotal, one_le_ucs2length.mp hlength, ?_,
    hvalid, q, rfl, hq⟩
  rintro rfl
  simp at hnonempty

end Cast

/-- The body of a status update: the status is one that the route knows. -/
structure StatusUpdateBody where
  status : OrderStatus
  atTime : String

/-- The status with that text, of those that a body may name. -/
def OrderStatus.ofText (s : JsString) : Option OrderStatus :=
  if s = js "SHIPPED" then some .shipped else if s = js "DELIVERED" then some .delivered else none

/-- The body under the type that the route declares, where this type is true of it. -/
def StatusUpdateBody.cast (body : Body) : Option StatusUpdateBody :=
  match body.json.get? (js "status"), body.json.get? (js "at") with
  | some (.str status), some (.str atTime) =>
    (OrderStatus.ofText status).map fun status => { status := status, atTime := text atTime }
  | _, _ => none

/-- The declared type of a status body is true of every body that the schema accepts. -/
theorem StatusUpdateBody.exists_cast {isDateTime : JsString → Bool} {body : Body}
    (h : statusUpdateBodySchema.accepts isDateTime body.json = true) :
    ∃ update, StatusUpdateBody.cast body = some update ∧ update.status ≠ .pendingShipment := by
  obtain ⟨w, hstatus, henum⟩ := Schema.exists_property h List.mem_cons_self List.mem_cons_self
  obtain ⟨w', hat, hdateTime⟩ := Schema.exists_property h
    (List.mem_cons_of_mem _ List.mem_cons_self) (List.mem_cons_of_mem _ List.mem_cons_self)
  obtain ⟨status, hmem, rfl⟩ := Schema.accepts_enum_iff.mp henum
  obtain ⟨atTime, rfl, -⟩ := Schema.accepts_dateTime_iff.mp hdateTime
  simp only [List.mem_cons, List.not_mem_nil, or_false] at hmem
  rcases hmem with rfl | rfl
  · exact ⟨⟨.shipped, text atTime⟩, by simp only [cast, hstatus, hat]; rfl, by simp⟩
  · exact ⟨⟨.delivered, text atTime⟩, by simp only [cast, hstatus, hat]; rfl, by simp⟩

/-! ### Responses -/

/-- A string of a response; the text of a number is left to the platform. -/
inductive ShownText
  | text (s : JsString)
  | numeral (q : ℚ)
  /-- The parts, separated by commas. -/
  | joined (parts : List ShownText)

mutual

/-- A value where the schema declares a string: `null` is shown as the empty string, and any other
value by its `toString`, which is none where an object has a property of this name. -/
def Json.shown : Json → Option ShownText
  | .null => some (.text [])
  | .bool b => some (.text (js (if b then "true" else "false")))
  | .num (.finite q) => some (.numeral q)
  | .num (.infinity negative) => some (.text (js (if negative then "-Infinity" else "Infinity")))
  | .num .nan => some (.text (js "NaN"))
  | .str s => some (.text s)
  | .arr items => (shownItems items).map .joined
  | .obj entries =>
    if (entries.lookup (js "toString")).isSome then none
    else some (.text (js "[object Object]"))

/-- The items of an array, each as a part of the text. -/
def Json.shownItems : List Json → Option (List ShownText)
  | [] => some []
  | v :: items => v.shown.bind fun part => (shownItems items).map (part :: ·)

end

/-- The shipment of an `OrderView`; a property that is not there is not shown. -/
structure ShipmentView where
  shipmentId : Option ShownText
  state : Option ShownText
  requestedAt : String

/-- The response schema, applied to the metadata of a shipment; `none` where this throws. -/
def ShipmentMetadata.view (metadata : ShipmentMetadata) : Option ShipmentView :=
  (metadata.shipmentId.mapM Json.shown).bind fun shipmentId =>
    (metadata.state.mapM Json.shown).map fun state =>
      { shipmentId := shipmentId, state := state, requestedAt := metadata.requestedAt }

/-- Without an identifier in Delivery's answer, an empty one is shown. -/
example (requestedAt : String) : (ShipmentMetadata.stored ⟨none, none, requestedAt⟩).view
    = some ⟨some (.text []), some (.text []), requestedAt⟩ := rfl

/-- What `GET /orders/:orderId` shows of an order: the properties that its response schema names. -/
structure OrderView where
  id : String
  customerId : JsString
  items : List (JsString × JsNumber)
  totalAmount : JsNumber
  status : String
  requestId : String
  payloadHash : JsString
  createdAt : String
  updatedAt : String
  version : ℕ
  statusHistory : List StatusEvent
  shipment : Option ShipmentView

/-- The response schema, applied to a stored order; `none` where this throws. -/
def OrderRecord.view (order : OrderRecord) : Option OrderView :=
  (order.shipment.mapM ShipmentMetadata.view).map fun shipment =>
    { id := order.id
      customerId := order.customerId
      items := order.items.map OrderItem.line
      totalAmount := order.totalAmount
      status := order.status.text
      requestId := order.requestId
      payloadHash := order.payloadHash
      createdAt := order.createdAt
      updatedAt := order.updatedAt
      version := order.version
      statusHistory := order.statusHistory
      shipment := shipment }

/-- The body of a response. -/
inductive ResponseBody
  /-- `{ orderId, status }`. -/
  | order (orderId status : String)
  | view (order : OrderView)
  /-- `{ accepted: true }`. -/
  | accepted
  /-- `{ accepted: false, duplicate: true }`. -/
  | duplicate
  | messages (messages : List (QueueMessage Payload))
  /-- The messages of a debug route that processes a queue, each with its `processedAt`. -/
  | processed (messages : List (QueueMessage Payload × String))
  /-- `{ cleared: true }`. -/
  | cleared
  /-- An HTTP error; of an error with `details`, only the message is shown. -/
  | error (message : String)
  /-- The framework's answer to a body it does not read and to one that violates the schema. -/
  | invalid
  | tooManyRequests (body : TooManyRequests)
  /-- The framework's answer to an error that no handler has translated. -/
  | internal (error : ServiceError)
  /-- The framework's answer where the response schema cannot be applied. -/
  | unserializable

/-- A response of the server. -/
structure Response where
  statusCode : ℕ
  body : ResponseBody

/-- The `statusCode` of an error, where it is that of an error response. Of the errors that handlers
do not translate, only a `DeliveryHttpError` has one. -/
def ServiceError.statusCode : ServiceError → ℕ
  | .delivery (.http statusCode) =>
    if 400 ≤ statusCode && statusCode ≤ 599 then statusCode else 500
  | _ => 500

theorem ServiceError.le_statusCode (error : ServiceError) : 400 ≤ error.statusCode := by
  unfold ServiceError.statusCode
  split
  · split
    · next h => exact of_decide_eq_true (Bool.and_eq_true_iff.mp h).1
    · decide
  · decide

/-- The framework's answer to an error that a handler has rethrown. -/
def ServiceError.response (error : ServiceError) : Response := ⟨error.statusCode, .internal error⟩

/-- The end of the handler of `POST /orders`. -/
def createOrderResponse : Except ServiceError CreateOrderResult → Response
  | .ok result =>
    ⟨if result.created then 201 else 200, .order result.order.id result.order.status.text⟩
  | .error (.idempotencyConflict message) => ⟨409, .error message⟩
  | .error (.productUnavailable message _) => ⟨409, .error message⟩
  | .error error => error.response

/-- The message of an `OrderNotFoundError`. -/
def notFoundMessage (orderId : String) : String := "Order " ++ orderId ++ " not found"

/-- The handler of `GET /orders/:orderId`, given the result of `getOrder`. -/
def getOrderResponse : Except ServiceError OrderRecord → Response
  | .ok order =>
    match order.view with
    | some view => ⟨200, .view view⟩
    | none => ⟨500, .unserializable⟩
  | .error (.orderNotFound orderId) => ⟨404, .error (notFoundMessage orderId)⟩
  | .error error => error.response

/-- The answers of the status route. -/
def Reply.response : Reply → Response
  | .accepted => ⟨202, .accepted⟩
  | .duplicate => ⟨200, .duplicate⟩
  | .badRequest message => ⟨400, .error message⟩
  | .notFound orderId => ⟨404, .error (notFoundMessage orderId)⟩
  | .conflict message => ⟨409, .error message⟩
  | .rethrown error => error.response

end OrderProcessing
