import OrderProcessing.Server

/-!
# What reaches the service

The checks in front of the two POST routes, read as one: the schema of the headers and `trim`, the
schema of the body and the type that the handler declares for it, and for a status update the format
of its timestamp and `Date.parse`. A request passes them exactly if its body is that of a valid
payload and its key is not blank; then the service is called with this payload and with the trimmed
key. Every other request changes nothing: it is answered 429 before its body is read, 413 or 415 if
the body is not read, and 400 otherwise.

## Main definitions

* `HasKey`, `StatusUpdateBody.IsOf` — what a request says, without schemas
* `Server.Validates`

## Main results

* `CreateOrderInput.accepts_iff`, `StatusUpdateBody.accepts_iff` — the schemas accept the bodies of
  valid payloads, and no others
* `Server.validates`
-/

namespace OrderProcessing

variable {isDateTime : JsString → Bool}

/-! ### Headers -/

/-- The key of a request, if it is not blank. -/
def HasKey (headers : Json) (key : String) : Prop :=
  ∃ value, headers.get? (js "idempotency-key") = some (.str value) ∧ trim value ≠ [] ∧
    key = text (trim value)

/-- A value that has a property is an object. -/
theorem Json.exists_obj_of_get? {v w : Json} {key : JsString} (h : v.get? key = some w) :
    ∃ entries, v = .obj entries := by
  cases v with
  | obj entries => exact ⟨entries, rfl⟩
  | _ => simp [Json.get?] at h

theorem hasKey_iff (isDateTime : JsString → Bool) {headers : Json} {key : String} :
    HasKey headers key ↔ idempotencyHeaderSchema.accepts isDateTime headers = true ∧
      acceptedKey headers = some key := by
  constructor
  · rintro ⟨value, hvalue, htrim, rfl⟩
    have hne : value ≠ [] := by
      rintro rfl
      exact htrim rfl
    constructor
    · refine Schema.accepts_object_iff.mpr ⟨Json.exists_obj_of_get? hvalue, ?_, ?_⟩
      · exact List.forall_mem_singleton.mpr ⟨_, hvalue⟩
      · refine List.forall_mem_singleton.mpr fun w hw => ?_
        rw [← Option.some.inj (hvalue.symm.trans hw)]
        exact Schema.accepts_string_iff.mpr ⟨value, rfl, one_le_ucs2length.mpr hne⟩
    · simp only [acceptedKey, extractIdempotencyKey, hvalue, Option.bind_some]
      exact if_neg htrim
  · rintro ⟨hheaders, hkey⟩
    exact exists_of_acceptedKey hheaders hkey

/-! ### Bodies -/

theorem OrderItem.accepts {item : OrderItem} (h : item.Valid) :
    (Schema.object [js "sku", js "qty"] [(js "sku", .string 1), (js "qty", .integer 1)]).accepts
      isDateTime item.json = true := by
  obtain ⟨n, hqty, hn⟩ := h.qty_eq
  refine Schema.accepts_object_iff.mpr ⟨Json.exists_obj_of_get? item.sku_eq, ?_, ?_⟩
  · simp [item.sku_eq, item.qty_eq]
  · simp only [List.forall_mem_cons, List.not_mem_nil, false_implies, implies_true, and_true,
      item.sku_eq, item.qty_eq, Option.some.injEq, forall_eq']
    exact ⟨Schema.accepts_string_iff.mpr ⟨_, rfl, one_le_ucs2length.mpr h.sku_ne_nil⟩,
      Schema.accepts_integer_iff.mpr ⟨n, by rw [hqty], hn⟩⟩

/-- A payload is what its JSON is cast to. -/
theorem CreateOrderInput.cast_eq_some_iff {body : Body} {payload : CreateOrderInput} :
    CreateOrderInput.cast body = some payload ↔ payload.json = body.json := by
  constructor
  · intro h
    rw [CreateOrderInput.cast] at h
    split at h
    · split at h
      · exact congrArg CreateOrderInput.json (Option.some.inj h).symm
      · simp at h
    · simp at h
  · obtain ⟨json, customerId, items, totalAmount, hcustomer, hitems, htotal, hdistinct⟩ := payload
    rintro rfl
    exact CreateOrderInput.cast_eq hcustomer hitems htotal

/-- **The schema accepts the bodies of valid payloads, and no others.** -/
theorem CreateOrderInput.accepts_iff {body : Body} :
    createOrderBodySchema.accepts isDateTime body.json = true ↔
      ∃ payload : CreateOrderInput, payload.json = body.json ∧ payload.Valid := by
  constructor
  · intro h
    obtain ⟨payload, hcast, hvalid⟩ := CreateOrderInput.exists_cast h
    exact ⟨payload, cast_eq_some_iff.mp hcast, hvalid⟩
  · rintro ⟨payload, hjson, hvalid⟩
    rw [← hjson]
    obtain ⟨q, htotal, hq⟩ := hvalid.totalAmount_eq
    refine Schema.accepts_object_iff.mpr ⟨Json.exists_obj_of_get? payload.customerId_eq, ?_, ?_⟩
    · simp [payload.customerId_eq, payload.items_eq, payload.totalAmount_eq]
    · simp only [List.forall_mem_cons, List.not_mem_nil, false_implies, implies_true, and_true,
        payload.customerId_eq, payload.items_eq, payload.totalAmount_eq, Option.some.injEq,
        forall_eq']
      refine ⟨Schema.accepts_string_iff.mpr
          ⟨_, rfl, one_le_ucs2length.mpr hvalid.customerId_ne_nil⟩,
        Schema.accepts_number_iff.mpr ⟨q, by rw [htotal], hq⟩,
        Schema.accepts_array_iff.mpr ⟨_, rfl, ?_, ?_⟩⟩
      · rw [List.length_map]
        exact List.length_pos_iff.mpr hvalid.items_ne_nil
      · rintro w hw
        obtain ⟨item, hitem, rfl⟩ := List.mem_map.mp hw
        exact OrderItem.accepts (hvalid.items_valid item hitem)

/-- What a status body says. -/
def StatusUpdateBody.IsOf (isDateTime : JsString → Bool) (json : Json) (update : StatusUpdateBody) :
    Prop :=
  ∃ status atTime, json.get? (js "status") = some (.str status) ∧
    json.get? (js "at") = some (.str atTime) ∧ isDateTime atTime = true ∧
    OrderStatus.ofText status = some update.status ∧ update.atTime = text atTime

theorem OrderStatus.mem_of_ofText {s : JsString} {status : OrderStatus}
    (h : OrderStatus.ofText s = some status) : s ∈ [js "SHIPPED", js "DELIVERED"] := by
  rw [OrderStatus.ofText] at h
  split at h
  · next heq => exact heq ▸ List.mem_cons_self
  · split at h
    · next heq => exact heq ▸ List.mem_cons_of_mem _ List.mem_cons_self
    · simp at h

theorem StatusUpdateBody.accepts_iff {body : Body} {update : StatusUpdateBody} :
    statusUpdateBodySchema.accepts isDateTime body.json = true ∧
        StatusUpdateBody.cast body = some update ↔
      StatusUpdateBody.IsOf isDateTime body.json update := by
  constructor
  · rintro ⟨haccepts, hcast⟩
    obtain ⟨w, hat, hdateTime⟩ := Schema.exists_property haccepts
      (List.mem_cons_of_mem _ List.mem_cons_self) (List.mem_cons_of_mem _ List.mem_cons_self)
    obtain ⟨atTime, rfl, hformat⟩ := Schema.accepts_dateTime_iff.mp hdateTime
    rw [cast] at hcast
    split at hcast
    · next status atTime' hstatus hat' =>
      obtain ⟨named, hnamed, rfl⟩ := Option.map_eq_some_iff.mp hcast
      obtain rfl : atTime = atTime' := by simpa using hat.symm.trans hat'
      exact ⟨status, atTime, hstatus, hat, hformat, hnamed, rfl⟩
    · simp at hcast
  · rintro ⟨status, atTime, hstatus, hat, hformat, hnamed, htext⟩
    constructor
    · refine Schema.accepts_object_iff.mpr ⟨Json.exists_obj_of_get? hstatus, ?_, ?_⟩
      · simp [hstatus, hat]
      · simp only [List.forall_mem_cons, List.not_mem_nil, false_implies, implies_true, and_true,
          hstatus, hat, Option.some.injEq, forall_eq']
        exact ⟨Schema.accepts_enum_iff.mpr ⟨status, OrderStatus.mem_of_ofText hnamed, rfl⟩,
          Schema.accepts_dateTime_iff.mpr ⟨atTime, rfl, hformat⟩⟩
    · simp only [cast, hstatus, hat, hnamed, Option.map_some, ← htext]

/-! ### Requests -/

namespace Server

variable {S : Setup} {w : System.World} {exceeded : Option ℚ} {headers : Json} {body : Incoming}
  {key : String}

theorem validate_eq_ok_iff {schema : Schema} {b : Body} :
    validate S schema headers body = .ok (b, key) ↔
      body = .parsed b ∧ schema.accepts S.isDateTime b.json = true ∧ HasKey headers key := by
  rw [hasKey_iff S.isDateTime]
  constructor
  · exact of_validate
  · rintro ⟨rfl, hbody, hheaders, hkey⟩
    simp [validate, hbody, hheaders, hkey]

theorem statusCode_of_limited {tier : Tier} {response : Response}
    (h : limited S tier exceeded = some response) : response.statusCode = 429 := by
  rw [limited] at h
  split at h
  · obtain ⟨ttl, -, rfl⟩ := Option.map_eq_some_iff.mp h
    rfl
  · simp at h

/-- The request is for the creation of this order, and within its limit. -/
structure AsksToCreate (S : Setup) (exceeded : Option ℚ) (headers : Json) (body : Incoming)
    (payload : CreateOrderInput) (key : String) : Prop where
  within : limited S .orderCreate exceeded = none
  body : ∃ b, body = .parsed b ∧ payload.json = b.json
  valid : payload.Valid
  key : HasKey headers key

/-- The request is for this update, at a time that can be parsed, and within its limit. -/
structure AsksToUpdate (S : Setup) (exceeded : Option ℚ) (headers : Json) (body : Incoming)
    (update : StatusUpdateBody) (key : String) : Prop where
  within : limited S .orderStatus exceeded = none
  body : ∃ b, body = .parsed b ∧ StatusUpdateBody.IsOf S.isDateTime b.json update
  parsed : (S.platform.toISOString update.atTime).isSome = true
  key : HasKey headers key

/-- The request changes nothing, and is answered 429 if it exceeds its limit, 413 if its body is too
large, 415 if its media type is unknown, and 400 otherwise. -/
def Rejects (S : Setup) (w : System.World) (route : Route) (body : Incoming)
    (exceeded : Option ℚ) : Prop :=
  ∃ job response, start S w (.http exceeded route) = some (w, job) ∧
    job.response = some response ∧ response.statusCode = if (limited S route.tier exceeded).isSome
      then 429 else body.refusal

/-- Which requests reach the service, and with which arguments. -/
structure Validates (S : Setup) (w : System.World) : Prop where
  creates : ∀ {exceeded headers body payload key},
    AsksToCreate S exceeded headers body payload key →
    start S w (.http exceeded (.createOrder headers body))
      = some (w, .post (.postOrder ⟨payload, key, .lookup⟩))
  rejectsCreate : ∀ {exceeded headers body},
    (∀ payload key, ¬ AsksToCreate S exceeded headers body payload key) →
    Rejects S w (.createOrder headers body) body exceeded
  updates : ∀ {exceeded orderId headers body update key},
    AsksToUpdate S exceeded headers body update key →
    start S w (.http exceeded (.updateStatus orderId headers body)) = some (w, .post
      (.postStatus (some ⟨orderId, ⟨update.status, update.atTime, key⟩, .lookup⟩) none))
  rejectsUpdate : ∀ {exceeded orderId headers body},
    (∀ update key, ¬ AsksToUpdate S exceeded headers body update key) →
    Rejects S w (.updateStatus orderId headers body) body exceeded

theorem start_of_asksToCreate {payload : CreateOrderInput}
    (h : AsksToCreate S exceeded headers body payload key) :
    start S w (.http exceeded (.createOrder headers body))
      = some (w, .post (.postOrder ⟨payload, key, .lookup⟩)) := by
  obtain ⟨hwithin, ⟨b, rfl, hjson⟩, hvalid, hkey⟩ := h
  have hvalidate : validate S createOrderBodySchema headers (.parsed b) = .ok (b, key) :=
    validate_eq_ok_iff.mpr ⟨rfl, CreateOrderInput.accepts_iff.mpr ⟨payload, hjson, hvalid⟩, hkey⟩
  simp only [start, Route.tier, hwithin, serve, hvalidate,
    CreateOrderInput.cast_eq_some_iff.mpr hjson]
  rfl

theorem rejects_of_not_asksToCreate
    (h : ∀ payload key, ¬ AsksToCreate S exceeded headers body payload key) :
    Rejects S w (.createOrder headers body) body exceeded := by
  rw [Rejects, Route.tier, start, Route.tier]
  cases hlimited : limited S .orderCreate exceeded with
  | some response => exact ⟨_, response, rfl, rfl, statusCode_of_limited hlimited⟩
  | none =>
    cases hvalidate : validate S createOrderBodySchema headers body with
    | error response =>
      simp only [serve, hvalidate]
      exact ⟨_, response, rfl, rfl, statusCode_of_validate hvalidate⟩
    | ok r =>
      obtain ⟨hbody, haccepts, hkey⟩ := validate_eq_ok_iff.mp hvalidate
      obtain ⟨payload, hjson, hvalid⟩ := CreateOrderInput.accepts_iff.mp haccepts
      exact absurd ⟨hlimited, ⟨r.1, hbody, hjson⟩, hvalid, hkey⟩ (h payload r.2)

theorem start_of_asksToUpdate {update : StatusUpdateBody} (orderId : String)
    (h : AsksToUpdate S exceeded headers body update key) :
    start S w (.http exceeded (.updateStatus orderId headers body)) = some (w, .post
      (.postStatus (some ⟨orderId, ⟨update.status, update.atTime, key⟩, .lookup⟩) none)) := by
  obtain ⟨hwithin, ⟨b, rfl, hsays⟩, hparsed, hkey⟩ := h
  obtain ⟨haccepts, hcast⟩ := StatusUpdateBody.accepts_iff.mpr hsays
  have hvalidate : validate S statusUpdateBodySchema headers (.parsed b) = .ok (b, key) :=
    validate_eq_ok_iff.mpr ⟨rfl, haccepts, hkey⟩
  obtain ⟨canonical, hcanonical⟩ := Option.isSome_iff_exists.mp hparsed
  simp only [start, Route.tier, hwithin, serve, hvalidate, hcast, startTask, System.start,
    hcanonical]
  rfl

theorem rejects_of_not_asksToUpdate (orderId : String)
    (h : ∀ update key, ¬ AsksToUpdate S exceeded headers body update key) :
    Rejects S w (.updateStatus orderId headers body) body exceeded := by
  rw [Rejects, Route.tier, start, Route.tier]
  cases hlimited : limited S .orderStatus exceeded with
  | some response => exact ⟨_, response, rfl, rfl, statusCode_of_limited hlimited⟩
  | none =>
    cases hvalidate : validate S statusUpdateBodySchema headers body with
    | error response =>
      simp only [serve, hvalidate]
      exact ⟨_, response, rfl, rfl, statusCode_of_validate hvalidate⟩
    | ok r =>
      obtain ⟨hbody, haccepts, hkey⟩ := validate_eq_ok_iff.mp hvalidate
      obtain ⟨update, hcast, -⟩ := StatusUpdateBody.exists_cast haccepts
      have hsays := StatusUpdateBody.accepts_iff.mp ⟨haccepts, hcast⟩
      cases hcanonical : S.platform.toISOString update.atTime with
      | none =>
        simp only [serve, hvalidate, hcast, startTask, System.start, hcanonical]
        exact ⟨_, _, rfl, rfl, congrArg Incoming.refusal hbody.symm⟩
      | some canonical =>
        have hparsed : (S.platform.toISOString update.atTime).isSome = true := by
          rw [hcanonical]
          rfl
        exact absurd ⟨hlimited, ⟨r.1, hbody, hsays⟩, hparsed, hkey⟩ (h update r.2)

end Server

end OrderProcessing
