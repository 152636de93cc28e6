import OrderProcessing.KeyOrder
import OrderProcessing.Reference
import Mathlib.Data.Set.List

/-!
# Concurrent `createOrder` calls with one idempotency key

`createOrder` looks the key up, and inserts later. The unique index keeps a second insert out, but
the call that loses this race ends with the error of the index: it does not look the key up again,
as `applyStatusUpdate` does after a lost race. So concurrent calls behave like calls made one after
another exactly when no call looks the key up while another one is about to insert.

## Equal and different requests

The service compares hashes; what a client sees is bodies. A call whose body is that of the creator,
up to an order of properties that the serialization ignores, returns the stored order. A call whose
body differs in more than the order of properties raises the conflict. In between are the bodies in
which tied keys have changed places, and those in which a number that is not finite stands for a
`null`: such a call ends in one of the two ways.

## Main definitions

* `CreateOrder.Sequentially` — calls made one after another
* `CreateOrder.SamePayload`, `CreateOrder.OtherPayload`, `CreateOrder.Follows` — how a call ends by
  its body, after another one has created the order
* `Service.Competes` — the runs that the result is about
* `Service.Idempotent` — what such a run should lead to
* `Service.LooksUpAlone` — no lookup while another call is about to insert

## Main results

* `Service.idempotent_iff_looksUpAlone`
-/

namespace OrderProcessing

open OrderRepository

/-! ### Calls made one after another -/

namespace CreateOrder

/-- One step of a call that runs alone. -/
def alone (P : Platform) (s : Collection × CreateOrder) (input : Input) :
    Option (Collection × CreateOrder) :=
  (s.2.step P s.1 input).map fun r => (r.orders, r.call)

/-- The calls are made in this order, each after the end of the one before. They end as given, and
lead from the first collection to the second. -/
inductive Sequentially (P : Platform) : Collection → List CreateOrder → Collection → Prop
  | nil (c : Collection) : Sequentially P c [] c
  | cons {c c' c'' : Collection} {call : CreateOrder} {calls : List CreateOrder}
      {inputs : List Input} : (∀ input ∈ inputs, input.succeeds = true) →
      Run.run (alone P) (c, { call with pc := .lookup }) inputs = some (c', call) →
      call.completed = true → Sequentially P c' calls c'' → Sequentially P c (call :: calls) c''

/-- The outcome of a call that finds `order` under its key. -/
def replay (P : Platform) (order : OrderRecord) (payload : CreateOrderInput) :
    Except ServiceError CreateOrderResult :=
  if order.payloadHash ≠ hashPayload P payload.json then
    .error (.idempotencyConflict "Payload mismatch for provided Idempotency-Key")
  else .ok { order := order, created := false }

/-- The bodies are one, or they differ in the order of properties alone, and none of these are tied.
-/
def SamePayload (P : Platform) (call call' : CreateOrder) : Prop :=
  call.payload.json = call'.payload.json ∨
    (Json.Reordered call.payload.json call'.payload.json ∧ call.payload.json.tieFree P = true ∧
      call.payload.json.listed = true ∧ call'.payload.json.listed = true)

/-- The bodies differ in more than the order of properties, a number that is not finite counting as
the `null` that JSON has for it. -/
def OtherPayload (call call' : CreateOrder) : Prop :=
  ¬ Json.Same call.payload.json call'.payload.json

/-- How a call ends after `creator` has stored `order` under its key: it returns the order or raises
the conflict, by its body. -/
structure Follows (P : Platform) (creator : CreateOrder) (order : OrderRecord)
    (call : CreateOrder) : Prop where
  replays : SamePayload P creator call →
    call.pc = .returned (.ok { order := order, created := false })
  conflicts : OtherPayload creator call →
    ∃ message, call.pc = .returned (.error (.idempotencyConflict message))
  either : call.pc = .returned (.ok { order := order, created := false }) ∨
    ∃ message, call.pc = .returned (.error (.idempotencyConflict message))

variable {P : Platform} {c c' : Collection} {call : CreateOrder} {order : OrderRecord}

theorem afterLookup_some (call : CreateOrder) (order : OrderRecord) :
    call.afterLookup P (some order) = call.finish (replay P order call.payload) := by
  rw [afterLookup, replay]
  split <;> rfl

theorem afterLookup_none (call : CreateOrder)
    (havail : (checkAvailability call.payload.items).available = true) :
    call.afterLookup P none = { call with pc := .insert (hashPayload P call.payload.json) } := by
  simp [afterLookup, havail]

/-- A call that runs alone and finds its key replays. -/
theorem alone_replay (hfind : findByRequestId c call.idempotencyKey = some order)
    (hpc : call.pc = .returned (replay P order call.payload)) :
    Run.run (alone P) (c, { call with pc := .lookup }) [.find .ok] = some (c, call) := by
  have hlookup := afterLookup_some (P := P) { call with pc := .lookup } order
  have hcall : call = { call with pc := .returned (replay P order call.payload) } := by rw [← hpc]
  simp only [Run.run, alone, step, hfind, hlookup, Option.map_some, Option.bind_some]
  exact congrArg some (congrArg (Prod.mk c) hcall.symm)

/-- A call that runs alone, misses its key and may insert creates the order. -/
theorem alone_create {uuid now : String} (sentAt : String)
    (hfind : findByRequestId c call.idempotencyKey = none)
    (havail : (checkAvailability call.payload.items).available = true)
    (horder : order
      = newOrder call.payload call.idempotencyKey (hashPayload P call.payload.json) uuid now)
    (hcreate : create c order = some c')
    (hpc : call.pc = .returned (.ok { order := order, created := true })) :
    Run.run (alone P) (c, { call with pc := .lookup })
      [.find .ok, .insertOne uuid now .ok, .sendMessage true sentAt] = some (c', call) := by
  have hlookup := afterLookup_none (P := P) { call with pc := .lookup } havail
  have hcall : call = { call with pc := .returned (.ok { order := order, created := true }) } := by
    rw [← hpc]
  simp only [Run.run, alone, step, hfind, hlookup, afterInsert, ← horder, hcreate, Option.map_some,
    Option.bind_some]
  exact congrArg some (congrArg (Prod.mk c') hcall.symm)

/-! ### Bodies and their hashes -/

theorem replay_of_payloadHash_eq {payload : CreateOrderInput}
    (h : order.payloadHash = hashPayload P payload.json) :
    replay P order payload = .ok { order := order, created := false } := by
  rw [replay, if_neg (not_not.mpr h)]

theorem replay_of_payloadHash_ne {payload : CreateOrderInput}
    (h : order.payloadHash ≠ hashPayload P payload.json) : replay P order payload
      = .error (.idempotencyConflict "Payload mismatch for provided Idempotency-Key") := by
  rw [replay, if_pos h]

theorem SamePayload.hashPayload_eq {call' : CreateOrder} (hcmp : P.ConsistentCompare)
    (h : SamePayload P call call') :
    hashPayload P call.payload.json = hashPayload P call'.payload.json := by
  rcases h with heq | ⟨hreordered, htie, hlisted, hlisted'⟩
  · rw [heq]
  · exact congrArg P.sha256
      (stableSerialize_eq_of_reordered hcmp call.payload.distinct hlisted htie hlisted'
        hreordered).symm

/-- **Bodies that differ in more than the order of properties have different hashes.** -/
theorem OtherPayload.hashPayload_ne {call' : CreateOrder} (hsha : P.CollisionFree)
    (hP : P.NumbersReadable) (h : OtherPayload call call') :
    hashPayload P call.payload.json ≠ hashPayload P call'.payload.json := fun hhash =>
  h (same_of_stableSerialize_eq hP (stableSerialize_eq_of_hashPayload_eq hsha hP hhash))

/-- A call that replays an order follows the call that has created it. -/
theorem follows_of_replay {creator : CreateOrder} (hsha : P.CollisionFree) (hP : P.NumbersReadable)
    (hcmp : P.ConsistentCompare) (hhash : order.payloadHash = hashPayload P creator.payload.json)
    (hpc : call.pc = .returned (replay P order call.payload)) : Follows P creator order call where
  replays h := by
    rw [hpc, replay_of_payloadHash_eq (hhash.trans (h.hashPayload_eq hcmp))]
  conflicts h := by
    have hne : order.payloadHash ≠ hashPayload P call.payload.json :=
      hhash ▸ h.hashPayload_ne hsha hP
    exact ⟨_, hpc.trans (congrArg _ (replay_of_payloadHash_ne hne))⟩
  either := by
    by_cases h : order.payloadHash = hashPayload P call.payload.json
    · exact Or.inl (hpc.trans (congrArg _ (replay_of_payloadHash_eq h)))
    · exact Or.inr ⟨_, hpc.trans (congrArg _ (replay_of_payloadHash_ne h))⟩

/-- Calls that find their key run in any order, and change nothing. -/
theorem sequentially_replay (order : OrderRecord) {calls : List CreateOrder}
    (h : ∀ call ∈ calls, findByRequestId c call.idempotencyKey = some order ∧
      call.pc = .returned (replay P order call.payload)) : Sequentially P c calls c := by
  induction calls with
  | nil => exact .nil c
  | cons call calls ih =>
    obtain ⟨hfind, hpc⟩ := h call (List.mem_cons_self ..)
    have hinputs : ∀ input ∈ [Input.find .ok], input.succeeds = true := by
      simp [Input.succeeds, Input.databaseAnswers]
    refine .cons hinputs (alone_replay hfind hpc) (by simp [completed, hpc]) ?_
    exact ih fun call hcall => h call (List.mem_cons_of_mem _ hcall)

end CreateOrder

/-! ### Competing calls -/

/-- The call is between its lookup and its insert. -/
def Call.inserting : Call → Bool
  | .createOrder ⟨_, _, .insert _⟩ => true
  | _ => false

theorem Call.inserting_iff {call : CreateOrder} :
    (Call.createOrder call).inserting = true ↔ ∃ payloadHash, call.pc = .insert payloadHash := by
  obtain ⟨payload, key, pc⟩ := call
  cases pc <;> simp [inserting]

namespace Service

variable {P : Platform} {config : AppConfig} {c : Collection} {key : String}

/-- Only `createOrder` calls with one key and available items, no operation fails, and no stored
order has an id that `randomUUID` yields. -/
def Competes (c : Collection) (key : String) : Action → Prop
  | .invoke (.createOrder payload idempotencyKey) =>
    idempotencyKey = key ∧ (checkAvailability payload.items).available = true
  | .invoke _ => False
  | .resume _ input => input.succeeds = true ∧
    ∀ uuid now answer, input = .insertOne uuid now answer → findById c uuid = none

/-- No call looks the key up while another one is between its lookup and its insert. -/
def LooksUpAlone (s : State) : Action → Prop
  | .resume i (.find _) => ∀ call, s.activations[i]? = some (.createOrder call) →
      call.pc = .lookup → ∀ other ∈ s.activations, other.inserting = false
  | _ => True

/-- The calls end as if made one after another: one of them creates the order, the others return it
or raise the conflict, by their payload. -/
structure Idempotent (P : Platform) (c : Collection) (key : String) (s : State) : Prop where
  sequential : ∃ calls, (calls.map Call.createOrder).Perm s.activations ∧
    CreateOrder.Sequentially P c calls s.shared.orders
  outcomes : ∃ (order : OrderRecord) (i : ℕ) (creator : CreateOrder),
    findByRequestId s.shared.orders key = some order.stored ∧
    s.activations[i]? = some (Call.createOrder creator) ∧
    creator.pc = .returned (.ok { order := order, created := true }) ∧
    ∀ (j : ℕ) (k : Call), j ≠ i → s.activations[j]? = some k →
      ∃ call, k = .createOrder call ∧ CreateOrder.Follows P creator order.stored call
  noStorageError : ∀ call error, Call.createOrder call ∈ s.activations →
    call.pc = .returned (.error error) → error.isRawStorage = false

/-- A `createOrder` call of the race. -/
def Contends (key : String) (call : CreateOrder) : Prop :=
  call.idempotencyKey = key ∧ (checkAvailability call.payload.items).available = true

theorem act_createOrder {w w' : World} {call : CreateOrder} {k : Call} {input : Input}
    (h : act P config w (.createOrder call) input = some (w', k)) :
    ∃ r, CreateOrder.Steps P w.orders call input r ∧ w' = w.after r ∧ k = .createOrder r.call := by
  obtain ⟨r, hr, rfl, rfl⟩ := act_steps h
  cases hr with
  | createOrder hr => exact ⟨_, hr, rfl, rfl⟩

/-! ### Before and after the insert -/

/-- Nothing is stored under the key, and at most one call is about to insert. -/
structure Undecided (P : Platform) (c : Collection) (key : String) (s : State) : Prop where
  orders_eq : s.shared.orders = c
  calls : ∀ k ∈ s.activations, ∃ call, k = Call.createOrder call ∧ Contends key call ∧
    (call.pc = .lookup ∨ call.pc = .insert (hashPayload P call.payload.json))
  unique : ∀ (i j : ℕ) (k k' : Call), s.activations[i]? = some k → s.activations[j]? = some k' →
    k.inserting = true → k'.inserting = true → i = j

/-- Call `i` has inserted `order`; the others have not looked the key up, or have found what is
stored of it. -/
structure Decided (P : Platform) (c : Collection) (key : String) (order : OrderRecord) (i : ℕ)
    (s : State) : Prop where
  created : create c order = some s.shared.orders
  creator : ∃ call uuid now, s.activations[i]? = some (.createOrder call) ∧ Contends key call ∧
    order = newOrder call.payload key (hashPayload P call.payload.json) uuid now ∧
    (call.pc = .publish order ∨ call.pc = .returned (.ok { order := order, created := true }))
  others : ∀ (j : ℕ) (k : Call), j ≠ i → s.activations[j]? = some k →
    ∃ call, k = Call.createOrder call ∧ Contends key call ∧
    (call.pc = .lookup ∨ call.pc = .returned (CreateOrder.replay P order.stored call.payload))

variable {order : OrderRecord} {i : ℕ} {s t : State}

theorem Decided.requestId_eq (h : Decided P c key order i s) : order.requestId = key := by
  obtain ⟨call, uuid, now, -, -, rfl, -⟩ := h.creator
  rfl

theorem Decided.findByRequestId_eq (h : Decided P c key order i s) :
    findByRequestId s.shared.orders key = some order.stored :=
  findByRequestId_eq_some_iff.mpr ⟨(mem_create h.created).mpr (Or.inr rfl), h.requestId_eq⟩

theorem undecided_invoke {request : Request} (h : Undecided P c key s)
    (ha : Competes c key (.invoke request)) (hstep : step P config s (.invoke request) = some t) :
    Undecided P c key t := by
  obtain ⟨w, k, hstart, rfl⟩ := Interleave.step_invoke_eq_some.mp hstep
  obtain ⟨rfl, rfl⟩ := Prod.mk.inj (Option.some.inj hstart)
  cases request with
  | createOrder payload idempotencyKey =>
    refine ⟨h.orders_eq, ?_, ?_⟩
    · intro k hk
      rcases List.mem_append.mp hk with hk | hk
      · exact h.calls k hk
      · obtain rfl := List.mem_singleton.mp hk
        exact ⟨_, rfl, ha, Or.inl rfl⟩
    · intro i j k k' hi hj hki hkj
      have hold : ∀ (i : ℕ) (k : Call),
          (s.activations ++ [Request.call (.createOrder payload idempotencyKey)])[i]? = some k →
          k.inserting = true → s.activations[i]? = some k := by
        intro i k hi hk
        rcases Interleave.getElem?_append_cases hi with hi | ⟨-, rfl⟩
        · exact hi
        · simp [Call.inserting, Request.call] at hk
      exact h.unique i j k k' (hold i k hi hki) (hold j k' hj hkj) hki hkj
  | _ => exact absurd ha id

theorem decided_invoke {request : Request} (h : Decided P c key order i s)
    (ha : Competes c key (.invoke request)) (hstep : step P config s (.invoke request) = some t) :
    Decided P c key order i t := by
  obtain ⟨w, k, hstart, rfl⟩ := Interleave.step_invoke_eq_some.mp hstep
  obtain ⟨rfl, rfl⟩ := Prod.mk.inj (Option.some.inj hstart)
  cases request with
  | createOrder payload idempotencyKey =>
    obtain ⟨call, uuid, now, hi, hrest⟩ := h.creator
    refine ⟨h.created, ⟨call, uuid, now, Interleave.getElem?_append_of_some hi _, hrest⟩, ?_⟩
    intro j k hj hk
    rcases Interleave.getElem?_append_cases hk with hk | ⟨-, rfl⟩
    · exact h.others j k hj hk
    · exact ⟨_, rfl, ha, Or.inl rfl⟩
  | _ => exact absurd ha id

theorem undecided_resume {j : ℕ} {input : Input} (hkey : findByRequestId c key = none)
    (h : Undecided P c key s) (ha : Competes c key (.resume j input))
    (halone : LooksUpAlone s (.resume j input))
    (hstep : step P config s (.resume j input) = some t) :
    Undecided P c key t ∨ ∃ order, Decided P c key order j t := by
  obtain ⟨k, w, k', hk, hact, rfl⟩ := Interleave.step_resume_eq_some.mp hstep
  obtain ⟨call, rfl, hcont, hpc⟩ := h.calls k (List.mem_of_getElem? hk)
  obtain ⟨r, hr, rfl, rfl⟩ := act_createOrder hact
  rcases hpc with hpc | hpc
  · -- the key is missed, and this is now the only call about to insert
    left
    obtain ⟨rfl, rfl⟩ := hr.of_lookup hpc (Input.databaseAnswers_of_succeeds ha.1)
    have hmiss : call.afterLookup P (findByRequestId s.shared.orders call.idempotencyKey)
        = { call with pc := .insert (hashPayload P call.payload.json) } := by
      rw [h.orders_eq, show findByRequestId c call.idempotencyKey = none from hcont.1 ▸ hkey,
        CreateOrder.afterLookup_none call hcont.2]
    have hself : ∀ (i : ℕ) (k : Call), (s.activations.set j (Call.createOrder
        { call with pc := .insert (hashPayload P call.payload.json) }))[i]? = some k →
        k.inserting = true → j = i := by
      intro i k hi hins
      rcases Interleave.getElem?_set_cases hi with ⟨hij, -⟩ | ⟨-, hi⟩
      · exact hij.symm
      · rw [halone call hk hpc k (List.mem_of_getElem? hi)] at hins
        exact absurd hins Bool.false_ne_true
    rw [hmiss]
    refine ⟨h.orders_eq, ?_, ?_⟩
    · intro k hk'
      rcases List.mem_or_eq_of_mem_set hk' with hk' | rfl
      · exact h.calls k hk'
      · exact ⟨_, rfl, hcont, Or.inr rfl⟩
    · intro i₁ i₂ k₁ k₂ h₁ h₂ hk₁ hk₂
      rw [← hself i₁ k₁ h₁ hk₁, ← hself i₂ k₂ h₂ hk₂]
  · obtain ⟨uuid, now, order, rfl, horder, ⟨orders', hcreate, rfl⟩ | ⟨hcreate, -⟩⟩ :=
      hr.of_insert hpc (Input.databaseAnswers_of_succeeds ha.1)
    · -- the insert decides the race; by uniqueness no other call is about to insert
      right
      rw [h.orders_eq] at hcreate
      have hnew : order = newOrder call.payload key (hashPayload P call.payload.json) uuid now := by
        rw [horder, hcont.1]
      refine ⟨order, hcreate,
        ⟨_, uuid, now, Interleave.getElem?_set_of_some hk _, hcont, hnew, Or.inl rfl⟩, ?_⟩
      intro i k hi hk'
      rw [List.getElem?_set_ne (Ne.symm hi)] at hk'
      obtain ⟨call', rfl, hcont', hpc'⟩ := h.calls k (List.mem_of_getElem? hk')
      refine ⟨call', rfl, hcont', Or.inl (hpc'.resolve_right fun hins' => hi ?_)⟩
      exact h.unique i j _ _ hk' hk (Call.inserting_iff.mpr ⟨_, hins'⟩)
        (Call.inserting_iff.mpr ⟨_, hpc⟩)
    · exfalso
      rw [h.orders_eq] at hcreate
      rcases create_eq_none_iff.mp hcreate with hid | hreq
      · exact hid (by rw [horder]; exact ha.2 _ _ _ rfl)
      · exact hreq (by rw [horder]; exact hcont.1 ▸ hkey)

theorem decided_resume {j : ℕ} {input : Input} (h : Decided P c key order i s)
    (ha : Competes c key (.resume j input)) (hstep : step P config s (.resume j input) = some t) :
    Decided P c key order i t := by
  obtain ⟨k, w, k', hk, hact, rfl⟩ := Interleave.step_resume_eq_some.mp hstep
  obtain ⟨creator, uuid, now, hi, hcreator, horder, hpc⟩ := h.creator
  by_cases hji : j = i
  · subst hji
    obtain rfl : k = .createOrder creator := Option.some.inj (hk.symm.trans hi)
    obtain ⟨r, hr, rfl, rfl⟩ := act_createOrder hact
    rcases hpc with hpc | hpc
    · obtain ⟨accepted, sentAt, rfl, rfl⟩ := hr.of_publish hpc
      obtain rfl : accepted = true := ha.1
      refine ⟨h.created,
        ⟨_, uuid, now, Interleave.getElem?_set_of_some hk _, hcreator, horder, Or.inr rfl⟩,
        fun i k hi hik => h.others i k hi (by rwa [List.getElem?_set_ne (Ne.symm hi)] at hik)⟩
    · exact absurd hpc hr.not_returned
  · obtain ⟨call, rfl, hcont, hpc'⟩ := h.others j k hji hk
    obtain ⟨r, hr, rfl, rfl⟩ := act_createOrder hact
    rcases hpc' with hpc' | hpc'
    · obtain ⟨rfl, rfl⟩ := hr.of_lookup hpc' (Input.databaseAnswers_of_succeeds ha.1)
      have hhit : call.afterLookup P (findByRequestId s.shared.orders call.idempotencyKey)
          = call.finish (CreateOrder.replay P order.stored call.payload) := by
        rw [hcont.1, h.findByRequestId_eq, CreateOrder.afterLookup_some]
      rw [hhit]
      have hcreatorAt : (s.activations.set j (Call.createOrder
          (call.finish (CreateOrder.replay P order.stored call.payload))))[i]?
          = some (.createOrder creator) := by rwa [List.getElem?_set_ne hji]
      refine ⟨h.created, ⟨creator, uuid, now, hcreatorAt, hcreator, horder, hpc⟩, ?_⟩
      intro i' k hi' hik
      rcases Interleave.getElem?_set_cases hik with ⟨-, rfl⟩ | ⟨-, hik⟩
      · exact ⟨_, rfl, hcont, Or.inr rfl⟩
      · exact h.others i' k hi' hik
    · exact absurd hpc' hr.not_returned

/-- If every lookup is alone, the race is undecided or decided at every moment. -/
theorem undecided_or_decided {as : List Action} (hkey : findByRequestId c key = none)
    (hrun : Run.run (step P config) (initFrom c) as = some s) (has : ∀ a ∈ as, Competes c key a)
    (halone : Run.Along (step P config) LooksUpAlone (initFrom c) as) :
    Undecided P c key s ∨ ∃ order i, Decided P c key order i s := by
  refine (Run.run_along (I := fun u => Undecided P c key u ∨ ∃ order i, Decided P c key order i u)
    (Q := fun _ _ => True) hrun has (Or.inl ⟨rfl, ?_, ?_⟩) halone ?_).1
  · exact fun k hk => absurd hk List.not_mem_nil
  · exact fun i j k k' hi => absurd (List.mem_of_getElem? hi) List.not_mem_nil
  · rintro u a v hu ha halone hstep
    refine ⟨?_, trivial⟩
    rcases hu with hu | ⟨order, i, hu⟩
    · cases a with
      | invoke request => exact Or.inl (undecided_invoke hu ha hstep)
      | resume j input =>
        rcases undecided_resume hkey hu ha halone hstep with h | ⟨order, h⟩
        · exact Or.inl h
        · exact Or.inr ⟨order, j, h⟩
    · cases a with
      | invoke request => exact Or.inr ⟨order, i, decided_invoke hu ha hstep⟩
      | resume j input => exact Or.inr ⟨order, i, decided_resume hu ha hstep⟩

/-! ### When the calls have ended -/

theorem completed_iff {call : CreateOrder} :
    (Call.createOrder call).completed = true ↔ ∃ outcome, call.pc = .returned outcome := by
  obtain ⟨payload, key, pc⟩ := call
  cases pc <;> simp [Call.completed, CreateOrder.completed]

theorem not_completed_of_lookup {call : CreateOrder} (hpc : call.pc = .lookup) :
    (Call.createOrder call).completed = false := by
  obtain ⟨payload, key, pc⟩ := call
  obtain rfl : pc = .lookup := hpc
  rfl

/-- Once the calls have ended, the creator has returned the order and the others have replayed. -/
theorem Decided.outcomes (h : Decided P c key order i s)
    (hdone : ∀ k ∈ s.activations, k.completed = true) :
    (∃ creator uuid now, s.activations[i]? = some (.createOrder creator) ∧ Contends key creator ∧
      order = newOrder creator.payload key (hashPayload P creator.payload.json) uuid now ∧
      creator.pc = .returned (.ok { order := order, created := true })) ∧
    ∀ (j : ℕ) (k : Call), j ≠ i → s.activations[j]? = some k → ∃ call, k = .createOrder call ∧
      Contends key call ∧
      call.pc = .returned (CreateOrder.replay P order.stored call.payload) := by
  constructor
  · obtain ⟨creator, uuid, now, hi, hcont, horder, hpc⟩ := h.creator
    refine ⟨creator, uuid, now, hi, hcont, horder, hpc.resolve_left fun hpc => ?_⟩
    obtain ⟨outcome, hreturned⟩ := completed_iff.mp (hdone _ (List.mem_of_getElem? hi))
    rw [hpc] at hreturned
    cases hreturned
  · intro j k hj hk
    obtain ⟨call, rfl, hcont, hpc⟩ := h.others j k hj hk
    refine ⟨call, rfl, hcont, hpc.resolve_left fun hpc => ?_⟩
    have hfalse := hdone _ (List.mem_of_getElem? hk)
    rw [not_completed_of_lookup hpc] at hfalse
    exact Bool.false_ne_true hfalse

theorem Decided.sequential (hkey : findByRequestId c key = none) (h : Decided P c key order i s)
    (hdone : ∀ k ∈ s.activations, k.completed = true) :
    ∃ calls, (calls.map Call.createOrder).Perm s.activations ∧
      CreateOrder.Sequentially P c calls s.shared.orders := by
  obtain ⟨⟨creator, uuid, now, hi, hcreator, horder, hpc⟩, hothers⟩ := h.outcomes hdone
  have hall : ∀ k ∈ s.activations, ∃ call, Call.createOrder call = k := by
    intro k hk
    obtain ⟨j, hj⟩ := List.mem_iff_getElem?.mp hk
    by_cases hji : j = i
    · rw [hji, hi] at hj
      exact ⟨creator, Option.some.inj hj⟩
    · obtain ⟨call, rfl, -⟩ := hothers j k hji hj
      exact ⟨call, rfl⟩
  obtain ⟨calls, hcalls⟩ : s.activations ∈ Set.range (List.map Call.createOrder) := by
    rw [Set.range_list_map]
    exact hall
  have hget : ∀ (j : ℕ) (call : CreateOrder), calls[j]? = some call →
      s.activations[j]? = some (.createOrder call) := by
    intro j call hj
    rw [← hcalls, List.getElem?_map, hj, Option.map_some]
  have hcreatorAt : calls[i]? = some creator := by
    rw [← hcalls, List.getElem?_map] at hi
    obtain ⟨call, hcall, heq⟩ := Option.map_eq_some_iff.mp hi
    rw [hcall, Call.createOrder.inj heq]
  obtain ⟨hlt, hgeti⟩ := List.getElem?_eq_some_iff.mp hcreatorAt
  refine ⟨creator :: calls.eraseIdx i, ?_, ?_⟩
  · rw [← hcalls, ← hgeti]
    exact (List.getElem_cons_eraseIdx_perm hlt).map Call.createOrder
  · have hfind : findByRequestId c creator.idempotencyKey = none := hcreator.1 ▸ hkey
    have hrun := CreateOrder.alone_create (P := P) (c := c) "" hfind hcreator.2
      (by rw [horder, hcreator.1]) h.created hpc
    refine .cons (by simp [Input.succeeds, Input.databaseAnswers]) hrun
      (by simp [CreateOrder.completed, hpc])
      (CreateOrder.sequentially_replay order.stored fun call hcall => ?_)
    obtain ⟨j, hji, hj⟩ := List.mem_eraseIdx_iff_getElem?.mp hcall
    obtain ⟨call', heq, hcont, hpc'⟩ := hothers j _ hji (hget j call hj)
    obtain rfl := Call.createOrder.inj heq
    exact ⟨hcont.1 ▸ h.findByRequestId_eq, hpc'⟩

theorem Decided.idempotent (hsha : P.CollisionFree) (hP : P.NumbersReadable)
    (hcmp : P.ConsistentCompare) (hkey : findByRequestId c key = none)
    (h : Decided P c key order i s) (hdone : ∀ k ∈ s.activations, k.completed = true) :
    Idempotent P c key s := by
  obtain ⟨⟨creator, uuid, now, hi, hcreator, horder, hpc⟩, hothers⟩ := h.outcomes hdone
  have hhash : order.stored.payloadHash = hashPayload P creator.payload.json := by rw [horder]; rfl
  refine ⟨h.sequential hkey hdone, ⟨order, i, creator, h.findByRequestId_eq, hi, hpc, ?_⟩, ?_⟩
  · intro j k hj hk
    obtain ⟨call, rfl, -, hpc'⟩ := hothers j k hj hk
    exact ⟨call, rfl, CreateOrder.follows_of_replay hsha hP hcmp hhash hpc'⟩
  · intro call error hmem hreturned
    obtain ⟨j, hj⟩ := List.mem_iff_getElem?.mp hmem
    by_cases hji : j = i
    · rw [hji, hi] at hj
      obtain rfl := Call.createOrder.inj (Option.some.inj hj)
      rw [hpc] at hreturned
      cases hreturned
    · obtain ⟨call', heq, -, hpc'⟩ := hothers j _ hji hj
      obtain rfl := Call.createOrder.inj heq
      rw [hpc', CreateOrder.replay] at hreturned
      split at hreturned <;> cases hreturned
      rfl

/-! ### What a lookup at the wrong moment leads to -/

/-- One for a call that is about to insert. -/
def waiting : Call → ℕ
  | .createOrder ⟨_, _, .insert _⟩ => 1
  | _ => 0

/-- One if the key is stored. -/
def occupied (key : String) (c : Collection) : ℕ := (findByRequestId c key).elim 0 fun _ => 1

/-- The calls about to insert, and one more when the key is stored. Only one of them can succeed. -/
def pressure (key : String) (s : State) : ℕ :=
  (s.activations.map waiting).sum + occupied key s.shared.orders

theorem waiting_of_insert {call : CreateOrder} {payloadHash : JsString}
    (hpc : call.pc = .insert payloadHash) : waiting (.createOrder call) = 1 := by
  obtain ⟨payload, key, pc⟩ := call
  obtain rfl : pc = _ := hpc
  rfl

theorem waiting_eq_zero {call : CreateOrder} (hpc : ∀ payloadHash, call.pc ≠ .insert payloadHash) :
    waiting (.createOrder call) = 0 := by
  obtain ⟨payload, key, pc⟩ := call
  cases pc with
  | insert payloadHash => exact absurd rfl (hpc payloadHash)
  | _ => rfl

/-- Some call has been rejected by the index. -/
def RaisedDuplicateKey (s : State) : Prop :=
  ∃ call, Call.createOrder call ∈ s.activations ∧ call.pc = .returned (.error .duplicateKey)

/-- Some call has been rejected by the index, or some call will be. -/
def Doomed (key : String) (s : State) : Prop := RaisedDuplicateKey s ∨ 2 ≤ pressure key s

/-- Every call is one of the race. -/
def AllContend (key : String) (s : State) : Prop :=
  ∀ k ∈ s.activations, ∃ call, k = Call.createOrder call ∧ Contends key call

theorem allContend_step {a : Action} (h : AllContend key s) (ha : Competes c key a)
    (hstep : step P config s a = some t) : AllContend key t := by
  cases a with
  | invoke request =>
    obtain ⟨w, k, hstart, rfl⟩ := Interleave.step_invoke_eq_some.mp hstep
    obtain ⟨rfl, rfl⟩ := Prod.mk.inj (Option.some.inj hstart)
    intro k hk
    rcases List.mem_append.mp hk with hk | hk
    · exact h k hk
    · obtain rfl := List.mem_singleton.mp hk
      cases request with
      | createOrder payload idempotencyKey => exact ⟨_, rfl, ha⟩
      | _ => exact absurd ha id
  | resume j input =>
    obtain ⟨k, w, k', hk, hact, rfl⟩ := Interleave.step_resume_eq_some.mp hstep
    obtain ⟨call, rfl, hcont⟩ := h k (List.mem_of_getElem? hk)
    obtain ⟨r, hr, rfl, rfl⟩ := act_createOrder hact
    intro k hk'
    rcases List.mem_or_eq_of_mem_set hk' with hk' | rfl
    · exact h k hk'
    · obtain ⟨hpayload, hkey⟩ := hr.arguments_eq
      exact ⟨_, rfl, by rw [Contends, hpayload, hkey]; exact hcont⟩

/-- A rejection is not undone. -/
theorem raisedDuplicateKey_step {a : Action} (h : RaisedDuplicateKey s)
    (hstep : step P config s a = some t) : RaisedDuplicateKey t := by
  obtain ⟨call, hmem, hpc⟩ := h
  refine ⟨call, ?_, hpc⟩
  cases a with
  | invoke request =>
    obtain ⟨w, k, -, rfl⟩ := Interleave.step_invoke_eq_some.mp hstep
    exact List.mem_append_left _ hmem
  | resume j input =>
    obtain ⟨k, w, k', hk, hact, rfl⟩ := Interleave.step_resume_eq_some.mp hstep
    refine Interleave.mem_set_of_ne hmem hk ?_
    rintro rfl
    obtain ⟨r, hr, -⟩ := act_createOrder hact
    exact hr.not_returned hpc

/-- The pressure never drops without a rejection, and a lookup that misses raises it. -/
theorem pressure_step {j : ℕ} {input : Input} (hall : AllContend key s)
    (ha : Competes c key (.resume j input)) (hstep : step P config s (.resume j input) = some t) :
    RaisedDuplicateKey t ∨ pressure key s ≤ pressure key t ∧
      ∀ call, s.activations[j]? = some (.createOrder call) → call.pc = .lookup →
        findByRequestId s.shared.orders key = none → pressure key s < pressure key t := by
  obtain ⟨k, w, k', hk, hact, rfl⟩ := Interleave.step_resume_eq_some.mp hstep
  obtain ⟨call, rfl, hcont⟩ := hall k (List.mem_of_getElem? hk)
  obtain ⟨r, hr, rfl, rfl⟩ := act_createOrder hact
  have hsum := Interleave.sum_map_set waiting hk (.createOrder r.call)
  have hcall : ∀ call', s.activations[j]? = some (.createOrder call') → call' = call := fun _ h =>
    Call.createOrder.inj (Option.some.inj (h.symm.trans hk))
  -- a call that has looked its key up owes nothing more
  have hrunning : call.pc ≠ .lookup → ∀ call', s.activations[j]? = some (.createOrder call') →
      call'.pc = .lookup → findByRequestId s.shared.orders key = none →
      pressure key s
        < pressure key ⟨s.shared.after r, s.activations.set j (.createOrder r.call)⟩ := by
    intro hne call' h hlookup
    rw [hcall call' h] at hlookup
    exact absurd hlookup hne
  rw [pressure, pressure] at hrunning ⊢
  cases hpc : call.pc with
  | lookup =>
    right
    obtain ⟨rfl, rfl⟩ := hr.of_lookup hpc (Input.databaseAnswers_of_succeeds ha.1)
    rw [waiting_eq_zero (by simp [hpc])] at hsum
    dsimp only [World.after] at hsum ⊢
    refine ⟨by omega, fun _ _ _ hmiss => ?_⟩
    have hnone : findByRequestId s.shared.orders call.idempotencyKey = none := hcont.1 ▸ hmiss
    rw [hnone, CreateOrder.afterLookup_none call hcont.2, waiting_of_insert rfl] at hsum
    rw [hnone, CreateOrder.afterLookup_none call hcont.2]
    omega
  | insert payloadHash =>
    obtain ⟨uuid, now, order, rfl, horder, ⟨orders', hcreate, rfl⟩ | ⟨hcreate, rfl⟩⟩ :=
      hr.of_insert hpc (Input.databaseAnswers_of_succeeds ha.1)
    · right
      have hreq : order.requestId = key := by rw [horder]; exact hcont.1
      have hbefore : findByRequestId s.shared.orders key = none :=
        hreq ▸ (create_eq_some_iff.mp hcreate).2.1
      have hafter : findByRequestId orders' key = some order.stored :=
        findByRequestId_eq_some_iff.mpr ⟨(mem_create hcreate).mpr (Or.inr rfl), hreq⟩
      rw [waiting_of_insert hpc, waiting_eq_zero (by simp)] at hsum
      dsimp only [World.after] at hsum ⊢
      refine ⟨?_, hrunning (by simp [hpc])⟩
      rw [occupied, occupied, hbefore, hafter, Option.elim_none, Option.elim_some]
      omega
    · exact Or.inl ⟨_, Interleave.mem_set_of_some hk _, rfl⟩
  | publish order =>
    right
    obtain ⟨accepted, sentAt, rfl, rfl⟩ := hr.of_publish hpc
    obtain rfl : accepted = true := ha.1
    rw [waiting_eq_zero (by simp [hpc])] at hsum
    refine ⟨?_, hrunning (by simp [hpc])⟩
    simp only [World.after, if_true] at hsum ⊢
    omega
  | returned outcome => exact absurd hpc hr.not_returned

theorem doomed_step {a : Action} (hall : AllContend key s) (ha : Competes c key a)
    (h : Doomed key s) (hstep : step P config s a = some t) : Doomed key t := by
  rcases h with h | h
  · exact Or.inl (raisedDuplicateKey_step h hstep)
  cases a with
  | invoke request =>
    obtain ⟨w, k, hstart, rfl⟩ := Interleave.step_invoke_eq_some.mp hstep
    obtain ⟨rfl, rfl⟩ := Prod.mk.inj (Option.some.inj hstart)
    refine Or.inr (h.trans ?_)
    simp only [pressure, List.map_append, List.sum_append]
    omega
  | resume j input =>
    rcases pressure_step hall ha hstep with hraised | ⟨hle, -⟩
    · exact Or.inl hraised
    · exact Or.inr (h.trans hle)

/-- A lookup while another call is about to insert finds the order, and then the other call cannot
insert, or misses, and then only one of the two can. -/
theorem doomed_of_not_looksUpAlone {a : Action} (hall : AllContend key s) (ha : Competes c key a)
    (h : ¬ LooksUpAlone s a) (hstep : step P config s a = some t) : Doomed key t := by
  cases a with
  | invoke request => exact absurd trivial h
  | resume j input =>
    cases input with
    | find answer =>
      simp only [LooksUpAlone] at h
      push Not at h
      obtain ⟨call, hcall, hlookup, other, hother, hins⟩ := h
      obtain ⟨call', rfl, -⟩ := hall other hother
      obtain ⟨payloadHash, hpc⟩ := Call.inserting_iff.mp (by simpa using hins)
      have hpos : 0 < (s.activations.map waiting).sum := by
        rw [List.sum_pos_iff_exists_pos_nat]
        exact ⟨_, List.mem_map_of_mem hother, by rw [waiting_of_insert hpc]; exact Nat.one_pos⟩
      rcases pressure_step hall ha hstep with hraised | ⟨hle, hlt⟩
      · exact Or.inl hraised
      · refine Or.inr ?_
        cases hfind : findByRequestId s.shared.orders key with
        | none =>
          have := hlt call hcall hlookup hfind
          rw [pressure] at this
          omega
        | some order =>
          have hocc : occupied key s.shared.orders = 1 := by rw [occupied, hfind, Option.elim_some]
          rw [pressure, hocc] at hle
          omega
    | _ => exact absurd trivial h

/-- Once the calls have ended, a doomed race has ended with the error of the index. -/
theorem Doomed.raisedDuplicateKey (h : Doomed key s)
    (hdone : ∀ k ∈ s.activations, k.completed = true) : RaisedDuplicateKey s := by
  refine h.resolve_right fun hpressure => ?_
  -- no call is waiting any more, so the pressure is at most one
  have hzero : (s.activations.map waiting).sum = 0 := by
    rw [List.sum_eq_zero_iff_forall_eq_nat]
    intro n hn
    obtain ⟨k, hk, rfl⟩ := List.mem_map.mp hn
    have hk := hdone k hk
    unfold waiting
    split
    · simp [Call.completed, CreateOrder.completed] at hk
    · rfl
  have hone : occupied key s.shared.orders ≤ 1 := by
    rw [occupied]
    cases findByRequestId s.shared.orders key <;> simp
  rw [pressure, hzero] at hpressure
  omega

theorem Idempotent.not_raisedDuplicateKey (h : Idempotent P c key s) : ¬ RaisedDuplicateKey s := by
  rintro ⟨call, hmem, hpc⟩
  have hraw := h.noStorageError call _ hmem hpc
  simp [ServiceError.isRawStorage] at hraw

/-- An undecided race has a call that has not ended. -/
theorem Undecided.activations_eq_nil (h : Undecided P c key s)
    (hdone : ∀ k ∈ s.activations, k.completed = true) : s.activations = [] := by
  refine List.eq_nil_iff_forall_not_mem.mpr fun k hk => ?_
  obtain ⟨call, rfl, -, hpc⟩ := h.calls k hk
  obtain ⟨outcome, hreturned⟩ := completed_iff.mp (hdone _ hk)
  rcases hpc with hpc | hpc <;> rw [hpc] at hreturned <;> cases hreturned

/-! ### The result -/

/-- **Concurrent calls with one key are idempotent exactly when every lookup is alone.** -/
theorem idempotent_iff_looksUpAlone (hsha : P.CollisionFree) (hP : P.NumbersReadable)
    (hcmp : P.ConsistentCompare) {as : List Action} (hkey : findByRequestId c key = none)
    (hrun : Run.run (step P config) (initFrom c) as = some s) (has : ∀ a ∈ as, Competes c key a)
    (hne : s.activations ≠ []) (hdone : ∀ k ∈ s.activations, k.completed = true) :
    Idempotent P c key s ↔ Run.Along (step P config) LooksUpAlone (initFrom c) as := by
  constructor
  · intro h
    refine (Run.along_or (fun u a v hu ha hstep => allContend_step hu ha hstep)
      (fun u a v hu ha hd hstep => doomed_step hu ha hd hstep)
      (fun u a v hu ha hn hstep => doomed_of_not_looksUpAlone hu ha hn hstep) hrun has
      (fun k hk => absurd hk List.not_mem_nil)).resolve_right ?_
    intro hdoomed
    exact h.not_raisedDuplicateKey (hdoomed.raisedDuplicateKey hdone)
  · intro halone
    rcases undecided_or_decided hkey hrun has halone with h | ⟨order, i, h⟩
    · exact absurd (h.activations_eq_nil hdone) hne
    · exact h.idempotent hsha hP hcmp hkey hdone

/-- Call 1 looks the key up after the insert of call 0, before its publication. -/
def overlappingCreates : List Action :=
  [.invoke (.createOrder (samplePayload 10) "key"), .invoke (.createOrder (samplePayload 20) "key"),
    .resume 0 (.find .ok), .resume 0 (.insertOne "id" "2024-05-01T10:00:00.000Z" .ok),
    .resume 1 (.find .ok), .resume 0 (.sendMessage true "2024-05-01T10:00:00.001Z")]

theorem idempotent_iff_looksUpAlone_overlapping :
    ∃ s, Run.run (step .reference .default) (initFrom .empty) overlappingCreates = some s ∧
      s.activations.map Call.errorName = [none, some "IdempotencyConflictError"] ∧
      (Idempotent .reference .empty "key" s ↔
        Run.Along (step .reference .default) LooksUpAlone (initFrom .empty)
          overlappingCreates) := by
  have hrun : (Run.run (step .reference .default) (initFrom .empty) overlappingCreates).map
      (fun s => (s.activations.map Call.errorName, s.activations.all Call.completed))
      = some ([none, some "IdempotencyConflictError"], true) := by decide
  obtain ⟨s, hs, hobs⟩ := Option.map_eq_some_iff.mp hrun
  obtain ⟨hnames, hdone⟩ := Prod.mk.inj hobs
  refine ⟨s, hs, hnames, idempotent_iff_looksUpAlone Platform.reference_collisionFree
    Platform.reference_numbersReadable Platform.reference_consistentCompare rfl hs ?_ ?_
    (List.all_eq_true.mp hdone)⟩
  · simp only [overlappingCreates, List.forall_mem_cons, Competes]
    exact ⟨⟨trivial, by decide⟩, ⟨trivial, by decide⟩, ⟨rfl, nofun⟩, ⟨rfl, fun _ _ _ _ => rfl⟩,
      ⟨rfl, nofun⟩, ⟨rfl, nofun⟩, List.forall_mem_nil _⟩
  · rintro hnil
    simp [hnil] at hnames

/-- Both calls look the key up before either inserts. -/
def racingCreates : List Action :=
  [.invoke (.createOrder (samplePayload 10) "key"), .invoke (.createOrder (samplePayload 10) "key"),
    .resume 0 (.find .ok), .resume 1 (.find .ok),
    .resume 0 (.insertOne "id" "2024-05-01T10:00:00.000Z" .ok),
    .resume 1 (.insertOne "id-2" "2024-05-01T10:00:00.000Z" .ok),
    .resume 0 (.sendMessage true "2024-05-01T10:00:00.001Z")]

/-- The second of two concurrent requests with one body ends with the error of the index. -/
theorem racingCreates_not_idempotent :
    ∃ s, Run.run (step .reference .default) (initFrom .empty) racingCreates = some s ∧
      (∀ a ∈ racingCreates, Competes .empty "key" a) ∧
      (∀ k ∈ s.activations, k.completed = true) ∧
      s.activations.map Call.errorName = [none, some "MongoServerError"] ∧
      ¬ Idempotent .reference .empty "key" s := by
  have hrun : (Run.run (step .reference .default) (initFrom .empty) racingCreates).map
      (fun s => (s.activations.map Call.errorName, s.activations.all Call.completed))
      = some ([none, some "MongoServerError"], true) := by decide
  obtain ⟨s, hs, hobs⟩ := Option.map_eq_some_iff.mp hrun
  obtain ⟨hnames, hdone⟩ := Prod.mk.inj hobs
  refine ⟨s, hs, ?_, List.all_eq_true.mp hdone, hnames, fun h => ?_⟩
  · simp only [racingCreates, List.forall_mem_cons, Competes]
    exact ⟨⟨trivial, by decide⟩, ⟨trivial, by decide⟩, ⟨rfl, nofun⟩, ⟨rfl, nofun⟩,
      ⟨rfl, fun _ _ _ _ => rfl⟩, ⟨rfl, fun _ _ _ _ => rfl⟩, ⟨rfl, nofun⟩, List.forall_mem_nil _⟩
  · obtain ⟨k, hk, hname⟩ := List.mem_map.mp
      (show some "MongoServerError" ∈ s.activations.map Call.errorName by rw [hnames]; simp)
    obtain ⟨calls, hperm, -⟩ := h.sequential
    obtain ⟨call, -, rfl⟩ := List.mem_map.mp (hperm.mem_iff.mpr hk)
    obtain ⟨outcome, hpc⟩ := completed_iff.mp (List.all_eq_true.mp hdone _ hk)
    obtain ⟨payload, key, pc⟩ := call
    obtain rfl : pc = .returned outcome := hpc
    cases outcome with
    | ok result => simp [Call.errorName] at hname
    | error error =>
      have hraw := h.noStorageError _ error hk rfl
      cases error <;>
        simp [Call.errorName, ServiceError.name, ServiceError.isRawStorage] at hname hraw

end Service

end OrderProcessing
