import OrderProcessing.ForMathlib.Run
import OrderProcessing.Reference
import OrderProcessing.RetryLoop

/-!
# Requests to Delivery

`createShipment` of `src/clients/delivery-client.ts`: the retry loop around one exchange with
Delivery, which is what one `fetch` resolves or rejects with. A redirect that `fetch` follows is
part of an exchange, and makes no new one.

## The error that comes out

The loop runs on `attempt <= maxRetries` and gives up on `attempt === maxRetries`. For a natural
bound the last attempt that is made is the one that gives up, and its error comes out. The
configuration admits any number: a negative one allows no attempt at all, and a fractional one is
passed by without being met. Then the loop is left at its head, with an error of its own.

## What is repeated

A request is meant to be repeated if Delivery has not accepted it. But every error without a status
is repeated, and a successful response with a body that is not JSON leads to such an error.

## Main definitions

* `createShipment`
* `RetryResult.RejectsWithLast` — an error that comes out is that of the last attempt
* `Exchange.notAccepted`, `Exchange.garbled`, `Exchange.isFinal` — the three kinds of exchanges

## Main results

* `createShipment_rejectsWithLast_iff`, `forall_rejectsWithLast_iff`
* `createShipment_repeats_iff`
* `OrderCreatedEvent.run_deliver` — a call of the service does what `createShipment` does
-/

namespace OrderProcessing

/-- `DeliveryClientConfig`. -/
structure DeliveryClientConfig where
  maxRetries : ℚ
  retryBaseDelayMs : ℚ

/-- The options that `createShipment` gives to `executeWithRetry`. -/
def DeliveryClientConfig.retryOptions (config : DeliveryClientConfig) : RetryOptions where
  maxRetries := config.maxRetries
  baseDelayMs := config.retryBaseDelayMs
  maxDelayMs := some (config.retryBaseDelayMs * 10)

/-- `createShipment`. What comes of a request may be another thing at each attempt; the request is
the same at all of them. -/
def createShipment (fuel : ℕ) (config : DeliveryClientConfig)
    (fetch : ShipmentRequest → ℕ → Exchange) (random : ℕ → ℚ) (order : OrderRecord) :
    Option (RetryResult DeliveryError Json) :=
  executeWithRetry fuel (fun attempt => deliveryOperation (fetch (shipmentRequest order) attempt))
    config.retryOptions (some shouldRetry) random

/-! ### The outcome of the last attempt -/

section Last

variable {ε α : Type} {outcomes : ℕ → Except ε α} {options : RetryOptions} {shouldRetry : ε → Bool}

/-- The number of attempts that were made. -/
def RetryResult.attempts (r : RetryResult ε α) : ℕ := r.trace.countP RetryEvent.isInvocation

/-- An attempt is made, and an error that comes out is that of the last one. -/
def RetryResult.RejectsWithLast (outcomes : ℕ → Except ε α) (r : RetryResult ε α) : Prop :=
  0 < r.attempts ∧ ∀ failure, r.outcome = .error failure →
    ∃ error, failure = .task error ∧ outcomes (r.attempts - 1) = .error error

/-- What comes out is the error of the loop itself. -/
def RetryResult.leftAtHead (r : RetryResult ε α) : Bool :=
  match r.outcome with
  | .error .unexpectedState => true
  | _ => false

theorem RetryResult.not_rejectsWithLast {r : RetryResult ε α} (h : r.leftAtHead = true) :
    ¬ r.RejectsWithLast outcomes := by
  rintro ⟨-, hlast⟩
  rw [leftAtHead] at h
  split at h
  · next houtcome =>
    obtain ⟨error, hfailure, -⟩ := hlast .unexpectedState houtcome
    exact nomatch hfailure
  · exact Bool.noConfusion h

theorem RetryResult.attempts_stopped (delay : ℕ → ℚ) (errors : List ε)
    (outcome : Except (RetryFailure ε) α) :
    attempts ⟨outcome, retriedTrace delay errors ++ [RetryEvent.invoked]⟩ = errors.length + 1 := by
  show (retriedTrace delay errors ++ [RetryEvent.invoked]).countP RetryEvent.isInvocation = _
  rw [List.countP_append, countP_retriedTrace delay errors fun _ _ _ => rfl]
  rfl

/-- The error of the last attempt comes out exactly if some attempt that the bound allows stops the
loop. -/
theorem executeWithRetry_rejectsWithLast_iff (outcomes : ℕ → Except ε α) (options : RetryOptions)
    (shouldRetry : ε → Bool) (random : ℕ → ℚ) :
    ∃ r, (∀ fuel, ⌈options.maxRetries⌉₊ < fuel →
        executeWithRetry fuel outcomes options (some shouldRetry) random = some r) ∧
      (r.RejectsWithLast outcomes ↔
        ∃ m : ℕ, (m : ℚ) ≤ options.maxRetries ∧
          StopsAt options.maxRetries shouldRetry outcomes m) := by
  obtain ⟨errors, -, hbefore, r, hrun, hcases⟩ :=
    executeWithRetry_cases outcomes options shouldRetry random
  have hceil := retried_le_ceil hbefore
  refine ⟨r, fun fuel hfuel => hrun fuel (by omega), ?_⟩
  rcases hcases with ⟨hle, hstops, rfl⟩ | ⟨hlt, rfl⟩
  · refine iff_of_true ⟨?_, ?_⟩ ⟨_, hle, hstops⟩
    · rw [RetryResult.attempts_stopped]
      omega
    · intro failure hfailure
      rw [RetryResult.attempts_stopped, Nat.add_sub_cancel]
      cases houtcome : outcomes errors.length with
      | ok value => simp [houtcome, Except.mapError] at hfailure
      | error error =>
        rw [houtcome] at hfailure
        exact ⟨error, (Except.error.inj hfailure).symm, rfl⟩
  · refine iff_of_false (RetryResult.not_rejectsWithLast rfl) ?_
    rintro ⟨m, hle, hstops⟩
    have hm : m < errors.length := Nat.cast_lt.mp (hle.trans_lt hlt)
    exact (hbefore m hm).2 hstops

end Last

/-! ### The kinds of exchanges -/

namespace Exchange

/-- Delivery has not accepted the request: no response has come, or one with status 429 or from 500
on. -/
def notAccepted : Exchange → Bool
  | .failed _ => true
  | .response status _ => 500 ≤ status || status = 429

/-- A successful response with a body that cannot be read as JSON. -/
def garbled : Exchange → Bool
  | .response status none => 200 ≤ status && status ≤ 299
  | _ => false

/-- No request is sent after this one, whatever the bound is. -/
def isFinal (exchange : Exchange) : Bool :=
  match deliveryOperation exchange with
  | .ok _ => true
  | .error error => !shouldRetry error

/-- An exchange is final, or nothing is accepted, or a success cannot be read. -/
theorem isFinal_eq (exchange : Exchange) :
    exchange.isFinal = !(exchange.notAccepted || exchange.garbled) := by
  cases exchange with
  | failed name => simp [isFinal, notAccepted, deliveryOperation, shouldRetry]
  | response status body =>
    by_cases hok : (200 ≤ status && status ≤ 299) = true
    · obtain ⟨-, hle⟩ : 200 ≤ status ∧ status ≤ 299 := by simpa using hok
      have hnot : notAccepted (.response status body) = false := by
        simp [notAccepted]
        omega
      cases body with
      | none => simp [isFinal, deliveryOperation, hok, hnot, garbled, shouldRetry]
      | some data => simp [isFinal, deliveryOperation, hok, hnot, garbled]
    · have hgarbled : garbled (.response status body) = false := by
        cases body with
        | none => exact Bool.eq_false_of_not_eq_true hok
        | some data => rfl
      simp [isFinal, deliveryOperation, hok, hgarbled, notAccepted, shouldRetry]

variable {exchange : Exchange}

theorem isFinal_iff :
    exchange.isFinal = true ↔ exchange.notAccepted = false ∧ exchange.garbled = false := by
  simp [isFinal_eq]

theorem garbled_of_notAccepted (h : exchange.notAccepted = true) : exchange.garbled = false := by
  rcases exchange with name | ⟨status, _ | data⟩
  · rfl
  · simp only [notAccepted, Bool.or_eq_true, decide_eq_true_eq] at h
    simp [garbled]
    omega
  · rfl

end Exchange

/-- An exchange ends the call if it is final, or if its number is the bound. -/
theorem stopsAt_deliveryOperation_iff {maxRetries : ℚ} {exchanges : ℕ → Exchange} {m : ℕ} :
    StopsAt maxRetries shouldRetry (fun attempt => deliveryOperation (exchanges attempt)) m ↔
      (exchanges m).isFinal = true ∨ (m : ℚ) = maxRetries := by
  rw [StopsAt, Exchange.isFinal, ← or_assoc]
  refine or_congr_left ?_
  cases deliveryOperation (exchanges m) with
  | ok value => simp
  | error error => simp

/-! ### The error that comes out -/

/-- The bound allows an exchange that ends the call: the bound is a natural number, or the exchange
is final. -/
theorem exists_stopsAt_iff {maxRetries : ℚ} {exchanges : ℕ → Exchange} :
    (∃ m : ℕ, (m : ℚ) ≤ maxRetries ∧ StopsAt maxRetries shouldRetry
      (fun attempt => deliveryOperation (exchanges attempt)) m) ↔
      (∃ n : ℕ, maxRetries = n) ∨
        ∃ m : ℕ, (m : ℚ) ≤ maxRetries ∧ (exchanges m).isFinal = true := by
  constructor
  · rintro ⟨m, hle, hstops⟩
    rcases stopsAt_deliveryOperation_iff.mp hstops with hfinal | hlast
    · exact Or.inr ⟨m, hle, hfinal⟩
    · exact Or.inl ⟨m, hlast.symm⟩
  · rintro (⟨n, rfl⟩ | ⟨m, hle, hfinal⟩)
    · exact ⟨n, le_rfl, Or.inr (Or.inr rfl)⟩
    · exact ⟨m, hle, stopsAt_deliveryOperation_iff.mpr (Or.inl hfinal)⟩

section CreateShipment

variable (config : DeliveryClientConfig) (fetch : ShipmentRequest → ℕ → Exchange)
  (random : ℕ → ℚ) (order : OrderRecord)

/-- **The error that comes out is that of the last request**, exactly if the bound on the retries is
a natural number or one of the requests that it allows is answered for good. Otherwise the call ends
with an error of the loop, and with a negative bound without a request. -/
theorem createShipment_rejectsWithLast_iff :
    ∃ r, (∀ fuel, ⌈config.maxRetries⌉₊ < fuel →
        createShipment fuel config fetch random order = some r) ∧
      (r.RejectsWithLast (fun m => deliveryOperation (fetch (shipmentRequest order) m)) ↔
        (∃ n : ℕ, config.maxRetries = n) ∨
          ∃ m : ℕ, (m : ℚ) ≤ config.maxRetries ∧
            (fetch (shipmentRequest order) m).isFinal = true) := by
  obtain ⟨r, hrun, hiff⟩ := executeWithRetry_rejectsWithLast_iff
    (fun attempt => deliveryOperation (fetch (shipmentRequest order) attempt)) config.retryOptions
    shouldRetry random
  exact ⟨r, hrun, hiff.trans exists_stopsAt_iff⟩

/-- Whatever Delivery answers, the error that comes out is that of the last request: exactly for a
natural bound. -/
theorem forall_rejectsWithLast_iff :
    (∀ fetch : ShipmentRequest → ℕ → Exchange, ∃ r,
      (∀ fuel, ⌈config.maxRetries⌉₊ < fuel →
        createShipment fuel config fetch random order = some r) ∧
      r.RejectsWithLast fun m => deliveryOperation (fetch (shipmentRequest order) m)) ↔
      ∃ n : ℕ, config.maxRetries = n := by
  constructor
  · intro h
    obtain ⟨r, hrun, hlast⟩ := h fun _ _ => .failed "AbortError"
    obtain ⟨r', hrun', hiff⟩ := executeWithRetry_rejectsWithLast_iff
      (fun _ => deliveryOperation (.failed "AbortError")) config.retryOptions shouldRetry random
    obtain rfl : r = r' :=
      Option.some.inj ((hrun _ (Nat.lt_succ_self _)).symm.trans (hrun' _ (Nat.lt_succ_self _)))
    rcases exists_stopsAt_iff.mp (hiff.mp hlast) with hnatural | ⟨m, -, hfinal⟩
    · exact hnatural
    · exact absurd hfinal (by decide)
  · intro hnatural fetch
    obtain ⟨r, hrun, hiff⟩ := executeWithRetry_rejectsWithLast_iff
      (fun attempt => deliveryOperation (fetch (shipmentRequest order) attempt))
      config.retryOptions shouldRetry random
    exact ⟨r, hrun, hiff.mpr (exists_stopsAt_iff.mpr (Or.inl hnatural))⟩

end CreateShipment

/-- A stored order. -/
def sampleOrder : OrderRecord :=
  newOrder (samplePayload 10) "key" (hashPayload .reference (samplePayload 10).json) "id"
    "2024-05-01T10:00:00.000Z"

/-- With half a retry, one request is answered with 503 and its error is lost. With minus one, no
request is sent. -/
theorem createShipment_not_rejectsWithLast :
    (∃ r, createShipment 2 ⟨1 / 2, 200⟩ (fun _ _ => .response 503 none) (fun _ => 0) sampleOrder
        = some r ∧ r.attempts = 1 ∧
      ¬ r.RejectsWithLast fun _ => deliveryOperation (.response 503 none)) ∧
    ∃ r, createShipment 1 ⟨-1, 200⟩ (fun _ _ => .response 503 none) (fun _ => 0) sampleOrder
        = some r ∧ r.attempts = 0 ∧
      ¬ r.RejectsWithLast fun _ => deliveryOperation (.response 503 none) := by
  have hhalf : (createShipment 2 ⟨1 / 2, 200⟩ (fun _ _ => .response 503 none) (fun _ => 0)
      sampleOrder).map (fun r => (r.attempts, r.leftAtHead)) = some (1, true) := by
    decide +kernel
  have hminus : (createShipment 1 ⟨-1, 200⟩ (fun _ _ => .response 503 none) (fun _ => 0)
      sampleOrder).map (fun r => (r.attempts, r.leftAtHead)) = some (0, true) := by
    decide +kernel
  constructor
  · obtain ⟨r, hr, hobs⟩ := Option.map_eq_some_iff.mp hhalf
    obtain ⟨hattempts, hleft⟩ := Prod.mk.inj hobs
    exact ⟨r, hr, hattempts, RetryResult.not_rejectsWithLast hleft⟩
  · obtain ⟨r, hr, hobs⟩ := Option.map_eq_some_iff.mp hminus
    obtain ⟨hattempts, hleft⟩ := Prod.mk.inj hobs
    exact ⟨r, hr, hattempts, RetryResult.not_rejectsWithLast hleft⟩

/-! ### What is repeated -/

/-- The first exchange that stops the loop, with a natural bound. -/
theorem exists_last_exchange (exchanges : ℕ → Exchange) (maxRetries : ℕ) (retryBaseDelayMs : ℚ)
    (random : ℕ → ℚ) :
    ∃ n ≤ maxRetries, (∀ i < n, (exchanges i).isFinal = false) ∧
      (n < maxRetries → (exchanges n).isFinal = true) ∧
      ∃ r, r.attempts = n + 1 ∧ ∀ fuel, maxRetries < fuel →
        executeWithRetry fuel (fun attempt => deliveryOperation (exchanges attempt))
          (DeliveryClientConfig.mk maxRetries retryBaseDelayMs).retryOptions (some shouldRetry)
          random = some r := by
  obtain ⟨errors, -, hbefore, r, hrun, ⟨hle, hstops, rfl⟩ | ⟨hlt, -⟩⟩ := executeWithRetry_cases
    (fun attempt => deliveryOperation (exchanges attempt))
    (DeliveryClientConfig.mk maxRetries retryBaseDelayMs).retryOptions shouldRetry random
  · have hle : errors.length ≤ maxRetries := Nat.cast_le.mp hle
    refine ⟨errors.length, hle, fun i hi => ?_, fun hlt => ?_, _,
      RetryResult.attempts_stopped _ _ _, fun fuel hfuel => hrun fuel (by omega)⟩
    · have hnot := mt stopsAt_deliveryOperation_iff.mpr (hbefore i hi).2
      exact Bool.eq_false_of_not_eq_true (not_or.mp hnot).1
    · refine (stopsAt_deliveryOperation_iff.mp hstops).resolve_right fun heq => ?_
      exact hlt.ne (Nat.cast_injective heq)
  · exact absurd (Or.inr (Or.inr rfl)) (hbefore maxRetries (Nat.cast_lt.mp hlt)).2

/-- **A request is repeated only if Delivery has not accepted it**, exactly if no success that
cannot be read comes before the last attempt that the bound allows and after nothing but requests
that were not accepted. -/
theorem createShipment_repeats_iff (maxRetries : ℕ) (retryBaseDelayMs : ℚ)
    (fetch : ShipmentRequest → ℕ → Exchange) (random : ℕ → ℚ) (order : OrderRecord) :
    ∃ r, (∀ fuel, maxRetries < fuel →
        createShipment fuel ⟨maxRetries, retryBaseDelayMs⟩ fetch random order = some r) ∧
      ((∀ i, i + 1 < r.attempts → (fetch (shipmentRequest order) i).notAccepted = true) ↔
        ∀ i < maxRetries, (∀ j < i, (fetch (shipmentRequest order) j).notAccepted = true) →
          (fetch (shipmentRequest order) i).garbled = false) := by
  obtain ⟨n, hle, hbefore, hlast, r, hattempts, hrun⟩ :=
    exists_last_exchange (fetch (shipmentRequest order)) maxRetries retryBaseDelayMs random
  refine ⟨r, hrun, ?_⟩
  rw [hattempts]
  constructor
  · intro h i hi hearlier
    rcases lt_trichotomy i n with hlt | rfl | hgt
    · exact Exchange.garbled_of_notAccepted (h i (by omega))
    · exact (Exchange.isFinal_iff.mp (hlast hi)).2
    · have hfinal := Exchange.isFinal_iff.mp (hlast (by omega))
      exact absurd (hearlier n hgt) (by simp [hfinal.1])
  · intro h i hi
    induction i using Nat.strong_induction_on with
    | _ i ih =>
      have hgarbled := h i (by omega) fun j hj => ih j hj (by omega)
      have hnot := hbefore i (by omega)
      rw [Exchange.isFinal_eq, hgarbled] at hnot
      simpa using hnot

/-- A request that Delivery has accepted is sent again, if the body of the answer is no JSON. -/
theorem createShipment_repeats_accepted :
    ∃ r, createShipment 2 ⟨1, 200⟩ (fun _ _ => .response 200 none) (fun _ => 0) sampleOrder
        = some r ∧ 0 + 1 < r.attempts ∧ (Exchange.response 200 none).notAccepted = false := by
  have hrun : (createShipment 2 ⟨1, 200⟩ (fun _ _ => .response 200 none) (fun _ => 0)
      sampleOrder).map RetryResult.attempts = some 2 := by decide +kernel
  obtain ⟨r, hr, hattempts⟩ := Option.map_eq_some_iff.mp hrun
  exact ⟨r, hr, by omega, rfl⟩

/-! ### Inside `handleOrderCreatedEvent` -/

/-- A pass that goes on counts one attempt. -/
theorem attempt_of_retryPass_again {ε α : Type} {outcomes : ℕ → Except ε α} {options : RetryOptions}
    {shouldRetry : ε → Bool} {random : ℕ → ℚ} {s s' : RetryState ε}
    (h : retryPass outcomes options shouldRetry random s = .again s') :
    s'.attempt = s.attempt + 1 := by
  by_cases hallowed : retryAllowed options.maxRetries s.attempt = true
  · rw [retryPass, if_pos hallowed] at h
    cases houtcome : outcomes s.attempt with
    | ok value => simp [houtcome] at h
    | error error =>
      by_cases hlast : ((s.attempt : ℚ) = options.maxRetries || !shouldRetry error) = true
      · simp only [houtcome, if_pos hlast, reduceCtorEq] at h
      · simp only [houtcome, if_neg hlast] at h
        obtain rfl := Loop.Next.again.inj h
        rfl
  · rw [retryPass, if_neg hallowed] at h
    simp at h

namespace OrderCreatedEvent

variable {orders : Collection} {order : OrderRecord} {requestedAt : String} {random : ℕ → ℚ}
  {call : OrderCreatedEvent} {fuel : ℕ} {r : RetryResult DeliveryError Json}

/-- The rest of the loop, step by step. The induction is on the passes that are left. -/
theorem run_deliver_from {outcomes : ℕ → Except DeliveryError Json} {exchanges : ℕ → Exchange}
    {options : RetryOptions} {s : RetryState DeliveryError}
    (houtcomes : ∀ m, outcomes m = deliveryOperation (exchanges m))
    (hpc : call.pc = .deliver order s.attempt)
    (hrun : Loop.run (retryPass outcomes options shouldRetry random) fuel s = some r) :
    ∃ n, Run.run (fun call input => (step options.maxRetries orders call input).map Reaction.call)
        call ((List.range' s.attempt n).map fun m => .fetch (exchanges m) requestedAt)
      = some (call.afterPass order requestedAt (.done r)) := by
  induction fuel generalizing s call with
  | zero => exact nomatch hrun
  | succ fuel ih =>
    have hstep : (call.step options.maxRetries orders
        (.fetch (exchanges s.attempt) requestedAt)).map Reaction.call = some (call.afterPass order
          requestedAt (retryPass outcomes options shouldRetry random s)) :=
      step_deliver hpc (houtcomes s.attempt)
    cases hpass : retryPass outcomes options shouldRetry random s with
    | done r' =>
      rw [Loop.run_succ_of_done hpass] at hrun
      rw [hpass] at hstep
      obtain rfl := Option.some.inj hrun
      exact ⟨1, Run.run_cons_eq_some.mpr ⟨_, hstep, rfl⟩⟩
    | again s' =>
      rw [Loop.run_succ_of_again hpass] at hrun
      rw [hpass] at hstep
      have hpc' : OrderCreatedEvent.pc { call with pc := .deliver order s'.attempt }
          = .deliver order s'.attempt := rfl
      obtain ⟨n, hrest⟩ := ih hpc' hrun
      refine ⟨n + 1, Run.run_cons_eq_some.mpr ⟨_, hstep, ?_⟩⟩
      rw [← attempt_of_retryPass_again hpass]
      exact hrest

/-- **A call of the service does what `createShipment` does.** Once it has its order, its steps are
the passes of the loop, and it goes on with the result that `createShipment` has. -/
theorem run_deliver {config : DeliveryClientConfig} {fetch : ShipmentRequest → ℕ → Exchange}
    (hpc : call.pc = .deliver order 0)
    (hrun : createShipment fuel config fetch random order = some r) :
    ∃ n, Run.run (fun call input => (step config.maxRetries orders call input).map Reaction.call)
        call ((List.range n).map fun m => .fetch (fetch (shipmentRequest order) m) requestedAt)
      = some (call.afterPass order requestedAt (.done r)) := by
  have hloop : Loop.run (retryPass
      (fun m => deliveryOperation (fetch (shipmentRequest order) m)) config.retryOptions
      shouldRetry random) fuel ⟨0, []⟩ = some r := hrun
  obtain ⟨n, hn⟩ := run_deliver_from (fun _ => rfl) hpc hloop
  exact ⟨n, by rwa [List.range_eq_range']⟩

end OrderCreatedEvent

end OrderProcessing
