import OrderProcessing.ForMathlib.Loop
import OrderProcessing.OrderService
import Mathlib.Algebra.Order.Archimedean.Basic
import Mathlib.Algebra.Order.Field.Rat
import Mathlib.Data.Nat.Find
import Mathlib.Data.Rat.Floor
import Mathlib.Order.Bounds.Basic

/-!
# The retry loop

`executeWithRetry` of `src/utils/retry.ts`, whole: the passes of `OrderProcessing.Retry` one after
another, the waiting between them and the callback that is told of it.

The task answers attempt number `m` with `outcomes m`, and `Math.random()` the computation of its
delay with `random m`. What the loop does in front of others is its trace. Delays are computed in
exact arithmetic.

For a natural `maxRetries` the loop ends with the outcome of the first attempt after which it may
stop, and it reports each attempt before that one.

## Main definitions

* `computeDelay`
* `executeWithRetry` — the loop, run for as many passes as it is given fuel
* `StopsAt` — the outcome of an attempt is not retried

## Main results

* `executeWithRetry_cases` — the loop for any finite bound
* `executeWithRetry_retried` — for a natural bound, what the whole loop does
* `OrderCreatedEvent.step_deliver` — a call that is suspended between two attempts goes on as the
  loop does
-/

namespace OrderProcessing

open Loop

/-- `RetryOptions`. -/
structure RetryOptions where
  maxRetries : ℚ
  baseDelayMs : ℚ
  maxDelayMs : Option ℚ

/-- `Number.MAX_SAFE_INTEGER`. -/
def maxSafeInteger : ℚ := 2 ^ 53 - 1

/-- `computeDelay`, where `Math.random()` is `random`. -/
def computeDelay (baseDelay : ℚ) (attempt : ℕ) (maxDelay : Option ℚ) (random : ℚ) : ℚ :=
  let exponential := baseDelay * 2 ^ attempt
  let jitter := random * baseDelay
  let delay := exponential + jitter
  min (maxDelay.getD maxSafeInteger) delay

/-- What `executeWithRetry` rejects with. -/
inductive RetryFailure (ε : Type)
  /-- An error of the task, as it is. -/
  | task (error : ε)
  /-- `Retry logic reached an unexpected state`. -/
  | unexpectedState

/-- What the loop does in front of others. -/
inductive RetryEvent (ε : Type)
  /-- The task is called. -/
  | invoked
  /-- `onRetry?.(error, attempt, delayMs)`; nothing comes of it without a callback. -/
  | onRetry (error : ε) (attempt : ℕ) (delayMs : ℚ)
  /-- `wait(durationMs)`. This is the value that is handed over; `setTimeout` rounds it, and takes
  one above 2³¹ − 1 for 1. -/
  | waited (durationMs : ℚ)

namespace RetryEvent

variable {ε : Type}

/-- The event is an attempt. -/
def isInvocation : RetryEvent ε → Bool
  | invoked => true
  | _ => false

/-- The event is a call of `onRetry`. -/
def isOnRetry : RetryEvent ε → Bool
  | onRetry _ _ _ => true
  | _ => false

end RetryEvent

/-- The loop in front of an attempt: its number, and what has been done so far. -/
structure RetryState (ε : Type) where
  attempt : ℕ
  trace : List (RetryEvent ε)

/-- How the promise settles, and everything that was done until then. -/
structure RetryResult (ε α : Type) where
  outcome : Except (RetryFailure ε) α
  trace : List (RetryEvent ε)

section

variable {ε α : Type}

/-- The delay after attempt number `attempt`. -/
def RetryOptions.delay (options : RetryOptions) (random : ℕ → ℚ) (attempt : ℕ) : ℚ :=
  computeDelay options.baseDelayMs attempt options.maxDelayMs (random attempt)

/-- One pass of the loop. -/
def retryPass (outcomes : ℕ → Except ε α) (options : RetryOptions) (shouldRetry : ε → Bool)
    (random : ℕ → ℚ) (s : RetryState ε) : Next (RetryState ε) (RetryResult ε α) :=
  if retryAllowed options.maxRetries s.attempt then
    match outcomes s.attempt with
    | .ok value => .done { outcome := .ok value, trace := s.trace ++ [.invoked] }
    | .error error =>
      if (s.attempt : ℚ) = options.maxRetries || !shouldRetry error then
        .done { outcome := .error (.task error), trace := s.trace ++ [.invoked] }
      else
        let delay := options.delay random s.attempt
        .again
          { attempt := s.attempt + 1
            trace := s.trace ++ [.invoked, .onRetry error (s.attempt + 1) delay, .waited delay] }
  else .done { outcome := .error .unexpectedState, trace := s.trace }

/-- `executeWithRetry`. Without a `shouldRetry` of the caller every error is retried. -/
def executeWithRetry (fuel : ℕ) (outcomes : ℕ → Except ε α) (options : RetryOptions)
    (shouldRetry : Option (ε → Bool)) (random : ℕ → ℚ) : Option (RetryResult ε α) :=
  run (retryPass outcomes options (shouldRetry.getD fun _ => true) random) fuel ⟨0, []⟩

variable {outcomes : ℕ → Except ε α} {options : RetryOptions} {shouldRetry : ε → Bool}

/-- The outcome of an attempt is what the loop ends with, if the attempt is made. -/
def StopsAt (maxRetries : ℚ) (shouldRetry : ε → Bool) (outcomes : ℕ → Except ε α) (attempt : ℕ) :
    Prop :=
  (∃ value, outcomes attempt = .ok value) ∨
    (∃ error, outcomes attempt = .error error ∧ shouldRetry error = false) ∨
      (attempt : ℚ) = maxRetries

/-! ### One pass -/

theorem retryPass_of_stopsAt (random : ℕ → ℚ) (s : RetryState ε)
    (hallowed : retryAllowed options.maxRetries s.attempt = true)
    (h : StopsAt options.maxRetries shouldRetry outcomes s.attempt) :
    retryPass outcomes options shouldRetry random s =
      .done ⟨(outcomes s.attempt).mapError .task, s.trace ++ [.invoked]⟩ := by
  rw [retryPass, if_pos hallowed]
  rcases h with ⟨value, hvalue⟩ | ⟨error, herror, hfinal⟩ | hlast
  · rw [hvalue]
    rfl
  · rw [herror]
    simp [hfinal, Except.mapError]
  · cases houtcome : outcomes s.attempt with
    | ok value => rfl
    | error error => simp [hlast, Except.mapError]

/-- An attempt that is not the last fails, and is reported before the wait. -/
theorem retryPass_of_not_stopsAt (random : ℕ → ℚ) (s : RetryState ε)
    (hallowed : retryAllowed options.maxRetries s.attempt = true)
    (h : ¬ StopsAt options.maxRetries shouldRetry outcomes s.attempt) :
    ∃ error, outcomes s.attempt = .error error ∧
      retryPass outcomes options shouldRetry random s = .again
        { attempt := s.attempt + 1
          trace := s.trace ++ [.invoked, .onRetry error (s.attempt + 1)
            (options.delay random s.attempt), .waited (options.delay random s.attempt)] } := by
  rw [StopsAt, not_or, not_or] at h
  obtain ⟨hvalue, hfinal, hlast⟩ := h
  cases houtcome : outcomes s.attempt with
  | ok value => exact absurd ⟨value, houtcome⟩ hvalue
  | error error =>
    have hretry : shouldRetry error = true := by
      by_contra hcon
      exact hfinal ⟨error, houtcome, Bool.eq_false_of_not_eq_true hcon⟩
    refine ⟨error, rfl, ?_⟩
    simp [retryPass, hallowed, houtcome, hlast, hretry]

/-! ### The whole loop -/

/-- What is done in front of others when attempts fail with these errors and are retried. -/
def retriedTrace (delay : ℕ → ℚ) (errors : List ε) : List (RetryEvent ε) :=
  errors.zipIdx.flatMap fun e =>
    [.invoked, .onRetry e.1 (e.2 + 1) (delay e.2), .waited (delay e.2)]

theorem retriedTrace_take_succ {delay : ℕ → ℚ} {errors : List ε} {i : ℕ} {error : ε}
    (h : errors[i]? = some error) :
    retriedTrace delay (errors.take (i + 1)) = retriedTrace delay (errors.take i)
      ++ [.invoked, .onRetry error (i + 1) (delay i), .waited (delay i)] := by
  have hlength : (errors.take i).length = i := by
    rw [List.length_take]
    have := (List.getElem?_eq_some_iff.mp h).1
    omega
  rw [retriedTrace, List.take_add_one, h, List.zipIdx_append, List.flatMap_append, hlength]
  simp [retriedTrace]

/-- Something that happens once in every retried pass. -/
theorem countP_retriedTrace {p : RetryEvent ε → Bool} (delay : ℕ → ℚ) (errors : List ε)
    (h : ∀ error attempt delayMs,
      [.invoked, .onRetry error attempt delayMs, .waited delayMs].countP p = 1) :
    (retriedTrace delay errors).countP p = errors.length := by
  have hone : (List.countP p ∘ fun e : ε × ℕ =>
      [.invoked, .onRetry e.1 (e.2 + 1) (delay e.2), .waited (delay e.2)]) = fun _ => 1 :=
    funext fun e => h e.1 (e.2 + 1) (delay e.2)
  rw [retriedTrace, List.countP_flatMap, hone, List.map_const', List.sum_replicate_nat,
    List.length_zipIdx, Nat.mul_one]

/-- The errors of the first `n` attempts, if all of them fail. -/
theorem exists_errors {n : ℕ} (h : ∀ m < n, ∃ error, outcomes m = .error error) :
    ∃ errors : List ε, errors.length = n ∧
      ∀ i error, errors[i]? = some error → outcomes i = .error error := by
  choose error herror using h
  refine ⟨List.ofFn fun m : Fin n => error m m.2, List.length_ofFn, ?_⟩
  intro i e hi
  obtain ⟨hlt, rfl⟩ := List.getElem?_eq_some_iff.mp hi
  rw [List.length_ofFn] at hlt
  rw [herror i hlt, List.getElem_ofFn]

/-- **The loop up to some attempt**: if the bound allows the first `n` attempts and none of them
stops the loop, it gets in front of attempt number `n`. -/
theorem run_retryPass_add (options : RetryOptions) (random : ℕ → ℚ) {n : ℕ}
    (h : ∀ m < n, (m : ℚ) ≤ options.maxRetries ∧
      ¬ StopsAt options.maxRetries shouldRetry outcomes m) :
    ∃ errors : List ε, errors.length = n ∧
      (∀ i error, errors[i]? = some error → outcomes i = .error error) ∧
      ∀ fuel, run (retryPass outcomes options shouldRetry random) (n + fuel) ⟨0, []⟩
        = run (retryPass outcomes options shouldRetry random) fuel
            ⟨n, retriedTrace (options.delay random) errors⟩ := by
  have hpass : ∀ m < n, ∀ trace, ∃ error, outcomes m = .error error ∧
      retryPass outcomes options shouldRetry random ⟨m, trace⟩ = .again
        { attempt := m + 1
          trace := trace ++ [.invoked, .onRetry error (m + 1) (options.delay random m),
            .waited (options.delay random m)] } := by
    intro m hm trace
    exact retryPass_of_not_stopsAt random ⟨m, trace⟩ (decide_eq_true (h m hm).1) (h m hm).2
  obtain ⟨errors, hlength, herrors⟩ := exists_errors fun m hm =>
    (hpass m hm []).imp fun _ => And.left
  refine ⟨errors, hlength, herrors, fun fuel => ?_⟩
  let states (i : ℕ) : RetryState ε := ⟨i, retriedTrace (options.delay random) (errors.take i)⟩
  have hagain : ∀ i < n, retryPass outcomes options shouldRetry random (states i)
      = .again (states (i + 1)) := by
    intro i hi
    obtain ⟨error, herror, heq⟩ := hpass i hi (states i).trace
    have hget : errors[i]? = some error := by
      have hlt : i < errors.length := hlength ▸ hi
      have hsame := (herrors i _ (List.getElem?_eq_getElem hlt)).symm.trans herror
      rw [List.getElem?_eq_getElem hlt, Except.error.inj hsame]
    show retryPass outcomes options shouldRetry random ⟨i, (states i).trace⟩ = _
    rw [heq, ← retriedTrace_take_succ hget]
  have hlast : states n = ⟨n, retriedTrace (options.delay random) errors⟩ := by
    show RetryState.mk n (retriedTrace (options.delay random) (errors.take n)) = _
    rw [List.take_of_length_le hlength.le]
  exact hlast ▸ run_add_of_again hagain fuel

/-- The number of attempts that are retried is bounded. The last one that the bound allows is not
among them, if its number is the bound itself. -/
theorem retried_le_ceil {maxRetries : ℚ} {n : ℕ}
    (h : ∀ m < n, (m : ℚ) ≤ maxRetries ∧ ¬ StopsAt maxRetries shouldRetry outcomes m) :
    n ≤ ⌈maxRetries⌉₊ := by
  rcases n with _ | m
  · exact Nat.zero_le _
  · obtain ⟨hle, hnot⟩ := h m (Nat.lt_succ_self m)
    have hne : (m : ℚ) ≠ maxRetries := fun heq => hnot (Or.inr (Or.inr heq))
    exact Nat.lt_ceil.mpr (lt_of_le_of_ne hle hne)

/-- **The loop, for any finite bound.** Some attempts fail and are retried. The next one stops the
loop, or the bound does not allow it and the loop is left at its head. -/
theorem executeWithRetry_cases (outcomes : ℕ → Except ε α) (options : RetryOptions)
    (shouldRetry : ε → Bool) (random : ℕ → ℚ) :
    ∃ errors : List ε, (∀ i error, errors[i]? = some error → outcomes i = .error error) ∧
      (∀ m < errors.length, (m : ℚ) ≤ options.maxRetries ∧
        ¬ StopsAt options.maxRetries shouldRetry outcomes m) ∧
      ∃ r, (∀ fuel, errors.length < fuel →
          executeWithRetry fuel outcomes options (some shouldRetry) random = some r) ∧
        (((errors.length : ℚ) ≤ options.maxRetries ∧
            StopsAt options.maxRetries shouldRetry outcomes errors.length ∧
            r = ⟨(outcomes errors.length).mapError .task,
              retriedTrace (options.delay random) errors ++ [.invoked]⟩) ∨
          (options.maxRetries < errors.length ∧
            r = ⟨.error .unexpectedState, retriedTrace (options.delay random) errors⟩)) := by
  classical
  have hends : ∃ n : ℕ, StopsAt options.maxRetries shouldRetry outcomes n ∨
      options.maxRetries < n := by
    obtain ⟨n, hn⟩ := exists_nat_gt options.maxRetries
    exact ⟨n, Or.inr hn⟩
  have hbefore : ∀ m < Nat.find hends, (m : ℚ) ≤ options.maxRetries ∧
      ¬ StopsAt options.maxRetries shouldRetry outcomes m := by
    intro m hm
    obtain ⟨hnot, hle⟩ := not_or.mp (Nat.find_min hends hm)
    exact ⟨not_lt.mp hle, hnot⟩
  obtain ⟨errors, hlength, herrors, hrun⟩ := run_retryPass_add options random hbefore
  have hafter := Nat.find_spec hends
  rw [← hlength] at hbefore hafter hrun
  have hresult : ∀ r, retryPass outcomes options shouldRetry random
      ⟨errors.length, retriedTrace (options.delay random) errors⟩ = .done r →
      ∀ fuel, errors.length < fuel →
        executeWithRetry fuel outcomes options (some shouldRetry) random = some r := by
    intro r hdone fuel hfuel
    obtain ⟨rest, rfl⟩ : ∃ rest, fuel = errors.length + (rest + 1) :=
      ⟨fuel - errors.length - 1, by omega⟩
    exact (hrun (rest + 1)).trans (run_succ_of_done hdone)
  refine ⟨errors, herrors, hbefore, ?_⟩
  rcases le_or_gt (errors.length : ℚ) options.maxRetries with hle | hlt
  · have hstops := hafter.resolve_right (not_lt.mpr hle)
    have hdone := retryPass_of_stopsAt random
      ⟨errors.length, retriedTrace (options.delay random) errors⟩ (decide_eq_true hle) hstops
    exact ⟨_, hresult _ hdone, Or.inl ⟨hle, hstops, rfl⟩⟩
  · have hdone : retryPass outcomes options shouldRetry random
        ⟨errors.length, retriedTrace (options.delay random) errors⟩
        = .done ⟨.error .unexpectedState, retriedTrace (options.delay random) errors⟩ := by
      have hnot : ¬ retryAllowed options.maxRetries errors.length = true := by
        simpa [retryAllowed] using hlt
      rw [retryPass, if_neg hnot]
    exact ⟨_, hresult _ hdone, Or.inr ⟨hlt, rfl⟩⟩

/-- **The loop computes exactly the retried outcome.** For a natural bound there is a first attempt
that stops the loop. The loop makes the attempts up to that one and no more, ends with its outcome,
and in between reports each failure with its number and the delay that it then waits. -/
theorem executeWithRetry_retried (maxRetries : ℕ) (baseDelayMs : ℚ) (maxDelayMs : Option ℚ)
    (random : ℕ → ℚ) (shouldRetry : ε → Bool) (outcomes : ℕ → Except ε α) :
    ∃ n, IsLeast {m | StopsAt maxRetries shouldRetry outcomes m} n ∧
      ∀ fuel, n < fuel → ∃ r,
        executeWithRetry fuel outcomes ⟨maxRetries, baseDelayMs, maxDelayMs⟩ (some shouldRetry)
          random = some r ∧
        r.trace.countP RetryEvent.isInvocation = n + 1 ∧
        r.outcome = (outcomes n).mapError .task ∧ r.outcome ≠ .error .unexpectedState ∧
        r.trace.countP RetryEvent.isOnRetry = n ∧
        ∃ errors : List ε, errors.length = n ∧
          (∀ i error, errors[i]? = some error → outcomes i = .error error) ∧
          r.trace = (errors.zipIdx.flatMap fun e =>
            let delay := computeDelay baseDelayMs e.2 maxDelayMs (random e.2)
            [.invoked, .onRetry e.1 (e.2 + 1) delay, .waited delay]) ++ [.invoked] := by
  obtain ⟨errors, herrors, hbefore, r, hrun, ⟨-, hstops, rfl⟩ | ⟨hlt, -⟩⟩ :=
    executeWithRetry_cases outcomes ⟨maxRetries, baseDelayMs, maxDelayMs⟩ shouldRetry random
  · refine ⟨errors.length, ⟨hstops, fun m hm => not_lt.mp fun hlt => (hbefore m hlt).2 hm⟩,
      fun fuel hfuel => ⟨_, hrun fuel hfuel, ?_, rfl, ?_, ?_, errors, rfl, herrors, rfl⟩⟩
    · rw [List.countP_append, countP_retriedTrace _ _ fun _ _ _ => rfl]
      rfl
    · show (outcomes errors.length).mapError RetryFailure.task ≠ _
      cases outcomes errors.length with
      | ok value => simp [Except.mapError]
      | error error => simp [Except.mapError]
    · rw [List.countP_append, countP_retriedTrace _ _ fun _ _ _ => rfl]
      rfl
  · -- the attempt with the number of the bound would have stopped the loop
    exact absurd (Or.inr (Or.inr rfl)) (hbefore maxRetries (Nat.cast_lt.mp hlt)).2

end

/-! ### The loop inside `createShipment` -/

/-- What `createShipment` rejects with. -/
def RetryFailure.delivery : RetryFailure DeliveryError → DeliveryError
  | .task error => error
  | .unexpectedState => .unexpectedState

/-- Where `handleOrderCreatedEvent` goes on after a pass of the loop. -/
def OrderCreatedEvent.afterPass (call : OrderCreatedEvent) (order : OrderRecord)
    (requestedAt : String) :
    Next (RetryState DeliveryError) (RetryResult DeliveryError Json) → OrderCreatedEvent
  | .again s => { call with pc := .deliver order s.attempt }
  | .done ⟨.error failure, _⟩ => call.finish (.error (.delivery failure.delivery))
  | .done ⟨.ok response, _⟩ =>
    match buildShipmentMetadata requestedAt response with
    | none => call.finish (.error .noProperties)
    | some metadata => { call with pc := .store order metadata }

/-- A step of a call that is suspended in front of an attempt is a pass of the loop. -/
theorem OrderCreatedEvent.step_deliver {outcomes : ℕ → Except DeliveryError Json}
    {options : RetryOptions} {random : ℕ → ℚ} {s : RetryState DeliveryError}
    {call : OrderCreatedEvent} {orders : Collection} {order : OrderRecord} {exchange : Exchange}
    {requestedAt : String} (hpc : call.pc = .deliver order s.attempt)
    (hexchange : outcomes s.attempt = deliveryOperation exchange) :
    (call.step options.maxRetries orders (.fetch exchange requestedAt)).map Reaction.call = some
      (call.afterPass order requestedAt (retryPass outcomes options shouldRetry random s)) := by
  simp only [step, hpc, retryPass, hexchange]
  by_cases hallowed : retryAllowed options.maxRetries s.attempt = true
  · rw [if_pos hallowed, if_pos hallowed, Option.map_some, afterFetch]
    rcases deliveryOperation exchange with error | response
    · simp only [retryStep]
      by_cases hlast : ((s.attempt : ℚ) = options.maxRetries || !shouldRetry error) = true
      · rw [if_pos hlast, if_pos hlast]
        rfl
      · rw [if_neg hlast, if_neg hlast]
        rfl
    · rfl
  · rw [if_neg hallowed, if_neg hallowed]
    rfl

end OrderProcessing
