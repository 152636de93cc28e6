import OrderProcessing.CreateShipment
import OrderProcessing.ForMathlib.Backoff

/-!
# How long is waited

The delays of `executeWithRetry`, in exact arithmetic: the exponential backoff with jitter and a cap
of `OrderProcessing.ForMathlib.Backoff`.

A natural bound on the retries bounds the number of waits too, and the cap bounds each of them. A
fractional bound is passed by: the loop waits once more than it has whole retries, before it is left
at its head.

## Main definitions

* `RetryResult.waits` — the waits of a call, in order
* `RetryOptions.IsBackoff` — what is true of every sequence of waits
* `RetryOptions.TotalFits` — for which options the total is at most the cap times the bound

## Main results

* `executeWithRetry_backoff_iff`
* `totalFits_retryOptions_iff`, `createShipment_total` — the options of `createShipment`
-/

namespace OrderProcessing

/-! ### The waits of a call -/

section Waits

variable {ε α : Type}

/-- The value that is handed to `wait`, if this is a wait. -/
def RetryEvent.wait : RetryEvent ε → Option ℚ
  | .waited durationMs => some durationMs
  | _ => none

/-- What is waited between the attempts, in order. -/
def RetryResult.waits (r : RetryResult ε α) : List ℚ := r.trace.filterMap RetryEvent.wait

theorem filterMap_wait_retriedTrace (delay : ℕ → ℚ) (errors : List ε) :
    (retriedTrace delay errors).filterMap RetryEvent.wait
      = (List.range errors.length).map delay := by
  have hwait : ∀ e : ε × ℕ,
      [RetryEvent.invoked, .onRetry e.1 (e.2 + 1) (delay e.2), .waited (delay e.2)].filterMap
        RetryEvent.wait = [delay e.2] := fun _ => rfl
  rw [retriedTrace, List.filterMap_flatMap]
  simp only [hwait]
  rw [List.range_eq_range', ← List.zipIdx_map_snd 0 errors, List.map_map]
  exact List.map_eq_flatMap.symm

/-- The call ends, in a way that satisfies `p`. -/
def RetryOptions.Ends (options : RetryOptions) (outcomes : ℕ → Except ε α) (shouldRetry : ε → Bool)
    (random : ℕ → ℚ) (p : RetryResult ε α → Prop) : Prop :=
  ∃ r, (∀ fuel, ⌈options.maxRetries⌉₊ < fuel →
    executeWithRetry fuel outcomes options (some shouldRetry) random = some r) ∧ p r

namespace RetryOptions.Ends

variable {options : RetryOptions} {outcomes : ℕ → Except ε α} {shouldRetry : ε → Bool}
  {random : ℕ → ℚ} {p q : RetryResult ε α → Prop}

theorem imp (h : options.Ends outcomes shouldRetry random p) (hpq : ∀ r, p r → q r) :
    options.Ends outcomes shouldRetry random q := by
  obtain ⟨r, hrun, hr⟩ := h
  exact ⟨r, hrun, hpq r hr⟩

/-- A call ends in one way. -/
theorem exists_and (hp : options.Ends outcomes shouldRetry random p)
    (hq : options.Ends outcomes shouldRetry random q) : ∃ r, p r ∧ q r := by
  obtain ⟨r, hrun, hr⟩ := hp
  obtain ⟨r', hrun', hr'⟩ := hq
  obtain rfl : r = r' :=
    Option.some.inj ((hrun _ (Nat.lt_succ_self _)).symm.trans (hrun' _ (Nat.lt_succ_self _)))
  exact ⟨r, hr, hr'⟩

end RetryOptions.Ends

/-- A call waits for the delays of the attempts that are retried. -/
theorem executeWithRetry_waits (outcomes : ℕ → Except ε α) (options : RetryOptions)
    (shouldRetry : ε → Bool) (random : ℕ → ℚ) :
    options.Ends outcomes shouldRetry random fun r =>
      ∃ k, r.waits = (List.range k).map (options.delay random) ∧
        (∀ m < k, (m : ℚ) ≤ options.maxRetries ∧
          ¬ StopsAt options.maxRetries shouldRetry outcomes m) ∧
        (StopsAt options.maxRetries shouldRetry outcomes k ∨ options.maxRetries < k) := by
  obtain ⟨errors, -, hbefore, r, hrun, hcases⟩ :=
    executeWithRetry_cases outcomes options shouldRetry random
  have hle := retried_le_ceil hbefore
  refine ⟨r, fun fuel hfuel => hrun fuel (by omega), errors.length, ?_, hbefore, ?_⟩
  · rcases hcases with ⟨-, -, rfl⟩ | ⟨-, rfl⟩
    · show (retriedTrace _ errors ++ [RetryEvent.invoked]).filterMap RetryEvent.wait = _
      rw [List.filterMap_append, filterMap_wait_retriedTrace]
      exact List.append_nil _
    · exact filterMap_wait_retriedTrace ..
  · exact hcases.imp (fun h => h.2.1) And.left

/-- With errors that are never retried, it does not wait. -/
theorem executeWithRetry_waits_of_final (error : ε) (options : RetryOptions) (random : ℕ → ℚ) :
    options.Ends (fun _ => (.error error : Except ε α)) (fun _ => false) random fun r =>
      r.waits = [] := by
  refine (executeWithRetry_waits _ options _ random).imp ?_
  rintro r ⟨k, hwaits, hbefore, -⟩
  have hk : k = 0 := by
    by_contra hne
    exact (hbefore 0 (Nat.pos_of_ne_zero hne)).2 (Or.inr (Or.inl ⟨error, rfl, rfl⟩))
  rw [hwaits, hk]
  rfl

/-- With errors that are all retried, it waits as often as the bound allows. -/
theorem executeWithRetry_waits_of_failing (error : ε) (options : RetryOptions) (random : ℕ → ℚ) :
    options.Ends (fun _ => (.error error : Except ε α)) (fun _ => true) random fun r =>
      r.waits = (List.range ⌈options.maxRetries⌉₊).map (options.delay random) := by
  refine (executeWithRetry_waits _ options _ random).imp ?_
  rintro r ⟨k, hwaits, hbefore, hend⟩
  have hge : options.maxRetries ≤ k := by
    rcases hend with (⟨value, hvalue⟩ | ⟨error, -, hfinal⟩ | hlast) | hlt
    · exact nomatch hvalue
    · exact Bool.noConfusion hfinal
    · exact hlast.ge
    · exact hlt.le
  rw [hwaits, le_antisymm (retried_le_ceil hbefore) (Nat.ceil_le.mpr hge)]

end Waits

/-! ### Bounds for the delays -/

namespace RetryOptions

variable {options : RetryOptions} {random : ℕ → ℚ} {waits : List ℚ}

/-- `maxDelay ?? Number.MAX_SAFE_INTEGER`. -/
def cap (options : RetryOptions) : ℚ := options.maxDelayMs.getD maxSafeInteger

/-- Each wait lies between two exponentials or has the length of the cap, and none is shorter than
the one before. -/
structure IsBackoff (options : RetryOptions) (waits : List ℚ) : Prop where
  lower : ∀ n d, waits[n]? = some d → min options.cap (options.baseDelayMs * 2 ^ n) ≤ d
  upper : ∀ n d, waits[n]? = some d → d ≤ min options.cap (options.baseDelayMs * (2 ^ n + 1))
  grows : ∀ n d d', waits[n]? = some d → waits[n + 1]? = some d' → d ≤ d'

/-- `Math.random()` returns numbers from 0 on and below 1. -/
def Draws (random : ℕ → ℚ) : Prop := ∀ n, 0 ≤ random n ∧ random n < 1

theorem delay_eq (options : RetryOptions) (random : ℕ → ℚ) (n : ℕ) :
    options.delay random n = Backoff.delay options.cap options.baseDelayMs n (random n) := rfl

theorem isBackoff_delays (hbase : 0 ≤ options.baseDelayMs) (hrandom : Draws random) (k : ℕ) :
    options.IsBackoff ((List.range k).map (options.delay random)) := by
  have hdelay : ∀ n d, ((List.range k).map (options.delay random))[n]? = some d →
      d = Backoff.delay options.cap options.baseDelayMs n (random n) := by
    intro n d hd
    rw [List.getElem?_map] at hd
    obtain ⟨m, hm, rfl⟩ := Option.map_eq_some_iff.mp hd
    obtain ⟨-, rfl⟩ := List.getElem?_eq_some_iff.mp hm
    rw [List.getElem_range, delay_eq]
  constructor
  · intro n d hd
    rw [hdelay n d hd]
    exact Backoff.min_le_delay hbase (hrandom n).1
  · intro n d hd
    rw [hdelay n d hd]
    exact Backoff.delay_le_longest hbase (hrandom n).2.le
  · intro n d d' hd hd'
    rw [hdelay n d hd, hdelay (n + 1) d' hd']
    exact Backoff.delay_le_delay_succ hbase (hrandom n).2.le (hrandom (n + 1)).1

/-! ### The total -/

/-- The total of the waits is at most the cap times the bound, for every call: this is no negative
number, and the bound is natural or the longest waits that a call may come near to fit. -/
def TotalFits (options : RetryOptions) : Prop :=
  0 ≤ options.maxRetries * options.cap ∧
    ((∃ n : ℕ, options.maxRetries = n) ∨
      ∑ i ∈ Finset.range ⌈options.maxRetries⌉₊,
          min options.cap (options.baseDelayMs * (2 ^ i + 1)) ≤ options.maxRetries * options.cap)

theorem sum_delays (options : RetryOptions) (random : ℕ → ℚ) (k : ℕ) :
    ((List.range k).map (options.delay random)).sum
      = ∑ i ∈ Finset.range k, Backoff.delay options.cap options.baseDelayMs i (random i) := rfl

/-- If the total fits, it fits whatever the factors are and however many of the waits there are. -/
theorem TotalFits.sum_delays_le (h : options.TotalFits) (hbase : 0 ≤ options.baseDelayMs)
    (hrandom : Draws random) {k : ℕ} (hk : k ≤ ⌈options.maxRetries⌉₊) :
    ((List.range k).map (options.delay random)).sum ≤ options.maxRetries * options.cap := by
  obtain ⟨hnonneg, hfits⟩ := h
  have hsum : ∑ i ∈ Finset.range ⌈options.maxRetries⌉₊,
      Backoff.longest options.cap options.baseDelayMs i ≤ options.maxRetries * options.cap := by
    rcases hfits with ⟨n, hn⟩ | hfits
    · rw [hn, Nat.ceil_natCast]
      exact Backoff.sum_longest_le_mul ..
    · exact hfits
  rw [sum_delays]
  exact Backoff.sum_delay_le hbase (fun i => (hrandom i).2.le) hnonneg hsum hk

end RetryOptions

open RetryOptions

section Calls

variable {ε α : Type} {options : RetryOptions} {random : ℕ → ℚ}

theorem executeWithRetry_isBackoff (hbase : 0 ≤ options.baseDelayMs) (hrandom : Draws random)
    (outcomes : ℕ → Except ε α) (shouldRetry : ε → Bool) :
    options.Ends outcomes shouldRetry random fun r => options.IsBackoff r.waits := by
  refine (executeWithRetry_waits outcomes options shouldRetry random).imp ?_
  rintro r ⟨k, hwaits, -⟩
  exact hwaits ▸ isBackoff_delays hbase hrandom k

theorem executeWithRetry_total (hbase : 0 ≤ options.baseDelayMs) (hrandom : Draws random)
    (hfits : options.TotalFits) (outcomes : ℕ → Except ε α) (shouldRetry : ε → Bool) :
    options.Ends outcomes shouldRetry random fun r =>
      options.IsBackoff r.waits ∧ r.waits.sum ≤ options.maxRetries * options.cap := by
  refine (executeWithRetry_waits outcomes options shouldRetry random).imp ?_
  rintro r ⟨k, hwaits, hbefore, -⟩
  exact ⟨hwaits ▸ isBackoff_delays hbase hrandom k,
    hwaits ▸ hfits.sum_delays_le hbase hrandom (retried_le_ceil hbefore)⟩

/-- What is true of the total of all calls is true of the options. -/
theorem totalFits_of_forall [Inhabited ε] (hbase : 0 ≤ options.baseDelayMs)
    (h : ∀ (outcomes : ℕ → Except ε α) (shouldRetry : ε → Bool) (random : ℕ → ℚ), Draws random →
      options.Ends outcomes shouldRetry random fun r =>
        r.waits.sum ≤ options.maxRetries * options.cap) : options.TotalFits := by
  refine ⟨?_, Or.inr (Backoff.sum_longest_le hbase fun factor hfactor hlt => ?_)⟩
  · obtain ⟨r, hsum, hnone⟩ := (h (fun _ => .error default) (fun _ => false) (fun _ => 0)
      fun _ => ⟨le_rfl, zero_lt_one⟩).exists_and
        (executeWithRetry_waits_of_final default options fun _ => 0)
    rwa [hnone] at hsum
  · obtain ⟨r, hsum, hall⟩ := (h (fun _ => .error default) (fun _ => true)
      (fun _ => factor) fun _ => ⟨hfactor, hlt⟩).exists_and
        (executeWithRetry_waits_of_failing default options fun _ => factor)
    rwa [hall] at hsum

end Calls

/-- **Delays never shrink and never exceed the cap**, in every call. Their total is at most the cap
times the bound on the retries in every call, exactly if this fits the options: always for a natural
bound and a cap that is not negative. -/
theorem executeWithRetry_backoff_iff {ε α : Type} [Inhabited ε] {options : RetryOptions}
    (hbase : 0 ≤ options.baseDelayMs) :
    (∀ (outcomes : ℕ → Except ε α) (shouldRetry : ε → Bool) (random : ℕ → ℚ), Draws random →
      options.Ends outcomes shouldRetry random fun r => options.IsBackoff r.waits) ∧
    ((∀ (outcomes : ℕ → Except ε α) (shouldRetry : ε → Bool) (random : ℕ → ℚ), Draws random →
      options.Ends outcomes shouldRetry random fun r =>
        options.IsBackoff r.waits ∧ r.waits.sum ≤ options.maxRetries * options.cap) ↔
      options.TotalFits) := by
  refine ⟨fun outcomes shouldRetry random hrandom =>
    executeWithRetry_isBackoff hbase hrandom outcomes shouldRetry, fun h => ?_, ?_⟩
  · exact totalFits_of_forall hbase fun outcomes shouldRetry random hrandom =>
      (h outcomes shouldRetry random hrandom).imp fun _ => And.right
  · intro hfits outcomes shouldRetry random hrandom
    exact executeWithRetry_total hbase hrandom hfits outcomes shouldRetry

/-- Three retries, with half of the jitter each. -/
theorem executeWithRetry_backoff_iff_threeRetries :
    ∃ r : RetryResult String Unit, executeWithRetry 4 (fun _ => .error "503")
        ⟨3, 200, some 2000⟩ (some fun _ => true) (fun _ => 1 / 2) = some r ∧
      r.waits = [300, 500, 900] ∧ IsBackoff ⟨3, 200, some 2000⟩ r.waits ∧
      r.waits.sum ≤ 3 * 2000 := by
  have hfits : TotalFits ⟨3, 200, some 2000⟩ := by
    refine ⟨?_, Or.inl ⟨3, rfl⟩⟩
    norm_num [cap]
  have hdraws : Draws fun _ => 1 / 2 := fun _ => by norm_num
  obtain ⟨r, hrun, hbackoff, hsum⟩ := (executeWithRetry_backoff_iff (by norm_num)).2.mpr hfits
    (fun _ => (.error "503" : Except String Unit)) (fun _ => true) _ hdraws
  have hr := hrun 4 (by norm_num)
  have hwaits : (executeWithRetry 4 (fun _ => (.error "503" : Except String Unit))
      ⟨3, 200, some 2000⟩ (some fun _ => true) (fun _ => 1 / 2)).map RetryResult.waits
      = some [300, 500, 900] := by decide +kernel
  rw [hr] at hwaits
  exact ⟨r, hr, Option.some.inj hwaits, hbackoff, hsum⟩

/-- With a tenth of a retry the call waits once, for longer than a tenth of the cap. -/
theorem createShipment_total_exceeds :
    ∃ r, createShipment 2 ⟨1 / 10, 200⟩ (fun _ _ => .response 503 none) (fun _ => 1 / 2)
        sampleOrder = some r ∧ Draws (fun _ => 1 / 2) ∧ r.waits = [300] ∧
      ¬ r.waits.sum ≤ 1 / 10 * (200 * 10) := by
  have hwaits : (createShipment 2 ⟨1 / 10, 200⟩ (fun _ _ => .response 503 none) (fun _ => 1 / 2)
      sampleOrder).map RetryResult.waits = some [300] := by decide +kernel
  obtain ⟨r, hr, hone⟩ := Option.map_eq_some_iff.mp hwaits
  refine ⟨r, hr, fun _ => by norm_num, hone, ?_⟩
  rw [hone]
  norm_num

/-! ### The options of `createShipment` -/

/-- The first two waits together are no longer than the cap. -/
theorem sum_longest_retryOptions_le {b : ℚ} (hb : 0 ≤ b) (n : ℕ) :
    ∑ i ∈ Finset.range (n + 2), Backoff.longest (b * 10) b i ≤ (n + 1) * (b * 10) := by
  induction n with
  | zero =>
    have hfirst : Backoff.longest (b * 10) b 0 ≤ b * (2 ^ 0 + 1) := min_le_right ..
    have hsecond : Backoff.longest (b * 10) b 1 ≤ b * (2 ^ 1 + 1) := min_le_right ..
    rw [Finset.sum_range_succ, Finset.sum_range_one]
    norm_num at hfirst hsecond ⊢
    linarith
  | succ n ih =>
    have hnext : Backoff.longest (b * 10) b (n + 2) ≤ b * 10 := Backoff.longest_le_cap
    rw [Finset.sum_range_succ]
    push_cast
    linarith

theorem longest_zero_retryOptions {b : ℚ} (hb : 0 ≤ b) :
    Backoff.longest (b * 10) b 0 = b * 2 := by
  rw [Backoff.longest, min_eq_right]
  · norm_num
  · gcongr
    norm_num

/-- A fifth of the cap is twice the base delay, which is what the first wait comes near to. -/
theorem sum_longest_retryOptions_le_of_fifth {maxRetries b : ℚ} (hb : 0 ≤ b)
    (h : 1 / 5 ≤ maxRetries) :
    ∑ i ∈ Finset.range ⌈maxRetries⌉₊, Backoff.longest (b * 10) b i ≤ maxRetries * (b * 10) := by
  rcases hceil : ⌈maxRetries⌉₊ with _ | _ | n
  · rw [Finset.sum_range_zero]
    positivity
  · rw [Finset.sum_range_one, longest_zero_retryOptions hb]
    calc b * 2 = 1 / 5 * (b * 10) := by ring
      _ ≤ maxRetries * (b * 10) := by gcongr
  · have hlt : ((n + 1 : ℕ) : ℚ) < maxRetries := Nat.lt_ceil.mp (by omega)
    calc ∑ i ∈ Finset.range (n + 2), Backoff.longest (b * 10) b i
        ≤ (n + 1) * (b * 10) := sum_longest_retryOptions_le hb n
      _ ≤ maxRetries * (b * 10) := by gcongr; exact_mod_cast hlt.le

/-- **The total fits what `createShipment` is configured with**, apart from negative numbers of
retries and those between none and a fifth. -/
theorem totalFits_retryOptions_iff {config : DeliveryClientConfig}
    (hbase : 0 ≤ config.retryBaseDelayMs) :
    config.retryOptions.TotalFits ↔
      config.retryBaseDelayMs = 0 ∨ config.maxRetries = 0 ∨ 1 / 5 ≤ config.maxRetries := by
  obtain ⟨maxRetries, b⟩ := config
  show 0 ≤ maxRetries * (b * 10) ∧ ((∃ n : ℕ, maxRetries = n) ∨
    ∑ i ∈ Finset.range ⌈maxRetries⌉₊, Backoff.longest (b * 10) b i ≤ maxRetries * (b * 10)) ↔
      b = 0 ∨ maxRetries = 0 ∨ 1 / 5 ≤ maxRetries
  have hb : 0 ≤ b := hbase
  constructor
  · rintro ⟨hnonneg, hfits⟩
    rcases hb.eq_or_lt with hzero | hpos
    · exact Or.inl hzero.symm
    have hcap : 0 < b * 10 := by positivity
    have hmax : 0 ≤ maxRetries := nonneg_of_mul_nonneg_left hnonneg hcap
    rcases hmax.eq_or_lt with hzero | hmax
    · exact Or.inr (Or.inl hzero.symm)
    refine Or.inr (Or.inr ?_)
    rcases hfits with ⟨n, rfl⟩ | hfits
    · have hn : (1 : ℚ) ≤ n := by exact_mod_cast Nat.cast_pos.mp hmax
      linarith
    · have hmem : 0 ∈ Finset.range ⌈maxRetries⌉₊ := Finset.mem_range.mpr (Nat.ceil_pos.mpr hmax)
      have hfirst := Finset.single_le_sum (f := Backoff.longest (b * 10) b)
        (fun i _ => Backoff.longest_nonneg hcap.le hb) hmem
      rw [longest_zero_retryOptions hb] at hfirst
      refine le_of_mul_le_mul_right ?_ hcap
      calc 1 / 5 * (b * 10) = b * 2 := by ring
        _ ≤ maxRetries * (b * 10) := hfirst.trans hfits
  · rintro (rfl | rfl | hfifth)
    · refine ⟨by simp, Or.inr ?_⟩
      have hsum := Backoff.sum_longest_le_mul (0 * 10 : ℚ) 0 ⌈maxRetries⌉₊
      rwa [zero_mul, mul_zero] at hsum ⊢
    · exact ⟨by simp, Or.inl ⟨0, Nat.cast_zero.symm⟩⟩
    · have hmax : 0 ≤ maxRetries := le_trans (by norm_num) hfifth
      exact ⟨by positivity, Or.inr (sum_longest_retryOptions_le_of_fifth hb hfifth)⟩

/-- What `createShipment` waits, with such a configuration. -/
theorem createShipment_total {config : DeliveryClientConfig} {random : ℕ → ℚ}
    (hbase : 0 ≤ config.retryBaseDelayMs) (hrandom : Draws random)
    (hfits : config.retryBaseDelayMs = 0 ∨ config.maxRetries = 0 ∨ 1 / 5 ≤ config.maxRetries)
    (fetch : ShipmentRequest → ℕ → Exchange) (order : OrderRecord) :
    ∃ r, (∀ fuel, ⌈config.maxRetries⌉₊ < fuel →
        createShipment fuel config fetch random order = some r) ∧
      config.retryOptions.IsBackoff r.waits ∧
      r.waits.sum ≤ config.maxRetries * (config.retryBaseDelayMs * 10) :=
  executeWithRetry_total hbase hrandom
    ((totalFits_retryOptions_iff hbase).mpr hfits) _ _

end OrderProcessing
