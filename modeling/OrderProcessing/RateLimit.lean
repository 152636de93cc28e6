import OrderProcessing.Config
import OrderProcessing.ForMathlib.Run
import OrderProcessing.Schema

/-!
# Rate limiting

`src/plugins/rate-limit-store.ts` and `src/plugins/rate-limit.ts`. Whether a request exceeds a limit
is up to the rate limit plugin of the framework; here is what the program hands to that plugin, what
it answers when a limit is exceeded, and the adapter that holds the connection to Redis.

## The adapter

`RedisStoreAdapter` reacts to the events of its client in whatever order they come. Of its three
flags `ready` is never lowered, so it says that the client was ready once; `getClient` asks for
`useRedis` as well, which the last decisive event determines. The options of the limiter are built
once, when the plugin is registered and before any event: later events do not reach them.

## Main results

* `RedisStoreAdapter.getClient_eq_some_iff` — the client is given out exactly after a `ready` that
  no refusal and no `end` has followed
* `rateLimitStore_of_environment` — the store of every environment that `loadConfig` accepts
-/

namespace OrderProcessing

/-! ### The store -/

/-- The client, by the options it was made with. -/
structure RedisClient where
  host : String
  port : ℚ
  username : Option String
  password : Option String
  db : Option ℚ
  tls : Bool
  deriving DecidableEq

/-- The constructor's `new Redis({ … })`. -/
def RedisClient.of (config : RedisSettings) : RedisClient where
  host := config.host
  port := config.port
  username := config.username
  password := config.password
  db := config.db
  tls := config.useTls.getD false

/-- What the client emits; an error may have a code. -/
inductive RedisEvent
  | ready
  | error (code : Option String)
  | ended
  deriving DecidableEq

/-- The level of a log entry. -/
inductive LogLevel
  | debug
  | info
  | warn
  | error
  deriving DecidableEq

/-- The flags of the adapter. -/
structure RedisStoreAdapter where
  useRedis : Bool
  warned : Bool
  ready : Bool

namespace RedisStoreAdapter

/-- The adapter before any event. -/
def initial : RedisStoreAdapter := { useRedis := true, warned := false, ready := false }

/-- The reaction to an event, with the level of what it logs. -/
def handle (adapter : RedisStoreAdapter) : RedisEvent → RedisStoreAdapter × LogLevel
  | .ready => ({ useRedis := true, warned := false, ready := true }, .info)
  | .error code =>
    ({ adapter with
        warned := true
        useRedis :=
          if code = some "ECONNREFUSED" ∨ code = some "ENOTFOUND" then false
          else adapter.useRedis },
      if adapter.warned then .debug else .error)
  | .ended => ({ adapter with useRedis := false }, .warn)

/-- The adapter after some events. -/
def after (events : List RedisEvent) : RedisStoreAdapter := (Run.answers handle initial events).1

/-- `getClient`. -/
def getClient (adapter : RedisStoreAdapter) (client : RedisClient) : Option RedisClient :=
  if adapter.useRedis && adapter.ready then some client else none

/-- `buildGlobalOptions`. -/
def buildGlobalOptions (adapter : RedisStoreAdapter) (client : RedisClient) : Option RedisClient :=
  if adapter.useRedis then some client else none

/-- The events that decide whether Redis is used: it is up, or it is gone. -/
def decides : RedisEvent → Option Bool
  | .ready => some true
  | .error code => if code = some "ECONNREFUSED" ∨ code = some "ENOTFOUND" then some false else none
  | .ended => some false

/-- The events that decide whether the next error is a repetition. -/
def warns : RedisEvent → Option Bool
  | .ready => some false
  | .error _ => some true
  | .ended => none

theorem useRedis_after (events : List RedisEvent) :
    (after events).useRedis = (events.filterMap decides).getLast?.getD true := by
  refine Run.answers_last_write (f := RedisStoreAdapter.useRedis) (fun s event => ?_) initial events
  cases event with
  | error code => by_cases hcode : code = some "ECONNREFUSED" ∨ code = some "ENOTFOUND" <;>
      simp [handle, decides, hcode]
  | _ => rfl

theorem warned_after (events : List RedisEvent) :
    (after events).warned = (events.filterMap warns).getLast?.getD false := by
  refine Run.answers_last_write (f := RedisStoreAdapter.warned) (fun s event => ?_) initial events
  cases event <;> rfl

/-- The flag says that the client was ready once. -/
theorem ready_after (events : List RedisEvent) :
    (after events).ready = true ↔ RedisEvent.ready ∈ events := by
  have hwrites : ∀ adapter event, (handle adapter event).1.ready
      = (if event = RedisEvent.ready then some true else none).getD adapter.ready := by
    intro adapter event
    cases event <;> rfl
  have hlast := Run.answers_last_write (f := RedisStoreAdapter.ready) hwrites initial events
  rw [after, hlast]
  by_cases hmem : RedisEvent.ready ∈ events
  · have hwritten : true ∈ events.filterMap
        fun event => if event = RedisEvent.ready then some true else none :=
      List.mem_filterMap.mpr ⟨.ready, hmem, rfl⟩
    obtain ⟨last, hlast⟩ := Option.isSome_iff_exists.mp
      (List.getLast?_isSome.mpr (List.ne_nil_of_mem hwritten))
    obtain ⟨event, -, hevent⟩ := List.mem_filterMap.mp (List.mem_of_getLast? hlast)
    split at hevent
    · rw [hlast, ← Option.some.inj hevent]
      simp [hmem]
    · simp at hevent
  · have hnone : events.filterMap
        (fun event => if event = RedisEvent.ready then some true else none) = [] := by
      refine List.filterMap_eq_nil_iff.mpr fun event hevent => if_neg ?_
      rintro rfl
      exact hmem hevent
    simp [hnone, hmem, initial]

/-- **The client is given out exactly while it is up.** The last decisive event was a `ready`; that
the flag of that name is never lowered cannot be seen. -/
theorem getClient_eq_some_iff (events : List RedisEvent) (client : RedisClient) :
    (after events).getClient client = some client ↔
      (events.filterMap decides).getLast? = some true := by
  have hready : (events.filterMap decides).getLast? = some true → RedisEvent.ready ∈ events := by
    intro hlast
    obtain ⟨event, hmem, hevent⟩ := List.mem_filterMap.mp (List.mem_of_getLast? hlast)
    cases event with
    | ready => exact hmem
    | error code => simp [decides] at hevent
    | ended => simp [decides] at hevent
  have hdecided : RedisEvent.ready ∈ events → (events.filterMap decides).getLast? ≠ none := by
    intro hmem hnone
    have hwritten := List.mem_filterMap.mpr ⟨RedisEvent.ready, hmem, (rfl : decides _ = some true)⟩
    rw [List.getLast?_eq_none_iff.mp hnone] at hwritten
    exact List.not_mem_nil hwritten
  have hgives : (after events).getClient client = some client ↔
      (after events).useRedis = true ∧ (after events).ready = true := by
    simp [getClient]
  rw [hgives, useRedis_after, ready_after]
  cases hlast : (events.filterMap decides).getLast? with
  | none =>
    simp only [Option.getD_none, true_and, reduceCtorEq, iff_false]
    exact fun hmem => hdecided hmem hlast
  | some last =>
    simp only [Option.getD_some, Option.some.injEq]
    refine ⟨And.left, fun hlast' => ⟨hlast', hready ?_⟩⟩
    rw [hlast, hlast']

/-- An error is logged as one exactly if none was since the client was last ready. -/
theorem level_error_iff (events : List RedisEvent) (code : Option String) :
    ((after events).handle (.error code)).2 = .error ↔
      (events.filterMap warns).getLast? ≠ some true := by
  have hlevel : ((after events).handle (.error code)).2 = .error ↔
      (after events).warned = false := by
    cases hwarned : (after events).warned <;> simp [handle, hwarned]
  rw [hlevel, warned_after]
  cases (events.filterMap warns).getLast? <;> simp

end RedisStoreAdapter

/-- What `createRateLimitStore` throws. -/
inductive StoreError
  /-- `Redis rate-limit store selected but no connection settings were provided.` -/
  | noSettings
  /-- `Rate limiting configured for Redis, but the "ioredis" package is not installed.` -/
  | notInstalled
  deriving DecidableEq

/-- `RateLimitStoreAdapter`. -/
inductive StoreAdapter
  | memory
  | redis (client : RedisClient) (adapter : RedisStoreAdapter)

/-- `getClient`. -/
def StoreAdapter.getClient : StoreAdapter → Option RedisClient
  | .memory => none
  | .redis client adapter => adapter.getClient client

/-- `buildGlobalOptions`: the `redis` that it adds to the options. -/
def StoreAdapter.buildGlobalOptions : StoreAdapter → Option RedisClient
  | .memory => none
  | .redis client adapter => adapter.buildGlobalOptions client

/-- `createRateLimitStore`; the package `ioredis` may be missing. -/
def createRateLimitStore (installed : Bool) (storeConfig : RateLimitStoreConfig) :
    Except StoreError StoreAdapter :=
  match storeConfig.provider, storeConfig.redis with
  | .redis, none => .error .noSettings
  | .redis, some settings =>
    if installed then .ok (.redis (.of settings) .initial) else .error .notInstalled
  | .memory, _ => .ok .memory

theorem orUndefined_ne_empty (value : String) : orUndefined value ≠ some "" := by
  rw [orUndefined]
  split
  · simp
  · next hne => simpa using hne

/-- The store that an environment asks for. -/
structure StoreFor (environment : Environment) (installed : Bool)
    (result : Except StoreError StoreAdapter) : Prop where
  /-- Only the exact word selects Redis. -/
  memory : environment.rateLimitStoreProvider ≠ some "redis" → result = .ok .memory
  /-- Then only the missing package is an error. -/
  notInstalled : environment.rateLimitStoreProvider = some "redis" → installed = false →
    result = .error .notInstalled
  redis : environment.rateLimitStoreProvider = some "redis" → installed = true →
    ∃ client, result = .ok (.redis client .initial) ∧
      (StoreAdapter.redis client .initial).buildGlobalOptions = some client ∧
      client.username ≠ some "" ∧ client.password ≠ some "" ∧ ∀ events,
        ((StoreAdapter.redis client (.after events)).getClient = some client ↔
          (events.filterMap RedisStoreAdapter.decides).getLast? = some true) ∧
        ∀ code, ((RedisStoreAdapter.after events).handle (.error code)).2 = .error ↔
          (events.filterMap RedisStoreAdapter.warns).getLast? ≠ some true

/-- **The rate limit store of every accepted environment.** Its settings are never missing, its
credentials are never empty, and whatever its client emits, it is given out exactly while it is up
and logs one error for each time that it is down. -/
theorem rateLimitStore_of_environment {environment : Environment} {config : LoadedConfig}
    (h : loadConfig environment = some config) (installed : Bool) :
    StoreFor environment installed (createRateLimitStore installed config.rateLimit.store) := by
  rw [store_of_loadConfig h]
  refine ⟨fun hprovider => ?_, fun hprovider hinstalled => ?_, fun hprovider hinstalled => ?_⟩
  · have hne : environment.rateLimitStoreProvider.getD "memory" ≠ "redis" := by
      cases hset : environment.rateLimitStoreProvider with
      | none => decide
      | some provider =>
        rw [Option.getD_some]
        rintro rfl
        exact hprovider hset
    simp [createRateLimitStore, storeConfig, hne]
  · simp [createRateLimitStore, storeConfig, hprovider, hinstalled]
  · refine ⟨.of (redisSettings environment), ?_, rfl, orUndefined_ne_empty _,
      orUndefined_ne_empty _, fun events => ⟨RedisStoreAdapter.getClient_eq_some_iff events _,
        RedisStoreAdapter.level_error_iff events⟩⟩
    simp [createRateLimitStore, storeConfig, hprovider, hinstalled]

/-- An environment that selects Redis, with an empty password. -/
def redisEnvironment : Environment :=
  { sampleEnvironment with
    rateLimitStoreProvider := some "redis"
    rateLimitRedisPassword := some "" }

theorem rateLimitStore_of_redisEnvironment :
    ∃ config, loadConfig redisEnvironment = some config ∧
      StoreFor redisEnvironment true (createRateLimitStore true config.rateLimit.store) :=
  ⟨_, rfl, rateLimitStore_of_environment rfl true⟩

/-! ### Exceeded limits -/

/-- The four limiters; the routes that name none of the others are under the first. -/
inductive Tier
  | global
  | orderCreate
  | orderRead
  | orderStatus
  deriving DecidableEq

/-- The limit that is configured for the tier. -/
def Tier.limit (config : RateLimitConfig) : Tier → Limit
  | .global => config.global
  | .orderCreate => config.orders.create
  | .orderRead => config.orders.read
  | .orderStatus => config.orders.status

/-- A number in a message. -/
def numberText (P : Platform) (q : ℚ) : String := text (P.numberToString q)

/-- `toWindowSeconds`. -/
def toWindowSeconds (milliseconds : ℚ) : ℤ := (milliseconds / 1000).ceil

/-- `buildOrderMessage`. -/
def buildOrderMessage (P : Platform) (limit : Limit) : String :=
  "Too many attempts. Limit: " ++ numberText P limit.max ++ " per " ++
    numberText P (toWindowSeconds limit.timeWindow) ++ " seconds. Please try again later."

/-- The body of a 429, without the time of the `reset`. -/
structure TooManyRequests where
  error : String
  message : String
  retryAfter : ℤ
  limit : ℚ

/-- `errorResponseBuilder`, given the rest of the window in milliseconds. -/
def errorResponseBuilder (P : Platform) (config : RateLimitConfig) (tier : Tier) (ttl : ℚ) :
    TooManyRequests where
  error :=
    match tier with
    | .global => "Too Many Requests"
    | .orderCreate => "Order Creation Rate Limit Exceeded"
    | .orderRead => "Order Read Rate Limit Exceeded"
    | .orderStatus => "Order Status Update Rate Limit Exceeded"
  message :=
    match tier with
    | .global => "Rate limit exceeded. Please try again later."
    | tier => buildOrderMessage P (tier.limit config)
  retryAfter := (ttl / 1000).ceil
  limit := (tier.limit config).max

end OrderProcessing
