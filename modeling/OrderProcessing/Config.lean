import OrderProcessing.Service

/-!
# Configuration

`src/config/env.ts`. `Environment` is what the process environment sets, as far as the schema of
`loadConfig` knows it and after the validator has coerced it to the declared types. A variable that
is not set has the default of the schema; three have none, and without them `loadConfig` throws.

`AppConfig` is the part that the queues and the service read; `LoadedConfig` is all of it.
-/

namespace OrderProcessing

/-! ### The configuration -/

/-- `AppConfig['delivery']`. -/
structure DeliveryConfig where
  baseUrl : String
  timeoutMs : ℚ
  maxRetries : ℚ
  retryBaseDelayMs : ℚ

/-- `RateLimitStoreConfig['provider']`. -/
inductive RateLimitStoreProvider
  | memory
  | redis
  deriving DecidableEq

/-- `RateLimitStoreConfig['redis']`. -/
structure RedisSettings where
  host : String
  port : ℚ
  username : Option String
  password : Option String
  db : Option ℚ
  useTls : Option Bool
  deriving DecidableEq

/-- `RateLimitStoreConfig`. -/
structure RateLimitStoreConfig where
  provider : RateLimitStoreProvider
  redis : Option RedisSettings

/-- So many requests in so many milliseconds. -/
structure Limit where
  max : ℚ
  timeWindow : ℚ

/-- The limits of the three routes. -/
structure OrderLimits where
  create : Limit
  read : Limit
  status : Limit

/-- `RateLimitConfig`. -/
structure RateLimitConfig where
  enabled : Bool
  global : Limit
  orders : OrderLimits
  store : RateLimitStoreConfig

/-- What `loadConfig` returns: the source's `AppConfig`. -/
structure LoadedConfig where
  env : String
  port : ℚ
  host : String
  mongoUri : String
  mongoDbName : String
  delivery : DeliveryConfig
  rateLimit : RateLimitConfig
  orderCreatedQueue : String
  orderStatusQueue : String
  autoConsumeStatusQueue : Bool

/-- What the service and the queues read of it. -/
def LoadedConfig.app (config : LoadedConfig) : AppConfig where
  maxRetries := config.delivery.maxRetries
  orderCreatedQueue := config.orderCreatedQueue
  orderStatusQueue := config.orderStatusQueue

/-! ### Loading it -/

/-- The environment variables of the schema. -/
structure Environment where
  nodeEnv : Option String
  host : Option String
  port : Option ℚ
  mongoUri : Option String
  mongoDbName : Option String
  deliveryBaseUrl : Option String
  deliveryTimeoutMs : Option ℚ
  deliveryMaxRetries : Option ℚ
  deliveryRetryBaseDelayMs : Option ℚ
  orderCreatedQueue : Option String
  orderStatusQueue : Option String
  autoConsumeStatusQueue : Option Bool
  rateLimitEnabled : Option Bool
  rateLimitGlobalMax : Option ℚ
  rateLimitGlobalWindow : Option ℚ
  rateLimitOrderCreateMax : Option ℚ
  rateLimitOrderCreateWindow : Option ℚ
  rateLimitOrderReadMax : Option ℚ
  rateLimitOrderReadWindow : Option ℚ
  rateLimitOrderStatusMax : Option ℚ
  rateLimitOrderStatusWindow : Option ℚ
  rateLimitStoreProvider : Option String
  rateLimitRedisHost : Option String
  rateLimitRedisPort : Option ℚ
  rateLimitRedisUsername : Option String
  rateLimitRedisPassword : Option String
  rateLimitRedisDb : Option ℚ
  rateLimitRedisTls : Option Bool

/-- `value || undefined`. -/
def orUndefined (value : String) : Option String := if value = "" then none else some value

/-- The limit that two variables set. -/
def limitFrom (max timeWindow : Option ℚ) (defaultMax : ℚ) : Limit where
  max := max.getD defaultMax
  timeWindow := timeWindow.getD 60000

/-- The settings of Redis, if it is selected. -/
def redisSettings (environment : Environment) : RedisSettings where
  host := environment.rateLimitRedisHost.getD "127.0.0.1"
  port := environment.rateLimitRedisPort.getD 6379
  username := orUndefined (environment.rateLimitRedisUsername.getD "")
  password := orUndefined (environment.rateLimitRedisPassword.getD "")
  db := some (environment.rateLimitRedisDb.getD 0)
  useTls := some (environment.rateLimitRedisTls.getD false)

/-- The `rateLimit.store` of the configuration. -/
def storeConfig (environment : Environment) : RateLimitStoreConfig :=
  let provider := environment.rateLimitStoreProvider.getD "memory"
  { provider := if provider = "redis" then .redis else .memory
    redis := if provider = "redis" then some (redisSettings environment) else none }

/-- `loadConfig`; `none` where the validator finds a required variable missing. -/
def loadConfig (environment : Environment) : Option LoadedConfig :=
  match environment.mongoUri, environment.mongoDbName, environment.deliveryBaseUrl with
  | some mongoUri, some mongoDbName, some deliveryBaseUrl =>
    some
      { env := environment.nodeEnv.getD "development"
        port := environment.port.getD 3000
        host := environment.host.getD "0.0.0.0"
        mongoUri := mongoUri
        mongoDbName := mongoDbName
        delivery :=
          { baseUrl := deliveryBaseUrl
            timeoutMs := environment.deliveryTimeoutMs.getD 5000
            maxRetries := environment.deliveryMaxRetries.getD 3
            retryBaseDelayMs := environment.deliveryRetryBaseDelayMs.getD 200 }
        rateLimit :=
          { enabled := environment.rateLimitEnabled.getD true
            global := limitFrom environment.rateLimitGlobalMax environment.rateLimitGlobalWindow
              1000
            orders :=
              { create := limitFrom environment.rateLimitOrderCreateMax
                  environment.rateLimitOrderCreateWindow 10
                read := limitFrom environment.rateLimitOrderReadMax
                  environment.rateLimitOrderReadWindow 100
                status := limitFrom environment.rateLimitOrderStatusMax
                  environment.rateLimitOrderStatusWindow 50 }
            store := storeConfig environment }
        orderCreatedQueue := environment.orderCreatedQueue.getD "order-created-events"
        orderStatusQueue := environment.orderStatusQueue.getD "order-status-events"
        autoConsumeStatusQueue := environment.autoConsumeStatusQueue.getD false }
  | _, _, _ => none

/-- An environment that sets what has no default, and lets the pollers run. -/
def sampleEnvironment : Environment where
  nodeEnv := none
  host := none
  port := none
  mongoUri := some "mongodb://localhost:27017"
  mongoDbName := some "orders"
  deliveryBaseUrl := some "http://localhost:4000"
  deliveryTimeoutMs := none
  deliveryMaxRetries := none
  deliveryRetryBaseDelayMs := none
  orderCreatedQueue := none
  orderStatusQueue := none
  autoConsumeStatusQueue := some true
  rateLimitEnabled := none
  rateLimitGlobalMax := none
  rateLimitGlobalWindow := none
  rateLimitOrderCreateMax := none
  rateLimitOrderCreateWindow := none
  rateLimitOrderReadMax := none
  rateLimitOrderReadWindow := none
  rateLimitOrderStatusMax := none
  rateLimitOrderStatusWindow := none
  rateLimitStoreProvider := none
  rateLimitRedisHost := none
  rateLimitRedisPort := none
  rateLimitRedisUsername := none
  rateLimitRedisPassword := none
  rateLimitRedisDb := none
  rateLimitRedisTls := none

/-- The store's configuration depends on nothing but the store's variables. -/
theorem store_of_loadConfig {environment : Environment} {config : LoadedConfig}
    (h : loadConfig environment = some config) :
    config.rateLimit.store = storeConfig environment := by
  rw [loadConfig] at h
  split at h
  · rw [← Option.some.inj h]
  · simp at h

/-- The default of every variable that the service reads is its value in `AppConfig.default`. -/
theorem app_of_loadConfig {environment : Environment} {config : LoadedConfig}
    (hretries : environment.deliveryMaxRetries = none)
    (hcreated : environment.orderCreatedQueue = none)
    (hstatus : environment.orderStatusQueue = none) (h : loadConfig environment = some config) :
    config.app = .default := by
  rw [loadConfig] at h
  split at h
  · rw [← Option.some.inj h, LoadedConfig.app, hretries, hcreated, hstatus]
    rfl
  · simp at h

end OrderProcessing
