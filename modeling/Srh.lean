import Srh.Lib.Ascii
import Srh.Lib.Base64
import Srh.Lib.Budget
import Srh.Lib.Collect
import Srh.Lib.Dialogue
import Srh.Lib.Duration
import Srh.Lib.FiniteMap
import Srh.Lib.Guards
import Srh.Lib.Instant
import Srh.Lib.Json
import Srh.Lib.JsonSize
import Srh.Lib.Machine
import Srh.Lib.Merge
import Srh.Lib.Metered
import Srh.Lib.Pairs
import Srh.Lib.Serde
import Srh.Lib.Settle
import Srh.Lib.Tally
import Srh.Lib.TokenBucket
import Srh.Lib.Utf8
import Srh.Config
import Srh.Domain.Acl
import Srh.Domain.AclPolicy
import Srh.Domain.Amplification
import Srh.Domain.Breaker
import Srh.Domain.BreakerCount
import Srh.Domain.BreakerReport
import Srh.Domain.BreakerRun
import Srh.Domain.CheckedTime
import Srh.Domain.CommandNames
import Srh.Domain.Convert
import Srh.Domain.Identity
import Srh.Domain.Lossless
import Srh.Domain.RateLimit
import Srh.Domain.RateLimitEviction
import Srh.Domain.RateLimitFrame
import Srh.Domain.RateLimitIndex
import Srh.Domain.RateLimitInvariant
import Srh.Domain.RateLimitLoad
import Srh.Domain.RateLimitReference
import Srh.Domain.RateLimitRetry
import Srh.Domain.RateLimitRun
import Srh.Domain.RateLimitSweep
import Srh.Domain.RateLimitThroughput
import Srh.Domain.Resp
import Srh.Domain.ResponseBudget
import Srh.ConfigFile
import Srh.ConfigLegacy
import Srh.ConfigFormat
import Srh.ConfigEnvironment
import Srh.Ports
import Srh.Error
import Srh.Adapters.Acceptance
import Srh.Adapters.AuthChain
import Srh.Adapters.Authentication
import Srh.Adapters.CacheHistory
import Srh.Adapters.CacheRecency
import Srh.Adapters.CacheSweeps
import Srh.Adapters.ClientSharing
import Srh.Adapters.FredExecutor
import Srh.Adapters.FredSession
import Srh.Adapters.FredTiming
import Srh.Adapters.FredTransaction
import Srh.Adapters.HttpIntrospect
import Srh.Adapters.HttpJwks
import Srh.Adapters.IdentityProvider
import Srh.Adapters.IntrospectionCache
import Srh.Adapters.JwksDiscipline
import Srh.Adapters.JwksProvenance
import Srh.Adapters.JwtAuth
import Srh.Adapters.JwtClaims
import Srh.Adapters.OutboundHttp
import Srh.Adapters.PoolCapacity
import Srh.Adapters.PoolClients
import Srh.Adapters.PoolDrain
import Srh.Adapters.PoolEntryRule
import Srh.Adapters.PoolGauge
import Srh.Adapters.PoolLedger
import Srh.Adapters.PoolManager
import Srh.Adapters.PoolProbe
import Srh.Adapters.PoolTasks
import Srh.Adapters.ReplyFrames
import Srh.Adapters.Revocation
import Srh.Http.Admission
import Srh.Http.Agreement
import Srh.Http.Answer
import Srh.Http.Arguments
import Srh.Http.Attribution
import Srh.Http.Backstop
import Srh.Http.BodySize
import Srh.Http.Extractors
import Srh.Http.Failures
import Srh.Http.Gateway
import Srh.Http.GatewayAtomic
import Srh.Http.GatewayAudit
import Srh.Http.GatewayLimits
import Srh.Http.GatewayLoad
import Srh.Http.GatewayMetrics
import Srh.Http.GatewaySecrecy
import Srh.Http.GatewayTrace
import Srh.Http.Grammar
import Srh.Http.Handlers
import Srh.Http.Health
import Srh.Http.Observability
import Srh.Http.Parse
import Srh.Http.Plan
import Srh.DigestKeys
import Srh.TimeArithmetic
import Srh.Wiring
import Srh.Server
import Srh.ServerComponents
import Srh.ServerLinks
import Srh.ServerPools
import Srh.ServerSafety
import Srh.ServerDrain
