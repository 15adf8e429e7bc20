import TowerRateTier.Lib.Saturating
import TowerRateTier.Lib.VirtualScheduling
import TowerRateTier.Lib.TransitionSystem
import TowerRateTier.Quota
import TowerRateTier.Gcra
import TowerRateTier.Saturation
import TowerRateTier.Storage.Basic
import TowerRateTier.Storage.Memory
import TowerRateTier.Storage.MemoryPrune
import TowerRateTier.Storage.MemoryRate
import TowerRateTier.Storage.MemoryBucket
import TowerRateTier.Storage.Breaker.Transition
import TowerRateTier.Storage.Breaker
import TowerRateTier.Storage.Breaker.Calls
import TowerRateTier.Storage.Breaker.Interleaving
import TowerRateTier.Storage.Breaker.Outage
import TowerRateTier.Storage.Breaker.Fallback
import TowerRateTier.Response
import TowerRateTier.Tier
import TowerRateTier.Check
import TowerRateTier.Service
import TowerRateTier.Lib.Double
import TowerRateTier.Lib.LuaNumber
import TowerRateTier.Storage.Redis.Script
import TowerRateTier.Storage.Redis.Client
import TowerRateTier.Storage.Redis.Agreement
import TowerRateTier.Lib.Noninterference
import TowerRateTier.Storage.MemoryCollection
import TowerRateTier.Isolation
import TowerRateTier.TierCalls
import TowerRateTier.Buffered
import TowerRateTier.Storage.MemoryWaits
import TowerRateTier.EntryPoints
import TowerRateTier.Storage.Breaker.Events
import TowerRateTier.Storage.Breaker.Spacing
import TowerRateTier.Storage.Breaker.Pruning
import TowerRateTier.Storage.Redis.Dominance
import TowerRateTier.Storage.Redis.Recovery
import TowerRateTier.GcraSafety
import TowerRateTier.ErrorBodies
import TowerRateTier.Lib.Concatenation
import TowerRateTier.Storage.Redis.Keys
import TowerRateTier.Storage.Redis.Accepted
import TowerRateTier.Storage.Redis.Effects
import TowerRateTier.Storage.Redis.ExactRange
import TowerRateTier.Lib.Windows
import TowerRateTier.Storage.MemorySweep
import TowerRateTier.Deployment
import TowerRateTier.Lib.RemoteCalls
import TowerRateTier.Storage.Redis.Network
import TowerRateTier.Storage.Breaker.Rate
import TowerRateTier.Lib.CompareExchange
import TowerRateTier.Clock
import TowerRateTier.Lib.Readiness
import TowerRateTier.Middleware
import TowerRateTier.Fleet
import TowerRateTier.Collector
import TowerRateTier.Retention
