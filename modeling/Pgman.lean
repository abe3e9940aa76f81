import Pgman.Construction.Auth.AuthQuery
import Pgman.Construction.Auth.Hba
import Pgman.Construction.Auth.Scram
import Pgman.Construction.Auth.Verifier
import Pgman.Construction.Backend.AdminSql
import Pgman.Construction.Backend.Changes
import Pgman.Construction.Backend.Config
import Pgman.Construction.Backend.Connect
import Pgman.Construction.Backend.Dialer
import Pgman.Construction.Backend.Entries
import Pgman.Construction.Backend.Reconcile
import Pgman.Construction.Backend.Registry
import Pgman.Construction.Backend.Reload
import Pgman.Construction.Net.Address
import Pgman.Construction.Pool.Breaker
import Pgman.Construction.Pool.Channels
import Pgman.Construction.Pool.Ledger
import Pgman.Construction.Pool.Model
import Pgman.Construction.Pool.Moves
import Pgman.Construction.Relay.Attempt
import Pgman.Construction.Relay.Cadence
import Pgman.Construction.Relay.Deadlines
import Pgman.Construction.Relay.Discipline
import Pgman.Construction.Relay.Engagement
import Pgman.Construction.Relay.Isolation
import Pgman.Construction.Relay.Machine
import Pgman.Construction.Relay.Moments
import Pgman.Construction.Relay.Owner
import Pgman.Construction.Relay.PreparedStatements
import Pgman.Construction.Relay.Replay
import Pgman.Construction.Relay.Served
import Pgman.Construction.Relay.Service
import Pgman.Construction.Relay.Steady
import Pgman.Construction.Relay.Swallow
import Pgman.Construction.Relay.Tidy
import Pgman.Construction.Relay.Timed
import Pgman.Construction.Relay.World
import Pgman.Construction.Session.AuthLimiter
import Pgman.Construction.Session.ConnLimits
import Pgman.Construction.Session.RateLimiter
import Pgman.Construction.Session.Registry
import Pgman.Construction.Session.TrackedParams
import Pgman.Construction.Session.Traffic
import Pgman.Construction.Wire.Cycle
import Pgman.Construction.Wire.Messages
import Pgman.Construction.Wire.Server
import Pgman.Framework.Base64
import Pgman.Framework.Chronicle
import Pgman.Framework.Leased
import Pgman.Framework.Outline
import Pgman.Framework.Recency
import Pgman.Framework.Table
import Pgman.Framework.Tally
import Pgman.Framework.Transition
import Pgman.Properties.AdminCommands
import Pgman.Properties.AuthLockout
import Pgman.Properties.AuthQueryCache
import Pgman.Properties.BackendSafety
import Pgman.Properties.BreakerStates
import Pgman.Properties.CacheTruth
import Pgman.Properties.CallerContract
import Pgman.Properties.CancelReach
import Pgman.Properties.CancelTransport
import Pgman.Properties.CleanHandBack
import Pgman.Properties.ClientFlush
import Pgman.Properties.ConfigReload
import Pgman.Properties.ConnLifetime
import Pgman.Properties.ConnectionCaps
import Pgman.Properties.CopyBothReturn
import Pgman.Properties.CopyInDeadlock
import Pgman.Properties.CurrentConfig
import Pgman.Properties.DeadRules
import Pgman.Properties.DeadlineHygiene
import Pgman.Properties.FailedBatches
import Pgman.Properties.GenerationTags
import Pgman.Properties.HbaCommas
import Pgman.Properties.HbaFile
import Pgman.Properties.LiveBound
import Pgman.Properties.LoginRole
import Pgman.Properties.MisusedReturn
import Pgman.Properties.NameRouting
import Pgman.Properties.ParamReplay
import Pgman.Properties.PauseGate
import Pgman.Properties.PoolClose
import Pgman.Properties.PoolOwnership
import Pgman.Properties.PromptForwarding
import Pgman.Properties.Reconnect
import Pgman.Properties.RegistryEffects
import Pgman.Properties.RegistryInvariant
import Pgman.Properties.ReplyExactness
import Pgman.Properties.ScramPassthrough
import Pgman.Properties.SessionIsolation
import Pgman.Properties.SilentBackend
import Pgman.Properties.SilentClient
import Pgman.Properties.StatementCeiling
import Pgman.Properties.StatementLru
import Pgman.Properties.SweepSafety
import Pgman.Properties.TokenBucket
import Pgman.Properties.TrackedNames
import Pgman.Properties.TransactionAffinity
import Pgman.Properties.VerifierRoundTrip
