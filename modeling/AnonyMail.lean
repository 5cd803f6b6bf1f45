import AnonyMail.Api.Addresses
import AnonyMail.Api.Basic
import AnonyMail.Api.Client
import AnonyMail.Api.CustomDomains
import AnonyMail.Api.Downloads
import AnonyMail.Api.Entitlements
import AnonyMail.Api.Governor
import AnonyMail.Api.Limits
import AnonyMail.Api.Messages
import AnonyMail.Api.Push
import AnonyMail.Api.Router
import AnonyMail.Attest
import AnonyMail.Config
import AnonyMail.CustomDomains
import AnonyMail.Deps
import AnonyMail.Effects
import AnonyMail.EventServer
import AnonyMail.FromEnv
import AnonyMail.Lib.Broadcast
import AnonyMail.Lib.Budget
import AnonyMail.Lib.ChunkReader
import AnonyMail.Lib.Conservation
import AnonyMail.Lib.Decimal
import AnonyMail.Lib.Encoding
import AnonyMail.Lib.HashMap
import AnonyMail.Lib.Implement
import AnonyMail.Lib.Interleave
import AnonyMail.Lib.KeyedList
import AnonyMail.Lib.PercentEncoding
import AnonyMail.Lib.Prog
import AnonyMail.Lib.Projection
import AnonyMail.Lib.Rank
import AnonyMail.Lib.Regex
import AnonyMail.Lib.Simulation
import AnonyMail.Lib.SlidingWindow
import AnonyMail.Lib.Table
import AnonyMail.Lib.Tally
import AnonyMail.Lib.Utf8
import AnonyMail.LimitedServer
import AnonyMail.Mime
import AnonyMail.Model
import AnonyMail.Otp
import AnonyMail.Push
import AnonyMail.RevenueCat
import AnonyMail.Server
import AnonyMail.Smtp.Commands
import AnonyMail.Smtp.DataSteps
import AnonyMail.Smtp.Listener
import AnonyMail.Smtp.RateLimiter
import AnonyMail.Smtp.ReadData
import AnonyMail.Smtp.Session
import AnonyMail.SqliteServer
import AnonyMail.Store.Memory
import AnonyMail.Store.Sql
import AnonyMail.Store.Sqlite
import AnonyMail.Store.Transactions
import AnonyMail.Text
import AnonyMail.Verify.Addressing
import AnonyMail.Verify.Announcements
import AnonyMail.Verify.Attestation
import AnonyMail.Verify.AttestationGate
import AnonyMail.Verify.CatchAll
import AnonyMail.Verify.ChallengeCap
import AnonyMail.Verify.ClaimedMailboxes
import AnonyMail.Verify.ClientTokens
import AnonyMail.Verify.Confinement
import AnonyMail.Verify.ConnectionRate
import AnonyMail.Verify.Creation
import AnonyMail.Verify.CreationQuota
import AnonyMail.Verify.DailyQuota
import AnonyMail.Verify.DataPhase
import AnonyMail.Verify.Delivery
import AnonyMail.Verify.DeviceCap
import AnonyMail.Verify.DomainClaims
import AnonyMail.Verify.DomainNames
import AnonyMail.Verify.Downloads
import AnonyMail.Verify.EventStreams
import AnonyMail.Verify.Expiry
import AnonyMail.Verify.Frames
import AnonyMail.Verify.FromEnv
import AnonyMail.Verify.GraceWindow
import AnonyMail.Verify.Integrity
import AnonyMail.Verify.Isolation
import AnonyMail.Verify.LfLines
import AnonyMail.Verify.LimitedServer
import AnonyMail.Verify.Listener
import AnonyMail.Verify.Listing
import AnonyMail.Verify.LocalParts
import AnonyMail.Verify.Logic
import AnonyMail.Verify.NegativeReplies
import AnonyMail.Verify.OneTimeCodes
import AnonyMail.Verify.OwnerGate
import AnonyMail.Verify.OwnerTokens
import AnonyMail.Verify.PathGrammar
import AnonyMail.Verify.Programs
import AnonyMail.Verify.Protocol
import AnonyMail.Verify.Pruning
import AnonyMail.Verify.Purchases
import AnonyMail.Verify.Purge
import AnonyMail.Verify.PushWorker
import AnonyMail.Verify.QuotaStatements
import AnonyMail.Verify.Quotas
import AnonyMail.Verify.Receivers
import AnonyMail.Verify.RejectionLog
import AnonyMail.Verify.Replies
import AnonyMail.Verify.Retention
import AnonyMail.Verify.RoundTrip
import AnonyMail.Verify.RouterBuild
import AnonyMail.Verify.ScanLimit
import AnonyMail.Verify.Segmentation
import AnonyMail.Verify.Session
import AnonyMail.Verify.SqliteAnswers
import AnonyMail.Verify.SqliteRefinement
import AnonyMail.Verify.SqliteRows
import AnonyMail.Verify.SqliteServer
import AnonyMail.Verify.SqliteStore
import AnonyMail.Verify.SseSlots
import AnonyMail.Verify.SubscriptionCap
import AnonyMail.Verify.Subscriptions
import AnonyMail.Verify.Throttle
import AnonyMail.Verify.TierLapse
import AnonyMail.Verify.Transparency
import AnonyMail.Verify.Truncation
import AnonyMail.Verify.WellFormed
