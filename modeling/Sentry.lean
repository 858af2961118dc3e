import Sentry.Monitors.ClockDispatch
import Sentry.HybridCloud.OutboxNoLostUpdate
import Sentry.HybridCloud.OutboxOrder
import Sentry.Digests.OpenDigest
import Sentry.Digests.DelayBound
import Sentry.DynamicSampling.RebalancingRates
import Sentry.DynamicSampling.ProjectItems
import Sentry.TransactionClusterer.Rules
import Sentry.Consumers.FollowsLeaders
import Sentry.Snowflake.SequenceCounters
import Sentry.SentryMetrics.BulkRecord
import Sentry.Deletions.NoOrphan
import Sentry.Search.CompletePages
import Sentry.Profiles.JavaSignatures
import Sentry.Profiles.ReplacedInPlace
import Sentry.Locking.RedisLock
import Sentry.Grouping.RulesRoundTrip
import Sentry.Replays.Downloads
import Sentry.Uptime.ConsecutiveFailures
import Sentry.Grouping.Renormalization
import Sentry.Tasks.UnmergeBatchSize
import Sentry.Tsdb.MergedCounters
import Sentry.CircuitBreaker.TripRuns
import Sentry.TokenizeSearch.RoundTrip
import Sentry.TokenizeSearch.RemoveFilter
import Sentry.Rules.TwoPhases
import Sentry.Rules.Notifications
import Sentry.Rules.DelayedRuns
import Sentry.HybridCloud.WebhookDrains
import Sentry.HybridCloud.ReadAfterWrite
import Sentry.Spans.SpansKept
import Sentry.Tsdb.SketchRuns
import Sentry.Extraction.SpecHash
import Sentry.Monitors.MissedCheckIns
import Sentry.Monitors.CheckInLifecycle
import Sentry.EventSearch.BooleanMeaning
import Sentry.DynamicSampling.CustomRuleInvariants
import Sentry.Buffer.NothingLost
import Sentry.Similarity.IndexConsistency
import Sentry.EventSearch.DeclaredErrors
import Sentry.EventSearch.Negation
import Sentry.Incidents.StatsInRedis
import Sentry.Monitors.FailureThreshold
import Sentry.Files.Prefetch
import Sentry.Grouping.Fingerprinting
import Sentry.Pagination.PrevUndoesNext
import Sentry.Pagination.SequencePaginator
import Sentry.Pagination.MergingOffsetPaginator
import Sentry.Utils.RangeQuerySetWrapper
import Sentry.Extraction.SpecEquality
import Sentry.Extraction.OnDemandCache
import Sentry.Ownership.DeletedOwners
import Sentry.Ownership.Codeowners
import Sentry.RateLimits.LeakyBucket
import Sentry.Rules.FireRules
import Sentry.Monitors.NewestCheckIn
import Sentry.EventSearch.Globs
import Sentry.Discover.ArithmeticMeaning
import Sentry.Search.FunctionArguments
import Sentry.DynamicSampling.ActiveOrgs
import Sentry.DynamicSampling.RuleHash
import Sentry.Similarity.KeyExpiry
import Sentry.Similarity.Search
import Sentry.PerformanceIssues.SpanTime
import Sentry.Backup.Dangling
import Sentry.Flagpole.Rollout
import Sentry.Grouping.EnhancerParser
import Sentry.Replays.SegmentArray
import Sentry.Replays.Survival
import Sentry.RateLimits.FixedWindow
import Sentry.Integrations.CodeMappingOrder
import Sentry.SentryMetrics.UnitsNormalization
