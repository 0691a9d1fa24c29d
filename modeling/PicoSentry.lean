import PicoSentry.Firewall.ClassifyPath
import PicoSentry.Firewall.MetadataScanned
import PicoSentry.Firewall.Proxy
import PicoSentry.Firewall.UpstreamAuthority
import PicoSentry.Firewall.VerdictCache
import PicoSentry.Foundation.Base64
import PicoSentry.Foundation.CharTables
import PicoSentry.Foundation.CompactJson
import PicoSentry.Foundation.ComponentOrder
import PicoSentry.Foundation.Cumulative
import PicoSentry.Foundation.Cut
import PicoSentry.Foundation.Directory
import PicoSentry.Foundation.FindAll
import PicoSentry.Foundation.FirstOf
import PicoSentry.Foundation.FlatJson
import PicoSentry.Foundation.HashChain
import PicoSentry.Foundation.IndentedJson
import PicoSentry.Foundation.JsonLines
import PicoSentry.Foundation.LayeredSearch
import PicoSentry.Foundation.ParsedJson
import PicoSentry.Foundation.RelativePath
import PicoSentry.Foundation.SortedBy
import PicoSentry.Foundation.StatusCells
import PicoSentry.Foundation.Table
import PicoSentry.Foundation.TaggedRecords
import PicoSentry.Foundation.TokenBucket
import PicoSentry.Foundation.UniqueKeys
import PicoSentry.Foundation.Unquote
import PicoSentry.Foundation.Url
import PicoSentry.Foundation.UrlResolve
import PicoSentry.Foundation.Xml
import PicoSentry.Sandbox.ActorIsolation
import PicoSentry.Sandbox.AuditLogger
import PicoSentry.Sandbox.AuditLoggerChain
import PicoSentry.Sandbox.AuditLoggerTamper
import PicoSentry.Sandbox.ClusterCompletion
import PicoSentry.Sandbox.ClusterConvergence
import PicoSentry.Sandbox.ClusterGossip
import PicoSentry.Sandbox.ClusterLeader
import PicoSentry.Sandbox.ClusterLoad
import PicoSentry.Sandbox.ClusterModels
import PicoSentry.Sandbox.ClusterRefresh
import PicoSentry.Sandbox.ClusterRejection
import PicoSentry.Sandbox.ClusterRotation
import PicoSentry.Sandbox.ClusterState
import PicoSentry.Sandbox.ClusterTokens
import PicoSentry.Sandbox.ClusterTrust
import PicoSentry.Sandbox.ClusterVersions
import PicoSentry.Sandbox.JobConservation
import PicoSentry.Sandbox.JobEviction
import PicoSentry.Sandbox.JobQueue
import PicoSentry.Sandbox.JobStore
import PicoSentry.Sandbox.JobStoreDurability
import PicoSentry.Sandbox.Landlock
import PicoSentry.Sandbox.LandlockGrants
import PicoSentry.Sandbox.Policy
import PicoSentry.Sandbox.PolicyHash
import PicoSentry.Sandbox.PolicyHistory
import PicoSentry.Sandbox.PolicySigning
import PicoSentry.Sandbox.PolicyStore
import PicoSentry.Sandbox.PolicyStoreFiles
import PicoSentry.Sandbox.PolicyStoreRuns
import PicoSentry.Sandbox.PolicyStoreTamper
import PicoSentry.Sandbox.RateLimitBound
import PicoSentry.Sandbox.RateLimiter
import PicoSentry.Sandbox.RedisLimiter
import PicoSentry.Sandbox.Seccomp
import PicoSentry.Sandbox.TokenAnnouncements
import PicoSentry.Scan.AdvisoryFindings
import PicoSentry.Scan.Baseline
import PicoSentry.Scan.CacheEviction
import PicoSentry.Scan.CacheFidelity
import PicoSentry.Scan.CachedResult
import PicoSentry.Scan.CorpusShare
import PicoSentry.Scan.DependencyDiff
import PicoSentry.Scan.DottedVersions
import PicoSentry.Scan.EcosystemDetection
import PicoSentry.Scan.GradleBuild
import PicoSentry.Scan.ImportExtraction
import PicoSentry.Scan.ImportMap
import PicoSentry.Scan.InputHash
import PicoSentry.Scan.InputStream
import PicoSentry.Scan.MavenPackages
import PicoSentry.Scan.NearMatches
import PicoSentry.Scan.OsvEvaluation
import PicoSentry.Scan.OutputOrder
import PicoSentry.Scan.PolicyBundle
import PicoSentry.Scan.PolicyLifecycle
import PicoSentry.Scan.PolicyMigration
import PicoSentry.Scan.RequirementsTxt
import PicoSentry.Scan.ScanCache
import PicoSentry.Scan.SemVer
import PicoSentry.Scan.VersionDiff
import PicoSentry.Scan.VersionText
import PicoSentry.Serve.AnomalyWindow
import PicoSentry.Serve.ApiKeys
import PicoSentry.Serve.AuditDeletion
import PicoSentry.Serve.CorrelationStore
import PicoSentry.Serve.Lockout
import PicoSentry.Serve.Metrics
import PicoSentry.Serve.MetricsExport
import PicoSentry.Serve.OutboxFanout
import PicoSentry.Serve.RateLimitConvergence
import PicoSentry.Serve.Revocation
import PicoSentry.Serve.SchedulerJobs
import PicoSentry.Serve.SchedulerLeader
import PicoSentry.Serve.WebhookPins
import PicoSentry.Watch.DecodePass
import PicoSentry.Watch.HexScan
import PicoSentry.Watch.RuleEngine
import PicoSentry.Watch.HexScan
import PicoSentry.Watch.EncodedPayloads
import PicoSentry.Watch.DecodeCandidates
import PicoSentry.Foundation.Substitute
import PicoSentry.Watch.Normalizer
import PicoSentry.Watch.FusedWhitespace
import PicoSentry.Foundation.Masking
import PicoSentry.Watch.ZeroWidthInsertion
import PicoSentry.Watch.ZeroWidthTransparency
import PicoSentry.Foundation.Backtrack
import PicoSentry.Foundation.Redaction
import PicoSentry.Watch.PiiDetection
import PicoSentry.Watch.RedactionComplete
import PicoSentry.Watch.RuleLoader
import PicoSentry.Watch.PromptClassifier
import PicoSentry.Watch.PromptGuard
import PicoSentry.Watch.OutputGuard
import PicoSentry.Watch.FailClosed
import PicoSentry.Foundation.Recent
import PicoSentry.Serve.CorrelationMemory
import PicoSentry.Serve.CorrelationScore
import PicoSentry.Serve.ClientIp
import PicoSentry.Watch.RateLimiter
import PicoSentry.Serve.ApiKeyRotation
import PicoSentry.Serve.SchedulerConvergence
import PicoSentry.Serve.JobCreation
import PicoSentry.Serve.JobUpdate
import PicoSentry.Foundation.Literal
import PicoSentry.Watch.ChatCompletions
import PicoSentry.Serve.RateLimitFlush
import PicoSentry.Firewall.AllowedVersions
import PicoSentry.Firewall.RuleFailures
import PicoSentry.Sandbox.Admission
import PicoSentry.Sandbox.Drift
import PicoSentry.Sandbox.FileEvents
import PicoSentry.Sandbox.Seatbelt
import PicoSentry.Serve.AlertHub
import PicoSentry.Serve.Restore
import PicoSentry.Serve.WebSockets
import PicoSentry.Serve.RetryAfter
