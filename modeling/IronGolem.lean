import IronGolem.ApprovalTwins
import IronGolem.CheckpointTable
import IronGolem.Checkpoints
import IronGolem.CommandApprovals
import IronGolem.CommitmentDedup
import IronGolem.CommitmentDelivery
import IronGolem.CommitmentStarvation
import IronGolem.ComplianceReports
import IronGolem.ConnectorHealth
import IronGolem.CrashRecovery
import IronGolem.DiscordReaders
import IronGolem.DomainSpacing
import IronGolem.ExpiryReports
import IronGolem.FailureIsolation
import IronGolem.HookRuns
import IronGolem.HttpAllowlist
import IronGolem.JobScheduler
import IronGolem.LibraryStore
import IronGolem.MemoryIsolation
import IronGolem.ModelWindows
import IronGolem.PlanResults
import IronGolem.PluginLifecycles
import IronGolem.PolicyDecisions
import IronGolem.PromptCaching
import IronGolem.PruneHistory
import IronGolem.PumpRegistry
import IronGolem.QuarantineReviews
import IronGolem.RateLimiter
import IronGolem.RestartBudget
import IronGolem.RouteCoverage
import IronGolem.SanitizedStrings
import IronGolem.SlackSessions
import IronGolem.SnoozeWindows
import IronGolem.SourceFetching
import IronGolem.SquadActivity
import IronGolem.TelegramUpdates
import IronGolem.TenantIsolation
import IronGolem.TraceIndex
import IronGolem.VolumeAnomalies
import IronGolem.WebhookRetries
import IronGolem.WeekdayReminders
import IronGolem.WorkerBackoff
import IronGolem.WorkspaceRoles
