import SubscriptionRouter.Transitions
import SubscriptionRouter.Tallies
import SubscriptionRouter.Rankings
import SubscriptionRouter.Locks
import SubscriptionRouter.GoText
import SubscriptionRouter.TextLines
import SubscriptionRouter.JsonText
import SubscriptionRouter.Toml
import SubscriptionRouter.TomlSpace
import SubscriptionRouter.TomlTables
import SubscriptionRouter.Messages
import SubscriptionRouter.ServerRequests
import SubscriptionRouter.PendingRoutes
import SubscriptionRouter.StoreState
import SubscriptionRouter.ThreadListing
import SubscriptionRouter.OwnershipRaces
import SubscriptionRouter.TurnFailover
import SubscriptionRouter.SpendPolicy
import SubscriptionRouter.SpendGateway
import SubscriptionRouter.SpendContinuations
import SubscriptionRouter.SpendRelay
import SubscriptionRouter.SpendingMode
import SubscriptionRouter.ChildLifecycle
import SubscriptionRouter.SpendLeases
import SubscriptionRouter.SpendOrder
import SubscriptionRouter.ChildRequests
import SubscriptionRouter.StoreOpen
import SubscriptionRouter.StoreInvariant
import SubscriptionRouter.JsonRoundTrip
import SubscriptionRouter.JsonSize
import SubscriptionRouter.Rfc3339
import SubscriptionRouter.Float64
import SubscriptionRouter.JsonValues
import SubscriptionRouter.WrittenJson
import SubscriptionRouter.SpendBinding
import SubscriptionRouter.ThreadPages
import SubscriptionRouter.ScopedRequests
import SubscriptionRouter.StateFile
import SubscriptionRouter.StoreReopen
import SubscriptionRouter.StoreCrash
import SubscriptionRouter.ThreadSpending
import SubscriptionRouter.ThreadSpendFile
import SubscriptionRouter.DuplicateFields
import SubscriptionRouter.AccountChooser
import SubscriptionRouter.AccountRanking
import SubscriptionRouter.FailoverChains
import SubscriptionRouter.AccountRuntime
import SubscriptionRouter.RuntimeSteps
import SubscriptionRouter.PendingLogins
import SubscriptionRouter.RestartCircuit
import SubscriptionRouter.ChildStarts
import SubscriptionRouter.ChildTable
import SubscriptionRouter.ChildShutdown
import SubscriptionRouter.ChildHandshake
import SubscriptionRouter.Exceptions
import SubscriptionRouter.Installer
import SubscriptionRouter.InstallerRuns
import SubscriptionRouter.Frames
import SubscriptionRouter.ChromeBridge
import SubscriptionRouter.ChromeHost
import SubscriptionRouter.RateLimitWindows
import SubscriptionRouter.ThreadMerge
import SubscriptionRouter.CombinedPages
import SubscriptionRouter.ConfigSync
import SubscriptionRouter.ConfigIsolation
import SubscriptionRouter.EventStream
import SubscriptionRouter.TaskPanel
import SubscriptionRouter.FrameStreams
import SubscriptionRouter.MacInstall
import SubscriptionRouter.WindowsInstall
import SubscriptionRouter.RollbackTransaction
import SubscriptionRouter.AsarIntegrity
import SubscriptionRouter.TeamIdentifier
import SubscriptionRouter.ThreadLocks
import SubscriptionRouter.ReleaseArchive
import SubscriptionRouter.ChildEnvironment
import SubscriptionRouter.ProfileOrder
import SubscriptionRouter.ControlToken
import SubscriptionRouter.EventHub
import SubscriptionRouter.ShellIntegration
import SubscriptionRouter.AccountSnapshots
import SubscriptionRouter.ResetCredits
