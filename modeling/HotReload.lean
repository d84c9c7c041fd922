import HotReload.Host.View
import HotReload.Log.Writer
import HotReload.Main
import HotReload.Operator.Service
import HotReload.Proofs.Change.EventLog
import HotReload.Proofs.Claim.Delegation
import HotReload.Proofs.CommandLine.Hosting
import HotReload.Proofs.Export.Registry
import HotReload.Proofs.Host.Debt
import HotReload.Proofs.Host.Degrading
import HotReload.Proofs.Host.Fixpoint
import HotReload.Proofs.Host.Handover
import HotReload.Proofs.Host.Holdings
import HotReload.Proofs.Host.Interruption
import HotReload.Proofs.Host.Namespaces
import HotReload.Proofs.Host.Overlap
import HotReload.Proofs.Host.Reentrance
import HotReload.Proofs.Host.Reloads
import HotReload.Proofs.Host.Retrying
import HotReload.Proofs.Host.Shutdown
import HotReload.Proofs.Host.Unreadable
import HotReload.Proofs.Operator.Lifespan
import HotReload.Proofs.Path.Spelling
import HotReload.Proofs.Plan.Calls
import HotReload.Proofs.Resource.Settlement
import HotReload.Proofs.Settings.Lists
