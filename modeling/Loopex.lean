import Loopex.Store.Journal
import Loopex.Store.ExactlyOnce
import Loopex.Store.Recoverable
import Loopex.Store.CreationOutcome
import Loopex.Store.CrashRecovery
import Loopex.Store.OwnerLane
import Loopex.Store.SessionCommit
import Loopex.Store.CreationPaging
import Loopex.Protocol.FrameGrammar
import Loopex.Protocol.FrameEncoder
import Loopex.Protocol.Canonical
import Loopex.Protocol.Wire
import Loopex.Runtime.Compaction
import Loopex.Runtime.CompactionSelection
import Loopex.Runtime.CompactionTail
import Loopex.Runtime.ToolResultExcerpt
import Loopex.Runtime.QuiesceControl
import Loopex.Daemon.OutputCustody
import Loopex.Erlang.Base64
import Loopex.Daemon.RequestLedger
import Loopex.Daemon.SessionIndex
import Loopex.Transfers.Chunks
import Loopex.Executor.RetainedRecords
import Loopex.Model.Continuation
import Loopex.Runtime.SnapshotScan
import Loopex.Runtime.ConfigureCommand
import Loopex.Runtime.AttemptTail
import Loopex.Runtime.DiagnosticsCustody
import Loopex.Runtime.ArtifactPreparation
import Loopex.Executor.ArtifactRange
import Loopex.Executor.PublicationCrashes
import Loopex.Executor.OpenIndex
import Loopex.Executor.GlobMatching
import Loopex.Dispatcher.WorkBudget
import Loopex.Runtime.RecordByteCost
import Loopex.Daemon.LeasePermits
import Loopex.Daemon.LeaseExclusion
import Loopex.Daemon.LeaseDeadline
import Loopex.Runtime.FutureBounds
import Loopex.Store.ResumeCommands
import Loopex.Store.Observations
import Loopex.Store.Pages
import Loopex.Runtime.HistoryReads
import Loopex.Runtime.EffectIntents
