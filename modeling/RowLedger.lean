import RowLedger.Backoff
import RowLedger.CommandLine
import RowLedger.Conflict
import RowLedger.Crossing
import RowLedger.DriverError
import RowLedger.Json.Reader
import RowLedger.Main
import RowLedger.NamedLocks.History
import RowLedger.NamedLocks.Script
import RowLedger.NetDelta
import RowLedger.Notice
import RowLedger.Proofs.Accounting
import RowLedger.Proofs.Acquisition
import RowLedger.Proofs.Aftermath
import RowLedger.Proofs.Amidst
import RowLedger.Proofs.AnyOrder
import RowLedger.Proofs.Asking
import RowLedger.Proofs.Assured
import RowLedger.Proofs.AssuredRuns
import RowLedger.Proofs.AtMostOnce
import RowLedger.Proofs.AtomicBody
import RowLedger.Proofs.Attempts
import RowLedger.Proofs.BatchOutcome
import RowLedger.Proofs.Cancellation
import RowLedger.Proofs.Classification
import RowLedger.Proofs.CommitBoundary
import RowLedger.Proofs.Conservation
import RowLedger.Proofs.Consistency
import RowLedger.Proofs.Contract
import RowLedger.Proofs.CrewRuns
import RowLedger.Proofs.CrossingRuns
import RowLedger.Proofs.CrossingTurns
import RowLedger.Proofs.Cycles
import RowLedger.Proofs.DeadlockFreedom
import RowLedger.Proofs.DemoRuns
import RowLedger.Proofs.DemoTransfers
import RowLedger.Proofs.Exact
import RowLedger.Proofs.Exclusion
import RowLedger.Proofs.FirstFailure
import RowLedger.Proofs.Flow
import RowLedger.Proofs.Frame
import RowLedger.Proofs.GrowingWaits
import RowLedger.Proofs.Kept
import RowLedger.Proofs.LeftOpen
import RowLedger.Proofs.LockOrder
import RowLedger.Proofs.LockTable
import RowLedger.Proofs.LostDigits
import RowLedger.Proofs.NearSums
import RowLedger.Proofs.OneByOne
import RowLedger.Proofs.OneSurvivor
import RowLedger.Proofs.OrderedWork
import RowLedger.Proofs.Retelling
import RowLedger.Proofs.RetryLoop
import RowLedger.Proofs.RoundingOrder
import RowLedger.Proofs.RunningSums
import RowLedger.Proofs.SecureCrew
import RowLedger.Proofs.Serial
import RowLedger.Proofs.Standoff
import RowLedger.Proofs.StandoffClock
import RowLedger.Proofs.StandoffMeeting
import RowLedger.Proofs.StandoffPhases
import RowLedger.Proofs.Steps
import RowLedger.Proofs.Tasks
import RowLedger.Proofs.Turns
import RowLedger.Proofs.Undisturbed
import RowLedger.Proofs.Utf8Order
import RowLedger.Proofs.Victims
import RowLedger.Proofs.WaitGraph
import RowLedger.Proofs.Waiting
import RowLedger.Proofs.Walks
import RowLedger.Record
import RowLedger.Retry.Course
import RowLedger.Retry.Fleet
import RowLedger.Retry.Timeline
import RowLedger.Session
import RowLedger.Settings
import RowLedger.Store.Replay
import RowLedger.Store.Run
import RowLedger.Tally
import RowLedger.Traffic
