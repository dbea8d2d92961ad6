import Snoozer.FilteredRefinement
import Snoozer.LostWake
import Snoozer.ParkerOperations
import Snoozer.ParkerPublication
import Snoozer.RunReplay
import Snoozer.RestoreContract
import Snoozer.Supervision
import Snoozer.JournalHistory
import Snoozer.DrainHandshake
import Snoozer.AcceptedImage
import Snoozer.PreflightGate
import Snoozer.PreflightVerdict
import Snoozer.CycleBudgets
import Snoozer.ProbeTiming
import Snoozer.AbortedApply
import Snoozer.DependencyGraph
import Snoozer.TscSkew
import Snoozer.AtomicWrite
import Snoozer.GapSchedule
import Snoozer.JsonlOutput
import Snoozer.Results
import Snoozer.DecimalLiteral
import Snoozer.MaximalRanges
import Snoozer.CpuList
import Snoozer.Topology
import Snoozer.LatencyEvents
import Snoozer.TrialShutdown
import Snoozer.ReexecArguments
import Snoozer.PolicyAgreement
import Snoozer.BuildHandshake
import Snoozer.OutputPublication
import Snoozer.ControlProof
import Snoozer.BenchmarkArguments
import Snoozer.BenchmarkMatrix
import Snoozer.MeasurementRun
import Snoozer.FrontGates
