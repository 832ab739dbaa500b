import ProbeGuidedInference.Lib.Fallible
import ProbeGuidedInference.Lib.Runs
import ProbeGuidedInference.Lib.Lockstep
import ProbeGuidedInference.Lib.Padding
import ProbeGuidedInference.Lib.Fifo
import ProbeGuidedInference.Lib.Rounds
import ProbeGuidedInference.Lib.FirstCome
import ProbeGuidedInference.Lib.Interpolation
import ProbeGuidedInference.Lib.Regex
import ProbeGuidedInference.Lib.Segments
import ProbeGuidedInference.Lib.Utf8
import ProbeGuidedInference.Errors
import ProbeGuidedInference.CacheBridge
import ProbeGuidedInference.CacheBridgeExact
import ProbeGuidedInference.Queue
import ProbeGuidedInference.Model
import ProbeGuidedInference.Batcher
import ProbeGuidedInference.Runner
import ProbeGuidedInference.Scheduler
import ProbeGuidedInference.Lifecycle
import ProbeGuidedInference.Effects
import ProbeGuidedInference.Refinement
import ProbeGuidedInference.Logbook
import ProbeGuidedInference.Filling
import ProbeGuidedInference.Swapping
import ProbeGuidedInference.Progress
import ProbeGuidedInference.TableModel
import ProbeGuidedInference.Conservation
import ProbeGuidedInference.Streaming
import ProbeGuidedInference.FinishReasons
import ProbeGuidedInference.Checkpoint
import ProbeGuidedInference.PriorityOrder
import ProbeGuidedInference.PreemptionRule
import ProbeGuidedInference.Drain
import ProbeGuidedInference.Solo
import ProbeGuidedInference.FairOrder
import ProbeGuidedInference.BoundedPreemption
import ProbeGuidedInference.TickBoundary
import ProbeGuidedInference.ProbeTerminate
import ProbeGuidedInference.DivergentPays
import ProbeGuidedInference.WorkConservation
import ProbeGuidedInference.FailedAdmission
import ProbeGuidedInference.NoThrashing
import ProbeGuidedInference.Unprobed
import ProbeGuidedInference.StrategyControl
import ProbeGuidedInference.TokenBudget
import ProbeGuidedInference.RoutingFields
import ProbeGuidedInference.StepAtomicity
import ProbeGuidedInference.Report
import ProbeGuidedInference.Percentile
import ProbeGuidedInference.LatencyBreakdown
import ProbeGuidedInference.Probe
import ProbeGuidedInference.Server
import ProbeGuidedInference.DimensionCheck
import ProbeGuidedInference.AnswerExtraction
import ProbeGuidedInference.StreamedText
import ProbeGuidedInference.Serving
import ProbeGuidedInference.Benchmark
import ProbeGuidedInference.BenchmarkRun
import ProbeGuidedInference.EvalRecords
import ProbeGuidedInference.StrategyComparison
import ProbeGuidedInference.Summary
import ProbeGuidedInference.ParityCheck
import ProbeGuidedInference.BoundedWait
import ProbeGuidedInference.WorkAccounting
import ProbeGuidedInference.Endpoints
import ProbeGuidedInference.ProbeTraining
import ProbeGuidedInference.Twins
import ProbeGuidedInference.Reproducible
import ProbeGuidedInference.Makespan
import ProbeGuidedInference.ServiceOrder
