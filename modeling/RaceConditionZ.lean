import RaceConditionZ.Lib.Transition
import RaceConditionZ.Lib.MachineFloat
import RaceConditionZ.SeasonData
import RaceConditionZ.Proofs.FastestLap
import RaceConditionZ.Lib.Fifo
import RaceConditionZ.Proofs.SpscFifo
import RaceConditionZ.Proofs.MpscLifetime
import RaceConditionZ.Proofs.PoolDrain
import RaceConditionZ.Proofs.EventQueue
import RaceConditionZ.Proofs.PipelineShutdown
import RaceConditionZ.Proofs.RaceEnd
import RaceConditionZ.Proofs.WakeUp
import RaceConditionZ.Proofs.SlotOwnership
import RaceConditionZ.Proofs.Ranking
import RaceConditionZ.Proofs.LapAccounting
import RaceConditionZ.Proofs.FinalClassification
import RaceConditionZ.Proofs.DriverLimits
import RaceConditionZ.Proofs.Gaps
import RaceConditionZ.Proofs.Boards
import RaceConditionZ.Telemetry
import RaceConditionZ.Proofs.LapRecords
import RaceConditionZ.TrackLimits
import RaceConditionZ.Weather
import RaceConditionZ.RaceControl
import RaceConditionZ.Proofs.RaceControlMoves
import RaceConditionZ.Proofs.SingleFlight
import RaceConditionZ.Proofs.PenaltiesAtFlag
import RaceConditionZ.Proofs.CallbackRounds
import RaceConditionZ.Proofs.PitEntry
import RaceConditionZ.Proofs.PenaltiesServed
import RaceConditionZ.Proofs.PitStops
import RaceConditionZ.Proofs.Progress
import RaceConditionZ.Proofs.TelemetryRanges
import RaceConditionZ.Proofs.Sectors
import RaceConditionZ.Proofs.LapMarkers
import RaceConditionZ.Lib.Mealy
import RaceConditionZ.Proofs.WeatherHistory
import RaceConditionZ.Proofs.TrackLimitsOrder
import RaceConditionZ.Proofs.Batches
import RaceConditionZ.Proofs.WriterThreads
import RaceConditionZ.Proofs.LapCount
import RaceConditionZ.Proofs.RunSchedule
import RaceConditionZ.Lib.Stretch
import RaceConditionZ.Proofs.SizeApprox
import RaceConditionZ.Lib.Potential
import RaceConditionZ.Proofs.LockFree
import RaceConditionZ.Proofs.PoolShutdown
import RaceConditionZ.Program
import RaceConditionZ.Proofs.ProgramMoves
import RaceConditionZ.Proofs.ProgramSides
import RaceConditionZ.Proofs.Screens
import RaceConditionZ.Proofs.Printout
import RaceConditionZ.Proofs.ConsumerShutdown
import RaceConditionZ.Proofs.Unblocked
import RaceConditionZ.Proofs.WorkLeft
import RaceConditionZ.Proofs.MainReturns
import RaceConditionZ.Proofs.QueueRefinement
import RaceConditionZ.Proofs.QueuedDrain
import RaceConditionZ.Proofs.WeatherSerial
import RaceConditionZ.Proofs.WeatherShown
import RaceConditionZ.EnforcerThreads
import RaceConditionZ.Proofs.ThreadsPenalty
import RaceConditionZ.Proofs.DroppedFrames
