import RaceConditionZ.RaceState
import RaceConditionZ.SeasonData
import RaceConditionZ.SpscQueue

/-!
# The lap-time consumer

`simulation/lap_time_consumer.{h,cpp}` on its queue: a producer that pushes any frames, the two
loops of `LapTimeConsumer::run`, and the thread that calls `stop`. That thread has stopped the
producer before, as `main` does, so `stop` is called with no push in progress and none follows.
-/

namespace RaceConditionZ

open Transition

/-- `SpscQueue<TelemetryFrame, 2048>`. -/
def telemetryRing : RingSize := ⟨2048, by decide, by decide⟩

/-- A frame as constructed. -/
instance : Inhabited (TelemetryFrame Binary32) where
  default := ⟨.empty, 0, 1, 0, 0, 0, 0, ⟨0x42c80000⟩, false, false, 0, 0⟩

variable {F : Type} [MachineFloat F] [DecidableEq F] [DecidableLT F]

/-- Where `run` is: the head of the first loop and of the drain, a call of `pop` or of
`try_claim_fastest_lap` from one of them, the sleep. -/
inductive LapConsumerPc (F : Type)
  | testStop
  | drain
  | pop (draining : Bool)
  | claim (draining : Bool) (claim : LapClaim F) (pc : ClaimPc F)
  | sleep
  | returned

/-- A call of `LapTimeConsumer::stop`: `request_stop`, then `join`. -/
inductive StopPc
  | notCalled
  | requested
  | returned
deriving DecidableEq

/-- The claim that either loop makes for a frame. -/
def lapClaim (frame : TelemetryFrame F) : Option (LapClaim F) :=
  if 0 < frame.lapTimeMs then
    let idx := driverIndexOf frame.driverId.view
    if 0 ≤ idx then some ⟨idx, frame.lapTimeMs⟩ else none
  else none

/-- `examined` is history: the frames that a loop got from its `pop`. -/
structure PipelineState (F : Type) where
  spsc : SpscState (TelemetryFrame F)
  race : RaceState F
  pc : LapConsumerPc F
  stop : StopPc
  examined : List (TelemetryFrame F)

inductive PipelineLabel (F : Type)
  | callPush (frame : TelemetryFrame F) (byMove : Bool)
  | push
  | consume (spurious : Bool)
  | requestStop
  | join

def LapConsumerPc.next (draining : Bool) : LapConsumerPc F := if draining then .drain else .testStop

namespace PipelineState

variable [Inhabited (TelemetryFrame F)]

def init : PipelineState F := ⟨.init, .initial, .testStop, .notCalled, []⟩

/-- The variable `frame` of `run`. -/
def frame (s : PipelineState F) : Option (TelemetryFrame F) :=
  match s.spsc.consumer with
  | some c => c.out
  | none => some default

/-- A call of `queue_.pop(frame)`. -/
def callPop (s : PipelineState F) (draining : Bool) : Option (PipelineState F) :=
  (s.spsc.step telemetryRing (.callPop s.frame)).map fun spsc =>
    { s with spsc := spsc, pc := .pop draining }

/-- What a loop does with the frame it has popped. -/
def examine (s : PipelineState F) (draining : Bool) (frame : TelemetryFrame F) : PipelineState F :=
  { s with
    examined := s.examined ++ [frame]
    pc := match lapClaim frame with
      | some claim => .claim draining claim .load
      | none => .next draining }

/-- One step of `run`. -/
def consume (s : PipelineState F) (spurious : Bool) : Option (PipelineState F) :=
  match s.pc with
  | .testStop => s.callPop (s.stop ≠ .notCalled)
  | .drain => s.callPop true
  | .pop draining => s.spsc.consumer.bind fun c =>
      match c.pc with
      | .returned true => c.out.map fun frame => s.examine draining frame
      | .returned false => some { s with pc := if draining then .returned else .sleep }
      | _ => (s.spsc.step telemetryRing .pop).map fun spsc => { s with spsc := spsc }
  | .claim draining claim pc =>
    match pc with
    | .returned _ => some { s with pc := .next draining }
    | pc => (s.race.tryClaimFastestLap claim spurious pc).map fun (race, pc) =>
        { s with race := race, pc := .claim draining claim pc }
  | .sleep => some { s with pc := .testStop }
  | .returned => none

def step (s : PipelineState F) : PipelineLabel F → Option (PipelineState F)
  | .callPush frame byMove =>
    if s.stop = .notCalled then
      (s.spsc.step telemetryRing (.callPush frame byMove)).map fun spsc => { s with spsc := spsc }
    else none
  | .push => (s.spsc.step telemetryRing .push).map fun spsc => { s with spsc := spsc }
  | .consume spurious => s.consume spurious
  | .requestStop =>
    if s.stop = .notCalled ∧ s.spsc.producer.all Push.isReturned then
      some { s with stop := .requested }
    else none
  | .join =>
    if s.stop = .requested then
      match s.pc with
      | .returned => some { s with stop := .returned }
      | _ => none
    else none

end PipelineState

/-- The producer, the consumer and `stop`, interleaved in any way. -/
def pipelineSystem (F : Type) [MachineFloat F] [DecidableEq F] [DecidableLT F]
    [Inhabited (TelemetryFrame F)] : System (PipelineState F) (PipelineLabel F) where
  init := .init
  step := PipelineState.step

end RaceConditionZ
