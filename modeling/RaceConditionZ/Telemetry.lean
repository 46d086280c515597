import RaceConditionZ.LapTimeConsumer
import RaceConditionZ.Leaderboard

/-!
# The telemetry side of the program

The generator, its queue, the lap-time consumer and the board as `main.cpp` wires them: `run` driver
by driver, with each `push` step by step, of the tick callback the calls of `update` and `set_lap`,
and the main thread's two calls of `stop`, which may come at any time.
-/

namespace RaceConditionZ

open Transition

instance : Inhabited (TelemetryFrame ℚ) where
  default := ⟨.empty, 0, 1, 0, 0, 0, 0, 100, false, false, 0, 0⟩

/-- Where `TelemetryGenerator::run` is: at the head of its loop, in the loop of `tick` with the
drivers still to come, in the `push` of a frame, or back. -/
inductive GeneratorPc
  | testStop
  | drive (rest : List (Fin 20))
  | push (rest : List (Fin 20))
  | returned
deriving DecidableEq

/-- `laps` and `refused` are history: the laps completed, and how many pushes returned false. -/
structure TelemetryState (θ : Type) where
  generator : TelemetryGenerator
  pc : GeneratorPc
  stop : StopPc
  pipeline : PipelineState ℚ
  board : Leaderboard θ
  laps : List (LapClaim ℚ)
  refused : ℕ

inductive TelemetryLabel
  | generate (x : DriverInput)
  | consume (spurious : Bool)
  | main

namespace PipelineState

variable {F : Type}

def setLap (s : PipelineState F) (lap : ℤ) : PipelineState F :=
  { s with race := s.race.setLap lap }

variable (s : PipelineState F) (lap : ℤ)

@[simp]
theorem setLap_spsc : (s.setLap lap).spsc = s.spsc := rfl

@[simp]
theorem setLap_stop : (s.setLap lap).stop = s.stop := rfl

@[simp]
theorem setLap_currentLap : (s.setLap lap).race.currentLap = lap := rfl

end PipelineState

namespace TelemetryState

variable {θ : Type}

def init (g : TelemetryGenerator) : TelemetryState θ where
  generator := g
  pc := .testStop
  stop := .notCalled
  pipeline := .init
  board := .empty
  laps := []
  refused := 0

/-- The loop body of `tick` at driver `i`, up to the call of `push`. -/
def drive (s : TelemetryState θ) (x : DriverInput) (i : Fin 20) (rest : List (Fin 20)) :
    Option (TelemetryState θ) :=
  let g := s.generator.tickDriver (fun _ => x) i
  let frame := (g.states i).latestFrame
  (s.pipeline.step (.callPush frame false)).map fun pipeline => { s with
    generator := g
    pc := .push rest
    pipeline := pipeline
    laps := s.laps ++ if (s.generator.states i).crossesLine s.generator.track x.noise then
      [⟨(i : ℕ), frame.lapTimeMs⟩] else [] }

/-- The rest of `tick`. -/
def publish [DecidableEq θ] (s : TelemetryState θ) (tid : θ) : Option (TelemetryState θ) :=
  let g := s.generator.updatePositionsAndDrs
  (s.board.update tid g.standings).map fun board => { s with
    generator := g
    pc := .testStop
    pipeline := s.pipeline.setLap g.raceLap
    board := board }

/-- A step of the generator's thread `tid`; `x` is what the loop body of `tick` reads. -/
def generate [DecidableEq θ] (s : TelemetryState θ) (tid : θ) (x : DriverInput) :
    Option (TelemetryState θ) :=
  match s.pc with
  | .testStop =>
    if s.stop ≠ .notCalled ∨ s.generator.raceFinished then some { s with pc := .returned }
    else some { s with pc := .drive (List.finRange 20) }
  | .drive (i :: rest) => s.drive x i rest
  | .push rest => s.pipeline.spsc.producer.bind fun p =>
    match p.pc with
    | .returned ok => some { s with
        pc := .drive rest
        refused := if ok then s.refused else s.refused + 1 }
    | _ => (s.pipeline.step .push).map fun pipeline => { s with pipeline := pipeline }
  | .drive [] => s.publish tid
  | .returned => none

/-- A step of the main thread: `generator.stop()`, then `lap_consumer.stop()`. -/
def main (s : TelemetryState θ) : Option (TelemetryState θ) :=
  match s.stop with
  | .notCalled => some { s with stop := .requested }
  | .requested => if s.pc = .returned then some { s with stop := .returned } else none
  | .returned =>
    let call := if s.pipeline.stop = .notCalled then .requestStop else .join
    (s.pipeline.step call).map fun pipeline => { s with pipeline := pipeline }

def step [DecidableEq θ] (tid : θ) (s : TelemetryState θ) :
    TelemetryLabel → Option (TelemetryState θ)
  | .generate x => s.generate tid x
  | .consume spurious =>
    (s.pipeline.step (.consume spurious)).map fun pipeline => { s with pipeline := pipeline }
  | .main => s.main

end TelemetryState

/-- The generator's thread `tid`, the consumer's thread and the main thread, interleaved in any
way. -/
def telemetrySystem {θ : Type} [DecidableEq θ] (tid : θ) (g : TelemetryGenerator) :
    System (TelemetryState θ) TelemetryLabel where
  init := .init g
  step := TelemetryState.step tid

end RaceConditionZ
