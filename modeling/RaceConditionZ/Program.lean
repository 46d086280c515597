import RaceConditionZ.RaceControl
import RaceConditionZ.Telemetry

/-!
# The program

`main.cpp` on its one state: the generator's thread with its callback, the lap-time consumer, the
two workers of the pool and the main thread. The telemetry side and the race-control side are views
of that state, and a step that concerns one side only is taken there.
-/

namespace RaceConditionZ

open Transition

/-- Where the generator's thread is: in `run` and the loop of `tick`, in the callback between
`update` and the end of `set_lap`, in the rest of the callback, or back. -/
inductive RunPc
  | testStop
  | drive (rest : List (Fin 20))
  | push (rest : List (Fin 20))
  | setLap
  | poll (kind : JobKind)
  | submit (kind : JobKind)
  | callProcess
  | process
  | returned
deriving DecidableEq

namespace RunPc

def ofGenerator : GeneratorPc → RunPc
  | .testStop => .testStop
  | .drive rest => .drive rest
  | .push rest => .push rest
  | .returned => .returned

def ofCallback : CallbackPc → RunPc
  | .testStop => .testStop
  | .poll kind => .poll kind
  | .submit kind => .submit kind
  | .callProcess => .callProcess
  | .process => .process
  | .returned => .returned

/-- What the telemetry side sees: the callback past `set_lap` is none of its. -/
def generator : RunPc → GeneratorPc
  | .drive rest => .drive rest
  | .push rest => .push rest
  | .returned => .returned
  | _ => .testStop

/-- What the race-control side sees: a tick comes with its callback. -/
def callback : RunPc → CallbackPc
  | .setLap => .poll .check
  | .poll kind => .poll kind
  | .submit kind => .submit kind
  | .callProcess => .callProcess
  | .process => .process
  | .returned => .returned
  | _ => .testStop

/-- In the loop of `tick`. -/
def inTick : RunPc → Bool
  | .drive _ | .push _ => true
  | _ => false

end RunPc

/-- What an iteration of the main thread's loop prints: the line of the lap and the weather, and the
rows of the drivers with their penalties. -/
structure Screen where
  lap : ℤ
  weather : WeatherState
  gripFactor : ℚ
  rows : List (DriverState × PenaltyState)

/-- What the main thread prints last: the lap in `RACE FINISHED`, the final standings with their
penalties, the index and the time in the line of the fastest lap. -/
structure FinalReport where
  lap : Option ℤ
  standings : List (DriverState × PenaltyState)
  fastestLap : Option (ℤ × ℚ)

/-- Where the main thread is: in its loop, with the standings it has read and what it has printed of
them; in the two calls of `stop`; in the final printout; at the end of `main`. -/
inductive ConsolePc
  | testFinished
  | snapshot
  | getLap (standings : List DriverState)
  | getWeather (standings : List DriverState) (lap : ℤ)
  | getGrip (standings : List DriverState) (lap : ℤ) (weather : WeatherState)
  | rows (screen : Screen) (rest : List DriverState)
  | stopGenerator
  | joinGenerator
  | stopConsumer
  | joinConsumer
  | finalLap
  | finalSnapshot
  | classify (rest : List DriverState)
  | fastestHolder
  | fastestTime (holder : ℤ)
  | destroy

namespace ConsolePc

/-- How far `generator.stop()` is. -/
def stop : ConsolePc → StopPc
  | .testFinished | .snapshot | .getLap _ | .getWeather _ _ | .getGrip _ _ _ | .rows _ _
  | .stopGenerator => .notCalled
  | .joinGenerator => .requested
  | _ => .returned

/-- What the race-control side sees. -/
def ending : ConsolePc → MainPc
  | .testFinished | .snapshot | .getLap _ | .getWeather _ _ | .getGrip _ _ _ | .rows _ _
  | .stopGenerator => .racing
  | .joinGenerator | .stopConsumer | .joinConsumer | .finalLap | .finalSnapshot => .joining
  | .classify rest => .print rest
  | .fastestHolder | .fastestTime _ => .print []
  | .destroy => .destroy

end ConsolePc

/-- The last seven are history: what `TelemetryState` and `RaceControlState` keep, with the inputs
of the tick in progress, and what has been printed. -/
structure ProgramState (θ : Type) where
  generator : TelemetryGenerator
  pc : RunPc
  pipeline : PipelineState ℚ
  board : Leaderboard θ
  tickCounter : ℕ
  pool : PoolState 2 Unit Job
  futures : JobKind → Option ℕ
  ready : List ℕ
  jobs : Fin 2 → JobPc
  weather : WeatherSystem
  enforcer : EnforcerState
  main : ConsolePc
  laps : List (LapClaim ℚ)
  refused : ℕ
  inputs : List TickInput
  input : TickInput
  submissions : List (JobKind × ℕ)
  detected : List RaceControlEvent
  screens : List Screen
  report : FinalReport

/-- `timeout` says that the main thread has waited for its 60 seconds. -/
inductive ProgramLabel
  | generate (x : DriverInput)
  | callback (w : Fin 2)
  | drain (found : Bool)
  | process (now : ℤ)
  | consume (spurious : Bool)
  | worker (w : Fin 2) (coin : ℚ) (now : ℤ)
  | spurious (w : Fin 2)
  | main (timeout : Bool)

namespace ProgramState

variable {θ : Type}

def init (g : TelemetryGenerator) : ProgramState θ where
  generator := g
  pc := .testStop
  pipeline := .init
  board := .empty
  tickCounter := 0
  pool := .init 2 Unit Job
  futures := fun _ => none
  ready := []
  jobs := fun _ => .ready
  weather := .start
  enforcer := .init
  main := .testFinished
  laps := []
  refused := 0
  inputs := []
  input := fun _ => ⟨0, 0⟩
  submissions := []
  detected := []
  screens := []
  report := ⟨none, [], none⟩

variable (s : ProgramState θ)

/-- The telemetry side. -/
def telemetry : TelemetryState θ where
  generator := s.generator
  pc := s.pc.generator
  stop := s.main.stop
  pipeline := s.pipeline
  board := s.board
  laps := s.laps
  refused := s.refused

/-- The race-control side. -/
def raceControl : RaceControlState where
  generator := s.generator
  board := s.board.standings
  tickCounter := s.tickCounter
  pc := s.pc.callback
  main := s.main.ending
  pool := s.pool
  futures := s.futures
  ready := s.ready
  jobs := s.jobs
  weather := s.weather
  enforcer := s.enforcer
  inputs := s.inputs
  submissions := s.submissions
  detected := s.detected

/-- A step of the telemetry side on the generator's thread. -/
def withTelemetry (t : TelemetryState θ) : ProgramState θ :=
  { s with
    generator := t.generator
    pc := .ofGenerator t.pc
    pipeline := t.pipeline
    laps := t.laps
    refused := t.refused }

/-- A step of the race-control side on the generator's thread. -/
def withCallback (c : RaceControlState) : ProgramState θ :=
  { s with
    pc := .ofCallback c.pc
    pool := c.pool
    futures := c.futures
    enforcer := c.enforcer
    submissions := c.submissions }

/-- A step of the race-control side on a worker's thread. -/
def withWorker (c : RaceControlState) : ProgramState θ :=
  { s with
    pool := c.pool
    ready := c.ready
    jobs := c.jobs
    weather := c.weather
    enforcer := c.enforcer
    detected := c.detected }

/-- The rest of `tick`, up to the return of `update` in the callback. -/
def publish [DecidableEq θ] (tid : θ) : Option (ProgramState θ) :=
  let g := s.generator.updatePositionsAndDrs
  (s.board.update tid g.standings).map fun board => { s with
    generator := g
    pc := .setLap
    board := board
    inputs := s.inputs ++ [s.input] }

/-- A step of `run` and `tick` on the thread `tid`, and of the callback up to `++tick_counter`. -/
def generate [DecidableEq θ] (tid : θ) (x : DriverInput) : Option (ProgramState θ) :=
  match s.pc with
  | .testStop | .push _ => (s.telemetry.generate tid x).map s.withTelemetry
  | .drive (i :: _) => (s.telemetry.generate tid x).map fun t =>
    { s.withTelemetry t with input := Function.update s.input i x }
  | .drive [] => s.publish tid
  | .setLap => some { s with
      pipeline := s.pipeline.setLap s.generator.raceLap
      tickCounter := s.tickCounter + 1
      pc := .poll .check }
  | _ => none

/-- A step of the callback up to the call of `process_events`. -/
def callback (w : Fin 2) : Option (ProgramState θ) :=
  match s.pc with
  | .poll _ | .submit _ | .callProcess => (s.raceControl.callback w).map s.withCallback
  | _ => none

/-- A step of the main thread's loop that prints the row of `entry`. -/
def printRow (screen : Screen) (entry : DriverState) : Screen :=
  { screen with
    rows := screen.rows ++ [(entry, s.enforcer.enforcer.penaltyState entry.profile.id)] }

/-- A step of the main thread. -/
def console (timeout : Bool) : Option (ProgramState θ) :=
  match s.main with
  | .testFinished =>
    if s.generator.raceFinished || timeout then some { s with main := .stopGenerator }
    else some { s with main := .snapshot }
  | .snapshot =>
    let standings := s.board.snapshot
    if standings.isEmpty then some { s with main := .testFinished }
    else some { s with main := .getLap standings }
  | .getLap standings => some { s with main := .getWeather standings s.pipeline.race.currentLap }
  | .getWeather standings lap => some { s with main := .getGrip standings lap s.weather.current }
  | .getGrip standings lap weather => some { s with
      main := .rows ⟨lap, weather, s.weather.gripFactor, []⟩ (standings.take 10) }
  | .rows screen (entry :: rest) => some { s with main := .rows (s.printRow screen entry) rest }
  | .rows screen [] => some { s with main := .testFinished, screens := s.screens ++ [screen] }
  | .stopGenerator => some { s with main := .joinGenerator }
  | .joinGenerator => if s.pc = .returned then some { s with main := .stopConsumer } else none
  | .stopConsumer => (s.pipeline.step .requestStop).map fun pipeline =>
    { s with pipeline := pipeline, main := .joinConsumer }
  | .joinConsumer => (s.pipeline.step .join).map fun pipeline =>
    { s with pipeline := pipeline, main := .finalLap }
  | .finalLap => some { s with
      main := .finalSnapshot
      report := { s.report with lap := some s.pipeline.race.currentLap } }
  | .finalSnapshot => some { s with main := .classify s.board.snapshot }
  | .classify (entry :: rest) => some { s with
      main := .classify rest
      report := { s.report with standings := s.report.standings
        ++ [(entry, s.enforcer.enforcer.penaltyState entry.profile.id)] } }
  | .classify [] => some { s with main := .fastestHolder }
  | .fastestHolder =>
    let holder := s.pipeline.race.fastestLapHolder
    if 0 ≤ holder ∧ holder < drivers.length then some { s with main := .fastestTime holder }
    else some { s with main := .destroy }
  | .fastestTime holder => some { s with
      main := .destroy
      report := { s.report with fastestLap := some (holder, s.pipeline.race.fastestLapMs) } }
  | .destroy => (s.pool.step .destroy).map fun pool => { s with pool := pool }

def step [DecidableEq θ] (tid : θ) : ProgramLabel → Option (ProgramState θ)
  | .generate x => s.generate tid x
  | .callback w => s.callback w
  | .drain found =>
    match s.pc with
    | .process => (s.raceControl.drain found).map s.withCallback
    | _ => none
  | .process now =>
    match s.pc with
    | .process => (s.raceControl.process now).map s.withCallback
    | _ => none
  | .consume spurious =>
    (s.pipeline.step (.consume spurious)).map fun pipeline => { s with pipeline := pipeline }
  | .worker w coin now => (s.raceControl.worker w coin now).map s.withWorker
  | .spurious w => (s.pool.step (.spurious w)).map fun pool => { s with pool := pool }
  | .main timeout => s.console timeout

end ProgramState

/-- All threads, interleaved in any way; `tid` is the id of the generator's. -/
def programSystem {θ : Type} [DecidableEq θ] (tid : θ) (start : TelemetryGenerator) :
    System (ProgramState θ) ProgramLabel where
  init := .init start
  step := fun s => s.step tid

end RaceConditionZ
