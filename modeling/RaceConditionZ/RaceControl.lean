import RaceConditionZ.Leaderboard
import RaceConditionZ.PenaltyEnforcer
import RaceConditionZ.ThreadPool
import RaceConditionZ.TrackLimits
import RaceConditionZ.Weather

/-!
# The race-control side of the program

Of `main.cpp` the tick callback from its submissions on, with the pool's two workers in the jobs it
submits, and the main thread from the end of its loop to the destructor of the pool. A tick is one
step, up to the callback's first poll: no other thread reads the generator's states.
-/

namespace RaceConditionZ

open Transition

/-- The two jobs of the callback, each with its own future. -/
inductive JobKind
  | check
  | update
deriving DecidableEq

/-- What the submitted lambdas capture. -/
inductive Job
  | check (states : Fin 20 → DriverState) (lap : ℤ)
  | update (lap : ℤ)

def Job.kind : Job → JobKind
  | .check _ _ => .check
  | .update _ => .update

/-- Where the execution of a job is: in the loop of `check`, in `update`, back from either with the
future not yet ready, and with the future ready. -/
inductive JobPc
  | check (rest : List (Fin 20))
  | draw
  | readState
  | writeState (newState : WeatherState)
  | announce (newState : WeatherState)
  | returned
  | ready
deriving DecidableEq

def Job.start : Job → JobPc
  | .check _ _ => .check (List.finRange 20)
  | .update _ => .draw

/-- Where the generator's thread is: at the head of `run`, or in the callback. -/
inductive CallbackPc
  | testStop
  | poll (kind : JobKind)
  | submit (kind : JobKind)
  | callProcess
  | process
  | returned
deriving DecidableEq

/-- What the callback does after a job. -/
def JobKind.after : JobKind → CallbackPc
  | .check => .poll .update
  | .update => .callProcess

/-- Where the main thread is: in its loop, in `generator.stop()`, at the final standings with the
entries still to be printed, past them. -/
inductive MainPc
  | racing
  | joining
  | print (rest : List DriverState)
  | destroy

def MainPc.isRacing : MainPc → Bool
  | .racing => true
  | _ => false

/-- `futures` are the tickets of the tasks behind the callback's two futures. The last three are
history: the inputs of the ticks; each call of `submit`, with the tick it was made in; the events
pushed by `check`. -/
structure RaceControlState where
  generator : TelemetryGenerator
  board : List DriverState
  tickCounter : ℕ
  pc : CallbackPc
  main : MainPc
  pool : PoolState 2 Unit Job
  futures : JobKind → Option ℕ
  ready : List ℕ
  jobs : Fin 2 → JobPc
  weather : WeatherSystem
  enforcer : EnforcerState
  inputs : List TickInput
  submissions : List (JobKind × ℕ)
  detected : List RaceControlEvent

inductive RaceControlLabel
  | tick (x : TickInput)
  | callback (w : Fin 2)
  | drain (found : Bool)
  | process (now : ℤ)
  | worker (w : Fin 2) (coin : ℚ) (now : ℤ)
  | spurious (w : Fin 2)
  | main

/-- What the callback submits. -/
def TelemetryGenerator.job (g : TelemetryGenerator) : JobKind → Job
  | .check => .check g.states g.raceLap
  | .update => .update g.raceLap

namespace RaceControlState

def init (g : TelemetryGenerator) : RaceControlState where
  generator := g
  board := []
  tickCounter := 0
  pc := .testStop
  main := .racing
  pool := .init 2 Unit Job
  futures := fun _ => none
  ready := []
  jobs := fun _ => .ready
  weather := .start
  enforcer := .init
  inputs := []
  submissions := []
  detected := []

variable (s : RaceControlState)

/-- The test of `run` fails. -/
def leaves : Bool := !s.main.isRacing || s.generator.raceFinished

/-- A round of `run`, up to the callback's first poll, or its end. -/
def tick (x : TickInput) : Option RaceControlState :=
  match s.pc with
  | .testStop =>
    if s.leaves then some { s with pc := .returned }
    else
      let g := s.generator.tick x
      some { s with
        generator := g
        board := g.standings
        tickCounter := s.tickCounter + 1
        pc := .poll .check
        inputs := s.inputs ++ [x] }
  | _ => none

/-- The callback's test of its counter. -/
def due : JobKind → Bool
  | .check => s.tickCounter % 9 = 0
  | .update => true

/-- The future is invalid or ready. -/
def idle (kind : JobKind) : Bool :=
  match s.futures kind with
  | none => true
  | some ticket => s.ready.contains ticket

def poll (kind : JobKind) : Option RaceControlState :=
  if s.due kind && s.idle kind then
    (s.pool.step (.callSubmit () (s.generator.job kind))).map fun pool => { s with
      pool := pool
      pc := .submit kind
      submissions := s.submissions ++ [(kind, s.inputs.length)] }
  else some { s with pc := kind.after }

/-- A step of `submit`, or the assignment of the future it returns. -/
def submit (kind : JobKind) (w : Fin 2) : Option RaceControlState :=
  match s.pool.submitters () with
  | some .returned => some { s with
      pc := kind.after
      futures := Function.update s.futures kind (some (s.pool.history.accepted.length - 1)) }
  | _ => (s.pool.step (.submit () w)).map fun pool => { s with pool := pool }

/-- A step of the callback up to the call of `process_events`; `w` is the worker that a
notification wakes. -/
def callback (w : Fin 2) : Option RaceControlState :=
  match s.pc with
  | .poll kind => s.poll kind
  | .submit kind => s.submit kind w
  | .callProcess => (s.enforcer.step .callProcess).map fun enforcer => { s with
      pc := .process
      enforcer := enforcer }
  | _ => none

/-- A step of the drain of `process_events`. -/
def drain (found : Bool) : Option RaceControlState :=
  match s.pc with
  | .process =>
    (s.enforcer.step (.drain found)).map fun enforcer => { s with enforcer := enforcer }
  | _ => none

/-- A step of the loop of `process_events`, or the return of the callback. -/
def process (now : ℤ) : Option RaceControlState :=
  match s.pc, s.enforcer.pc with
  | .process, .idle => some { s with pc := .testStop }
  | .process, _ =>
    (s.enforcer.step (.process now)).map fun enforcer => { s with enforcer := enforcer }
  | _, _ => none

def setJob (w : Fin 2) (pc : JobPc) : RaceControlState :=
  { s with jobs := Function.update s.jobs w pc }

/-- A push onto the event queue. -/
def pushEvent (e : RaceControlEvent) : RaceControlState :=
  { s with enforcer := { s.enforcer with queue := s.enforcer.queue ++ [e] } }

/-- A step of the job that worker `w` executes; `coin` is its draw. -/
def runJob (w : Fin 2) (job : Job) (coin : ℚ) (now : ℤ) : Option RaceControlState :=
  match job, s.jobs w with
  | .check states lap, .check (i :: rest) =>
    match (states i).check lap coin now with
    | some e =>
      some ({ s with detected := s.detected ++ [e] }.pushEvent e |>.setJob w (.check rest))
    | none => some (s.setJob w (.check rest))
  | .check _ _, .check [] => some (s.setJob w .returned)
  | .update lap, .draw =>
    let (weather, goesOn) := s.weather.draw lap coin
    some ({ s with weather := weather }.setJob w (if goesOn then .readState else .returned))
  | .update _, .readState => some (s.setJob w (.writeState s.weather.state.next))
  | .update _, .writeState newState =>
    some ({ s with weather := { s.weather with state := newState } }.setJob w (.announce newState))
  | .update lap, .announce newState =>
    some ((s.pushEvent (WeatherSystem.changeEvent newState lap now)).setJob w .returned)
  | _, _ => none

/-- A step of worker `w`: of the job in its hand, or of `worker_loop`. -/
def worker (w : Fin 2) (coin : ℚ) (now : ℤ) : Option RaceControlState :=
  match s.pool.pool.workers w, s.jobs w with
  | .running _, .ready => (s.pool.step (.worker w)).map fun pool => { s with pool := pool }
  | .running task, .returned => some ({ s with ready := task.ticket :: s.ready }.setJob w .ready)
  | .running task, _ => s.runJob w task.callable coin now
  | _, _ => (s.pool.step (.worker w)).map fun pool =>
    match pool.pool.workers w with
    | .running task => { s with pool := pool }.setJob w task.callable.start
    | _ => { s with pool := pool }

/-- A step of the main thread. -/
def mainStep : Option RaceControlState :=
  match s.main with
  | .racing => some { s with main := .joining }
  | .joining => if s.pc = .returned then some { s with main := .print s.board } else none
  | .print (_ :: rest) => some { s with main := .print rest }
  | .print [] => some { s with main := .destroy }
  | .destroy => (s.pool.step .destroy).map fun pool => { s with pool := pool }

def step : RaceControlLabel → Option RaceControlState
  | .tick x => s.tick x
  | .callback w => s.callback w
  | .drain found => s.drain found
  | .process now => s.process now
  | .worker w coin now => s.worker w coin now
  | .spurious w => (s.pool.step (.spurious w)).map fun pool => { s with pool := pool }
  | .main => s.mainStep

end RaceControlState

/-- The generator's thread, the two workers and the main thread, interleaved in any way. -/
def raceControlSystem (start : TelemetryGenerator) :
    System RaceControlState RaceControlLabel where
  init := .init start
  step := RaceControlState.step

end RaceConditionZ
