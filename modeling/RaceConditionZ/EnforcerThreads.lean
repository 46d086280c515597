import RaceConditionZ.PenaltyEnforcer

/-!
# The enforcer on several threads

The loop of `process_events` on any number of threads at once, as `penalty_enforcer.h` allows for
when it explains the compare-and-exchange. The drain is left out, since a queue has one consumer: a
loop runs over any batch.
-/

namespace RaceConditionZ

open Transition

/-- One enforcer, and where the loop of each thread is; the last two are history as in
`EnforcerState`. -/
structure EnforcerThreads (ι : Type) where
  enforcer : PenaltyEnforcer
  queue : List RaceControlEvent
  loops : ι → ProcessPc
  handled : List RaceControlEvent
  announced : List RaceControlEvent

inductive LoopsLabel (ι : Type)
  | start (a : ι) (batch : List RaceControlEvent)
  | process (a : ι) (now : ℤ)
  | enteredPits (id : String)
  | exitedPits (id : String)

namespace EnforcerThreads

variable {ι : Type}

def init : EnforcerThreads ι := ⟨.start, [], fun _ => .idle, [], []⟩

variable (s : EnforcerThreads ι)

/-- What the loop at `pc` works on. -/
def view (pc : ProcessPc) : EnforcerState := ⟨s.enforcer, s.queue, pc, s.handled, s.announced⟩

variable [DecidableEq ι]

/-- Thread `a` has taken a step of its loop. -/
def withLoop (a : ι) (e : EnforcerState) : EnforcerThreads ι where
  enforcer := e.enforcer
  queue := e.queue
  loops := Function.update s.loops a e.pc
  handled := e.handled
  announced := e.announced

def step : LoopsLabel ι → Option (EnforcerThreads ι)
  | .start a batch =>
    match s.loops a with
    | .idle => some { s with loops := Function.update s.loops a (.loop batch) }
    | _ => none
  | .process a now => ((s.view (s.loops a)).process now).map (s.withLoop a)
  | .enteredPits id => some { s with enforcer := s.enforcer.driverEnteredPits id }
  | .exitedPits id => some { s with enforcer := s.enforcer.driverExitedPits id }

end EnforcerThreads

/-- The loops and the calls about pit stops, interleaved in any way. -/
def loopsSystem (ι : Type) [DecidableEq ι] : System (EnforcerThreads ι) (LoopsLabel ι) where
  init := .init
  step := fun s => s.step

end RaceConditionZ
