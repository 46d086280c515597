import Mathlib.Data.Fintype.Option
import RaceConditionZ.MpscQueue
import RaceConditionZ.PenaltyEnforcer

/-!
# The enforcer on its queue

`PenaltyEnforcer` on the `MpscQueue` that it consumes and pushes onto: threads that push events, and
the calls of `process_events` with each `pop` and each `push` of theirs step by step.
-/

namespace RaceConditionZ

open Transition

/-- `RaceControlEvent {}`. -/
instance : Inhabited RaceControlEvent where
  default := ⟨.trackLimits, .empty, 0, "", 0⟩

/-- Where a call of `process_events` is: at a step of its own, in a `pop`, or in a `push`. -/
inductive QueuedPc
  | own (pc : ProcessPc)
  | pop (batch : List RaceControlEvent)
  | push (e : RaceControlEvent) (i : Fin 20) (batch : List RaceControlEvent)

/-- The enforcer and its queue, whose producer `none` is the enforcer itself; the last two are
history as in `EnforcerState`. -/
structure QueuedEnforcer (ι : Type) where
  enforcer : PenaltyEnforcer
  events : MpscState (Option ι) RaceControlEvent
  pc : QueuedPc
  handled : List RaceControlEvent
  announced : List RaceControlEvent

inductive QueuedLabel (ι : Type)
  | callPush (i : ι) (e : RaceControlEvent)
  | push (i : ι) (address : ℕ)
  | callProcess
  | process (now : ℤ) (address : ℕ)
  | enteredPits (id : String)
  | exitedPits (id : String)

namespace QueuedEnforcer

variable {ι : Type}

def init : QueuedEnforcer ι := ⟨.start, .init, .own .idle, [], []⟩

variable (s : QueuedEnforcer ι)

/-- The state of the enforcer at a step that does not touch the queue. -/
def unqueued (pc : ProcessPc) : EnforcerState := ⟨s.enforcer, [], pc, s.handled, s.announced⟩

def withUnqueued (e : EnforcerState) : QueuedEnforcer ι :=
  { s with
    enforcer := e.enforcer
    pc := .own e.pc
    handled := e.handled
    announced := e.announced }

/-- The variable `ev`: moved from since the latest pop of the call. -/
def ev (batch : List RaceControlEvent) : Option RaceControlEvent :=
  if batch.isEmpty then some default else none

variable [DecidableEq ι] [Fintype ι]

/-- A step of `process_events`; `address` is where the allocator puts a node. -/
def process (now : ℤ) (address : ℕ) : Option (QueuedEnforcer ι) :=
  match s.pc with
  | .own (.drain batch) => (s.events.step (.callPop (ev batch))).map fun events => { s with
      events := events
      pc := .pop batch }
  | .pop batch => s.events.consumer.bind fun c =>
      match c.pc with
      | .returned true => c.out.map fun e => { s with pc := .own (.drain (batch ++ [e])) }
      | .returned false => some { s with pc := .own (.loop batch) }
      | _ => (s.events.step .pop).map fun events => { s with events := events }
  | .own (.push e i batch) =>
    (s.events.step (.callPush none (PenaltyEnforcer.penaltyIssued e now))).map fun events =>
      { s with
        events := events
        pc := .push e i batch }
  | .push _ i batch => (s.events.producers none).bind fun p =>
      match p.pc with
      | .returned => some { s with pc := .own (.store i batch) }
      | pc => (s.events.step (.push none address)).map fun events => { s with
          events := events
          announced := s.announced ++ match pc with
            | .exchange _ => [p.value]
            | _ => [] }
  | .own pc => ((s.unqueued pc).process now).map s.withUnqueued

def step : QueuedLabel ι → Option (QueuedEnforcer ι)
  | .callPush i e =>
    (s.events.step (.callPush (some i) e)).map fun events => { s with events := events }
  | .push i address =>
    (s.events.step (.push (some i) address)).map fun events => { s with events := events }
  | .callProcess =>
    match s.pc with
    | .own .idle => some { s with pc := .own (.drain []) }
    | _ => none
  | .process now address => s.process now address
  | .enteredPits id => some { s with enforcer := s.enforcer.driverEnteredPits id }
  | .exitedPits id => some { s with enforcer := s.enforcer.driverExitedPits id }

end QueuedEnforcer

/-- Any number of threads that push, and one that calls `process_events`, interleaved in any way. -/
def queuedSystem (ι : Type) [DecidableEq ι] [Fintype ι] :
    System (QueuedEnforcer ι) (QueuedLabel ι) where
  init := .init
  step := fun s => s.step

end RaceConditionZ
