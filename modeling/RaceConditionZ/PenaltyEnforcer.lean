import RaceConditionZ.Lib.Transition
import RaceConditionZ.SeasonData
import Mathlib.Logic.Function.Basic

/-!
# The penalty enforcer

`race_control/penalty_enforcer.{h,cpp}`, first as calls that run to their end, then with
`process_events` taken step by step. The event queue is the list of its waiting events. Where pushes
are in flight `pop` may fail before the queue is empty, so a drain may end anywhere.
-/

namespace RaceConditionZ

open Transition

/-- `PenaltyEnforcer`; a counter is an `int` and wraps. -/
structure PenaltyEnforcer where
  warnings : Fin 20 → BitVec 32
  states : Fin 20 → PenaltyState
  extraPitTime : Fin 20 → BitVec 32

namespace PenaltyEnforcer

/-- An enforcer as constructed. -/
def start : PenaltyEnforcer := ⟨fun _ => 0, fun _ => .none, fun _ => 0⟩

/-- `driver_index`, with `none` for -1. -/
def driverIndex (id : String) : Option (Fin 20) :=
  (List.finRange 20).find? fun i => (drivers.get i).id == id

/-- `warnings_[i].fetch_add(1)`. -/
def fetchAdd (p : PenaltyEnforcer) (i : Fin 20) : PenaltyEnforcer :=
  { p with warnings := Function.update p.warnings i (p.warnings i + 1) }

/-- `states_[i].compare_exchange_strong`; `none` where it fails. -/
def compareExchange (p : PenaltyEnforcer) (i : Fin 20) (expected desired : PenaltyState) :
    Option PenaltyEnforcer :=
  if p.states i = expected then some { p with states := Function.update p.states i desired }
  else none

/-- `extra_pit_time_[i].store(3)`. -/
def storePitTime (p : PenaltyEnforcer) (i : Fin 20) : PenaltyEnforcer :=
  { p with extraPitTime := Function.update p.extraPitTime i 3 }

/-- The event pushed for the third warning `e`. -/
def penaltyIssued (e : RaceControlEvent) (now : ℤ) : RaceControlEvent where
  type := .penaltyIssued
  driverId := e.driverId
  lap := e.lap
  message := e.driverId.view ++ " - 5 second penalty (track limits)"
  timestamp := now

/-- The driver whose warning an event is: what the loop's two `continue`s let through. -/
def warned (e : RaceControlEvent) : Option (Fin 20) :=
  if e.type ≠ .trackLimits then none else driverIndex e.driverId.view

/-- The body of the loop of `process_events`: the enforcer after it, and the event it pushes. -/
def handle (p : PenaltyEnforcer) (e : RaceControlEvent) (now : ℤ) :
    PenaltyEnforcer × Option RaceControlEvent :=
  match warned e with
  | none => (p, none)
  | some i =>
    let count := p.warnings i + 1
    let p := p.fetchAdd i
    if count = 3 then
      match p.compareExchange i .none .pending with
      | some p => (p.storePitTime i, some (penaltyIssued e now))
      | none => (p, none)
    else (p, none)

/-- The loop over the batch, each event with the time at its turn, pushing onto the queue. -/
def handleAll (p : PenaltyEnforcer) (queue : List RaceControlEvent) :
    List (RaceControlEvent × ℤ) → PenaltyEnforcer × List RaceControlEvent
  | [] => (p, queue)
  | (e, now) :: batch =>
    let (p, announced) := p.handle e now
    p.handleAll (queue ++ announced.toList) batch

/-- The events that the loop pushes. -/
def announcements (p : PenaltyEnforcer) : List (RaceControlEvent × ℤ) → List RaceControlEvent
  | [] => []
  | (e, now) :: batch =>
    let (p, announced) := p.handle e now
    announced.toList ++ p.announcements batch

/-- `while (events_.pop(ev)) batch.push_back(std::move(ev))`, the batch and what is left. -/
def popAll (batch : List RaceControlEvent) :
    List RaceControlEvent → List RaceControlEvent × List RaceControlEvent
  | [] => (batch, [])
  | e :: queue => popAll (batch ++ [e]) queue

/-- The events of a batch, each with the time at its turn. -/
def timed (batch : List RaceControlEvent) (clock : ℕ → ℤ) : List (RaceControlEvent × ℤ) :=
  batch.zipIdx.map fun (e, k) => (e, clock k)

/-- `process_events` with nobody else pushing. -/
def processEvents (p : PenaltyEnforcer) (queue : List RaceControlEvent) (clock : ℕ → ℤ) :
    PenaltyEnforcer × List RaceControlEvent :=
  let (batch, queue) := popAll [] queue
  p.handleAll queue (timed batch clock)

def driverEnteredPits (p : PenaltyEnforcer) (id : String) : PenaltyEnforcer :=
  match driverIndex id with
  | none => p
  | some i => (p.compareExchange i .pending .serving).getD p

def driverExitedPits (p : PenaltyEnforcer) (id : String) : PenaltyEnforcer :=
  match driverIndex id with
  | none => p
  | some i => (p.compareExchange i .serving .served).getD p

def penaltyState (p : PenaltyEnforcer) (id : String) : PenaltyState :=
  match driverIndex id with
  | none => .none
  | some i => p.states i

def warningCount (p : PenaltyEnforcer) (id : String) : BitVec 32 :=
  match driverIndex id with
  | none => 0
  | some i => p.warnings i

end PenaltyEnforcer

/-- Where a call of `process_events` is. -/
inductive ProcessPc
  | idle
  | drain (batch : List RaceControlEvent)
  | loop (batch : List RaceControlEvent)
  | compare (e : RaceControlEvent) (i : Fin 20) (count : BitVec 32) (batch : List RaceControlEvent)
  | push (e : RaceControlEvent) (i : Fin 20) (batch : List RaceControlEvent)
  | store (i : Fin 20) (batch : List RaceControlEvent)

/-- The enforcer and its queue, the call of `process_events` in progress, the warnings counted and
the penalties announced, in order. -/
structure EnforcerState where
  enforcer : PenaltyEnforcer
  queue : List RaceControlEvent
  pc : ProcessPc
  handled : List RaceControlEvent
  announced : List RaceControlEvent

inductive EnforcerLabel
  | pushEvent (e : RaceControlEvent)
  | popEvent
  | callProcess
  | drain (found : Bool)
  | process (now : ℤ)
  | enteredPits (id : String)
  | exitedPits (id : String)

namespace EnforcerState

def init : EnforcerState := ⟨.start, [], .idle, [], []⟩

/-- A step of the loop of `process_events`, or its return. -/
def process (s : EnforcerState) (now : ℤ) : Option EnforcerState :=
  match s.pc with
  | .loop [] => some { s with pc := .idle }
  | .loop (e :: batch) =>
    match PenaltyEnforcer.warned e with
    | none => some { s with pc := .loop batch }
    | some i => some { s with
        enforcer := s.enforcer.fetchAdd i
        pc := .compare e i (s.enforcer.warnings i + 1) batch
        handled := s.handled ++ [e] }
  | .compare e i count batch =>
    if count = 3 then
      match s.enforcer.compareExchange i .none .pending with
      | some p => some { s with enforcer := p, pc := .push e i batch }
      | none => some { s with pc := .loop batch }
    else some { s with pc := .loop batch }
  | .push e i batch => some { s with
      queue := s.queue ++ [PenaltyEnforcer.penaltyIssued e now]
      pc := .store i batch
      announced := s.announced ++ [PenaltyEnforcer.penaltyIssued e now] }
  | .store i batch => some { s with enforcer := s.enforcer.storePitTime i, pc := .loop batch }
  | _ => none

/-- A step of the drain of `process_events`: the oldest event into the batch, or the end. -/
def drain (s : EnforcerState) (found : Bool) : Option EnforcerState :=
  match s.pc, found, s.queue with
  | .drain batch, true, e :: queue => some { s with queue := queue, pc := .drain (batch ++ [e]) }
  | .drain batch, false, _ => some { s with pc := .loop batch }
  | _, _, _ => none

def step (s : EnforcerState) : EnforcerLabel → Option EnforcerState
  | .pushEvent e => some { s with queue := s.queue ++ [e] }
  | .popEvent =>
    match s.pc, s.queue with
    | .idle, _ :: queue => some { s with queue := queue }
    | _, _ => none
  | .callProcess =>
    match s.pc with
    | .idle => some { s with pc := .drain [] }
    | _ => none
  | .drain found => s.drain found
  | .process now => s.process now
  | .enteredPits id => some { s with enforcer := s.enforcer.driverEnteredPits id }
  | .exitedPits id => some { s with enforcer := s.enforcer.driverExitedPits id }

end EnforcerState

/-- The enforcer among threads that push events and report pit stops, and another consumer that may
pop between two calls. -/
def enforcerSystem : System EnforcerState EnforcerLabel where
  init := .init
  step := EnforcerState.step

/-- The enforcer and its queue between calls, with all that was ever pushed, and what was pushed
since the latest call of `process_events` began. -/
structure EventQueueState where
  enforcer : PenaltyEnforcer
  queue : List RaceControlEvent
  pushed : List RaceControlEvent
  pushedSince : List RaceControlEvent

inductive EventQueueOp
  | push (e : RaceControlEvent)
  | processEvents (clock : ℕ → ℤ)

/-- Pushes and calls of `process_events`, one after the other, with no other consumer. -/
def eventQueueSystem : System EventQueueState EventQueueOp where
  init := ⟨.start, [], [], []⟩
  step
    | s, .push e => some { s with
        queue := s.queue ++ [e]
        pushed := s.pushed ++ [e]
        pushedSince := s.pushedSince ++ [e] }
    | s, .processEvents clock =>
      let (enforcer, queue) := s.enforcer.processEvents s.queue clock
      let announced := s.enforcer.announcements (PenaltyEnforcer.timed s.queue clock)
      some ⟨enforcer, queue, s.pushed ++ announced, announced⟩

end RaceConditionZ
