import RaceConditionZ.Lib.Transition
import Mathlib.Data.Finset.Basic
import Mathlib.Data.Fintype.Defs
import Mathlib.Logic.Function.Basic

/-!
# The multi-producer single-consumer queue

`concurrency/mpsc_queue.h`, over an explicit heap: an address is a number, and `live` holds the
addresses of the nodes allocated and not deleted. An address may be handed out again after its node
was deleted. A push is three steps (allocation, exchange of `head_`, store of the link), a pop is
four (load of the link, the value, the new sentinel, deletion of the old one).
-/

namespace RaceConditionZ

open Transition

variable {ι T : Type}

/-- `MpscQueue<T>` with the nodes it owns. `data` is `none` where the value has been moved out. -/
structure MpscQueue (T : Type) where
  data : ℕ → Option T
  next : ℕ → Option ℕ
  head : ℕ
  tail : ℕ
  live : Finset ℕ

inductive MpscPushPc
  | allocate
  | exchange (newNode : ℕ)
  | link (newNode prevHead : ℕ)
  | returned
deriving DecidableEq

structure MpscPush (T : Type) where
  value : T
  pc : MpscPushPc

inductive MpscPopPc
  | load
  | take (next : ℕ)
  | advance (next : ℕ)
  | delete (oldTail : ℕ)
  | returned (ok : Bool)
deriving DecidableEq

structure MpscPop (T : Type) where
  out : Option T
  pc : MpscPopPc

def MpscPush.isReturned (p : MpscPush T) : Bool := p.pc = .returned

def MpscPop.isReturned (c : MpscPop T) : Bool :=
  match c.pc with
  | .returned _ => true
  | _ => false

namespace MpscQueue

/-- A queue as constructed, its sentinel at address 0. -/
def empty [Inhabited T] : MpscQueue T where
  data := fun _ => some default
  next := fun _ => none
  head := 0
  tail := 0
  live := {0}

/-- One step of `push`; `address` is where the allocator puts the node. -/
def push (q : MpscQueue T) (p : MpscPush T) (address : ℕ) : Option (MpscQueue T × MpscPush T) :=
  match p.pc with
  | .allocate =>
    if address ∈ q.live then none
    else some ({ q with
        data := Function.update q.data address (some p.value)
        next := Function.update q.next address none
        live := insert address q.live }, { p with pc := .exchange address })
  | .exchange newNode => some ({ q with head := newNode }, { p with pc := .link newNode q.head })
  | .link newNode prevHead =>
    some ({ q with next := Function.update q.next prevHead (some newNode) },
      { p with pc := .returned })
  | .returned => none

/-- One step of `pop`. -/
def pop (q : MpscQueue T) (c : MpscPop T) : Option (MpscQueue T × MpscPop T) :=
  match c.pc with
  | .load =>
    match q.next q.tail with
    | none => some (q, { c with pc := .returned false })
    | some next => some (q, { c with pc := .take next })
  | .take next =>
    some ({ q with data := Function.update q.data next none }, ⟨q.data next, .advance next⟩)
  | .advance next => some ({ q with tail := next }, { c with pc := .delete q.tail })
  | .delete oldTail =>
    some ({ q with live := q.live.erase oldTail }, { c with pc := .returned true })
  | .returned _ => none

end MpscQueue

/-- The queue's lifetime: its destructor starts once no call is in progress. -/
inductive MpscPhase
  | alive
  | draining
  | destroyed
deriving DecidableEq

/-- What has happened on a queue: the values given to calls of `push`, the exchanges of `head_` and
the values of the pops that returned true, in order; the node of each exchange (the sentinel before
them) and, for each producer, the place of its latest one; the nodes allocated and deleted. -/
structure MpscHistory (ι T : Type) where
  given : ι → List T
  exchanged : List (ι × T)
  popped : List (Option T)
  node : ℕ → ℕ
  place : ι → ℕ
  allocated : List ℕ
  deleted : List ℕ

structure MpscState (ι T : Type) where
  queue : MpscQueue T
  producers : ι → Option (MpscPush T)
  consumer : Option (MpscPop T)
  phase : MpscPhase
  history : MpscHistory ι T

inductive MpscLabel (ι T : Type)
  | callPush (i : ι) (value : T)
  | push (i : ι) (address : ℕ)
  | callPop (out : Option T)
  | pop
  | destroy

namespace MpscState

def init [Inhabited T] : MpscState ι T where
  queue := .empty
  producers := fun _ => none
  consumer := none
  phase := .alive
  history := ⟨fun _ => [], [], [], fun _ => 0, fun _ => 0, [0], []⟩

variable [DecidableEq ι]

/-- The history after a step of producer `i` from `p`. -/
def notePush (s : MpscState ι T) (i : ι) (p : MpscPush T) (address : ℕ) : MpscHistory ι T :=
  match p.pc with
  | .allocate => { s.history with allocated := s.history.allocated ++ [address] }
  | .exchange newNode => { s.history with
      exchanged := s.history.exchanged ++ [(i, p.value)]
      node := Function.update s.history.node (s.history.exchanged.length + 1) newNode
      place := Function.update s.history.place i s.history.exchanged.length }
  | _ => s.history

/-- The history after a consumer step from `c`. -/
def notePop (s : MpscState ι T) (c : MpscPop T) : MpscHistory ι T :=
  match c.pc with
  | .delete oldTail => { s.history with
      popped := s.history.popped ++ [c.out]
      deleted := s.history.deleted ++ [oldTail] }
  | _ => s.history

/-- One step of `~MpscQueue`: its first call of `pop`, the next call after one that returned true,
and the deletion of the sentinel after one that returned false. -/
def destroy [Fintype ι] (s : MpscState ι T) : Option (MpscState ι T) :=
  match s.phase with
  | .alive =>
    if (∀ i, (s.producers i).all MpscPush.isReturned) ∧ s.consumer.all MpscPop.isReturned then
      some { s with phase := .draining, consumer := some ⟨none, .load⟩ }
    else none
  | .draining => s.consumer.bind fun c =>
      match c.pc with
      | .returned true => some { s with consumer := some ⟨c.out, .load⟩ }
      | .returned false => some { s with
          phase := .destroyed
          queue := { s.queue with live := s.queue.live.erase s.queue.tail }
          history := { s.history with deleted := s.history.deleted ++ [s.queue.tail] } }
      | _ => none
  | .destroyed => none

def step [Fintype ι] (s : MpscState ι T) : MpscLabel ι T → Option (MpscState ι T)
  | .callPush i value =>
    if s.phase = .alive ∧ (s.producers i).all MpscPush.isReturned then
      some { s with
        producers := Function.update s.producers i (some ⟨value, .allocate⟩)
        history := { s.history with
          given := Function.update s.history.given i (s.history.given i ++ [value]) } }
    else none
  | .push i address => (s.producers i).bind fun p =>
      (s.queue.push p address).map fun (queue, p') => { s with
        queue := queue
        producers := Function.update s.producers i (some p')
        history := s.notePush i p address }
  | .callPop out =>
    if s.phase = .alive ∧ s.consumer.all MpscPop.isReturned then
      some { s with consumer := some ⟨out, .load⟩ }
    else none
  | .pop => s.consumer.bind fun c => (s.queue.pop c).map fun (queue, c') =>
      { s with queue := queue, consumer := some c', history := s.notePop c }
  | .destroy => s.destroy

end MpscState

/-- Any number of producers and one consumer on a queue, with any calls, interleaved in any way, and
at some point its destructor. -/
def mpscSystem (ι T : Type) [DecidableEq ι] [Fintype ι] [Inhabited T] :
    System (MpscState ι T) (MpscLabel ι T) where
  init := .init
  step := MpscState.step

end RaceConditionZ
