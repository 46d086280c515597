import RaceConditionZ.Lib.RingIndex
import RaceConditionZ.Lib.Transition
import Mathlib.Logic.Function.Basic

/-!
# The single-producer single-consumer queue

`concurrency/spsc_queue.h`. Each call is taken step by step: the load of its own index, the
comparison with its cached copy of the other side's index, the reload of that copy, the slot, and
the store of its own index. An element takes time to copy: a slot being assigned holds no value,
and is written when the copy ends.
-/

namespace RaceConditionZ

open Transition

variable {T : Type}

/-- `SpscQueue<T, Capacity>`. A slot is `none` while it is being assigned. -/
structure SpscQueue (T : Type) where
  tail : BitVec 64
  headCache : BitVec 64
  head : BitVec 64
  tailCache : BitVec 64
  buffer : ℕ → Option T

inductive PushPc
  | loadTail
  | compare (tail : BitVec 64)
  | loadHead (tail : BitVec 64)
  | recompare (tail : BitVec 64)
  | write (tail : BitVec 64)
  | writing (tail : BitVec 64)
  | storeTail (tail : BitVec 64)
  | returned (ok : Bool)
deriving DecidableEq

/-- A call of `push`. `arg` is the argument object, `none` once it has been moved from. -/
structure Push (T : Type) where
  item : T
  byMove : Bool
  arg : Option T
  pc : PushPc

inductive PopPc
  | loadHead
  | compare (head : BitVec 64)
  | loadTail (head : BitVec 64)
  | recompare (head : BitVec 64)
  | read (head : BitVec 64)
  | reading (head : BitVec 64)
  | storeHead (head : BitVec 64)
  | returned (ok : Bool)
deriving DecidableEq

/-- A call of `pop`. `out` is the caller's object, `none` while it is being assigned. -/
structure Pop (T : Type) where
  out : Option T
  pc : PopPc

/-- `push(const T& item)`. -/
def Push.ofCopy (item : T) : Push T := ⟨item, false, some item, .loadTail⟩

/-- `push(T&& item)`. -/
def Push.ofMove (item : T) : Push T := ⟨item, true, some item, .loadTail⟩

/-- `pop(T& out)`. -/
def Pop.into (out : Option T) : Pop T := ⟨out, .loadHead⟩

def Push.isReturned (p : Push T) : Bool :=
  match p.pc with
  | .returned _ => true
  | _ => false

def Pop.isReturned (c : Pop T) : Bool :=
  match c.pc with
  | .returned _ => true
  | _ => false

namespace SpscQueue

variable (r : RingSize)

/-- A queue as constructed. -/
def empty [Inhabited T] : SpscQueue T where
  tail := 0
  headCache := 0
  head := 0
  tailCache := 0
  buffer := fun _ => some default

/-- The expression of `size_approx`. -/
def sizeApprox (q : SpscQueue T) : BitVec 64 := r.distance q.tail q.head

/-- The slots from `head_` cyclically up to `tail_`. -/
def contents (q : SpscQueue T) : List (Option T) :=
  (List.range (q.sizeApprox r).toNat).map fun i =>
    q.buffer ((q.head + BitVec.ofNat 64 i) &&& r.mask).toNat

/-- One step of `push`. -/
def push (q : SpscQueue T) (p : Push T) : Option (SpscQueue T × Push T) :=
  match p.pc with
  | .loadTail => some (q, { p with pc := .compare q.tail })
  | .compare tail =>
    if r.next tail = q.headCache then some (q, { p with pc := .loadHead tail })
    else some (q, { p with pc := .write tail })
  | .loadHead tail => some ({ q with headCache := q.head }, { p with pc := .recompare tail })
  | .recompare tail =>
    if r.next tail = q.headCache then some (q, { p with pc := .returned false })
    else some (q, { p with pc := .write tail })
  | .write tail =>
    some ({ q with buffer := Function.update q.buffer tail.toNat none },
      { p with pc := .writing tail })
  | .writing tail =>
    some ({ q with buffer := Function.update q.buffer tail.toNat p.arg },
      { p with arg := if p.byMove then none else p.arg, pc := .storeTail tail })
  | .storeTail tail => some ({ q with tail := r.next tail }, { p with pc := .returned true })
  | .returned _ => none

/-- One step of `pop`. -/
def pop (q : SpscQueue T) (c : Pop T) : Option (SpscQueue T × Pop T) :=
  match c.pc with
  | .loadHead => some (q, { c with pc := .compare q.head })
  | .compare head =>
    if head = q.tailCache then some (q, { c with pc := .loadTail head })
    else some (q, { c with pc := .read head })
  | .loadTail head => some ({ q with tailCache := q.tail }, { c with pc := .recompare head })
  | .recompare head =>
    if head = q.tailCache then some (q, { c with pc := .returned false })
    else some (q, { c with pc := .read head })
  | .read head => some (q, ⟨none, .reading head⟩)
  | .reading head => some (q, ⟨q.buffer head.toNat, .storeHead head⟩)
  | .storeHead head => some ({ q with head := r.next head }, { c with pc := .returned true })
  | .returned _ => none

/-- Where a call of `size_approx` is. -/
inductive SizePc
  | loadTail
  | loadHead (tail : BitVec 64)
  | returned (size : BitVec 64)
deriving DecidableEq

/-- One step of `size_approx`. -/
def sizeApproxStep (q : SpscQueue T) : SizePc → Option SizePc
  | .loadTail => some (.loadHead q.tail)
  | .loadHead tail => some (.returned (r.distance tail q.head))
  | .returned _ => none

end SpscQueue

/-- What has happened on a queue: the values of the pushes that returned true and of the pops that
did, and, of each side's latest reload, how far the other side was and how many items were there;
last, what a call's failure should leave as the call found it. -/
structure SpscHistory (T : Type) where
  pushed : List T
  popped : List (Option T)
  headSeen : ℕ
  tailSeen : ℕ
  heldAtPush : ℕ
  heldAtPop : ℕ
  pushStart : BitVec 64 × (ℕ → Option T)
  popStart : BitVec 64 × Option T

/-- A queue with the call in progress on each side. -/
structure SpscState (T : Type) where
  queue : SpscQueue T
  producer : Option (Push T)
  consumer : Option (Pop T)
  history : SpscHistory T

inductive SpscLabel (T : Type)
  | callPush (item : T) (byMove : Bool)
  | push
  | callPop (out : Option T)
  | pop

namespace SpscState

variable (r : RingSize)

def init [Inhabited T] : SpscState T where
  queue := .empty
  producer := none
  consumer := none
  history := ⟨[], [], 0, 0, 0, 0, (0, fun _ => some default), (0, none)⟩

/-- The history after a producer step from `p`. -/
def notePush (s : SpscState T) (p : Push T) : SpscHistory T :=
  match p.pc with
  | .loadHead _ => { s.history with
      headSeen := s.history.popped.length
      heldAtPush := s.history.pushed.length - s.history.popped.length }
  | .storeTail _ => { s.history with pushed := s.history.pushed ++ [p.item] }
  | _ => s.history

/-- The history after a consumer step from `c`. -/
def notePop (s : SpscState T) (c : Pop T) : SpscHistory T :=
  match c.pc with
  | .loadTail _ => { s.history with
      tailSeen := s.history.pushed.length
      heldAtPop := s.history.pushed.length - s.history.popped.length }
  | .storeHead _ => { s.history with popped := s.history.popped ++ [c.out] }
  | _ => s.history

def step (s : SpscState T) : SpscLabel T → Option (SpscState T)
  | .callPush item byMove =>
    if s.producer.all Push.isReturned then
      some { s with
        producer := some (if byMove then .ofMove item else .ofCopy item)
        history := { s.history with pushStart := (s.queue.tail, s.queue.buffer) } }
    else none
  | .push => s.producer.bind fun p => (s.queue.push r p).map fun (queue, p') =>
      { s with queue := queue, producer := some p', history := s.notePush p }
  | .callPop out =>
    if s.consumer.all Pop.isReturned then
      some { s with
        consumer := some (.into out)
        history := { s.history with popStart := (s.queue.head, out) } }
    else none
  | .pop => s.consumer.bind fun c => (s.queue.pop r c).map fun (queue, c') =>
      { s with queue := queue, consumer := some c', history := s.notePop c }

end SpscState

/-- One producer and one consumer on a queue, with any calls, interleaved in any way. -/
def spscSystem [Inhabited T] (r : RingSize) : System (SpscState T) (SpscLabel T) where
  init := .init
  step := SpscState.step r

/-- The threads that call `size_approx`: the producer's, the consumer's, or another. -/
inductive SizeCaller (ι : Type)
  | producer
  | consumer
  | other (i : ι)
deriving DecidableEq

/-- A call of `size_approx`. `instants` is history: the queue from the load of `tail_` to that of
`head_`, one entry for each instant. -/
structure SizeCall (T : Type) where
  pc : SpscQueue.SizePc
  instants : List (SpscState T)

namespace SizeCall

def isReturned (c : SizeCall T) : Bool :=
  match c.pc with
  | .returned _ => true
  | _ => false

/-- The queue has come to `s`. -/
def observe (c : SizeCall T) (s : SpscState T) : SizeCall T :=
  match c.pc with
  | .loadHead _ => { c with instants := c.instants ++ [s] }
  | _ => c

end SizeCall

/-- A queue with the latest call of `size_approx` of each thread. -/
structure SizeState (ι T : Type) where
  spsc : SpscState T
  calls : SizeCaller ι → Option (SizeCall T)

inductive SizeLabel (ι T : Type)
  | queue (l : SpscLabel T)
  | callSize (caller : SizeCaller ι)
  | size (caller : SizeCaller ι)

namespace SizeState

variable {ι : Type} (r : RingSize)

def init [Inhabited T] : SizeState ι T := ⟨.init, fun _ => none⟩

/-- No call of `size_approx` by `caller` is in progress. -/
def sizeIdle (s : SizeState ι T) (caller : SizeCaller ι) : Bool :=
  (s.calls caller).all SizeCall.isReturned

/-- No `push` or `pop` by `caller` is in progress. -/
def queueIdle (s : SizeState ι T) : SizeCaller ι → Bool
  | .producer => s.spsc.producer.all Push.isReturned
  | .consumer => s.spsc.consumer.all Pop.isReturned
  | .other _ => true

/-- A thread in `size_approx` calls neither `push` nor `pop`. -/
def mayStep (s : SizeState ι T) : SpscLabel T → Bool
  | .callPush _ _ => s.sizeIdle .producer
  | .callPop _ => s.sizeIdle .consumer
  | .push | .pop => true

def step [DecidableEq ι] (s : SizeState ι T) : SizeLabel ι T → Option (SizeState ι T)
  | .queue l =>
    if s.mayStep l then
      (s.spsc.step r l).map fun spsc =>
        ⟨spsc, fun caller => (s.calls caller).map fun c => c.observe spsc⟩
    else none
  | .callSize caller =>
    if s.sizeIdle caller ∧ s.queueIdle caller then
      some { s with calls := Function.update s.calls caller (some ⟨.loadTail, []⟩) }
    else none
  | .size caller => (s.calls caller).bind fun c =>
    (s.spsc.queue.sizeApproxStep r c.pc).map fun pc =>
      let instants := if c.pc = .loadTail then [s.spsc] else c.instants
      { s with calls := Function.update s.calls caller (some ⟨pc, instants⟩) }

end SizeState

/-- One producer, one consumer, and calls of `size_approx` by any threads, interleaved in any
way. -/
def sizeSystem (ι : Type) [DecidableEq ι] [Inhabited T] (r : RingSize) :
    System (SizeState ι T) (SizeLabel ι T) where
  init := .init
  step := SizeState.step r

end RaceConditionZ
