import RaceConditionZ.SpscQueue
import Mathlib.Data.Fintype.Basic

/-!
# Slots copied word by word

`concurrency/spsc_queue.h` once more, with the two assignments `buffer_[tail] = item` and
`out = buffer_[head]` taken one word a step, in any order. The words of an element are numbered by
`κ`, and nothing marks a slot that is half written: who reads it then gets a torn element.
-/

namespace RaceConditionZ

open Transition

variable {κ W : Type}

/-- `SpscQueue<T, Capacity>`, down to the words of its slots. -/
structure CopyQueue (κ W : Type) where
  tail : BitVec 64
  headCache : BitVec 64
  head : BitVec 64
  tailCache : BitVec 64
  buffer : ℕ → κ → W

/-- Where a call of `push` is. From the full check to the store of `tail_` it has copied some of
the words. -/
inductive CopyPushPc (κ : Type)
  | loadTail
  | compare (tail : BitVec 64)
  | loadHead (tail : BitVec 64)
  | recompare (tail : BitVec 64)
  | copy (tail : BitVec 64) (copied : Finset κ)
  | returned (ok : Bool)

/-- Where a call of `pop` is. From the empty check to the store of `head_` it has copied some of
the words. -/
inductive CopyPopPc (κ : Type)
  | loadHead
  | compare (head : BitVec 64)
  | loadTail (head : BitVec 64)
  | recompare (head : BitVec 64)
  | copy (head : BitVec 64) (copied : Finset κ)
  | returned (ok : Bool)

structure CopyPush (κ W : Type) where
  item : κ → W
  byMove : Bool
  pc : CopyPushPc κ

structure CopyPop (κ W : Type) where
  out : κ → W
  pc : CopyPopPc κ

def CopyPushPc.isReturned : CopyPushPc κ → Bool
  | .returned _ => true
  | _ => false

def CopyPopPc.isReturned : CopyPopPc κ → Bool
  | .returned _ => true
  | _ => false

/-- `pushed` and `popped` are history: the items of the pushes that returned true, and how many pops
did. -/
structure CopyState (κ W : Type) where
  queue : CopyQueue κ W
  producer : Option (CopyPush κ W)
  consumer : Option (CopyPop κ W)
  pushed : List (κ → W)
  popped : ℕ

inductive CopyLabel (κ W : Type)
  | callPush (item : κ → W) (byMove : Bool)
  | push
  | copyIn (word : κ)
  | callPop (out : κ → W)
  | pop
  | copyOut (word : κ)

/-- The slots from `head_` cyclically up to `tail_`. -/
def CopyQueue.contents (r : RingSize) (q : CopyQueue κ W) : List (κ → W) :=
  (List.range (r.distance q.tail q.head).toNat).map fun i =>
    q.buffer ((q.head + BitVec.ofNat 64 i) &&& r.mask).toNat

variable [DecidableEq κ]

/-- `buffer_[slot]` with one word assigned. -/
def CopyQueue.setWord (q : CopyQueue κ W) (slot : BitVec 64) (word : κ) (value : W) :
    CopyQueue κ W :=
  let element := Function.update (q.buffer slot.toNat) word value
  { q with buffer := Function.update q.buffer slot.toNat element }

namespace CopyState

def init [Inhabited W] : CopyState κ W where
  queue := ⟨0, 0, 0, 0, fun _ _ => default⟩
  producer := none
  consumer := none
  pushed := []
  popped := 0

/-- The next word of the producer's assignment. -/
def copyIn (s : CopyState κ W) (p : CopyPush κ W) (word : κ) : Option (CopyState κ W) :=
  match p.pc with
  | .copy tail copied =>
    if word ∈ copied then none
    else some { s with
      queue := s.queue.setWord tail word (p.item word)
      producer := some { p with pc := .copy tail (insert word copied) } }
  | _ => none

/-- The next word of the consumer's assignment. -/
def copyOut (s : CopyState κ W) (c : CopyPop κ W) (word : κ) : Option (CopyState κ W) :=
  match c.pc with
  | .copy head copied =>
    if word ∈ copied then none
    else
      let out := Function.update c.out word (s.queue.buffer head.toNat word)
      some { s with consumer := some ⟨out, .copy head (insert word copied)⟩ }
  | _ => none

variable [Fintype κ] (r : RingSize)

/-- A step of `push` other than the copying of a word. -/
def push (s : CopyState κ W) (p : CopyPush κ W) : Option (CopyState κ W) :=
  match p.pc with
  | .loadTail => some { s with producer := some { p with pc := .compare s.queue.tail } }
  | .compare tail => some { s with producer := some { p with
      pc := if r.next tail = s.queue.headCache then .loadHead tail else .copy tail ∅ } }
  | .loadHead tail => some { s with
      queue := { s.queue with headCache := s.queue.head }
      producer := some { p with pc := .recompare tail } }
  | .recompare tail => some { s with producer := some { p with
      pc := if r.next tail = s.queue.headCache then .returned false else .copy tail ∅ } }
  | .copy tail copied =>
    if copied = Finset.univ then some { s with
      queue := { s.queue with tail := r.next tail }
      producer := some { p with pc := .returned true }
      pushed := s.pushed ++ [p.item] }
    else none
  | .returned _ => none

/-- A step of `pop` other than the copying of a word. -/
def pop (s : CopyState κ W) (c : CopyPop κ W) : Option (CopyState κ W) :=
  match c.pc with
  | .loadHead => some { s with consumer := some { c with pc := .compare s.queue.head } }
  | .compare head => some { s with consumer := some { c with
      pc := if head = s.queue.tailCache then .loadTail head else .copy head ∅ } }
  | .loadTail head => some { s with
      queue := { s.queue with tailCache := s.queue.tail }
      consumer := some { c with pc := .recompare head } }
  | .recompare head => some { s with consumer := some { c with
      pc := if head = s.queue.tailCache then .returned false else .copy head ∅ } }
  | .copy head copied =>
    if copied = Finset.univ then some { s with
      queue := { s.queue with head := r.next head }
      consumer := some { c with pc := .returned true }
      popped := s.popped + 1 }
    else none
  | .returned _ => none

def step (s : CopyState κ W) : CopyLabel κ W → Option (CopyState κ W)
  | .callPush item byMove =>
    if s.producer.all fun p => p.pc.isReturned then
      some { s with producer := some ⟨item, byMove, .loadTail⟩ }
    else none
  | .push => s.producer.bind fun p => s.push r p
  | .copyIn word => s.producer.bind fun p => s.copyIn p word
  | .callPop out =>
    if s.consumer.all fun c => c.pc.isReturned then
      some { s with consumer := some ⟨out, .loadHead⟩ }
    else none
  | .pop => s.consumer.bind fun c => s.pop r c
  | .copyOut word => s.consumer.bind fun c => s.copyOut c word

end CopyState

/-- One producer and one consumer on a queue whose elements are copied word by word. -/
def copySystem [Fintype κ] [Inhabited W] (r : RingSize) :
    System (CopyState κ W) (CopyLabel κ W) where
  init := .init
  step := CopyState.step r

end RaceConditionZ
