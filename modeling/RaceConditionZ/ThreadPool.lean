import RaceConditionZ.Lib.Transition
import Mathlib.Data.Fintype.Basic
import Mathlib.Logic.Function.Basic

/-!
# The thread pool

`concurrency/thread_pool.{h,cpp}`. Each section that holds `mutex_` is one step, and so is each
notification. A worker whose predicate fails releases the mutex and joins the waiters in the same
step; a notification, or nothing at all, sends it back to the mutex, where it tests the predicate
again.
-/

namespace RaceConditionZ

open Transition

/-- The `packaged_task` that a call of `submit` allocates; `ticket` tells it from all others. -/
structure PackagedTask (τ : Type) where
  ticket : ℕ
  callable : τ
deriving DecidableEq

inductive WorkerPc (τ : Type)
  | lock
  | waiting
  | running (task : PackagedTask τ)
  | returned
deriving DecidableEq

def WorkerPc.isWaiting {τ : Type} : WorkerPc τ → Bool
  | .waiting => true
  | _ => false

/-- `ThreadPool` with `n` workers, each where it is in `worker_loop`. -/
structure ThreadPool (n : ℕ) (τ : Type) where
  workers : Fin n → WorkerPc τ
  tasks : List (PackagedTask τ)
  stop : Bool

namespace ThreadPool

variable {n : ℕ} {τ : Type}

/-- A pool as constructed. -/
def start (n : ℕ) (τ : Type) : ThreadPool n τ := ⟨fun _ => .lock, [], false⟩

def setWorker (p : ThreadPool n τ) (w : Fin n) (pc : WorkerPc τ) : ThreadPool n τ :=
  { p with workers := Function.update p.workers w pc }

/-- The predicate of `cv_.wait`. -/
def ready (p : ThreadPool n τ) : Bool := p.stop || !p.tasks.isEmpty

/-- The section of `worker_loop`. With the predicate true, no task means that `stop_` is set. -/
def lockSection (p : ThreadPool n τ) (w : Fin n) : ThreadPool n τ :=
  if p.ready then
    match p.tasks with
    | [] => p.setWorker w .returned
    | task :: tasks => { p with tasks := tasks }.setWorker w (.running task)
  else p.setWorker w .waiting

/-- The section of `submit`; `none` where it throws. -/
def submitSection (p : ThreadPool n τ) (task : PackagedTask τ) : Option (ThreadPool n τ) :=
  if p.stop then none else some { p with tasks := p.tasks ++ [task] }

/-- A waiting worker goes back to the mutex. -/
def wake (p : ThreadPool n τ) (w : Fin n) : Option (ThreadPool n τ) :=
  if (p.workers w).isWaiting then some (p.setWorker w .lock) else none

/-- `cv_.notify_one`: one worker that waits is woken, `w` where several do. -/
def notifyOne (p : ThreadPool n τ) (w : Fin n) : Option (ThreadPool n τ) :=
  if ∃ v, (p.workers v).isWaiting then p.wake w else some p

/-- `cv_.notify_all`. -/
def notifyAll (p : ThreadPool n τ) : ThreadPool n τ :=
  { p with workers := fun w => if (p.workers w).isWaiting then .lock else p.workers w }

end ThreadPool

inductive SubmitPc (τ : Type)
  | lock (callable : τ)
  | notify
  | returned
  | threw
deriving DecidableEq

/-- The destructor: `stop_`, the notification, the joins in order. -/
inductive PoolDtorPc
  | alive
  | notify
  | join (k : ℕ)
  | returned
deriving DecidableEq

/-- What has happened in a pool: the tasks accepted, in order; those dequeued, each with its worker;
those a worker has executed to the end. -/
structure PoolHistory (n : ℕ) (τ : Type) where
  accepted : List (PackagedTask τ)
  dequeued : List (Fin n × PackagedTask τ)
  finished : List (Fin n × PackagedTask τ)

structure PoolState (n : ℕ) (ι τ : Type) where
  pool : ThreadPool n τ
  submitters : ι → Option (SubmitPc τ)
  dtor : PoolDtorPc
  history : PoolHistory n τ

inductive PoolLabel (n : ℕ) (ι τ : Type)
  | callSubmit (i : ι) (callable : τ)
  | submit (i : ι) (w : Fin n)
  | worker (w : Fin n)
  | spurious (w : Fin n)
  | destroy

namespace PoolState

variable {n : ℕ} {ι τ : Type}

def init (n : ℕ) (ι τ : Type) : PoolState n ι τ where
  pool := .start n τ
  submitters := fun _ => none
  dtor := .alive
  history := ⟨[], [], []⟩

/-- A step of the thread `i` in `submit`; `w` is the worker that its notification wakes. -/
def submit [DecidableEq ι] (s : PoolState n ι τ) (i : ι) (w : Fin n) : Option (PoolState n ι τ) :=
  match s.submitters i with
  | some (.lock callable) =>
    let task : PackagedTask τ := ⟨s.history.accepted.length, callable⟩
    match s.pool.submitSection task with
    | none => some { s with submitters := Function.update s.submitters i (some .threw) }
    | some pool => some { s with
        pool := pool
        submitters := Function.update s.submitters i (some .notify)
        history := { s.history with accepted := s.history.accepted ++ [task] } }
  | some .notify => (s.pool.notifyOne w).map fun pool => { s with
      pool := pool
      submitters := Function.update s.submitters i (some .returned) }
  | _ => none

/-- A step of worker `w`: its section, or the end of the task it executes. -/
def worker (s : PoolState n ι τ) (w : Fin n) : Option (PoolState n ι τ) :=
  match s.pool.workers w with
  | .lock =>
    let pool := s.pool.lockSection w
    match pool.workers w with
    | .running task => some { s with
        pool := pool
        history := { s.history with dequeued := s.history.dequeued ++ [(w, task)] } }
    | _ => some { s with pool := pool }
  | .running task => some { s with
      pool := s.pool.setWorker w .lock
      history := { s.history with finished := s.history.finished ++ [(w, task)] } }
  | _ => none

/-- A step of `~ThreadPool`; a join waits until the worker has returned. -/
def destroy (s : PoolState n ι τ) : Option (PoolState n ι τ) :=
  match s.dtor with
  | .alive => some { s with pool := { s.pool with stop := true }, dtor := .notify }
  | .notify => some { s with pool := s.pool.notifyAll, dtor := .join 0 }
  | .join k =>
    if hk : k < n then
      match s.pool.workers ⟨k, hk⟩ with
      | .returned => some { s with dtor := .join (k + 1) }
      | _ => none
    else some { s with dtor := .returned }
  | .returned => none

def step [DecidableEq ι] (s : PoolState n ι τ) : PoolLabel n ι τ → Option (PoolState n ι τ)
  | .callSubmit i callable =>
    match s.submitters i with
    | some (.lock _) | some .notify => none
    | _ => some { s with submitters := Function.update s.submitters i (some (.lock callable)) }
  | .submit i w => s.submit i w
  | .worker w => s.worker w
  | .spurious w => (s.pool.wake w).map fun pool => { s with pool := pool }
  | .destroy => s.destroy

end PoolState

/-- A pool of `n` workers, threads that submit to it, and its destructor, interleaved in any way. -/
def poolSystem (n : ℕ) (ι τ : Type) [DecidableEq ι] :
    System (PoolState n ι τ) (PoolLabel n ι τ) where
  init := .init n ι τ
  step := PoolState.step

end RaceConditionZ
