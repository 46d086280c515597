import RaceConditionZ.Proofs.JobSteps

/-!
# The work left

What the callback, the jobs and the pool still have to do, once no further round of `run` begins. A
task in the queue is worth the longest job; an event that a job may push is worth its pop and its
handling, since the queue is drained at most once more; a submission is worth its task.
-/

namespace RaceConditionZ

open Transition

/-- The steps left of a worker, with those of the job in its hand. -/
def WorkerPc.leftWith (job : JobPc) : WorkerPc Job → ℕ
  | .lock => 1
  | .running _ => job.left + 2
  | .waiting | .returned => 0

section LeftWith

variable (job : JobPc)

@[simp]
theorem WorkerPc.leftWith_lock : WorkerPc.lock.leftWith job = 1 := rfl

@[simp]
theorem WorkerPc.leftWith_running (task : PackagedTask Job) :
    (WorkerPc.running task).leftWith job = job.left + 2 := rfl

@[simp]
theorem WorkerPc.leftWith_waiting : WorkerPc.waiting.leftWith job = 0 := rfl

@[simp]
theorem WorkerPc.leftWith_returned : WorkerPc.returned.leftWith job = 0 := rfl

end LeftWith

/-- The steps left of a submission, with those of its job and of the worker that it wakes. -/
def SubmitPc.left : SubmitPc Job → ℕ
  | .lock _ => 127
  | .notify => 2
  | .returned | .threw => 0

/-- The steps left of the destructor of the pool, with those of the two workers that it wakes. -/
def PoolDtorPc.leftWaking : PoolDtorPc → ℕ
  | .alive => 7
  | .notify => 6
  | .join k => 2 - k + 1
  | .returned => 0

/-- The steps left of a call of `process_events`, with so many events in the queue. -/
def ProcessPc.left (queued : ℕ) : ProcessPc → ℕ
  | .idle => 2
  | .drain batch => 4 * batch.length + 5 * queued + 4
  | .loop batch => 4 * batch.length + 3
  | .compare _ _ _ batch => 4 * batch.length + 6
  | .push _ _ batch => 4 * batch.length + 5
  | .store _ batch => 4 * batch.length + 4

/-- The steps left of the callback. -/
def CallbackPc.left (enforcer : EnforcerState) : CallbackPc → ℕ
  | .poll .check => 5 * enforcer.queue.length + 264
  | .submit .check => 5 * enforcer.queue.length + 136
  | .poll .update => 5 * enforcer.queue.length + 135
  | .submit .update => 5 * enforcer.queue.length + 6
  | .callProcess => 5 * enforcer.queue.length + 5
  | .process => enforcer.pc.left enforcer.queue.length
  | .testStop => 1
  | .returned => 0

section Pool

/-- The steps left of workers and destructor, with those of the tasks in the queue. -/
def poolLeft (p : PoolState 2 Unit Job) (jobs : Fin 2 → JobPc) : ℕ :=
  (∑ w, (p.pool.workers w).leftWith (jobs w)) + 124 * p.pool.tasks.length
    + (p.submitters ()).elim 0 SubmitPc.left + p.dtor.leftWaking

variable {p p' : PoolState 2 Unit Job} {jobs jobs' : Fin 2 → JobPc} {w : Fin 2}

/-- What the sum over the workers becomes where `w` goes on. -/
theorem sum_leftWith_setWorker {q : ThreadPool 2 Job} {pc : WorkerPc Job}
    (hw : q.workers w = pc) (pc' : WorkerPc Job) (hjobs : ∀ v, v ≠ w → jobs' v = jobs v) :
    (∑ v, ((q.setWorker w pc').workers v).leftWith (jobs' v)) + pc.leftWith (jobs w)
      = (∑ v, (q.workers v).leftWith (jobs v)) + pc'.leftWith (jobs' w) := by
  have hsum := sum_off (f := fun v => ((q.setWorker w pc').workers v).leftWith (jobs' v))
    (g := fun v => (q.workers v).leftWith (jobs v)) w
    fun v hv => by rw [ThreadPool.setWorker_of_ne hv, hjobs v hv]
  rwa [ThreadPool.setWorker_self, hw] at hsum

/-- A worker goes back to the mutex. -/
theorem sum_leftWith_woken (jobs : Fin 2 → JobPc) {q : ThreadPool 2 Job} {pc : WorkerPc Job}
    (hw : q.workers w = pc) :
    (∑ v, ((q.setWorker w .lock).workers v).leftWith (jobs v)) + pc.leftWith (jobs w)
      = (∑ v, (q.workers v).leftWith (jobs v)) + 1 :=
  sum_leftWith_setWorker hw .lock fun _ _ => rfl

/-- Two workers at most are woken. -/
theorem sum_leftWith_notifyAll (jobs : Fin 2 → JobPc) (q : ThreadPool 2 Job) :
    ∑ v, (q.notifyAll.workers v).leftWith (jobs v)
      ≤ (∑ v, (q.workers v).leftWith (jobs v)) + 2 := by
  have hone : ∀ v, (q.notifyAll.workers v).leftWith (jobs v)
      ≤ (q.workers v).leftWith (jobs v) + 1 := by
    intro v
    simp only [ThreadPool.notifyAll]
    split_ifs with hv
    · rw [WorkerPc.eq_waiting hv]
      simp [WorkerPc.leftWith]
    · omega
  calc ∑ v, (q.notifyAll.workers v).leftWith (jobs v)
      ≤ ∑ v, ((q.workers v).leftWith (jobs v) + 1) := Finset.sum_le_sum fun v _ => hone v
    _ = (∑ v, (q.workers v).leftWith (jobs v)) + 2 := by
      rw [Finset.sum_add_distrib, Finset.sum_const, Finset.card_fin, Nat.nsmul_eq_mul, Nat.mul_one]

theorem poolLeft_callSubmit {c : Job} (jobs : Fin 2 → JobPc)
    (hst : p.step (.callSubmit () c) = some p') :
    poolLeft p' jobs ≤ poolLeft p jobs + 127 := by
  cases poolMove_of_step hst with
  | callSubmit hi =>
    simp only [poolLeft, Function.update_self, Option.elim_some, SubmitPc.left]
    omega

theorem poolLeft_submit (jobs : Fin 2 → JobPc) (hst : p.step (.submit () w) = some p') :
    poolLeft p' jobs + 1 ≤ poolLeft p jobs := by
  cases poolMove_of_step hst with
  | throw hi | notifyNone hi =>
    simp only [poolLeft, Function.update_self, Option.elim_some, SubmitPc.left, hi]
    omega
  | accept hi =>
    simp only [poolLeft, Function.update_self, Option.elim_some, SubmitPc.left, hi,
      List.length_append, List.length_singleton]
    omega
  | notifyOne hi hw =>
    have hsum := sum_leftWith_woken jobs hw
    simp only [WorkerPc.leftWith_waiting] at hsum
    simp only [poolLeft, Function.update_self, Option.elim_some, SubmitPc.left, hi,
      ThreadPool.setWorker_tasks]
    omega

theorem poolLeft_spurious (jobs : Fin 2 → JobPc) (hst : p.step (.spurious w) = some p') :
    poolLeft p' jobs ≤ poolLeft p jobs + 1 := by
  cases poolMove_of_step hst with
  | spurious hw =>
    have hsum := sum_leftWith_woken jobs hw
    simp only [WorkerPc.leftWith_waiting] at hsum
    simp only [poolLeft, ThreadPool.setWorker_tasks]
    omega

theorem poolLeft_destroy (jobs : Fin 2 → JobPc) (hst : p.step .destroy = some p') :
    poolLeft p' jobs + 1 ≤ poolLeft p jobs := by
  cases poolMove_of_step hst with
  | stop hd =>
    simp only [poolLeft, hd, PoolDtorPc.leftWaking]
    omega
  | notifyAll hd =>
    have := sum_leftWith_notifyAll jobs p.pool
    simp only [poolLeft, hd, PoolDtorPc.leftWaking, ThreadPool.notifyAll_tasks]
    omega
  | @join k hk hd hw =>
    simp only [poolLeft, hd, PoolDtorPc.leftWaking]
    omega
  | joined hd =>
    simp only [poolLeft, hd, PoolDtorPc.leftWaking]
    omega

/-- The end of a task. -/
theorem poolLeft_finish {task : PackagedTask Job} (hw : p.pool.workers w = .running task)
    (hst : p.step (.worker w) = some p') : poolLeft p' jobs + 1 ≤ poolLeft p jobs := by
  cases poolMove_of_step hst with
  | wait hw' | exit hw' | take hw' =>
    rw [hw] at hw'
    cases hw'
  | finish =>
    have hsum := sum_leftWith_woken jobs hw
    simp only [WorkerPc.leftWith_running] at hsum
    simp only [poolLeft, ThreadPool.setWorker_tasks]
    omega

/-- The section of `worker_loop`. -/
theorem poolLeft_lock (hw : ∀ task, p.pool.workers w ≠ .running task)
    (hst : p.step (.worker w) = some p')
    (hjobs : (∃ task, p'.pool.workers w = .running task
        ∧ jobs' = Function.update jobs w task.callable.start)
      ∨ (∀ task, p'.pool.workers w ≠ .running task) ∧ jobs' = jobs) :
    poolLeft p' jobs' + 1 ≤ poolLeft p jobs := by
  have hoff : ∀ v, v ≠ w → jobs' v = jobs v := by
    intro v hv
    rcases hjobs with ⟨task, -, rfl⟩ | ⟨-, rfl⟩
    · rw [Function.update_of_ne hv]
    · rfl
  cases poolMove_of_step hst with
  | finish hw' => exact absurd hw' (hw _)
  | wait hw' =>
    have hsum := sum_leftWith_setWorker hw' .waiting hoff
    simp only [WorkerPc.leftWith_lock, WorkerPc.leftWith_waiting] at hsum
    simp only [poolLeft, ThreadPool.setWorker_tasks]
    omega
  | exit hw' =>
    have hsum := sum_leftWith_setWorker hw' .returned hoff
    simp only [WorkerPc.leftWith_lock, WorkerPc.leftWith_returned] at hsum
    simp only [poolLeft, ThreadPool.setWorker_tasks]
    omega
  | @take w task tasks hw' htasks =>
    rcases hjobs with ⟨task', htask', rfl⟩ | ⟨hnone, -⟩
    · simp only [ThreadPool.setWorker_self, WorkerPc.running.injEq] at htask'
      obtain rfl := htask'
      have hsum := sum_leftWith_setWorker (q := { p.pool with tasks := tasks }) hw'
        (.running task) hoff
      have hstart := task.callable.fits_start.left_le
      simp only [WorkerPc.leftWith_lock, WorkerPc.leftWith_running, Function.update_self] at hsum
      simp only [poolLeft, ThreadPool.setWorker_tasks, htasks, List.length_cons]
      omega
    · exact absurd (ThreadPool.setWorker_self _) (hnone task)

/-- A step of a job. -/
theorem poolLeft_job {task : PackagedTask Job} (jobs : Fin 2 → JobPc) (pc : JobPc)
    (hw : p.pool.workers w = .running task) :
    poolLeft p (Function.update jobs w pc) + (jobs w).left = poolLeft p jobs + pc.left := by
  have hsum := sum_off (f := fun v => (p.pool.workers v).leftWith (Function.update jobs w pc v))
    (g := fun v => (p.pool.workers v).leftWith (jobs v)) w
    fun v hv => by rw [Function.update_of_ne hv]
  simp only [hw, Function.update_self, WorkerPc.leftWith_running] at hsum
  simp only [poolLeft]
  omega

end Pool

section RaceControl

/-- A step of `process_events`. -/
theorem ProcessPc.left_step {e e' : EnforcerState} {k : EnforcerLabel}
    (hk : (∃ found, k = .drain found) ∨ ∃ now, k = .process now) (hst : e.step k = some e') :
    e'.pc.left e'.queue.length + 1 ≤ e.pc.left e.queue.length := by
  rcases hk with ⟨found, rfl⟩ | ⟨now, rfl⟩
  · simp only [EnforcerState.step, EnforcerState.drain] at hst
    split at hst
    · rename_i hpc hqueue
      obtain rfl := Option.some.inj hst
      simp only [ProcessPc.left, hpc, hqueue, List.length_append, List.length_cons,
        List.length_nil]
      omega
    · rename_i batch _ hpc
      obtain rfl := Option.some.inj hst
      simp only [ProcessPc.left, hpc]
      omega
    · cases hst
  · simp only [EnforcerState.step, EnforcerState.process] at hst
    split at hst
    · rename_i hpc
      obtain rfl := Option.some.inj hst
      simp [ProcessPc.left, hpc]
    · rename_i hpc
      split at hst <;> obtain rfl := Option.some.inj hst <;>
        simp only [ProcessPc.left, hpc, List.length_cons] <;> omega
    · rename_i hpc
      split at hst
      · split at hst <;> obtain rfl := Option.some.inj hst <;>
          simp only [ProcessPc.left, hpc] <;> omega
      · obtain rfl := Option.some.inj hst
        simp only [ProcessPc.left, hpc]
        omega
    · rename_i hpc
      obtain rfl := Option.some.inj hst
      simp only [ProcessPc.left, hpc]
      omega
    · rename_i hpc
      obtain rfl := Option.some.inj hst
      simp only [ProcessPc.left, hpc]
      omega
    · cases hst

variable {c c' : RaceControlState}

/-- A step of the callback. -/
theorem callback_left {k : RaceControlLabel}
    (hk : (∃ w, k = .callback w) ∨ (∃ found, k = .drain found) ∨ ∃ now, k = .process now)
    (hst : c.step k = some c') :
    c'.jobs = c.jobs
      ∧ c'.pc.left c'.enforcer + poolLeft c'.pool c'.jobs + 1
        ≤ c.pc.left c.enforcer + poolLeft c.pool c.jobs := by
  cases RaceControlState.move_of_step hst with
  | @skip w kind hpc =>
    refine ⟨rfl, ?_⟩
    cases kind <;> simp only [hpc, JobKind.after, CallbackPc.left] <;> omega
  | @callSubmit w kind pool hpc _ hpool =>
    have := poolLeft_callSubmit c.jobs hpool
    refine ⟨rfl, ?_⟩
    cases kind <;> simp only [hpc, CallbackPc.left] <;> omega
  | submit hpc hpool =>
    have := poolLeft_submit c.jobs hpool
    refine ⟨rfl, ?_⟩
    simp only
    omega
  | @assign w kind hpc _ =>
    refine ⟨rfl, ?_⟩
    cases kind <;> simp only [hpc, JobKind.after, CallbackPc.left] <;> omega
  | callProcess hpc hcall =>
    refine ⟨rfl, ?_⟩
    simp only [EnforcerState.step] at hcall
    split at hcall <;> cases hcall
    simp only [hpc, CallbackPc.left, ProcessPc.left, List.length_nil]
    omega
  | enforce hpc hk hcall =>
    have := ProcessPc.left_step hk hcall
    refine ⟨rfl, ?_⟩
    simp only [hpc, CallbackPc.left]
    omega
  | back hpc hidle =>
    refine ⟨rfl, ?_⟩
    simp only [hpc, hidle, CallbackPc.left, ProcessPc.left]
    omega
  | _ => simp at hk

/-- A step of a worker, with the events that it pushes. -/
theorem worker_left {w : Fin 2} {coin : ℚ} {now : ℤ} (hfits : c.JobsFit)
    (hst : c.worker w coin now = some c') :
    ∃ events, c'.enforcer = { c.enforcer with queue := c.enforcer.queue ++ events }
      ∧ poolLeft c'.pool c'.jobs + 5 * events.length + 1 ≤ poolLeft c.pool c.jobs := by
  have hquiet : c.enforcer = { c.enforcer with queue := c.enforcer.queue ++ [] } :=
    (RaceControlState.append_nil_queue _).symm
  rcases RaceControlState.worker_cases hst with ⟨task, pool, hw, hjob, hpool, rfl⟩
    | ⟨task, hw, hjob, rfl⟩ | ⟨task, hw, hrun⟩ | ⟨pool, jobs, hw, hpool, rfl, hjobs⟩
  · exact ⟨[], hquiet, poolLeft_finish hw hpool⟩
  · refine ⟨[], hquiet, ?_⟩
    have := poolLeft_job c.jobs .ready hw
    simp only [hjob, JobPc.left] at this
    simp only [List.length_nil]
    omega
  · obtain ⟨pc, events, hjobs, hpool, -, henforcer, -, hleft⟩ :=
      RaceControlState.runJob_left (hfits w task hw) hrun
    refine ⟨events, henforcer, ?_⟩
    have := poolLeft_job c.jobs pc hw
    rw [hpool, hjobs]
    omega
  · exact ⟨[], hquiet, poolLeft_lock hw hpool hjobs⟩

end RaceControl

end RaceConditionZ
