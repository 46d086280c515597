import Mathlib.Algebra.Order.BigOperators.Group.Finset
import RaceConditionZ.Lib.Potential
import RaceConditionZ.Proofs.WakeUp

/-!
# The destructor of the pool returns

Once `stop_` is set no task is added, so each section of a worker either takes one of the tasks left
or is its last. The wait cannot take a worker back: with `stop_` set the predicate holds. So the
workers and the destructor have boundedly many steps to take, and until the destructor has returned
one of them can take one.
-/

namespace RaceConditionZ

open Transition

variable {n : ℕ} {ι τ : Type}

/-- The steps a worker still takes, without those for the tasks in the queue. -/
def WorkerPc.left : WorkerPc τ → ℕ
  | .lock | .waiting => 1
  | .running _ => 2
  | .returned => 0

@[simp]
theorem ThreadPool.setWorker_tasks (p : ThreadPool n τ) (w : Fin n) (pc : WorkerPc τ) :
    (p.setWorker w pc).tasks = p.tasks := rfl

@[simp]
theorem ThreadPool.notifyAll_tasks (p : ThreadPool n τ) : p.notifyAll.tasks = p.tasks := rfl

@[simp]
theorem WorkerPc.left_lock : (.lock : WorkerPc τ).left = 1 := rfl

@[simp]
theorem WorkerPc.left_waiting : (.waiting : WorkerPc τ).left = 1 := rfl

@[simp]
theorem WorkerPc.left_running (task : PackagedTask τ) : (WorkerPc.running task).left = 2 := rfl

@[simp]
theorem WorkerPc.left_returned : (.returned : WorkerPc τ).left = 0 := rfl

/-- The steps the destructor of a pool of `n` workers still takes, once called. -/
def PoolDtorPc.left (n : ℕ) : PoolDtorPc → ℕ
  | .alive => 0
  | .notify => n + 2
  | .join k => n - k + 1
  | .returned => 0

/-- A step of a worker, or of the destructor. -/
def PoolLabel.serves : PoolLabel n ι τ → Bool
  | .worker _ | .destroy => true
  | _ => false

namespace PoolState

/-- The steps that workers and destructor still take once `stop_` is set. -/
def left (s : PoolState n ι τ) : ℕ :=
  (∑ w, (s.pool.workers w).left) + 2 * s.pool.tasks.length + s.dtor.left n

/-- `stop_` is set as soon as the destructor has begun. -/
def Stopping (s : PoolState n ι τ) : Prop := s.pool.stop = true ∧ s.dtor ≠ .alive

variable {s s' : PoolState n ι τ} {l : PoolLabel n ι τ}

/-- What the sum over the workers becomes where `w` goes on. -/
theorem sum_left_setWorker {p : ThreadPool n τ} {w : Fin n} {pc : WorkerPc τ}
    (hw : p.workers w = pc) (pc' : WorkerPc τ) :
    (∑ v, ((p.setWorker w pc').workers v).left) + pc.left
      = (∑ v, (p.workers v).left) + pc'.left := by
  rw [← hw]
  exact sum_update WorkerPc.left p.workers w pc'

theorem sum_left_notifyAll (p : ThreadPool n τ) :
    ∑ v, (p.notifyAll.workers v).left = ∑ v, (p.workers v).left := by
  refine Finset.sum_congr rfl fun v _ => ?_
  simp only [ThreadPool.notifyAll]
  split_ifs with hv
  · rw [WorkerPc.eq_waiting hv]
    rfl
  · rfl

variable [DecidableEq ι]

/-- The destructor sets `stop_` first. -/
theorem stop_of_dtor (h : (poolSystem n ι τ).Reachable s) :
    s.dtor ≠ .alive → s.pool.stop = true := by
  refine h.invariant (I := fun s => s.dtor ≠ .alive → s.pool.stop = true)
    (fun hd => absurd rfl hd) ?_
  intro s l s' _ hI _ hst
  cases poolMove_of_step hst with
  | stop => exact fun _ => rfl
  | notifyAll hd => exact fun _ => hI (by simp [hd])
  | join hd _ => exact fun _ => hI (by simp [hd])
  | joined hd _ => exact fun _ => hI (by simp [hd])
  | _ => exact hI

theorem wakeInv_reachable (hn : 0 < n) (h : (poolSystem n ι τ).Reachable s) : WakeInv s :=
  h.invariant wakeInv_init fun hs hI _ hst => hI.step hn (poolInv_reachable hs) hst

theorem Stopping.step (h : s.Stopping) (hst : s.step l = some s') : s'.Stopping := by
  obtain ⟨hstop, hd⟩ := h
  cases poolMove_of_step hst with
  | stop hd' => exact absurd hd' hd
  | accept hi hopen =>
    rw [hstop] at hopen
    cases hopen
  | notifyAll | join | joined => exact ⟨hstop, PoolDtorPc.noConfusion⟩
  | _ => exact ⟨hstop, hd⟩

/-- Each step of a worker or of the destructor is one less to come, and no other step adds one. -/
theorem Stopping.pays (h : s.Stopping) (hst : s.step l = some s') :
    s'.left + (if l.serves then 1 else 0) ≤ s.left := by
  obtain ⟨hstop, hd⟩ := h
  cases poolMove_of_step hst with
  | callSubmit | throw | notifyNone => exact le_refl _
  | accept hi hopen =>
    rw [hstop] at hopen
    cases hopen
  | wait hw htasks hopen =>
    rw [hstop] at hopen
    cases hopen
  | @notifyOne i w hi hw =>
    have hsum := sum_left_setWorker hw .lock
    simp only [WorkerPc.left_waiting, WorkerPc.left_lock] at hsum
    simp only [left, PoolLabel.serves, Bool.false_eq_true, if_false, ThreadPool.setWorker_tasks]
    omega
  | @spurious w hw =>
    have hsum := sum_left_setWorker hw .lock
    simp only [WorkerPc.left_waiting, WorkerPc.left_lock] at hsum
    simp only [left, PoolLabel.serves, Bool.false_eq_true, if_false, ThreadPool.setWorker_tasks]
    omega
  | @exit w hw htasks _ =>
    have hsum := sum_left_setWorker hw .returned
    simp only [WorkerPc.left_returned, WorkerPc.left_lock] at hsum
    simp only [left, PoolLabel.serves, if_true, ThreadPool.setWorker_tasks]
    omega
  | @take w task tasks hw htasks =>
    have hsum := sum_left_setWorker (p := { s.pool with tasks := tasks }) hw (.running task)
    simp only [WorkerPc.left_running, WorkerPc.left_lock] at hsum
    simp only [left, PoolLabel.serves, if_true, ThreadPool.setWorker_tasks, htasks,
      List.length_cons]
    omega
  | @finish w task hw =>
    have hsum := sum_left_setWorker hw .lock
    simp only [WorkerPc.left_running, WorkerPc.left_lock] at hsum
    simp only [left, PoolLabel.serves, if_true, ThreadPool.setWorker_tasks]
    omega
  | stop hd' => exact absurd hd' hd
  | notifyAll hd' =>
    simp only [left, sum_left_notifyAll, ThreadPool.notifyAll_tasks, PoolLabel.serves, if_true, hd',
      PoolDtorPc.left]
    omega
  | @join k hk hd' hw =>
    simp only [left, PoolLabel.serves, if_true, hd', PoolDtorPc.left]
    omega
  | @joined k hd' hk =>
    simp only [left, PoolLabel.serves, if_true, hd', PoolDtorPc.left]
    omega

theorem stopping_pays :
    (poolSystem n ι τ).Pays (fun s => (poolSystem n ι τ).Reachable s ∧ s.Stopping) left
      (fun _ l => if l.serves then 1 else 0) fun _ _ => 0 where
  keeps hs hst := ⟨hs.1.step hst, hs.2.step hst⟩
  pays hs hst := hs.2.pays hst

omit [DecidableEq ι] in
theorem left_le (s : PoolState n ι τ) : s.left ≤ 3 * n + 2 * s.pool.tasks.length + 2 := by
  have hworkers : (∑ w, (s.pool.workers w).left) ≤ 2 * n := by
    calc (∑ w, (s.pool.workers w).left) ≤ ∑ _w : Fin n, 2 :=
          Finset.sum_le_sum fun w _ => by
            cases s.pool.workers w <;> simp
      _ = 2 * n := by
        rw [Finset.sum_const, Finset.card_fin, Nat.nsmul_eq_mul, Nat.mul_comm]
  have hdtor : s.dtor.left n ≤ n + 2 := by
    cases s.dtor <;> simp only [PoolDtorPc.left] <;> omega
  simp only [left]
  omega

/-- A worker at the mutex or with a task can go on. -/
theorem exists_worker_step {w : Fin n} (hw : (s.pool.workers w).Awake) :
    ∃ s', s.step (.worker w) = some s' := by
  simp only [step, worker]
  rcases hpc : s.pool.workers w with _ | _ | task | _
  · simp only
    split <;> exact ⟨_, rfl⟩
  · rw [hpc] at hw
    exact hw.elim
  · exact ⟨_, rfl⟩
  · rw [hpc] at hw
    exact hw.elim

theorem awake_of_step {w : Fin n} (hst : s.step (.worker w) = some s') :
    (s.pool.workers w).Awake := by
  cases poolMove_of_step hst with
  | wait hw | exit hw | take hw | finish hw =>
    rw [hw]
    trivial

/-- The destructor waits for nobody but a worker that can go on. -/
theorem exists_serving_step (h : (poolSystem n ι τ).Reachable s) (hs : s.Stopping)
    (hd : s.dtor ≠ .returned) : ∃ l s', l.serves = true ∧ s.step l = some s' := by
  rcases hdtor : s.dtor with _ | _ | k | _
  · exact absurd hdtor hs.2
  · exact ⟨.destroy, _, rfl, by simp only [step, destroy, hdtor]; rfl⟩
  · by_cases hk : k < n
    · rcases hw : s.pool.workers ⟨k, hk⟩ with _ | _ | task | _
      · obtain ⟨s', hst⟩ := exists_worker_step (s := s) (w := ⟨k, hk⟩) (by rw [hw]; trivial)
        exact ⟨.worker ⟨k, hk⟩, s', rfl, hst⟩
      · have hnotify := (wakeInv_reachable (Nat.zero_lt_of_lt hk) h).released hs.1 _ hw
        rw [hdtor] at hnotify
        cases hnotify
      · obtain ⟨s', hst⟩ := exists_worker_step (s := s) (w := ⟨k, hk⟩) (by rw [hw]; trivial)
        exact ⟨.worker ⟨k, hk⟩, s', rfl, hst⟩
      · exact ⟨.destroy, _, rfl, by simp only [step, destroy, hdtor, dif_pos hk, hw]; rfl⟩
    · exact ⟨.destroy, _, rfl, by simp only [step, destroy, hdtor, dif_neg hk]; rfl⟩
  · exact absurd hdtor hd

/-- From the moment the destructor has set `stop_`, whatever the threads in `submit` do, workers and
destructor take boundedly many steps, and until the destructor has returned one of them can take
one; so it returns. -/
theorem destructor_returns (h : (poolSystem n ι τ).Reachable s) (hd : s.dtor ≠ .alive) :
    (∀ ls s', (poolSystem n ι τ).run s ls = some s' →
        ls.countP PoolLabel.serves ≤ 3 * n + 2 * s.pool.tasks.length + 2
          ∧ (s'.dtor = .returned ∨ ∃ l s'', l.serves = true ∧ s'.step l = some s''))
      ∧ ∃ ls s', (poolSystem n ι τ).run s ls = some s' ∧ s'.dtor = .returned
        ∧ ∀ l ∈ ls, l.serves = true := by
  have hs : s.Stopping := ⟨stop_of_dtor h hd, hd⟩
  refine ⟨fun ls s' hrun => ⟨?_, ?_⟩, ?_⟩
  · have hle := stopping_pays.total_le ⟨h, hs⟩ hrun
    rw [System.total_ite hrun, System.total_zero] at hle
    have := left_le s
    have hcount : ls.countP PoolLabel.serves = ls.countP (fun l => l.serves = true) := by simp
    omega
  · have hl := System.leads_of_run hrun
    by_cases hret : s'.dtor = .returned
    · exact .inl hret
    · exact .inr (exists_serving_step (h.leads hl)
        (hl.keeps (P := Stopping) (fun hs hst => hs.step hst) hs) hret)
  · have hnext : ∀ {s : PoolState n ι τ}, (poolSystem n ι τ).Reachable s ∧ s.Stopping →
        s.dtor ≠ .returned → ∃ l s', l.serves = true ∧ s.step l = some s'
          ∧ 1 ≤ (if l.serves then 1 else 0) ∧ 0 = 0 := by
      rintro s ⟨h, hs⟩ hd
      obtain ⟨l, s', hl, hst⟩ := exists_serving_step h hs hd
      exact ⟨l, s', hl, hst, by rw [if_pos hl], rfl⟩
    obtain ⟨ls, s', hrun, hret, -, hserves⟩ := stopping_pays.exists_run hnext ⟨h, hs⟩
    exact ⟨ls, s', hrun, hret, hserves⟩

/-- A task is queued and `stop_` set while the worker waits and its notification is to come. -/
def stopBeforeNotify : List (PoolLabel 1 (Fin 1) ℕ) :=
  [.worker 0, .callSubmit 0 7, .submit 0 0, .destroy]

theorem destructor_returns_stopBeforeNotify :
    let s := ((poolSystem 1 (Fin 1) ℕ).run (.init 1 (Fin 1) ℕ) stopBeforeNotify).get (by decide)
    s.pool.workers 0 = .waiting
      ∧ ∃ ls s', (poolSystem 1 (Fin 1) ℕ).run s ls = some s' ∧ s'.dtor = .returned
        ∧ ∀ l ∈ ls, l.serves = true :=
  have hs := System.reachable_get (M := poolSystem 1 (Fin 1) ℕ) stopBeforeNotify (by decide)
  ⟨by decide, (destructor_returns hs (by decide)).2⟩

end PoolState

end RaceConditionZ
