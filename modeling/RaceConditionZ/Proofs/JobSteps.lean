import RaceConditionZ.Proofs.PoolShutdown
import RaceConditionZ.Proofs.SingleFlight

/-!
# The jobs

A worker goes through the job in its hand from its start to its end, each step with a bounded rest
to come, and is never stuck in it.
-/

namespace RaceConditionZ

open Transition

/-- Where a job can be. -/
def Job.Fits : Job → JobPc → Prop
  | .check _ _, pc => pc = .returned ∨ pc = .ready ∨ ∃ rest, pc = .check rest ∧ rest.length ≤ 20
  | .update _, pc => ∀ rest, pc ≠ .check rest

theorem Job.fits_returned (job : Job) : job.Fits .returned := by
  cases job <;> simp [Fits]

theorem Job.fits_ready (job : Job) : job.Fits .ready := by
  cases job <;> simp [Fits]

theorem Job.fits_start (job : Job) : job.Fits job.start := by
  cases job <;> simp [Fits, start, List.length_finRange]

/-- The steps left of a job, with five more for each event it may push: pop and handling. -/
def JobPc.left : JobPc → ℕ
  | .check rest => 6 * rest.length + 2
  | .draw => 10
  | .readState => 9
  | .writeState _ => 8
  | .announce _ => 7
  | .returned => 1
  | .ready => 0

theorem Job.Fits.left_le {job : Job} {pc : JobPc} (h : job.Fits pc) : pc.left ≤ 122 := by
  cases job with
  | check =>
    rcases h with rfl | rfl | ⟨rest, rfl, hlen⟩ <;> simp only [JobPc.left] <;> omega
  | update =>
    cases pc with
    | check rest => exact absurd rfl (h rest)
    | _ => simp [JobPc.left]

namespace RaceControlState

variable {s s' : RaceControlState} {w : Fin 2} {coin : ℚ} {now : ℤ}

/-- A step of worker `w`: the end of its task, the future made ready, a step of the job, a step of
`worker_loop`. -/
theorem worker_cases (hst : s.worker w coin now = some s') :
    (∃ task pool, s.pool.pool.workers w = .running task ∧ s.jobs w = .ready
        ∧ s.pool.step (.worker w) = some pool ∧ s' = { s with pool := pool })
      ∨ (∃ task, s.pool.pool.workers w = .running task ∧ s.jobs w = .returned
        ∧ s' = { s with
          ready := task.ticket :: s.ready
          jobs := Function.update s.jobs w .ready })
      ∨ (∃ task, s.pool.pool.workers w = .running task
        ∧ s.runJob w task.callable coin now = some s')
      ∨ ∃ pool jobs, (∀ task, s.pool.pool.workers w ≠ .running task)
        ∧ s.pool.step (.worker w) = some pool ∧ s' = { s with pool := pool, jobs := jobs }
        ∧ ((∃ task, pool.pool.workers w = .running task
            ∧ jobs = Function.update s.jobs w task.callable.start)
          ∨ (∀ task, pool.pool.workers w ≠ .running task) ∧ jobs = s.jobs) := by
  unfold worker at hst
  by_cases hrunning : ∃ task, s.pool.pool.workers w = .running task
  · obtain ⟨task, hw⟩ := hrunning
    rw [hw] at hst
    rcases hjob : s.jobs w with rest | _ | _ | newState | newState | _ | _ <;>
      simp only [hjob] at hst
    · exact .inr (.inr (.inl ⟨task, hw, hst⟩))
    · exact .inr (.inr (.inl ⟨task, hw, hst⟩))
    · exact .inr (.inr (.inl ⟨task, hw, hst⟩))
    · exact .inr (.inr (.inl ⟨task, hw, hst⟩))
    · exact .inr (.inr (.inl ⟨task, hw, hst⟩))
    · obtain rfl := Option.some.inj hst
      exact .inr (.inl ⟨task, hw, rfl, rfl⟩)
    · rw [Option.map_eq_some_iff] at hst
      obtain ⟨pool, hpool, rfl⟩ := hst
      exact .inl ⟨task, pool, hw, rfl, hpool, rfl⟩
  · rw [not_exists] at hrunning
    split at hst
    · exact absurd ‹_› (hrunning _)
    · exact absurd ‹_› (hrunning _)
    · exact absurd ‹_› (hrunning _)
    rw [Option.map_eq_some_iff] at hst
    obtain ⟨pool, hpool, rfl⟩ := hst
    refine .inr (.inr (.inr ?_))
    split
    · rename_i task htask
      exact ⟨pool, _, hrunning, hpool, rfl, .inl ⟨task, htask, rfl⟩⟩
    · rename_i hnone
      exact ⟨pool, s.jobs, hrunning, hpool, rfl, .inr ⟨hnone, rfl⟩⟩

/-- A step of a job. -/
theorem runJob_left {job : Job} (hfits : job.Fits (s.jobs w))
    (hst : s.runJob w job coin now = some s') :
    ∃ pc events, s'.jobs = Function.update s.jobs w pc ∧ s'.pool = s.pool ∧ s'.pc = s.pc
      ∧ s'.enforcer = { s.enforcer with queue := s.enforcer.queue ++ events }
      ∧ job.Fits pc ∧ pc.left + 5 * events.length + 1 ≤ (s.jobs w).left := by
  unfold runJob at hst
  split at hst
  · rename_i states lap i rest hjob
    rw [hjob] at hfits ⊢
    have hrest : (Job.check states lap).Fits (.check rest) := by
      simp only [Job.Fits, reduceCtorEq, false_or, JobPc.check.injEq, exists_eq_left',
        List.length_cons] at hfits ⊢
      omega
    split at hst
    · rename_i e he
      obtain rfl := Option.some.inj hst
      refine ⟨.check rest, [e], rfl, rfl, rfl, rfl, hrest, ?_⟩
      simp only [JobPc.left, List.length_cons, List.length_nil]
      omega
    · obtain rfl := Option.some.inj hst
      refine ⟨.check rest, [], rfl, rfl, rfl, (append_nil_queue _).symm, hrest, ?_⟩
      simp only [JobPc.left, List.length_cons, List.length_nil]
      omega
  · rename_i hjob
    obtain rfl := Option.some.inj hst
    exact ⟨.returned, [], rfl, rfl, rfl, (append_nil_queue _).symm, Job.fits_returned _,
      by simp [hjob, JobPc.left]⟩
  · rename_i lap hjob
    obtain rfl := Option.some.inj hst
    refine ⟨_, [], rfl, rfl, rfl, (append_nil_queue _).symm, ?_, ?_⟩
    · split <;> simp [Job.Fits]
    · split <;> simp [hjob, JobPc.left]
  · rename_i hjob
    obtain rfl := Option.some.inj hst
    exact ⟨_, [], rfl, rfl, rfl, (append_nil_queue _).symm, by simp [Job.Fits],
      by simp [hjob, JobPc.left]⟩
  · rename_i newState hjob
    obtain rfl := Option.some.inj hst
    exact ⟨_, [], rfl, rfl, rfl, (append_nil_queue _).symm, by simp [Job.Fits],
      by simp [hjob, JobPc.left]⟩
  · rename_i lap newState hjob
    obtain rfl := Option.some.inj hst
    exact ⟨.returned, [_], rfl, rfl, rfl, rfl, Job.fits_returned _, by simp [hjob, JobPc.left]⟩
  · cases hst

/-- A job that fits has a step until it has returned. -/
theorem exists_runJob {job : Job} (hfits : job.Fits (s.jobs w)) (hreturned : s.jobs w ≠ .returned)
    (hready : s.jobs w ≠ .ready) : ∃ s', s.runJob w job coin now = some s' := by
  unfold runJob
  cases job with
  | check states lap =>
    rcases hfits with hjob | hjob | ⟨_ | ⟨i, rest⟩, hjob, -⟩
    · exact absurd hjob hreturned
    · exact absurd hjob hready
    · rw [hjob]
      exact ⟨_, rfl⟩
    · rw [hjob]
      simp only
      split <;> exact ⟨_, rfl⟩
  | update lap =>
    rcases hjob : s.jobs w with rest | _ | _ | newState | newState | _ | _
    · exact absurd hjob (hfits rest)
    · exact ⟨_, rfl⟩
    · exact ⟨_, rfl⟩
    · exact ⟨_, rfl⟩
    · exact ⟨_, rfl⟩
    · exact absurd hjob hreturned
    · exact absurd hjob hready

/-- The worker is in the job of the task in its hand. -/
def JobsFit (s : RaceControlState) : Prop :=
  ∀ w task, s.pool.pool.workers w = .running task → task.callable.Fits (s.jobs w)

/-- A worker takes a task, and leaves it, in a step of its own only. -/
theorem running_iff_of_other {p p' : PoolState 2 Unit Job} {l : PoolLabel 2 Unit Job}
    (hst : p.step l = some p') {v : Fin 2} (hl : l ≠ .worker v) {task : PackagedTask Job} :
    p'.pool.workers v = .running task ↔ p.pool.workers v = .running task := by
  have hset : ∀ {q : ThreadPool 2 Job} {w : Fin 2} {pc : WorkerPc Job}, q.workers = p.pool.workers →
      p.pool.workers w ≠ .running task → pc ≠ .running task →
      ((q.setWorker w pc).workers v = .running task ↔ p.pool.workers v = .running task) := by
    intro q w pc hq hold hnew
    by_cases hvw : v = w
    · subst hvw
      rw [ThreadPool.setWorker_self]
      exact iff_of_false hnew hold
    · rw [ThreadPool.setWorker_of_ne hvw, hq]
  cases poolMove_of_step hst with
  | callSubmit | throw | accept | notifyNone | stop | join | joined => exact Iff.rfl
  | notifyOne _ hw | spurious hw | wait hw | exit hw => exact hset rfl (by simp [hw]) (by simp)
  | take | finish => rw [ThreadPool.setWorker_of_ne fun hvw => hl (by rw [hvw])]
  | notifyAll =>
    rcases hv : p.pool.workers v with _ | _ | _ | _ <;>
      simp [ThreadPool.notifyAll, hv, WorkerPc.isWaiting]

theorem JobsFit.of_same (h : s.JobsFit) (hpool : s'.pool = s.pool) (hjobs : s'.jobs = s.jobs) :
    s'.JobsFit := by
  intro v task hv
  rw [hpool] at hv
  rw [hjobs]
  exact h v task hv

theorem JobsFit.of_pool (h : s.JobsFit) {l : PoolLabel 2 Unit Job}
    (hst : s.pool.step l = some s'.pool) (hl : ∀ w, l ≠ .worker w) (hjobs : s'.jobs = s.jobs) :
    s'.JobsFit := by
  intro v task hv
  rw [hjobs]
  exact h v task ((running_iff_of_other hst (hl v)).1 hv)

/-- One job goes on. -/
theorem JobsFit.of_job (h : s.JobsFit) {pc : JobPc} (hpool : s'.pool = s.pool)
    (hjobs : s'.jobs = Function.update s.jobs w pc)
    (hpc : ∀ task, s.pool.pool.workers w = .running task → task.callable.Fits pc) :
    s'.JobsFit := by
  intro v task hv
  rw [hpool] at hv
  rw [hjobs]
  by_cases hvw : v = w
  · subst hvw
    rw [Function.update_self]
    exact hpc task hv
  · rw [Function.update_of_ne hvw]
    exact h v task hv

theorem JobsFit.worker (h : s.JobsFit) (hst : s.worker w coin now = some s') : s'.JobsFit := by
  rcases worker_cases hst with ⟨task, pool, hw, hjob, hpool, rfl⟩ | ⟨task, hw, hjob, rfl⟩
    | ⟨task, hw, hrun⟩ | ⟨pool, jobs, hw, hpool, rfl, hjobs⟩
  · intro v task' hv
    refine h v task' ?_
    cases poolMove_of_step hpool with
    | wait hw' | exit hw' | take hw' =>
      rw [hw] at hw'
      cases hw'
    | finish => exact running_setWorker (by simp) hv
  · exact h.of_job rfl rfl fun task' _ => Job.fits_ready _
  · obtain ⟨pc, events, hjobs, hpool, -, -, hfits, -⟩ :=
      runJob_left (h w task hw) hrun
    refine h.of_job hpool hjobs fun task' hw' => ?_
    rw [hw] at hw'
    cases hw'
    exact hfits
  · intro v task hv
    by_cases hvw : v = w
    · subst hvw
      rcases hjobs with ⟨task', htask', rfl⟩ | ⟨hnone, -⟩
      · have htask : WorkerPc.running task' = .running task := htask'.symm.trans hv
        cases htask
        simp only [Function.update_self]
        exact Job.fits_start _
      · exact absurd hv (hnone task)
    · have hold := h v task ((running_iff_of_other hpool (by simpa using Ne.symm hvw)).1 hv)
      rcases hjobs with ⟨task', htask', rfl⟩ | ⟨-, rfl⟩
      · simp only [Function.update_of_ne hvw]
        exact hold
      · exact hold

theorem JobsFit.step {l : RaceControlLabel} (h : s.JobsFit) (hst : s.step l = some s') :
    s'.JobsFit := by
  cases move_of_step hst with
  | callSubmit _ _ hpool | submit _ hpool | spurious hpool | destroy _ hpool =>
    exact h.of_pool hpool (by simp) rfl
  | detect | job | makeReady | finish | lock => exact h.worker hst
  | _ => exact h.of_same rfl rfl

theorem jobsFit_reachable {start : TelemetryGenerator} (h : (raceControlSystem start).Reachable s) :
    s.JobsFit :=
  h.invariant (I := JobsFit) (fun w task hw => by cases hw) fun _ hI _ hst => hI.step hst

/-- A worker that neither waits nor has returned can go on. -/
theorem exists_worker (h : s.JobsFit) (hw : (s.pool.pool.workers w).Awake) (coin : ℚ) (now : ℤ) :
    ∃ s', s.worker w coin now = some s' := by
  obtain ⟨pool, hpool⟩ := PoolState.exists_worker_step hw
  unfold RaceControlState.worker
  split
  · exact ⟨_, Option.map_eq_some_iff.2 ⟨pool, hpool, rfl⟩⟩
  · exact ⟨_, rfl⟩
  · rename_i task htask hready hreturned
    exact exists_runJob (h w task htask) hreturned hready
  · exact ⟨_, Option.map_eq_some_iff.2 ⟨pool, hpool, rfl⟩⟩

/-- The pool's destructor is the last that the main thread calls. -/
theorem main_of_dtor {start : TelemetryGenerator} (h : (raceControlSystem start).Reachable s) :
    s.pool.dtor ≠ .alive → s.main = .destroy := by
  refine h.invariant (I := fun s => s.pool.dtor ≠ .alive → s.main = .destroy)
    (fun hd => absurd rfl hd) ?_
  have hother : ∀ {p p' : PoolState 2 Unit Job} {l : PoolLabel 2 Unit Job}, p.step l = some p' →
      l ≠ .destroy → p'.dtor = p.dtor := by
    intro p p' l hst hl
    cases poolMove_of_step hst with
    | stop | notifyAll | join | joined => exact absurd rfl hl
    | _ => rfl
  intro s l s' _ hI _ hst
  have hpast : s.main ≠ .destroy → s.pool.dtor = .alive := fun hmain => by
    by_contra hd
    exact hmain (hI hd)
  cases move_of_step hst with
  | callSubmit _ _ hpool | submit _ hpool | finish _ _ hpool | lock _ hpool | spurious hpool =>
    have hsame := hother hpool (by simp)
    intro hd
    rw [hsame] at hd
    exact hI hd
  | stop hmain | join hmain | print hmain =>
    intro hd
    exact absurd (hpast (by simp [hmain])) hd
  | printed => exact fun _ => rfl
  | destroy hmain => exact fun _ => hmain
  | _ => exact hI

/-- Two tasks at most wait, one of each kind. -/
theorem tasks_length_le {start : TelemetryGenerator} (h : (raceControlSystem start).Reachable s) :
    s.pool.pool.tasks.length ≤ 2 := by
  have hflight := flight_reachable h
  have hpool := poolInv_reachable (pool_reachable h)
  have hnodup : (s.pool.pool.tasks.map PackagedTask.ticket).Nodup := by
    have haccepted : (s.pool.history.accepted.map PackagedTask.ticket).Nodup := by
      rw [hpool.tickets]
      exact List.nodup_range
    rw [← hpool.order, List.map_append, List.nodup_append] at haccepted
    exact haccepted.2.1
  have hkinds : (s.pool.pool.tasks.map fun task => task.callable.kind).Nodup := by
    refine hnodup.of_map _ |>.map_on ?_
    intro a ha b hb hkind
    have hsame := (hflight.latest a (mem_inFlight.2 (.inl ha))).1
    rw [hkind, (hflight.latest b (mem_inFlight.2 (.inl hb))).1] at hsame
    exact List.inj_on_of_nodup_map hnodup ha hb (Option.some.inj hsame).symm
  have hsub : (s.pool.pool.tasks.map fun task => task.callable.kind) ⊆ [.check, .update] := by
    intro kind _
    cases kind <;> simp
  have hle := (hkinds.subperm hsub).length_le
  rwa [List.length_map] at hle

end RaceControlState

end RaceConditionZ
