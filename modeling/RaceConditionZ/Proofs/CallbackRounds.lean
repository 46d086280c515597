import RaceConditionZ.Proofs.EventQueue
import RaceConditionZ.Proofs.PitEntry
import RaceConditionZ.Proofs.WarningTally

/-!
# Rounds of the generator's thread

Runs that lead from one tick to the next. A job that is held up keeps its future from being ready,
and the callback then passes its submission over; a call of `process_events` that nobody pushes
into leaves no violation behind.
-/

namespace RaceConditionZ

open Transition PenaltyEnforcer

namespace RaceControlState

variable {s : RaceControlState} {start : TelemetryGenerator}

/-- Nothing happens to the jobs. -/
structure SameJobs (s s' : RaceControlState) : Prop where
  pool : s'.pool = s.pool
  jobs : s'.jobs = s.jobs
  futures : s'.futures = s.futures
  ready : s'.ready = s.ready

theorem SameJobs.trans {s₁ s₂ : RaceControlState} (h : SameJobs s s₁) (h₁ : SameJobs s₁ s₂) :
    SameJobs s s₂ where
  pool := h₁.pool.trans h.pool
  jobs := h₁.jobs.trans h.jobs
  futures := h₁.futures.trans h.futures
  ready := h₁.ready.trans h.ready

/-- What a tick leaves. -/
structure Ticked (s s' : RaceControlState) (x : TickInput) : Prop where
  board : s'.board = (s.generator.tick x).standings
  tickCounter : s'.tickCounter = s.tickCounter + 1
  pc : s'.pc = .poll .check
  inputs : s'.inputs = s.inputs ++ [x]
  main : s'.main = s.main
  enforcer : s'.enforcer = s.enforcer
  detected : s'.detected = s.detected
  sameJobs : SameJobs s s'

theorem exists_tick (hpc : s.pc = .testStop) (hleaves : s.leaves = false) (x : TickInput) :
    ∃ s', s.step (.tick x) = some s' ∧ Ticked s s' x := by
  refine ⟨{ s with
    generator := s.generator.tick x
    board := (s.generator.tick x).standings
    tickCounter := s.tickCounter + 1
    pc := .poll .check
    inputs := s.inputs ++ [x] }, ?_, ⟨?_, rfl, rfl, rfl, rfl, rfl, rfl, ⟨rfl, rfl, rfl, rfl⟩⟩⟩
  · simp only [step, tick, hpc, hleaves, Bool.false_eq_true, if_false]
  · dsimp only

theorem step_skip {kind : JobKind} (hpc : s.pc = .poll kind)
    (hidle : (s.due kind && s.idle kind) = false) (w : Fin 2) :
    s.step (.callback w) = some { s with pc := kind.after } := by
  simp only [step, callback, hpc, poll, hidle, Bool.false_eq_true, if_false]

theorem leads_of_step {s' : RaceControlState} {l : RaceControlLabel} (hst : s.step l = some s') :
    (raceControlSystem start).Leads s s' := .single ⟨l, hst⟩

/-- A step of the call in progress is a step of the generator's thread. -/
theorem leads_of_callStep (hpc : s.pc = .process) {l : EnforcerLabel} {e : EnforcerState}
    (hst : callSystem.step s.enforcer l = some e) :
    (raceControlSystem start).Leads s { s with enforcer := e } := by
  simp only [callSystem, System.guarded] at hst
  split_ifs at hst with hconsumes
  rcases EnforcerLabel.eq_of_consumes hconsumes with ⟨found, rfl⟩ | ⟨now, rfl⟩
  · refine leads_of_step (l := .drain found) ?_
    simp only [step, drain, hpc]
    exact Option.map_eq_some_iff.2 ⟨e, hst, rfl⟩
  · have hbusy : s.enforcer.pc ≠ .idle := by
      intro hidle
      simp only [enforcerSystem, EnforcerState.step, EnforcerState.process, hidle] at hst
      cases hst
    refine leads_of_step (l := .process now) ?_
    simp only [step, process, hpc]
    exact Option.map_eq_some_iff.2 ⟨e, hst, rfl⟩

variable (start) in
theorem leads_of_call (hpc : s.pc = .process) {e : EnforcerState}
    (hl : callSystem.Leads s.enforcer e) :
    (raceControlSystem start).Leads s { s with enforcer := e } := by
  induction hl with
  | refl => exact .refl
  | @tail e e' _ hst ih =>
    obtain ⟨l, hst⟩ := hst
    exact ih.trans (leads_of_callStep (s := { s with enforcer := e }) hpc hst)

variable (start) in
/-- The callback's last statement, and the return to the head of the loop. -/
theorem leads_processed (hpc : s.pc = .callProcess) (hidle : s.enforcer.pc = .idle) :
    ∃ e : EnforcerState, (raceControlSystem start).Leads s { s with pc := .testStop, enforcer := e }
      ∧ e.pc = .idle ∧ ∀ a ∈ e.queue, a.type ≠ .trackLimits := by
  obtain ⟨e, hl, he, -, hqueue⟩ :=
    leads_processEvents (s := { s.enforcer with pc := .drain [] }) rfl fun _ => 0
  have hcall : s.step (.callback 0) = some { s with
      pc := .process
      enforcer := { s.enforcer with pc := .drain [] } } := by
    simp only [step, callback, hpc, EnforcerState.step, hidle, Option.map_some]
  have hloop := leads_of_call start (s := { s with
    pc := .process
    enforcer := { s.enforcer with pc := .drain [] } }) rfl hl
  have hback : step { s with pc := .process, enforcer := e } (.process 0)
      = some { s with pc := .testStop, enforcer := e } := by
    simp only [step, process, he]
  refine ⟨e, (leads_of_step hcall).trans (hloop.trans (leads_of_step hback)), he, fun a ha => ?_⟩
  rw [hqueue, processEvents_queue] at ha
  rw [announcements_type ha]
  decide

end RaceControlState

/-- A call of `submit` while the pool is open and no worker waits. -/
theorem pool_submit {p : PoolState 2 Unit Job} {c : Job}
    (hquiet : p.submitters () = none ∨ p.submitters () = some .returned)
    (hopen : p.pool.stop = false) (hwait : ∀ w, p.pool.workers w ≠ .waiting) :
    ∃ p₁ p₂ p₃ : PoolState 2 Unit Job, p.step (.callSubmit () c) = some p₁
      ∧ p₁.step (.submit () 0) = some p₂ ∧ p₂.step (.submit () 0) = some p₃
      ∧ p₁.submitters () = some (.lock c) ∧ p₂.submitters () = some .notify
      ∧ p₃.submitters () = some .returned
      ∧ p₃.pool = { p.pool with tasks := p.pool.tasks ++ [⟨p.history.accepted.length, c⟩] } := by
  let task : PackagedTask Job := ⟨p.history.accepted.length, c⟩
  let p₁ : PoolState 2 Unit Job := { p with
    submitters := Function.update p.submitters () (some (.lock c)) }
  let p₂ : PoolState 2 Unit Job := { p₁ with
    pool := { p.pool with tasks := p.pool.tasks ++ [task] }
    submitters := Function.update p₁.submitters () (some .notify)
    history := { p.history with accepted := p.history.accepted ++ [task] } }
  let p₃ : PoolState 2 Unit Job := { p₂ with
    submitters := Function.update p₂.submitters () (some .returned) }
  have hlock : p₁.submitters () = some (.lock c) := Function.update_self () _ p.submitters
  have hnotify : p₂.submitters () = some .notify := Function.update_self () _ p₁.submitters
  have hnobody : ¬ ∃ v, (p₂.pool.workers v).isWaiting := by
    rintro ⟨v, hv⟩
    exact hwait v (WorkerPc.eq_waiting hv)
  refine ⟨p₁, p₂, p₃, ?_, ?_, ?_, hlock, hnotify, Function.update_self () _ p₂.submitters, rfl⟩
  · rcases hquiet with hquiet | hquiet <;> simp only [PoolState.step, hquiet] <;> rfl
  · simp only [PoolState.step, PoolState.submit, hlock, ThreadPool.submitSection]
    rw [if_neg (by simp [p₁, hopen])]
  · simp only [PoolState.step, PoolState.submit, hnotify, ThreadPool.notifyOne]
    rw [if_neg hnobody]
    rfl

theorem pool_finish {p : PoolState 2 Unit Job} {w : Fin 2} {task : PackagedTask Job}
    (hw : p.pool.workers w = .running task) :
    ∃ p' : PoolState 2 Unit Job, p.step (.worker w) = some p'
      ∧ p'.pool = p.pool.setWorker w .lock := by
  refine ⟨{ p with
    pool := p.pool.setWorker w .lock
    history := { p.history with finished := p.history.finished ++ [(w, task)] } }, ?_, rfl⟩
  simp only [PoolState.step, PoolState.worker, hw]

/-- A worker takes the only task. -/
theorem pool_take {p : PoolState 2 Unit Job} {w : Fin 2} {task : PackagedTask Job}
    (hw : p.pool.workers w = .lock) (htasks : p.pool.tasks = [task]) :
    ∃ p' : PoolState 2 Unit Job, p.step (.worker w) = some p'
      ∧ p'.pool = { p.pool with tasks := [] }.setWorker w (.running task) := by
  refine ⟨{ p with
    pool := { p.pool with tasks := [] }.setWorker w (.running task)
    history := { p.history with dequeued := p.history.dequeued ++ [(w, task)] } }, ?_, rfl⟩
  simp only [PoolState.step, PoolState.worker, hw, ThreadPool.lockSection_take htasks,
    ThreadPool.setWorker_self]

namespace RaceControlState

variable {s : RaceControlState} {start : TelemetryGenerator}

/-- A submission while no worker waits. -/
theorem leads_submit {kind : JobKind} (h : (raceControlSystem start).Reachable s)
    (hpc : s.pc = .poll kind) (hdue : s.due kind = true) (hidle : s.idle kind = true)
    (hwait : ∀ w, s.pool.pool.workers w ≠ .waiting) :
    ∃ (p : PoolState 2 Unit Job) (t : Option ℕ) (subs : List (JobKind × ℕ)),
      (raceControlSystem start).Leads s { s with
          pool := p
          pc := kind.after
          futures := Function.update s.futures kind t
          submissions := subs }
        ∧ p.pool = { s.pool.pool with
          tasks := s.pool.pool.tasks
            ++ [⟨s.pool.history.accepted.length, s.generator.job kind⟩] } := by
  have hwired := wired_reachable h
  have hopen : s.pool.pool.stop = false := by
    rw [← Bool.not_eq_true]
    intro hstop
    have hret := hwired.closing hstop
    rw [hpc] at hret
    cases hret
  obtain ⟨p₁, p₂, p₃, hcall, haccept, hnotify, hlock, hnotified, hreturned, hpool⟩ :=
    pool_submit (c := s.generator.job kind) (hwired.quiet (by simp [hpc])) hopen hwait
  let s₁ : RaceControlState := { s with
    pool := p₁
    pc := .submit kind
    submissions := s.submissions ++ [(kind, s.inputs.length)] }
  have h₁ : s.step (.callback 0) = some s₁ := by
    simp only [step, callback, hpc, poll, hdue, hidle, Bool.and_self, if_true, hcall,
      Option.map_some]
    rfl
  have h₂ : s₁.step (.callback 0) = some { s₁ with pool := p₂ } := by
    simp only [step, callback, s₁, submit, hlock, haccept, Option.map_some]
  have h₃ : step { s₁ with pool := p₂ } (.callback 0) = some { s₁ with pool := p₃ } := by
    simp only [step, callback, s₁, submit, hnotified, hnotify, Option.map_some]
  have h₄ : step { s₁ with pool := p₃ } (.callback 0) = some { s₁ with
      pool := p₃
      pc := kind.after
      futures := Function.update s.futures kind (some (p₃.history.accepted.length - 1)) } := by
    simp only [step, callback, s₁, submit, hreturned]
  exact ⟨p₃, _, _, (leads_of_step h₁).trans ((leads_of_step h₂).trans
    ((leads_of_step h₃).trans (leads_of_step h₄))), hpool⟩

variable (start) in
/-- A worker that is at the mutex takes the only task. -/
theorem leads_take {w : Fin 2} (task : PackagedTask Job) (hw : s.pool.pool.workers w = .lock)
    (htasks : s.pool.pool.tasks = [task]) :
    ∃ p : PoolState 2 Unit Job,
      (raceControlSystem start).Leads s { s with
          pool := p
          jobs := Function.update s.jobs w task.callable.start }
        ∧ p.pool = { s.pool.pool with tasks := [] }.setWorker w (.running task) := by
  obtain ⟨p, hst, hpool⟩ := pool_take hw htasks
  have hrunning : p.pool.workers w = .running task := by
    rw [hpool, ThreadPool.setWorker_self]
  refine ⟨p, leads_of_step (l := .worker w 0 0) ?_, hpool⟩
  simp only [step, worker, hw, hst, Option.map_some, hrunning]
  rfl

section Check

variable {w : Fin 2} {task : PackagedTask Job} {states : Fin 20 → DriverState} {lap : ℤ}

theorem step_check (hw : s.pool.pool.workers w = .running task)
    (htask : task.callable = .check states lap) {i : Fin 20} {rest : List (Fin 20)}
    (hjob : s.jobs w = .check (i :: rest)) {coin : ℚ} {now : ℤ} {e : RaceControlEvent}
    (he : (states i).check lap coin now = some e) :
    s.step (.worker w coin now) = some { s with
      jobs := Function.update s.jobs w (.check rest)
      enforcer := { s.enforcer with queue := s.enforcer.queue ++ [e] }
      detected := s.detected ++ [e] } := by
  simp only [step, worker, hw, hjob, runJob, htask, he]
  rfl

theorem setJob_setJob (pc pc' : JobPc) : (s.setJob w pc).setJob w pc' = s.setJob w pc' := by
  unfold setJob
  simp only [Function.update_idem]

theorem setJob_one_zero (pc : JobPc) : (s.setJob 1 pc).jobs 0 = s.jobs 0 :=
  Function.update_of_ne Fin.zero_ne_one pc s.jobs

/-- Draws of a half are above every driver's probability, and the loop goes by. -/
theorem leads_pass (hw : s.pool.pool.workers w = .running task)
    (htask : task.callable = .check states lap)
    (hsafe : ∀ i, (states i).violationProb ≤ 1 / 2) {rest : List (Fin 20)}
    (hjob : s.jobs w = .check rest) :
    (raceControlSystem start).Leads s (s.setJob w (.check [])) := by
  induction rest generalizing s with
  | nil =>
    have hsame : s.setJob w (.check []) = s := by
      unfold setJob
      rw [← hjob, Function.update_eq_self]
    rw [hsame]
  | cons i rest ih =>
    have hnone : (states i).check lap (1 / 2) 0 = none := by
      unfold DriverState.check
      rw [if_neg (hsafe i).not_gt, ite_self]
    have hst : s.step (.worker w (1 / 2) 0) = some (s.setJob w (.check rest)) := by
      simp only [step, worker, hw, hjob, runJob, htask, hnone]
    have hnext := ih (s := s.setJob w (.check rest)) hw (Function.update_self w _ s.jobs)
    rw [setJob_setJob] at hnext
    exact (leads_of_step hst).trans hnext

variable (start) in
/-- The rest of a check that detects nothing more. -/
theorem leads_checked (hw : s.pool.pool.workers w = .running task)
    (htask : task.callable = .check states lap)
    (hsafe : ∀ i, (states i).violationProb ≤ 1 / 2) {rest : List (Fin 20)}
    (hjob : s.jobs w = .check rest) :
    ∃ p : PoolState 2 Unit Job,
      (raceControlSystem start).Leads s { s with
          pool := p
          jobs := Function.update s.jobs w .ready
          ready := task.ticket :: s.ready }
        ∧ p.pool = s.pool.pool.setWorker w .lock := by
  obtain ⟨p, hpool, hp⟩ := pool_finish hw
  have hreturn : (s.setJob w (.check [])).step (.worker w 0 0) = some (s.setJob w .returned) := by
    simp only [step, worker, setJob, hw, Function.update_self, runJob, htask, Function.update_idem]
  have hready : (s.setJob w .returned).step (.worker w 0 0)
      = some ({ s with ready := task.ticket :: s.ready }.setJob w .ready) := by
    simp only [step, worker, setJob, hw, Function.update_self, Function.update_idem]
  have hfinish : ({ s with ready := task.ticket :: s.ready }.setJob w .ready).step (.worker w 0 0)
      = some { s with
        pool := p
        jobs := Function.update s.jobs w .ready
        ready := task.ticket :: s.ready } := by
    simp only [step, worker, setJob, hw, Function.update_self, hpool, Option.map_some]
  exact ⟨p, (leads_pass hw htask hsafe hjob).trans ((leads_of_step hreturn).trans
    ((leads_of_step hready).trans (leads_of_step hfinish))), hp⟩

end Check

/-! ### Rounds on the default track -/

section Rounds

theorem executing_congr {s' : RaceControlState} {w : Fin 2}
    (hworkers : s'.pool.pool.workers w = s.pool.pool.workers w) (hjobs : s'.jobs w = s.jobs w) :
    s'.executing w = s.executing w := by
  unfold executing
  rw [hworkers, hjobs]

theorem SameJobs.executing {s' : RaceControlState} (h : SameJobs s s') (w : Fin 2) :
    s'.executing w = s.executing w :=
  executing_congr (by rw [h.pool]) (by rw [h.jobs])

theorem SameJobs.idle {s' : RaceControlState} (h : SameJobs s s') (kind : JobKind) :
    s'.idle kind = s.idle kind := by
  unfold RaceControlState.idle
  rw [h.futures, h.ready]

/-- The future of a job that a worker is in is not ready. -/
theorem idle_of_executing (h : (raceControlSystem start).Reachable s) {w : Fin 2}
    {task : PackagedTask Job} (hw : s.executing w = some task)
    (hpc : s.pc ≠ .submit task.callable.kind) : s.idle task.callable.kind = false := by
  rw [← Bool.not_eq_true]
  intro hidle
  exact (flight_reachable h).none_of_idle hpc hidle (mem_inFlight.2 (.inr ⟨w, hw⟩)) rfl

variable (lapStart : Fin 20 → ℤ) (xs : ℕ → TickInput)

open TelemetryGenerator in
/-- After `n` ticks of the race, `k` violations of VER detected. No call of `process_events` is in
progress, and worker `0` is held up in an update job. -/
structure Underway (s : RaceControlState) (n k : ℕ) : Prop where
  reachable : (raceControlSystem (.init defaultTrack lapStart)).Reachable s
  main : s.main = .racing
  inputs : s.inputs = firstTicks xs n
  board : 0 < n → s.board = (race lapStart xs n).standings
  tickCounter : s.tickCounter = n
  call : s.enforcer.pc = .idle
  detected : s.detectedFor 0 = k
  updating : ∃ task, s.executing 0 = some task ∧ task.callable.kind = .update

/-- No check is queued or running, and worker `1` is on its way to the mutex. -/
structure Free (s : RaceControlState) : Prop where
  idle : s.idle .check = true
  worker : s.pool.pool.workers 1 = .lock
  tasks : s.pool.pool.tasks = []

theorem Free.of_sameJobs {s' : RaceControlState} (h : s.Free) (hsame : SameJobs s s') :
    s'.Free where
  idle := by rw [hsame.idle, h.idle]
  worker := by rw [hsame.pool, h.worker]
  tasks := by rw [hsame.pool, h.tasks]

variable {lapStart xs} {n k : ℕ}

theorem Underway.generator (h : Underway lapStart xs s n k) :
    s.generator = TelemetryGenerator.race lapStart xs n := by
  rw [(submitted_reachable h.reachable).generator, h.inputs]
  rfl

theorem Underway.frame {s' : RaceControlState} {n' : ℕ} (h : Underway lapStart xs s n k)
    (hreachable : (raceControlSystem (.init defaultTrack lapStart)).Reachable s')
    (hmain : s'.main = s.main) (hinputs : s'.inputs = TelemetryGenerator.firstTicks xs n')
    (hboard : 0 < n' → s'.board = (TelemetryGenerator.race lapStart xs n').standings)
    (hcounter : s'.tickCounter = n') (hcall : s'.enforcer.pc = .idle)
    (hdetected : s'.detected = s.detected) (hupdating : s'.executing 0 = s.executing 0) :
    Underway lapStart xs s' n' k where
  reachable := hreachable
  main := hmain.trans h.main
  inputs := hinputs
  board := hboard
  tickCounter := hcounter
  call := hcall
  detected := by
    unfold detectedFor
    rw [hdetected]
    exact h.detected
  updating := by
    rw [hupdating]
    exact h.updating

/-- Within a tick. -/
theorem Underway.of_leads {s' : RaceControlState} (h : Underway lapStart xs s n k)
    (hl : (raceControlSystem (.init defaultTrack lapStart)).Leads s s') (hmain : s'.main = s.main)
    (hinputs : s'.inputs = s.inputs) (hboard : s'.board = s.board)
    (hcounter : s'.tickCounter = s.tickCounter) (hcall : s'.enforcer.pc = .idle)
    (hdetected : s'.detected = s.detected) (hupdating : s'.executing 0 = s.executing 0) :
    Underway lapStart xs s' n k :=
  h.frame (h.reachable.leads hl) hmain (hinputs.trans h.inputs)
    (fun hn => hboard.trans (h.board hn)) (hcounter.trans h.tickCounter) hcall hdetected hupdating

theorem Underway.leaves (h : Underway lapStart xs s n k) (hn : n ≤ 1093) : s.leaves = false := by
  unfold RaceControlState.leaves
  rw [h.main, h.generator, TelemetryGenerator.race_not_finished lapStart xs hn]
  rfl

theorem Underway.tick (h : Underway lapStart xs s n k) (hpc : s.pc = .testStop) (hn : n ≤ 1093) :
    ∃ s', s.step (.tick (xs n)) = some s' ∧ Underway lapStart xs s' (n + 1) k
      ∧ s'.pc = .poll .check ∧ SameJobs s s' := by
  obtain ⟨s', hst, ht⟩ := exists_tick hpc (h.leaves hn) (xs n)
  refine ⟨s', hst, h.frame (h.reachable.leads (leads_of_step hst)) ht.main ?_ (fun _ => ?_) ?_ ?_
    ht.detected (ht.sameJobs.executing 0), ht.pc, ht.sameJobs⟩
  · rw [TelemetryGenerator.firstTicks_succ, ← h.inputs]
    exact ht.inputs
  · rw [TelemetryGenerator.race_succ, ← h.generator]
    exact ht.board
  · rw [← h.tickCounter]
    exact ht.tickCounter
  · rw [ht.enforcer]
    exact h.call

/-- The callback from its poll of the update on: the update job is passed over, and what waits is
processed. -/
theorem Underway.close (h : Underway lapStart xs s n k) (hpc : s.pc = .poll .update) :
    ∃ s', (raceControlSystem (.init defaultTrack lapStart)).Leads s s'
      ∧ Underway lapStart xs s' n k ∧ s'.pc = .testStop ∧ SameJobs s s'
      ∧ ∀ e ∈ s'.enforcer.queue, e.type ≠ .trackLimits := by
  obtain ⟨task, hw, hkind⟩ := h.updating
  have hidle := idle_of_executing h.reachable hw (by simp [hpc])
  rw [hkind] at hidle
  have hskip := step_skip hpc (by rw [hidle, Bool.and_false]) 0
  obtain ⟨e, hl, he, hqueue⟩ := leads_processed (.init defaultTrack lapStart)
    (s := { s with pc := JobKind.update.after }) rfl h.call
  have hleads := Relation.ReflTransGen.trans (leads_of_step hskip) hl
  exact ⟨_, hleads, h.of_leads hleads rfl rfl rfl rfl he rfl (executing_congr rfl rfl), rfl,
    ⟨rfl, rfl, rfl, rfl⟩, hqueue⟩

/-- Worker `1` is in the check of the states that the callback has, with these drivers left. -/
structure Checking (s : RaceControlState) (rest : List (Fin 20)) : Prop where
  running : ∃ task lap, s.pool.pool.workers 1 = .running task
    ∧ task.callable = .check s.generator.states lap
  job : s.jobs 1 = .check rest
  tasks : s.pool.pool.tasks = []

theorem Checking.executing {rest : List (Fin 20)} (h : s.Checking rest) :
    ∃ task, s.executing 1 = some task ∧ task.callable.kind = .check := by
  obtain ⟨task, lap, hw, htask⟩ := h.running
  refine ⟨task, executing_eq_some.2 ⟨hw, ?_⟩, by rw [htask]; rfl⟩
  rw [h.job]
  simp

theorem Checking.of_sameJobs {s' : RaceControlState} {rest : List (Fin 20)} (h : s.Checking rest)
    (hsame : SameJobs s s') (hgenerator : s'.generator = s.generator) : s'.Checking rest where
  running := by
    rw [hsame.pool, hgenerator]
    exact h.running
  job := by rw [hsame.jobs, h.job]
  tasks := by rw [hsame.pool, h.tasks]

theorem Underway.not_waiting (h : Underway lapStart xs s n k) (hfree : s.Free) (w : Fin 2) :
    s.pool.pool.workers w ≠ .waiting := by
  obtain ⟨task, hw, -⟩ := h.updating
  rcases Fin.exists_fin_two.1 ⟨w, rfl⟩ with rfl | rfl
  · rw [(executing_eq_some.1 hw).1]
    simp
  · rw [hfree.worker]
    simp

/-- A check is submitted, and worker `1` takes it. -/
theorem Underway.submitCheck (h : Underway lapStart xs s n k) (hpc : s.pc = .poll .check)
    (hdue : n % 9 = 0) (hfree : s.Free) :
    ∃ s', (raceControlSystem (.init defaultTrack lapStart)).Leads s s'
      ∧ Underway lapStart xs s' n k ∧ s'.pc = .poll .update ∧ s'.enforcer = s.enforcer
      ∧ s'.Checking (List.finRange 20) := by
  have hdue' : s.due .check = true := by
    unfold due
    rw [h.tickCounter]
    simpa using hdue
  obtain ⟨p, t, subs, hl, hp⟩ :=
    leads_submit h.reachable hpc hdue' hfree.idle (h.not_waiting hfree)
  let task : PackagedTask Job := ⟨s.pool.history.accepted.length, s.generator.job .check⟩
  obtain ⟨p', hl', hp'⟩ := leads_take (.init defaultTrack lapStart) (w := 1) task
    (s := { s with
      pool := p
      pc := JobKind.check.after
      futures := Function.update s.futures .check t
      submissions := subs }) (by rw [hp]; exact hfree.worker) (by rw [hp, hfree.tasks]; rfl)
  simp only [hp] at hp'
  have hleads := hl.trans hl'
  refine ⟨_, hleads, h.of_leads hleads rfl rfl rfl rfl h.call rfl (executing_congr ?_ ?_), rfl, rfl,
    ⟨task, s.generator.raceLap, ?_, rfl⟩, Function.update_self 1 _ s.jobs, ?_⟩
  · simp only [hp']
    exact ThreadPool.setWorker_of_ne (by decide) _
  · exact setJob_one_zero _
  · simp only [hp']
    exact ThreadPool.setWorker_self _
  · simp only [hp']
    rfl

/-- The violation is one of the driver whose state it is. -/
theorem detectedFor_concat {i : Fin 20} {d : DriverState} (hd : d.profile = drivers.get i)
    (events : List RaceControlEvent) (lap now : ℤ) :
    (events ++ [d.trackLimitsEvent lap now]).countP
        (fun e => e.type = .trackLimits ∧ e.driverId.view = (drivers.get i).id)
      = events.countP (fun e => e.type = .trackLimits
          ∧ e.driverId.view = (drivers.get i).id) + 1 := by
  rw [List.countP_append, List.countP_singleton, if_pos]
  simp only [DriverState.trackLimitsEvent, hd, view_ofId, and_self, decide_true]

/-- With a draw of 0 the check detects a violation of VER, the first driver it looks at. -/
theorem Underway.detect (h : Underway lapStart xs s (n + 1) k) {rest : List (Fin 20)}
    (hchecking : s.Checking (0 :: rest)) (hn : n < 86) :
    ∃ s', (raceControlSystem (.init defaultTrack lapStart)).Leads s s'
      ∧ Underway lapStart xs s' (n + 1) (k + 1) ∧ s'.pc = s.pc ∧ s'.Checking rest
      ∧ s'.enforcer.handled = s.enforcer.handled := by
  obtain ⟨task, lap, hw, htask⟩ := hchecking.running
  have he : (s.generator.states 0).check lap 0 0
      = some ((s.generator.states 0).trackLimitsEvent lap 0) := by
    rw [DriverState.check_eq_some, h.generator]
    exact ⟨⟨TelemetryGenerator.race_not_inPit lapStart xs hn 0,
      (TelemetryGenerator.race_violationProb lapStart xs n 0).1⟩, rfl⟩
  have hst := step_check hw htask hchecking.job he
  have hprofile : (s.generator.states 0).profile = drivers.get (0 : Fin 20) := by
    rw [h.generator]
    exact (TelemetryGenerator.race_inRange lapStart xs (n + 1) 0).profile
  refine ⟨_, leads_of_step hst, ⟨h.reachable.leads (leads_of_step hst), h.main, h.inputs, h.board,
    h.tickCounter, h.call, ?_, ?_⟩, rfl, ⟨⟨task, lap, hw, htask⟩, Function.update_self 1 _ s.jobs,
    hchecking.tasks⟩, rfl⟩
  · unfold detectedFor
    rw [detectedFor_concat hprofile]
    exact congrArg (· + 1) h.detected
  · obtain ⟨update, hupdate, hkind⟩ := h.updating
    refine ⟨update, ?_, hkind⟩
    rw [← hupdate]
    exact executing_congr rfl (setJob_one_zero _)

/-- The rest of the check detects nothing. -/
theorem Underway.finish (h : Underway lapStart xs s (n + 1) k) (hpc : s.pc = .poll .update)
    {rest : List (Fin 20)} (hchecking : s.Checking rest) :
    ∃ s', (raceControlSystem (.init defaultTrack lapStart)).Leads s s'
      ∧ Underway lapStart xs s' (n + 1) k ∧ s'.pc = .poll .update ∧ s'.Free := by
  obtain ⟨task, lap, hw, htask⟩ := hchecking.running
  have hsafe : ∀ i, (s.generator.states i).violationProb ≤ 1 / 2 := by
    intro i
    rw [h.generator]
    exact (TelemetryGenerator.race_violationProb lapStart xs n i).2
  obtain ⟨p, hl, hp⟩ := leads_checked (.init defaultTrack lapStart) hw htask hsafe
    hchecking.job
  -- the future is the one of this task, and it is ready now
  have hfuture : s.futures .check = some task.ticket := by
    have hexecuting : s.executing 1 = some task := by
      refine executing_eq_some.2 ⟨hw, ?_⟩
      rw [hchecking.job]
      simp
    have hcurrent := ((flight_reachable h.reachable).latest task
      (mem_inFlight.2 (.inr ⟨1, hexecuting⟩))).1
    have hkind : task.callable.kind = .check := by
      rw [htask]
      rfl
    rwa [hkind, current_of_ne (by simp [hpc])] at hcurrent
  refine ⟨_, hl, h.of_leads hl rfl rfl rfl rfl h.call rfl (executing_congr ?_ ?_), hpc, ?_, ?_, ?_⟩
  · simp only [hp]
    exact ThreadPool.setWorker_of_ne Fin.zero_ne_one _
  · exact setJob_one_zero _
  · unfold idle
    simp [hfuture]
  · simp only [hp]
    exact ThreadPool.setWorker_self _
  · simp only [hp]
    exact hchecking.tasks

variable (lapStart xs) in
/-- Between two ticks. -/
structure Between (s : RaceControlState) (n k : ℕ) : Prop extends Underway lapStart xs s n k where
  pc : s.pc = .testStop
  queue : ∀ e ∈ s.enforcer.queue, e.type ≠ .trackLimits

/-- A tick without a submission. -/
theorem Between.quiet (h : Between lapStart xs s n k) (hn : n ≤ 1093)
    (hpass : (n + 1) % 9 ≠ 0 ∨ s.idle .check = false) :
    ∃ s₁ s', s.step (.tick (xs n)) = some s₁
      ∧ (raceControlSystem (.init defaultTrack lapStart)).Leads s₁ s'
      ∧ Between lapStart xs s' (n + 1) k ∧ SameJobs s s' := by
  obtain ⟨s₁, hst, h₁, hpc₁, hsame₁⟩ := h.toUnderway.tick h.pc hn
  have hidle : (s₁.due .check && s₁.idle .check) = false := by
    unfold due
    rw [h₁.tickCounter, hsame₁.idle]
    rcases hpass with hdue | hidle
    · simp [hdue]
    · simp [hidle]
  have hskip := step_skip hpc₁ hidle 0
  have hl₁ : (raceControlSystem (.init defaultTrack lapStart)).Leads s₁
      { s₁ with pc := .poll .update } := leads_of_step hskip
  have h₂ := h₁.of_leads hl₁ rfl rfl rfl rfl h₁.call rfl (executing_congr rfl rfl)
  obtain ⟨s', hl, h', hpc', hsame, hqueue⟩ := h₂.close rfl
  exact ⟨s₁, s', hst, hl₁.trans hl, ⟨h', hpc', hqueue⟩,
    hsame₁.trans ⟨hsame.pool, hsame.jobs, hsame.futures, hsame.ready⟩⟩

/-- Some ticks in which no check is due, or in which the one before is not through. -/
theorem Between.quiets (h : Between lapStart xs s n k) {m : ℕ} (hm : n + m ≤ 1093)
    (hpass : n % 9 + m < 9 ∨ s.idle .check = false) :
    ∃ s', (raceControlSystem (.init defaultTrack lapStart)).Leads s s'
      ∧ Between lapStart xs s' (n + m) k ∧ SameJobs s s' := by
  induction m with
  | zero => exact ⟨s, .refl, h, ⟨rfl, rfl, rfl, rfl⟩⟩
  | succ m ih =>
    obtain ⟨s', hl, h', hsame⟩ := ih (by omega) (hpass.imp_left fun hlt => by omega)
    have hpass' : (n + m + 1) % 9 ≠ 0 ∨ s'.idle .check = false := by
      rw [hsame.idle]
      exact hpass.imp_left fun hlt => by omega
    obtain ⟨s₁, s'', hst, hl', h'', hsame'⟩ := h'.quiet (by omega) hpass'
    exact ⟨s'', hl.trans ((leads_of_step hst).trans hl'), h'', hsame.trans hsame'⟩

/-- The tick of a check, to the point where worker `1` has it in hand. -/
theorem Between.opens (h : Between lapStart xs s n k) (hfree : s.Free) (hn : n ≤ 1093)
    (hdue : (n + 1) % 9 = 0) :
    ∃ s', Underway lapStart xs s' (n + 1) k ∧ s'.pc = .poll .update
      ∧ s'.Checking (List.finRange 20) := by
  obtain ⟨s₁, hst, h₁, hpc₁, hsame₁⟩ := h.toUnderway.tick h.pc hn
  obtain ⟨s₂, -, h₂, hpc₂, -, hchecking⟩ :=
    h₁.submitCheck hpc₁ hdue (hfree.of_sameJobs hsame₁)
  exact ⟨s₂, h₂, hpc₂, hchecking⟩

/-- A tick whose check detects a violation of VER and is through before the callback is. -/
theorem Between.check (h : Between lapStart xs s n k) (hfree : s.Free) (hn : n < 86)
    (hdue : (n + 1) % 9 = 0) :
    ∃ s', Between lapStart xs s' (n + 1) (k + 1) ∧ s'.Free := by
  obtain ⟨s₁, h₁, hpc₁, hchecking₁⟩ := h.opens hfree (by omega) hdue
  obtain ⟨s₂, -, h₂, hpc₂, hchecking₂, -⟩ := h₁.detect hchecking₁ hn
  obtain ⟨s₃, -, h₃, hpc₃, hfree₃⟩ := h₂.finish (hpc₂.trans hpc₁) hchecking₂
  obtain ⟨s', -, h', hpc', hsame, hqueue⟩ := h₃.close hpc₃
  exact ⟨s', ⟨h', hpc', hqueue⟩, hfree₃.of_sameJobs hsame⟩

variable (lapStart xs)

/-- The callback of the first tick, where it polls the update. -/
structure FirstPoll (s : RaceControlState) : Prop where
  reachable : (raceControlSystem (.init defaultTrack lapStart)).Reachable s
  pc : s.pc = .poll .update
  main : s.main = .racing
  inputs : s.inputs = TelemetryGenerator.firstTicks xs 1
  board : s.board = (TelemetryGenerator.race lapStart xs 1).standings
  tickCounter : s.tickCounter = 1
  call : s.enforcer.pc = .idle
  detected : s.detected = []
  workers : ∀ w, s.pool.pool.workers w = .lock
  tasks : s.pool.pool.tasks = []
  futures : ∀ kind, s.futures kind = none

theorem exists_firstPoll : ∃ s, FirstPoll lapStart xs s := by
  have hstart : (raceControlSystem (.init defaultTrack lapStart)).Reachable
      (init (.init defaultTrack lapStart)) := .init
  have hgenerator : (init (.init defaultTrack lapStart)).generator
      = TelemetryGenerator.race lapStart xs 0 := (TelemetryGenerator.ticks_nil _).symm
  obtain ⟨s, hst, ht⟩ := exists_tick (s := init (.init defaultTrack lapStart)) rfl rfl (xs 0)
  have hskip : s.step (.callback 0) = some { s with pc := .poll .update } := by
    refine step_skip ht.pc ?_ 0
    unfold due
    rw [ht.tickCounter]
    rfl
  have hleads : (raceControlSystem (.init defaultTrack lapStart)).Leads
      (init (.init defaultTrack lapStart)) { s with pc := .poll .update } :=
    Relation.ReflTransGen.trans (leads_of_step hst) (leads_of_step hskip)
  refine ⟨_, hstart.leads hleads, rfl, ht.main, ht.inputs, ?_, ht.tickCounter, ?_,
    ht.detected, fun w => ?_, ?_, fun kind => ?_⟩
  · rw [TelemetryGenerator.race_succ, ← hgenerator]
    exact ht.board
  · show s.enforcer.pc = .idle
    rw [ht.enforcer]
    rfl
  · show s.pool.pool.workers w = .lock
    rw [ht.sameJobs.pool]
    rfl
  · show s.pool.pool.tasks = []
    rw [ht.sameJobs.pool]
    rfl
  · show s.futures kind = none
    rw [ht.sameJobs.futures]
    rfl

/-- The first tick, whose update job worker `0` takes. -/
theorem exists_between_one : ∃ s, Between lapStart xs s 1 0 ∧ s.Free := by
  obtain ⟨s, h⟩ := exists_firstPoll lapStart xs
  have hnone : ∀ kind, s.idle kind = true := by
    intro kind
    unfold idle
    rw [h.futures]
  let task : PackagedTask Job := ⟨s.pool.history.accepted.length, s.generator.job .update⟩
  obtain ⟨p, t, subs, hl, hp⟩ :=
    leads_submit h.reachable h.pc rfl (hnone .update) (by simp [h.workers])
  obtain ⟨p', hl', hp'⟩ := leads_take (.init defaultTrack lapStart) (w := 0) task
    (s := { s with
      pool := p
      pc := .callProcess
      futures := Function.update s.futures .update t
      submissions := subs }) (by simp only [hp, h.workers]) (by simp only [hp, h.tasks]; rfl)
  simp only [hp, h.tasks] at hp'
  obtain ⟨e, hl'', he, hqueue⟩ := leads_processed (.init defaultTrack lapStart) (s := { s with
      pool := p'
      pc := .callProcess
      futures := Function.update s.futures .update t
      jobs := Function.update s.jobs 0 .draw
      submissions := subs }) rfl h.call
  have hdraw : Function.update s.jobs 0 .draw 0 = .draw := Function.update_self 0 .draw s.jobs
  have hleads := (hl.trans hl').trans hl''
  refine ⟨_, ⟨⟨h.reachable.leads hleads, h.main, h.inputs, fun _ => h.board, h.tickCounter, he, ?_,
    task, executing_eq_some.2 ⟨?_, ?_⟩, rfl⟩, rfl, hqueue⟩, ?_, ?_, ?_⟩
  · unfold detectedFor
    simp only [h.detected]
    rfl
  · simp only [hp']
    exact ThreadPool.setWorker_self _
  · simp only [hdraw]
    simp
  · have hcheck := hnone .check
    unfold idle at hcheck ⊢
    simp only [Function.update_of_ne (show JobKind.check ≠ .update by decide)]
    exact hcheck
  · simp only [hp']
    exact (ThreadPool.setWorker_of_ne (by decide) _).trans (h.workers 1)
  · simp only [hp']
    rfl

/-- Two violations counted, and eight ticks more. -/
theorem exists_between_twentySix : ∃ s, Between lapStart xs s 26 2 ∧ s.Free := by
  obtain ⟨s₁, h₁, hfree₁⟩ := exists_between_one lapStart xs
  obtain ⟨s₈, -, h₈, hsame₈⟩ := h₁.quiets (m := 7) (by omega) (.inl (by omega))
  obtain ⟨s₉, h₉, hfree₉⟩ := h₈.check (hfree₁.of_sameJobs hsame₈) (by omega) (by omega)
  obtain ⟨s₁₇, -, h₁₇, hsame₁₇⟩ := h₉.quiets (m := 8) (by omega) (.inl (by omega))
  obtain ⟨s₁₈, h₁₈, hfree₁₈⟩ := h₁₇.check (hfree₉.of_sameJobs hsame₁₇) (by omega) (by omega)
  obtain ⟨s₂₆, -, h₂₆, hsame₂₆⟩ := h₁₈.quiets (m := 8) (by omega) (.inl (by omega))
  exact ⟨s₂₆, h₂₆, hfree₁₈.of_sameJobs hsame₂₆⟩

/-- In tick 27 the third check is submitted, and the callback is through before it detects
anything. -/
theorem exists_between_checking :
    ∃ s, Between lapStart xs s 27 2 ∧ s.Checking (List.finRange 20) := by
  obtain ⟨s₂₆, h₂₆, hfree⟩ := exists_between_twentySix lapStart xs
  obtain ⟨s₁, h₁, hpc₁, hchecking₁⟩ := h₂₆.opens hfree (by omega) (by omega)
  obtain ⟨s', -, h', hpc', hsame, hqueue⟩ := h₁.close hpc₁
  exact ⟨s', ⟨h', hpc', hqueue⟩,
    hchecking₁.of_sameJobs hsame (h'.generator.trans h₁.generator.symm)⟩

variable {lapStart xs}

/-- What waits is not for VER, so the violations detected are those counted. -/
theorem Between.handledFor (h : Between lapStart xs s n k) : s.enforcer.handledFor 0 = k := by
  have hcount := (tallied_reachable h.reachable).detectedFor_eq 0
  rw [h.detected, EnforcerState.waitingFor_eq_zero h.call h.queue, Nat.add_zero] at hcount
  exact hcount.symm

variable (lapStart xs) in
/-- In tick 27 the third violation of VER is counted, with the third check still in the hand of
worker `1`. -/
theorem exists_between_held : ∃ s, Between lapStart xs s 27 3 ∧ s.idle .check = false := by
  obtain ⟨s₂₆, h₂₆, hfree⟩ := exists_between_twentySix lapStart xs
  obtain ⟨s₁, h₁, hpc₁, hchecking₁⟩ := h₂₆.opens hfree (by omega) (by omega)
  obtain ⟨s₂, -, h₂, hpc₂, hchecking₂, -⟩ := h₁.detect hchecking₁ (by omega)
  obtain ⟨s', -, h', hpc', hsame, hqueue⟩ := h₂.close (hpc₂.trans hpc₁)
  obtain ⟨task, hheld, hkind⟩ := hchecking₂.executing
  have hidle := idle_of_executing h'.reachable ((hsame.executing 1).trans hheld) (by simp [hpc'])
  rw [hkind] at hidle
  exact ⟨s', ⟨h', hpc', hqueue⟩, hidle⟩

end Rounds

end RaceControlState

end RaceConditionZ
