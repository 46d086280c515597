import RaceConditionZ.Proofs.PenaltyOnce
import RaceConditionZ.Proofs.PoolDrain
import RaceConditionZ.RaceControl

/-!
# The steps of the race-control side

Each step by the parts of the state it touches. The pool and the enforcer take their own steps only,
so what holds of either in every interleaving holds of it here.
-/

namespace RaceConditionZ

open Transition

theorem JobKind.after_ne_submit (kind k : JobKind) : kind.after ≠ .submit k := by
  rcases kind with _ | _ <;> simp [JobKind.after]

theorem JobKind.after_ne_returned (kind : JobKind) : kind.after ≠ .returned := by
  rcases kind with _ | _ <;> simp [JobKind.after]

/-- The steps, one for each control point and outcome. -/
inductive RaceControlMove (s : RaceControlState) : RaceControlLabel → RaceControlState → Prop
  | leave {x : TickInput} (hpc : s.pc = .testStop) (hleaves : s.leaves = true) :
      RaceControlMove s (.tick x) { s with pc := .returned }
  | tick {x : TickInput} (hpc : s.pc = .testStop) (hleaves : s.leaves = false) :
      RaceControlMove s (.tick x) { s with
        generator := s.generator.tick x
        board := (s.generator.tick x).standings
        tickCounter := s.tickCounter + 1
        pc := .poll .check
        inputs := s.inputs ++ [x] }
  | skip {w : Fin 2} {kind : JobKind} (hpc : s.pc = .poll kind) :
      RaceControlMove s (.callback w) { s with pc := kind.after }
  | callSubmit {w : Fin 2} {kind : JobKind} {pool : PoolState 2 Unit Job}
      (hpc : s.pc = .poll kind) (hidle : s.idle kind = true)
      (hst : s.pool.step (.callSubmit () (s.generator.job kind)) = some pool) :
      RaceControlMove s (.callback w) { s with
        pool := pool
        pc := .submit kind
        submissions := s.submissions ++ [(kind, s.inputs.length)] }
  | submit {w : Fin 2} {kind : JobKind} {pool : PoolState 2 Unit Job} (hpc : s.pc = .submit kind)
      (hst : s.pool.step (.submit () w) = some pool) :
      RaceControlMove s (.callback w) { s with pool := pool }
  | assign {w : Fin 2} {kind : JobKind} (hpc : s.pc = .submit kind)
      (hret : s.pool.submitters () = some .returned) :
      RaceControlMove s (.callback w) { s with
        pc := kind.after
        futures := Function.update s.futures kind (some (s.pool.history.accepted.length - 1)) }
  | callProcess {w : Fin 2} {enforcer : EnforcerState} (hpc : s.pc = .callProcess)
      (hst : s.enforcer.step .callProcess = some enforcer) :
      RaceControlMove s (.callback w) { s with pc := .process, enforcer := enforcer }
  | enforce {l : RaceControlLabel} {k : EnforcerLabel} {enforcer : EnforcerState}
      (hpc : s.pc = .process) (hk : (∃ found, k = .drain found) ∨ ∃ now, k = .process now)
      (hst : s.enforcer.step k = some enforcer) :
      RaceControlMove s l { s with enforcer := enforcer }
  | back {now : ℤ} (hpc : s.pc = .process) (hidle : s.enforcer.pc = .idle) :
      RaceControlMove s (.process now) { s with pc := .testStop }
  | detect {w : Fin 2} {coin : ℚ} {now : ℤ} {task : PackagedTask Job}
      {states : Fin 20 → DriverState} {lap : ℤ} {i : Fin 20} {rest : List (Fin 20)}
      {e : RaceControlEvent} (hw : s.pool.pool.workers w = .running task)
      (htask : task.callable = .check states lap) (hjob : s.jobs w = .check (i :: rest))
      (he : (states i).check lap coin now = some e) :
      RaceControlMove s (.worker w coin now) { s with
        jobs := Function.update s.jobs w (.check rest)
        enforcer := { s.enforcer with queue := s.enforcer.queue ++ [e] }
        detected := s.detected ++ [e] }
  | job {w : Fin 2} {coin : ℚ} {now : ℤ} {task : PackagedTask Job} {pc : JobPc}
      {weather : WeatherSystem} {event : Option RaceControlEvent}
      (hw : s.pool.pool.workers w = .running task) (hjob : s.jobs w ≠ .ready) (hpc : pc ≠ .ready)
      (hevent : ∀ e ∈ event, e.type = .weatherChange) :
      RaceControlMove s (.worker w coin now) { s with
        jobs := Function.update s.jobs w pc
        weather := weather
        enforcer := { s.enforcer with queue := s.enforcer.queue ++ event.toList } }
  | makeReady {w : Fin 2} {coin : ℚ} {now : ℤ} {task : PackagedTask Job}
      (hw : s.pool.pool.workers w = .running task) (hjob : s.jobs w = .returned) :
      RaceControlMove s (.worker w coin now) { s with
        ready := task.ticket :: s.ready
        jobs := Function.update s.jobs w .ready }
  | finish {w : Fin 2} {coin : ℚ} {now : ℤ} {task : PackagedTask Job}
      {pool : PoolState 2 Unit Job} (hw : s.pool.pool.workers w = .running task)
      (hjob : s.jobs w = .ready) (hst : s.pool.step (.worker w) = some pool) :
      RaceControlMove s (.worker w coin now) { s with pool := pool }
  | lock {w : Fin 2} {coin : ℚ} {now : ℤ} {pool : PoolState 2 Unit Job} {jobs : Fin 2 → JobPc}
      (hw : ∀ task, s.pool.pool.workers w ≠ .running task)
      (hst : s.pool.step (.worker w) = some pool)
      (hjobs : (∃ task, pool.pool.workers w = .running task
          ∧ jobs = Function.update s.jobs w task.callable.start)
        ∨ (∀ task, pool.pool.workers w ≠ .running task) ∧ jobs = s.jobs) :
      RaceControlMove s (.worker w coin now) { s with pool := pool, jobs := jobs }
  | spurious {w : Fin 2} {pool : PoolState 2 Unit Job}
      (hst : s.pool.step (.spurious w) = some pool) :
      RaceControlMove s (.spurious w) { s with pool := pool }
  | stop (hmain : s.main = .racing) : RaceControlMove s .main { s with main := .joining }
  | join (hmain : s.main = .joining) (hpc : s.pc = .returned) :
      RaceControlMove s .main { s with main := .print s.board }
  | print {d : DriverState} {rest : List DriverState} (hmain : s.main = .print (d :: rest)) :
      RaceControlMove s .main { s with main := .print rest }
  | printed (hmain : s.main = .print []) : RaceControlMove s .main { s with main := .destroy }
  | destroy {pool : PoolState 2 Unit Job} (hmain : s.main = .destroy)
      (hst : s.pool.step .destroy = some pool) : RaceControlMove s .main { s with pool := pool }

namespace RaceControlState

variable {s s' : RaceControlState}

theorem move_of_tick {x : TickInput} (hst : s.tick x = some s') :
    RaceControlMove s (.tick x) s' := by
  unfold tick at hst
  split at hst
  · rename_i hpc
    split at hst
    · rename_i hleaves
      have hs := Option.some.inj hst
      rw [← hs]
      exact .leave hpc hleaves
    · rename_i hleaves
      have hs := Option.some.inj hst
      rw [← hs]
      exact .tick hpc (by simpa using hleaves)
  · cases hst

theorem move_of_callback {w : Fin 2} (hst : s.callback w = some s') :
    RaceControlMove s (.callback w) s' := by
  unfold callback at hst
  split at hst
  · rename_i kind hpc
    unfold poll at hst
    split at hst
    · rename_i hdue
      rw [Bool.and_eq_true] at hdue
      rw [Option.map_eq_some_iff] at hst
      obtain ⟨pool, hpool, rfl⟩ := hst
      exact .callSubmit hpc hdue.2 hpool
    · cases hst
      exact .skip hpc
  · rename_i kind hpc
    unfold submit at hst
    split at hst
    · rename_i hret
      cases hst
      exact .assign hpc hret
    · rw [Option.map_eq_some_iff] at hst
      obtain ⟨pool, hpool, rfl⟩ := hst
      exact .submit hpc hpool
  · rename_i hpc
    rw [Option.map_eq_some_iff] at hst
    obtain ⟨enforcer, henforcer, rfl⟩ := hst
    exact .callProcess hpc henforcer
  · cases hst

theorem move_of_drain {found : Bool} (hst : s.drain found = some s') :
    RaceControlMove s (.drain found) s' := by
  unfold drain at hst
  split at hst
  · rename_i hpc
    rw [Option.map_eq_some_iff] at hst
    obtain ⟨enforcer, henforcer, rfl⟩ := hst
    exact .enforce hpc (.inl ⟨found, rfl⟩) henforcer
  · cases hst

theorem move_of_process {now : ℤ} (hst : s.process now = some s') :
    RaceControlMove s (.process now) s' := by
  unfold process at hst
  split at hst
  · rename_i hpc hidle
    cases hst
    exact .back hpc hidle
  · rename_i hpc _
    rw [Option.map_eq_some_iff] at hst
    obtain ⟨enforcer, henforcer, rfl⟩ := hst
    exact .enforce hpc (.inr ⟨now, rfl⟩) henforcer
  · cases hst

theorem append_nil_queue (e : EnforcerState) : { e with queue := e.queue ++ [] } = e := by
  rw [List.append_nil]

/-- A step of a job that pushes no violation. -/
theorem move_of_quiet {w : Fin 2} {coin : ℚ} {now : ℤ} {task : PackagedTask Job} {pc : JobPc}
    (hw : s.pool.pool.workers w = .running task) (hjob : s.jobs w ≠ .ready) (hpc : pc ≠ .ready)
    (weather : WeatherSystem) :
    RaceControlMove s (.worker w coin now) ({ s with weather := weather }.setJob w pc) := by
  have hmove : RaceControlMove s (.worker w coin now) { s with
      jobs := Function.update s.jobs w pc
      weather := weather
      enforcer := { s.enforcer with queue := s.enforcer.queue ++ Option.none.toList } } :=
    .job hw hjob hpc (by simp)
  rw [Option.toList_none, append_nil_queue] at hmove
  exact hmove

theorem move_of_runJob {w : Fin 2} {coin : ℚ} {now : ℤ} {task : PackagedTask Job}
    (hw : s.pool.pool.workers w = .running task)
    (hst : s.runJob w task.callable coin now = some s') :
    RaceControlMove s (.worker w coin now) s' := by
  unfold runJob at hst
  split at hst
  · rename_i states lap i rest htask hjob
    split at hst
    · rename_i e he
      cases hst
      exact .detect hw htask hjob he
    · cases hst
      exact move_of_quiet hw (by simp [hjob]) (by simp) s.weather
  · rename_i htask hjob
    cases hst
    exact move_of_quiet hw (by simp [hjob]) (by simp) s.weather
  · rename_i lap htask hjob
    cases hst
    refine move_of_quiet hw (by simp [hjob]) ?_ _
    split <;> simp
  · rename_i htask hjob
    cases hst
    exact move_of_quiet hw (by simp [hjob]) (by simp) s.weather
  · rename_i newState htask hjob
    cases hst
    exact move_of_quiet hw (by simp [hjob]) (by simp) _
  · rename_i lap newState htask hjob
    cases hst
    have hevent : ∀ e ∈ some (WeatherSystem.changeEvent newState lap now),
        e.type = .weatherChange := by
      intro e he
      rw [← Option.some.inj he]
      rfl
    exact .job hw (by simp [hjob]) (by simp) hevent
  · cases hst

theorem move_of_worker {w : Fin 2} {coin : ℚ} {now : ℤ} (hst : s.worker w coin now = some s') :
    RaceControlMove s (.worker w coin now) s' := by
  unfold worker at hst
  by_cases hrunning : ∃ task, s.pool.pool.workers w = .running task
  · obtain ⟨task, hw⟩ := hrunning
    rw [hw] at hst
    rcases hjob : s.jobs w with rest | _ | _ | newState | newState | _ | _ <;>
      simp only [hjob] at hst
    · exact move_of_runJob hw hst
    · exact move_of_runJob hw hst
    · exact move_of_runJob hw hst
    · exact move_of_runJob hw hst
    · exact move_of_runJob hw hst
    · cases hst
      exact .makeReady hw hjob
    · rw [Option.map_eq_some_iff] at hst
      obtain ⟨pool, hpool, rfl⟩ := hst
      exact .finish hw hjob hpool
  · rw [not_exists] at hrunning
    split at hst
    · exact absurd ‹_› (hrunning _)
    · exact absurd ‹_› (hrunning _)
    · exact absurd ‹_› (hrunning _)
    · rw [Option.map_eq_some_iff] at hst
      obtain ⟨pool, hpool, rfl⟩ := hst
      split
      · rename_i task htask
        exact .lock hrunning hpool (.inl ⟨task, htask, rfl⟩)
      · rename_i hnone
        exact .lock hrunning hpool (.inr ⟨hnone, rfl⟩)

theorem move_of_step {l : RaceControlLabel} (hst : s.step l = some s') :
    RaceControlMove s l s' := by
  rcases l with x | w | found | now | ⟨w, coin, now⟩ | w | _
  · exact move_of_tick hst
  · exact move_of_callback hst
  · exact move_of_drain hst
  · exact move_of_process hst
  · exact move_of_worker hst
  · simp only [step, Option.map_eq_some_iff] at hst
    obtain ⟨pool, hpool, rfl⟩ := hst
    exact .spurious hpool
  · simp only [step, mainStep] at hst
    split at hst
    · rename_i hmain
      cases hst
      exact .stop hmain
    · rename_i hmain
      split at hst
      · rename_i hpc
        cases hst
        exact .join hmain hpc
      · cases hst
    · rename_i hmain
      cases hst
      exact .print hmain
    · rename_i hmain
      cases hst
      exact .printed hmain
    · rename_i hmain
      rw [Option.map_eq_some_iff] at hst
      obtain ⟨pool, hpool, rfl⟩ := hst
      exact .destroy hmain hpool

end RaceControlState

section Projections

variable {start : TelemetryGenerator} {s : RaceControlState}

theorem pool_reachable (h : (raceControlSystem start).Reachable s) :
    (poolSystem 2 Unit Job).Reachable s.pool := by
  refine System.Reachable.map (f := fun s : RaceControlState => s.pool) rfl ?_ h
  intro s l s' _ hst
  have hstep : ∀ {k : PoolLabel 2 Unit Job} {pool : PoolState 2 Unit Job},
      s.pool.step k = some pool → ∃ k, (poolSystem 2 Unit Job).step s.pool k = some pool :=
    fun {k} _ hpool => ⟨k, hpool⟩
  cases RaceControlState.move_of_step hst with
  | callSubmit _ _ hpool => exact .inr (hstep hpool)
  | submit _ hpool => exact .inr (hstep hpool)
  | finish _ _ hpool => exact .inr (hstep hpool)
  | lock _ hpool _ => exact .inr (hstep hpool)
  | spurious hpool => exact .inr (hstep hpool)
  | destroy _ hpool => exact .inr (hstep hpool)
  | _ => exact .inl rfl

theorem enforcer_reachable (h : (raceControlSystem start).Reachable s) :
    enforcerSystem.Reachable s.enforcer := by
  refine System.Reachable.map (f := fun s : RaceControlState => s.enforcer) rfl ?_ h
  intro s l s' _ hst
  have hstep : ∀ {k : EnforcerLabel} {enforcer : EnforcerState},
      s.enforcer.step k = some enforcer → ∃ k, enforcerSystem.step s.enforcer k = some enforcer :=
    fun {k} _ henforcer => ⟨k, henforcer⟩
  cases RaceControlState.move_of_step hst with
  | callProcess _ henforcer => exact .inr (hstep henforcer)
  | enforce _ _ henforcer => exact .inr (hstep henforcer)
  | @detect _ _ _ _ _ _ _ _ e => exact .inr ⟨.pushEvent e, rfl⟩
  | @job _ _ _ _ _ _ event =>
    rcases event with _ | e
    · refine .inl ?_
      simp only [Option.toList_none]
      exact RaceControlState.append_nil_queue s.enforcer
    · exact .inr ⟨.pushEvent e, rfl⟩
  | _ => exact .inl rfl

end Projections

end RaceConditionZ
