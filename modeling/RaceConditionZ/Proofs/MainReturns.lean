import RaceConditionZ.Proofs.Unblocked
import RaceConditionZ.Proofs.WorkLeft

/-!
# The program ends

With the stop of the generator requested, its thread is in its last round, and no thread waits for
one that cannot go on. The work left of all of them is bounded, so `main` returns, with all threads
joined.
-/

namespace RaceConditionZ

open Transition

/-- The steps left of the generator's thread in its last round, with those of the push under
way. -/
def RunPc.left (enforcer : EnforcerState) (push : ℕ) : RunPc → ℕ
  | .push rest => 9 * rest.length + 5 * enforcer.queue.length + push + 267
  | .drive rest => 9 * rest.length + 5 * enforcer.queue.length + 266
  | .setLap => 5 * enforcer.queue.length + 265
  | pc => pc.callback.left enforcer

/-- The steps left of the main thread, but for the destructor of the pool. -/
def ConsolePc.left : ConsolePc → ℕ
  | .joinGenerator => 28
  | .stopConsumer => 27
  | .joinConsumer => 26
  | .finalLap => 25
  | .finalSnapshot => 24
  | .classify rest => rest.length + 3
  | .fastestHolder => 2
  | .fastestTime _ => 1
  | _ => 0

/-- A spurious failure or a spurious wake-up. -/
def ProgramLabel.fails : ProgramLabel → Bool
  | .consume failed => failed
  | .spurious _ => true
  | _ => false

theorem RunPc.left_ofCallback (pc : CallbackPc) (enforcer : EnforcerState) (push : ℕ) :
    (ofCallback pc).left enforcer push = pc.left enforcer := by
  cases pc <;> rfl

theorem RunPc.left_of_inCallback {pc : RunPc} (h : pc.inCallback = true) (enforcer : EnforcerState)
    (push : ℕ) : pc.left enforcer push = pc.callback.left enforcer := by
  cases pc <;> first | rfl | cases h

theorem CallbackPc.left_append (pc : CallbackPc) (enforcer : EnforcerState)
    (events : List RaceControlEvent) :
    pc.left { enforcer with queue := enforcer.queue ++ events }
      ≤ pc.left enforcer + 5 * events.length := by
  rcases pc with _ | (_ | _) | (_ | _) | _ | _ | _ <;>
    simp only [left, List.length_append] <;> try omega
  cases enforcer.pc <;> simp only [ProcessPc.left] <;> omega

/-- An event pushed is worth five steps. -/
theorem RunPc.left_append (pc : RunPc) (enforcer : EnforcerState) (push : ℕ)
    (events : List RaceControlEvent) :
    pc.left { enforcer with queue := enforcer.queue ++ events } push
      ≤ pc.left enforcer push + 5 * events.length := by
  have hcallback := CallbackPc.left_append pc.callback enforcer events
  cases pc with
  | drive | push | setLap =>
    simp only [left, List.length_append]
    omega
  | _ => exact hcallback

/-- The steps left of the consumer; before the stop, as if it will find the queue full. -/
def PipelineState.leftAtStop (s : PipelineState ℚ) : ℕ :=
  if s.stop = .notCalled then 28700 else s.left

namespace ProgramState

variable {θ : Type}

/-- The steps left of the push in progress. -/
def pushLeft (s : ProgramState θ) : ℕ := s.pipeline.spsc.producer.elim 0 fun p => p.pc.left

/-- The steps left of all threads. -/
def left (s : ProgramState θ) : ℕ :=
  s.pc.left s.enforcer s.pushLeft + poolLeft s.pool s.jobs + s.main.left
    + s.pipeline.leftAtStop

/-- All but the polls of the consumer before its stop, and spurious wake-ups. -/
def works (s : ProgramState θ) : ProgramLabel → Bool
  | .consume _ => s.pipeline.stop ≠ .notCalled
  | .spurious _ => false
  | _ => true

variable [DecidableEq θ] {tid : θ} {start : TelemetryGenerator} {track : TrackProfile}
  {lapStart : Fin 20 → ℤ} {s s' : ProgramState θ}

omit [DecidableEq θ] in
theorem ConsoleMove.stopping (hmove : s.ConsoleMove s') (hstop : s.main.stop ≠ .notCalled) :
    s'.main.stop ≠ .notCalled := by
  cases hmove with
  | leave hmain | stay hmain | empty hmain _ | snapshot hmain _ | getLap hmain | getWeather hmain
  | getGrip hmain | row hmain | shown hmain | stopGenerator hmain =>
    rw [hmain] at hstop
    exact absurd rfl hstop
  | destroy => exact hstop
  | _ => simp [ConsolePc.stop]

theorem stopping_step {l : ProgramLabel} (hst : s.step tid l = some s')
    (hstop : s.main.stop ≠ .notCalled) : s'.main.stop ≠ .notCalled := by
  cases move_of_step hst with
  | console hmove => exact hmove.stopping hstop
  | _ => exact hstop

/-- A step of a push, or its return. -/
theorem push_left {x : DriverInput} {rest : List (Fin 20)} {t : TelemetryState θ}
    (hpc : s.pc = .push rest) (hst : s.telemetry.generate tid x = some t) :
    (s.withTelemetry t).pc.left s.enforcer (s.withTelemetry t).pushLeft + 1
      ≤ s.pc.left s.enforcer s.pushLeft := by
  simp only [TelemetryState.generate, telemetry, hpc, RunPc.generator, Option.bind_eq_some_iff]
    at hst
  obtain ⟨p, hp, hst⟩ := hst
  have hleft : s.pushLeft = p.pc.left := by
    unfold pushLeft
    rw [hp, Option.elim_some]
  split at hst
  · rename_i hret
    obtain rfl := Option.some.inj hst
    rw [hleft, hpc, hret]
    simp only [withTelemetry, RunPc.ofGenerator, RunPc.left, PushPc.left]
    omega
  · rename_i hret
    obtain ⟨q', p', hpush, hlt⟩ := s.pipeline.spsc.queue.push_left telemetryRing hret
    simp only [PipelineState.step, SpscState.step, hp, Option.bind_some, hpush, Option.map_some,
      Option.some.injEq] at hst
    rw [hleft, hpc, ← hst]
    simp only [withTelemetry, RunPc.ofGenerator, RunPc.left, pushLeft, Option.elim_some]
    omega

/-- The turn of a driver, up to the call of `push`. -/
theorem drive_left {x : DriverInput} {i : Fin 20} {rest : List (Fin 20)} {t : TelemetryState θ}
    (hpc : s.pc = .drive (i :: rest)) (hst : s.telemetry.generate tid x = some t) :
    (s.withTelemetry t).pc.left s.enforcer (s.withTelemetry t).pushLeft + 1
      ≤ s.pc.left s.enforcer s.pushLeft := by
  simp only [TelemetryState.generate, telemetry, hpc, RunPc.generator, TelemetryState.drive,
    PipelineState.step, Option.map_eq_some_iff, Option.ite_none_right_eq_some] at hst
  obtain ⟨pipeline, ⟨-, spsc, hspsc, rfl⟩, rfl⟩ := hst
  obtain ⟨-, rfl⟩ := SpscState.of_step_callPush hspsc
  rw [hpc]
  simp only [withTelemetry, RunPc.ofGenerator, RunPc.left, pushLeft, Option.elim_some,
    List.length_cons, if_neg Bool.false_ne_true, Push.ofCopy, PushPc.left]
  omega

/-- The consumer's steps, and those of `stop`, on the pipeline whatever the lap is. -/
theorem pipeline_left {l : PipelineLabel ℚ} {pipeline : PipelineState ℚ}
    (h : (programSystem tid (.init track lapStart)).Reachable s)
    (hstop : s.pipeline.stop ≠ .notCalled) (hst : s.pipeline.step l = some pipeline) :
    pipeline.left + (if l.serves then 1 else 0) ≤ s.pipeline.left + if l.fails then 2 else 0 := by
  have hle := PipelineState.left_step (s := s.pipeline.setLap 1) (pipeline_reachable h) hstop
    (PipelineState.step_setLap hst 1)
  exact hle

/-- A queue with no place left, and the rest of a loop of `run`. -/
theorem pipeline_left_le (h : (programSystem tid (.init track lapStart)).Reachable s) :
    s.pipeline.left ≤ 28682 := by
  have hle := s.pipeline.left_le
  have hring := (pipelineInv_reachable (pipeline_reachable h)).spsc.ring.pushed_lt_popped
  have hheld : s.pipeline.held ≤ 2047 := by
    unfold PipelineState.held
    simp only [PipelineState.setLap_spsc] at hring
    have : telemetryRing.n = 2048 := rfl
    omega
  omega

theorem board_length_le (h : (programSystem tid (.init track lapStart)).Reachable s) :
    s.board.standings.length ≤ 20 := by
  rw [(screenInv h).board]
  split_ifs with hnil
  · exact Nat.zero_le _
  · exact (TelemetryGenerator.isBoard_ticks track lapStart hnil).length_eq.le

theorem left_console (h : (programSystem tid (.init track lapStart)).Reachable s)
    (hstop : s.main.stop ≠ .notCalled) (hmove : s.ConsoleMove s') : s'.left + 1 ≤ s.left := by
  have hconsumer := consumerStop_reachable h
  cases hmove with
  | leave hmain | stay hmain | empty hmain _ | snapshot hmain _ | getLap hmain | getWeather hmain
  | getGrip hmain | row hmain | shown hmain | stopGenerator hmain =>
    rw [hmain] at hstop
    exact absurd rfl hstop
  | stopConsumer hmain hst =>
    rw [hmain] at hconsumer
    have hle := pipeline_left_le h
    simp only [PipelineState.step, Option.ite_none_right_eq_some, Option.some.injEq] at hst
    obtain ⟨-, rfl⟩ := hst
    simp only [left, pushLeft, hmain, ConsolePc.left, PipelineState.leftAtStop, hconsumer,
      ConsolePc.consumerStop, if_true, reduceCtorEq, if_false]
    simp only [PipelineState.left, PipelineState.held, PipelineState.pcLeft, hconsumer,
      ConsolePc.consumerStop, reduceCtorEq, if_false] at hle ⊢
    omega
  | joinConsumer hmain hst =>
    rw [hmain] at hconsumer
    have hle := pipeline_left h (by rw [hconsumer]; simp [ConsolePc.consumerStop]) hst
    simp only [PipelineState.step, Option.ite_none_right_eq_some] at hst
    obtain ⟨-, hst⟩ := hst
    split at hst <;> cases hst
    simp only [PipelineLabel.serves, PipelineLabel.fails, if_true, if_false, Bool.false_eq_true]
      at hle
    simp only [left, pushLeft, hmain, ConsolePc.left, PipelineState.leftAtStop, hconsumer,
      ConsolePc.consumerStop, reduceCtorEq, if_false]
    omega
  | finalSnapshot hmain =>
    have := board_length_le h
    simp only [left, pushLeft, hmain, ConsolePc.left]
    omega
  | destroy hmain hst =>
    have := poolLeft_destroy s.jobs hst
    simp only [left, pushLeft]
    omega
  | joinGenerator hmain | finalLap hmain | classified hmain | fastestHolder hmain
  | noFastest hmain | fastestTime hmain =>
    simp only [left, pushLeft, hmain, ConsolePc.left, List.length_nil]
    omega
  | classify hmain =>
    simp only [left, pushLeft, hmain, ConsolePc.left, List.length_cons]
    omega

omit [DecidableEq θ] in
/-- A step of the generator's thread that touches nothing of the race control. -/
theorem left_of_run (hpool : s'.pool = s.pool) (hjobs : s'.jobs = s.jobs) (hmain : s'.main = s.main)
    (henforcer : s'.enforcer = s.enforcer) (hstop : s'.pipeline.stop = s.pipeline.stop)
    (hrunning : s.pipeline.stop = .notCalled)
    (hleft : s'.pc.left s.enforcer s'.pushLeft + 1 ≤ s.pc.left s.enforcer s.pushLeft) :
    s'.left + 1 ≤ s.left := by
  have hconsumer : s'.pipeline.leftAtStop = s.pipeline.leftAtStop := by
    rw [PipelineState.leftAtStop, PipelineState.leftAtStop, hstop, if_pos hrunning, if_pos hrunning]
  unfold left
  rw [hpool, hjobs, hmain, henforcer, hconsumer]
  omega

/-- A step of the consumer. -/
theorem left_consume {pipeline : PipelineState ℚ} {failed : Bool}
    (h : (programSystem tid (.init track lapStart)).Reachable s)
    (hst : s.pipeline.step (.consume failed) = some pipeline) :
    ({ s with pipeline := pipeline } : ProgramState θ).left
        + (if s.works (.consume failed) then 1 else 0)
      ≤ s.left + if failed then 2 else 0 := by
  obtain ⟨hproducer, -, hstop⟩ := PipelineState.consume_frame hst
  simp only [left, pushLeft, hproducer]
  by_cases hcalled : s.pipeline.stop = .notCalled
  · have hsame : pipeline.leftAtStop = s.pipeline.leftAtStop := by
      rw [PipelineState.leftAtStop, PipelineState.leftAtStop, hstop, if_pos hcalled,
        if_pos hcalled]
    have hworks : s.works (.consume failed) = false := by simp [works, hcalled]
    rw [hworks, hsame]
    simp
  · have hle := pipeline_left h hcalled hst
    have hworks : s.works (.consume failed) = true := by simp [works, hcalled]
    have hbefore : s.pipeline.leftAtStop = s.pipeline.left := if_neg hcalled
    have hafter : pipeline.leftAtStop = pipeline.left := if_neg (hstop ▸ hcalled)
    rw [hworks, hbefore, hafter]
    cases failed <;>
      simp only [PipelineLabel.serves, PipelineLabel.fails, if_true, if_false, Bool.false_eq_true]
        at hle ⊢ <;> omega

theorem left_step {l : ProgramLabel} (h : (programSystem tid (.init track lapStart)).Reachable s)
    (hstop : s.main.stop ≠ .notCalled) (hst : s.step tid l = some s') :
    s'.left + (if s.works l then 1 else 0) ≤ s.left + if l.fails then 2 else 0 := by
  have hrunning := consumerStop_of_running h
  cases move_of_step hst with
  | leave hpc =>
    simp only [left, hpc, RunPc.left, RunPc.callback, CallbackPc.left, works,
      ProgramLabel.fails, if_true, if_false, Bool.false_eq_true]
    have : ({ s with pc := .returned } : ProgramState θ).pushLeft = s.pushLeft := rfl
    omega
  | enter _ hcalled => exact absurd hcalled hstop
  | push hpc hgen =>
    have hcall := TelemetryState.pipelineStop_of_generate hgen
    exact left_of_run rfl rfl rfl rfl hcall (hrunning (by simp [hpc])) (push_left hpc hgen)
  | drive hpc hgen =>
    have hcall := TelemetryState.pipelineStop_of_generate hgen
    exact left_of_run rfl rfl rfl rfl hcall (hrunning (by simp [hpc])) (drive_left hpc hgen)
  | publish hpc =>
    refine left_of_run rfl rfl rfl rfl rfl (hrunning (by simp [hpc])) ?_
    simp only [hpc, RunPc.left, List.length_nil]
    omega
  | setLap hpc =>
    refine left_of_run rfl rfl rfl rfl rfl (hrunning (by simp [hpc])) ?_
    simp only [hpc, RunPc.left, RunPc.callback, CallbackPc.left]
    omega
  | callback hl hpc hcall =>
    have hworks : s.works l = true := by cases l <;> first | rfl | cases hl
    have hfails : l.fails = false := by cases l <;> first | rfl | cases hl
    obtain ⟨hjobs, hle⟩ := callback_left (l.onCallback_of_inCallback hl) hcall
    simp only [hworks, hfails, if_true, if_false, Bool.false_eq_true]
    simp only [left, withCallback, RunPc.left_ofCallback, RunPc.left_of_inCallback hpc]
    rw [hjobs] at hle
    simp only [raceControl] at hle
    omega
  | consume hconsume => exact left_consume h hconsume
  | worker hworker =>
    obtain ⟨events, henforcer, hle⟩ := worker_left (jobsFit h) hworker
    have hevents := s.pc.left_append s.enforcer s.pushLeft events
    simp only [works, ProgramLabel.fails, if_true, if_false, Bool.false_eq_true]
    simp only [raceControl] at hle henforcer
    simp only [left, withWorker, henforcer]
    simp only [pushLeft] at hevents ⊢
    omega
  | spurious hpool =>
    have := poolLeft_spurious s.jobs hpool
    simp only [left, pushLeft, works, ProgramLabel.fails, if_true, if_false, Bool.false_eq_true]
    omega
  | console hmove =>
    have := left_console h hstop hmove
    simp only [works, ProgramLabel.fails, if_true, if_false, Bool.false_eq_true]
    omega

theorem length_rest_le (h : (programSystem tid start).Reachable s) (rest : List (Fin 20))
    (hpc : s.pc = .drive rest ∨ s.pc = .push rest) : rest.length ≤ 20 := by
  obtain ⟨-, turned, hturned, -⟩ := (programInv h).inTick hpc
  have hlen := congrArg List.length hturned
  rw [List.length_append, List.length_finRange] at hlen
  omega

theorem run_left_le (h : (programSystem tid start).Reachable s) :
    s.pc.left s.enforcer s.pushLeft
      ≤ 5 * s.enforcer.queue.length + 4 * s.enforcer.pc.batch.length + 460 := by
  have hpush : s.pushLeft ≤ 7 := by
    unfold pushLeft
    rcases s.pipeline.spsc.producer with _ | p
    · simp
    · simp only [Option.elim_some]
      cases p.pc <;> simp
  have hrest := length_rest_le h
  rcases hpc : s.pc with _ | rest | rest | _ | (_ | _) | (_ | _) | _ | _ | _ <;>
    simp only [RunPc.left, RunPc.callback, CallbackPc.left]
  case process =>
    cases s.enforcer.pc <;> simp only [ProcessPc.left, ProcessPc.batch] <;> omega
  case drive =>
    have := hrest rest (.inl hpc)
    omega
  case push =>
    have := hrest rest (.inr hpc)
    omega
  all_goals omega

theorem poolLeft_le (h : (programSystem tid start).Reachable s) :
    poolLeft s.pool s.jobs ≤ 630 := by
  have htasks : s.pool.pool.tasks.length ≤ 2 :=
    RaceControlState.tasks_length_le (raceControl_reachable h)
  have hworkers : (∑ w, (s.pool.pool.workers w).leftWith (s.jobs w)) ≤ 248 := by
    have hone : ∀ w, (s.pool.pool.workers w).leftWith (s.jobs w) ≤ 124 := by
      intro w
      rcases hw : s.pool.pool.workers w with _ | _ | task | _
      · simp
      · simp
      · have := (jobsFit h w task hw).left_le
        simp only [raceControl] at this
        simp only [WorkerPc.leftWith_running]
        omega
      · simp
    calc (∑ w, (s.pool.pool.workers w).leftWith (s.jobs w)) ≤ ∑ _w : Fin 2, 124 :=
          Finset.sum_le_sum fun w _ => hone w
      _ = 248 := rfl
  have hsubmit : (s.pool.submitters ()).elim 0 SubmitPc.left ≤ 127 := by
    rcases s.pool.submitters () with _ | pc
    · simp
    · cases pc <;> simp [SubmitPc.left]
  have hdtor : s.pool.dtor.leftWaking ≤ 7 := by
    cases s.pool.dtor <;> simp only [PoolDtorPc.leftWaking] <;> omega
  unfold poolLeft
  omega

theorem left_le (h : (programSystem tid (.init track lapStart)).Reachable s) :
    s.left ≤ 30000 + 5 * (s.enforcer.queue.length + s.enforcer.pc.batch.length) := by
  have hrun := run_left_le h
  have hpool := poolLeft_le h
  have hconsumer : s.pipeline.leftAtStop ≤ 28700 := by
    have := pipeline_left_le h
    unfold PipelineState.leftAtStop
    split_ifs <;> omega
  have hmain : s.main.left ≤ 28 := by
    have hreport := reported h
    have hboard := board_length_le h
    rcases hs : s.main with _ | _ | _ | _ | _ | _ | _ | _ | _ | _ | _ | _ | rest | _ | _ | _ <;>
      simp only [ConsolePc.left, Nat.zero_le, le_refl, Nat.reduceLeDiff]
    rw [hs] at hreport
    have hlen := congrArg List.length hreport.2.2.1
    rw [List.length_append] at hlen
    omega
  unfold left
  omega

/-- Until the end of `main` some thread can go on with its work. -/
theorem exists_work (h : (programSystem tid start).Reachable s)
    (hd : s.pool.dtor ≠ .returned) :
    ∃ l s', s.works l = true ∧ l.fails = false ∧ s.step tid l = some s' := by
  rcases exists_main_step h hd with ⟨s', hst⟩ | ⟨-, hpc⟩ | ⟨hmain, hpc⟩ | ⟨-, w, hw⟩
  · exact ⟨_, s', rfl, rfl, hst⟩
  · obtain ⟨l, s', hl, hst⟩ := exists_generator_step h hpc
    refine ⟨l, s', ?_, ?_, hst⟩ <;> cases l <;> first | rfl | cases hl
  · obtain ⟨s', hst⟩ := exists_consumer_step h hpc
    have hstop := consumerStop_reachable h
    rw [hmain] at hstop
    exact ⟨_, s', by simp [works, hstop, ConsolePc.consumerStop], rfl, hst⟩
  · obtain ⟨s', hst⟩ := exists_worker_step h hw
    exact ⟨_, s', rfl, rfl, hst⟩

/-- `main` has returned, and no other thread is left. -/
def Over (s : ProgramState θ) : Prop :=
  s.pool.dtor = .returned ∧ s.pc = .returned ∧ s.pipeline.pc = .returned
    ∧ ∀ w, s.pool.pool.workers w = .returned

theorem over_of_returned (h : (programSystem tid (.init track lapStart)).Reachable s)
    (hd : s.pool.dtor = .returned) : s.Over := by
  have hside := raceControl_reachable h
  have hending := RaceControlState.main_of_dtor hside (by
    rw [show (s.raceControlSide _).pool.dtor = s.pool.dtor from rfl, hd]
    simp)
  have hmain : s.main = .destroy := by
    unfold raceControlSide at hending
    simp only at hending
    split at hending
    · cases hending
    · cases hs : s.main <;> rw [hs] at hending <;> first | rfl | cases hending
  have hstop := consumerStop_reachable h
  rw [hmain] at hstop
  obtain ⟨hpc, hpipeline⟩ := stopped_of_joined h hstop
  exact ⟨hd, hpc, hpipeline, (poolInv_reachable (pool_reachable hside)).joined hd⟩

theorem stopping_pays : (programSystem tid (.init track lapStart)).Pays
    (fun s => (programSystem tid (.init track lapStart)).Reachable s ∧ s.main.stop ≠ .notCalled)
    left (fun s l => if s.works l then 1 else 0) fun _ l => if l.fails then 2 else 0 where
  keeps hs hst := ⟨hs.1.step hst, stopping_step hst hs.2⟩
  pays hs hst := left_step hs.1 hs.2 hst

/-- From the call of `generator.stop()` on, whatever the schedule is, all threads together do a
bounded amount of work, but for two steps for each spurious failure or wake-up; until `main` has
returned one of them can go on with it; and then no thread is left. So `main` returns. -/
theorem main_returns (h : (programSystem tid (.init track lapStart)).Reachable s)
    (hstop : s.main.stop ≠ .notCalled) :
    (∀ ls s', (programSystem tid (.init track lapStart)).run s ls = some s' →
        (programSystem tid (.init track lapStart)).total
            (fun s l => if s.works l then 1 else 0) s ls
          ≤ 30000 + 5 * (s.enforcer.queue.length + s.enforcer.pc.batch.length)
            + 2 * ls.countP ProgramLabel.fails
          ∧ (s'.Over ∨ ∃ l s'', s'.works l = true ∧ s'.step tid l = some s''))
      ∧ ∃ ls s', (programSystem tid (.init track lapStart)).run s ls = some s' ∧ s'.Over
        ∧ ∀ l ∈ ls, l.fails = false := by
  refine ⟨fun ls s' hrun => ⟨?_, ?_⟩, ?_⟩
  · have hle := stopping_pays.total_le ⟨h, hstop⟩ hrun
    rw [System.total_ite hrun] at hle
    have hleft := left_le h
    have hcount : ls.countP (fun l => decide (l.fails = true)) = ls.countP ProgramLabel.fails := by
      simp only [Bool.decide_eq_true]
    omega
  · have hreach := h.leads (System.leads_of_run hrun)
    by_cases hd : s'.pool.dtor = .returned
    · exact .inl (over_of_returned hreach hd)
    · obtain ⟨l, s'', hworks, -, hst⟩ := exists_work hreach hd
      exact .inr ⟨l, s'', hworks, hst⟩
  · have hnext : ∀ {s : ProgramState θ},
        (programSystem tid (.init track lapStart)).Reachable s ∧ s.main.stop ≠ .notCalled →
        ¬ s.Over → ∃ l s', l.fails = false
          ∧ (programSystem tid (.init track lapStart)).step s l = some s'
          ∧ 1 ≤ (if s.works l then 1 else 0) ∧ (if l.fails then 2 else 0) = 0 := by
      rintro s ⟨hs, -⟩ hover
      obtain ⟨l, s', hworks, hfails, hst⟩ :=
        exists_work hs fun hd => hover (over_of_returned hs hd)
      exact ⟨l, s', hfails, hst, by rw [if_pos hworks], by simp [hfails]⟩
    obtain ⟨ls, s', hrun, hover, -, hls⟩ := stopping_pays.exists_run hnext ⟨h, hstop⟩
    exact ⟨ls, s', hrun, hover, hls⟩

/-- The stop requested in the loop of the first tick. -/
def stopInLoop : List ProgramLabel :=
  [List.replicate 30 (.generate ⟨0, 0⟩), [.consume false, .main true, .main true]].flatten

theorem main_returns_stopInLoop :
    let M := programSystem () (TelemetryGenerator.init defaultTrack fun _ => 0)
    let s := (M.run M.init stopInLoop).get (by decide +kernel)
    s.main.stop = .requested ∧ ∃ ls s', M.run s ls = some s' ∧ s'.Over := by
  intro M s
  have hs : M.Reachable s := System.reachable_get stopInLoop (by decide +kernel)
  have hstop : s.main.stop = .requested := by decide +kernel
  obtain ⟨ls, s', hrun, hover, -⟩ := (main_returns hs (by rw [hstop]; simp)).2
  exact ⟨hstop, ls, s', hrun, hover⟩

end ProgramState

end RaceConditionZ
