import RaceConditionZ.Proofs.ConsumerShutdown
import RaceConditionZ.Proofs.JobSteps
import RaceConditionZ.Proofs.Printout
import RaceConditionZ.Proofs.RunSchedule
import RaceConditionZ.Proofs.WriterThreads

/-!
# Who can go on

The generator's thread waits for nobody: a push that finds the queue full returns, a submission only
takes the pool's mutex, and the one writer of the board is never refused. A worker waits for tasks,
and the consumer for nothing at all. So of the main thread's waits each is for a thread that can go
on.
-/

namespace RaceConditionZ

open Transition

namespace TelemetryState

variable {θ : Type}

/-- A push is in progress where `tick` calls it, and nowhere else. -/
def Pushing (s : TelemetryState θ) : Prop :=
  match s.pc with
  | .push _ => s.pipeline.spsc.producer.isSome = true
  | _ => s.pipeline.spsc.producer.all Push.isReturned = true

variable [DecidableEq θ] {tid : θ} {s s' : TelemetryState θ}

theorem Pushing.move (h : s.Pushing) (hmove : s.Move tid s') : s'.Pushing := by
  unfold Pushing at h ⊢
  cases hmove with
  | leave hpc | enter hpc _ =>
    rw [hpc] at h
    exact h
  | drive hpc hst =>
    unfold TelemetryState.drive at hst
    simp only [Option.map_eq_some_iff] at hst
    obtain ⟨pipeline, hpipeline, rfl⟩ := hst
    simp only [PipelineState.step, Option.ite_none_right_eq_some, Option.map_eq_some_iff]
      at hpipeline
    obtain ⟨-, spsc, hspsc, rfl⟩ := hpipeline
    obtain ⟨-, rfl⟩ := SpscState.of_step_callPush hspsc
    rfl
  | push hpc _ _ hst =>
    simp only [PipelineState.step, Option.map_eq_some_iff] at hst
    obtain ⟨spsc, hspsc, rfl⟩ := hst
    obtain ⟨p, -, q', p', -, rfl⟩ := SpscState.of_step_push hspsc
    simp only [hpc]
    rfl
  | pushed _ hp hret =>
    simp only [hp, Option.all_some, Push.isReturned, hret]
  | publish hpc hst =>
    unfold TelemetryState.publish at hst
    simp only [Option.map_eq_some_iff] at hst
    obtain ⟨board, -, rfl⟩ := hst
    rw [hpc] at h
    exact h
  | consume hst =>
    obtain ⟨hproducer, -⟩ := PipelineState.consume_frame hst
    simp only [hproducer]
    exact h
  | callStop | join => exact h
  | stopConsumer _ hl hst =>
    rcases hl with rfl | rfl
    · simp only [PipelineState.step, Option.ite_none_right_eq_some, Option.some.injEq] at hst
      obtain ⟨-, rfl⟩ := hst
      exact h
    · simp only [PipelineState.step, Option.ite_none_right_eq_some] at hst
      obtain ⟨-, hst⟩ := hst
      split at hst <;> cases hst
      exact h

theorem pushing_reachable {start : TelemetryGenerator}
    (h : (telemetrySystem tid start).Reachable s) : s.Pushing := by
  refine h.invariant ?_ fun _ hP _ hst => hP.move (move_of_step hst)
  rfl

/-- Nobody else has written the board. -/
theorem writerId_of_reachable {start : TelemetryGenerator}
    (h : (telemetrySystem tid start).Reachable s) :
    s.board.writerId = none ∨ s.board.writerId = some tid := by
  refine h.invariant (I := fun s => s.board.writerId = none ∨ s.board.writerId = some tid)
    (.inl rfl) ?_
  intro s l s' _ hI _ hst
  have hmove := move_of_step hst
  clear hst
  cases hmove with
  | drive _ hst =>
    unfold TelemetryState.drive at hst
    simp only [Option.map_eq_some_iff] at hst
    obtain ⟨pipeline, -, rfl⟩ := hst
    exact hI
  | publish _ hst =>
    unfold TelemetryState.publish at hst
    simp only [Option.map_eq_some_iff] at hst
    obtain ⟨board, hboard, rfl⟩ := hst
    rw [Leaderboard.update_of_writer hI] at hboard
    obtain rfl := Option.some.inj hboard
    exact .inr rfl
  | _ => exact hI

/-- The generator's thread does not stop the consumer. -/
theorem pipelineStop_of_generate {x : DriverInput} (hst : s.generate tid x = some s') :
    s'.pipeline.stop = s.pipeline.stop := by
  unfold TelemetryState.generate at hst
  split at hst
  · split at hst <;> obtain rfl := Option.some.inj hst <;> rfl
  · unfold TelemetryState.drive at hst
    rw [Option.map_eq_some_iff] at hst
    obtain ⟨pipeline, hpipeline, rfl⟩ := hst
    simp only [PipelineState.step, Option.ite_none_right_eq_some, Option.map_eq_some_iff]
      at hpipeline
    obtain ⟨-, spsc, -, rfl⟩ := hpipeline
    rfl
  · rw [Option.bind_eq_some_iff] at hst
    obtain ⟨p, -, hst⟩ := hst
    split at hst
    · obtain rfl := Option.some.inj hst
      rfl
    · simp only [PipelineState.step, Option.map_map, Option.map_eq_some_iff] at hst
      obtain ⟨spsc, -, rfl⟩ := hst
      rfl
  · unfold TelemetryState.publish at hst
    rw [Option.map_eq_some_iff] at hst
    obtain ⟨board, -, rfl⟩ := hst
    rfl
  · cases hst

end TelemetryState

namespace RaceControlState

variable {start : TelemetryGenerator} {s : RaceControlState}

/-- The callback up to the call of `process_events`. -/
theorem exists_callback (h : (raceControlSystem start).Reachable s)
    (hpc : (∃ kind, s.pc = .poll kind ∨ s.pc = .submit kind) ∨ s.pc = .callProcess) :
    ∃ w s', s.callback w = some s' := by
  have hwired := wired_reachable h
  rcases hpc with ⟨kind, hpc | hpc⟩ | hpc
  · have hquiet := hwired.quiet fun k => by simp [hpc]
    refine ⟨0, ?_⟩
    simp only [callback, hpc, poll]
    split
    · rcases hquiet with hquiet | hquiet <;> simp only [PoolState.step, hquiet] <;> exact ⟨_, rfl⟩
    · exact ⟨_, rfl⟩
  · -- a notification wakes a worker that waits, if there is one
    obtain ⟨w, hw⟩ : ∃ w, (∃ v, (s.pool.pool.workers v).isWaiting) →
        (s.pool.pool.workers w).isWaiting := by
      by_cases hany : ∃ v, (s.pool.pool.workers v).isWaiting
      · obtain ⟨v, hv⟩ := hany
        exact ⟨v, fun _ => hv⟩
      · exact ⟨0, fun hv => absurd hv hany⟩
    refine ⟨w, ?_⟩
    simp only [callback, hpc, submit]
    rcases hwired.submitting kind hpc with ⟨c, hc, -⟩ | ⟨-, hc | hc⟩ <;>
      simp only [hc, PoolState.step, PoolState.submit]
    · split <;> exact ⟨_, rfl⟩
    · simp only [ThreadPool.notifyOne, ThreadPool.wake]
      split_ifs with hany hwaiting
      · exact ⟨_, rfl⟩
      · exact absurd (hw hany) hwaiting
      · exact ⟨_, rfl⟩
    · exact ⟨_, rfl⟩
  · have hidle := (tallied_reachable h).idle (by simp [hpc])
    refine ⟨0, ?_⟩
    simp only [callback, hpc, EnforcerState.step, hidle]
    exact ⟨_, rfl⟩

/-- `process_events`. -/
theorem exists_process (hpc : s.pc = .process) :
    (∃ s', s.drain false = some s') ∨ ∃ s', s.process 0 = some s' := by
  simp only [drain, process, hpc, EnforcerState.step, EnforcerState.drain, EnforcerState.process]
  rcases s.enforcer.pc with _ | batch | (_ | ⟨e, batch⟩) | ⟨e, i, count, batch⟩ | ⟨e, i, batch⟩
    | ⟨i, batch⟩
  · exact .inr ⟨_, rfl⟩
  · exact .inl ⟨_, rfl⟩
  · exact .inr ⟨_, rfl⟩
  · refine .inr ?_
    simp only
    split <;> exact ⟨_, rfl⟩
  · refine .inr ?_
    simp only
    split
    · split <;> exact ⟨_, rfl⟩
    · exact ⟨_, rfl⟩
  · exact .inr ⟨_, rfl⟩
  · exact .inr ⟨_, rfl⟩

end RaceControlState

/-- How far `lap_consumer.stop()` is. -/
def ConsolePc.consumerStop : ConsolePc → StopPc
  | .joinConsumer => .requested
  | .finalLap | .finalSnapshot | .classify _ | .fastestHolder | .fastestTime _ | .destroy =>
    .returned
  | _ => .notCalled

/-- A step of the generator's thread. -/
def ProgramLabel.onGenerator : ProgramLabel → Bool
  | .generate _ | .callback _ | .drain _ | .process _ => true
  | _ => false

namespace ProgramState

variable {θ : Type} [DecidableEq θ] {tid : θ} {start : TelemetryGenerator} {s s' : ProgramState θ}

/-- A step of the generator's thread or of the consumer's leaves the two calls of `stop` alone. -/
theorem consumerStop_reachable (h : (programSystem tid start).Reachable s) :
    s.pipeline.stop = s.main.consumerStop := by
  refine h.invariant (I := fun s => s.pipeline.stop = s.main.consumerStop) rfl ?_
  intro s l s' _ hI _ hst
  cases move_of_step hst with
  | leave | enter | publish | setLap | callback | worker | spurious => exact hI
  | push _ hgen | drive _ hgen => exact (TelemetryState.pipelineStop_of_generate hgen).trans hI
  | consume hconsume =>
    simp only [PipelineState.step] at hconsume
    exact (PipelineState.consume_frame hconsume).2.2.trans hI
  | console hmove =>
    cases hmove with
    | stopConsumer hmain hcall =>
      simp only [PipelineState.step, Option.ite_none_right_eq_some, Option.some.injEq] at hcall
      obtain ⟨-, rfl⟩ := hcall
      rfl
    | joinConsumer hmain hcall =>
      simp only [PipelineState.step, Option.ite_none_right_eq_some] at hcall
      obtain ⟨-, hcall⟩ := hcall
      split at hcall <;> cases hcall
      rfl
    | leave hmain | stay hmain | empty hmain _ | snapshot hmain _ | getLap hmain | getWeather hmain
    | getGrip hmain | row hmain | shown hmain | stopGenerator hmain | joinGenerator hmain _
    | finalLap hmain | finalSnapshot hmain | classify hmain | classified hmain
    | fastestHolder hmain _ _ | noFastest hmain _ | fastestTime hmain =>
      rw [hmain] at hI
      exact hI
    | destroy => exact hI

theorem writer_of_reachable (h : (programSystem tid start).Reachable s) :
    s.board.writerId = none ∨ s.board.writerId = some tid :=
  TelemetryState.writerId_of_reachable (telemetry_reachable h)

/-- While the generator's thread is in `run` nobody has stopped the consumer. -/
theorem consumerStop_of_running (h : (programSystem tid start).Reachable s)
    (hpc : s.pc ≠ .returned) : s.pipeline.stop = .notCalled := by
  have hmain : s.main.stop ≠ .returned := fun hstop => hpc ((programInv h).joined hstop)
  rw [consumerStop_reachable h]
  cases hs : s.main <;> rw [hs] at hmain <;> first | rfl | exact absurd rfl hmain

/-- The generator's thread waits for nobody. -/
theorem exists_generator_step (h : (programSystem tid start).Reachable s) (hpc : s.pc ≠ .returned) :
    ∃ l s', l.onGenerator = true ∧ s.step tid l = some s' := by
  have hstop := consumerStop_of_running h hpc
  have hpushing := TelemetryState.pushing_reachable (telemetry_reachable h)
  have hside := raceControl_reachable h
  have hgenerate : (∃ s', s.generate tid ⟨0, 0⟩ = some s') →
      ∃ l s', l.onGenerator = true ∧ s.step tid l = some s' := by
    rintro ⟨s', hst⟩
    exact ⟨.generate ⟨0, 0⟩, s', rfl, hst⟩
  have hcallback : (∃ kind, s.pc = .poll kind ∨ s.pc = .submit kind) ∨ s.pc = .callProcess →
      ∃ l s', l.onGenerator = true ∧ s.step tid l = some s' := by
    intro hin
    have hin' : s.pc.inCallback = true := by
      rcases hin with ⟨kind, hin | hin⟩ | hin <;> rw [hin] <;> rfl
    rw [(programInv h).raceControlSide_eq (RunPc.ne_setLap_of_inCallback hin')
      (RunPc.inTick_of_inCallback hin')] at hside
    have hin'' : (∃ kind, s.raceControl.pc = .poll kind ∨ s.raceControl.pc = .submit kind)
        ∨ s.raceControl.pc = .callProcess := by
      unfold raceControl
      rcases hin with ⟨kind, hin | hin⟩ | hin <;> simp [hin, RunPc.callback]
    obtain ⟨w, c, hc⟩ := RaceControlState.exists_callback hside hin''
    refine ⟨.callback w, s.withCallback c, rfl, ?_⟩
    simp only [ProgramState.step, ProgramState.callback]
    rcases hin with ⟨kind, hin | hin⟩ | hin <;> simp only [hin, hc, Option.map_some]
  rcases hs : s.pc with _ | (_ | ⟨i, rest⟩) | rest | _ | kind | kind | _ | _ | _
  · refine hgenerate ?_
    simp only [ProgramState.generate, TelemetryState.generate, telemetry, hs, RunPc.generator]
    split <;> exact ⟨_, rfl⟩
  · refine hgenerate ?_
    simp only [ProgramState.generate, hs, ProgramState.publish,
      Leaderboard.update_of_writer (writer_of_reachable h)]
    exact ⟨_, rfl⟩
  · rw [telemetrySide_of_ne (by rw [hs]; simp)] at hpushing
    simp only [TelemetryState.Pushing, telemetry, hs, RunPc.generator] at hpushing
    refine hgenerate ?_
    simp only [ProgramState.generate, TelemetryState.generate, telemetry, hs, RunPc.generator,
      TelemetryState.drive, PipelineState.step, hstop, SpscState.step, hpushing]
    exact ⟨_, rfl⟩
  · rw [telemetrySide_of_ne (by rw [hs]; simp)] at hpushing
    simp only [TelemetryState.Pushing, telemetry, hs, RunPc.generator] at hpushing
    obtain ⟨p, hp⟩ := Option.isSome_iff_exists.1 hpushing
    refine hgenerate ?_
    simp only [ProgramState.generate, TelemetryState.generate, telemetry, hs, RunPc.generator, hp,
      Option.bind_some]
    split
    · exact ⟨_, rfl⟩
    · rename_i hret
      obtain ⟨q', p', hpush, -⟩ := s.pipeline.spsc.queue.push_left telemetryRing hret
      simp only [PipelineState.step, SpscState.step, hp, Option.bind_some, hpush, Option.map_some]
      exact ⟨_, rfl⟩
  · refine hgenerate ?_
    simp only [ProgramState.generate, hs]
    exact ⟨_, rfl⟩
  · exact hcallback (.inl ⟨kind, .inl hs⟩)
  · exact hcallback (.inl ⟨kind, .inr hs⟩)
  · exact hcallback (.inr hs)
  · have hprocess : s.raceControl.pc = .process := by
      simp only [raceControl, hs, RunPc.callback]
    rcases RaceControlState.exists_process hprocess with ⟨c, hc⟩ | ⟨c, hc⟩
    · refine ⟨.drain false, s.withCallback c, rfl, ?_⟩
      simp only [ProgramState.step, hs, hc, Option.map_some]
    · refine ⟨.process 0, s.withCallback c, rfl, ?_⟩
      simp only [ProgramState.step, hs, hc, Option.map_some]
  · exact absurd hs hpc

theorem jobsFit (h : (programSystem tid start).Reachable s) : s.raceControl.JobsFit :=
  (RaceControlState.jobsFit_reachable (raceControl_reachable h)).of_same rfl rfl

/-- Nor does a worker, but for tasks. -/
theorem exists_worker_step (h : (programSystem tid start).Reachable s) {w : Fin 2}
    (hw : (s.pool.pool.workers w).Awake) : ∃ s', s.step tid (.worker w 0 0) = some s' := by
  obtain ⟨c, hc⟩ := RaceControlState.exists_worker (jobsFit h) hw 0 0
  exact ⟨s.withWorker c, Option.map_eq_some_iff.2 ⟨c, hc, rfl⟩⟩

/-- The pipeline, whatever the lap is, takes steps of its own only. -/
theorem pipeline_reachable (h : (programSystem tid start).Reachable s) :
    (pipelineSystem ℚ).Reachable (s.pipeline.setLap 1) := by
  have hside := RaceConditionZ.pipeline_reachable (telemetry_reachable h)
  unfold telemetrySide lapSet at hside
  split at hside <;> exact hside

/-- The consumer waits for nobody. -/
theorem exists_consumer_step (h : (programSystem tid start).Reachable s)
    (hpc : s.pipeline.pc ≠ .returned) : ∃ s', s.step tid (.consume false) = some s' := by
  obtain ⟨pipeline, hst⟩ := PipelineState.exists_consume (pipeline_reachable h) hpc
  have hst : s.pipeline.step (.consume false)
      = some (pipeline.setLap s.pipeline.race.currentLap) :=
    PipelineState.step_setLap (l := .consume false) hst s.pipeline.race.currentLap
  exact ⟨_, Option.map_eq_some_iff.2 ⟨_, hst, rfl⟩⟩

/-- Where the main thread cannot go on, it waits for a thread that can. -/
theorem exists_main_step (h : (programSystem tid start).Reachable s)
    (hd : s.pool.dtor ≠ .returned) :
    (∃ s', s.step tid (.main false) = some s')
      ∨ s.main = .joinGenerator ∧ s.pc ≠ .returned
      ∨ s.main = .joinConsumer ∧ s.pipeline.pc ≠ .returned
      ∨ s.main = .destroy ∧ ∃ w, (s.pool.pool.workers w).Awake := by
  have hstop := consumerStop_reachable h
  have hjoined := (programInv h).joined
  simp only [ProgramState.step, console]
  rcases hmain : s.main with _ | _ | standings | ⟨standings, lap⟩ | ⟨standings, lap, weather⟩
    | ⟨screen, _ | ⟨entry, rest⟩⟩ | _ | _ | _ | _ | _ | _ | (_ | ⟨entry, rest⟩) | _ | holder | _ <;>
    simp only [hmain] at hstop ⊢
  · refine .inl ?_
    split <;> exact ⟨_, rfl⟩
  · refine .inl ?_
    split <;> exact ⟨_, rfl⟩
  · exact .inl ⟨_, rfl⟩
  · exact .inl ⟨_, rfl⟩
  · exact .inl ⟨_, rfl⟩
  · exact .inl ⟨_, rfl⟩
  · exact .inl ⟨_, rfl⟩
  · exact .inl ⟨_, rfl⟩
  · by_cases hpc : s.pc = .returned
    · exact .inl ⟨_, if_pos hpc⟩
    · exact .inr (.inl ⟨trivial, hpc⟩)
  · have hpc := hjoined (by rw [hmain]; rfl)
    have hpushing := TelemetryState.pushing_reachable (telemetry_reachable h)
    rw [telemetrySide_of_ne (by rw [hpc]; simp)] at hpushing
    simp only [TelemetryState.Pushing, telemetry, hpc, RunPc.generator] at hpushing
    refine .inl ?_
    simp only [PipelineState.step, hstop, ConsolePc.consumerStop, hpushing]
    exact ⟨_, rfl⟩
  · by_cases hpc : s.pipeline.pc = .returned
    · refine .inl ?_
      simp only [PipelineState.step, hstop, ConsolePc.consumerStop, hpc]
      exact ⟨_, rfl⟩
    · exact .inr (.inr (.inl ⟨trivial, hpc⟩))
  · exact .inl ⟨_, rfl⟩
  · exact .inl ⟨_, rfl⟩
  · exact .inl ⟨_, rfl⟩
  · exact .inl ⟨_, rfl⟩
  · refine .inl ?_
    split <;> exact ⟨_, rfl⟩
  · exact .inl ⟨_, rfl⟩
  · have hpool : (poolSystem 2 Unit Job).Reachable s.pool :=
      pool_reachable (raceControl_reachable h)
    by_cases halive : s.pool.dtor = .alive
    · refine .inl ?_
      simp only [PoolState.step, PoolState.destroy, halive]
      exact ⟨_, rfl⟩
    · obtain ⟨l, pool, hserves, hst⟩ := PoolState.exists_serving_step hpool
        ⟨PoolState.stop_of_dtor hpool halive, halive⟩ hd
      cases l with
      | worker w => exact .inr (.inr (.inr ⟨trivial, w, PoolState.awake_of_step hst⟩))
      | destroy => exact .inl ⟨_, Option.map_eq_some_iff.2 ⟨pool, hst, rfl⟩⟩
      | _ => cases hserves

end ProgramState

end RaceConditionZ
