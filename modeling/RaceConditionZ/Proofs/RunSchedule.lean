import RaceConditionZ.Proofs.Tick
import RaceConditionZ.Proofs.WriterThreads
import RaceConditionZ.Telemetry

/-!
# A schedule for `run`

A `push` waits for nobody: it is back after seven steps, whatever the consumer does. So the
generator's thread can always go on alone, and whatever `run` does on its own, with its ticks taken
whole, the interleaved system can do.
-/

namespace RaceConditionZ

open Transition

/-- How many steps of a `push` are left, at most. -/
@[simp]
def PushPc.left : PushPc → ℕ
  | .loadTail => 7
  | .compare _ => 6
  | .loadHead _ => 5
  | .recompare _ => 4
  | .write _ => 3
  | .writing _ => 2
  | .storeTail _ => 1
  | .returned _ => 0

/-- Each step of a `push` is one of them. -/
theorem SpscQueue.push_left {T : Type} (r : RingSize) (q : SpscQueue T) {p : Push T}
    (hp : ∀ ok, p.pc ≠ .returned ok) :
    ∃ q' p', q.push r p = some (q', p') ∧ p'.pc.left < p.pc.left := by
  obtain ⟨item, byMove, arg, pc⟩ := p
  rcases pc with _ | tail | tail | tail | tail | tail | tail | ok
  · exact ⟨_, _, rfl, by simp⟩
  · unfold push
    simp only []
    split_ifs
    · exact ⟨_, _, rfl, by simp⟩
    · exact ⟨_, _, rfl, by simp⟩
  · exact ⟨_, _, rfl, by simp⟩
  · unfold push
    simp only []
    split_ifs
    · exact ⟨_, _, rfl, by simp⟩
    · exact ⟨_, _, rfl, by simp⟩
  · exact ⟨_, _, rfl, by simp⟩
  · exact ⟨_, _, rfl, by simp⟩
  · exact ⟨_, _, rfl, by simp⟩
  · exact absurd rfl (hp ok)

/-- The call of a `push` after the last has come back. -/
theorem PipelineState.callPush_of_idle {F : Type} [MachineFloat F] [DecidableEq F] [DecidableLT F]
    [Inhabited (TelemetryFrame F)] (s : PipelineState F) (hstop : s.stop = .notCalled)
    (hidle : s.spsc.producer.all Push.isReturned = true) (frame : TelemetryFrame F) :
    ∃ s', s.step (.callPush frame false) = some s' ∧ s'.stop = .notCalled
      ∧ ∃ p, s'.spsc.producer = some p := by
  have hst : s.step (.callPush frame false) = some { s with spsc := { s.spsc with
      producer := some (.ofCopy frame)
      history := { s.spsc.history with
        pushStart := (s.spsc.queue.tail, s.spsc.queue.buffer) } } } := by
    simp only [PipelineState.step, SpscState.step, if_pos hstop, if_pos hidle, Option.map_some]
    rfl
  exact ⟨_, hst, hstop, _, rfl⟩

namespace TelemetryState

variable {θ : Type}

/-- The generator's thread is at `pc` with the generator `g`, nobody has called `stop`, and the
board takes its calls. -/
structure RunsAt (tid : θ) (g : TelemetryGenerator) (pc : GeneratorPc) (s : TelemetryState θ) :
    Prop where
  generator : s.generator = g
  pc : s.pc = pc
  stop : s.stop = .notCalled
  consumerStop : s.pipeline.stop = .notCalled
  writer : s.board.writerId = none ∨ s.board.writerId = some tid

/-- No `push` is in progress. -/
def PushIdle (s : TelemetryState θ) : Prop := s.pipeline.spsc.producer.all Push.isReturned = true

/-- The end of a tick, where the board takes the call. -/
theorem publish_of_writer [DecidableEq θ] {tid : θ} {s : TelemetryState θ}
    (hwriter : s.board.writerId = none ∨ s.board.writerId = some tid) :
    s.publish tid = some { s with
      generator := s.generator.updatePositionsAndDrs
      pc := .testStop
      pipeline := s.pipeline.setLap s.generator.updatePositionsAndDrs.raceLap
      board := ⟨s.generator.updatePositionsAndDrs.standings, some tid⟩ } := by
  unfold publish
  simp only [Leaderboard.update_of_writer hwriter, Option.map_some]

section Lead

variable [DecidableEq θ] {tid : θ} (start : TelemetryGenerator) {g : TelemetryGenerator}
  {s : TelemetryState θ}

/-- A `push` comes back. -/
theorem RunsAt.leads_push {rest : List (Fin 20)} {p : Push (TelemetryFrame ℚ)}
    (h : s.RunsAt tid g (.push rest)) (hp : s.pipeline.spsc.producer = some p) :
    ∃ s', (telemetrySystem tid start).Leads s s' ∧ s'.RunsAt tid g (.drive rest)
      ∧ s'.PushIdle := by
  induction hn : p.pc.left using Nat.strong_induction_on generalizing s p with
  | _ n ih =>
    by_cases hret : ∃ ok, p.pc = .returned ok
    · obtain ⟨ok, hok⟩ := hret
      have hst : (telemetrySystem tid start).step s (.generate ⟨0, 0⟩) = some { s with
          pc := .drive rest
          refused := if ok then s.refused else s.refused + 1 } := by
        simp only [telemetrySystem, step, generate, h.pc, hp, Option.bind_some, hok]
      refine ⟨_, .single ⟨_, hst⟩, ⟨h.generator, rfl, h.stop, h.consumerStop, h.writer⟩, ?_⟩
      unfold PushIdle Push.isReturned
      simp only [hp, Option.all_some, hok]
    · have hret : ∀ ok, p.pc ≠ .returned ok := fun ok hok => hret ⟨ok, hok⟩
      obtain ⟨q', p', hpush, hlt⟩ := s.pipeline.spsc.queue.push_left telemetryRing hret
      have hst : (telemetrySystem tid start).step s (.generate ⟨0, 0⟩) = some { s with
          pipeline := { s.pipeline with spsc := { s.pipeline.spsc with
            queue := q'
            producer := some p'
            history := s.pipeline.spsc.notePush p } } } := by
        simp only [telemetrySystem, step, generate, h.pc, hp, Option.bind_some,
          PipelineState.step, SpscState.step, hpush, Option.map_some]
      have hruns : RunsAt tid g (.push rest) { s with
          pipeline := { s.pipeline with spsc := { s.pipeline.spsc with
            queue := q'
            producer := some p'
            history := s.pipeline.spsc.notePush p } } } :=
        ⟨h.generator, h.pc, h.stop, h.consumerStop, h.writer⟩
      obtain ⟨s', hleads, hruns, hidle⟩ := ih p'.pc.left (hn ▸ hlt) hruns rfl rfl
      exact ⟨s', .head ⟨_, hst⟩ hleads, hruns, hidle⟩

/-- The turn of a driver. -/
theorem RunsAt.leads_driver {i : Fin 20} {rest : List (Fin 20)}
    (h : s.RunsAt tid g (.drive (i :: rest))) (hidle : s.PushIdle) (x : DriverInput) :
    ∃ s', (telemetrySystem tid start).Leads s s'
      ∧ s'.RunsAt tid (g.tickDriver (fun _ => x) i) (.drive rest) ∧ s'.PushIdle := by
  obtain ⟨pipeline, hcall, hstop, p, hp⟩ := s.pipeline.callPush_of_idle h.consumerStop hidle
    ((s.generator.tickDriver (fun _ => x) i).states i).latestFrame
  have hst : (telemetrySystem tid start).step s (.generate x) = some { s with
      generator := s.generator.tickDriver (fun _ => x) i
      pc := .push rest
      pipeline := pipeline
      laps := s.laps ++ if (s.generator.states i).crossesLine s.generator.track x.noise then
        [⟨(i : ℕ), ((s.generator.tickDriver (fun _ => x) i).states i).latestFrame.lapTimeMs⟩]
        else [] } := by
    simp only [telemetrySystem, step, generate, h.pc, drive, hcall, Option.map_some]
  have hgen : s.generator.tickDriver (fun _ => x) i = g.tickDriver (fun _ => x) i := by
    rw [h.generator]
  have hcalled : ∃ s₁, (telemetrySystem tid start).step s (.generate x) = some s₁
      ∧ s₁.RunsAt tid (g.tickDriver (fun _ => x) i) (.push rest)
      ∧ ∃ p, s₁.pipeline.spsc.producer = some p :=
    ⟨_, hst, ⟨hgen, rfl, h.stop, hstop, h.writer⟩, p, hp⟩
  obtain ⟨s₁, hst, hruns, p, hp⟩ := hcalled
  obtain ⟨s', hleads, hruns', hidle'⟩ := hruns.leads_push start hp
  exact ⟨s', .head ⟨_, hst⟩ hleads, hruns', hidle'⟩

/-- The loop over the drivers. -/
theorem RunsAt.leads_drivers {rest : List (Fin 20)} (h : s.RunsAt tid g (.drive rest))
    (hidle : s.PushIdle) (x : TickInput) :
    ∃ s', (telemetrySystem tid start).Leads s s'
      ∧ s'.RunsAt tid (rest.foldl (fun g i => g.tickDriver x i) g) (.drive [])
      ∧ s'.PushIdle := by
  induction rest generalizing s g with
  | nil => exact ⟨s, .refl, h, hidle⟩
  | cons i rest ih =>
    obtain ⟨s₁, hleads, hruns, hidle⟩ := h.leads_driver start hidle (x i)
    have hsame : g.tickDriver (fun _ => x i) i = g.tickDriver x i :=
      TelemetryGenerator.tickDriver_congr rfl
    rw [hsame] at hruns
    obtain ⟨s', hleads', hruns', hidle'⟩ := ih hruns hidle
    exact ⟨s', hleads.trans hleads', hruns', hidle'⟩

/-- A tick, with its callback. -/
theorem RunsAt.leads_tick (h : s.RunsAt tid g .testStop) (hidle : s.PushIdle)
    (hdown : g.raceFinished = false) (x : TickInput) :
    ∃ s', (telemetrySystem tid start).Leads s s' ∧ s'.RunsAt tid (g.tick x) .testStop
      ∧ s'.PushIdle := by
  have hbegin : (telemetrySystem tid start).step s (.generate ⟨0, 0⟩)
      = some { s with pc := .drive (List.finRange 20) } := by
    simp only [telemetrySystem, step, generate, h.pc, h.stop, h.generator, hdown, ne_eq,
      not_true_eq_false, Bool.false_eq_true, or_self, if_false]
  have hbegun : RunsAt tid g (.drive (List.finRange 20))
      { s with pc := .drive (List.finRange 20) } :=
    ⟨h.generator, rfl, h.stop, h.consumerStop, h.writer⟩
  obtain ⟨s₁, hleads, hruns, hidle₁⟩ := hbegun.leads_drivers start hidle x
  have hgen : s₁.generator.updatePositionsAndDrs = g.tick x := by
    rw [hruns.generator, TelemetryGenerator.tick, TelemetryGenerator.advanceAll]
  have hpublish : (telemetrySystem tid start).step s₁ (.generate ⟨0, 0⟩) = s₁.publish tid := by
    simp only [telemetrySystem, step, generate, hruns.pc]
  rw [publish_of_writer hruns.writer] at hpublish
  have hend : ∃ s', (telemetrySystem tid start).step s₁ (.generate ⟨0, 0⟩) = some s'
      ∧ s'.RunsAt tid (g.tick x) .testStop ∧ s'.PushIdle := by
    refine ⟨_, hpublish, ⟨hgen, rfl, hruns.stop, ?_, .inr rfl⟩, ?_⟩
    · simp only [PipelineState.setLap_stop]
      exact hruns.consumerStop
    · unfold PushIdle
      simp only [PipelineState.setLap_spsc]
      exact hidle₁
  obtain ⟨s', hend, hruns', hidle'⟩ := hend
  exact ⟨s', .head ⟨_, hbegin⟩ (hleads.tail ⟨_, hend⟩), hruns', hidle'⟩

/-- The loop of `run`, until the flag or the end of the inputs. -/
theorem RunsAt.leads_run (h : s.RunsAt tid g .testStop) (hidle : s.PushIdle)
    (xs : List TickInput) :
    ∃ s', (telemetrySystem tid start).Leads s s' ∧ s'.RunsAt tid (g.run xs).1 .testStop
      ∧ s'.PushIdle := by
  induction xs generalizing s g with
  | nil => exact ⟨s, .refl, h, hidle⟩
  | cons x xs ih =>
    rw [TelemetryGenerator.run]
    split_ifs with hup
    · exact ⟨s, .refl, h, hidle⟩
    · obtain ⟨s₁, hleads, hruns, hidle₁⟩ := h.leads_tick start hidle
        (Bool.eq_false_iff.2 hup) x
      obtain ⟨s', hleads', hruns', hidle'⟩ := ih hruns hidle₁
      exact ⟨s', hleads.trans hleads', hruns', hidle'⟩

/-- The call of `generator.stop()`. -/
theorem RunsAt.leads_stop (h : s.RunsAt tid g .testStop) :
    ∃ s', (telemetrySystem tid start).Leads s s' ∧ s'.stop = .returned ∧ s'.generator = g := by
  have hrequest :
      (telemetrySystem tid start).step s .main = some { s with stop := .requested } := by
    simp only [telemetrySystem, step, main, h.stop]
  have hreturn : (telemetrySystem tid start).step { s with stop := .requested } (.generate ⟨0, 0⟩)
      = some { s with stop := .requested, pc := .returned } := by
    simp only [telemetrySystem, step, generate, h.pc, ne_eq, reduceCtorEq, not_false_eq_true,
      true_or, if_true]
  have hjoin : (telemetrySystem tid start).step { s with stop := .requested, pc := .returned } .main
      = some { s with stop := .returned, pc := .returned } := by
    simp only [telemetrySystem, step, main, if_true]
  exact ⟨_, .head ⟨_, hrequest⟩ (.head ⟨_, hreturn⟩ (.single ⟨_, hjoin⟩)), rfl, h.generator⟩

end Lead

/-- Whatever `run` does, some run of the system does, and returns from `stop`. -/
theorem leads_run [DecidableEq θ] (tid : θ) (start : TelemetryGenerator) (xs : List TickInput) :
    ∃ ls s, (telemetrySystem tid start).run (telemetrySystem tid start).init ls = some s
      ∧ s.stop = .returned ∧ s.generator = (start.run xs).1 := by
  have hinit : (TelemetryState.init start).RunsAt tid start .testStop :=
    ⟨rfl, rfl, rfl, rfl, .inl rfl⟩
  obtain ⟨s₁, hleads, hruns, -⟩ := hinit.leads_run start rfl xs
  obtain ⟨s, hleads', hstop, hgen⟩ := hruns.leads_stop start
  obtain ⟨ls, hrun⟩ := System.Leads.exists_run (hleads.trans hleads')
  exact ⟨ls, s, hrun, hstop, hgen⟩

end TelemetryState

end RaceConditionZ
