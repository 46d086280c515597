import RaceConditionZ.Proofs.ProgramMoves
import RaceConditionZ.Proofs.Tick

/-!
# The two sides in the program

Every run of the program is one of the telemetry side and one of the race-control side, so that what
holds of either in all its runs holds in the program. For the telemetry side `set_lap` comes with
`update`; the consumer may run between the two, and does not look at the lap. For the race-control
side the tick comes with `update`, and a stop that is requested in the middle of a tick only after
it.
-/

namespace RaceConditionZ

open Transition

namespace ProgramState

variable {θ : Type}

section Telemetry

/-- The pipeline with the lap whose `set_lap` is to come. -/
def lapSet (s : ProgramState θ) (pipeline : PipelineState ℚ) : PipelineState ℚ :=
  if s.pc = .setLap then pipeline.setLap s.generator.raceLap else pipeline

/-- The state of the telemetry side: a lap whose `set_lap` is to come is set. -/
def telemetrySide (s : ProgramState θ) : TelemetryState θ :=
  { s.telemetry with pipeline := s.lapSet s.pipeline }

theorem telemetrySide_of_ne {s : ProgramState θ} (hpc : s.pc ≠ .setLap) :
    s.telemetrySide = s.telemetry := by
  unfold telemetrySide lapSet
  rw [if_neg hpc]
  rfl

theorem step_lapSet (s : ProgramState θ) {l : PipelineLabel ℚ} {p p' : PipelineState ℚ}
    (hst : p.step l = some p') : (s.lapSet p).step l = some (s.lapSet p') := by
  unfold lapSet
  split
  · exact PipelineState.step_setLap hst _
  · exact hst

variable [DecidableEq θ] {tid : θ} {s s' : ProgramState θ}

/-- The callback past its first poll writes what is its own, and does not leave `run`. -/
theorem callback_frame {c c' : RaceControlState} {l : ProgramLabel} {k : RaceControlLabel}
    (hl : l.inCallback = some k) (hst : c.step k = some c') :
    c' = { c with
        pc := c'.pc
        pool := c'.pool
        futures := c'.futures
        enforcer := c'.enforcer
        submissions := c'.submissions } ∧ c'.pc ≠ .returned := by
  have hk := l.onCallback_of_inCallback hl
  cases RaceControlState.move_of_step hst with
  | @skip w kind hpc => exact ⟨rfl, kind.after_ne_returned⟩
  | callSubmit hpc _ _ => exact ⟨rfl, by simp⟩
  | submit hpc _ => exact ⟨rfl, by simp [hpc]⟩
  | @assign w kind hpc _ => exact ⟨rfl, kind.after_ne_returned⟩
  | callProcess hpc _ => exact ⟨rfl, by simp⟩
  | enforce hpc _ _ => exact ⟨rfl, by simp [hpc]⟩
  | back hpc _ => exact ⟨rfl, by simp⟩
  | _ => simp at hk

/-- Outside the end of a tick the generator's thread leaves board, lap and stop alone. -/
theorem generate_frame {t t' : TelemetryState θ} {x : DriverInput} (hpc : t.pc ≠ .drive [])
    (hst : t.generate tid x = some t') :
    t'.stop = t.stop ∧ t'.board = t.board
      ∧ t'.pipeline.race.currentLap = t.pipeline.race.currentLap := by
  unfold TelemetryState.generate at hst
  split at hst
  · split at hst <;> obtain rfl := Option.some.inj hst <;> exact ⟨rfl, rfl, rfl⟩
  · unfold TelemetryState.drive at hst
    rw [Option.map_eq_some_iff] at hst
    obtain ⟨pipeline, hpipeline, rfl⟩ := hst
    exact ⟨rfl, rfl, PipelineState.step_currentLap hpipeline⟩
  · rw [Option.bind_eq_some_iff] at hst
    obtain ⟨p, -, hst⟩ := hst
    split at hst
    · obtain rfl := Option.some.inj hst
      exact ⟨rfl, rfl, rfl⟩
    · rw [Option.map_eq_some_iff] at hst
      obtain ⟨pipeline, hpipeline, rfl⟩ := hst
      exact ⟨rfl, rfl, PipelineState.step_currentLap hpipeline⟩
  · exact absurd ‹_› hpc
  · cases hst

theorem telemetry_withTelemetry {t : TelemetryState θ} {x : DriverInput}
    (hpc : s.telemetry.pc ≠ .drive []) (hst : s.telemetry.generate tid x = some t) :
    (s.withTelemetry t).telemetrySide = t := by
  obtain ⟨hstop, hboard, -⟩ := generate_frame hpc hst
  rw [telemetrySide_of_ne (RunPc.ofGenerator_ne_setLap t.pc)]
  unfold telemetry withTelemetry
  rw [← show t.stop = s.main.stop from hstop, ← show t.board = s.board from hboard]
  simp only [RunPc.generator_ofGenerator]

omit [DecidableEq θ] in
/-- The main thread's part in the telemetry side is that of the two calls of `stop`. -/
theorem ConsoleMove.on_telemetry (hmove : s.ConsoleMove s') :
    s'.telemetrySide = s.telemetrySide ∨ s.telemetrySide.main = some s'.telemetrySide := by
  have hstay : ∀ {main : ConsolePc}, main.stop = s.main.stop →
      ({ s with main := main } : ProgramState θ).telemetrySide = s.telemetrySide := by
    intro main hstop
    unfold telemetrySide telemetry lapSet
    simp only [hstop]
  have hstopping : ∀ {l : PipelineLabel ℚ} {pipeline : PipelineState ℚ} {main : ConsolePc},
      s.main.stop = .returned → main.stop = .returned →
      l = (if s.pipeline.stop = .notCalled then .requestStop else .join) →
      s.pipeline.step l = some pipeline → s.telemetrySide.main
        = some ({ s with pipeline := pipeline, main := main } : ProgramState θ).telemetrySide := by
    intro l pipeline main hstop hmain hl hst
    have hcall : (s.lapSet s.pipeline).stop = s.pipeline.stop := by
      unfold lapSet
      split <;> rfl
    simp only [TelemetryState.main, telemetrySide, telemetry, hstop, hcall, ← hl,
      s.step_lapSet hst, Option.map_some, hmain]
    rfl
  cases hmove with
  | stopGenerator hmain =>
    refine .inr ?_
    simp only [TelemetryState.main, telemetrySide, telemetry, hmain, ConsolePc.stop]
    rfl
  | joinGenerator hmain hpc =>
    refine .inr ?_
    simp only [TelemetryState.main, telemetrySide, telemetry, hmain, ConsolePc.stop, hpc,
      RunPc.generator, if_true, lapSet]
  | stopConsumer hmain hst =>
    refine .inr (hstopping (by rw [hmain]; rfl) rfl ?_ hst)
    simp only [PipelineState.step, Option.ite_none_right_eq_some] at hst
    rw [if_pos hst.1.1]
  | joinConsumer hmain hst =>
    refine .inr (hstopping (by rw [hmain]; rfl) rfl ?_ hst)
    simp only [PipelineState.step, Option.ite_none_right_eq_some] at hst
    rw [if_neg (by rw [hst.1]; decide)]
  | leave hmain | stay hmain | empty hmain _ | snapshot hmain _ | getLap hmain | getWeather hmain
  | getGrip hmain | row hmain | finalSnapshot hmain | classified hmain | fastestHolder hmain _ _
  | noFastest hmain _ => exact .inl (hstay (by rw [hmain]; rfl))
  | shown hmain | finalLap hmain | classify hmain | fastestTime hmain =>
    exact .inl (hstay (by rw [hmain]; rfl))
  | destroy _ _ => exact .inl rfl

/-- A step of the program is one of the telemetry side, or none of it. -/
theorem Move.on_telemetry {l : ProgramLabel} (hmove : s.Move tid l s') :
    s'.telemetrySide = s.telemetrySide
      ∨ ∃ k, s.telemetrySide.step tid k = some s'.telemetrySide := by
  cases hmove with
  | @leave x hpc hleave =>
    refine .inr ⟨.generate x, ?_⟩
    rw [telemetrySide_of_ne (by rw [hpc]; simp), telemetrySide_of_ne (by simp)]
    simp only [TelemetryState.step, TelemetryState.generate, telemetry, hpc, RunPc.generator,
      if_pos hleave]
  | @enter x hpc hstop hdown =>
    refine .inr ⟨.generate x, ?_⟩
    rw [telemetrySide_of_ne (by rw [hpc]; simp), telemetrySide_of_ne (by simp)]
    simp [TelemetryState.step, TelemetryState.generate, telemetry, hpc, RunPc.generator, hstop,
      hdown]
  | @push x rest t hpc hst =>
    have hdrive : s.telemetry.pc ≠ .drive [] := by simp [telemetry, hpc, RunPc.generator]
    refine .inr ⟨.generate x, ?_⟩
    rw [telemetrySide_of_ne (by rw [hpc]; simp), telemetry_withTelemetry hdrive hst]
    exact hst
  | @drive x i rest t hpc hst =>
    have hdrive : s.telemetry.pc ≠ .drive [] := by simp [telemetry, hpc, RunPc.generator]
    refine .inr ⟨.generate x, ?_⟩
    have hside := telemetry_withTelemetry hdrive hst
    rw [telemetrySide_of_ne (by rw [hpc]; simp)]
    exact hst.trans (congrArg some hside.symm)
  | @publish x board hpc hboard =>
    refine .inr ⟨.generate x, ?_⟩
    rw [telemetrySide_of_ne (by rw [hpc]; simp)]
    simp only [TelemetryState.step, TelemetryState.generate, telemetry, hpc,
      RunPc.generator, TelemetryState.publish, hboard, Option.map_some]
    rfl
  | setLap hpc =>
    refine .inl ?_
    unfold telemetrySide lapSet telemetry
    simp only [hpc, if_true]
    rfl
  | @callback l k c hl hpc hst =>
    obtain ⟨hframe, hpc'⟩ := callback_frame hl hst
    have hgen : (RunPc.ofCallback c.pc).generator = s.pc.generator := by
      rw [RunPc.generator_of_inCallback hpc, RunPc.generator_ofCallback hpc']
    refine .inl ?_
    rw [telemetrySide_of_ne (RunPc.ofCallback_ne_setLap c.pc),
      telemetrySide_of_ne (RunPc.ne_setLap_of_inCallback hpc)]
    unfold telemetry withCallback
    simp only [hgen]
  | @consume spurious pipeline hst =>
    refine .inr ⟨.consume spurious, ?_⟩
    simp only [TelemetryState.step, telemetrySide, s.step_lapSet hst, Option.map_some]
    rfl
  | worker hst => exact .inl rfl
  | spurious hst => exact .inl rfl
  | console hmove =>
    rcases hmove.on_telemetry with heq | hst
    · exact .inl heq
    · exact .inr ⟨.main, hst⟩

theorem telemetry_reachable {start : TelemetryGenerator}
    (h : (programSystem tid start).Reachable s) :
    (telemetrySystem tid start).Reachable s.telemetrySide :=
  h.map (A := telemetrySystem tid start) (f := telemetrySide) rfl
    fun _ hst => (move_of_step hst).on_telemetry

end Telemetry

section Invariant

/-- Where the loop of `tick` stands. -/
def TickOk (start : TelemetryGenerator) (s : ProgramState θ) : RunPc → Prop
  | .drive rest | .push rest => (start.ticks s.inputs).raceFinished = false
    ∧ ∃ turned, turned ++ rest = List.finRange 20
      ∧ s.generator = turned.foldl (fun g i => g.tickDriver s.input i) (start.ticks s.inputs)
  | _ => s.generator = start.ticks s.inputs

structure ProgramInv (start : TelemetryGenerator) (s : ProgramState θ) : Prop where
  tick : s.TickOk start s.pc
  counter : s.tickCounter + (if s.pc = .setLap then 1 else 0) = s.inputs.length
  joined : s.main.stop = .returned → s.pc = .returned

variable {start : TelemetryGenerator} {s s' : ProgramState θ}

theorem ProgramInv.generator (h : s.ProgramInv start) (hpc : s.pc.inTick = false) :
    s.generator = start.ticks s.inputs := by
  have htick := h.tick
  unfold TickOk at htick
  split at htick
  · rename_i hdrive
    rw [hdrive] at hpc
    cases hpc
  · rename_i hpush
    rw [hpush] at hpc
    cases hpc
  · exact htick

theorem ProgramInv.inTick (h : s.ProgramInv start) {rest : List (Fin 20)}
    (hpc : s.pc = .drive rest ∨ s.pc = .push rest) :
    (start.ticks s.inputs).raceFinished = false
      ∧ ∃ turned, turned ++ rest = List.finRange 20
        ∧ s.generator = turned.foldl (fun g i => g.tickDriver s.input i)
          (start.ticks s.inputs) := by
  have htick := h.tick
  rcases hpc with hpc | hpc <;> rw [hpc] at htick <;> exact htick

variable [DecidableEq θ] {tid : θ}

omit [DecidableEq θ] in
theorem tickOk_of_generator (hpc : s.pc.inTick = false) (h : s.generator = start.ticks s.inputs) :
    s.TickOk start s.pc := by
  unfold TickOk
  split
  · rename_i hdrive
    rw [hdrive] at hpc
    cases hpc
  · rename_i hpush
    rw [hpush] at hpc
    cases hpc
  · exact h

omit [DecidableEq θ] in
/-- Another thread's step. -/
theorem ProgramInv.of_same (h : s.ProgramInv start) (hgen : s'.generator = s.generator)
    (hpc : s'.pc = s.pc) (hinputs : s'.inputs = s.inputs) (hinput : s'.input = s.input)
    (hcounter : s'.tickCounter = s.tickCounter)
    (hjoined : s'.main.stop = .returned → s.pc = .returned) : s'.ProgramInv start := by
  refine ⟨?_, ?_, fun hstop => hpc ▸ hjoined hstop⟩
  · have htick := h.tick
    unfold TickOk at htick ⊢
    rw [hpc, hgen, hinputs, hinput]
    exact htick
  · rw [hcounter, hpc, hinputs]
    exact h.counter

theorem ProgramInv.drive {x : DriverInput} {i : Fin 20} {rest : List (Fin 20)}
    {t : TelemetryState θ} (h : s.ProgramInv start) (hpc : s.pc = .drive (i :: rest))
    (hst : s.telemetry.generate tid x = some t) :
    ProgramInv start { s.withTelemetry t with input := Function.update s.input i x } := by
  obtain ⟨hdown, turned, hturned, hgen⟩ := h.inTick (.inl hpc)
  have htpc₀ : s.telemetry.pc = .drive (i :: rest) := by
    simp only [telemetry, hpc, RunPc.generator]
  obtain ⟨htgen, htpc⟩ := drive_generator htpc₀ hst
  have hnodup : (turned ++ i :: rest).Nodup := by
    rw [hturned]
    exact List.nodup_finRange 20
  have hi : i ∉ turned := fun hi => (List.nodup_append.1 hnodup).2.2 i hi i List.mem_cons_self rfl
  have hpc' : RunPc.ofGenerator t.pc = .push rest := by rw [htpc]; rfl
  refine ⟨?_, ?_, fun hstop => ?_⟩
  · simp only [withTelemetry, hpc']
    refine ⟨hdown, turned ++ [i], by rw [List.append_assoc, List.singleton_append, hturned], ?_⟩
    rw [htgen, show s.telemetry.generator = s.generator from rfl, hgen]
    exact TelemetryGenerator.foldl_tickDriver_concat _ _ hi x
  · have hcounter := h.counter
    rw [hpc] at hcounter
    simp only [withTelemetry, hpc']
    exact hcounter
  · have hret := h.joined hstop
    rw [hpc] at hret
    cases hret

omit [DecidableEq θ] in
theorem ProgramInv.publish (h : s.ProgramInv start) (hpc : s.pc = .drive [])
    (board : Leaderboard θ) : ProgramInv start { s with
      generator := s.generator.updatePositionsAndDrs
      pc := .setLap
      board := board
      inputs := s.inputs ++ [s.input] } := by
  obtain ⟨-, turned, hturned, hgen⟩ := h.inTick (.inl hpc)
  rw [List.append_nil] at hturned
  refine ⟨?_, ?_, fun hstop => ?_⟩
  · show s.generator.updatePositionsAndDrs = start.ticks (s.inputs ++ [s.input])
    rw [TelemetryGenerator.ticks_concat, hgen, hturned]
    rfl
  · have hcounter := h.counter
    simp only [hpc, reduceCtorEq, if_false, if_true, List.length_append,
      List.length_singleton] at hcounter ⊢
    omega
  · have hret := h.joined hstop
    rw [hpc] at hret
    cases hret

omit [DecidableEq θ] in
theorem ProgramInv.console (h : s.ProgramInv start) (hmove : s.ConsoleMove s') :
    s'.ProgramInv start := by
  cases hmove with
  | joinGenerator hmain hpc => exact h.of_same rfl rfl rfl rfl rfl fun _ => hpc
  | destroy hmain hst => exact h.of_same rfl rfl rfl rfl rfl h.joined
  | leave hmain | stay hmain | empty hmain _ | snapshot hmain _ | getLap hmain | getWeather hmain
  | getGrip hmain | row hmain | shown hmain | stopGenerator hmain | stopConsumer hmain _
  | joinConsumer hmain _ | finalLap hmain | finalSnapshot hmain | classify hmain
  | classified hmain | fastestHolder hmain _ _ | noFastest hmain _ | fastestTime hmain =>
    refine h.of_same rfl rfl rfl rfl rfl fun hstop => h.joined ?_
    rw [hmain]
    first | rfl | cases hstop

theorem ProgramInv.move {l : ProgramLabel} (h : s.ProgramInv start) (hmove : s.Move tid l s') :
    s'.ProgramInv start := by
  cases hmove with
  | leave hpc _ =>
    have hgen := h.generator (by rw [hpc]; rfl)
    have hcounter := h.counter
    rw [hpc] at hcounter
    exact ⟨hgen, hcounter, fun _ => rfl⟩
  | enter hpc hstop hdown =>
    have hgen := h.generator (by rw [hpc]; rfl)
    have hcounter := h.counter
    rw [hpc] at hcounter
    refine ⟨⟨by rw [← hgen]; exact hdown, [], List.nil_append _, hgen⟩, hcounter, fun hstop' => ?_⟩
    rw [show s.main.stop = .returned from hstop'] at hstop
    cases hstop
  | @push x rest t hpc hst =>
    have htpc₀ : s.telemetry.pc = .push rest := by simp only [telemetry, hpc, RunPc.generator]
    obtain ⟨hgen, -, htpc⟩ := push_generator htpc₀ hst
    have htick := h.inTick (.inr hpc)
    have hcounter := h.counter
    rw [hpc] at hcounter
    have hnot : s.main.stop ≠ .returned := fun hstop => by
      have hret := h.joined hstop
      rw [hpc] at hret
      cases hret
    have hpc' : RunPc.ofGenerator t.pc = .push rest ∨ RunPc.ofGenerator t.pc = .drive rest := by
      rcases htpc with htpc | htpc <;> rw [htpc]
      · exact .inl rfl
      · exact .inr rfl
    rw [← show t.generator = s.generator from hgen] at htick
    rcases hpc' with hpc' | hpc' <;>
      refine ⟨?_, ?_, fun hstop => absurd hstop hnot⟩ <;> simp only [withTelemetry, hpc']
    · exact htick
    · exact hcounter
    · exact htick
    · exact hcounter
  | drive hpc hst => exact h.drive hpc hst
  | publish hpc _ => exact h.publish hpc _
  | setLap hpc =>
    have hgen := h.generator (by rw [hpc]; rfl)
    have hcounter := h.counter
    rw [hpc] at hcounter
    refine ⟨hgen, hcounter, fun hstop => ?_⟩
    have hret := h.joined hstop
    rw [hpc] at hret
    cases hret
  | @callback l k c hl hpc hst =>
    have hgen := h.generator (RunPc.inTick_of_inCallback hpc)
    have hcounter := h.counter
    rw [if_neg (RunPc.ne_setLap_of_inCallback hpc)] at hcounter
    refine ⟨tickOk_of_generator (RunPc.inTick_ofCallback c.pc) hgen, ?_, fun hstop => ?_⟩
    · exact (congrArg _ (if_neg (RunPc.ofCallback_ne_setLap c.pc))).trans hcounter
    · have hret := h.joined hstop
      rw [hret] at hpc
      cases hpc
  | consume _ | worker _ | spurious _ => exact h.of_same rfl rfl rfl rfl rfl h.joined
  | console hmove => exact h.console hmove

theorem programInv (h : (programSystem tid start).Reachable s) : s.ProgramInv start :=
  h.invariant ⟨rfl, rfl, fun hstop => by cases hstop⟩
    fun _ hinv _ hst => hinv.move (move_of_step hst)

end Invariant

section RaceControl

theorem Leaderboard.standings_of_update {θ : Type} [DecidableEq θ] {b b' : Leaderboard θ} {tid : θ}
    {sorted : List DriverState} (h : b.update tid sorted = some b') : b'.standings = sorted := by
  unfold Leaderboard.update at h
  obtain ⟨b₁, -, rfl⟩ := Option.map_eq_some_iff.1 h
  rfl

/-- A worker does not look at the generator, the counter and the main thread. -/
theorem worker_of_elsewhere {c c' : RaceControlState} {w : Fin 2} {coin : ℚ} {now : ℤ}
    (hst : c.worker w coin now = some c') (g : TelemetryGenerator) (n : ℕ) (m : MainPc) :
    ({ c with generator := g, tickCounter := n, main := m } : RaceControlState).worker w coin now
      = some { c' with generator := g, tickCounter := n, main := m } := by
  unfold RaceControlState.worker at hst ⊢
  simp only
  split at hst
  · rename_i task hw hjob
    obtain ⟨pool, hpool, rfl⟩ := Option.map_eq_some_iff.1 hst
    exact Option.map_eq_some_iff.2 ⟨pool, hpool, rfl⟩
  · rename_i task hw hjob
    obtain rfl := Option.some.inj hst
    rfl
  · rename_i task hw hready hret
    unfold RaceControlState.runJob at hst ⊢
    simp only
    split at hst
    · split at hst <;> obtain rfl := Option.some.inj hst <;> rfl
    · obtain rfl := Option.some.inj hst
      rfl
    · obtain rfl := Option.some.inj hst
      rfl
    · obtain rfl := Option.some.inj hst
      rfl
    · obtain rfl := Option.some.inj hst
      rfl
    · obtain rfl := Option.some.inj hst
      rfl
    · cases hst
  · obtain ⟨pool, hpool, rfl⟩ := Option.map_eq_some_iff.1 hst
    refine Option.map_eq_some_iff.2 ⟨pool, hpool, ?_⟩
    split <;> rfl

/-- What a worker writes. -/
theorem worker_frame {c c' : RaceControlState} {w : Fin 2} {coin : ℚ} {now : ℤ}
    (hst : c.worker w coin now = some c') :
    c' = { c with
      pool := c'.pool
      ready := c'.ready
      jobs := c'.jobs
      weather := c'.weather
      enforcer := c'.enforcer
      detected := c'.detected } := by
  have hmove := RaceControlState.move_of_worker hst
  clear hst
  cases hmove with
  | enforce | detect | job | makeReady | finish | lock => rfl

variable {θ : Type}

/-- The state of the race-control side: a tick in progress has not begun, and a stop requested
meanwhile is to come. -/
def raceControlSide (start : TelemetryGenerator) (s : ProgramState θ) : RaceControlState :=
  { s.raceControl with
    generator := start.ticks s.inputs
    tickCounter := s.inputs.length
    main := if s.pc.inTick then .racing else s.main.ending }

variable {start : TelemetryGenerator} {s s' : ProgramState θ}

/-- With no tick in progress and no `set_lap` to come nothing is put off. -/
theorem ProgramInv.raceControlSide_eq (h : s.ProgramInv start) (hset : s.pc ≠ .setLap)
    (hin : s.pc.inTick = false) : s.raceControlSide start = s.raceControl := by
  have hcounter := h.counter
  rw [if_neg hset] at hcounter
  unfold raceControlSide
  rw [← h.generator hin, ← hcounter, hin]
  rfl

theorem stop_eq_notCalled_iff {main : ConsolePc} :
    main.stop = .notCalled ↔ main.ending.isRacing = true := by
  cases main <;> simp [ConsolePc.stop, ConsolePc.ending, MainPc.isRacing]

/-- The steps of the main thread on the race-control side. -/
theorem ConsoleMove.on_raceControl (h : s.ProgramInv start) (hmove : s.ConsoleMove s') :
    s'.raceControlSide start = s.raceControlSide start
      ∨ (s.raceControlSide start).step .main = some (s'.raceControlSide start) := by
  have hstay : ∀ {main : ConsolePc}, main.ending = s.main.ending →
      ({ s with main := main } : ProgramState θ).raceControlSide start
        = s.raceControlSide start := by
    intro main hending
    unfold raceControlSide raceControl
    simp only [hending]
  have hpast : s.main.stop = .returned → s.pc = .returned
      ∧ (s.raceControlSide start).main = s.main.ending := by
    intro hstop
    have hret := h.joined hstop
    unfold raceControlSide
    rw [hret]
    exact ⟨rfl, rfl⟩
  cases hmove with
  | stopGenerator hmain =>
    unfold raceControlSide raceControl
    rcases hin : s.pc.inTick with _ | _
    · refine .inr ?_
      simp only [RaceControlState.step, RaceControlState.mainStep, hmain, ConsolePc.ending,
        Bool.false_eq_true, if_false]
    · exact .inl rfl
  | finalSnapshot hmain =>
    obtain ⟨hret, hending⟩ := hpast (by rw [hmain]; rfl)
    rw [hmain] at hending
    refine .inr ?_
    simp only [RaceControlState.step, RaceControlState.mainStep, hending, ConsolePc.ending]
    unfold raceControlSide raceControl
    simp only [hret, RunPc.callback, if_true]
    rfl
  | classify hmain =>
    obtain ⟨hret, hending⟩ := hpast (by rw [hmain]; rfl)
    rw [hmain] at hending
    refine .inr ?_
    simp only [RaceControlState.step, RaceControlState.mainStep, hending, ConsolePc.ending]
    unfold raceControlSide raceControl
    simp only [hret]
    rfl
  | noFastest hmain _ | fastestTime hmain =>
    obtain ⟨hret, hending⟩ := hpast (by rw [hmain]; rfl)
    rw [hmain] at hending
    refine .inr ?_
    simp only [RaceControlState.step, RaceControlState.mainStep, hending, ConsolePc.ending]
    unfold raceControlSide raceControl
    simp only [hret]
    rfl
  | destroy hmain hst =>
    obtain ⟨hret, hending⟩ := hpast (by rw [hmain]; rfl)
    rw [hmain] at hending
    refine .inr ?_
    simp only [RaceControlState.step, RaceControlState.mainStep, hending, ConsolePc.ending]
    refine Option.map_eq_some_iff.2 ⟨_, hst, ?_⟩
    unfold raceControlSide raceControl
    simp only [hret, hmain]
    rfl
  | leave hmain | stay hmain | empty hmain _ | snapshot hmain _ | getLap hmain | getWeather hmain
  | getGrip hmain | row hmain | joinGenerator hmain _ | classified hmain
  | fastestHolder hmain _ _ => exact .inl (hstay (by rw [hmain]; rfl))
  | shown hmain | stopConsumer hmain _ | joinConsumer hmain _ | finalLap hmain =>
    exact .inl (hstay (by rw [hmain]; rfl))

variable [DecidableEq θ] {tid : θ}

/-- The tick with its callback, where the board is published. -/
theorem ProgramInv.leads_publish (h : s.ProgramInv start) (hpc : s.pc = .drive [])
    {board : Leaderboard θ}
    (hboard : s.board.update tid s.generator.updatePositionsAndDrs.standings = some board) :
    (raceControlSystem start).Leads (s.raceControlSide start)
      (({ s with
        generator := s.generator.updatePositionsAndDrs
        pc := .setLap
        board := board
        inputs := s.inputs ++ [s.input] } : ProgramState θ).raceControlSide start) := by
  obtain ⟨hdown, -⟩ := h.inTick (.inl hpc)
  have hgen : s.generator.updatePositionsAndDrs = (start.ticks s.inputs).tick s.input := by
    rw [← TelemetryGenerator.ticks_concat]
    exact (h.publish hpc board).generator rfl
  have hstandings : board.standings = ((start.ticks s.inputs).tick s.input).standings := by
    rw [← hgen]
    exact Leaderboard.standings_of_update hboard
  have hside : ({ s with
      generator := s.generator.updatePositionsAndDrs
      pc := .setLap
      board := board
      inputs := s.inputs ++ [s.input] } : ProgramState θ).raceControlSide start
      = { s.raceControl with
        generator := (start.ticks s.inputs).tick s.input
        board := ((start.ticks s.inputs).tick s.input).standings
        tickCounter := s.inputs.length + 1
        pc := .poll .check
        inputs := s.inputs ++ [s.input] } := by
    unfold raceControlSide raceControl
    simp only [hstandings, TelemetryGenerator.ticks_concat, List.length_append,
      List.length_singleton]
    rfl
  have htick : (raceControlSystem start).step (s.raceControlSide start) (.tick s.input)
      = some { s.raceControl with
        generator := (start.ticks s.inputs).tick s.input
        board := ((start.ticks s.inputs).tick s.input).standings
        tickCounter := s.inputs.length + 1
        pc := .poll .check
        main := .racing
        inputs := s.inputs ++ [s.input] } := by
    simp only [raceControlSystem, RaceControlState.step, RaceControlState.tick,
      RaceControlState.leaves, raceControlSide, raceControl, hpc, RunPc.callback, RunPc.inTick,
      if_true, MainPc.isRacing, hdown, Bool.not_true, Bool.or_self, Bool.false_eq_true, if_false]
  rw [hside]
  rcases hmain : s.main.ending with _ | _ | rest | _
  · have hsame : s.raceControl.main = .racing := hmain
    rw [← hsame] at htick
    exact .single ⟨_, htick⟩
  · -- the stop was requested during the tick
    have hsame : s.raceControl.main = .joining := hmain
    refine .head ⟨_, htick⟩ (.single ⟨.main, ?_⟩)
    simp only [raceControlSystem, RaceControlState.step, RaceControlState.mainStep, hsame]
  · have hstop : s.main.stop = .returned := by
      cases hs : s.main <;> rw [hs] at hmain <;> first | rfl | cases hmain
    have hret := h.joined hstop
    rw [hpc] at hret
    cases hret
  · have hstop : s.main.stop = .returned := by
      cases hs : s.main <;> rw [hs] at hmain <;> first | rfl | cases hmain
    have hret := h.joined hstop
    rw [hpc] at hret
    cases hret

/-- A step of the program is one of the race-control side, or two, or none of it. -/
theorem Move.on_raceControl (h : s.ProgramInv start) {l : ProgramLabel} (hmove : s.Move tid l s') :
    (raceControlSystem start).Leads (s.raceControlSide start) (s'.raceControlSide start) := by
  cases hmove with
  | @leave x hpc hleave =>
    have hgen := h.generator (by rw [hpc]; rfl)
    refine .single ⟨.tick (fun _ => x), ?_⟩
    have hleaves : (s.raceControlSide start).leaves = true := by
      rw [ne_eq, stop_eq_notCalled_iff, Bool.not_eq_true, hgen] at hleave
      simp only [RaceControlState.leaves, raceControlSide, hpc, RunPc.inTick, Bool.false_eq_true,
        if_false, Bool.or_eq_true, Bool.not_eq_true']
      exact hleave
    have hside : (s.raceControlSide start).pc = .testStop := by
      simp only [raceControlSide, raceControl, hpc, RunPc.callback]
    simp only [raceControlSystem, RaceControlState.step, RaceControlState.tick, hside, hleaves,
      if_true]
    unfold raceControlSide raceControl
    simp only [hpc]
    rfl
  | enter hpc hstop hdown =>
    have hracing : s.main.ending = .racing := by
      have hracing := stop_eq_notCalled_iff.1 hstop
      rcases hending : s.main.ending with _ | _ | _ | _ <;> rw [hending] at hracing <;>
        first | rfl | cases hracing
    refine System.Leads.of_eq ?_
    unfold raceControlSide raceControl
    simp only [hpc, hracing]
    rfl
  | @push x rest t hpc hst =>
    have htpc₀ : s.telemetry.pc = .push rest := by simp only [telemetry, hpc, RunPc.generator]
    obtain ⟨-, -, htpc⟩ := push_generator htpc₀ hst
    refine System.Leads.of_eq ?_
    unfold raceControlSide raceControl withTelemetry
    rcases htpc with htpc | htpc <;> simp only [hpc, htpc] <;> rfl
  | @drive x i rest t hpc hst =>
    have htpc₀ : s.telemetry.pc = .drive (i :: rest) := by
      simp only [telemetry, hpc, RunPc.generator]
    obtain ⟨-, htpc⟩ := drive_generator htpc₀ hst
    refine System.Leads.of_eq ?_
    unfold raceControlSide raceControl withTelemetry
    simp only [hpc, htpc]
    rfl
  | publish hpc hboard => exact h.leads_publish hpc hboard
  | setLap hpc =>
    refine System.Leads.of_eq ?_
    unfold raceControlSide raceControl
    simp only [hpc]
    rfl
  | @callback l k c hl hpc hst =>
    obtain ⟨hframe, -⟩ := callback_frame hl hst
    have hside : (s.withCallback c).raceControlSide start = c := by
      have hgen := h.generator (RunPc.inTick_of_inCallback hpc)
      have hcounter := h.counter
      rw [if_neg (RunPc.ne_setLap_of_inCallback hpc), Nat.add_zero] at hcounter
      conv_rhs => rw [hframe]
      unfold raceControlSide raceControl withCallback
      simp only [RunPc.callback_ofCallback, RunPc.inTick_ofCallback, ← hgen, ← hcounter]
      rfl
    rw [h.raceControlSide_eq (RunPc.ne_setLap_of_inCallback hpc)
      (RunPc.inTick_of_inCallback hpc), hside]
    exact .single ⟨k, hst⟩
  | @worker w coin now c hst =>
    refine .single ⟨.worker w coin now, ?_⟩
    have hside : (s.withWorker c).raceControlSide start = { c with
        generator := start.ticks s.inputs
        tickCounter := s.inputs.length
        main := if s.pc.inTick then .racing else s.main.ending } := by
      conv_rhs => rw [worker_frame hst]
      rfl
    rw [hside]
    exact worker_of_elsewhere hst _ _ _
  | @spurious w pool hst =>
    exact .single ⟨.spurious w, Option.map_eq_some_iff.2 ⟨pool, hst, rfl⟩⟩
  | consume _ => exact .refl
  | console hmove =>
    rcases hmove.on_raceControl h with heq | hst
    · exact System.Leads.of_eq heq.symm
    · exact .single ⟨.main, hst⟩

theorem raceControl_reachable (h : (programSystem tid start).Reachable s) :
    (raceControlSystem start).Reachable (s.raceControlSide start) := by
  obtain ⟨c, hc, rfl⟩ := h.simulated (A := raceControlSystem start)
    (R := fun s c => s.raceControlSide start = c) rfl
    (fun {s l s' c} hs _ hR hst => ⟨s'.raceControlSide start,
      hR ▸ (move_of_step hst).on_raceControl (programInv hs), rfl⟩)
  exact hc

theorem raceControl_leads (h : (programSystem tid start).Reachable s)
    (hl : (programSystem tid start).Leads s s') :
    (raceControlSystem start).Leads (s.raceControlSide start) (s'.raceControlSide start) := by
  induction hl with
  | refl => exact .refl
  | tail hl hst ih =>
    obtain ⟨l, hst⟩ := hst
    exact ih.trans ((move_of_step hst).on_raceControl (programInv (h.leads hl)))

theorem telemetry_leads (hl : (programSystem tid start).Leads s s') :
    (telemetrySystem tid start).Leads s.telemetrySide s'.telemetrySide := by
  induction hl with
  | refl => exact .refl
  | tail _ hst ih =>
    obtain ⟨l, hst⟩ := hst
    rcases (move_of_step hst).on_telemetry with heq | hside
    · exact ih.trans (System.Leads.of_eq heq.symm)
    · exact ih.tail hside

/-- The program refines both of its sides: each goes through a run of its own, and outside the tick
and its two publications it is what it is in the program. -/
theorem program_refines (h : (programSystem tid start).Reachable s)
    (hl : (programSystem tid start).Leads s s') :
    ((telemetrySystem tid start).Reachable s.telemetrySide
        ∧ (telemetrySystem tid start).Leads s.telemetrySide s'.telemetrySide
        ∧ (s'.pc ≠ .setLap → s'.telemetrySide = s'.telemetry))
      ∧ (raceControlSystem start).Reachable (s.raceControlSide start)
        ∧ (raceControlSystem start).Leads (s.raceControlSide start) (s'.raceControlSide start)
        ∧ (s'.pc ≠ .setLap → s'.pc.inTick = false →
          s'.raceControlSide start = s'.raceControl) := by
  refine ⟨⟨telemetry_reachable h, telemetry_leads hl, telemetrySide_of_ne⟩,
    raceControl_reachable h, raceControl_leads h hl, fun hset hin => ?_⟩
  exact (programInv (h.leads hl)).raceControlSide_eq hset hin

/-- A stop requested in the middle of the first tick, with the tick and its callback after it. -/
def stopInTick : List ProgramLabel :=
  [List.replicate 5 (.generate ⟨0, 0⟩), [.main true, .main true],
    List.replicate 138 (.generate ⟨0, 0⟩), [.callback 0]].flatten

theorem program_refines_stopInTick :
    let start := TelemetryGenerator.init defaultTrack fun _ => 0
    let M := programSystem () start
    let s := (M.run M.init stopInTick).get (by decide +kernel)
    s.inputs.length = 1 ∧ s.main.stop = .requested ∧ s.raceControlSide start = s.raceControl
      ∧ (raceControlSystem start).Reachable (s.raceControlSide start) := by
  intro start M s
  have hs : M.Reachable s := System.reachable_get stopInTick (by decide +kernel)
  obtain ⟨-, hreach, -, hside⟩ := program_refines hs .refl
  exact ⟨by decide +kernel, by decide +kernel, hside (by decide +kernel) (by decide +kernel),
    hreach⟩

end RaceControl

end ProgramState

end RaceConditionZ
