import RaceConditionZ.Program
import RaceConditionZ.Proofs.RaceControlMoves
import RaceConditionZ.Proofs.TelemetryMoves

/-!
# The steps of the program

Each step by the thread that takes it and the side it belongs to. A step of the one side leaves the
state of the other alone, so each side runs in the program as it does on its own: the telemetry side
as if `set_lap` came with `update`, the race-control side as if a tick were one step, taken where
the board is published.
-/

namespace RaceConditionZ

open Transition

namespace RunPc

@[simp]
theorem generator_ofGenerator (pc : GeneratorPc) : (ofGenerator pc).generator = pc := by
  cases pc <;> rfl

@[simp]
theorem callback_ofCallback (pc : CallbackPc) : (ofCallback pc).callback = pc := by
  cases pc <;> rfl

theorem ofGenerator_ne_setLap (pc : GeneratorPc) : ofGenerator pc ≠ .setLap := by
  cases pc <;> simp [ofGenerator]

theorem ofCallback_ne_setLap (pc : CallbackPc) : ofCallback pc ≠ .setLap := by
  cases pc <;> simp [ofCallback]

@[simp]
theorem inTick_ofCallback (pc : CallbackPc) : (ofCallback pc).inTick = false := by
  cases pc <;> rfl

/-- The callback past its first poll. -/
def inCallback : RunPc → Bool
  | .poll _ | .submit _ | .callProcess | .process => true
  | _ => false

theorem inTick_of_inCallback {pc : RunPc} (h : pc.inCallback = true) : pc.inTick = false := by
  cases pc <;> first | rfl | cases h

theorem ne_setLap_of_inCallback {pc : RunPc} (h : pc.inCallback = true) : pc ≠ .setLap := by
  rintro rfl
  cases h

theorem generator_of_inCallback {pc : RunPc} (h : pc.inCallback = true) :
    pc.generator = .testStop := by
  cases pc <;> first | rfl | cases h

theorem generator_ofCallback {pc : CallbackPc} (h : pc ≠ .returned) :
    (ofCallback pc).generator = .testStop := by
  cases pc <;> first | rfl | exact absurd rfl h

end RunPc

/-- The label of the step on the race-control side that a step of the callback is. -/
def ProgramLabel.inCallback : ProgramLabel → Option RaceControlLabel
  | .callback w => some (.callback w)
  | .drain found => some (.drain found)
  | .process now => some (.process now)
  | _ => none

theorem ProgramLabel.onCallback_of_inCallback (l : ProgramLabel) {k : RaceControlLabel}
    (hl : l.inCallback = some k) :
    (∃ w, k = .callback w) ∨ (∃ found, k = .drain found) ∨ ∃ now, k = .process now := by
  cases l <;> cases hl
  · exact .inl ⟨_, rfl⟩
  · exact .inr (.inl ⟨_, rfl⟩)
  · exact .inr (.inr ⟨_, rfl⟩)

namespace ProgramState

variable {θ : Type}

/-- The steps of the main thread. -/
inductive ConsoleMove (s : ProgramState θ) : ProgramState θ → Prop
  | leave (hmain : s.main = .testFinished) : ConsoleMove s { s with main := .stopGenerator }
  | stay (hmain : s.main = .testFinished) : ConsoleMove s { s with main := .snapshot }
  | empty (hmain : s.main = .snapshot) (hempty : s.board.standings = []) :
      ConsoleMove s { s with main := .testFinished }
  | snapshot (hmain : s.main = .snapshot) (hne : s.board.standings ≠ []) :
      ConsoleMove s { s with main := .getLap s.board.standings }
  | getLap {standings : List DriverState} (hmain : s.main = .getLap standings) :
      ConsoleMove s { s with main := .getWeather standings s.pipeline.race.currentLap }
  | getWeather {standings : List DriverState} {lap : ℤ}
      (hmain : s.main = .getWeather standings lap) :
      ConsoleMove s { s with main := .getGrip standings lap s.weather.current }
  | getGrip {standings : List DriverState} {lap : ℤ} {weather : WeatherState}
      (hmain : s.main = .getGrip standings lap weather) :
      ConsoleMove s { s with
        main := .rows ⟨lap, weather, s.weather.gripFactor, []⟩ (standings.take 10) }
  | row {screen : Screen} {entry : DriverState} {rest : List DriverState}
      (hmain : s.main = .rows screen (entry :: rest)) :
      ConsoleMove s { s with main := .rows (s.printRow screen entry) rest }
  | shown {screen : Screen} (hmain : s.main = .rows screen []) :
      ConsoleMove s { s with main := .testFinished, screens := s.screens ++ [screen] }
  | stopGenerator (hmain : s.main = .stopGenerator) :
      ConsoleMove s { s with main := .joinGenerator }
  | joinGenerator (hmain : s.main = .joinGenerator) (hpc : s.pc = .returned) :
      ConsoleMove s { s with main := .stopConsumer }
  | stopConsumer {pipeline : PipelineState ℚ} (hmain : s.main = .stopConsumer)
      (hst : s.pipeline.step .requestStop = some pipeline) :
      ConsoleMove s { s with pipeline := pipeline, main := .joinConsumer }
  | joinConsumer {pipeline : PipelineState ℚ} (hmain : s.main = .joinConsumer)
      (hst : s.pipeline.step .join = some pipeline) :
      ConsoleMove s { s with pipeline := pipeline, main := .finalLap }
  | finalLap (hmain : s.main = .finalLap) :
      ConsoleMove s { s with
        main := .finalSnapshot
        report := { s.report with lap := some s.pipeline.race.currentLap } }
  | finalSnapshot (hmain : s.main = .finalSnapshot) :
      ConsoleMove s { s with main := .classify s.board.standings }
  | classify {entry : DriverState} {rest : List DriverState}
      (hmain : s.main = .classify (entry :: rest)) :
      ConsoleMove s { s with
        main := .classify rest
        report := { s.report with standings := s.report.standings
          ++ [(entry, s.enforcer.enforcer.penaltyState entry.profile.id)] } }
  | classified (hmain : s.main = .classify []) : ConsoleMove s { s with main := .fastestHolder }
  | fastestHolder (hmain : s.main = .fastestHolder) (h0 : 0 ≤ s.pipeline.race.fastestLapHolder)
      (hlt : s.pipeline.race.fastestLapHolder < drivers.length) :
      ConsoleMove s { s with main := .fastestTime s.pipeline.race.fastestLapHolder }
  | noFastest (hmain : s.main = .fastestHolder)
      (hout : ¬ (0 ≤ s.pipeline.race.fastestLapHolder
        ∧ s.pipeline.race.fastestLapHolder < drivers.length)) :
      ConsoleMove s { s with main := .destroy }
  | fastestTime {holder : ℤ} (hmain : s.main = .fastestTime holder) :
      ConsoleMove s { s with
        main := .destroy
        report := { s.report with fastestLap := some (holder, s.pipeline.race.fastestLapMs) } }
  | destroy {pool : PoolState 2 Unit Job} (hmain : s.main = .destroy)
      (hst : s.pool.step .destroy = some pool) : ConsoleMove s { s with pool := pool }

theorem move_of_console {s s' : ProgramState θ} {timeout : Bool}
    (hst : s.console timeout = some s') : s.ConsoleMove s' := by
  unfold console at hst
  split at hst
  · rename_i hmain
    split at hst <;> obtain rfl := Option.some.inj hst
    · exact .leave hmain
    · exact .stay hmain
  · rename_i hmain
    rw [Leaderboard.snapshot] at hst
    rcases hempty : s.board.standings.isEmpty with _ | _ <;> simp only [hempty] at hst <;>
      obtain rfl := Option.some.inj hst
    · exact .snapshot hmain (by simpa using hempty)
    · exact .empty hmain (by simpa using hempty)
  · obtain rfl := Option.some.inj hst
    exact .getLap ‹_›
  · obtain rfl := Option.some.inj hst
    exact .getWeather ‹_›
  · obtain rfl := Option.some.inj hst
    exact .getGrip ‹_›
  · obtain rfl := Option.some.inj hst
    exact .row ‹_›
  · obtain rfl := Option.some.inj hst
    exact .shown ‹_›
  · obtain rfl := Option.some.inj hst
    exact .stopGenerator ‹_›
  · split at hst
    · obtain rfl := Option.some.inj hst
      exact .joinGenerator ‹_› ‹_›
    · cases hst
  · rw [Option.map_eq_some_iff] at hst
    obtain ⟨pipeline, hpipeline, rfl⟩ := hst
    exact .stopConsumer ‹_› hpipeline
  · rw [Option.map_eq_some_iff] at hst
    obtain ⟨pipeline, hpipeline, rfl⟩ := hst
    exact .joinConsumer ‹_› hpipeline
  · obtain rfl := Option.some.inj hst
    exact .finalLap ‹_›
  · obtain rfl := Option.some.inj hst
    exact .finalSnapshot ‹_›
  · obtain rfl := Option.some.inj hst
    exact .classify ‹_›
  · obtain rfl := Option.some.inj hst
    exact .classified ‹_›
  · rename_i hmain
    by_cases hin : 0 ≤ s.pipeline.race.fastestLapHolder
        ∧ s.pipeline.race.fastestLapHolder < drivers.length
    · obtain rfl := Option.some.inj ((if_pos hin).symm.trans hst)
      exact .fastestHolder hmain hin.1 hin.2
    · obtain rfl := Option.some.inj ((if_neg hin).symm.trans hst)
      exact .noFastest hmain hin
  · obtain rfl := Option.some.inj hst
    exact .fastestTime ‹_›
  · rw [Option.map_eq_some_iff] at hst
    obtain ⟨pool, hpool, rfl⟩ := hst
    exact .destroy ‹_› hpool

variable [DecidableEq θ] {tid : θ} {s s' : ProgramState θ}

/-- The steps, one for each thread and side. -/
inductive Move (tid : θ) (s : ProgramState θ) : ProgramLabel → ProgramState θ → Prop
  | leave {x : DriverInput} (hpc : s.pc = .testStop)
      (hleave : s.main.stop ≠ .notCalled ∨ s.generator.raceFinished = true) :
      Move tid s (.generate x) { s with pc := .returned }
  | enter {x : DriverInput} (hpc : s.pc = .testStop) (hstop : s.main.stop = .notCalled)
      (hdown : s.generator.raceFinished = false) :
      Move tid s (.generate x) { s with pc := .drive (List.finRange 20) }
  | push {x : DriverInput} {rest : List (Fin 20)} {t : TelemetryState θ} (hpc : s.pc = .push rest)
      (hst : s.telemetry.generate tid x = some t) : Move tid s (.generate x) (s.withTelemetry t)
  | drive {x : DriverInput} {i : Fin 20} {rest : List (Fin 20)} {t : TelemetryState θ}
      (hpc : s.pc = .drive (i :: rest)) (hst : s.telemetry.generate tid x = some t) :
      Move tid s (.generate x)
        { s.withTelemetry t with input := Function.update s.input i x }
  | publish {x : DriverInput} {board : Leaderboard θ} (hpc : s.pc = .drive [])
      (hboard : s.board.update tid s.generator.updatePositionsAndDrs.standings = some board) :
      Move tid s (.generate x) { s with
        generator := s.generator.updatePositionsAndDrs
        pc := .setLap
        board := board
        inputs := s.inputs ++ [s.input] }
  | setLap {x : DriverInput} (hpc : s.pc = .setLap) :
      Move tid s (.generate x) { s with
        pipeline := s.pipeline.setLap s.generator.raceLap
        tickCounter := s.tickCounter + 1
        pc := .poll .check }
  | callback {l : ProgramLabel} {k : RaceControlLabel} {c : RaceControlState}
      (hl : l.inCallback = some k) (hpc : s.pc.inCallback = true)
      (hst : s.raceControl.step k = some c) : Move tid s l (s.withCallback c)
  | consume {spurious : Bool} {pipeline : PipelineState ℚ}
      (hst : s.pipeline.step (.consume spurious) = some pipeline) :
      Move tid s (.consume spurious) { s with pipeline := pipeline }
  | worker {w : Fin 2} {coin : ℚ} {now : ℤ} {c : RaceControlState}
      (hst : s.raceControl.worker w coin now = some c) :
      Move tid s (.worker w coin now) (s.withWorker c)
  | spurious {w : Fin 2} {pool : PoolState 2 Unit Job}
      (hst : s.pool.step (.spurious w) = some pool) :
      Move tid s (.spurious w) { s with pool := pool }
  | console {timeout : Bool} {s' : ProgramState θ} (hmove : s.ConsoleMove s') :
      Move tid s (.main timeout) s'

/-- A step of a push leaves the generator alone. -/
theorem push_generator {t t' : TelemetryState θ} {x : DriverInput} {rest : List (Fin 20)}
    (hpc : t.pc = .push rest) (hst : t.generate tid x = some t') :
    t'.generator = t.generator ∧ t'.laps = t.laps ∧ (t'.pc = .push rest ∨ t'.pc = .drive rest) := by
  simp only [TelemetryState.generate, hpc, Option.bind_eq_some_iff] at hst
  obtain ⟨p, -, hst⟩ := hst
  split at hst
  · obtain rfl := Option.some.inj hst
    exact ⟨rfl, rfl, .inr rfl⟩
  · rw [Option.map_eq_some_iff] at hst
    obtain ⟨pipeline, -, rfl⟩ := hst
    exact ⟨rfl, rfl, .inl rfl⟩

/-- The turn of a driver. -/
theorem drive_generator {t t' : TelemetryState θ} {x : DriverInput} {i : Fin 20}
    {rest : List (Fin 20)} (hpc : t.pc = .drive (i :: rest))
    (hst : t.generate tid x = some t') :
    t'.generator = t.generator.tickDriver (fun _ => x) i ∧ t'.pc = .push rest := by
  simp only [TelemetryState.generate, hpc, TelemetryState.drive, Option.map_eq_some_iff] at hst
  obtain ⟨pipeline, -, rfl⟩ := hst
  exact ⟨rfl, rfl⟩

theorem move_of_generate {x : DriverInput} (hst : s.generate tid x = some s') :
    s.Move tid (.generate x) s' := by
  unfold ProgramState.generate at hst
  split at hst
  · rename_i hpc
    simp only [TelemetryState.generate, telemetry, hpc, RunPc.generator] at hst
    split at hst
    · rename_i hleave
      obtain rfl := Option.some.inj hst
      exact .leave hpc hleave
    · rename_i hstay
      obtain rfl := Option.some.inj hst
      rw [not_or, not_not, Bool.not_eq_true] at hstay
      exact .enter hpc hstay.1 hstay.2
  · rename_i rest hpc
    rw [Option.map_eq_some_iff] at hst
    obtain ⟨t, ht, rfl⟩ := hst
    exact .push hpc ht
  · rename_i i rest hpc
    rw [Option.map_eq_some_iff] at hst
    obtain ⟨t, ht, rfl⟩ := hst
    exact .drive hpc ht
  · rename_i hpc
    unfold ProgramState.publish at hst
    rw [Option.map_eq_some_iff] at hst
    obtain ⟨board, hboard, rfl⟩ := hst
    exact .publish hpc hboard
  · rename_i hpc
    obtain rfl := Option.some.inj hst
    exact .setLap hpc
  · cases hst

theorem move_of_step {l : ProgramLabel} (hst : s.step tid l = some s') : s.Move tid l s' := by
  rcases l with x | w | found | now | spurious | ⟨w, coin, now⟩ | w | timeout
  · exact move_of_generate hst
  · have hin : s.pc.inCallback = true
        ∧ (s.raceControl.callback w).map s.withCallback = some s' := by
      simp only [ProgramState.step, ProgramState.callback] at hst
      split at hst
      · exact ⟨by rw [‹s.pc = _›]; rfl, hst⟩
      · exact ⟨by rw [‹s.pc = _›]; rfl, hst⟩
      · exact ⟨by rw [‹s.pc = _›]; rfl, hst⟩
      · cases hst
    obtain ⟨hpc, hst⟩ := hin
    rw [Option.map_eq_some_iff] at hst
    obtain ⟨c, hc, rfl⟩ := hst
    exact .callback (k := .callback w) rfl hpc hc
  · simp only [ProgramState.step] at hst
    split at hst
    · rename_i hpc
      rw [Option.map_eq_some_iff] at hst
      obtain ⟨c, hc, rfl⟩ := hst
      exact .callback (k := .drain found) rfl (by rw [hpc]; rfl) hc
    · cases hst
  · simp only [ProgramState.step] at hst
    split at hst
    · rename_i hpc
      rw [Option.map_eq_some_iff] at hst
      obtain ⟨c, hc, rfl⟩ := hst
      exact .callback (k := .process now) rfl (by rw [hpc]; rfl) hc
    · cases hst
  · simp only [ProgramState.step, Option.map_eq_some_iff] at hst
    obtain ⟨pipeline, hpipeline, rfl⟩ := hst
    exact .consume hpipeline
  · simp only [ProgramState.step, Option.map_eq_some_iff] at hst
    obtain ⟨c, hc, rfl⟩ := hst
    exact .worker hc
  · simp only [ProgramState.step, Option.map_eq_some_iff] at hst
    obtain ⟨pool, hpool, rfl⟩ := hst
    exact .spurious hpool
  · exact .console (move_of_console hst)

end ProgramState

end RaceConditionZ
