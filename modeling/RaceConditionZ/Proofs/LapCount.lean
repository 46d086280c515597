import RaceConditionZ.Proofs.FinalClassification
import RaceConditionZ.Proofs.LapRecords
import RaceConditionZ.Proofs.RunSchedule

/-!
# The reported lap

`race_lap_` is the lap that the leader is in, and a driver past the line of its last lap is in one
more than it has completed. The callback of the tick that ends the race publishes that lap, so what
`main` prints as the laps of the race is one too many, whatever the run.
-/

namespace RaceConditionZ

open Transition

namespace TelemetryGenerator

variable {g : TelemetryGenerator} {x : TickInput}

/-- The flag comes with a lap past the last. -/
theorem totalLaps_lt_raceLap (track : TrackProfile) (lapStart : Fin 20 → ℤ) (xs : List TickInput)
    (hup : ((init track lapStart).ticks xs).raceFinished = true) :
    totalLaps < ((init track lapStart).ticks xs).raceLap := by
  induction xs using List.reverseRecOn with
  | nil => cases hup
  | append_singleton xs x ih =>
    rw [ticks_concat] at hup ⊢
    rcases (tick_raceFinished _ x).1 hup with hup | ⟨i, hc, hlap, -⟩
    · exact (ih hup).trans_le (raceLap_le_tick _ x)
    · have hmax := ((raceLapMax_init track lapStart).ticks xs).tick x
      have hle := hmax.2 ⟨i, rfl⟩
      simp only [tick_lap, if_pos hc] at hle
      omega

/-- Whoever is at position 1 is in the lap of the race. -/
theorem lap_of_position (hmax : (g.tick x).RaceLapMax)
    (hwithin : ∀ i, ((g.tick x).states i).WithinLap (g.tick x).track) {i : Fin 20}
    (hi : ((g.tick x).states i).position = 1) :
    ((g.tick x).states i).latestFrame.lap = (g.tick x).raceLap := by
  obtain ⟨⟨j, hj⟩, hle⟩ := hmax
  have hlast : (g.tick x).raceLap - 1 < ((g.tick x).states j).latestFrame.lap := by
    simp only [] at hj
    omega
  have hlead := lap_lt_of_raceDistance_le (hwithin j) (hwithin i) (raceDistance_le_of_position hi j)
    hlast
  have hupper := hle ⟨i, rfl⟩
  simp only [] at hupper
  omega

end TelemetryGenerator

namespace TelemetryState

variable {θ : Type} {s s' : TelemetryState θ} {start : TelemetryGenerator}

/-- How many laps driver `i` has completed. -/
def completedLaps (s : TelemetryState θ) (i : Fin 20) : ℕ :=
  s.laps.countP fun c => c.driverIndex = ((i : ℕ) : ℤ)

/-- Where the loop of `run` stands: between two ticks, with the lap of the latest published, or in
one, with the turns of the drivers `turned` behind it. -/
def Stands (start : TelemetryGenerator) (s : TelemetryState θ) : GeneratorPc → Prop
  | .testStop | .returned => ∃ xs, s.generator = start.ticks xs
      ∧ s.pipeline.race.currentLap = s.generator.raceLap
  | .drive rest | .push rest => ∃ xs x turned, turned ++ rest = List.finRange 20
      ∧ s.generator = turned.foldl (fun g i => g.tickDriver x i) (start.ticks xs)

structure CountInv (start : TelemetryGenerator) (s : TelemetryState θ) : Prop where
  stands : s.Stands start s.pc
  lap : ∀ i, (s.generator.states i).latestFrame.lap = s.completedLaps i + 1

theorem countInv_init (track : TrackProfile) (lapStart : Fin 20 → ℤ) :
    (TelemetryState.init (θ := θ) (.init track lapStart)).CountInv (.init track lapStart) where
  stands := ⟨[], (TelemetryGenerator.ticks_nil _).symm, rfl⟩
  lap _ := rfl

/-- A step that leaves the generator and the published lap alone. -/
theorem CountInv.of_pipeline (h : s.CountInv start) (hgen : s'.generator = s.generator)
    (hlaps : s'.laps = s.laps) (hpc : s'.pc = s.pc)
    (hlap : s'.pipeline.race.currentLap = s.pipeline.race.currentLap) : s'.CountInv start := by
  refine ⟨?_, ?_⟩
  · have hstands := h.stands
    rw [hpc]
    unfold Stands at hstands ⊢
    rw [hgen, hlap]
    exact hstands
  · unfold completedLaps
    rw [hgen, hlaps]
    exact h.lap

/-- The turn of the next driver. -/
theorem CountInv.drive {x : DriverInput} {i : Fin 20} {rest : List (Fin 20)}
    (h : s.CountInv start) (hpc : s.pc = .drive (i :: rest)) (hst : s.drive x i rest = some s') :
    s'.CountInv start := by
  obtain ⟨hstands, hlap⟩ := h
  rw [hpc] at hstands
  obtain ⟨xs, xt, turned, hturned, hgen⟩ := hstands
  unfold TelemetryState.drive at hst
  rw [Option.map_eq_some_iff] at hst
  obtain ⟨pipeline, -, rfl⟩ := hst
  have hnodup : (turned ++ i :: rest).Nodup := by
    rw [hturned]
    exact List.nodup_finRange 20
  have hi : i ∉ turned := fun hi => (List.nodup_append.1 hnodup).2.2 i hi i List.mem_cons_self rfl
  have hnext : s.generator.tickDriver (fun _ => x) i
      = (turned ++ [i]).foldl (fun g j => g.tickDriver (Function.update xt i x) j)
        (start.ticks xs) := by
    rw [hgen]
    exact TelemetryGenerator.foldl_tickDriver_concat _ _ hi x
  have hall : (turned ++ [i]) ++ rest = List.finRange 20 := by
    rw [List.append_assoc, List.singleton_append, hturned]
  refine ⟨⟨xs, Function.update xt i x, turned ++ [i], hall, hnext⟩, fun j => ?_⟩
  have hj := hlap j
  unfold completedLaps at hj ⊢
  simp only [TelemetryGenerator.tickDriver_lap, List.countP_append, hj]
  by_cases hc : (s.generator.states i).crossesLine s.generator.track x.noise
  · by_cases hji : j = i
    · subst hji
      simp only [hc, and_self, if_true, List.countP_singleton, decide_true, Nat.cast_add,
        Nat.cast_one]
    · have hne : ¬ ((i : ℕ) : ℤ) = ((j : ℕ) : ℤ) := fun hij =>
        hji (Fin.ext (by exact_mod_cast hij.symm))
      simp only [hc, hji, hne, and_true, if_true, if_false, List.countP_singleton,
        decide_false, Bool.false_eq_true, add_zero]
  · simp only [hc, and_false, if_false, List.countP_nil, add_zero]

/-- What the end of a tick writes. -/
theorem publish_frame [DecidableEq θ] {tid : θ} (hst : s.publish tid = some s') :
    s'.generator = s.generator.updatePositionsAndDrs ∧ s'.pc = .testStop ∧ s'.laps = s.laps
      ∧ s'.pipeline.race.currentLap = s'.generator.raceLap := by
  unfold TelemetryState.publish at hst
  obtain ⟨board, -, rfl⟩ := Option.map_eq_some_iff.1 hst
  refine ⟨rfl, rfl, rfl, ?_⟩
  rw [PipelineState.setLap_currentLap]

theorem CountInv.publish [DecidableEq θ] {tid : θ} (h : s.CountInv start)
    (hpc : s.pc = .drive []) (hst : s.publish tid = some s') : s'.CountInv start := by
  obtain ⟨hstands, hlap⟩ := h
  rw [hpc] at hstands
  obtain ⟨xs, x, turned, hturned, hgen⟩ := hstands
  rw [List.append_nil] at hturned
  obtain ⟨hgen', hpc', hlaps', hlap'⟩ := publish_frame hst
  have hall : s.generator = (start.ticks xs).advanceAll x := by
    rw [hgen, hturned, TelemetryGenerator.advanceAll]
  refine ⟨?_, fun j => ?_⟩
  · rw [hpc']
    refine ⟨xs ++ [x], ?_, hlap'⟩
    rw [TelemetryGenerator.ticks_concat, TelemetryGenerator.tick, hgen', hall]
  · have hj := hlap j
    unfold completedLaps at hj ⊢
    rw [hgen', hlaps', TelemetryGenerator.updatePositionsAndDrs_lap, hj]

theorem CountInv.move [DecidableEq θ] {tid : θ} (h : s.CountInv start) (hmove : s.Move tid s') :
    s'.CountInv start := by
  have hstands := h.stands
  cases hmove with
  | leave hpc =>
    rw [hpc] at hstands
    exact ⟨hstands, h.lap⟩
  | enter hpc hstop =>
    rw [hpc] at hstands
    obtain ⟨xs, hgen, -⟩ := hstands
    exact ⟨⟨xs, fun _ => ⟨0, 0⟩, [], List.nil_append _, hgen⟩, h.lap⟩
  | drive hpc hst => exact h.drive hpc hst
  | push hpc hp hp' hst => exact h.of_pipeline rfl rfl rfl (PipelineState.step_currentLap hst)
  | pushed hpc hp hret =>
    rw [hpc] at hstands
    exact ⟨hstands, h.lap⟩
  | publish hpc hst => exact h.publish hpc hst
  | consume hst => exact h.of_pipeline rfl rfl rfl (PipelineState.step_currentLap hst)
  | callStop => exact h.of_pipeline rfl rfl rfl rfl
  | join => exact h.of_pipeline rfl rfl rfl rfl
  | stopConsumer hstop hl hst =>
    exact h.of_pipeline rfl rfl rfl (PipelineState.step_currentLap hst)

end TelemetryState

section Run

variable {θ : Type} [DecidableEq θ] {tid : θ} {track : TrackProfile} {lapStart : Fin 20 → ℤ}

theorem countInv {s : TelemetryState θ}
    (h : (telemetrySystem tid (.init track lapStart)).Reachable s) :
    s.CountInv (.init track lapStart) := by
  refine h.invariant (TelemetryState.countInv_init track lapStart) ?_
  exact fun _ hinv _ hst => hinv.move (TelemetryState.move_of_step hst)

/-- What the final printout and the published laps are to be: `get_lap()` is the number of laps that
the driver at position 1 of the final standings has completed, and no lap past the last is
published. -/
structure LapsReported (tid : θ) (start : TelemetryGenerator) (ls : List TelemetryLabel)
    (s : TelemetryState θ) : Prop where
  printed : ∀ d ∈ s.board.standings, d.position = 1 → ∀ i, d.profile = drivers.get i →
    s.pipeline.race.currentLap = s.completedLaps i
  published : ∀ ls' s', ls' <+: ls →
    (telemetrySystem tid start).run (telemetrySystem tid start).init ls' = some s' →
    s'.pipeline.race.currentLap ≤ totalLaps

/-- The state that a finished race leaves behind. -/
theorem state_of_finished {s : TelemetryState θ}
    (h : (telemetrySystem tid (.init track lapStart)).Reachable s) (hstop : s.stop = .returned)
    (hup : s.generator.raceFinished = true) :
    ∃ xs x, s.generator = ((TelemetryGenerator.init track lapStart).ticks xs).tick x
      ∧ s.pipeline.race.currentLap = s.generator.raceLap
      ∧ totalLaps < s.pipeline.race.currentLap := by
  have hcount := countInv h
  have hstands := hcount.stands
  rw [(telemetryInv h).joined hstop] at hstands
  obtain ⟨xs, hgen, hlap⟩ := hstands
  have hpast := TelemetryGenerator.totalLaps_lt_raceLap track lapStart xs (by rwa [hgen] at hup)
  rw [← hgen, ← hlap] at hpast
  obtain rfl | ⟨ys, x, rfl⟩ := xs.eq_nil_or_concat
  · rw [hgen, TelemetryGenerator.ticks_nil] at hup
    cases hup
  · rw [List.concat_eq_append, TelemetryGenerator.ticks_concat] at hgen
    exact ⟨ys, x, hgen, hlap, hpast⟩

/-- The standings are then headed by a driver that is in the lap of the race, so has completed one
less. -/
theorem completedLaps_of_finished (hlength : 370 / 3600 * simSPerTick ≤ track.lengthKm)
    {s : TelemetryState θ} (h : (telemetrySystem tid (.init track lapStart)).Reachable s)
    (hstop : s.stop = .returned) (hup : s.generator.raceFinished = true) :
    ∃ d ∈ s.board.standings, d.position = 1 ∧ ∃ i, d.profile = drivers.get i
      ∧ s.pipeline.race.currentLap = s.completedLaps i + 1 := by
  have hinv := telemetryInv h
  have hcount := countInv h
  obtain ⟨xs, x, hgen, hlap, hpast⟩ := state_of_finished h hstop hup
  obtain ⟨i, hi, -⟩ := TelemetryGenerator.head_standings
    (g := (TelemetryGenerator.init track lapStart).ticks xs) (x := x)
  have hlead : (s.generator.states i).latestFrame.lap = s.generator.raceLap := by
    rw [hgen]
    refine TelemetryGenerator.lap_of_position
      (((TelemetryGenerator.raceLapMax_init track lapStart).ticks xs).tick x) (fun j => ?_) hi
    have hj := TelemetryGenerator.ticks_init_withinLap j track lapStart hlength (xs ++ [x])
    rw [TelemetryGenerator.ticks_concat] at hj
    rw [TelemetryGenerator.tick_track, TelemetryGenerator.ticks_track]
    exact hj
  have hcompleted : s.pipeline.race.currentLap = s.completedLaps i + 1 := by
    rw [hlap, ← hlead, hcount.lap]
  have hboard : s.board.standings = s.generator.standings := by
    refine (hinv.board (.inr (hinv.joined hstop))).resolve_left fun hempty => ?_
    unfold TelemetryState.completedLaps at hcompleted
    rw [hempty.2, List.countP_nil] at hcompleted
    unfold totalLaps at hpast
    omega
  refine ⟨s.generator.states i, ?_, ?_, i, hinv.laps.profile i, hcompleted⟩
  · rw [hboard]
    exact TelemetryGenerator.mem_standings.2 ⟨i, rfl⟩
  · rw [hgen]
    exact hi

/-- The laps printed are one more than the winner has completed, and more than the race has. -/
theorem laps_not_reported (tid : θ) (track : TrackProfile) (lapStart : Fin 20 → ℤ)
    (hlength : 370 / 3600 * simSPerTick ≤ track.lengthKm) {ls : List TelemetryLabel}
    {s : TelemetryState θ}
    (hrun : (telemetrySystem tid (.init track lapStart)).run
      (telemetrySystem tid (.init track lapStart)).init ls = some s)
    (hstop : s.stop = .returned) (hup : s.generator.raceFinished = true) :
    ¬ LapsReported tid (.init track lapStart) ls s
      ∧ totalLaps < s.pipeline.race.currentLap
      ∧ ∃ d ∈ s.board.standings, d.position = 1 ∧ ∃ i, d.profile = drivers.get i
        ∧ s.pipeline.race.currentLap = s.completedLaps i + 1 := by
  have hreached : (telemetrySystem tid (.init track lapStart)).Reachable s :=
    System.Reachable.leads .init (System.leads_of_run hrun)
  obtain ⟨-, -, -, -, hpast⟩ := state_of_finished hreached hstop hup
  have hfirst := completedLaps_of_finished hlength hreached hstop hup
  refine ⟨fun hreported => ?_, hpast, hfirst⟩
  obtain ⟨d, hd, hpos, i, hprofile, hlap⟩ := hfirst
  have hprinted := hreported.printed d hd hpos i hprofile
  omega

/-- A finished race, all cars at top speed on the shortest track. -/
theorem finished_laps : ∃ ls s,
    (telemetrySystem () (.init TelemetryGenerator.shortTrack fun _ => 0)).run
      (telemetrySystem () (.init TelemetryGenerator.shortTrack fun _ => 0)).init ls = some s
      ∧ s.stop = .returned ∧ s.generator.raceFinished = true := by
  obtain ⟨ls, s, hrun, hstop, hgen⟩ := TelemetryState.leads_run ()
    (.init TelemetryGenerator.shortTrack fun _ => 0)
    (TelemetryGenerator.Formation.laps 49 ++ [TelemetryGenerator.flatOut (50 * 20000000)])
  refine ⟨ls, s, hrun, hstop, ?_⟩
  rw [hgen]
  exact TelemetryGenerator.raceFinished_laps

theorem laps_not_reported_short : ∃ ls, ∃ s : TelemetryState Unit,
    ¬ LapsReported () (.init TelemetryGenerator.shortTrack fun _ => 0) ls s
      ∧ totalLaps < s.pipeline.race.currentLap
      ∧ ∃ d ∈ s.board.standings, d.position = 1 ∧ ∃ i, d.profile = drivers.get i
        ∧ s.pipeline.race.currentLap = s.completedLaps i + 1 := by
  obtain ⟨ls, s, hrun, hstop, hup⟩ := finished_laps
  exact ⟨ls, s, laps_not_reported () TelemetryGenerator.shortTrack (fun _ => 0) le_rfl hrun hstop
    hup⟩

/-- There the last lap published is one that the race does not have. -/
theorem not_lapsReported : 370 / 3600 * simSPerTick ≤ TelemetryGenerator.shortTrack.lengthKm
    ∧ ∃ ls s, (telemetrySystem () (.init TelemetryGenerator.shortTrack fun _ => 0)).run
        (telemetrySystem () (.init TelemetryGenerator.shortTrack fun _ => 0)).init ls = some s
      ∧ s.stop = .returned ∧ s.generator.raceFinished = true
      ∧ ¬ LapsReported () (.init TelemetryGenerator.shortTrack fun _ => 0) ls s := by
  obtain ⟨ls, s, hrun, hstop, hup⟩ := finished_laps
  refine ⟨le_rfl, ls, s, hrun, hstop, hup, fun hreported => ?_⟩
  obtain ⟨-, -, -, -, hpast⟩ :=
    state_of_finished (System.Reachable.leads .init (System.leads_of_run hrun)) hstop hup
  exact absurd (hreported.published ls s List.prefix_rfl hrun) (not_le.2 hpast)

end Run

end RaceConditionZ
