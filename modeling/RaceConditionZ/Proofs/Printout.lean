import RaceConditionZ.Proofs.LapRecords
import RaceConditionZ.Proofs.PenaltiesServed
import RaceConditionZ.Proofs.Screens

/-!
# The printout

What the main thread has printed of the penalties and at the end. A penalty once printed is printed
in every later row of its driver; and the last lines are of the race as it was left, since neither
the generator nor the consumer runs by then.
-/

namespace RaceConditionZ

open Transition PenaltyEnforcer

section Penalties

variable {start : TelemetryGenerator} {c c' : RaceControlState}

/-- No step of the program takes a penalty back. -/
theorem penaltyOf_pending_step {l : RaceControlLabel} {i : Fin 20}
    (h : c.penaltyOf i = .pending) (hst : c.step l = some c') : c'.penaltyOf i = .pending := by
  rw [RaceControlState.penaltyOf_eq] at h ⊢
  cases RaceControlState.move_of_step hst with
  | @callProcess _ enforcer _ hcall =>
    simp only [EnforcerState.step] at hcall
    split at hcall <;> cases hcall
    exact h
  | @enforce _ k enforcer _ hk henforcer =>
    rcases hk with ⟨found, rfl⟩ | ⟨now, rfl⟩
    · simp only [EnforcerState.step, EnforcerState.drain] at henforcer
      split at henforcer <;> cases henforcer <;> exact h
    · rcases EnforcerState.states_of_process henforcer i with hsame | hpending
      · exact hsame.trans h
      · exact hpending
  | _ => exact h

/-- A penalty is of three violations detected. -/
theorem detectedFor_of_pending (h : (raceControlSystem start).Reachable c) {i : Fin 20}
    (hpending : c.penaltyOf i = .pending) : 3 ≤ c.detectedFor i := by
  have hstate := (enforcerInv_reachable (enforcer_reachable h)).state_iff i
  rw [← c.penaltyOf_eq, hpending] at hstate
  have hcount := (tallied_reachable h).detectedFor_eq i
  have hge : ¬ c.enforcer.handledFor i < 3 := by
    intro hlt
    have := hstate.2 (by split_ifs <;> omega)
    cases this
  omega

end Penalties

/-- The entries whose rows are to come. -/
def ConsolePc.entries : ConsolePc → List DriverState
  | .getLap standings | .getWeather standings _ | .getGrip standings _ _ => standings
  | .rows _ rest | .classify rest => rest
  | _ => []

/-- The rows of the screen in progress. -/
def ConsolePc.rowsShown : ConsolePc → List (DriverState × PenaltyState)
  | .rows screen _ => screen.rows
  | _ => []

def ConsolePc.isDestroy : ConsolePc → Bool
  | .destroy => true
  | _ => false

theorem ConsolePc.eq_destroy {pc : ConsolePc} (h : pc.isDestroy = true) : pc = .destroy := by
  cases pc <;> first | rfl | cases h

namespace ProgramState

variable {θ : Type} (s : ProgramState θ)

/-- All rows printed, in order. -/
def printed : List (DriverState × PenaltyState) :=
  s.screens.flatMap Screen.rows ++ s.main.rowsShown ++ s.report.standings

variable {s} {s' : ProgramState θ} in
theorem printed_of_same (hscreens : s'.screens = s.screens) (hmain : s'.main = s.main)
    (hreport : s'.report = s.report) : s'.printed = s.printed := by
  unfold printed
  rw [hscreens, hmain, hreport]

/-- What has been printed of the end. -/
def Reported : ConsolePc → Prop
  | .finalLap => s.pipeline.stop = .returned ∧ s.report = ⟨none, [], none⟩
  | .finalSnapshot =>
    s.pipeline.stop = .returned ∧ s.report = ⟨some s.pipeline.race.currentLap, [], none⟩
  | .classify rest => s.pipeline.stop = .returned ∧ s.report.lap = some s.pipeline.race.currentLap
    ∧ s.report.standings.map Prod.fst ++ rest = s.board.standings ∧ s.report.fastestLap = none
  | .fastestHolder => s.pipeline.stop = .returned
    ∧ s.report.lap = some s.pipeline.race.currentLap
    ∧ s.report.standings.map Prod.fst = s.board.standings ∧ s.report.fastestLap = none
  | .fastestTime holder => s.pipeline.stop = .returned
    ∧ s.report.lap = some s.pipeline.race.currentLap
    ∧ s.report.standings.map Prod.fst = s.board.standings ∧ s.report.fastestLap = none
    ∧ holder = s.pipeline.race.fastestLapHolder ∧ 0 ≤ holder ∧ holder < drivers.length
  | .destroy => s.pipeline.stop = .returned ∧ s.report.lap = some s.pipeline.race.currentLap
    ∧ s.report.standings.map Prod.fst = s.board.standings
    ∧ s.report.fastestLap = if 0 ≤ s.pipeline.race.fastestLapHolder
        ∧ s.pipeline.race.fastestLapHolder < drivers.length then
      some (s.pipeline.race.fastestLapHolder, s.pipeline.race.fastestLapMs) else none
  | _ => s.report = ⟨none, [], none⟩

variable {s} {s' : ProgramState θ}

/-- A step that changes nothing of what is reported. -/
theorem Reported.of_same {pc : ConsolePc} (h : s.Reported pc) (hreport : s'.report = s.report)
    (hlate : s.pipeline.stop = .returned → s'.pipeline = s.pipeline ∧ s'.board = s.board) :
    s'.Reported pc := by
  cases pc with
  | finalLap | finalSnapshot | classify _ | fastestHolder | fastestTime _ | destroy =>
    obtain ⟨hpipeline, hboard⟩ := hlate h.1
    simp only [Reported, hreport, hpipeline, hboard] at h ⊢
    exact h
  | _ => exact hreport.trans h

section Run

variable [DecidableEq θ] {tid : θ} {track : TrackProfile} {lapStart : Fin 20 → ℤ}

/-- Neither the generator nor the consumer goes on once `lap_consumer.stop()` has returned. -/
theorem stopped_of_joined (h : (programSystem tid (.init track lapStart)).Reachable s)
    (hstop : s.pipeline.stop = .returned) : s.pc = .returned ∧ s.pipeline.pc = .returned := by
  have hside := telemetry_reachable h
  have hjoin : s.telemetrySide.pipeline.stop = .returned := by
    unfold telemetrySide lapSet
    split_ifs <;> exact hstop
  have hmain : s.main.stop = .returned := (telemetryInv hside).stopped (by rw [hjoin]; simp)
  have hpc := (programInv h).joined hmain
  have hpipeline := (pipelineInv_reachable (pipeline_reachable hside)).joined hjoin
  rw [telemetrySide_of_ne (by rw [hpc]; simp)] at hpipeline
  exact ⟨hpc, hpipeline⟩

theorem step_of_joined (h : (programSystem tid (.init track lapStart)).Reachable s)
    (hstop : s.pipeline.stop = .returned) {l : ProgramLabel} (hst : s.step tid l = some s') :
    s'.pipeline = s.pipeline ∧ s'.board = s.board := by
  obtain ⟨hpc, hpipeline⟩ := stopped_of_joined h hstop
  cases move_of_step hst with
  | leave hpc' | enter hpc' | push hpc' | drive hpc' | publish hpc' | setLap hpc' =>
    rw [hpc] at hpc'
    cases hpc'
  | callback _ hpc' _ =>
    rw [hpc] at hpc'
    cases hpc'
  | consume hconsume =>
    simp only [PipelineState.step, PipelineState.consume, hpipeline] at hconsume
    cases hconsume
  | worker | spurious => exact ⟨rfl, rfl⟩
  | console hmove =>
    cases hmove with
    | stopConsumer _ hcall | joinConsumer _ hcall =>
      simp only [PipelineState.step, hstop] at hcall
      cases hcall
    | _ => exact ⟨rfl, rfl⟩

theorem reported (h : (programSystem tid (.init track lapStart)).Reachable s) :
    s.Reported s.main := by
  refine h.invariant (I := fun s => s.Reported s.main) rfl ?_
  intro s l s' hs hI _ hst
  have hframe := fun hstop => step_of_joined hs hstop hst
  cases move_of_step hst with
  | leave | enter | push | drive | publish | setLap | callback | consume | worker | spurious =>
    exact hI.of_same rfl hframe
  | console hmove =>
    cases hmove with
    | leave hmain | stay hmain | empty hmain _ | snapshot hmain _ | getLap hmain | getWeather hmain
    | getGrip hmain | row hmain | shown hmain | stopGenerator hmain | joinGenerator hmain _
    | stopConsumer hmain _ =>
      rw [hmain] at hI
      exact hI
    | joinConsumer hmain hcall =>
      rw [hmain] at hI
      refine ⟨?_, hI⟩
      simp only [PipelineState.step, Option.ite_none_right_eq_some] at hcall
      obtain ⟨-, hcall⟩ := hcall
      split at hcall <;> cases hcall
      rfl
    | finalLap hmain =>
      rw [hmain] at hI
      exact ⟨hI.1, by rw [hI.2]⟩
    | finalSnapshot hmain =>
      rw [hmain] at hI
      exact ⟨hI.1, by rw [hI.2], by rw [hI.2]; rfl, by rw [hI.2]⟩
    | classify hmain =>
      rw [hmain] at hI
      obtain ⟨hstop, hlap, hrows, hfast⟩ := hI
      refine ⟨hstop, hlap, ?_, hfast⟩
      simpa using hrows
    | classified hmain =>
      rw [hmain] at hI
      obtain ⟨hstop, hlap, hrows, hfast⟩ := hI
      exact ⟨hstop, hlap, by simpa using hrows, hfast⟩
    | fastestHolder hmain h0 hlt =>
      rw [hmain] at hI
      obtain ⟨hstop, hlap, hrows, hfast⟩ := hI
      exact ⟨hstop, hlap, hrows, hfast, rfl, h0, hlt⟩
    | noFastest hmain hout =>
      rw [hmain] at hI
      obtain ⟨hstop, hlap, hrows, hfast⟩ := hI
      exact ⟨hstop, hlap, hrows, by rw [if_neg hout]; exact hfast⟩
    | fastestTime hmain =>
      rw [hmain] at hI
      obtain ⟨hstop, hlap, hrows, -, rfl, hin⟩ := hI
      exact ⟨hstop, hlap, hrows, (if_pos hin).symm⟩
    | destroy hmain _ => exact hI

/-- All laps set, the lap read is the race's. -/
theorem currentLap_of_returned (h : (programSystem tid (.init track lapStart)).Reachable s)
    (hpc : s.pc = .returned) : s.pipeline.race.currentLap = s.generator.raceLap := by
  have hinv := programInv h
  have hcounter := hinv.counter
  rw [if_neg (by rw [hpc]; simp), Nat.add_zero] at hcounter
  rw [(screenInv h).lap, hcounter, List.take_length, hinv.generator (by rw [hpc]; rfl)]

theorem screen_lap_le (h : (programSystem tid (.init track lapStart)).Reachable s)
    (hpc : s.pc = .returned) {screen : Screen} (hscreen : screen ∈ s.screens) :
    screen.lap ≤ s.generator.raceLap := by
  obtain ⟨seen, hshow, -, hle, -⟩ := (screenInv h).seen
  have hlap : screen.lap ∈ s.screens.map Screen.lap := List.mem_map_of_mem hscreen
  rw [ScreenInv.laps_eq hshow] at hlap
  obtain ⟨read, hread, heq⟩ := List.mem_map.1 hlap
  rw [← heq, (programInv h).generator (by rw [hpc]; rfl)]
  exact TelemetryGenerator.raceLap_le_of_prefix
    ((hle read hread).lap.trans (List.take_prefix _ _))

variable (tid) (track) (lapStart) in
/-- The end of the printout is of the race as it was left: its lap, no screen's is later; its
standings, with all the drivers in order; and the least of the best laps in these, with its driver,
if no frame was refused. -/
theorem final_report (h : (programSystem tid (.init track lapStart)).Reachable s)
    (hend : s.main = .destroy) :
    (s.report.lap = some s.generator.raceLap
        ∧ ∀ screen ∈ s.screens, screen.lap ≤ s.generator.raceLap)
      ∧ (s.report.standings.map Prod.fst = if s.inputs = [] then [] else s.generator.standings)
      ∧ (s.refused = 0 → (∀ c ∈ s.laps, 1 ≤ c.lapMs ∧ c.lapMs < MachineFloat.maxFinite) →
        (s.laps = [] → s.report.fastestLap = none)
          ∧ (s.laps ≠ [] → ∃ (i : Fin 20) (best : ℚ),
            s.report.fastestLap = some (((i : ℕ) : ℤ), best)
              ∧ IsLeast {t | ∃ d ∈ s.report.standings.map Prod.fst,
                0 < d.bestLapMs ∧ d.bestLapMs = t} best
              ∧ ∃ d ∈ s.report.standings.map Prod.fst, d.profile = drivers.get i
                ∧ d.bestLapMs = best)) := by
  have hreport := reported h
  rw [hend] at hreport
  obtain ⟨hstop, hlap, hrows, hfast⟩ := hreport
  have hpc := (stopped_of_joined h hstop).1
  have hgen := (programInv h).generator (by rw [hpc]; rfl)
  refine ⟨⟨?_, fun screen hscreen => screen_lap_le h hpc hscreen⟩, ?_, fun hrefused hlaps => ?_⟩
  · rw [hlap, currentLap_of_returned h hpc]
  · rw [hrows, (screenInv h).board, hgen]
  · have hside := telemetry_reachable h
    rw [telemetrySide_of_ne (by rw [hpc]; simp)] at hside
    rw [hfast, hrows]
    refine ⟨fun hnil => ?_, fun hne => ?_⟩
    · have hholder : s.pipeline.race.fastestLapHolder = -1 :=
        holder_of_no_laps hside hstop hrefused hnil
      rw [hholder]
      rfl
    · obtain ⟨hleast, i, hholder, hdriver⟩ := least_on_board hside hstop hrefused hlaps hne
      have hholder : s.pipeline.race.fastestLapHolder = (i : ℕ) := hholder
      refine ⟨i, s.pipeline.race.fastestLapMs, ?_, hleast, hdriver⟩
      have hlt := i.isLt
      rw [hholder, if_pos ⟨by omega, by rw [show drivers.length = 20 from rfl]; omega⟩]

omit [DecidableEq θ] in
theorem penaltyOf_raceControlSide (start : TelemetryGenerator) (i : Fin 20) :
    (s.raceControlSide start).penaltyOf i = s.raceControl.penaltyOf i := by
  unfold RaceControlState.penaltyOf raceControlSide
  rfl

/-- The rows printed, with the penalties as they are now. -/
structure PrintInv (s : ProgramState θ) : Prop where
  entries : ∀ d ∈ s.main.entries, ∃ i, d.profile = drivers.get i
  rows : ∀ row ∈ s.printed, ∃ i, row.1.profile = drivers.get i
    ∧ (row.2 = .none ∨ row.2 = .pending ∧ s.raceControl.penaltyOf i = .pending)
  order : s.printed.Pairwise fun a b => a.1.profile = b.1.profile → a.2 = .pending → b.2 = .pending

omit [DecidableEq θ] in
/-- Nothing is printed. -/
theorem PrintInv.of_same (h : s.PrintInv)
    (hentries : ∀ d ∈ s'.main.entries, ∃ i, d.profile = drivers.get i)
    (hprinted : s'.printed = s.printed)
    (hpenalty : ∀ i, s.raceControl.penaltyOf i = .pending →
      s'.raceControl.penaltyOf i = .pending) : s'.PrintInv := by
  refine ⟨hentries, ?_, ?_⟩
  · rw [hprinted]
    intro row hrow
    obtain ⟨i, hprofile, hstate⟩ := h.rows row hrow
    exact ⟨i, hprofile, hstate.imp_right fun hpending => ⟨hpending.1, hpenalty i hpending.2⟩⟩
  · rw [hprinted]
    exact h.order

/-- The row of an entry is printed. -/
theorem PrintInv.row (h : s.PrintInv) {start : TelemetryGenerator}
    (hs : (programSystem tid start).Reachable s) {entry : DriverState}
    (hentry : entry ∈ s.main.entries)
    (hentries : ∀ d ∈ s'.main.entries, d ∈ s.main.entries)
    (hprinted : s'.printed
      = s.printed ++ [(entry, s.enforcer.enforcer.penaltyState entry.profile.id)])
    (henforcer : s'.enforcer = s.enforcer) : s'.PrintInv := by
  obtain ⟨i, hi⟩ := h.entries entry hentry
  have hpenalty : s.enforcer.enforcer.penaltyState entry.profile.id
      = s.raceControl.penaltyOf i := by
    rw [hi]
    rfl
  have hsame : ∀ j, s'.raceControl.penaltyOf j = s.raceControl.penaltyOf j := fun j => by
    show s'.enforcer.enforcer.penaltyState _ = s.enforcer.enforcer.penaltyState _
    rw [henforcer]
  rw [hpenalty] at hprinted
  refine ⟨fun d hd => h.entries d (hentries d hd), ?_, ?_⟩ <;> rw [hprinted]
  · intro row hrow
    rcases List.mem_append.1 hrow with hrow | hrow
    · obtain ⟨j, hprofile, hstate⟩ := h.rows row hrow
      rw [← hsame j] at hstate
      exact ⟨j, hprofile, hstate⟩
    · rw [List.mem_singleton.1 hrow]
      refine ⟨i, hi, ?_⟩
      rw [hsame i]
      exact (penaltyOf_eq_or (raceControl_reachable hs) i).imp id fun hpending =>
        ⟨hpending, hpending⟩
  · refine List.pairwise_append.2 ⟨h.order, List.pairwise_singleton _ _, ?_⟩
    intro a ha b hb hprofile hpending
    rw [List.mem_singleton.1 hb] at hprofile ⊢
    obtain ⟨j, hj, hnone | ⟨-, hstate⟩⟩ := h.rows a ha
    · rw [hpending] at hnone
      cases hnone
    · show s.raceControl.penaltyOf i = .pending
      rw [← hpenalty, ← hprofile, hj]
      exact hstate

theorem profile_of_board (h : (programSystem tid (.init track lapStart)).Reachable s)
    {d : DriverState} (hd : d ∈ s.board.standings) : ∃ i, d.profile = drivers.get i := by
  rw [(screenInv h).board] at hd
  split_ifs at hd
  · cases hd
  · obtain ⟨i, rfl⟩ := TelemetryGenerator.mem_standings.1 hd
    exact ⟨i, by rw [TelemetryGenerator.ticks_profile, TelemetryGenerator.init_profile]⟩

theorem PrintInv.console (h : s.PrintInv)
    (hs : (programSystem tid (.init track lapStart)).Reachable s) (hmove : s.ConsoleMove s') :
    s'.PrintInv := by
  have hreport := reported hs
  have hstay : ∀ {s' : ProgramState θ}, (∀ d ∈ s'.main.entries, ∃ i, d.profile = drivers.get i) →
      s'.printed = s.printed → s'.enforcer = s.enforcer → s'.PrintInv := by
    intro s' hentries hprinted henforcer
    refine h.of_same hentries hprinted fun i hpending => ?_
    show s'.enforcer.enforcer.penaltyState _ = _
    rw [henforcer]
    exact hpending
  cases hmove with
  | snapshot hmain _ | finalSnapshot hmain =>
    refine hstay (fun d hd => profile_of_board hs hd) ?_ rfl
    simp only [printed, hmain, ConsolePc.rowsShown]
  | row hmain =>
    rw [hmain] at hreport
    refine h.row hs (by rw [hmain]; exact List.mem_cons_self) (fun d hd => ?_) ?_ rfl
    · rw [hmain]
      exact List.mem_cons_of_mem _ hd
    · have hnone : s.report.standings = [] := by rw [hreport]
      simp only [printed, hmain, ConsolePc.rowsShown, printRow, hnone, List.append_nil,
        List.append_assoc]
  | classify hmain =>
    refine h.row hs (by rw [hmain]; exact List.mem_cons_self) (fun d hd => ?_) ?_ rfl
    · rw [hmain]
      exact List.mem_cons_of_mem _ hd
    · simp only [printed, hmain, ConsolePc.rowsShown, List.append_nil, List.append_assoc]
  | shown hmain =>
    refine hstay (fun d hd => absurd hd List.not_mem_nil) ?_ rfl
    simp only [printed, hmain, ConsolePc.rowsShown, List.flatMap_append, List.flatMap_cons,
      List.flatMap_nil, List.append_nil]
  | getGrip hmain =>
    refine hstay (fun d hd => h.entries d ?_) ?_ rfl
    · rw [hmain]
      exact List.mem_of_mem_take hd
    · simp only [printed, hmain, ConsolePc.rowsShown]
  | getLap hmain | getWeather hmain =>
    refine hstay (fun d hd => h.entries d ?_) ?_ rfl
    · rw [hmain]
      exact hd
    · simp only [printed, hmain, ConsolePc.rowsShown]
  | leave hmain | stay hmain | empty hmain _ | stopGenerator hmain | joinGenerator hmain _
  | stopConsumer hmain _ | joinConsumer hmain _ | finalLap hmain | classified hmain
  | fastestHolder hmain _ _ | noFastest hmain _ | fastestTime hmain =>
    refine hstay (fun d hd => absurd hd List.not_mem_nil) ?_ rfl
    simp only [printed, hmain, ConsolePc.rowsShown]
  | destroy hmain _ => exact hstay h.entries rfl rfl

theorem printInv (h : (programSystem tid (.init track lapStart)).Reachable s) : s.PrintInv := by
  refine h.invariant ⟨fun d hd => absurd hd List.not_mem_nil,
    fun row hrow => absurd hrow List.not_mem_nil, .nil⟩ ?_
  intro s l s' hs hI _ hst
  have hmove := move_of_step hst
  have hpenalty : ∀ i, s.raceControl.penaltyOf i = .pending →
      s'.raceControl.penaltyOf i = .pending := by
    intro i hpending
    rw [← penaltyOf_raceControlSide (.init track lapStart)] at hpending ⊢
    exact (hmove.on_raceControl (programInv hs)).keeps
      (P := fun c => c.penaltyOf i = .pending) penaltyOf_pending_step hpending
  clear hst
  cases hmove with
  | console hmove => exact hI.console hs hmove
  | leave | enter | push | drive | publish | setLap | callback | consume | worker | spurious =>
    exact hI.of_same hI.entries (printed_of_same rfl rfl rfl) hpenalty

variable (tid) (track) (lapStart) in
/-- A penalty once printed is printed in every later row of the driver, the final standings
included; and none is printed for fewer than three violations, and none as served. -/
theorem penalties_printed (h : (programSystem tid (.init track lapStart)).Reachable s) :
    (s.printed.Pairwise fun a b => a.1.profile = b.1.profile → a.2 = .pending → b.2 = .pending)
      ∧ ∀ row ∈ s.printed, ∃ i, row.1.profile = drivers.get i
        ∧ (row.2 = .none ∨ row.2 = .pending ∧ 3 ≤ s.raceControl.detectedFor i) := by
  refine ⟨(printInv h).order, fun row hrow => ?_⟩
  obtain ⟨i, hprofile, hstate⟩ := (printInv h).rows row hrow
  exact ⟨i, hprofile, hstate.imp_right fun hpending =>
    ⟨hpending.1, detectedFor_of_pending (raceControl_reachable h) hpending.2⟩⟩

/-- A tick in which drivers complete a lap, a screen, and the end. -/
def tickAndEnd : List ProgramLabel :=
  [List.replicate 143 (.generate ⟨0, 20000000⟩), List.replicate 6 (.callback 0),
    [.drain false, .process 0, .process 0], List.replicate 16 (.main false),
    [.main true, .main true, .generate ⟨0, 0⟩, .main true, .main true],
    List.replicate 198 (.consume false), List.replicate 26 (.main true)].flatten

theorem exists_tickAndEnd :
    ∃ s, (programSystem () (.init { defaultTrack with lengthKm := 0.25 } fun _ => 0)).Reachable s
      ∧ s.main = .destroy ∧ s.refused = 0
      ∧ (∀ c ∈ s.laps, 1 ≤ c.lapMs ∧ c.lapMs < MachineFloat.maxFinite) ∧ s.laps ≠ [] := by
  have hrun : (((programSystem () (.init { defaultTrack with lengthKm := 0.25 } fun _ => 0)).run
      (.init (.init { defaultTrack with lengthKm := 0.25 } fun _ => 0)) tickAndEnd).any fun s =>
        s.main.isDestroy && decide (s.refused = 0
          ∧ (∀ c ∈ s.laps, 1 ≤ c.lapMs ∧ c.lapMs < MachineFloat.maxFinite)
          ∧ s.laps ≠ [])) = true := by
    decide +kernel
  rw [Option.any_eq_true] at hrun
  obtain ⟨s, hs, hfacts⟩ := hrun
  rw [Bool.and_eq_true, decide_eq_true_eq] at hfacts
  exact ⟨s, System.Reachable.leads .init (System.leads_of_run hs), ConsolePc.eq_destroy hfacts.1,
    hfacts.2⟩

theorem final_report_tickAndEnd :
    ∃ s, (programSystem () (.init { defaultTrack with lengthKm := 0.25 } fun _ => 0)).Reachable s
      ∧ s.report.lap = some s.generator.raceLap ∧ ∃ (i : Fin 20) (best : ℚ),
        s.report.fastestLap = some (((i : ℕ) : ℤ), best)
          ∧ IsLeast {t | ∃ d ∈ s.report.standings.map Prod.fst,
            0 < d.bestLapMs ∧ d.bestLapMs = t} best := by
  obtain ⟨s, hs, hend, hrefused, hlaps, hne⟩ := exists_tickAndEnd
  obtain ⟨⟨hlap, -⟩, -, hfastest⟩ := final_report () _ _ hs hend
  obtain ⟨i, best, hbest, hleast, -⟩ := (hfastest hrefused hlaps).2 hne
  exact ⟨s, hs, hlap, i, best, hbest, hleast⟩

/-- 27 ticks with three checks that flag VER, on a track without wear or fuel burn and with a lap
that nobody completes. Worker 0 stays in the first update, and worker 1 takes the checks. A screen
follows the second check, and another the third. -/
def threeChecks : List ProgramLabel :=
  let tick : List ProgramLabel := List.replicate 143 (.generate ⟨0, 0⟩)
  let update : List ProgramLabel := List.replicate 6 (.callback 0) ++ [.worker 0 0 0]
  let quiet (n : ℕ) : List ProgramLabel := (List.replicate n
    (tick ++ List.replicate 3 (.callback 0) ++ [.drain false, .process 0, .process 0])).flatten
  let check : List ProgramLabel := List.replicate 4 (.callback 1)
    ++ List.replicate 2 (.worker 1 0 0) ++ List.replicate 22 (.worker 1 1 0)
  let drain (n : ℕ) : List ProgramLabel := List.replicate 2 (.callback 0)
    ++ [.drain true, .drain false] ++ List.replicate n (.process 0)
  let screen : List ProgramLabel := List.replicate 16 (.main false)
  tick ++ update ++ [.drain false, .process 0, .process 0] ++ quiet 7 ++ tick ++ check ++ drain 4
    ++ quiet 8 ++ tick ++ check ++ drain 4 ++ screen
    ++ quiet 8 ++ tick ++ check ++ drain 6 ++ screen

theorem penalties_printed_threeChecks :
    ∃ s, (programSystem () (.init ⟨100, 0, 0⟩ fun _ => 0)).Reachable s
      ∧ (s.printed.filter fun row => row.1.profile.id = "VER").map Prod.snd = [.none, .pending]
      ∧ (s.printed.Pairwise fun a b =>
        a.1.profile = b.1.profile → a.2 = .pending → b.2 = .pending)
      ∧ ∃ i, 3 ≤ s.raceControl.detectedFor i := by
  have hrun : ((programSystem () (.init ⟨100, 0, 0⟩ fun _ => 0)).run
      (.init (.init ⟨100, 0, 0⟩ fun _ => 0)) threeChecks).any (fun s => decide
        ((s.printed.filter fun row => row.1.profile.id = "VER").map Prod.snd
          = [.none, .pending])) = true := by
    decide +kernel
  rw [Option.any_eq_true] at hrun
  obtain ⟨s, hs, hrows⟩ := hrun
  rw [decide_eq_true_eq] at hrows
  have hreach : (programSystem () (.init ⟨100, 0, 0⟩ fun _ => 0)).Reachable s :=
    System.Reachable.leads .init (System.leads_of_run hs)
  obtain ⟨horder, hdetected⟩ := penalties_printed () _ _ hreach
  obtain ⟨row, hrow, hpending⟩ : ∃ row ∈ s.printed, row.2 = .pending := by
    have hmem : PenaltyState.pending
        ∈ (s.printed.filter fun row => row.1.profile.id = "VER").map Prod.snd := by
      rw [hrows]
      decide
    obtain ⟨row, hrow, hstate⟩ := List.mem_map.1 hmem
    exact ⟨row, (List.mem_filter.1 hrow).1, hstate⟩
  obtain ⟨i, -, hnone | ⟨-, hthree⟩⟩ := hdetected row hrow
  · rw [hpending] at hnone
    cases hnone
  · exact ⟨s, hreach, hrows, horder, i, hthree⟩

end Run

end ProgramState

end RaceConditionZ
