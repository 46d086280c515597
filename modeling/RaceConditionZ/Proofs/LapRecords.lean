import RaceConditionZ.Proofs.Boards
import RaceConditionZ.Proofs.DriverFrames
import RaceConditionZ.Proofs.PipelineShutdown
import RaceConditionZ.Proofs.TelemetryMoves

/-!
# The two records of the fastest lap

`best_lap_ms` is the least of a driver's laps: its start value lies below every lap of at least a
millisecond, and is given up for the first. The frames that reach the consumer say the same laps,
one frame a lap, so the record it claims is the least of these minima, and the board's scan finds
the same.
-/

namespace RaceConditionZ

open Transition

namespace DriverState

variable (s : DriverState) (track : TrackProfile)

/-- The time of the lap that ends at `now`. -/
def lapMs (now : ℤ) : ℚ := (now - s.lapStart) / 10 ^ 6

theorem advance_lapTimeMs (x : DriverInput) :
    (s.advance track x).latestFrame.lapTimeMs
      = if s.crossesLine track x.noise then s.lapMs x.now else 0 := by
  by_cases hc : s.crossesLine track x.noise
  · rw [s.advance_of_crosses track hc, if_pos hc]
    exact completeLap_field _ track (f := fun t => t.latestFrame.lapTimeMs) rfl rfl
  · rw [if_neg hc]
    unfold advance
    rw [if_neg hc]
    split
    · exact s.handlePit_field (f := fun t => t.latestFrame.lapTimeMs) rfl rfl
    · rfl

theorem advance_bestLapMs (x : DriverInput) :
    (s.advance track x).bestLapMs
      = if s.crossesLine track x.noise ∧ (s.bestLapMs < 1 ∨ s.lapMs x.now < s.bestLapMs) then
        s.lapMs x.now else s.bestLapMs := by
  by_cases hc : s.crossesLine track x.noise
  · have hrecord : ((s.drive track x.noise).recordLap track x.now).bestLapMs
        = if s.bestLapMs < 1 ∨ s.lapMs x.now < s.bestLapMs then s.lapMs x.now
          else s.bestLapMs := rfl
    rw [s.advance_of_crosses track hc]
    simp only [hc, true_and]
    rw [← hrecord]
    exact completeLap_field _ track (f := DriverState.bestLapMs) rfl rfl
  · rw [if_neg (fun h => hc h.1)]
    unfold advance
    rw [if_neg hc]
    split
    · exact s.handlePit_field (f := DriverState.bestLapMs) rfl rfl
    · rfl

end DriverState

/-- `best` is the least of driver `i`'s laps, and `0` before the first. -/
def BestOf (laps : List (LapClaim ℚ)) (i : Fin 20) (best : ℚ) : Prop :=
  (best = 0 ∧ ∀ c ∈ laps, c.driverIndex ≠ (i : ℕ))
    ∨ ⟨(i : ℕ), best⟩ ∈ laps ∧ ∀ c ∈ laps, c.driverIndex = (i : ℕ) → best ≤ c.lapMs

namespace BestOf

variable {laps : List (LapClaim ℚ)} {i : Fin 20} {best : ℚ}

/-- A lap of another driver. -/
theorem other (h : BestOf laps i best) {c : LapClaim ℚ} (hc : c.driverIndex ≠ (i : ℕ)) :
    BestOf (laps ++ [c]) i best := by
  rcases h with ⟨hzero, hnone⟩ | ⟨hmem, hle⟩
  · refine .inl ⟨hzero, fun b hb => ?_⟩
    rcases List.mem_append.1 hb with hb | hb
    · exact hnone b hb
    · rw [List.mem_singleton.1 hb]
      exact hc
  · refine .inr ⟨List.mem_append_left _ hmem, fun b hb hi => ?_⟩
    rcases List.mem_append.1 hb with hb | hb
    · exact hle b hb hi
    · rw [List.mem_singleton.1 hb] at hi
      exact absurd hi hc

/-- A lap of the driver, where no lap is faster than the start value can tell. -/
theorem lap (h : BestOf laps i best) (hlaps : ∀ c ∈ laps, 1 ≤ c.lapMs) (t : ℚ) :
    BestOf (laps ++ [⟨(i : ℕ), t⟩]) i (if best < 1 ∨ t < best then t else best) := by
  rcases h with ⟨hzero, hnone⟩ | ⟨hmem, hle⟩
  · rw [if_pos (.inl (by rw [hzero]; exact zero_lt_one))]
    refine .inr ⟨List.mem_concat_self, fun c hc hi => ?_⟩
    rcases List.mem_append.1 hc with hc | hc
    · exact absurd hi (hnone c hc)
    · rw [List.mem_singleton.1 hc]
  · have hbest : 1 ≤ best := hlaps _ hmem
    split_ifs with hlt
    · have hlt : t < best := hlt.resolve_left (not_lt.2 hbest)
      refine .inr ⟨List.mem_concat_self, fun c hc hi => ?_⟩
      rcases List.mem_append.1 hc with hc | hc
      · exact hlt.le.trans (hle c hc hi)
      · rw [List.mem_singleton.1 hc]
    · refine .inr ⟨List.mem_append_left _ hmem, fun c hc hi => ?_⟩
      rcases List.mem_append.1 hc with hc | hc
      · exact hle c hc hi
      · rw [List.mem_singleton.1 hc]
        exact not_lt.1 fun h => hlt (.inr h)

variable {times : List ℚ}

theorem eq_zero (h : BestOf (times.map fun t => ⟨(i : ℕ), t⟩) i best) (hnil : times = []) :
    best = 0 := by
  rcases h with ⟨hzero, -⟩ | ⟨hmem, -⟩
  · exact hzero
  · rw [hnil] at hmem
    exact absurd hmem List.not_mem_nil

theorem isLeast (h : BestOf (times.map fun t => ⟨(i : ℕ), t⟩) i best) (hne : times ≠ []) :
    IsLeast {t | t ∈ times} best := by
  rcases h with ⟨-, hnone⟩ | ⟨hmem, hle⟩
  · obtain ⟨t, ht⟩ := List.exists_mem_of_ne_nil times hne
    exact absurd rfl (hnone _ (List.mem_map.2 ⟨t, ht, rfl⟩))
  · obtain ⟨t, ht, heq⟩ := List.mem_map.1 hmem
    obtain rfl : t = best := congrArg LapClaim.lapMs heq
    exact ⟨ht, fun u hu => hle _ (List.mem_map.2 ⟨u, hu, rfl⟩) rfl⟩

end BestOf

section Scan

/-- The board's scan keeps the record of the positive best laps. -/
theorem scan_holds_record (board : List DriverState) :
    ∃ holder, Record.Holds DriverState.bestLapMs MachineFloat.maxFinite
        (board.filter fun s => 0 < s.bestLapMs) holder
      ∧ Leaderboard.scanFastestLap (MachineFloat.maxFinite, "") board
        = (Record.standing DriverState.bestLapMs MachineFloat.maxFinite holder,
          holder.elim "" fun s => s.profile.id) := by
  induction board using List.reverseRecOn with
  | nil => exact ⟨none, .nil, rfl⟩
  | append_singleton board s ih =>
    obtain ⟨holder, hholds, hscan⟩ := ih
    have hstep : Leaderboard.scanFastestLap (MachineFloat.maxFinite, "") (board ++ [s])
        = if 0 < s.bestLapMs ∧ s.bestLapMs
            < Record.standing DriverState.bestLapMs MachineFloat.maxFinite holder
          then (s.bestLapMs, s.profile.id)
          else (Record.standing DriverState.bestLapMs MachineFloat.maxFinite holder,
            holder.elim "" fun s => s.profile.id) := by
      unfold Leaderboard.scanFastestLap at hscan ⊢
      rw [List.foldl_append, hscan]
      rfl
    rw [hstep]
    by_cases hpos : 0 < s.bestLapMs
    · rw [List.filter_append, List.filter_cons_of_pos (by simpa using hpos), List.filter_nil]
      by_cases hlt : s.bestLapMs
          < Record.standing DriverState.bestLapMs MachineFloat.maxFinite holder
      · exact ⟨some s, hholds.take hlt, if_pos ⟨hpos, hlt⟩⟩
      · exact ⟨holder, hholds.keep hlt, if_neg fun h => hlt h.2⟩
    · rw [List.filter_append, List.filter_cons_of_neg (by simpa using hpos), List.filter_nil,
        List.append_nil]
      exact ⟨holder, hholds, if_neg fun h => hpos h.1⟩

variable {θ : Type} {b : Leaderboard θ}

/-- The scan names a driver with the least of the positive best laps. -/
theorem fastestLapHolder_of_isLeast {best : ℚ} (hbest : best < MachineFloat.maxFinite)
    (h : IsLeast {t | ∃ d ∈ b.standings, 0 < d.bestLapMs ∧ d.bestLapMs = t} best) :
    ∃ d ∈ b.standings, b.fastestLapHolder = d.profile.id ∧ d.bestLapMs = best := by
  obtain ⟨⟨d, hd, hpos, rfl⟩, hle⟩ := h
  obtain ⟨holder, hholds, hscan⟩ := scan_holds_record b.standings
  have hmem : d ∈ b.standings.filter fun s => 0 < s.bestLapMs :=
    List.mem_filter.2 ⟨hd, by simpa using hpos⟩
  have hnot := hholds.not_lt d hmem
  unfold Leaderboard.fastestLapHolder
  rw [hscan]
  rcases holder with _ | m
  · exact absurd hbest hnot
  · obtain ⟨-, before, after, hsplit, -⟩ := hholds
    have hm : m ∈ b.standings.filter fun s => 0 < s.bestLapMs := by
      rw [hsplit]
      exact List.mem_append_right _ List.mem_cons_self
    obtain ⟨hm, hmpos⟩ := List.mem_filter.1 hm
    exact ⟨m, hm, rfl, le_antisymm (not_lt.1 hnot) (hle ⟨m, hm, by simpa using hmpos, rfl⟩)⟩

theorem fastestLapHolder_of_none (h : ∀ d ∈ b.standings, ¬ 0 < d.bestLapMs) :
    b.fastestLapHolder = "" := by
  obtain ⟨holder, hholds, hscan⟩ := scan_holds_record b.standings
  have hfilter : (b.standings.filter fun s => 0 < s.bestLapMs) = [] := by
    rw [List.filter_eq_nil_iff]
    intro d hd
    simpa using h d hd
  unfold Leaderboard.fastestLapHolder
  rw [hscan]
  rcases holder with _ | m
  · rfl
  · obtain ⟨-, before, after, hsplit, -⟩ := hholds
    rw [hfilter] at hsplit
    simp at hsplit

end Scan

/-- A frame names its driver. -/
theorem driverIndexOf_ofId (i : Fin 20) :
    driverIndexOf (DriverTag.ofId (drivers.get i).id).view = (i : ℕ) := by
  rw [view_ofId, driverIndexOf_get]

theorem lapClaim_of_pos {frame : TelemetryFrame ℚ} {i : Fin 20}
    (hid : frame.driverId = .ofId (drivers.get i).id) (hpos : 0 < frame.lapTimeMs) :
    lapClaim frame = some ⟨(i : ℕ), frame.lapTimeMs⟩ := by
  unfold lapClaim
  rw [hid, driverIndexOf_ofId]
  exact (if_pos hpos).trans (if_pos (Int.natCast_nonneg _))

theorem lapClaim_of_zero {frame : TelemetryFrame ℚ} (hzero : frame.lapTimeMs = 0) :
    lapClaim frame = none := by
  unfold lapClaim
  rw [hzero]
  exact if_neg (lt_irrefl _)

namespace TelemetryGenerator

variable (g : TelemetryGenerator) (x : TickInput) (i : Fin 20)

theorem tickDriver_state (j : Fin 20) :
    (g.tickDriver x i).states j
      = if j = i then (g.states i).advance g.track (x i) else g.states j := by
  show Function.update g.states i _ j = _
  split_ifs with hj
  · rw [hj, Function.update_self]
  · exact Function.update_of_ne hj ..

/-- The lap that driver `i` completes in its turn. -/
def lapsOf : List (LapClaim ℚ) :=
  if (g.states i).crossesLine g.track (x i).noise then [⟨(i : ℕ), (g.states i).lapMs (x i).now⟩]
  else []

/-- What the states and the frames tell of the laps, as long as none is shorter than a
millisecond. -/
structure LapInv (laps : List (LapClaim ℚ)) : Prop where
  profile : ∀ i, (g.states i).profile = drivers.get i
  driverId : ∀ i, (g.states i).latestFrame.driverId = .ofId (drivers.get i).id
  claims : (∀ c ∈ laps, 1 ≤ c.lapMs) → claimsOf g.offered = laps
  best : (∀ c ∈ laps, 1 ≤ c.lapMs) → ∀ i, BestOf laps i (g.states i).bestLapMs

variable {g} {laps : List (LapClaim ℚ)}

theorem LapInv.tickDriver (h : g.LapInv laps) :
    (g.tickDriver x i).LapInv (laps ++ g.lapsOf x i) := by
  have hadvance := (g.states i).advance_lapTimeMs g.track (x i)
  refine ⟨fun j => ?_, fun j => ?_, fun hlaps => ?_, fun hlaps j => ?_⟩
  · rw [tickDriver_state]
    split_ifs with hj
    · rw [DriverState.advance_profile, hj, h.profile]
    · exact h.profile j
  · rw [tickDriver_state]
    split_ifs with hj
    · rw [DriverState.advance_driverId, hj, h.driverId]
    · exact h.driverId j
  · have hbefore := h.claims fun c hc => hlaps c (List.mem_append_left _ hc)
    have hid : ((g.states i).advance g.track (x i)).latestFrame.driverId
        = .ofId (drivers.get i).id := by
      rw [DriverState.advance_driverId, h.driverId]
    unfold claimsOf at hbefore ⊢
    rw [tickDriver_offered, List.filterMap_append, hbefore]
    congr 1
    unfold lapsOf at hlaps ⊢
    by_cases hc : (g.states i).crossesLine g.track (x i).noise
    · rw [if_pos hc] at hadvance hlaps ⊢
      have hlap : 1 ≤ (g.states i).lapMs (x i).now := hlaps _ List.mem_concat_self
      have hpos : 0 < ((g.states i).advance g.track (x i)).latestFrame.lapTimeMs := by
        rw [hadvance]
        exact zero_lt_one.trans_le hlap
      rw [List.filterMap_cons_some (lapClaim_of_pos hid hpos), hadvance, List.filterMap_nil]
    · rw [if_neg hc] at hadvance ⊢
      rw [List.filterMap_cons_none (lapClaim_of_zero hadvance), List.filterMap_nil]
  · have hbest := h.best (fun c hc => hlaps c (List.mem_append_left _ hc)) j
    have hbefore : ∀ c ∈ laps, 1 ≤ c.lapMs := fun c hc => hlaps c (List.mem_append_left _ hc)
    unfold lapsOf
    rw [tickDriver_state]
    by_cases hc : (g.states i).crossesLine g.track (x i).noise
    · rw [if_pos hc]
      split_ifs with hj
      · subst hj
        rw [DriverState.advance_bestLapMs]
        simp only [hc, true_and]
        exact hbest.lap hbefore _
      · refine hbest.other fun hij => hj ?_
        have hij : ((i : ℕ) : ℤ) = (j : ℕ) := hij
        exact (Fin.ext (by exact_mod_cast hij)).symm
    · rw [if_neg hc, List.append_nil]
      split_ifs with hj
      · subst hj
        rw [DriverState.advance_bestLapMs, if_neg fun h => hc h.1]
        exact hbest
      · exact hbest

theorem updatePositionsAndDrs_bestLapMs :
    (g.updatePositionsAndDrs.states i).bestLapMs = (g.states i).bestLapMs := by
  simp only [updatePositionsAndDrs, placed]

theorem LapInv.update (h : g.LapInv laps) : g.updatePositionsAndDrs.LapInv laps := by
  refine ⟨fun i => ?_, fun i => ?_, fun hlaps => ?_, fun hlaps i => ?_⟩
  · rw [updatePositionsAndDrs_profile, h.profile]
  · rw [updatePositionsAndDrs_driverId, h.driverId]
  · rw [updatePositionsAndDrs_offered, h.claims hlaps]
  · rw [updatePositionsAndDrs_bestLapMs]
    exact h.best hlaps i

theorem lapInv_init (track : TrackProfile) (lapStart : Fin 20 → ℤ) :
    (init track lapStart).LapInv [] where
  profile := init_profile track lapStart
  driverId _ := rfl
  claims _ := rfl
  best _ _ := .inl ⟨rfl, by simp⟩

end TelemetryGenerator

namespace TelemetryState

variable {θ : Type}

/-- The frame whose `push` is in progress and not yet published. -/
def inPush (s : TelemetryState θ) : List (TelemetryFrame ℚ) :=
  match s.pc, s.pipeline.spsc.producer with
  | .push _, some p => if p.pc = .returned true then [] else [p.item]
  | _, _ => []

structure TelemetryInv (s : TelemetryState θ) : Prop where
  laps : s.generator.LapInv s.laps
  accepted : s.refused = 0 →
    s.generator.offered = s.pipeline.spsc.history.pushed ++ s.inPush
  board : s.pc = .testStop ∨ s.pc = .returned →
    s.board.standings = [] ∧ s.laps = [] ∨ s.board.standings = s.generator.standings
  stopped : s.pipeline.stop ≠ .notCalled → s.stop = .returned
  joined : s.stop = .returned → s.pc = .returned

variable {s s' : TelemetryState θ}

/-- A step that leaves the generator alone, and of the pipeline at most moves the consumer. -/
theorem TelemetryInv.of_pipeline (h : s.TelemetryInv) (hgen : s'.generator = s.generator)
    (hpc : s'.pc = s.pc) (hlaps : s'.laps = s.laps) (hrefused : s'.refused = s.refused)
    (hboard : s'.board = s.board)
    (hproducer : s'.pipeline.spsc.producer = s.pipeline.spsc.producer)
    (hpushed : s'.pipeline.spsc.history.pushed = s.pipeline.spsc.history.pushed)
    (hstopped : s'.pipeline.stop ≠ .notCalled → s'.stop = .returned)
    (hjoined : s'.stop = .returned → s'.pc = .returned) : s'.TelemetryInv := by
  refine ⟨?_, ?_, ?_, hstopped, hjoined⟩
  · rw [hgen, hlaps]
    exact h.laps
  · unfold inPush
    rw [hgen, hpc, hrefused, hproducer, hpushed]
    exact h.accepted
  · rw [hgen, hpc, hlaps, hboard]
    exact h.board

theorem TelemetryInv.consume {spurious : Bool} {pipeline : PipelineState ℚ}
    (h : s.TelemetryInv) (hst : s.pipeline.step (.consume spurious) = some pipeline) :
    TelemetryInv { s with pipeline := pipeline } := by
  obtain ⟨hproducer, hpushed, hstop⟩ := PipelineState.consume_frame hst
  refine h.of_pipeline rfl rfl rfl rfl rfl hproducer hpushed ?_ h.joined
  intro hne
  refine h.stopped ?_
  rw [← hstop]
  exact hne

theorem TelemetryInv.stopConsumer {l : PipelineLabel ℚ} {pipeline : PipelineState ℚ}
    (h : s.TelemetryInv) (hstop : s.stop = .returned) (hl : l = .requestStop ∨ l = .join)
    (hst : s.pipeline.step l = some pipeline) : TelemetryInv { s with pipeline := pipeline } := by
  have hspsc : pipeline.spsc = s.pipeline.spsc := by
    rcases hl with rfl | rfl
    · simp only [PipelineState.step, Option.ite_none_right_eq_some, Option.some.injEq] at hst
      obtain ⟨-, rfl⟩ := hst
      rfl
    · simp only [PipelineState.step, Option.ite_none_right_eq_some] at hst
      obtain ⟨-, hst⟩ := hst
      split at hst
      · cases hst
        rfl
      · cases hst
  refine h.of_pipeline rfl rfl rfl rfl rfl ?_ ?_ (fun _ => hstop) h.joined
  · simp only [hspsc]
  · simp only [hspsc]

theorem TelemetryInv.drive {x : DriverInput} {i : Fin 20} {rest : List (Fin 20)}
    (h : s.TelemetryInv) (hpc : s.pc = .drive (i :: rest)) (hst : s.drive x i rest = some s') :
    s'.TelemetryInv := by
  have hrunning : s.stop ≠ .returned := by
    intro hret
    have hpc' := h.joined hret
    rw [hpc] at hpc'
    cases hpc'
  have hlaps := h.laps.tickDriver (fun _ => x) i
  have hadvance := (s.generator.states i).advance_lapTimeMs s.generator.track x
  unfold TelemetryState.drive at hst
  simp only [Option.map_eq_some_iff] at hst
  obtain ⟨pipeline, hpipeline, rfl⟩ := hst
  simp only [PipelineState.step, SpscState.step, Option.ite_none_right_eq_some,
    Option.map_eq_some_iff, Option.some.injEq] at hpipeline
  obtain ⟨hstop, spsc, ⟨-, rfl⟩, rfl⟩ := hpipeline
  refine ⟨?_, fun hrefused => ?_, fun hidle => ?_, fun hne => ?_, fun hret => ?_⟩
  · have hlap : (if (s.generator.states i).crossesLine s.generator.track x.noise then
          [(⟨(i : ℕ), ((s.generator.tickDriver (fun _ => x) i).states i).latestFrame.lapTimeMs⟩ :
            LapClaim ℚ)]
        else []) = s.generator.lapsOf (fun _ => x) i := by
      unfold TelemetryGenerator.lapsOf
      rw [TelemetryGenerator.tickDriver_state, if_pos rfl, hadvance]
      split_ifs <;> rfl
    simp only [hlap]
    exact hlaps
  · have haccepted := h.accepted hrefused
    unfold inPush at haccepted ⊢
    rw [hpc] at haccepted
    simp only [List.append_nil] at haccepted
    simp only [TelemetryGenerator.tickDriver_offered, haccepted,
      TelemetryGenerator.tickDriver_state]
    rfl
  · rcases hidle with hidle | hidle <;> cases hidle
  · exact absurd hstop hne
  · exact absurd hret hrunning

theorem TelemetryInv.push {rest : List (Fin 20)} {p : Push (TelemetryFrame ℚ)}
    {pipeline : PipelineState ℚ} (h : s.TelemetryInv) (hpc : s.pc = .push rest)
    (hp : s.pipeline.spsc.producer = some p) (hp' : ∀ ok, p.pc ≠ .returned ok)
    (hst : s.pipeline.step .push = some pipeline) :
    TelemetryInv { s with pipeline := pipeline } := by
  simp only [PipelineState.step, Option.map_eq_some_iff] at hst
  obtain ⟨spsc, hspsc, rfl⟩ := hst
  obtain ⟨p', hproducer, hitem, hpushed⟩ := SpscState.push_adds hp hspsc
  refine ⟨h.laps, fun hrefused => ?_, h.board, h.stopped, h.joined⟩
  have haccepted := h.accepted hrefused
  unfold inPush at haccepted ⊢
  simp only [hpc, hp, if_neg (hp' true)] at haccepted
  simp only [hpc, hproducer, hpushed, haccepted, hitem, List.append_assoc]
  split_ifs <;> rfl

theorem TelemetryInv.publish [DecidableEq θ] {tid : θ} (h : s.TelemetryInv)
    (hpc : s.pc = .drive []) (hst : s.publish tid = some s') : s'.TelemetryInv := by
  unfold TelemetryState.publish Leaderboard.update at hst
  simp only [Option.map_eq_some_iff] at hst
  obtain ⟨board, ⟨claimed, -, rfl⟩, rfl⟩ := hst
  refine ⟨h.laps.update, fun hrefused => ?_, fun _ => .inr ?_, h.stopped, fun hret => ?_⟩
  · have haccepted := h.accepted hrefused
    unfold inPush at haccepted ⊢
    simp only [hpc] at haccepted
    simp only [TelemetryGenerator.updatePositionsAndDrs_offered]
    exact haccepted
  · simp only []
  · have hpc' := h.joined hret
    rw [hpc] at hpc'
    cases hpc'

/-- The `push` of a frame has come back. -/
theorem TelemetryInv.pushed {rest : List (Fin 20)} {p : Push (TelemetryFrame ℚ)} {ok : Bool}
    (h : s.TelemetryInv) (hpc : s.pc = .push rest) (hp : s.pipeline.spsc.producer = some p)
    (hret : p.pc = .returned ok) : TelemetryInv { s with
      pc := .drive rest
      refused := if ok then s.refused else s.refused + 1 } := by
  refine ⟨h.laps, fun hrefused => ?_, fun hidle => ?_, h.stopped, fun hjoined => ?_⟩
  · rcases ok with _ | _
    · cases hrefused
    · have haccepted := h.accepted hrefused
      unfold inPush at haccepted ⊢
      simp only [hpc, hp, hret, if_true] at haccepted
      exact haccepted
  · rcases hidle with hidle | hidle <;> cases hidle
  · have hpc' := h.joined hjoined
    rw [hpc] at hpc'
    cases hpc'

theorem TelemetryInv.move [DecidableEq θ] {tid : θ} (h : s.TelemetryInv) (hmove : s.Move tid s') :
    s'.TelemetryInv := by
  have haccepted := h.accepted
  unfold inPush at haccepted
  cases hmove with
  | leave hpc =>
    simp only [hpc] at haccepted
    exact ⟨h.laps, haccepted, fun _ => h.board (.inl hpc), h.stopped, fun _ => rfl⟩
  | enter hpc hstop =>
    simp only [hpc] at haccepted
    refine ⟨h.laps, haccepted, fun hidle => ?_, h.stopped, fun hret => ?_⟩
    · rcases hidle with hidle | hidle <;> cases hidle
    · have hret : s.stop = .returned := hret
      rw [hstop] at hret
      cases hret
  | drive hpc hst => exact h.drive hpc hst
  | push hpc hp hp' hst => exact h.push hpc hp hp' hst
  | pushed hpc hp hret => exact h.pushed hpc hp hret
  | publish hpc hst => exact h.publish hpc hst
  | consume hst => exact h.consume hst
  | callStop hstop =>
    refine h.of_pipeline rfl rfl rfl rfl rfl rfl rfl (fun hne => ?_) (fun hret => by cases hret)
    have hret := h.stopped hne
    rw [hstop] at hret
    cases hret
  | join hstop hpc => exact h.of_pipeline rfl rfl rfl rfl rfl rfl rfl (fun _ => rfl) (fun _ => hpc)
  | stopConsumer hstop hl hst => exact h.stopConsumer hstop hl hst

end TelemetryState

section Run

variable {θ : Type} [DecidableEq θ] {tid : θ} {start : TelemetryGenerator}

/-- The pipeline runs as it does on its own, but for the lap in the race state. -/
theorem pipeline_reachable {s : TelemetryState θ}
    (h : (telemetrySystem tid start).Reachable s) :
    (pipelineSystem ℚ).Reachable (s.pipeline.setLap 1) := by
  refine System.Reachable.map (f := fun s : TelemetryState θ => s.pipeline.setLap 1) rfl ?_ h
  intro s l s' _ hst
  have hpipeline : ∀ {l : PipelineLabel ℚ} {pipeline : PipelineState ℚ},
      s.pipeline.step l = some pipeline → s'.pipeline = pipeline →
      ∃ k, (pipelineSystem ℚ).step (s.pipeline.setLap 1) k = some (s'.pipeline.setLap 1) := by
    intro l pipeline hstep heq
    rw [heq]
    exact ⟨l, PipelineState.step_setLap hstep 1⟩
  have hmove := TelemetryState.move_of_step hst
  clear hst
  cases hmove with
  | drive hpc hst =>
    unfold TelemetryState.drive at hst
    simp only [Option.map_eq_some_iff] at hst
    obtain ⟨pipeline, hstep, rfl⟩ := hst
    exact .inr (hpipeline hstep rfl)
  | publish hpc hst =>
    unfold TelemetryState.publish at hst
    simp only [Option.map_eq_some_iff] at hst
    obtain ⟨board, -, rfl⟩ := hst
    exact .inl rfl
  | push hpc hp hp' hst => exact .inr (hpipeline hst rfl)
  | consume hst => exact .inr (hpipeline hst rfl)
  | stopConsumer hstop hl hst => exact .inr (hpipeline hst rfl)
  | leave => exact .inl rfl
  | enter => exact .inl rfl
  | pushed => exact .inl rfl
  | callStop => exact .inl rfl
  | join => exact .inl rfl

theorem telemetryInv {track : TrackProfile} {lapStart : Fin 20 → ℤ} {s : TelemetryState θ}
    (h : (telemetrySystem tid (.init track lapStart)).Reachable s) : s.TelemetryInv := by
  refine h.invariant ⟨TelemetryGenerator.lapInv_init track lapStart, fun _ => rfl,
    fun _ => .inl ⟨rfl, rfl⟩, fun hne => absurd rfl hne, fun hret => by cases hret⟩ ?_
  exact fun _ hinv _ hst => hinv.move (TelemetryState.move_of_step hst)

/-- A lap is of a driver of the table. -/
theorem driverIndex_of_mem_claimsOf {frames : List (TelemetryFrame ℚ)} {c : LapClaim ℚ}
    (h : c ∈ claimsOf frames) : ∃ i : Fin 20, c.driverIndex = (i : ℕ) := by
  obtain ⟨frame, -, hclaim⟩ := List.mem_filterMap.1 h
  obtain ⟨i, -, rfl⟩ := lapClaim_eq_some.1 hclaim
  exact ⟨i, rfl⟩

/-- The record of the race state, of the laps. -/
theorem record_of_stopped {track : TrackProfile} {lapStart : Fin 20 → ℤ} {s : TelemetryState θ}
    (h : (telemetrySystem tid (.init track lapStart)).Reachable s)
    (hstop : s.pipeline.stop = .returned) (hrefused : s.refused = 0)
    (hlaps : ∀ c ∈ s.laps, 1 ≤ c.lapMs ∧ c.lapMs < MachineFloat.maxFinite) :
    (∀ c ∈ s.laps, s.pipeline.race.fastestLapMs ≤ c.lapMs)
      ∧ (s.laps = [] ∧ s.pipeline.race.fastestLapHolder = -1
        ∨ ∃ c ∈ s.laps, s.pipeline.race.fastestLapMs = c.lapMs
          ∧ s.pipeline.race.fastestLapHolder = c.driverIndex) := by
  have hinv := telemetryInv h
  have hpc : s.pc = .returned := hinv.joined (hinv.stopped (by rw [hstop]; simp))
  have hpushed := hinv.accepted hrefused
  unfold TelemetryState.inPush at hpushed
  simp only [hpc, List.append_nil] at hpushed
  have hclaims := hinv.laps.claims fun c hc => (hlaps c hc).1
  rw [hpushed] at hclaims
  have hrace := race_of_joined (pipeline_reachable h) hstop
  obtain ⟨holder, hholds, htime, hindex⟩ := claims_hold_record (F := ℚ) RaceState.initial s.laps
  rw [RaceState.afterFrames, PipelineState.setLap_spsc, hclaims] at hrace
  rw [← hrace] at htime hindex
  refine ⟨fun c hc => ?_, ?_⟩
  · have hnot := hholds.not_lt c hc
    rw [← htime] at hnot
    exact not_lt.1 hnot
  · rcases holder with _ | c
    · refine .inl ⟨List.eq_nil_iff_forall_not_mem.2 fun c hc => ?_, hindex⟩
      exact hholds c hc (hlaps c hc).2
    · obtain ⟨-, before, after, hsplit, -⟩ := hholds
      refine .inr ⟨c, ?_, htime, hindex⟩
      rw [hsplit]
      exact List.mem_append_right _ List.mem_cons_self

theorem holder_of_no_laps {track : TrackProfile} {lapStart : Fin 20 → ℤ} {s : TelemetryState θ}
    (h : (telemetrySystem tid (.init track lapStart)).Reachable s)
    (hstop : s.pipeline.stop = .returned) (hrefused : s.refused = 0) (hnil : s.laps = []) :
    s.pipeline.race.fastestLapHolder = -1 := by
  have hnone : ∀ c, c ∉ s.laps := List.eq_nil_iff_forall_not_mem.1 hnil
  obtain ⟨-, hrecord⟩ := record_of_stopped h hstop hrefused fun c hc => absurd hc (hnone c)
  rcases hrecord with ⟨-, hholder⟩ | ⟨c, hc, -⟩
  · exact hholder
  · exact absurd hc (hnone c)

/-- The record of the race state, on the board. -/
theorem least_on_board {track : TrackProfile} {lapStart : Fin 20 → ℤ} {s : TelemetryState θ}
    (h : (telemetrySystem tid (.init track lapStart)).Reachable s)
    (hstop : s.pipeline.stop = .returned) (hrefused : s.refused = 0)
    (hlaps : ∀ c ∈ s.laps, 1 ≤ c.lapMs ∧ c.lapMs < MachineFloat.maxFinite) (hne : s.laps ≠ []) :
    IsLeast {t | ∃ d ∈ s.board.standings, 0 < d.bestLapMs ∧ d.bestLapMs = t}
        s.pipeline.race.fastestLapMs
      ∧ ∃ i : Fin 20, s.pipeline.race.fastestLapHolder = (i : ℕ)
        ∧ ∃ d ∈ s.board.standings, d.profile = drivers.get i
          ∧ d.bestLapMs = s.pipeline.race.fastestLapMs := by
  have hinv := telemetryInv h
  have hpc : s.pc = .returned := hinv.joined (hinv.stopped (by rw [hstop]; simp))
  have hboard := (hinv.board (.inr hpc)).resolve_left fun hnone => hne hnone.2
  have hbest := hinv.laps.best fun c hc => (hlaps c hc).1
  obtain ⟨hle, hrecord⟩ := record_of_stopped h hstop hrefused hlaps
  obtain ⟨c, hc, htime, hholder⟩ := hrecord.resolve_left fun hnone => hne hnone.1
  obtain ⟨i, hi⟩ : ∃ i : Fin 20, c.driverIndex = (i : ℕ) := by
    rw [← hinv.laps.claims fun c hc => (hlaps c hc).1] at hc
    exact driverIndex_of_mem_claimsOf hc
  have hdriver : (s.generator.states i).bestLapMs = s.pipeline.race.fastestLapMs := by
    rcases hbest i with ⟨-, hnone⟩ | ⟨hmem, hleast⟩
    · exact absurd hi (hnone c hc)
    · exact le_antisymm ((hleast c hc hi).trans htime.ge) (hle _ hmem)
  have hrow : s.generator.states i ∈ s.board.standings := by
    rw [hboard]
    exact TelemetryGenerator.mem_standings.2 ⟨i, rfl⟩
  refine ⟨⟨⟨_, hrow, ?_, hdriver⟩, ?_⟩, i, hholder.trans hi, _, hrow, hinv.laps.profile i, hdriver⟩
  · rw [hdriver, htime]
    exact zero_lt_one.trans_le (hlaps c hc).1
  · rintro t ⟨d, hd, hpos, rfl⟩
    rw [hboard] at hd
    obtain ⟨j, rfl⟩ := TelemetryGenerator.mem_standings.1 hd
    rcases hbest j with ⟨hzero, -⟩ | ⟨hmem, -⟩
    · exact absurd hzero hpos.ne'
    · exact hle _ hmem

/-- What both records are at the end. -/
theorem fastest_laps_agree (tid : θ) (track : TrackProfile) (lapStart : Fin 20 → ℤ)
    {s : TelemetryState θ} (h : (telemetrySystem tid (.init track lapStart)).Reachable s)
    (hstop : s.pipeline.stop = .returned) (hrefused : s.refused = 0)
    (hlaps : ∀ c ∈ s.laps, 1 ≤ c.lapMs ∧ c.lapMs < MachineFloat.maxFinite) :
    let best := s.pipeline.race.fastestLapMs
    let holder := s.pipeline.race.fastestLapHolder
    (s.laps ≠ [] →
      IsLeast {t | ∃ d ∈ s.board.standings, 0 < d.bestLapMs ∧ d.bestLapMs = t} best
        ∧ (∃ i : Fin 20, holder = (i : ℕ)
          ∧ ∃ d ∈ s.board.standings, d.profile = drivers.get i ∧ d.bestLapMs = best)
        ∧ ∃ d ∈ s.board.standings, s.board.fastestLapHolder = d.profile.id ∧ d.bestLapMs = best)
      ∧ (s.laps = [] → holder = -1 ∧ s.board.fastestLapHolder = "") := by
  intro best holder
  refine ⟨fun hne => ?_, fun hnil => ⟨holder_of_no_laps h hstop hrefused hnil, ?_⟩⟩
  · obtain ⟨hleast, hdriver⟩ := least_on_board h hstop hrefused hlaps hne
    have hle := (record_of_stopped h hstop hrefused hlaps).1
    obtain ⟨c, hc⟩ := List.exists_mem_of_ne_nil _ hne
    have hlt : best < MachineFloat.maxFinite := (hle c hc).trans_lt (hlaps c hc).2
    exact ⟨hleast, hdriver, fastestLapHolder_of_isLeast hlt hleast⟩
  · have hinv := telemetryInv h
    have hpc : s.pc = .returned := hinv.joined (hinv.stopped (by rw [hstop]; simp))
    have hmin := hinv.laps.best fun c hc => (hlaps c hc).1
    refine fastestLapHolder_of_none fun d hd hpos => ?_
    rcases hinv.board (.inr hpc) with ⟨hempty, -⟩ | hstandings
    · rw [hempty] at hd
      cases hd
    · rw [hstandings] at hd
      obtain ⟨j, rfl⟩ := TelemetryGenerator.mem_standings.1 hd
      rcases hmin j with ⟨hzero, -⟩ | ⟨hmem, -⟩
      · exact hpos.ne' hzero
      · rw [hnil] at hmem
        cases hmem

/-- A tick on a track so short that drivers complete a lap, the two calls of `stop`, and the
drain. -/
def tickStopDrain : List TelemetryLabel :=
  List.replicate 142 (.generate ⟨0, 20000000⟩) ++ .main :: .generate ⟨0, 0⟩
    :: .main :: .main :: List.replicate 198 (.consume false) ++ [.main]

theorem fastest_laps_agree_tickStopDrain :
    let M := telemetrySystem () (.init { defaultTrack with lengthKm := 0.25 } fun _ => 0)
    let s := (M.run M.init tickStopDrain).get (by decide +kernel)
    IsLeast {t | ∃ d ∈ s.board.standings, 0 < d.bestLapMs ∧ d.bestLapMs = t}
      s.pipeline.race.fastestLapMs := by
  intro M s
  have hs : M.Reachable s := System.reachable_get tickStopDrain (by decide +kernel)
  have hend : s.pipeline.stop = .returned ∧ s.refused = 0
      ∧ (∀ c ∈ s.laps, 1 ≤ c.lapMs ∧ c.lapMs < MachineFloat.maxFinite) ∧ s.laps ≠ [] := by
    decide +kernel
  obtain ⟨hstop, hrefused, hlaps, hne⟩ := hend
  exact ((fastest_laps_agree () _ _ hs hstop hrefused hlaps).1 hne).1

end Run

end RaceConditionZ
