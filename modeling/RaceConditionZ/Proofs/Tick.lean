import Mathlib.Tactic.NormNum
import RaceConditionZ.TelemetryGenerator

/-!
# What a tick does

The loop body at a driver touches that driver only, so each driver's state after the loop is its
own advance of the state before (`advanceAll_states`). The end of the tick then rewrites positions,
gaps and DRS, and nothing else.
-/

namespace RaceConditionZ

theorem clamp_mem {lo hi : ℚ} (h : lo ≤ hi) (v : ℚ) : lo ≤ clamp v lo hi ∧ clamp v lo hi ≤ hi := by
  unfold clamp
  split_ifs with h1 h2
  · exact ⟨le_rfl, h⟩
  · exact ⟨h, le_rfl⟩
  · exact ⟨not_lt.1 h1, not_lt.1 h2⟩

theorem clamp_eq_hi {lo hi v : ℚ} (h : lo ≤ hi) (hv : hi ≤ v) : clamp v lo hi = hi := by
  unfold clamp
  rw [if_neg (not_lt.2 (h.trans hv))]
  split_ifs with hlt
  · rfl
  · exact le_antisymm (not_lt.1 hlt) hv

theorem clamp_eq_lo {lo hi v : ℚ} (hv : v < lo) : clamp v lo hi = lo := if_pos hv

theorem le_clamp {a v lo hi : ℚ} (hv : a ≤ v) (hhi : a ≤ hi) : a ≤ clamp v lo hi := by
  unfold clamp
  split_ifs with hlo
  · exact hv.trans hlo.le
  · exact hhi
  · exact hv

/-- What DRS adds to the speed. -/
theorem drsBonus_mem (active : Bool) :
    (0 : ℚ) ≤ (if active then 12 else 0) ∧ (if active then 12 else 0 : ℚ) ≤ 12 := by
  split <;> norm_num

namespace DriverState

variable (s : DriverState) (track : TrackProfile)

/-- A tick in the pits, before the timer is looked at. -/
def pitTick : DriverState :=
  { s with
    pitTimerTicks := s.pitTimerTicks - 1
    latestFrame := { s.latestFrame with
      inPit := true
      speedKph := 60
      throttle := 0.2
      brake := 0.1
      lapTimeMs := 0 } }

theorem handlePit_eq :
    s.handlePit = if s.pitTick.pitTimerTicks ≤ 0 then s.pitTick.leavePit else s.pitTick := rfl

/-- What a tick in the pits makes of a field, whether or not it ends the stop. -/
theorem handlePit_field {β : Type*} {f : DriverState → β} {v : β} (hstay : f s.pitTick = v)
    (hleave : f s.pitTick.leavePit = v) : f s.handlePit = v := by
  rw [handlePit_eq]
  split
  · exact hleave
  · exact hstay

/-- What the end of a lap makes of a field, whether or not the driver turns into the pits. -/
theorem completeLap_field {β : Type*} {f : DriverState → β} {v : β} {now : ℤ}
    (hstay : f (s.recordLap track now) = v) (hpits : f (s.recordLap track now).enterPit = v) :
    f (s.completeLap track now) = v := by
  unfold completeLap
  simp only []
  split
  · exact hpits
  · exact hstay

@[simp]
theorem handlePit_lap : s.handlePit.latestFrame.lap = s.latestFrame.lap :=
  s.handlePit_field (f := fun t => t.latestFrame.lap) rfl rfl

@[simp]
theorem handlePit_position : s.handlePit.position = s.position :=
  s.handlePit_field (f := DriverState.position) rfl rfl

@[simp]
theorem drive_lap (noise : ℚ) : (s.drive track noise).latestFrame.lap = s.latestFrame.lap := rfl

@[simp]
theorem drive_position (noise : ℚ) : (s.drive track noise).position = s.position := rfl

@[simp]
theorem completeLap_lap (now : ℤ) :
    (s.completeLap track now).latestFrame.lap = s.latestFrame.lap + 1 :=
  s.completeLap_field track (f := fun t => t.latestFrame.lap) rfl rfl

@[simp]
theorem completeLap_position (now : ℤ) : (s.completeLap track now).position = s.position :=
  s.completeLap_field track (f := DriverState.position) rfl rfl

theorem advance_of_crosses {x : DriverInput} (h : s.crossesLine track x.noise) :
    s.advance track x = (s.drive track x.noise).completeLap track x.now := by
  unfold advance
  rw [if_neg (by simp [h.1]), if_pos h]

theorem advance_lap (x : DriverInput) :
    (s.advance track x).latestFrame.lap
      = s.latestFrame.lap + if s.crossesLine track x.noise then 1 else 0 := by
  by_cases hc : s.crossesLine track x.noise
  · rw [s.advance_of_crosses track hc, if_pos hc, completeLap_lap, drive_lap]
  · unfold advance
    rw [if_neg hc, if_neg hc, add_zero]
    split
    · exact s.handlePit_lap
    · exact s.drive_lap track x.noise

theorem advance_position (x : DriverInput) : (s.advance track x).position = s.position := by
  unfold advance
  split_ifs <;> simp

end DriverState

namespace TelemetryGenerator

variable (g : TelemetryGenerator) (x : TickInput)

theorem ticks_nil : g.ticks [] = g := by
  unfold ticks
  rw [List.foldl_nil]

theorem ticks_cons (xs : List TickInput) : g.ticks (x :: xs) = (g.tick x).ticks xs := by
  unfold ticks
  rw [List.foldl_cons]

theorem ticks_concat (xs : List TickInput) : g.ticks (xs ++ [x]) = (g.ticks xs).tick x := by
  unfold ticks
  rw [List.foldl_append, List.foldl_cons, List.foldl_nil]

theorem ticks_append (xs ys : List TickInput) : g.ticks (xs ++ ys) = (g.ticks xs).ticks ys := by
  unfold ticks
  rw [List.foldl_append]

theorem local_tickDriver :
    Sweep.Local track states (fun g i => g.tickDriver x i)
      (fun track i s => s.advance track (x i)) where
  env_eq _ _ := rfl
  get_eq _ _ := rfl

@[simp]
theorem advanceAll_track : (g.advanceAll x).track = g.track :=
  (local_tickDriver x).env_foldl _ g

theorem advanceAll_states (i : Fin 20) :
    (g.advanceAll x).states i = (g.states i).advance g.track (x i) := by
  unfold advanceAll
  rw [(local_tickDriver x).get_foldl (List.nodup_finRange 20), if_pos (List.mem_finRange i)]

variable {g x} in
/-- A driver's turn reads the driver's own input. -/
theorem tickDriver_congr {y : TickInput} {i : Fin 20} (h : x i = y i) :
    g.tickDriver x i = g.tickDriver y i := by
  unfold tickDriver
  rw [h]

/-- One more turn, with the input that it alone reads. -/
theorem foldl_tickDriver_concat {is : List (Fin 20)} {i : Fin 20} (hi : i ∉ is)
    (d : DriverInput) :
    (is.foldl (fun g j => g.tickDriver x j) g).tickDriver (fun _ => d) i
      = (is ++ [i]).foldl (fun g j => g.tickDriver (Function.update x i d) j) g := by
  have hbefore : is.foldl (fun g j => g.tickDriver x j) g
      = is.foldl (fun g j => g.tickDriver (Function.update x i d) j) g := by
    refine List.foldl_ext _ _ g fun g j hj => tickDriver_congr ?_
    have hji : j ≠ i := by
      rintro rfl
      exact hi hj
    rw [Function.update_of_ne hji]
  rw [List.foldl_append, List.foldl_cons, List.foldl_nil, hbefore]
  refine tickDriver_congr ?_
  rw [Function.update_self]

/-- The guard of the race's end, for the state a driver starts the tick with. -/
def EndsRace (s : DriverState) (track : TrackProfile) (noise : ℚ) : Prop :=
  s.crossesLine track noise ∧ totalLaps < s.latestFrame.lap + 1 ∧ s.position = 1

theorem tickDriver_raceFinished (i : Fin 20) :
    (g.tickDriver x i).raceFinished = true
      ↔ g.raceFinished = true ∨ EndsRace (g.states i) g.track (x i).noise := by
  unfold tickDriver EndsRace
  simp only [Bool.or_eq_true, Bool.and_eq_true, decide_eq_true_eq, DriverState.advance_lap,
    DriverState.advance_position, and_assoc]
  refine or_congr_right (and_congr_right fun hc => ?_)
  rw [if_pos hc]

theorem advanceAll_raceFinished :
    (g.advanceAll x).raceFinished = true
      ↔ g.raceFinished = true ∨ ∃ i, EndsRace (g.states i) g.track (x i).noise := by
  unfold advanceAll
  rw [(local_tickDriver x).flag_foldl (fun g => g.raceFinished = true)
    (fun track i s => EndsRace s track (x i).noise)
    (fun g i => g.tickDriver_raceFinished x i) (List.nodup_finRange 20)]
  simp only [List.mem_finRange, true_and]

@[simp]
theorem updatePositionsAndDrs_track : g.updatePositionsAndDrs.track = g.track := by
  simp only [updatePositionsAndDrs]

@[simp]
theorem updatePositionsAndDrs_raceFinished :
    g.updatePositionsAndDrs.raceFinished = g.raceFinished := by
  simp only [updatePositionsAndDrs]

@[simp]
theorem updatePositionsAndDrs_lap (i : Fin 20) :
    (g.updatePositionsAndDrs.states i).latestFrame.lap = (g.states i).latestFrame.lap := by
  simp only [updatePositionsAndDrs, placed]

@[simp]
theorem tick_track : (g.tick x).track = g.track := by
  unfold tick
  rw [updatePositionsAndDrs_track, advanceAll_track]

theorem tick_lap (i : Fin 20) :
    ((g.tick x).states i).latestFrame.lap = (g.states i).latestFrame.lap
      + if (g.states i).crossesLine g.track (x i).noise then 1 else 0 := by
  unfold tick
  rw [updatePositionsAndDrs_lap, advanceAll_states, DriverState.advance_lap]

theorem tick_raceFinished :
    (g.tick x).raceFinished = true
      ↔ g.raceFinished = true ∨ ∃ i, EndsRace (g.states i) g.track (x i).noise := by
  unfold tick
  rw [updatePositionsAndDrs_raceFinished, advanceAll_raceFinished]

end TelemetryGenerator

end RaceConditionZ
