import RaceConditionZ.Proofs.LapAccounting
import RaceConditionZ.Proofs.RaceEnd

/-!
# The final classification

The flag is raised in the middle of a tick, for a car that led at its start and may be overtaken by
its end. Whoever leads at the end has covered at least as much as that car, and since no
`distance_in_lap` is a whole lap, it has completed as many laps.
-/

namespace RaceConditionZ

namespace TelemetryGenerator

variable {g : TelemetryGenerator} {x : TickInput}

/-- More distance than a number of laps, less than one of it in the lap: so many laps and more. -/
theorem lap_lt_of_raceDistance_le {i j : Fin 20} (hi : (g.states i).WithinLap g.track)
    (hj : (g.states j).WithinLap g.track) (hle : g.raceDistance i ≤ g.raceDistance j) {n : ℤ}
    (hlap : n < (g.states i).latestFrame.lap) : n < (g.states j).latestFrame.lap := by
  have hpos : 0 < g.track.lengthKm := hi.1.trans_lt hi.2
  have hn : ((n : ℤ) : ℚ) + 1 ≤ (g.states i).latestFrame.lap := by exact_mod_cast hlap
  unfold raceDistance at hle
  have hlaps : ((n : ℤ) : ℚ) * g.track.lengthKm
      < (g.states j).latestFrame.lap * g.track.lengthKm := by
    have hmul := mul_le_mul_of_nonneg_right hn hpos.le
    linarith [hi.1, hj.2]
  exact_mod_cast lt_of_mul_lt_mul_right hlaps hpos.le

/-- Whoever is at position 1 after a tick has covered the most. -/
theorem raceDistance_le_of_position {i : Fin 20} (hi : ((g.tick x).states i).position = 1)
    (j : Fin 20) : (g.tick x).raceDistance j ≤ (g.tick x).raceDistance i := by
  unfold tick at *
  rw [updatePositionsAndDrs_position] at hi
  have hleader := (g.advanceAll x).eq_leader (i := i) (by omega)
  rw [updatePositionsAndDrs_raceDistance, updatePositionsAndDrs_raceDistance, hleader]
  exact (g.advanceAll x).raceDistance_le_leader j

/-- After the tick that sets the flag, whoever is at position 1 has completed the race. -/
theorem totalLaps_lt_of_position (hwithin : ∀ i, ((g.tick x).states i).WithinLap g.track)
    (hdown : g.raceFinished = false) (hup : (g.tick x).raceFinished = true) {i : Fin 20}
    (hi : ((g.tick x).states i).position = 1) :
    totalLaps < ((g.tick x).states i).latestFrame.lap := by
  rw [tick_raceFinished, hdown] at hup
  obtain hup | ⟨k, hcross, hlap, -⟩ := hup
  · cases hup
  · have hk : totalLaps < ((g.tick x).states k).latestFrame.lap := by
      rw [tick_lap, if_pos hcross]
      exact hlap
    have htrack := g.tick_track x
    refine lap_lt_of_raceDistance_le (i := k) ?_ ?_ (raceDistance_le_of_position hi k) hk
    · rw [htrack]
      exact hwithin k
    · rw [htrack]
      exact hwithin i

/-- The board of a tick is headed by the driver at position 1. -/
theorem head_standings : ∃ i, ((g.tick x).states i).position = 1
    ∧ (g.tick x).standings.head? = some ((g.tick x).states i) := by
  refine ⟨(g.advanceAll x).leader, ?_, ?_⟩
  · unfold tick
    rw [updatePositionsAndDrs_position, idxOf_leader]
    rfl
  · have hlen := (g.advanceAll x).ranking_length
    unfold tick
    rw [standings_updatePositionsAndDrs]
    unfold leader
    rcases hr : (g.advanceAll x).ranking with _ | ⟨i, is⟩
    · rw [hr] at hlen
      cases hlen
    · rfl

/-- A run whose flag is set ends with the tick that sets it, and publishes its board last. -/
theorem run_of_raceFinished {xs : List TickInput} (hdown : g.raceFinished = false)
    (hup : (g.run xs).1.raceFinished = true) :
    ∃ ys x zs, xs = ys ++ x :: zs ∧ (g.ticks ys).raceFinished = false
      ∧ (g.run xs).1 = (g.ticks ys).tick x ∧ (g.run xs).2.length = ys.length + 1
      ∧ (g.run xs).2.getLast? = some ((g.ticks ys).tick x).standings := by
  induction xs generalizing g with
  | nil =>
    rw [run, hdown] at hup
    cases hup
  | cons x xs ih =>
    rw [run, if_neg (by simp [hdown])] at hup ⊢
    simp only [] at hup ⊢
    rcases hflag : (g.tick x).raceFinished with _ | _
    · obtain ⟨ys, y, zs, hxs, hys, hlast, hlen, hboard⟩ := ih hflag hup
      refine ⟨x :: ys, y, zs, by rw [hxs]; rfl, ?_, ?_, ?_, ?_⟩
      · rw [ticks_cons]
        exact hys
      · rw [ticks_cons]
        exact hlast
      · rw [List.length_cons, hlen, List.length_cons]
      · rw [ticks_cons, List.getLast?_cons, hboard, Option.getD_some]
    · -- the loop is left after this tick
      have hrest : (g.tick x).run xs = (g.tick x, []) := by
        rcases xs with _ | ⟨y, xs⟩
        · rfl
        · rw [run, if_pos hflag]
      rw [hrest]
      refine ⟨[], x, xs, rfl, ?_, ?_, rfl, ?_⟩
      · rw [ticks_nil]
        exact hdown
      · rw [ticks_nil]
      · rw [ticks_nil, List.getLast?_singleton]

/-- What is published last, where a tick sets the flag. -/
theorem final_classification (track : TrackProfile) (lapStart : Fin 20 → ℤ)
    (hlength : 370 / 3600 * simSPerTick ≤ track.lengthKm) (xs : List TickInput)
    (hup : ((init track lapStart).run xs).1.raceFinished = true) :
    let start := init track lapStart
    ∃ ys x zs, xs = ys ++ x :: zs ∧ (start.ticks ys).raceFinished = false
      ∧ (start.run xs).1 = (start.ticks ys).tick x
      ∧ (start.run xs).2.length = ys.length + 1
      ∧ (∀ i, ((start.run xs).1.states i).position = 1 →
        totalLaps < ((start.run xs).1.states i).latestFrame.lap
          ∧ ∀ j, (start.run xs).1.raceDistance j ≤ (start.run xs).1.raceDistance i)
      ∧ ∃ board i, (start.run xs).2.getLast? = some board
        ∧ board = (start.run xs).1.standings ∧ ((start.run xs).1.states i).position = 1
        ∧ board.head? = some ((start.run xs).1.states i) := by
  intro start
  obtain ⟨ys, x, zs, hxs, hys, hlast, hlen, hboard⟩ := run_of_raceFinished rfl hup
  refine ⟨ys, x, zs, hxs, hys, hlast, hlen, ?_, ?_⟩
  · have hwithin : ∀ i, (((start.ticks ys).tick x).states i).WithinLap (start.ticks ys).track := by
      intro i
      have hi := ticks_init_withinLap i track lapStart hlength (ys ++ [x])
      have htrack : (start.ticks ys).track = track := ticks_track _ ys
      rw [ticks_concat] at hi
      rw [htrack]
      exact hi
    intro i hi
    rw [hlast] at hi hup ⊢
    exact ⟨totalLaps_lt_of_position hwithin hys hup hi, raceDistance_le_of_position hi⟩
  · obtain ⟨i, hi, hhead⟩ := head_standings (g := start.ticks ys) (x := x)
    rw [hlast]
    exact ⟨_, i, hboard, rfl, hi, hhead⟩

theorem raceFinished_ticks (h : g.raceFinished = true) (xs : List TickInput) :
    (g.ticks xs).raceFinished = true := by
  induction xs generalizing g with
  | nil =>
    rw [ticks_nil]
    exact h
  | cons x xs ih =>
    rw [ticks_cons]
    exact ih ((g.tick_raceFinished x).2 (.inl h))

/-- Up to the flag, `run` is its ticks. -/
theorem run_append {ys : List TickInput} (zs : List TickInput)
    (h : (g.ticks ys).raceFinished = false) :
    (g.run (ys ++ zs)).1 = ((g.ticks ys).run zs).1 := by
  induction ys generalizing g with
  | nil => rw [ticks_nil, List.nil_append]
  | cons y ys ih =>
    rw [ticks_cons] at h ⊢
    have hdown : ¬ g.raceFinished = true := by
      intro hup
      have hend := raceFinished_ticks ((g.tick_raceFinished y).2 (.inl hup)) ys
      rw [h] at hend
      cases hend
    rw [List.cons_append, run, if_neg hdown]
    exact ih h

/-- Fifty laps at top speed on the shortest track. -/
theorem raceFinished_laps :
    ((init shortTrack fun _ => 0).run
      (Formation.laps 49 ++ [flatOut (50 * 20000000)])).1.raceFinished = true := by
  have h := Formation.ticks_laps (n := 49) le_rfl
  have h0 := h.flatOut 0
  rw [run_append _ h.raceFinished, run, if_neg (by simp [h.raceFinished])]
  simp only [run]
  refine (tick_raceFinished _ _).2 (.inr ⟨0, ?_, ?_, ?_⟩)
  · rw [h.track]
    exact h0.crossesLine
  · rw [h0.lap]
    decide
  · rw [h0.position]
    decide

theorem final_classification_laps :
    ∃ board i, ((init shortTrack fun _ => 0).run
        (Formation.laps 49 ++ [flatOut (50 * 20000000)])).2.getLast? = some board
      ∧ board.head? = some (((init shortTrack fun _ => 0).run
        (Formation.laps 49 ++ [flatOut (50 * 20000000)])).1.states i) := by
  obtain ⟨-, -, -, -, -, -, -, -, board, i, hboard, -, -, hhead⟩ :=
    final_classification shortTrack (fun _ => 0) le_rfl _ raceFinished_laps
  exact ⟨board, i, hboard, hhead⟩

end TelemetryGenerator

end RaceConditionZ
