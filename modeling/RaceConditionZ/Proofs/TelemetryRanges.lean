import RaceConditionZ.Proofs.PitStops

/-!
# The ranges of the telemetry

Wear and fuel are kept within their scales by `min` and `max`, the speed by the clamp, and throttle
and brake are functions of the speed. The sector is at least 1 since `distance_in_lap` is never
negative: a lap length is taken off only where there is one.
-/

namespace RaceConditionZ

theorem truncate_nonneg {q : ℚ} (h : 0 ≤ q) : 0 ≤ truncate q :=
  Int.tdiv_nonneg (Rat.num_nonneg.2 h) (Int.natCast_nonneg _)

namespace DriverState

variable {s : DriverState} {track : TrackProfile} {x : DriverInput} {i : Fin 20}

/-- What a frame says, within its ranges; and the distance that the next sector is taken from. -/
structure Scaled (s : DriverState) : Prop where
  throttle : 0 ≤ s.latestFrame.throttle ∧ s.latestFrame.throttle ≤ 1
  brake : 0 ≤ s.latestFrame.brake ∧ s.latestFrame.brake ≤ 1
  sector : 1 ≤ s.latestFrame.sector ∧ s.latestFrame.sector ≤ 3
  distance : 0 ≤ s.distanceInLap

theorem scaled_onGrid (i : Fin 20) (lapStart : ℤ) : (onGrid i lapStart).Scaled where
  throttle := ⟨le_rfl, zero_le_one⟩
  brake := ⟨le_rfl, zero_le_one⟩
  sector := by
    show (1 : ℤ) ≤ 1 ∧ (1 : ℤ) ≤ 3
    omega
  distance := by
    have hi : ((i : ℕ) : ℚ) ≤ 19 := by exact_mod_cast (by omega : (i : ℕ) ≤ 19)
    show (0 : ℚ) ≤ (20 - (i : ℕ) - 1) * 0.010
    linarith

theorem Scaled.handlePit (h : s.Scaled) : s.handlePit.Scaled := by
  have hthrottle : (0 : ℚ) ≤ 0.2 ∧ (0.2 : ℚ) ≤ 1 := by norm_num
  have hbrake : (0 : ℚ) ≤ 0.1 ∧ (0.1 : ℚ) ≤ 1 := by norm_num
  unfold DriverState.handlePit
  simp only []
  split <;> exact ⟨hthrottle, hbrake, h.sector, h.distance⟩

theorem Scaled.drive (h : s.Scaled) (hlength : 0 < track.lengthKm) (noise : ℚ) :
    (s.drive track noise).Scaled := by
  obtain ⟨hslow, hfast⟩ := s.speedKph_mem noise
  have hkm : 0 ≤ s.speedKph noise / 3600 * simSPerTick :=
    mul_nonneg (by linarith) simSPerTick_pos.le
  have hdistance : 0 ≤ s.distanceInLap + s.speedKph noise / 3600 * simSPerTick :=
    add_nonneg h.distance hkm
  refine ⟨⟨?_, min_le_left _ _⟩, ?_, ?_, hdistance⟩
  · exact le_min zero_le_one (by linarith)
  · show 0 ≤ (if s.speedKph noise < 150 then clamp ((150 - s.speedKph noise) / 150) 0 1 else 0)
      ∧ (if s.speedKph noise < 150 then clamp ((150 - s.speedKph noise) / 150) 0 1 else 0) ≤ 1
    split
    · exact clamp_mem zero_le_one _
    · exact ⟨le_rfl, zero_le_one⟩
  · have htruncate := truncate_nonneg
      (div_nonneg hdistance (div_nonneg hlength.le (by norm_num : (0 : ℚ) ≤ 3)))
    show 1 ≤ min 3 (truncate _ + 1) ∧ min 3 (truncate _ + 1) ≤ 3
    omega

theorem Scaled.completeLap (h : s.Scaled) (hline : track.lengthKm ≤ s.distanceInLap) (now : ℤ) :
    (s.completeLap track now).Scaled := by
  have hdistance : 0 ≤ s.distanceInLap - track.lengthKm := by linarith
  unfold DriverState.completeLap
  simp only []
  split <;> exact ⟨h.throttle, h.brake, h.sector, hdistance⟩

theorem Scaled.advance (h : s.Scaled) (hlength : 0 < track.lengthKm) (x : DriverInput) :
    (s.advance track x).Scaled := by
  unfold DriverState.advance
  split_ifs with hpit hcross
  · exact h.handlePit
  · exact (h.drive hlength x.noise).completeLap hcross.2 x.now
  · exact h.drive hlength x.noise

/-- The tick in which a stop ends. -/
def Released (s : DriverState) : Prop := s.inPit = true ∧ s.handlePit.inPit = false

/-- Wear and fuel go one way, but for the tick that releases the driver. -/
theorem InRange.trend (h : s.InRange i) (htrack : track.Wears) (hstays : ¬ s.Released)
    (x : DriverInput) :
    s.latestFrame.tireWear ≤ (s.advance track x).latestFrame.tireWear
      ∧ (s.advance track x).latestFrame.fuelKg ≤ s.latestFrame.fuelKg := by
  have hdrive : s.latestFrame.tireWear ≤ (s.drive track x.noise).latestFrame.tireWear
      ∧ (s.drive track x.noise).latestFrame.fuelKg ≤ s.latestFrame.fuelKg := by
    have hwear := h.wear_nonneg htrack x.noise
    have hburn := InRange.burn_nonneg s htrack x.noise
    exact ⟨le_min h.tireWear_le (by linarith), max_le h.fuelKg_nonneg (by linarith)⟩
  unfold DriverState.advance
  split_ifs with hpit hcross
  · have hmore : 1 < s.pitTimerTicks := by
      by_contra hlast
      exact hstays ⟨hpit, (handlePit_of_last (not_lt.1 hlast)).1⟩
    obtain ⟨-, -, -, -, -, hwear, hfuel⟩ := handlePit_of_more hmore
    exact ⟨hwear.ge, hfuel.le⟩
  · unfold DriverState.completeLap
    simp only []
    split <;> exact hdrive
  · exact hdrive

end DriverState

namespace TelemetryGenerator

variable {g : TelemetryGenerator} {i : Fin 20}

theorem tick_scaled (h : (g.states i).Scaled) (hlength : 0 < g.track.lengthKm) (x : TickInput) :
    ((g.tick x).states i).Scaled := by
  have hadvance := h.advance hlength (x i)
  obtain ⟨position, gap, drs, hplace⟩ := g.exists_place x i
  rw [hplace]
  exact ⟨hadvance.throttle, hadvance.brake, hadvance.sector, hadvance.distance⟩

theorem ticks_scaled (h : (g.states i).Scaled) (hlength : 0 < g.track.lengthKm)
    (xs : List TickInput) : ((g.ticks xs).states i).Scaled := by
  induction xs generalizing g with
  | nil => rwa [ticks_nil]
  | cons x xs ih =>
    rw [ticks_cons]
    exact ih (tick_scaled h hlength x) (by rwa [tick_track])

theorem tick_fuelKg (x : TickInput) : ((g.tick x).states i).latestFrame.fuelKg
    = ((g.states i).advance g.track (x i)).latestFrame.fuelKg :=
  g.tick_field x i (f := fun s => s.latestFrame.fuelKg) fun _ _ _ _ => rfl

/-- The ranges after every tick, and the trends from the state before it. -/
theorem telemetry_ranges (track : TrackProfile) (hlength : 0 < track.lengthKm)
    (hdeg : 0 ≤ track.tireDegFactor) (hfuel : 0 ≤ track.fuelConsumption)
    (lapStart : Fin 20 → ℤ) (xs : List TickInput) (x : TickInput) (i : Fin 20) :
    let g := (init track lapStart).ticks xs
    let before := g.states i
    let after := (g.tick x).states i
    let frame := after.latestFrame
    (80 ≤ frame.speedKph ∧ frame.speedKph ≤ 370 ∨ before.inPit = true ∧ frame.speedKph = 60)
      ∧ (0 ≤ frame.throttle ∧ frame.throttle ≤ 1) ∧ (0 ≤ frame.brake ∧ frame.brake ≤ 1)
      ∧ (frame.sector = 1 ∨ frame.sector = 2 ∨ frame.sector = 3)
      ∧ (0 ≤ frame.tireWear ∧ frame.tireWear ≤ 1) ∧ (0 ≤ frame.fuelKg ∧ frame.fuelKg ≤ 100)
      ∧ (before.latestFrame.tireWear ≤ frame.tireWear
          ∧ frame.fuelKg ≤ before.latestFrame.fuelKg
        ∨ before.inPit = true ∧ after.inPit = false) := by
  intro g before after frame
  have htrack : g.track = track := ticks_track _ xs
  have hrange : before.InRange i := ticks_inRange (init_inRange track lapStart) ⟨hdeg, hfuel⟩ xs
  have hscaled : before.Scaled :=
    ticks_scaled (g := init track lapStart) (DriverState.scaled_onGrid i (lapStart i)) hlength xs
  have hrange' : after.InRange i := tick_inRange hrange (by rw [htrack]; exact ⟨hdeg, hfuel⟩) x
  have hscaled' : after.Scaled := tick_scaled hscaled (by rwa [htrack]) x
  refine ⟨?_, hscaled'.throttle, hscaled'.brake, ?_,
    ⟨hrange'.tireWear_nonneg, hrange'.tireWear_le⟩, ⟨hrange'.fuelKg_nonneg, hrange'.fuelKg_le⟩, ?_⟩
  · have hspeed : frame.speedKph = if before.inPit then 60 else before.speedKph (x i).noise := by
      rw [← DriverState.advance_speedKph before g.track]
      exact g.tick_speedKph x i
    rw [hspeed]
    split_ifs with hpit
    · exact .inr ⟨hpit, rfl⟩
    · exact .inl (before.speedKph_mem (x i).noise)
  · have hsector := hscaled'.sector
    show after.latestFrame.sector = 1 ∨ after.latestFrame.sector = 2 ∨ after.latestFrame.sector = 3
    omega
  · by_cases hreleased : before.Released
    · refine .inr ⟨hreleased.1, ?_⟩
      show ((g.tick x).states i).inPit = false
      rw [tick_inPit, DriverState.advance_of_inPit _ _ hreleased.1]
      exact hreleased.2
    · have hwears : g.track.Wears := by
        rw [htrack]
        exact ⟨hdeg, hfuel⟩
      have htrend := hrange.trend hwears hreleased (x i)
      rw [← tick_tireWear, ← tick_fuelKg] at htrend
      exact .inl htrend

theorem telemetry_ranges_defaultTrack :
    let frame := (((init defaultTrack fun _ => 0).ticks []).tick (steady 0)).states 19
    0 ≤ frame.latestFrame.brake ∧ frame.latestFrame.brake ≤ 1 :=
  (telemetry_ranges defaultTrack (by decide +kernel) (by decide +kernel) (by decide +kernel)
    (fun _ => 0) [] (steady 0) 19).2.2.1

end TelemetryGenerator

end RaceConditionZ
