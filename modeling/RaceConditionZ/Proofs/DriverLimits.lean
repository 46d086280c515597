import RaceConditionZ.Proofs.LapAccounting

/-!
# The limits of a driver's state

Wear and fuel stay within their scales, and the constructor's profile and car are never changed. So
the speed before the clamp is off its range by a known amount at most, and a draw that is large
enough takes any driver to the highest or to the lowest speed.
-/

namespace RaceConditionZ

/-- A track on which tyres do not mend and fuel does not grow. -/
def TrackProfile.Wears (track : TrackProfile) : Prop :=
  0 ≤ track.tireDegFactor ∧ 0 ≤ track.fuelConsumption

theorem defaultTrack_wears : defaultTrack.Wears := by
  unfold TrackProfile.Wears defaultTrack
  norm_num

theorem aggression_nonneg (i : Fin 20) : 0 ≤ (drivers.get i).aggression := by
  revert i
  decide +kernel

theorem consistency_le (i : Fin 20) : (drivers.get i).consistency ≤ 0.95 := by
  revert i
  decide +kernel

theorem enginePower_mem (i : Fin 20) :
    0 ≤ (carForDriver (drivers.get i)).enginePower
      ∧ (carForDriver (drivers.get i)).enginePower ≤ 1 := by
  revert i
  decide +kernel

namespace DriverState

/-- The state of `DRIVERS[i]`, within its scales. -/
structure InRange (i : Fin 20) (s : DriverState) : Prop where
  profile : s.profile = drivers.get i
  car : s.car = carForDriver (drivers.get i)
  tireWear_nonneg : 0 ≤ s.latestFrame.tireWear
  tireWear_le : s.latestFrame.tireWear ≤ 1
  fuelKg_nonneg : 0 ≤ s.latestFrame.fuelKg
  fuelKg_le : s.latestFrame.fuelKg ≤ 100

theorem inRange_onGrid (i : Fin 20) (lapStart : ℤ) : (onGrid i lapStart).InRange i where
  profile := rfl
  car := rfl
  tireWear_nonneg := le_rfl
  tireWear_le := zero_le_one
  fuelKg_nonneg := by
    show (0 : ℚ) ≤ 100
    norm_num
  fuelKg_le := le_rfl

namespace InRange

variable {i : Fin 20} {s : DriverState} {track : TrackProfile}

theorem handlePit (h : s.InRange i) : s.handlePit.InRange i := by
  unfold DriverState.handlePit
  simp only []
  split
  · refine ⟨h.profile, h.car, ?_, ?_, ?_, ?_⟩ <;> unfold leavePit <;> norm_num
  · exact ⟨h.profile, h.car, h.tireWear_nonneg, h.tireWear_le, h.fuelKg_nonneg, h.fuelKg_le⟩

/-- What a tick wears off. -/
theorem wear_nonneg (h : s.InRange i) (htrack : track.Wears) (noise : ℚ) :
    0 ≤ tireWearBase * s.profile.aggression * track.tireDegFactor * (s.speedKph noise / 280) := by
  have hspeed := (s.speedKph_mem noise).1
  have hagg : 0 ≤ s.profile.aggression := by
    rw [h.profile]
    exact aggression_nonneg i
  have hbase : 0 ≤ tireWearBase := by
    unfold tireWearBase
    norm_num
  exact mul_nonneg (mul_nonneg (mul_nonneg hbase hagg) htrack.1) (by linarith)

theorem burn_nonneg (s : DriverState) (htrack : track.Wears) (noise : ℚ) :
    0 ≤ track.fuelConsumption * (s.speedKph noise / 3600 * simSPerTick) := by
  have hspeed := (s.speedKph_mem noise).1
  exact mul_nonneg htrack.2 (mul_nonneg (by linarith) simSPerTick_pos.le)

theorem drive (h : s.InRange i) (htrack : track.Wears) (noise : ℚ) :
    (s.drive track noise).InRange i := by
  have hwear := h.wear_nonneg htrack noise
  have hburn := burn_nonneg s htrack noise
  have htire := h.tireWear_nonneg
  have hfuel := h.fuelKg_le
  refine ⟨h.profile, h.car, ?_, min_le_left _ _, le_max_left _ _, ?_⟩
  · exact le_min zero_le_one (by linarith)
  · exact max_le (by norm_num) (by linarith)

theorem completeLap (h : s.InRange i) (now : ℤ) : (s.completeLap track now).InRange i := by
  unfold DriverState.completeLap
  simp only []
  split <;>
    exact ⟨h.profile, h.car, h.tireWear_nonneg, h.tireWear_le, h.fuelKg_nonneg, h.fuelKg_le⟩

theorem advance (h : s.InRange i) (htrack : track.Wears) (x : DriverInput) :
    (s.advance track x).InRange i := by
  unfold DriverState.advance
  split_ifs
  · exact h.handlePit
  · exact (h.drive htrack x.noise).completeLap x.now
  · exact h.drive htrack x.noise

/-- What the clamp is given, without the variation. -/
theorem base_mem (h : s.InRange i) :
    0 ≤ maxSpeed s.car * (1 - s.latestFrame.fuelKg / 100 * 0.08)
        * (1 - s.latestFrame.tireWear * 0.25)
      ∧ maxSpeed s.car * (1 - s.latestFrame.fuelKg / 100 * 0.08)
        * (1 - s.latestFrame.tireWear * 0.25) ≤ 370 := by
  obtain ⟨hpower, hpower'⟩ := enginePower_mem i
  rw [← h.car] at hpower hpower'
  have hmax : 0 ≤ maxSpeed s.car ∧ maxSpeed s.car ≤ 370 := by
    unfold maxSpeed
    constructor <;> linarith
  have hfuel : 0 ≤ 1 - s.latestFrame.fuelKg / 100 * 0.08
      ∧ 1 - s.latestFrame.fuelKg / 100 * 0.08 ≤ 1 := by
    constructor <;> linarith [h.fuelKg_nonneg, h.fuelKg_le]
  have htire : 0 ≤ 1 - s.latestFrame.tireWear * 0.25
      ∧ 1 - s.latestFrame.tireWear * 0.25 ≤ 1 := by
    constructor <;> linarith [h.tireWear_nonneg, h.tireWear_le]
  have hfueled := mul_nonneg hmax.1 hfuel.1
  refine ⟨mul_nonneg hfueled htire.1, ?_⟩
  calc maxSpeed s.car * (1 - s.latestFrame.fuelKg / 100 * 0.08)
        * (1 - s.latestFrame.tireWear * 0.25)
      ≤ maxSpeed s.car * (1 - s.latestFrame.fuelKg / 100 * 0.08) :=
        mul_le_of_le_one_right hfueled htire.2
    _ ≤ maxSpeed s.car := mul_le_of_le_one_right hmax.1 hfuel.2
    _ ≤ 370 := hmax.2

theorem speedKph_top (h : s.InRange i) : s.speedKph 1000 = 370 := by
  have hbase := h.base_mem.1
  have hcons := consistency_le i
  rw [← h.profile] at hcons
  have hdrs := (drsBonus_mem s.latestFrame.drsActive).1
  unfold speedKph
  exact clamp_eq_hi (by norm_num) (by linarith)

theorem speedKph_bottom (h : s.InRange i) : s.speedKph (-10000) = 80 := by
  have hbase := h.base_mem.2
  have hcons := consistency_le i
  rw [← h.profile] at hcons
  have hdrs := (drsBonus_mem s.latestFrame.drsActive).2
  unfold speedKph
  exact clamp_eq_lo (by linarith)

end InRange

end DriverState

namespace TelemetryGenerator

variable {g : TelemetryGenerator} {i : Fin 20}

theorem tick_inRange (h : (g.states i).InRange i) (htrack : g.track.Wears) (x : TickInput) :
    ((g.tick x).states i).InRange i := by
  have hadvance := h.advance htrack (x i)
  rw [← advanceAll_states] at hadvance
  unfold tick updatePositionsAndDrs placed
  exact ⟨hadvance.profile, hadvance.car, hadvance.tireWear_nonneg, hadvance.tireWear_le,
    hadvance.fuelKg_nonneg, hadvance.fuelKg_le⟩

theorem init_inRange (track : TrackProfile) (lapStart : Fin 20 → ℤ) :
    ((init track lapStart).states i).InRange i :=
  DriverState.inRange_onGrid i (lapStart i)

/-- Draws that put some drivers at the highest speed and the others at the lowest. -/
def paced (fast : Fin 20 → Bool) (now : ℤ) : TickInput :=
  fun i => ⟨if fast i then 1000 else -10000, now⟩

theorem paced_speedKph (h : (g.states i).InRange i) (hpit : (g.states i).inPit = false)
    (fast : Fin 20 → Bool) (now : ℤ) :
    ((g.states i).advance g.track (paced fast now i)).latestFrame.speedKph
      = if fast i then 370 else 80 := by
  rw [DriverState.advance_speedKph, hpit, if_neg (by simp)]
  unfold paced
  split
  · exact h.speedKph_top
  · exact h.speedKph_bottom

theorem paced_coveredKm (h : (g.states i).InRange i) (hpit : (g.states i).inPit = false)
    (fast : Fin 20 → Bool) (now : ℤ) :
    g.coveredKm (paced fast now) i = (if fast i then 370 else 80) / 3600 * simSPerTick := by
  rw [coveredKm_eq]
  unfold DriverState.coveredKm
  rw [paced_speedKph h hpit, hpit, if_neg (by simp)]

end TelemetryGenerator

end RaceConditionZ
