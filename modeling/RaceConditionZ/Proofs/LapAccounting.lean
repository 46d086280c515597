import Mathlib.Algebra.Order.Floor.Ring
import Mathlib.Data.Rat.Floor
import Mathlib.Data.List.Induction
import Mathlib.Order.Bounds.Basic
import Mathlib.Tactic.FieldSimp
import Mathlib.Tactic.Linarith
import Mathlib.Tactic.NormNum
import Mathlib.Tactic.Ring
import RaceConditionZ.Proofs.RaceEnd
import RaceConditionZ.Proofs.Ranking

/-!
# Lap accounting

A tick adds what its speed covers to a driver's race distance, or nothing in the pits, and the
completion of a lap only moves a track length from `distance_in_lap` into `lap`. Where a tick never
covers more than a lap, one subtraction is enough to bring `distance_in_lap` back below the length,
so `lap` is the whole part of the race distance.
-/

namespace RaceConditionZ

theorem simSPerTick_pos : 0 < simSPerTick := by
  unfold simSPerTick timeScale tickS
  norm_num

namespace DriverState

variable (s : DriverState) (track : TrackProfile)

theorem speedKph_mem (noise : ℚ) : 80 ≤ s.speedKph noise ∧ s.speedKph noise ≤ 370 := by
  unfold speedKph
  exact clamp_mem (by norm_num) _

/-- What a tick covers, by the speed it leaves in the frame. -/
def coveredKm (x : DriverInput) : ℚ :=
  if s.inPit then 0 else (s.advance track x).latestFrame.speedKph / 3600 * simSPerTick

theorem handlePit_distanceInLap : s.handlePit.distanceInLap = s.distanceInLap :=
  s.handlePit_field (f := DriverState.distanceInLap) rfl rfl

theorem completeLap_distanceInLap (now : ℤ) :
    (s.completeLap track now).distanceInLap = s.distanceInLap - track.lengthKm :=
  s.completeLap_field track (f := DriverState.distanceInLap) rfl rfl

theorem completeLap_speedKph (now : ℤ) :
    (s.completeLap track now).latestFrame.speedKph = s.latestFrame.speedKph :=
  s.completeLap_field track (f := fun t => t.latestFrame.speedKph) rfl rfl

theorem handlePit_speedKph : s.handlePit.latestFrame.speedKph = 60 :=
  s.handlePit_field (f := fun t => t.latestFrame.speedKph) rfl rfl

theorem advance_of_inPit {x : DriverInput} (h : s.inPit = true) :
    s.advance track x = s.handlePit := by
  unfold advance
  rw [if_pos h]

theorem advance_of_not_crosses {x : DriverInput} (h : s.inPit = false)
    (hc : ¬ s.crossesLine track x.noise) : s.advance track x = s.drive track x.noise := by
  unfold advance
  rw [if_neg (by simp [h]), if_neg hc]

theorem advance_speedKph (x : DriverInput) :
    (s.advance track x).latestFrame.speedKph = if s.inPit then 60 else s.speedKph x.noise := by
  by_cases hpit : s.inPit = true
  · rw [s.advance_of_inPit track hpit, handlePit_speedKph, if_pos hpit]
  · rw [if_neg hpit]
    by_cases hc : s.crossesLine track x.noise
    · rw [s.advance_of_crosses track hc, completeLap_speedKph]
      rfl
    · rw [s.advance_of_not_crosses track (by simpa using hpit) hc]
      rfl

theorem coveredKm_eq (x : DriverInput) :
    s.coveredKm track x = if s.inPit then 0 else s.speedKph x.noise / 3600 * simSPerTick := by
  unfold coveredKm
  rw [advance_speedKph]
  split <;> rfl

theorem coveredKm_nonneg (x : DriverInput) : 0 ≤ s.coveredKm track x := by
  rw [coveredKm_eq]
  split_ifs
  · exact le_rfl
  · have hspeed := (s.speedKph_mem x.noise).1
    exact mul_nonneg (by linarith) simSPerTick_pos.le

theorem coveredKm_le (x : DriverInput) : s.coveredKm track x ≤ 370 / 3600 * simSPerTick := by
  rw [coveredKm_eq]
  split_ifs
  · exact mul_nonneg (by norm_num) simSPerTick_pos.le
  · have hspeed := (s.speedKph_mem x.noise).2
    exact mul_le_mul_of_nonneg_right (by linarith) simSPerTick_pos.le

theorem advance_distanceInLap (x : DriverInput) :
    (s.advance track x).distanceInLap = s.distanceInLap + s.coveredKm track x
      - if s.crossesLine track x.noise then track.lengthKm else 0 := by
  rw [coveredKm_eq]
  by_cases hpit : s.inPit = true
  · have hc : ¬ s.crossesLine track x.noise := by
      intro hc
      rw [hc.1] at hpit
      cases hpit
    rw [s.advance_of_inPit track hpit, handlePit_distanceInLap, if_pos hpit, if_neg hc]
    ring
  · rw [if_neg hpit]
    by_cases hc : s.crossesLine track x.noise
    · rw [s.advance_of_crosses track hc, completeLap_distanceInLap, if_pos hc]
      rfl
    · rw [s.advance_of_not_crosses track (by simpa using hpit) hc, if_neg hc, sub_zero]
      rfl

/-- The completion of a lap leaves the distance from the start as it is. -/
theorem advance_odometer (x : DriverInput) :
    (s.advance track x).latestFrame.lap * track.lengthKm + (s.advance track x).distanceInLap
      = s.latestFrame.lap * track.lengthKm + s.distanceInLap + s.coveredKm track x := by
  rw [advance_lap, advance_distanceInLap]
  split_ifs
  · push_cast
    ring
  · push_cast
    ring

/-- `distance_in_lap` lies within the lap. -/
def WithinLap : Prop := 0 ≤ s.distanceInLap ∧ s.distanceInLap < track.lengthKm

theorem crossesLine_iff (x : DriverInput) (h : s.WithinLap track) :
    s.crossesLine track x.noise ↔ track.lengthKm ≤ s.distanceInLap + s.coveredKm track x := by
  rw [coveredKm_eq]
  unfold crossesLine
  by_cases hpit : s.inPit = true
  · have hlt := h.2
    simp only [hpit, Bool.true_eq_false, false_and, if_true, add_zero, false_iff, not_le]
    exact hlt
  · simp [hpit]

theorem WithinLap.advance {s : DriverState} {track : TrackProfile} (h : s.WithinLap track)
    (hlength : 370 / 3600 * simSPerTick ≤ track.lengthKm) (x : DriverInput) :
    (s.advance track x).WithinLap track := by
  have hcross := s.crossesLine_iff track x h
  have hkm := s.coveredKm_nonneg track x
  have hkm' := s.coveredKm_le track x
  obtain ⟨h0, hlt⟩ := h
  unfold WithinLap
  rw [advance_distanceInLap]
  by_cases hc : s.crossesLine track x.noise
  · have hle := hcross.1 hc
    rw [if_pos hc]
    constructor <;> linarith
  · have hle := mt hcross.2 hc
    rw [if_neg hc]
    constructor <;> linarith

end DriverState

namespace TelemetryGenerator

variable (g : TelemetryGenerator) (x : TickInput) (i : Fin 20)

theorem tick_speedKph :
    ((g.tick x).states i).latestFrame.speedKph
      = ((g.states i).advance g.track (x i)).latestFrame.speedKph := by
  unfold tick
  rw [updatePositionsAndDrs_speedKph, advanceAll_states]

/-- What driver `i` covers in a tick, by the speed in its frame. -/
def coveredKm : ℚ :=
  if (g.states i).inPit then 0
  else ((g.tick x).states i).latestFrame.speedKph / 3600 * simSPerTick

theorem coveredKm_eq : g.coveredKm x i = (g.states i).coveredKm g.track (x i) := by
  unfold coveredKm DriverState.coveredKm
  rw [tick_speedKph]

/-- What driver `i` covers in the ticks of a run that it does not start in the pits. -/
def driven (g : TelemetryGenerator) (i : Fin 20) : List TickInput → ℚ
  | [] => 0
  | x :: xs => g.coveredKm x i + (g.tick x).driven i xs

theorem advanceAll_raceDistance :
    (g.advanceAll x).raceDistance i = g.raceDistance i + g.coveredKm x i := by
  unfold raceDistance
  rw [coveredKm_eq, advanceAll_states, advanceAll_track]
  exact (g.states i).advance_odometer g.track (x i)

theorem tick_raceDistance : (g.tick x).raceDistance i = g.raceDistance i + g.coveredKm x i := by
  unfold tick
  rw [updatePositionsAndDrs_raceDistance, advanceAll_raceDistance]

theorem ticks_raceDistance (xs : List TickInput) :
    (g.ticks xs).raceDistance i = g.raceDistance i + g.driven i xs := by
  induction xs generalizing g with
  | nil => exact (add_zero _).symm
  | cons x xs ih =>
    rw [ticks_cons, ih (g.tick x), tick_raceDistance, driven, add_assoc]

variable {g x i} in
theorem tick_withinLap (h : (g.states i).WithinLap g.track)
    (hlength : 370 / 3600 * simSPerTick ≤ g.track.lengthKm) :
    ((g.tick x).states i).WithinLap (g.tick x).track := by
  have hadvance := h.advance hlength (x i)
  unfold DriverState.WithinLap at hadvance ⊢
  rw [tick_track]
  unfold tick
  rw [updatePositionsAndDrs_distanceInLap, advanceAll_states]
  exact hadvance

/-! ### The lap of the race -/

/-- `race_lap_` is the largest lap. -/
def RaceLapMax (g : TelemetryGenerator) : Prop :=
  IsGreatest (Set.range fun i => (g.states i).latestFrame.lap) g.raceLap

theorem tickDriver_lap (j : Fin 20) :
    ((g.tickDriver x i).states j).latestFrame.lap = (g.states j).latestFrame.lap
      + if j = i ∧ (g.states i).crossesLine g.track (x i).noise then 1 else 0 := by
  by_cases hj : j = i
  · subst hj
    show (Function.update g.states j _ j).latestFrame.lap = _
    rw [Function.update_self, DriverState.advance_lap]
    simp
  · show (Function.update g.states i _ j).latestFrame.lap = _
    rw [Function.update_of_ne hj]
    simp [hj]

theorem tickDriver_raceLap :
    (g.tickDriver x i).raceLap = if (g.states i).crossesLine g.track (x i).noise
        ∧ g.raceLap < (g.states i).latestFrame.lap + 1
      then (g.states i).latestFrame.lap + 1 else g.raceLap := by
  unfold tickDriver
  simp only [decide_eq_true_eq, DriverState.advance_lap]
  by_cases hc : (g.states i).crossesLine g.track (x i).noise
  · simp only [hc, if_true, true_and]
  · simp only [hc, false_and, if_false]

variable {g} in
theorem RaceLapMax.tickDriver (h : g.RaceLapMax) : (g.tickDriver x i).RaceLapMax := by
  obtain ⟨⟨j, hj⟩, hmax⟩ := h
  have hle : ∀ k, (g.states k).latestFrame.lap ≤ g.raceLap := fun k => hmax ⟨k, rfl⟩
  have hi := hle i
  simp only [] at hj
  unfold RaceLapMax
  simp only [tickDriver_lap, tickDriver_raceLap]
  by_cases hc : (g.states i).crossesLine g.track (x i).noise
  · by_cases hlt : g.raceLap < (g.states i).latestFrame.lap + 1
    · -- driver `i` was at the largest lap, and is now alone one further
      rw [if_pos ⟨hc, hlt⟩]
      refine ⟨⟨i, by simp [hc]⟩, ?_⟩
      rintro _ ⟨k, rfl⟩
      have hk := hle k
      simp only []
      split <;> omega
    · -- the largest lap is larger, and another driver's
      rw [if_neg (by simp [hlt])]
      have hji : j ≠ i := by
        intro h
        subst h
        omega
      refine ⟨⟨j, by simp [hji, hj]⟩, ?_⟩
      rintro _ ⟨k, rfl⟩
      have hk := hle k
      simp only []
      split
      · rename_i hki
        rw [hki.1]
        omega
      · omega
  · simp only [hc, and_false, false_and, if_false, add_zero]
    exact ⟨⟨j, hj⟩, hmax⟩

variable {g} in
theorem RaceLapMax.tick (h : g.RaceLapMax) : (g.tick x).RaceLapMax := by
  have hsweep : ∀ is : List (Fin 20), ∀ g : TelemetryGenerator, g.RaceLapMax →
      (is.foldl (fun g i => g.tickDriver x i) g).RaceLapMax := by
    intro is
    induction is with
    | nil => exact fun _ h => h
    | cons i is ih => exact fun g h => ih _ (h.tickDriver x i)
  have hall : (g.advanceAll x).RaceLapMax := hsweep _ g h
  unfold RaceLapMax TelemetryGenerator.tick at *
  simp only [updatePositionsAndDrs_lap]
  exact hall

theorem raceLap_le_tick : g.raceLap ≤ (g.tick x).raceLap := by
  have hsweep : ∀ is : List (Fin 20), ∀ g : TelemetryGenerator,
      g.raceLap ≤ (is.foldl (fun g i => g.tickDriver x i) g).raceLap := by
    intro is
    induction is with
    | nil => exact fun _ => le_rfl
    | cons i is ih =>
      intro g
      refine le_trans ?_ (ih _)
      rw [tickDriver_raceLap]
      split_ifs with hlap
      · exact hlap.2.le
      · exact le_rfl
  have hall : g.raceLap ≤ (g.advanceAll x).raceLap := hsweep _ g
  unfold tick
  simp only [updatePositionsAndDrs]
  exact hall

theorem raceLap_le_ticks (xs : List TickInput) : g.raceLap ≤ (g.ticks xs).raceLap := by
  induction xs generalizing g with
  | nil => rw [ticks_nil]
  | cons x xs ih =>
    rw [ticks_cons]
    exact (g.raceLap_le_tick x).trans (ih (g.tick x))

/-! ### Along a run -/

variable (track : TrackProfile) (lapStart : Fin 20 → ℤ)

theorem init_withinLap (hlength : 370 / 3600 * simSPerTick ≤ track.lengthKm) :
    ((init track lapStart).states i).WithinLap track := by
  have hi : ((i : ℕ) : ℚ) ≤ 19 := by exact_mod_cast (by omega : (i : ℕ) ≤ 19)
  have hi0 : (0 : ℚ) ≤ (i : ℕ) := Nat.cast_nonneg _
  unfold simSPerTick timeScale tickS at hlength
  unfold DriverState.WithinLap init DriverState.onGrid
  simp only []
  constructor <;> linarith

theorem raceLapMax_init : (init track lapStart).RaceLapMax := by
  refine ⟨⟨0, rfl⟩, ?_⟩
  rintro _ ⟨i, rfl⟩
  exact le_rfl

@[simp]
theorem ticks_track (xs : List TickInput) : (g.ticks xs).track = g.track := by
  induction xs generalizing g with
  | nil => rfl
  | cons x xs ih => rw [ticks_cons, ih, tick_track]

variable {g} in
theorem ticks_withinLap (h : (g.states i).WithinLap g.track)
    (hlength : 370 / 3600 * simSPerTick ≤ g.track.lengthKm) (xs : List TickInput) :
    ((g.ticks xs).states i).WithinLap g.track := by
  induction xs generalizing g with
  | nil => exact h
  | cons x xs ih =>
    have htick : ((g.tick x).states i).WithinLap (g.tick x).track := tick_withinLap h hlength
    have hrest := ih htick (by rwa [tick_track])
    rw [tick_track] at hrest
    rw [ticks_cons]
    exact hrest

theorem ticks_init_withinLap (hlength : 370 / 3600 * simSPerTick ≤ track.lengthKm)
    (xs : List TickInput) : (((init track lapStart).ticks xs).states i).WithinLap track :=
  ticks_withinLap i (init_withinLap i track lapStart hlength) hlength xs

variable {g} in
theorem RaceLapMax.ticks (h : g.RaceLapMax) (xs : List TickInput) : (g.ticks xs).RaceLapMax := by
  induction xs generalizing g with
  | nil => exact h
  | cons x xs ih =>
    rw [ticks_cons]
    exact ih (h.tick x)

theorem init_raceDistance :
    (init track lapStart).raceDistance i = track.lengthKm + (20 - i - 1) * 0.010 := by
  unfold raceDistance init DriverState.onGrid
  simp only []
  push_cast
  ring

/-- Of a distance made of laps and a rest within one, the laps are the whole part. -/
theorem floor_laps {lap : ℤ} {distance length : ℚ} (h0 : 0 ≤ distance) (hlt : distance < length) :
    ⌊(lap * length + distance) / length⌋ = lap := by
  have hpos : 0 < length := h0.trans_lt hlt
  rw [Int.floor_eq_iff]
  constructor
  · rw [le_div_iff₀ hpos]
    linarith
  · rw [div_lt_iff₀ hpos]
    linarith

/-- The accounts of a run, at every tick. -/
theorem lap_accounting (hlength : 370 / 3600 * simSPerTick ≤ track.lengthKm)
    (xs : List TickInput) :
    let start := init track lapStart
    let g := start.ticks xs
    (∀ i, (0 ≤ (g.states i).distanceInLap ∧ (g.states i).distanceInLap < track.lengthKm)
        ∧ (((g.states i).latestFrame.lap - 1 : ℤ) : ℚ) * track.lengthKm
          + (g.states i).distanceInLap = (start.states i).distanceInLap + start.driven i xs
        ∧ (g.states i).latestFrame.lap - 1
          = ⌊((start.states i).distanceInLap + start.driven i xs) / track.lengthKm⌋
        ∧ ∀ x, (g.states i).latestFrame.lap ≤ ((g.tick x).states i).latestFrame.lap
          ∧ ((g.tick x).states i).latestFrame.lap ≤ (g.states i).latestFrame.lap + 1)
      ∧ IsGreatest (Set.range fun i => (g.states i).latestFrame.lap) g.raceLap := by
  intro start g
  refine ⟨fun i => ?_, (raceLapMax_init track lapStart).ticks xs⟩
  have hwithin : (g.states i).WithinLap track := ticks_init_withinLap i track lapStart hlength xs
  have hodometer : (((g.states i).latestFrame.lap - 1 : ℤ) : ℚ) * track.lengthKm
      + (g.states i).distanceInLap = (start.states i).distanceInLap + start.driven i xs := by
    have hdistance := start.ticks_raceDistance i xs
    rw [init_raceDistance] at hdistance
    unfold raceDistance at hdistance
    rw [ticks_track] at hdistance
    have hstart : (start.states i).distanceInLap = (20 - i - 1) * 0.010 := rfl
    have htrack : start.track = track := rfl
    rw [htrack] at hdistance
    rw [hstart]
    push_cast
    linarith
  refine ⟨hwithin, hodometer, ?_, fun x => ?_⟩
  · rw [← hodometer, floor_laps hwithin.1 hwithin.2]
  · rw [tick_lap]
    split <;> omega

/-- Each of 49 ticks covers a track length, and is a lap of each driver. -/
theorem lap_accounting_flatOut :
    let start := init shortTrack fun _ => 0
    let g := start.ticks (Formation.laps 49)
    g.raceLap = 50 ∧ ∀ i, start.driven i (Formation.laps 49) = 49 * shortTrack.lengthKm
      ∧ (g.states i).distanceInLap < shortTrack.lengthKm
      ∧ 49 = ⌊((start.states i).distanceInLap + start.driven i (Formation.laps 49))
          / shortTrack.lengthKm⌋ := by
  intro start g
  have hformation : Formation 49 g := Formation.ticks_laps (n := 49) le_rfl
  have hlap : ∀ i, (g.states i).latestFrame.lap = 50 := fun i => (hformation.flatOut i).lap
  obtain ⟨haccounts, hgreatest⟩ := lap_accounting shortTrack (fun _ => 0) le_rfl (Formation.laps 49)
  refine ⟨?_, fun i => ?_⟩
  · obtain ⟨i, hi⟩ := hgreatest.1
    exact hi.symm.trans (hlap i)
  · obtain ⟨hwithin, hodometer, hfloor, -⟩ := haccounts i
    rw [hlap i] at hodometer hfloor
    refine ⟨?_, hwithin.2, hfloor⟩
    have hdistance : (g.states i).distanceInLap = (start.states i).distanceInLap :=
      (hformation.flatOut i).distance
    rw [hdistance] at hodometer
    push_cast at hodometer
    linarith

end TelemetryGenerator

end RaceConditionZ
