import Mathlib.Data.List.FinRange
import Mathlib.Data.List.Induction
import Mathlib.Tactic.Linarith
import Mathlib.Tactic.NormNum
import RaceConditionZ.Proofs.Tick

/-!
# The end of the race

The flag is set for a driver that completes its last lap at position 1, and that position is from
the end of the tick before. So the flag comes with the first completed race exactly if the leader of
that tick completes its own race in the next one (`LeaderFirst`).
-/

namespace RaceConditionZ

namespace TelemetryGenerator

/-- The flag tells whether some driver has completed the last lap. -/
def EndDetected (g : TelemetryGenerator) : Prop :=
  g.raceFinished = true ↔ ∃ i, totalLaps < (g.states i).latestFrame.lap

/-- Driver `i` starts the tick on the last lap and completes it. -/
def CompletesRace (g : TelemetryGenerator) (x : TickInput) (i : Fin 20) : Prop :=
  (g.states i).latestFrame.lap = totalLaps ∧ (g.states i).crossesLine g.track (x i).noise

/-- If the tick is the first in which drivers complete the race, the driver that starts it at
position 1 is one of them. -/
def LeaderFirst (g : TelemetryGenerator) (x : TickInput) : Prop :=
  (∀ i, (g.states i).latestFrame.lap ≤ totalLaps) → (∃ i, g.CompletesRace x i) →
    ∃ i, (g.states i).position = 1 ∧ g.CompletesRace x i

variable {g : TelemetryGenerator} {x : TickInput}

theorem lap_le_tick_lap (i : Fin 20) :
    (g.states i).latestFrame.lap ≤ ((g.tick x).states i).latestFrame.lap := by
  rw [tick_lap]
  split <;> omega

/-- A driver that is past the last lap after the tick was so before, or completes the race in it. -/
theorem totalLaps_lt_tick_lap (hle : ∀ i, (g.states i).latestFrame.lap ≤ totalLaps)
    (i : Fin 20) :
    totalLaps < ((g.tick x).states i).latestFrame.lap ↔ g.CompletesRace x i := by
  have hi := hle i
  unfold CompletesRace
  rw [tick_lap]
  split
  · rename_i hc
    simp only [hc, and_true]
    omega
  · rename_i hc
    simp only [hc, and_false, iff_false]
    omega

theorem endsRace_iff (hle : ∀ i, (g.states i).latestFrame.lap ≤ totalLaps) (i : Fin 20) :
    EndsRace (g.states i) g.track (x i).noise
      ↔ (g.states i).position = 1 ∧ g.CompletesRace x i := by
  have hi := hle i
  unfold EndsRace CompletesRace
  constructor
  · intro ⟨hc, hlap, hpos⟩
    exact ⟨hpos, by omega, hc⟩
  · intro ⟨hpos, hlap, hc⟩
    exact ⟨hc, by omega, hpos⟩

theorem EndDetected.tick_iff (h : g.EndDetected) :
    (g.tick x).EndDetected ↔ g.LeaderFirst x := by
  by_cases hle : ∀ i, (g.states i).latestFrame.lap ≤ totalLaps
  · -- no driver is past the last lap, so the flag is down
    have hdown : ¬ g.raceFinished = true := by
      intro hup
      obtain ⟨i, hi⟩ := h.1 hup
      have := hle i
      omega
    unfold EndDetected LeaderFirst
    simp only [tick_raceFinished, hdown, Bool.false_eq_true, false_or, endsRace_iff (x := x) hle,
      totalLaps_lt_tick_lap hle]
    constructor
    · intro hiff _ hex
      exact hiff.2 hex
    · intro hfirst
      exact ⟨fun ⟨i, _, hi⟩ => ⟨i, hi⟩, hfirst hle⟩
  · -- the flag is up and stays up, and no lap goes back
    have hpast : ∃ i, totalLaps < (g.states i).latestFrame.lap := by
      simpa only [not_forall, not_le] using hle
    constructor
    · intro _ hle'
      exact absurd hle' hle
    · intro _
      obtain ⟨i, hi⟩ := hpast
      refine ⟨fun _ => ⟨i, hi.trans_le (lap_le_tick_lap i)⟩, fun _ => ?_⟩
      exact (g.tick_raceFinished x).2 (.inl (h.2 ⟨i, hi⟩))

theorem endDetected_init (track : TrackProfile) (lapStart : Fin 20 → ℤ) :
    (init track lapStart).EndDetected := by
  unfold EndDetected init totalLaps
  simp [DriverState.onGrid]

/-- Along a run the flag tells the end of the race after every tick exactly if every tick is
`LeaderFirst`. -/
theorem race_end_detected_iff (track : TrackProfile) (lapStart : Fin 20 → ℤ)
    (xs : List TickInput) :
    (∀ ys, ys <+: xs → ((init track lapStart).ticks ys).EndDetected) ↔
      ∀ ys x, ys ++ [x] <+: xs → ((init track lapStart).ticks ys).LeaderFirst x := by
  constructor
  · intro hall ys x hpre
    have htick := hall _ hpre
    rw [ticks_concat] at htick
    exact (hall ys ((List.prefix_append ys [x]).trans hpre)).tick_iff.1 htick
  · intro hfirst ys
    induction ys using List.reverseRecOn with
    | nil => exact fun _ => endDetected_init track lapStart
    | append_singleton ys x ih =>
      intro hpre
      have hbefore := ih ((List.prefix_append ys [x]).trans hpre)
      rw [ticks_concat]
      exact hbefore.tick_iff.2 (hfirst ys x hpre)

/-! ### An overtake in the last tick

On a track as long as a car at top speed goes in a tick, all cars at top speed keep their order and
complete a lap in every tick. In tick 50 the leader brakes, and the others complete the race. -/

/-- Nothing wears and no fuel is burnt on it. -/
def shortTrack : TrackProfile where
  lengthKm := 370 / 3600 * simSPerTick
  tireDegFactor := 0
  fuelConsumption := 0

def flatOut (now : ℤ) : TickInput := fun _ => ⟨100, now⟩

/-- The driver in front, VER, falls to the lowest speed. -/
def leaderBrakes (now : ℤ) : TickInput := fun i => ⟨if i = 0 then -1000 else 100, now⟩

/-- Driver `i` after `k` laps at top speed. -/
structure FlatOut (k : ℤ) (i : Fin 20) (s : DriverState) : Prop where
  profile : s.profile = drivers.get i
  car : s.car = carForDriver (drivers.get i)
  lap : s.latestFrame.lap = k + 1
  position : s.position = i + 1
  distance : s.distanceInLap = (20 - i - 1) * 0.010
  tireWear : s.latestFrame.tireWear = 0
  fuelKg : s.latestFrame.fuelKg = 100
  inPit : s.inPit = false

theorem topSpeed_le (i : Fin 20) :
    370 < maxSpeed (carForDriver (drivers.get i)) * (1 - 100 / 100 * 0.08) * (1 - 0 * 0.25)
      + 100 * (1 - (drivers.get i).consistency) * 8 := by
  revert i
  decide +kernel

theorem brakingSpeed_lt (i : Fin 20) :
    maxSpeed (carForDriver (drivers.get i)) * (1 - 100 / 100 * 0.08) * (1 - 0 * 0.25)
      + -1000 * (1 - (drivers.get i).consistency) * 8 + 12 < 80 := by
  revert i
  decide +kernel

theorem tireMgmt_nonneg (i : Fin 20) : 0 ≤ (drivers.get i).tireMgmt := by
  revert i
  decide +kernel

namespace FlatOut

variable {k : ℤ} {i : Fin 20} {s : DriverState}

theorem speedKph_eq (h : FlatOut k i s) : s.speedKph 100 = 370 := by
  have htop := topSpeed_le i
  have hdrs := (drsBonus_mem s.latestFrame.drsActive).1
  unfold DriverState.speedKph
  simp only [h.profile, h.car, h.tireWear, h.fuelKg]
  exact clamp_eq_hi (by norm_num) (by linarith)

theorem speedKph_braking (h : FlatOut k i s) : s.speedKph (-1000) = 80 := by
  have hlow := brakingSpeed_lt i
  have hdrs := (drsBonus_mem s.latestFrame.drsActive).2
  unfold DriverState.speedKph
  simp only [h.profile, h.car, h.tireWear, h.fuelKg]
  exact clamp_eq_lo (by linarith)

theorem crossesLine (h : FlatOut k i s) : s.crossesLine shortTrack 100 := by
  refine ⟨h.inPit, ?_⟩
  have hi : ((i : ℕ) : ℚ) ≤ 19 := by exact_mod_cast (by omega : (i : ℕ) ≤ 19)
  rw [h.speedKph_eq, h.distance]
  unfold shortTrack
  simp only []
  linarith

theorem not_crossesLine_braking (h : FlatOut k i s) : ¬ s.crossesLine shortTrack (-1000) := by
  intro ⟨_, hline⟩
  have hi : (0 : ℚ) ≤ ((i : ℕ) : ℚ) := Nat.cast_nonneg _
  rw [h.speedKph_braking, h.distance] at hline
  revert hline
  unfold shortTrack simSPerTick timeScale tickS
  norm_num
  linarith

theorem recordLap (h : FlatOut k i s) (now : ℤ) :
    FlatOut (k + 1) i ((s.drive shortTrack 100).recordLap shortTrack now) where
  profile := h.profile
  car := h.car
  lap := by
    show s.latestFrame.lap + 1 = k + 1 + 1
    rw [h.lap]
  position := h.position
  distance := by
    show s.distanceInLap + s.speedKph 100 / 3600 * simSPerTick - 370 / 3600 * simSPerTick = _
    rw [h.speedKph_eq, h.distance, add_sub_cancel_right]
  tireWear := by
    show min 1 (s.latestFrame.tireWear + tireWearBase * s.profile.aggression * 0 * _) = 0
    rw [h.tireWear]
    norm_num
  fuelKg := by
    show max 0 (s.latestFrame.fuelKg - 0 * _) = 100
    rw [h.fuelKg]
    norm_num
  inPit := h.inPit

theorem shouldPit_eq (h : FlatOut k i s) : s.shouldPit = false := by
  have hmgmt := tireMgmt_nonneg i
  unfold DriverState.shouldPit
  simp only [h.profile, h.tireWear]
  split_ifs
  · rfl
  · rfl
  · rw [decide_eq_false_iff_not]
    linarith

theorem advance (h : FlatOut k i s) (now : ℤ) :
    FlatOut (k + 1) i (s.advance shortTrack ⟨100, now⟩) := by
  rw [s.advance_of_crosses shortTrack (x := ⟨100, now⟩) h.crossesLine]
  unfold DriverState.completeLap
  simp only [(h.recordLap now).shouldPit_eq, Bool.false_eq_true, if_false]
  exact h.recordLap now

end FlatOut

/-- All drivers after `k` laps at top speed, in the order of the grid. -/
structure Formation (k : ℤ) (g : TelemetryGenerator) : Prop where
  track : g.track = shortTrack
  raceFinished : g.raceFinished = false
  flatOut : ∀ i, FlatOut k i (g.states i)

namespace Formation

variable {k : ℤ}

theorem init : Formation 0 (init shortTrack fun _ => 0) where
  track := rfl
  raceFinished := rfl
  flatOut _ := ⟨rfl, rfl, rfl, rfl, rfl, rfl, rfl, rfl⟩

theorem ranking_eq (h : Formation k g) : g.ranking = List.finRange 20 := by
  unfold ranking
  refine List.Pairwise.insertionSort_eq ?_
  refine (List.pairwise_lt_finRange 20).imp fun {a b} hab => ?_
  have hab' : ((a : ℕ) : ℚ) ≤ (b : ℕ) := by exact_mod_cast hab.le
  unfold raceDistance
  rw [(h.flatOut a).lap, (h.flatOut b).lap, (h.flatOut a).distance, (h.flatOut b).distance]
  linarith

theorem updatePositionsAndDrs (h : Formation k g) : Formation k g.updatePositionsAndDrs where
  track := by rw [updatePositionsAndDrs_track, h.track]
  raceFinished := by rw [updatePositionsAndDrs_raceFinished, h.raceFinished]
  flatOut i := by
    have hi := h.flatOut i
    unfold TelemetryGenerator.updatePositionsAndDrs
    rw [h.ranking_eq]
    refine ⟨hi.profile, hi.car, hi.lap, ?_, hi.distance, hi.tireWear, hi.fuelKg, hi.inPit⟩
    simp only [placed, List.idxOf_finRange]

theorem advanceAll (h : Formation k g) (hk : k < 49) (now : ℤ) :
    Formation (k + 1) (g.advanceAll (TelemetryGenerator.flatOut now)) where
  track := by rw [advanceAll_track, h.track]
  raceFinished := by
    rw [← Bool.not_eq_true, advanceAll_raceFinished, h.raceFinished]
    intro hup
    obtain hup | ⟨i, -, hlap, -⟩ := hup
    · cases hup
    · rw [(h.flatOut i).lap] at hlap
      unfold totalLaps at hlap
      omega
  flatOut i := by
    rw [advanceAll_states, h.track]
    exact (h.flatOut i).advance now

theorem tick (h : Formation k g) (hk : k < 49) (now : ℤ) :
    Formation (k + 1) (g.tick (TelemetryGenerator.flatOut now)) :=
  (h.advanceAll hk now).updatePositionsAndDrs

/-- The ticks of 20 ms at top speed. -/
def laps (n : ℕ) : List TickInput :=
  (List.range n).map fun k : ℕ => TelemetryGenerator.flatOut ((k + 1) * 20000000)

theorem laps_succ (n : ℕ) :
    laps (n + 1) = laps n ++ [TelemetryGenerator.flatOut ((n + 1) * 20000000)] := by
  unfold laps
  rw [List.range_succ, List.map_append, List.map_singleton]

theorem ticks_laps {n : ℕ} (hn : n ≤ 49) :
    Formation n ((TelemetryGenerator.init shortTrack fun _ => 0).ticks (laps n)) := by
  induction n with
  | zero => exact init
  | succ n ih =>
    rw [laps_succ, ticks_concat, Nat.cast_succ]
    exact (ih (by omega)).tick (by omega) _

/-- Each tick of the laps finds a formation. -/
theorem of_laps {n : ℕ} (hn : n ≤ 49) {ys : List TickInput} {x : TickInput}
    (h : ys ++ [x] <+: laps n) :
    Formation ys.length ((TelemetryGenerator.init shortTrack fun _ => 0).ticks ys)
      ∧ ∃ now, x = TelemetryGenerator.flatOut now := by
  induction n with
  | zero =>
    rw [laps, List.range_zero, List.map_nil, List.prefix_nil] at h
    simp at h
  | succ n ih =>
    rw [laps_succ, List.prefix_concat_iff] at h
    rcases h with h | h
    · obtain ⟨rfl, hx⟩ := List.append_inj' h rfl
      have hlength : (laps n).length = n := by simp [laps]
      rw [hlength]
      exact ⟨ticks_laps (by omega), _, List.singleton_inj.1 hx⟩
    · exact ih (by omega) h

theorem endDetected (h : Formation 49 g) : g.EndDetected := by
  unfold EndDetected totalLaps
  simp [h.raceFinished, (h.flatOut _).lap]

theorem not_leaderFirst (h : Formation 49 g) (now : ℤ) : ¬ g.LeaderFirst (leaderBrakes now) := by
  intro hfirst
  have hlap : ∀ i, (g.states i).latestFrame.lap = totalLaps := fun i => (h.flatOut i).lap
  have htsu : g.CompletesRace (leaderBrakes now) 1 := by
    refine ⟨hlap 1, ?_⟩
    rw [h.track]
    exact (h.flatOut 1).crossesLine
  obtain ⟨i, hpos, -, hcross⟩ := hfirst (fun i => (hlap i).le) ⟨1, htsu⟩
  have hi : i = 0 := by
    rw [(h.flatOut i).position] at hpos
    omega
  rw [hi, h.track] at hcross
  exact (h.flatOut 0).not_crossesLine_braking hcross

end Formation

/-- TSU completes the last lap in tick 50 from position 2, and the flag stays down. -/
theorem not_endDetected_leaderBrakes :
    370 / 3600 * simSPerTick ≤ shortTrack.lengthKm ∧
      ¬ ((init shortTrack fun _ => 0).ticks
        (Formation.laps 49 ++ [leaderBrakes (50 * 20000000)])).EndDetected := by
  refine ⟨le_rfl, ?_⟩
  have h := Formation.ticks_laps (n := 49) le_rfl
  rw [ticks_concat]
  exact fun hend => h.not_leaderFirst _ (h.endDetected.tick_iff.1 hend)

end TelemetryGenerator

end RaceConditionZ
