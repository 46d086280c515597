import RaceConditionZ.Proofs.DriverFrames
import RaceConditionZ.Proofs.DriverLimits
import RaceConditionZ.TrackLimits
import Mathlib.Data.Nat.Order.Lemmas
import Mathlib.Tactic.Positivity

/-!
# The entry into the pits

A driver turns into the pits where it completes a lap with worn tyres, from the fifth lap on and
once in a race. Wear grows with the distance covered, so on the default track VER does not come to
lap 27 without a stop; and no driver is through with the race by then.
-/

namespace RaceConditionZ

namespace DriverState

variable {s : DriverState} {track : TrackProfile} {x : DriverInput}

theorem shouldPit_iff : s.shouldPit = true ↔ s.hasCompletedPit = false ∧ 5 ≤ s.latestFrame.lap
    ∧ 0.60 + s.profile.tireMgmt * 0.25 ≤ s.latestFrame.tireWear := by
  unfold shouldPit
  split_ifs with hpit hlap
  · simp [hpit]
  · simp [not_le.2 hlap]
  · simp [hpit, not_lt.1 hlap]

variable (s track x) in
/-- In this tick the driver turns into the pits. -/
def EntersPit : Prop :=
  s.crossesLine track x.noise ∧ ((s.drive track x.noise).recordLap track x.now).shouldPit = true

instance : Decidable (s.EntersPit track x) := inferInstanceAs (Decidable (_ ∧ _))

theorem EntersPit.advance (h : s.EntersPit track x) :
    s.advance track x = ((s.drive track x.noise).recordLap track x.now).enterPit := by
  rw [s.advance_of_crosses track h.1]
  unfold completeLap
  simp only [h.2, if_true]

/-- A driver on the track that does not turn in drives on. -/
theorem advance_of_not_entersPit (hpit : s.inPit = false) (h : ¬ s.EntersPit track x) :
    s.advance track x = if s.crossesLine track x.noise
      then (s.drive track x.noise).recordLap track x.now else s.drive track x.noise := by
  split_ifs with hc
  · have hstays : ((s.drive track x.noise).recordLap track x.now).shouldPit = false := by
      rw [← Bool.not_eq_true]
      exact fun hpits => h ⟨hc, hpits⟩
    rw [s.advance_of_crosses track hc]
    unfold completeLap
    simp only [hstays, Bool.false_eq_true, if_false]
  · exact s.advance_of_not_crosses track hpit hc

theorem advance_inPit_iff (hpit : s.inPit = false) :
    (s.advance track x).inPit = true ↔ s.EntersPit track x := by
  constructor
  · intro hin
    by_contra h
    rw [advance_of_not_entersPit hpit h] at hin
    have hout : (if s.crossesLine track x.noise
        then (s.drive track x.noise).recordLap track x.now else s.drive track x.noise).inPit
          = s.inPit := by
      split <;> rfl
    rw [hout, hpit] at hin
    cases hin
  · intro h
    rw [h.advance]
    rfl

theorem advance_hasCompletedPit (h : s.hasCompletedPit = true) :
    (s.advance track x).hasCompletedPit = true := by
  by_cases hpit : s.inPit = true
  · rw [s.advance_of_inPit track hpit]
    exact s.handlePit_field (f := DriverState.hasCompletedPit) h h
  · by_cases henter : s.EntersPit track x
    · rw [henter.advance]
      rfl
    · rw [advance_of_not_entersPit (by simpa using hpit) henter]
      split <;> exact h

variable (s) in
/-- No driver is in the pits before its fifth lap. -/
def PitsLate : Prop := s.inPit = true → 5 ≤ s.latestFrame.lap

theorem PitsLate.advance (h : s.PitsLate) (track : TrackProfile) (x : DriverInput) :
    (s.advance track x).PitsLate := by
  intro hin
  by_cases hpit : s.inPit = true
  · rw [s.advance_of_inPit track hpit, handlePit_lap]
    exact h hpit
  · have henter := (advance_inPit_iff (by simpa using hpit)).1 hin
    rw [henter.advance]
    exact (shouldPit_iff.1 henter.2).2.1

end DriverState

theorem aggression_mem (i : Fin 20) :
    0.6 ≤ (drivers.get i).aggression ∧ (drivers.get i).aggression ≤ 0.85 := by
  revert i
  decide +kernel

theorem DriverState.check_eq_some {d : DriverState} {lap now : ℤ} {coin : ℚ}
    {e : RaceControlEvent} :
    d.check lap coin now = some e
      ↔ (d.inPit = false ∧ coin < d.violationProb) ∧ d.trackLimitsEvent lap now = e := by
  unfold DriverState.check
  split_ifs with hpit hcoin
  · simp [hpit]
  · simp [hpit, hcoin]
  · simp [hcoin]

/-- A draw of 0 is a violation, and one of a half is none. -/
theorem DriverState.InRange.violationProb_mem {s : DriverState} {i : Fin 20} (h : s.InRange i)
    (hspeed : 60 ≤ s.latestFrame.speedKph) (hspeed' : s.latestFrame.speedKph ≤ 370) :
    0 < s.violationProb ∧ s.violationProb ≤ 1 / 2 := by
  obtain ⟨hagg, hagg'⟩ := aggression_mem i
  rw [← h.profile] at hagg hagg'
  have hwear := h.tireWear_nonneg
  have hwear' := h.tireWear_le
  have hagg0 : 0 < s.profile.aggression := by linarith
  have hspeed0 : 0 < s.latestFrame.speedKph := by linarith
  unfold DriverState.violationProb baseRate
  refine ⟨by positivity, ?_⟩
  calc (0.004 : ℚ) * s.profile.aggression * (1 + s.latestFrame.tireWear)
        * (s.latestFrame.speedKph / 280)
      ≤ 0.004 * 0.85 * (1 + 1) * (370 / 280) := by gcongr
    _ ≤ 1 / 2 := by norm_num

namespace TelemetryGenerator

variable {g : TelemetryGenerator} {x : TickInput} {i : Fin 20}

theorem ticks_inRange (h : (g.states i).InRange i) (htrack : g.track.Wears) (xs : List TickInput) :
    ((g.ticks xs).states i).InRange i := by
  induction xs generalizing g with
  | nil => rwa [ticks_nil]
  | cons x xs ih =>
    rw [ticks_cons]
    exact ih (tick_inRange h htrack x) (by rwa [tick_track])

theorem ticks_pitsLate (h : (g.states i).PitsLate) (xs : List TickInput) :
    ((g.ticks xs).states i).PitsLate := by
  induction xs generalizing g with
  | nil => rwa [ticks_nil]
  | cons x xs ih =>
    rw [ticks_cons]
    refine ih fun hin => ?_
    have hadvance := h.advance g.track (x i)
    rw [tick_inPit] at hin
    rw [tick_lap, ← DriverState.advance_lap]
    exact hadvance hin

theorem driven_le (xs : List TickInput) :
    g.driven i xs ≤ xs.length * (370 / 3600 * simSPerTick) := by
  induction xs generalizing g with
  | nil =>
    rw [List.length_nil, Nat.cast_zero, zero_mul]
    rfl
  | cons x xs ih =>
    have hkm := (g.states i).coveredKm_le g.track (x i)
    rw [← coveredKm_eq] at hkm
    have hrest := ih (g := g.tick x)
    rw [driven, List.length_cons]
    push_cast
    linarith

/-- The flag goes up for a driver that is past the last lap from then on. -/
theorem raceFinished_lap (xs : List TickInput) (h : (g.ticks xs).raceFinished = true) :
    g.raceFinished = true ∨ ∃ i, totalLaps < ((g.ticks xs).states i).latestFrame.lap := by
  induction xs using List.reverseRecOn with
  | nil =>
    rw [ticks_nil] at h
    exact .inl h
  | append_singleton xs x ih =>
    rw [ticks_concat, tick_raceFinished] at h
    rw [ticks_concat]
    rcases h with h | ⟨i, hcross, hlap, -⟩
    · refine (ih h).imp_right fun ⟨i, hi⟩ => ⟨i, ?_⟩
      rw [tick_lap]
      split <;> omega
    · refine .inr ⟨i, ?_⟩
      rw [tick_lap, if_pos hcross]
      exact hlap

/-! ### On the default track -/

section DefaultTrack

theorem defaultTrack_length : 370 / 3600 * simSPerTick ≤ defaultTrack.lengthKm := by
  unfold defaultTrack simSPerTick timeScale tickS
  norm_num

/-- The first `n` ticks of an endless run. -/
def firstTicks (xs : ℕ → TickInput) (n : ℕ) : List TickInput := (List.range n).map xs

theorem firstTicks_succ (xs : ℕ → TickInput) (n : ℕ) :
    firstTicks xs (n + 1) = firstTicks xs n ++ [xs n] := by
  unfold firstTicks
  rw [List.range_succ, List.map_append, List.map_singleton]

@[simp]
theorem length_firstTicks (xs : ℕ → TickInput) (n : ℕ) : (firstTicks xs n).length = n := by
  unfold firstTicks
  rw [List.length_map, List.length_range]

/-- Draws of 0, and a tick every 20 ms. -/
def steady (n : ℕ) : TickInput := fun _ => ⟨0, (n + 1) * 20000000⟩

variable (lapStart : Fin 20 → ℤ) (xs : ℕ → TickInput)

/-- The default track after `n` ticks. -/
def race (n : ℕ) : TelemetryGenerator := (init defaultTrack lapStart).ticks (firstTicks xs n)

theorem race_succ (n : ℕ) : race lapStart xs (n + 1) = (race lapStart xs n).tick (xs n) := by
  unfold race
  rw [firstTicks_succ, ticks_concat]

@[simp]
theorem race_track (n : ℕ) : (race lapStart xs n).track = defaultTrack := ticks_track _ _

theorem race_withinLap (n : ℕ) (i : Fin 20) :
    ((race lapStart xs n).states i).WithinLap defaultTrack :=
  ticks_init_withinLap i defaultTrack lapStart defaultTrack_length _

theorem race_inRange (n : ℕ) (i : Fin 20) : ((race lapStart xs n).states i).InRange i :=
  ticks_inRange (init_inRange _ _) defaultTrack_wears _

/-- The laps that so many ticks are long enough for. -/
theorem race_lap_mul_le (n : ℕ) (i : Fin 20) :
    (((race lapStart xs n).states i).latestFrame.lap : ℚ) * 5.4 ≤ 5.59 + n * (370 / 1500) := by
  have hwithin := (race_withinLap lapStart xs n i).1
  have hdistance := (init defaultTrack lapStart).ticks_raceDistance i (firstTicks xs n)
  have hdriven := (init defaultTrack lapStart).driven_le (i := i) (firstTicks xs n)
  have hi0 : (0 : ℚ) ≤ (i : ℕ) := Nat.cast_nonneg _
  have hlength : defaultTrack.lengthKm = 5.4 := rfl
  have hsim : simSPerTick = 2.4 := by
    unfold simSPerTick timeScale tickS
    norm_num
  change (race lapStart xs n).raceDistance i = _ at hdistance
  rw [init_raceDistance] at hdistance
  unfold raceDistance at hdistance
  rw [race_track, hlength] at hdistance
  rw [length_firstTicks, hsim] at hdriven
  linarith

/-- Nobody is through with the race. -/
theorem race_not_finished {n : ℕ} (hn : n ≤ 1093) : (race lapStart xs n).raceFinished = false := by
  rw [← Bool.not_eq_true]
  intro h
  rcases raceFinished_lap (firstTicks xs n) h with h | ⟨i, hi⟩
  · cases h
  · have hlap := race_lap_mul_le lapStart xs n i
    have hi' : (51 : ℚ) ≤ ((race lapStart xs n).states i).latestFrame.lap := by
      unfold totalLaps at hi
      exact_mod_cast Int.add_one_le_iff.2 hi
    have hn' : (n : ℚ) ≤ 1093 := by exact_mod_cast hn
    linarith

/-- Nobody is in the pits. -/
theorem race_not_inPit {n : ℕ} (hn : n ≤ 86) (i : Fin 20) :
    ((race lapStart xs n).states i).inPit = false := by
  rw [← Bool.not_eq_true]
  intro h
  have hlate : 5 ≤ ((race lapStart xs n).states i).latestFrame.lap :=
    ticks_pitsLate (g := init defaultTrack lapStart) (by rintro ⟨⟩) _ h
  have hlap := race_lap_mul_le lapStart xs n i
  have hlate' : (5 : ℚ) ≤ ((race lapStart xs n).states i).latestFrame.lap := by
    exact_mod_cast hlate
  have hn' : (n : ℚ) ≤ 86 := by exact_mod_cast hn
  linarith

theorem race_violationProb (n : ℕ) (i : Fin 20) :
    0 < ((race lapStart xs (n + 1)).states i).violationProb
      ∧ ((race lapStart xs (n + 1)).states i).violationProb ≤ 1 / 2 := by
  have hspeed : ((race lapStart xs (n + 1)).states i).latestFrame.speedKph
      = if ((race lapStart xs n).states i).inPit then 60
        else ((race lapStart xs n).states i).speedKph (xs n i).noise := by
    rw [race_succ, tick_speedKph, DriverState.advance_speedKph]
  have hmem := ((race lapStart xs n).states i).speedKph_mem (xs n i).noise
  refine (race_inRange lapStart xs (n + 1) i).violationProb_mem ?_ ?_
  · rw [hspeed]
    split <;> linarith
  · rw [hspeed]
    split <;> linarith

/-- What a kilometre of the default track takes off VER's tyres. -/
def wearPerKm : ℚ := tireWearBase * 0.85 * (1500 / 280)

/-- VER after `n` ticks without a stop. -/
structure FirstStint (n : ℕ) (g : TelemetryGenerator) : Prop where
  inPit : (g.states 0).inPit = false
  lap_le : (g.states 0).latestFrame.lap ≤ 26
  wear_le : min 1 (wearPerKm * (g.raceDistance 0 - 5.59)) ≤ (g.states 0).latestFrame.tireWear
  distance_le : 5.59 + n * (250 / 1500) ≤ g.raceDistance 0

/-- Without a draw that slows it, VER is never below 250 km/h. -/
theorem speedKph_ver {s : DriverState} (h : s.InRange 0) {noise : ℚ} (hnoise : 0 ≤ noise) :
    250 ≤ s.speedKph noise := by
  have hcons := consistency_le 0
  rw [← h.profile] at hcons
  have hmax : maxSpeed s.car = 367.3 := by
    rw [h.car]
    decide +kernel
  have hfuel : (0.92 : ℚ) ≤ 1 - s.latestFrame.fuelKg / 100 * 0.08 := by linarith [h.fuelKg_le]
  have htire : (0.75 : ℚ) ≤ 1 - s.latestFrame.tireWear * 0.25 := by linarith [h.tireWear_le]
  have hbase : (250 : ℚ) ≤ maxSpeed s.car * (1 - s.latestFrame.fuelKg / 100 * 0.08)
      * (1 - s.latestFrame.tireWear * 0.25) := by
    rw [hmax]
    calc (250 : ℚ) ≤ 367.3 * 0.92 * 0.75 := by norm_num
      _ ≤ 367.3 * (1 - s.latestFrame.fuelKg / 100 * 0.08)
          * (1 - s.latestFrame.tireWear * 0.25) := by gcongr
  have hvariation : 0 ≤ noise * (1 - s.profile.consistency) * 8 :=
    mul_nonneg (mul_nonneg hnoise (by linarith)) (by norm_num)
  have hdrs := (drsBonus_mem s.latestFrame.drsActive).1
  unfold DriverState.speedKph
  exact le_clamp (by linarith) (by norm_num)

theorem wearPerKm_pos : 0 < wearPerKm := by
  unfold wearPerKm tireWearBase
  norm_num

section Step

variable (hpit : (g.states 0).inPit = false) (hstays : ¬ (g.states 0).EntersPit g.track (x 0))

include hpit hstays

theorem tick_of_stays : ((g.tick x).states 0).inPit = false
    ∧ ((g.tick x).states 0).hasCompletedPit = (g.states 0).hasCompletedPit
    ∧ ((g.tick x).states 0).latestFrame.tireWear
      = ((g.states 0).drive g.track (x 0).noise).latestFrame.tireWear := by
  rw [tick_inPit, tick_hasCompletedPit, tick_tireWear,
    DriverState.advance_of_not_entersPit hpit hstays]
  split <;> exact ⟨hpit, rfl, rfl⟩

theorem wear_of_stays {n : ℕ} (h : FirstStint n g) (htrack : g.track = defaultTrack)
    (hrange : (g.states 0).InRange 0) :
    min 1 (wearPerKm * ((g.tick x).raceDistance 0 - 5.59))
      ≤ ((g.tick x).states 0).latestFrame.tireWear := by
  have hkm : g.coveredKm x 0 = (g.states 0).speedKph (x 0).noise / 1500 := by
    rw [coveredKm_eq, DriverState.coveredKm_eq, hpit, if_neg (by simp)]
    unfold simSPerTick timeScale tickS
    ring
  have hagg : (g.states 0).profile.aggression = 0.85 := by
    rw [hrange.profile]
    rfl
  have hwear : ((g.tick x).states 0).latestFrame.tireWear
      = min 1 ((g.states 0).latestFrame.tireWear + wearPerKm * g.coveredKm x 0) := by
    rw [(tick_of_stays hpit hstays).2.2, hkm]
    show min 1 (_ + tireWearBase * (g.states 0).profile.aggression * g.track.tireDegFactor * _) = _
    rw [hagg, htrack]
    unfold wearPerKm defaultTrack
    ring_nf
  have hpos := mul_nonneg wearPerKm_pos.le ((g.states 0).coveredKm_nonneg g.track (x 0))
  rw [← coveredKm_eq] at hpos
  rw [hwear, tick_raceDistance]
  refine le_min (min_le_left _ _) ?_
  rcases min_le_iff.1 h.wear_le with hone | hwear
  · exact (min_le_left _ _).trans (by linarith)
  · refine (min_le_right _ _).trans ?_
    calc wearPerKm * (g.raceDistance 0 + g.coveredKm x 0 - 5.59)
        = wearPerKm * (g.raceDistance 0 - 5.59) + wearPerKm * g.coveredKm x 0 := by ring
      _ ≤ _ := by linarith

end Step

theorem FirstStint.tick {n : ℕ} (h : FirstStint n g) (htrack : g.track = defaultTrack)
    (hrange : (g.states 0).InRange 0) (hwithin : (g.states 0).WithinLap g.track)
    (hnoise : 0 ≤ (x 0).noise) (hout : ((g.tick x).states 0).hasCompletedPit = false) :
    FirstStint (n + 1) (g.tick x) := by
  have hstays : ¬ (g.states 0).EntersPit g.track (x 0) := by
    intro henter
    rw [tick_hasCompletedPit, henter.advance] at hout
    cases hout
  obtain ⟨hpit', hcompleted, hdrive⟩ := tick_of_stays h.inPit hstays
  have hwear := wear_of_stays h.inPit hstays h htrack hrange
  refine ⟨hpit', ?_, hwear, ?_⟩
  · -- a lap completed with such tyres ends in the pits
    have hlap := h.lap_le
    rw [tick_lap]
    split_ifs with hcross
    · by_contra hlt
      have hlap' : ((g.tick x).states 0).latestFrame.lap = 27 := by
        rw [tick_lap, if_pos hcross]
        omega
      have hworn : (0.8 : ℚ) ≤ ((g.tick x).states 0).latestFrame.tireWear := by
        refine le_trans (le_min (by norm_num) ?_) hwear
        have hrest := (tick_withinLap (x := x) hwithin
          (by rw [htrack]; exact defaultTrack_length)).1
        unfold raceDistance
        rw [hlap', tick_track, htrack]
        unfold wearPerKm tireWearBase defaultTrack
        push_cast
        linarith
      refine hstays ⟨hcross, DriverState.shouldPit_iff.2 ⟨?_, ?_, ?_⟩⟩
      · rw [← hout, hcompleted]
        rfl
      · show 5 ≤ (g.states 0).latestFrame.lap + 1
        omega
      · show 0.60 + (g.states 0).profile.tireMgmt * 0.25
          ≤ ((g.states 0).drive g.track (x 0).noise).latestFrame.tireWear
        have hmgmt : (g.states 0).profile.tireMgmt = 0.80 := by
          rw [hrange.profile]
          rfl
        rw [← hdrive, hmgmt]
        linarith
    · omega
  · have hspeed := speedKph_ver hrange hnoise
    rw [tick_raceDistance, coveredKm_eq, DriverState.coveredKm_eq, h.inPit, if_neg (by simp)]
    unfold simSPerTick timeScale tickS
    push_cast
    linarith [h.distance_le]

variable {lapStart} {xs}

theorem firstStint_race (hnoise : ∀ n, 0 ≤ (xs n 0).noise) {n : ℕ}
    (hout : ((race lapStart xs n).states 0).hasCompletedPit = false) :
    FirstStint n (race lapStart xs n) := by
  induction n with
  | zero =>
    have hdistance := init_raceDistance 0 defaultTrack lapStart
    have hlength : defaultTrack.lengthKm = 5.4 := rfl
    rw [hlength] at hdistance
    norm_num at hdistance
    change (race lapStart xs 0).raceDistance 0 = _ at hdistance
    refine ⟨rfl, ?_, ?_, ?_⟩
    · show (1 : ℤ) ≤ 26
      omega
    · rw [hdistance]
      exact (min_le_right _ _).trans
        (by norm_num [race, firstTicks, ticks, init, DriverState.onGrid])
    · rw [hdistance]
      norm_num
  | succ n ih =>
    rw [race_succ] at hout ⊢
    have hbefore : ((race lapStart xs n).states 0).hasCompletedPit = false := by
      rw [← Bool.not_eq_true]
      intro h
      rw [tick_hasCompletedPit, DriverState.advance_hasCompletedPit h] at hout
      cases hout
    refine (ih hbefore).tick (race_track lapStart xs n) (race_inRange lapStart xs n 0) ?_ (hnoise n)
      hout
    rw [race_track]
    exact race_withinLap lapStart xs n 0

/-- The stint is not longer than the 26 laps that its wear allows. -/
theorem le_of_not_hasCompletedPit (hnoise : ∀ n, 0 ≤ (xs n 0).noise) {n : ℕ}
    (hout : ((race lapStart xs n).states 0).hasCompletedPit = false) : n ≤ 841 := by
  have h := firstStint_race hnoise hout
  have hrest := (race_withinLap lapStart xs n 0).2
  have hdistance := h.distance_le
  have hlap : (((race lapStart xs n).states 0).latestFrame.lap : ℚ) ≤ 26 := by
    exact_mod_cast h.lap_le
  have hlength : defaultTrack.lengthKm = 5.4 := rfl
  unfold raceDistance at hdistance
  rw [race_track, hlength] at hdistance
  rw [hlength] at hrest
  have hn : (n : ℚ) < 842 := by linarith
  have hn' : n < 842 := by exact_mod_cast hn
  omega

variable (lapStart) in
/-- VER turns into the pits before anyone is through with the race. -/
theorem exists_entersPit (hnoise : ∀ n, 0 ≤ (xs n 0).noise) :
    ∃ n, 86 ≤ n ∧ n ≤ 841 ∧ ((race lapStart xs n).states 0).EntersPit defaultTrack (xs n 0) := by
  have hsome : ∃ n, ((race lapStart xs n).states 0).hasCompletedPit = true := by
    refine ⟨842, ?_⟩
    by_contra hout
    have hle := le_of_not_hasCompletedPit hnoise (n := 842) (by simpa using hout)
    omega
  have hnone : ¬ ((race lapStart xs 0).states 0).hasCompletedPit = true := by
    rintro ⟨⟩
  obtain ⟨n, hout, hin⟩ := Nat.exists_not_and_succ_of_not_zero_of_exists hnone hsome
  have hout' : ((race lapStart xs n).states 0).hasCompletedPit = false := by simpa using hout
  have henter : ((race lapStart xs n).states 0).EntersPit defaultTrack (xs n 0) := by
    by_contra hstays
    rw [← race_track lapStart xs n] at hstays
    rw [race_succ, (tick_of_stays (firstStint_race hnoise hout').inPit hstays).2.1] at hin
    exact hout hin
  refine ⟨n, ?_, le_of_not_hasCompletedPit hnoise hout', henter⟩
  by_contra hlt
  have hpit := race_not_inPit lapStart xs (n := n + 1) (by omega) 0
  rw [race_succ, tick_inPit, race_track, henter.advance] at hpit
  cases hpit

end DefaultTrack

end TelemetryGenerator

end RaceConditionZ
