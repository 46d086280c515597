import RaceConditionZ.Proofs.PitStops

/-!
# Guaranteed progress

A driver that is not in the pits is never slower than the lower bound of the clamp, and its one stop
holds it for a fixed number of ticks. So whatever the draws, the wear and the fuel, the distance
grows with the ticks, and every driver comes to the end of the race.
-/

namespace RaceConditionZ

namespace StopPhase

variable {enters : Prop} [Decidable enters]

theorem stood_next_standing (left : ℤ) (h : 1 ≤ left) :
    (next enters (.standing left)).stood = (StopPhase.standing left).stood + 1 := by
  by_cases hlast : left ≤ 1
  · rw [next_standing_of_last hlast]
    simp only [stood]
    omega
  · rw [next_standing_of_more (not_le.1 hlast)]
    simp only [stood]
    omega

theorem stood_next {p : StopPhase} (h : p.isStanding = false) :
    (next enters p).stood = p.stood := by
  cases p with
  | ahead =>
    by_cases henter : enters
    · rw [next_ahead_of_enters henter]
      simp [stood]
    · rw [next_ahead_of_stays henter]
  | standing left => cases h
  | behind => rfl

end StopPhase

namespace TelemetryGenerator

variable {g : TelemetryGenerator} {i : Fin 20} {p : StopPhase}

theorem StopInv.stood_le (h : StopInv g i p) : p.stood ≤ pitStopTicks := by
  cases p with
  | ahead => decide
  | standing left =>
    have hpos := (h.phase.timer left rfl).2.1
    simp only [StopPhase.stood]
    omega
  | behind => exact le_rfl

/-- What a driver on the track covers in a tick at least. -/
theorem le_coveredKm (hpit : (g.states i).inPit = false) (x : TickInput) :
    80 / 3600 * simSPerTick ≤ g.coveredKm x i := by
  have hspeed := ((g.states i).speedKph_mem (x i).noise).1
  rw [coveredKm_eq, DriverState.coveredKm_eq, hpit, if_neg (by decide)]
  exact mul_le_mul_of_nonneg_right (by linarith) simSPerTick_pos.le

/-- The ticks stood still are those of the stop, and each of the others covers its least. -/
structure Progressed (start g : TelemetryGenerator) (i : Fin 20) (n : ℕ) (p : StopPhase) :
    Prop where
  stop : StopInv g i p
  stood : p.stood ≤ n
  covered : start.raceDistance i + ((n - p.stood : ℤ) : ℚ) * (80 / 3600 * simSPerTick)
    ≤ g.raceDistance i

theorem Progressed.tick {start : TelemetryGenerator} {n : ℕ} (h : Progressed start g i n p)
    (x : TickInput) :
    Progressed start (g.tick x) i (n + 1)
      (p.next ((g.states i).EntersPit g.track (x i))) := by
  have hstood := h.stood
  have hcovered := h.covered
  rcases hp : p.isStanding with _ | _
  · have hkm := le_coveredKm (h.stop.phase.inPit.trans hp) x
    have hsame : (p.next ((g.states i).EntersPit g.track (x i))).stood = p.stood :=
      StopPhase.stood_next hp
    refine ⟨h.stop.tick x, ?_, ?_⟩
    · rw [hsame]
      push_cast
      omega
    · rw [tick_raceDistance, hsame]
      push_cast at hcovered ⊢
      linarith
  · obtain ⟨left, rfl⟩ : ∃ left, p = .standing left := by
      cases p with
      | standing left => exact ⟨left, rfl⟩
      | ahead | behind => cases hp
    have hkm := (g.states i).coveredKm_nonneg g.track (x i)
    rw [← coveredKm_eq] at hkm
    have hmore : (StopPhase.next ((g.states i).EntersPit g.track (x i)) (.standing left)).stood
        = (StopPhase.standing left).stood + 1 :=
      StopPhase.stood_next_standing left (h.stop.phase.timer left rfl).2.1
    refine ⟨h.stop.tick x, ?_, ?_⟩
    · rw [hmore]
      push_cast
      omega
    · rw [tick_raceDistance, hmore]
      push_cast at hcovered ⊢
      linarith

theorem exists_progressed (track : TrackProfile) (lapStart : Fin 20 → ℤ) (i : Fin 20)
    (xs : List TickInput) :
    ∃ p, Progressed (init track lapStart) ((init track lapStart).ticks xs) i xs.length p := by
  induction xs using List.reverseRecOn with
  | nil =>
    refine ⟨.ahead, stopInv_init track lapStart i, le_rfl, ?_⟩
    rw [ticks_nil]
    simp [StopPhase.stood]
  | append_singleton xs x ih =>
    obtain ⟨p, h⟩ := ih
    rw [ticks_concat, List.length_append, List.length_singleton]
    exact ⟨_, h.tick x⟩

/-- Every tick but those of the stop covers at least what the lowest speed does. -/
theorem raceDistance_ge (track : TrackProfile) (lapStart : Fin 20 → ℤ) (i : Fin 20)
    (xs : List TickInput) :
    (init track lapStart).raceDistance i
        + (max 0 (xs.length - pitStopTicks) : ℤ) * (80 / 3600 * simSPerTick)
      ≤ ((init track lapStart).ticks xs).raceDistance i := by
  have hslow : (0 : ℚ) < 80 / 3600 * simSPerTick := mul_pos (by norm_num) simSPerTick_pos
  obtain ⟨p, hstop, hstood, hcovered⟩ := exists_progressed track lapStart i xs
  have hle := hstop.stood_le
  have hmax : max 0 ((xs.length : ℤ) - pitStopTicks) ≤ xs.length - p.stood := by omega
  have hmul : ((max 0 (xs.length - pitStopTicks) : ℤ) : ℚ) * (80 / 3600 * simSPerTick)
      ≤ ((xs.length - p.stood : ℤ) : ℚ) * (80 / 3600 * simSPerTick) :=
    mul_le_mul_of_nonneg_right (by exact_mod_cast hmax) hslow.le
  linarith

/-- Whoever has covered the laps of the race has completed them: what is left over is less than a
lap. -/
theorem totalLaps_lt_of_covered {s : DriverState} {track : TrackProfile} (h : s.WithinLap track)
    (hcovered : totalLaps * track.lengthKm
      ≤ ((s.latestFrame.lap - 1 : ℤ) : ℚ) * track.lengthKm + s.distanceInLap) :
    totalLaps < s.latestFrame.lap := by
  have hpos : 0 < track.lengthKm := h.1.trans_lt h.2
  have hrest := h.2
  have hlt : ((totalLaps - 1 : ℤ) : ℚ) * track.lengthKm
      < ((s.latestFrame.lap - 1 : ℤ) : ℚ) * track.lengthKm := by
    push_cast at hcovered ⊢
    linarith
  have hlap := lt_of_mul_lt_mul_right hlt hpos.le
  have hlap' : totalLaps - 1 < s.latestFrame.lap - 1 := by exact_mod_cast hlap
  omega

/-- The distance of a driver lies between two bounds that only the ticks tell, so within a number of
ticks that only the track tells every driver has completed the race. -/
theorem guaranteed_progress (track : TrackProfile) (lapStart : Fin 20 → ℤ) (xs : List TickInput)
    (i : Fin 20) :
    let start := init track lapStart
    let g := start.ticks xs
    let distance := (((g.states i).latestFrame.lap - 1 : ℤ) : ℚ) * track.lengthKm
      + (g.states i).distanceInLap
    ((start.states i).distanceInLap
          + (max 0 (xs.length - pitStopTicks) : ℤ) * (80 / 3600 * simSPerTick) ≤ distance
        ∧ distance ≤ (start.states i).distanceInLap + xs.length * (370 / 3600 * simSPerTick))
      ∧ (370 / 3600 * simSPerTick ≤ track.lengthKm →
        pitStopTicks + ⌈totalLaps * track.lengthKm / (80 / 3600 * simSPerTick)⌉ ≤ xs.length →
        totalLaps < (g.states i).latestFrame.lap) := by
  intro start g distance
  have hslow : (0 : ℚ) < 80 / 3600 * simSPerTick := mul_pos (by norm_num) simSPerTick_pos
  have hdistance : distance = g.raceDistance i - track.lengthKm := by
    have htrack : g.track = track := ticks_track _ xs
    unfold raceDistance
    rw [htrack]
    simp only [distance]
    push_cast
    ring
  have hstart : start.raceDistance i = track.lengthKm + (start.states i).distanceInLap :=
    init_raceDistance i track lapStart
  have hlower : (start.states i).distanceInLap
      + (max 0 (xs.length - pitStopTicks) : ℤ) * (80 / 3600 * simSPerTick) ≤ distance := by
    have hge : start.raceDistance i
        + (max 0 (xs.length - pitStopTicks) : ℤ) * (80 / 3600 * simSPerTick)
        ≤ g.raceDistance i := raceDistance_ge track lapStart i xs
    linarith
  refine ⟨⟨hlower, ?_⟩, fun hlength hticks => ?_⟩
  · have hdriven := start.ticks_raceDistance i xs
    have hle := start.driven_le (i := i) xs
    linarith
  · -- so many ticks cover the laps of the race
    refine totalLaps_lt_of_covered (ticks_init_withinLap i track lapStart hlength xs) ?_
    have hgrid : 0 ≤ (start.states i).distanceInLap :=
      (init_withinLap i track lapStart hlength).1
    have hlaps : totalLaps * track.lengthKm
        ≤ (max 0 (xs.length - pitStopTicks) : ℤ) * (80 / 3600 * simSPerTick) := by
      rw [← div_le_iff₀ hslow]
      refine (Int.le_ceil _).trans ?_
      have hmax : ⌈totalLaps * track.lengthKm / (80 / 3600 * simSPerTick)⌉
          ≤ max 0 ((xs.length : ℤ) - pitStopTicks) := by omega
      exact_mod_cast hmax
    have hcovered : totalLaps * track.lengthKm ≤ distance := by linarith
    exact hcovered

end TelemetryGenerator

end RaceConditionZ
