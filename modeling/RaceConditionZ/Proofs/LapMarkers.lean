import RaceConditionZ.Proofs.LapRecords
import RaceConditionZ.Proofs.PitStops
import RaceConditionZ.Proofs.RaceEnd

/-!
# Lap-time markers

The marker of a frame is cleared in both branches of a tick and set at the line only, to the clock
time since the lap's start. So where the clock advances, the marked frames are those of the
completed laps, and as each lap starts where the one before has ended, their times add up.
-/

namespace RaceConditionZ

theorem DriverState.advance_lapStart (s : DriverState) (track : TrackProfile) (x : DriverInput) :
    (s.advance track x).lapStart = if s.crossesLine track x.noise then x.now else s.lapStart := by
  by_cases hc : s.crossesLine track x.noise
  · rw [s.advance_of_crosses track hc, if_pos hc]
    exact completeLap_field _ track (f := DriverState.lapStart) rfl rfl
  · rw [if_neg hc]
    unfold advance
    rw [if_neg hc]
    split
    · exact handlePit_lapStart
    · rfl

namespace TelemetryGenerator

variable {g : TelemetryGenerator} {i : Fin 20} {x : TickInput}

/-- The times in driver `i`'s marked frames. -/
def lapTimes (g : TelemetryGenerator) (i : Fin 20) : List ℚ :=
  ((g.offeredBy i).map TelemetryFrame.lapTimeMs).filter fun t => 0 < t

theorem tick_lapStart : ((g.tick x).states i).lapStart
    = if (g.states i).crossesLine g.track (x i).noise then (x i).now
      else (g.states i).lapStart := by
  rw [g.tick_field x i (f := DriverState.lapStart) fun _ _ _ _ => rfl,
    DriverState.advance_lapStart]

theorem tick_bestLapMs : ((g.tick x).states i).bestLapMs
    = ((g.states i).advance g.track (x i)).bestLapMs :=
  g.tick_field x i (f := DriverState.bestLapMs) fun _ _ _ _ => rfl

theorem lapMs_pos (h : (g.states i).lapStart < (x i).now) : 0 < (g.states i).lapMs (x i).now := by
  have hlt : ((g.states i).lapStart : ℚ) < (x i).now := by exact_mod_cast h
  exact div_pos (by linarith) (by norm_num)

/-- The frame of a tick is marked exactly if the tick counts a lap. -/
theorem marked_iff (h : (g.states i).lapStart < (x i).now) :
    0 < ((g.states i).advance g.track (x i)).latestFrame.lapTimeMs
      ↔ ((g.tick x).states i).latestFrame.lap = (g.states i).latestFrame.lap + 1 := by
  have hpos := lapMs_pos h
  rw [tick_lap, DriverState.advance_lapTimeMs]
  split
  · simp [hpos]
  · simp

theorem Named.tick_lapTimes (hnamed : g.Named) (h : (g.states i).lapStart < (x i).now) :
    (g.tick x).lapTimes i = g.lapTimes i
      ++ if (g.states i).crossesLine g.track (x i).noise then [(g.states i).lapMs (x i).now]
        else [] := by
  unfold lapTimes
  rw [hnamed.tick_offeredBy, List.map_append, List.filter_append, List.map_singleton,
    DriverState.advance_lapTimeMs]
  split
  · rw [List.filter_cons_of_pos (by simpa using lapMs_pos h), List.filter_nil]
  · rw [List.filter_cons_of_neg (by simp), List.filter_nil]

/-- A run's frames begin with those of its first ticks. -/
theorem Named.offeredBy_ticks_concat (hnamed : g.Named) (ys : List TickInput) (x : TickInput)
    (zs : List TickInput) :
    ∃ frames, (g.ticks (ys ++ x :: zs)).offeredBy i
      = (g.ticks ys).offeredBy i
        ++ (((g.ticks ys).states i).advance g.track (x i)).latestFrame :: frames := by
  induction zs using List.reverseRecOn with
  | nil =>
    refine ⟨[], ?_⟩
    rw [ticks_concat, (hnamed.ticks ys).tick_offeredBy, ticks_track]
  | append_singleton zs z ih =>
    obtain ⟨frames, hframes⟩ := ih
    refine ⟨frames
      ++ [(((g.ticks (ys ++ x :: zs)).states i).advance g.track (z i)).latestFrame], ?_⟩
    rw [← List.cons_append, ← List.append_assoc, ticks_concat,
      (hnamed.ticks _).tick_offeredBy, hframes, List.append_assoc, List.cons_append, ticks_track]

theorem Named.offeredBy_length (hnamed : g.Named) (xs : List TickInput) :
    ((g.ticks xs).offeredBy i).length = (g.offeredBy i).length + xs.length := by
  induction xs using List.reverseRecOn with
  | nil => rw [ticks_nil, List.length_nil, add_zero]
  | append_singleton xs x ih =>
    rw [ticks_concat, (hnamed.ticks xs).tick_offeredBy, List.length_append, ih,
      List.length_append, List.length_singleton, List.length_singleton, add_assoc]

theorem lap_le_ticks_lap (xs : List TickInput) :
    (g.states i).latestFrame.lap ≤ ((g.ticks xs).states i).latestFrame.lap := by
  induction xs using List.reverseRecOn with
  | nil => rw [ticks_nil]
  | append_singleton xs x ih =>
    rw [ticks_concat]
    exact ih.trans (lap_le_tick_lap i)

/-- As long as no lap is counted, the lap starts where it did. -/
theorem ticks_lapStart_of_lap_eq {xs : List TickInput}
    (h : ((g.ticks xs).states i).latestFrame.lap = (g.states i).latestFrame.lap) :
    ((g.ticks xs).states i).lapStart = (g.states i).lapStart := by
  induction xs using List.reverseRecOn with
  | nil => rw [ticks_nil]
  | append_singleton xs x ih =>
    have hle : (g.states i).latestFrame.lap ≤ ((g.ticks xs).states i).latestFrame.lap :=
      lap_le_ticks_lap xs
    rw [ticks_concat, tick_lap] at h
    rw [ticks_concat, tick_lapStart]
    split_ifs at h ⊢ with hc
    · omega
    · exact ih (by omega)

/-- The lap that the last completion has begun. -/
theorem ticks_lapStart_of_last {zs : List TickInput}
    (hstep : ((g.tick x).states i).latestFrame.lap = (g.states i).latestFrame.lap + 1)
    (hlast : (((g.tick x).ticks zs).states i).latestFrame.lap
      = ((g.tick x).states i).latestFrame.lap) :
    (((g.tick x).ticks zs).states i).lapStart = (x i).now := by
  rw [ticks_lapStart_of_lap_eq hlast, tick_lapStart, if_pos]
  rw [tick_lap] at hstep
  by_contra hc
  rw [if_neg hc] at hstep
  omega

/-- What the marked frames say after the ticks `xs`. -/
structure Marked (lapStart : Fin 20 → ℤ) (xs : List TickInput) (i : Fin 20)
    (g : TelemetryGenerator) : Prop where
  named : g.Named
  count : ((g.lapTimes i).length : ℤ) = (g.states i).latestFrame.lap - 1
  started : (g.states i).lapStart ∈ lapStart i :: xs.map fun x => (x i).now
  sum : (g.lapTimes i).sum = (((g.states i).lapStart - lapStart i : ℤ) : ℚ) / 10 ^ 6
  best : (∀ t ∈ g.lapTimes i, 1 ≤ t) →
    BestOf ((g.lapTimes i).map fun t => ⟨(i : ℕ), t⟩) i (g.states i).bestLapMs

section Run

variable {track : TrackProfile} {lapStart : Fin 20 → ℤ} {xs : List TickInput}

theorem Marked.tick (h : Marked lapStart xs i g) (hclock : (g.states i).lapStart < (x i).now) :
    Marked lapStart (xs ++ [x]) i (g.tick x) := by
  have htimes := h.named.tick_lapTimes hclock
  have hlap := g.tick_lap x i
  have hstart := tick_lapStart (g := g) (i := i) (x := x)
  by_cases hc : (g.states i).crossesLine g.track (x i).noise
  · rw [if_pos hc] at htimes hlap hstart
    refine ⟨h.named.tick x, ?_, ?_, ?_, fun hlaps => ?_⟩
    · rw [htimes, hlap, List.length_append, List.length_singleton, Nat.cast_add, h.count]
      omega
    · rw [hstart, List.map_append, ← List.cons_append]
      exact List.mem_append_right _ (List.mem_singleton.2 rfl)
    · rw [htimes, hstart, List.sum_append, List.sum_singleton, h.sum]
      unfold DriverState.lapMs
      push_cast
      ring
    · rw [htimes] at hlaps ⊢
      have hbest := h.best fun t ht => hlaps t (List.mem_append_left _ ht)
      rw [tick_bestLapMs, DriverState.advance_bestLapMs, List.map_append, List.map_singleton]
      simp only [hc, true_and]
      refine hbest.lap (fun c hmem => ?_) _
      obtain ⟨t, ht, rfl⟩ := List.mem_map.1 hmem
      exact hlaps t (List.mem_append_left _ ht)
  · rw [if_neg hc] at htimes hlap hstart
    rw [List.append_nil] at htimes
    refine ⟨h.named.tick x, ?_, ?_, ?_, fun hlaps => ?_⟩
    · rw [htimes, hlap, h.count, add_zero]
    · rw [hstart, List.map_append, ← List.cons_append]
      exact List.mem_append_left _ h.started
    · rw [htimes, hstart, h.sum]
    · rw [htimes] at hlaps ⊢
      rw [tick_bestLapMs, DriverState.advance_bestLapMs, if_neg fun hcross => hc hcross.1]
      exact h.best hlaps

theorem marked_init (track : TrackProfile) (lapStart : Fin 20 → ℤ) (i : Fin 20) :
    Marked lapStart [] i (init track lapStart) where
  named := named_init track lapStart
  count := rfl
  started := List.mem_singleton.2 rfl
  sum := by
    show (0 : ℚ) = ((lapStart i - lapStart i : ℤ) : ℚ) / 10 ^ 6
    simp
  best _ := .inl ⟨rfl, fun _ hc => absurd hc List.not_mem_nil⟩

/-- The clock advances from the construction to the first tick, and from tick to tick. -/
def Advances (lapStart : Fin 20 → ℤ) (xs : List TickInput) (i : Fin 20) : Prop :=
  (lapStart i :: xs.map fun x => (x i).now).Pairwise (· < ·)

theorem Advances.split {ys zs : List TickInput} (h : Advances lapStart (ys ++ zs) i) :
    Advances lapStart ys i
      ∧ ∀ t ∈ lapStart i :: ys.map fun x => (x i).now, ∀ z ∈ zs, t < (z i).now := by
  unfold Advances at h
  rw [List.map_append, ← List.cons_append, List.pairwise_append] at h
  exact ⟨h.1, fun t ht z hz => h.2.2 t ht _ (List.mem_map.2 ⟨z, hz, rfl⟩)⟩

theorem marked_ticks (hclock : Advances lapStart xs i) :
    Marked lapStart xs i ((init track lapStart).ticks xs) := by
  induction xs using List.reverseRecOn with
  | nil => exact marked_init track lapStart i
  | append_singleton xs x ih =>
    obtain ⟨hbefore, hlater⟩ := hclock.split
    have hmarked := ih hbefore
    rw [ticks_concat]
    exact hmarked.tick (hlater _ hmarked.started x (List.mem_singleton.2 rfl))

end Run

/-- The marked frames of a run are those of the completed laps, with the times that add up to the
start of the current lap, and `best_lap_ms` is the least of them. -/
theorem lap_markers (track : TrackProfile) (lapStart : Fin 20 → ℤ) (xs : List TickInput)
    (i : Fin 20) (hclock : Advances lapStart xs i) :
    let start := init track lapStart
    let lap := fun ys => ((start.ticks ys).states i).latestFrame.lap
    let frames := (start.ticks xs).offeredBy i
    let times := (start.ticks xs).lapTimes i
    let best := ((start.ticks xs).states i).bestLapMs
    frames.length = xs.length
      ∧ (∀ ys x zs, xs = ys ++ x :: zs → ∃ frame, frames[ys.length]? = some frame
        ∧ (0 < frame.lapTimeMs ↔ lap (ys ++ [x]) = lap ys + 1))
      ∧ (times.length : ℤ) = lap xs - 1
      ∧ (∀ ys x zs, xs = ys ++ x :: zs → lap (ys ++ [x]) = lap ys + 1 →
        lap xs = lap (ys ++ [x]) → times.sum = (((x i).now - lapStart i : ℤ) : ℚ) / 10 ^ 6)
      ∧ (lap xs = 1 → best = 0)
      ∧ (1 < lap xs → (∀ t ∈ times, 1 ≤ t) → IsLeast {t | t ∈ times} best) := by
  intro start lap frames times best
  have hnamed : start.Named := named_init track lapStart
  have hmarked : Marked lapStart xs i (start.ticks xs) := marked_ticks hclock
  have hcount : (times.length : ℤ) = lap xs - 1 := hmarked.count
  refine ⟨?_, ?_, hcount, ?_, fun hlap => ?_, fun hlap hlaps => ?_⟩
  · exact (hnamed.offeredBy_length xs).trans (Nat.zero_add _)
  · rintro ys x zs rfl
    obtain ⟨hbefore, hlater⟩ := hclock.split
    have hstarted : ((start.ticks ys).states i).lapStart < (x i).now :=
      hlater _ (marked_ticks hbefore).started x List.mem_cons_self
    obtain ⟨rest, hrest⟩ := hnamed.offeredBy_ticks_concat (i := i) ys x zs
    have hlength : ((start.ticks ys).offeredBy i).length = ys.length :=
      (hnamed.offeredBy_length ys).trans (Nat.zero_add _)
    have hiff := marked_iff hstarted
    rw [← ticks_concat, ticks_track] at hiff
    refine ⟨_, ?_, hiff⟩
    show ((start.ticks (ys ++ x :: zs)).offeredBy i)[ys.length]? = _
    rw [hrest, ← hlength, List.getElem?_append_right le_rfl, Nat.sub_self, List.getElem?_cons_zero]
  · rintro ys x zs rfl hstep hlast
    have hsum : times.sum = _ := hmarked.sum
    have hafter : start.ticks (ys ++ x :: zs) = (start.ticks (ys ++ [x])).ticks zs := by
      rw [← ticks_append, List.append_assoc, List.singleton_append]
    have hstart : ((start.ticks (ys ++ x :: zs)).states i).lapStart = (x i).now := by
      simp only [lap, hafter, ticks_concat] at hstep hlast
      rw [hafter, ticks_concat]
      exact ticks_lapStart_of_last hstep hlast
    rw [hsum, hstart]
  · have hnil : times = [] := List.length_eq_zero_iff.1 (by omega)
    have hnone : ∀ t, t ∉ times := List.eq_nil_iff_forall_not_mem.1 hnil
    exact BestOf.eq_zero (hmarked.best fun t ht => absurd ht (hnone t)) hnil
  · exact BestOf.isLeast (hmarked.best hlaps) (List.ne_nil_of_length_pos (by omega))

/-- Two ticks at top speed on the short track are two marked frames. -/
theorem lap_markers_laps :
    ((((init shortTrack fun _ => 0).ticks (Formation.laps 2)).lapTimes 0).length : ℤ) = 2 := by
  have hlap := ((Formation.ticks_laps (n := 2) (by omega)).flatOut 0).lap
  have hclock : Advances (fun _ => 0) (Formation.laps 2) 0 := by
    unfold Advances Formation.laps flatOut
    decide
  refine (lap_markers shortTrack (fun _ => 0) (Formation.laps 2) 0 hclock).2.2.1.trans ?_
  simp only [hlap]
  rfl

end TelemetryGenerator

end RaceConditionZ
