import RaceConditionZ.Proofs.DriverLimits
import RaceConditionZ.Proofs.RaceEnd

/-!
# Gaps and positions

A gap is a distance to the leader over the mean of the leader's speed and the car's own, but the
positions go by the distances alone. As long as no car comes too close behind a slower one, in a
tick before which it is told by the states and the draws alone (`Spaced`), the gaps are in the order
of the positions. A fast car just behind a slow one (`Crowded`) breaks that: its gap is the smaller,
and the difference that decides its DRS is negative.
-/

namespace RaceConditionZ

namespace TelemetryGenerator

variable (g : TelemetryGenerator) (x : TickInput)

/-- `gap_to_leader` does not fall with the position, and so the difference between a car's gap and
the gap of the car directly ahead is not negative. -/
def GapsFollow : Prop :=
  (∀ i j, (g.states i).position ≤ (g.states j).position →
      (g.states i).latestFrame.gapToLeader ≤ (g.states j).latestFrame.gapToLeader)
    ∧ ∀ i j, (g.states j).position = (g.states i).position + 1 →
      0 ≤ (g.states j).latestFrame.gapToLeader - (g.states i).latestFrame.gapToLeader

/-- How far driver `i` is behind the leader. -/
def behindLeader (i : Fin 20) : ℚ := g.raceDistance g.leader - g.raceDistance i

/-- The leader's speed and driver `i`'s. -/
def speedSum (i : Fin 20) : ℚ :=
  (g.states g.leader).latestFrame.speedKph + (g.states i).latestFrame.speedKph

/-- Of two drivers the one behind is further from the leader in the proportion of the speeds. -/
def InProportion : Prop :=
  ∀ i j, g.Ahead i j → g.behindLeader i * g.speedSum j ≤ g.behindLeader j * g.speedSum i

variable {g}

/-- At the speeds of cars the guard against a small mean does nothing. -/
theorem gapToLeader_eq (hspeed : ∀ i, 60 ≤ (g.states i).latestFrame.speedKph) (i : Fin 20) :
    g.gapToLeader g.ranking (g.ranking.idxOf i) i = g.behindLeader i / g.speedSum i * 7200 := by
  have hleader := hspeed g.leader
  have hi := hspeed i
  unfold gapToLeader
  split_ifs with hp
  · rw [g.eq_leader hp]
    unfold behindLeader
    rw [sub_self, zero_div, zero_mul]
  · show g.behindLeader i / max (g.speedSum i / 2) 1 * 3600 = _
    have hsum : (120 : ℚ) ≤ g.speedSum i := by
      unfold speedSum
      linarith
    rw [max_eq_left (by linarith)]
    field_simp
    ring

theorem gap_le_iff (hspeed : ∀ i, 60 ≤ (g.states i).latestFrame.speedKph) (i j : Fin 20) :
    g.gapToLeader g.ranking (g.ranking.idxOf i) i ≤ g.gapToLeader g.ranking (g.ranking.idxOf j) j
      ↔ g.behindLeader i * g.speedSum j ≤ g.behindLeader j * g.speedSum i := by
  have hpos : ∀ k, 0 < g.speedSum k := by
    intro k
    have hleader := hspeed g.leader
    have hk := hspeed k
    unfold speedSum
    linarith
  rw [gapToLeader_eq hspeed, gapToLeader_eq hspeed, mul_le_mul_iff_left₀ (by norm_num),
    div_le_div_iff₀ (hpos i) (hpos j)]

variable (g) in
theorem advanceAll_speedKph_ge (i : Fin 20) :
    60 ≤ ((g.advanceAll x).states i).latestFrame.speedKph := by
  rw [advanceAll_states, DriverState.advance_speedKph]
  split_ifs
  · exact le_rfl
  · linarith [((g.states i).speedKph_mem (x i).noise).1]

theorem gapsFollow_update_iff (hspeed : ∀ i, 60 ≤ (g.states i).latestFrame.speedKph) :
    g.updatePositionsAndDrs.GapsFollow ↔ g.InProportion := by
  have hle := gap_le_iff hspeed
  unfold GapsFollow InProportion
  simp only [updatePositionsAndDrs_position, updatePositionsAndDrs_gapToLeader]
  constructor
  · intro ⟨hmono, _⟩ i j hahead
    have hlt := g.idxOf_lt_iff.2 hahead
    exact (hle i j).1 (hmono i j (by omega))
  · intro hprop
    have hmono : ∀ i j, g.ranking.idxOf i ≤ g.ranking.idxOf j →
        g.behindLeader i * g.speedSum j ≤ g.behindLeader j * g.speedSum i := by
      intro i j hij
      rcases hij.lt_or_eq with hlt | he
      · exact hprop i j (g.idxOf_lt_iff.1 hlt)
      · rw [(List.idxOf_inj (g.mem_ranking i)).1 he]
    constructor
    · intro i j hij
      exact (hle i j).2 (hmono i j (by omega))
    · intro i j hij
      exact sub_nonneg.2 ((hle i j).2 (hmono i j (by omega)))

variable (g) in
/-- After a tick the gaps follow the positions exactly if the distances were in proportion when the
positions were assigned. -/
theorem gapsFollow_tick_iff : (g.tick x).GapsFollow ↔ (g.advanceAll x).InProportion := by
  unfold tick
  exact gapsFollow_update_iff (g.advanceAll_speedKph_ge x)

variable (g)

/-- The speed at which driver `i` goes in the tick. -/
def tickSpeed (i : Fin 20) : ℚ :=
  if (g.states i).inPit then 60 else (g.states i).speedKph (x i).noise

/-- How far driver `i` gets in the tick. -/
def reachedKm (i : Fin 20) : ℚ :=
  g.raceDistance i + if (g.states i).inPit then 0 else g.tickSpeed x i / 3600 * simSPerTick

/-- No car closes up too fast: of any three cars, the last is further behind the one before it than
its surplus of speed is of twice the speed in the pits, times what that one is behind the first. -/
def Spaced : Prop :=
  ∀ l i j, StableSort.Before (g.reachedKm x) l i → StableSort.Before (g.reachedKm x) i j →
    (g.tickSpeed x j - g.tickSpeed x i) * (g.reachedKm x l - g.reachedKm x i)
      ≤ 120 * (g.reachedKm x i - g.reachedKm x j)

/-- Some car is that close behind a slower one, taken of the slower one's speed and the highest. -/
def Crowded : Prop :=
  ∃ l i j, StableSort.Before (g.reachedKm x) l i ∧ StableSort.Before (g.reachedKm x) i j
    ∧ (g.tickSpeed x i + 370) * (g.reachedKm x i - g.reachedKm x j)
      < (g.tickSpeed x j - g.tickSpeed x i) * (g.reachedKm x l - g.reachedKm x i)

theorem tickSpeed_mem (i : Fin 20) : 60 ≤ g.tickSpeed x i ∧ g.tickSpeed x i ≤ 370 := by
  obtain ⟨hlow, hhigh⟩ := (g.states i).speedKph_mem (x i).noise
  unfold tickSpeed
  split_ifs
  · norm_num
  · exact ⟨by linarith, hhigh⟩

theorem advanceAll_speedKph (i : Fin 20) :
    ((g.advanceAll x).states i).latestFrame.speedKph = g.tickSpeed x i := by
  rw [advanceAll_states, DriverState.advance_speedKph]
  rfl

theorem advanceAll_reachedKm : (g.advanceAll x).raceDistance = g.reachedKm x := by
  funext i
  rw [advanceAll_raceDistance, coveredKm_eq, DriverState.coveredKm_eq]
  unfold reachedKm tickSpeed
  split_ifs <;> rfl

variable {g x}

/-- It is enough that no car is faster than one that is ahead of it and behind a third. -/
theorem spaced_of_slower (h : ∀ l i j, StableSort.Before (g.reachedKm x) l i →
    StableSort.Before (g.reachedKm x) i j → g.tickSpeed x j ≤ g.tickSpeed x i) : g.Spaced x := by
  intro l i j hli hij
  have hahead := StableSort.key_le_of_before _ hli
  have hbehind := StableSort.key_le_of_before _ hij
  have hslower := h l i j hli hij
  have hsurplus : (g.tickSpeed x j - g.tickSpeed x i) * (g.reachedKm x l - g.reachedKm x i) ≤ 0 :=
    mul_nonpos_of_nonpos_of_nonneg (by linarith) (by linarith)
  linarith

/-- The speed sums that the gaps are taken with. -/
theorem speedSum_eq (i : Fin 20) : (g.advanceAll x).speedSum i
    = g.tickSpeed x (g.advanceAll x).leader + g.tickSpeed x i := by
  unfold speedSum
  rw [advanceAll_speedKph, advanceAll_speedKph]

theorem behindLeader_eq (i : Fin 20) : (g.advanceAll x).behindLeader i
    = g.reachedKm x (g.advanceAll x).leader - g.reachedKm x i := by
  unfold behindLeader
  rw [advanceAll_reachedKm]

theorem reachedKm_le_leader (i : Fin 20) :
    g.reachedKm x i ≤ g.reachedKm x (g.advanceAll x).leader := by
  rw [← advanceAll_reachedKm]
  exact (g.advanceAll x).raceDistance_le_leader i

theorem Spaced.inProportion (h : g.Spaced x) : (g.advanceAll x).InProportion := by
  intro i j hij
  rw [Ahead, advanceAll_reachedKm] at hij
  rw [behindLeader_eq, behindLeader_eq, speedSum_eq, speedSum_eq]
  have hbehind := StableSort.key_le_of_before _ hij
  have hclose : (g.tickSpeed x j - g.tickSpeed x i)
        * (g.reachedKm x (g.advanceAll x).leader - g.reachedKm x i)
      ≤ 120 * (g.reachedKm x i - g.reachedKm x j) := by
    by_cases hi : i = (g.advanceAll x).leader
    · rw [← hi, sub_self, mul_zero]
      linarith
    · have hleader := (g.advanceAll x).leader_ahead hi
      rw [Ahead, advanceAll_reachedKm] at hleader
      exact h _ i j hleader hij
  have hsum : 120 * (g.reachedKm x i - g.reachedKm x j)
      ≤ (g.tickSpeed x (g.advanceAll x).leader + g.tickSpeed x i)
        * (g.reachedKm x i - g.reachedKm x j) := by
    have hfirst := (g.tickSpeed_mem x (g.advanceAll x).leader).1
    have hahead := (g.tickSpeed_mem x i).1
    exact mul_le_mul_of_nonneg_right (by linarith) (by linarith)
  linarith

theorem Crowded.not_inProportion (h : g.Crowded x) : ¬ (g.advanceAll x).InProportion := by
  obtain ⟨l, i, j, hli, hij, hclose⟩ := h
  intro hprop
  have hgap := hprop i j (by rwa [Ahead, advanceAll_reachedKm])
  rw [behindLeader_eq, behindLeader_eq, speedSum_eq, speedSum_eq] at hgap
  have hahead := StableSort.key_le_of_before _ hli
  have hbehind := StableSort.key_le_of_before _ hij
  have hfirst := g.reachedKm_le_leader (x := x) l
  obtain ⟨hlow, hhigh⟩ := g.tickSpeed_mem x (g.advanceAll x).leader
  have hi := (g.tickSpeed_mem x i).1
  have hsum : (g.tickSpeed x (g.advanceAll x).leader + g.tickSpeed x i)
        * (g.reachedKm x i - g.reachedKm x j)
      ≤ (g.tickSpeed x i + 370) * (g.reachedKm x i - g.reachedKm x j) :=
    mul_le_mul_of_nonneg_right (by linarith) (by linarith)
  -- the car behind is the faster one, so that a leader further ahead makes it worse
  have hfaster : 0 < g.tickSpeed x j - g.tickSpeed x i := by
    by_contra hle
    have hneg := mul_nonpos_of_nonpos_of_nonneg (not_lt.1 hle) (sub_nonneg.2 hahead)
    have hpos : 0 ≤ (g.tickSpeed x i + 370) * (g.reachedKm x i - g.reachedKm x j) :=
      mul_nonneg (by linarith) (by linarith)
    linarith
  have hfar := mul_le_mul_of_nonneg_left (sub_le_sub_right hfirst (g.reachedKm x i)) hfaster.le
  linarith

/-- Along a run in which no car closes up too fast, the gaps follow the positions after every tick;
and they do not after a tick in which some car comes too close behind a slower one. -/
theorem gaps_follow_of_spaced (track : TrackProfile) (lapStart : Fin 20 → ℤ)
    (xs : List TickInput) :
    ((∀ ys x, ys ++ [x] <+: xs → ((init track lapStart).ticks ys).Spaced x) →
        ∀ ys x, ys ++ [x] <+: xs → (((init track lapStart).ticks ys).tick x).GapsFollow)
      ∧ ∀ ys x, ys ++ [x] <+: xs → ((init track lapStart).ticks ys).Crowded x →
        ¬ (((init track lapStart).ticks ys).tick x).GapsFollow := by
  constructor
  · intro hspaced ys x hpre
    exact (gapsFollow_tick_iff _ x).2 (hspaced ys x hpre).inProportion
  · intro ys x _ hcrowded hgaps
    exact hcrowded.not_inProportion ((gapsFollow_tick_iff _ x).1 hgaps)

/-- A formation is spaced: all go at the same speed. -/
theorem Formation.spaced {k : ℤ} (h : Formation k g) (now : ℤ) :
    g.Spaced (TelemetryGenerator.flatOut now) := by
  have hspeed : ∀ i, g.tickSpeed (TelemetryGenerator.flatOut now) i = 370 := by
    intro i
    unfold tickSpeed
    rw [(h.flatOut i).inPit]
    exact (h.flatOut i).speedKph_eq
  refine spaced_of_slower fun _ i j _ _ => ?_
  rw [hspeed, hspeed]

theorem gaps_follow_of_spaced_flatOut :
    ∀ ys x, ys ++ [x] <+: Formation.laps 49 →
      (((init shortTrack fun _ => 0).ticks ys).tick x).GapsFollow := by
  refine (gaps_follow_of_spaced shortTrack (fun _ => 0) (Formation.laps 49)).1 ?_
  intro ys x hpre
  obtain ⟨hformation, now, rfl⟩ := Formation.of_laps le_rfl hpre
  exact hformation.spaced now

/-! ### A slow car ahead

In the second of two ticks the car in second place is slow, and the next one, 120 m behind it,
fast. -/

/-- VER and TSU are fast. -/
def firstTick : TickInput := paced (fun i => i = 0 || i = 1) 20000000

/-- VER and SAI are fast. -/
def secondTick : TickInput := paced (fun i => i = 0 || i = 13) 40000000

def afterFirst : TelemetryGenerator := (init defaultTrack fun _ => 0).tick firstTick

theorem afterFirst_inRange (i : Fin 20) : (afterFirst.states i).InRange i :=
  tick_inRange (init_inRange _ _) defaultTrack_wears _

theorem afterFirst_inPit (i : Fin 20) : (afterFirst.states i).inPit = false := by
  have hi0 : (0 : ℚ) ≤ (i : ℕ) := Nat.cast_nonneg _
  have hcross : ¬ (DriverState.onGrid i 0).crossesLine defaultTrack (firstTick i).noise := by
    rintro ⟨-, hline⟩
    have hspeed := ((DriverState.onGrid i 0).speedKph_mem (firstTick i).noise).2
    have hdistance : (DriverState.onGrid i 0).distanceInLap = (20 - i - 1) * 0.010 := rfl
    have hlength : defaultTrack.lengthKm = 5.4 := rfl
    rw [hdistance, hlength] at hline
    unfold simSPerTick timeScale tickS at hline
    linarith
  unfold afterFirst tick
  rw [updatePositionsAndDrs_inPit, advanceAll_states]
  show ((DriverState.onGrid i 0).advance defaultTrack (firstTick i)).inPit = false
  rw [DriverState.advance_of_not_crosses _ _ rfl hcross]
  rfl

/-- The race distances after the second tick. -/
def secondKm (i : Fin 20) : ℚ :=
  defaultTrack.lengthKm + (20 - i - 1) * 0.010
    + ((if i = 0 ∨ i = 1 then 370 else 80) + if i = 0 ∨ i = 13 then 370 else 80)
      / 3600 * simSPerTick

theorem raceDistance_second : (afterFirst.advanceAll secondTick).raceDistance = secondKm := by
  funext i
  have hfirst : afterFirst.raceDistance i = defaultTrack.lengthKm + (20 - i - 1) * 0.010
      + (if i = 0 ∨ i = 1 then 370 else 80) / 3600 * simSPerTick := by
    unfold afterFirst firstTick
    rw [tick_raceDistance, init_raceDistance, paced_coveredKm (init_inRange _ _) rfl]
    simp only [Bool.or_eq_true, decide_eq_true_eq]
  unfold secondTick secondKm
  rw [advanceAll_raceDistance, hfirst, paced_coveredKm (afterFirst_inRange i) (afterFirst_inPit i)]
  simp only [Bool.or_eq_true, decide_eq_true_eq]
  ring

theorem speedKph_second (i : Fin 20) :
    ((afterFirst.advanceAll secondTick).states i).latestFrame.speedKph
      = if i = 0 ∨ i = 13 then 370 else 80 := by
  unfold secondTick
  rw [advanceAll_states, paced_speedKph (afterFirst_inRange i) (afterFirst_inPit i)]
  simp only [Bool.or_eq_true, decide_eq_true_eq]

theorem ranking_second : (afterFirst.advanceAll secondTick).ranking
    = [0, 1, 13, 2, 3, 4, 5, 6, 7, 8, 9, 10, 11, 12, 14, 15, 16, 17, 18, 19] := by
  refine ranking_eq _ (by decide) ?_
  unfold Ahead StableSort.Before
  rw [raceDistance_second]
  decide +kernel

/-- What the gaps of the second tick are computed from. -/
theorem gap_second (i : Fin 20) :
    (afterFirst.advanceAll secondTick).gapToLeader (afterFirst.advanceAll secondTick).ranking
        ((afterFirst.advanceAll secondTick).ranking.idxOf i) i
      = (secondKm 0 - secondKm i) / (370 + if i = 0 ∨ i = 13 then 370 else 80) * 7200 := by
  have hleader : (afterFirst.advanceAll secondTick).leader = 0 := by
    unfold leader
    rw [ranking_second]
    rfl
  rw [gapToLeader_eq (afterFirst.advanceAll_speedKph_ge secondTick)]
  unfold behindLeader speedSum
  rw [hleader, speedKph_second, speedKph_second, raceDistance_second, if_pos (.inl rfl)]

theorem gap_second_lt :
    (afterFirst.advanceAll secondTick).gapToLeader (afterFirst.advanceAll secondTick).ranking
        ((afterFirst.advanceAll secondTick).ranking.idxOf 13) 13
      < (afterFirst.advanceAll secondTick).gapToLeader (afterFirst.advanceAll secondTick).ranking
        ((afterFirst.advanceAll secondTick).ranking.idxOf 1) 1 := by
  rw [gap_second, gap_second]
  decide +kernel

/-- TSU's gap is larger than that of SAI, who is more than a second behind and gets DRS. -/
theorem not_gapsFollow_slowCar :
    let g := (init defaultTrack fun _ => 0).ticks [firstTick, secondTick]
    ¬ g.GapsFollow ∧ (g.states 1).position = 2 ∧ (g.states 13).position = 3
      ∧ (g.states 13).latestFrame.gapToLeader - (g.states 1).latestFrame.gapToLeader < 0
      ∧ 1 < (g.raceDistance 1 - g.raceDistance 13) / (g.states 13).latestFrame.speedKph * 3600
      ∧ (g.states 13).latestFrame.drsActive = true := by
  intro g
  have hg : g = (afterFirst.advanceAll secondTick).updatePositionsAndDrs := by
    show (init defaultTrack fun _ => 0).ticks [firstTick, secondTick] = _
    rw [ticks_cons, ticks_cons, ticks_nil]
    unfold afterFirst tick
    rfl
  have hpos : (g.states 1).position = 2 ∧ (g.states 13).position = 3 := by
    rw [hg, updatePositionsAndDrs_position, updatePositionsAndDrs_position, ranking_second]
    decide
  have hgap : (g.states 13).latestFrame.gapToLeader - (g.states 1).latestFrame.gapToLeader < 0 := by
    rw [hg, updatePositionsAndDrs_gapToLeader, updatePositionsAndDrs_gapToLeader]
    exact sub_neg.2 gap_second_lt
  refine ⟨fun h => ?_, hpos.1, hpos.2, hgap, ?_, ?_⟩
  · have hnonneg := h.2 1 13 (by rw [hpos.1, hpos.2]; rfl)
    linarith
  · rw [hg, updatePositionsAndDrs_raceDistance, updatePositionsAndDrs_raceDistance,
      updatePositionsAndDrs_speedKph, raceDistance_second, speedKph_second]
    decide +kernel
  · have hahead := gap_second_lt
    rw [hg, updatePositionsAndDrs_drsActive]
    rw [ranking_second] at hahead ⊢
    exact ⟨by decide, (sub_neg.2 hahead).trans zero_lt_one⟩

end TelemetryGenerator

end RaceConditionZ
