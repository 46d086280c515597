import RaceConditionZ.Leaderboard
import RaceConditionZ.Lib.StableSort
import RaceConditionZ.Proofs.Tick
import Mathlib.Algebra.Order.Field.Basic
import Mathlib.Data.List.FinRange

/-!
# The ranking

A driver is ahead of another if it has covered the larger race distance, or the same one and stands
first in `DRIVERS`. Of any two drivers one is ahead of the other, and the tick numbers the positions
in that order, so that the callback's sort by position finds it again.
-/

namespace RaceConditionZ

namespace TelemetryGenerator

variable (g : TelemetryGenerator)

/-- `i` is ranked before `j`. -/
abbrev Ahead (i j : Fin 20) : Prop := StableSort.Before g.raceDistance i j

theorem ranking_perm : g.ranking.Perm (List.finRange 20) := List.perm_insertionSort ..

theorem ranking_nodup : g.ranking.Nodup :=
  g.ranking_perm.nodup_iff.2 (List.nodup_finRange 20)

theorem mem_ranking (i : Fin 20) : i ∈ g.ranking :=
  g.ranking_perm.mem_iff.2 (List.mem_finRange i)

theorem ranking_length : g.ranking.length = 20 := by
  rw [g.ranking_perm.length_eq, List.length_finRange]

theorem ranking_pairwise : g.ranking.Pairwise g.Ahead :=
  StableSort.pairwise_insertionSort g.raceDistance (List.pairwise_lt_finRange 20)

theorem ahead_of_idxOf_lt {i j : Fin 20} (h : g.ranking.idxOf i < g.ranking.idxOf j) :
    g.Ahead i j :=
  StableSort.rel_of_idxOf_lt g.ranking_pairwise (g.mem_ranking j) h

theorem idxOf_lt_iff {i j : Fin 20} : g.ranking.idxOf i < g.ranking.idxOf j ↔ g.Ahead i j := by
  refine ⟨g.ahead_of_idxOf_lt, fun hahead => ?_⟩
  rcases lt_trichotomy (g.ranking.idxOf i) (g.ranking.idxOf j) with h | h | h
  · exact h
  · rw [(List.idxOf_inj (g.mem_ranking i)).1 h] at hahead
    exact absurd hahead (StableSort.before_asymm _ hahead)
  · exact absurd (g.ahead_of_idxOf_lt h) (StableSort.before_asymm _ hahead)

/-- The ranking is the one order of all drivers in which each is ahead of those after it. -/
theorem ranking_eq {l : List (Fin 20)} (hperm : l.Perm (List.finRange 20))
    (hl : l.Pairwise g.Ahead) : g.ranking = l :=
  List.Perm.eq_of_pairwise
    (fun _ _ _ _ hab hba => absurd hba (StableSort.before_asymm g.raceDistance hab))
    g.ranking_pairwise hl (g.ranking_perm.trans hperm.symm)

/-- The driver in front. -/
def leader : Fin 20 := g.ranking.headD 0

theorem idxOf_leader : g.ranking.idxOf g.leader = 0 := by
  have hlen := g.ranking_length
  unfold leader
  rcases hr : g.ranking with _ | ⟨i, is⟩
  · rw [hr] at hlen
    cases hlen
  · simp

theorem eq_leader {i : Fin 20} (h : g.ranking.idxOf i = 0) : i = g.leader :=
  (List.idxOf_inj (g.mem_ranking i)).1 (h.trans g.idxOf_leader.symm)

theorem leader_ahead {i : Fin 20} (h : i ≠ g.leader) : g.Ahead g.leader i := by
  rw [← idxOf_lt_iff, idxOf_leader]
  exact Nat.pos_of_ne_zero (mt g.eq_leader h)

theorem raceDistance_le_leader (i : Fin 20) : g.raceDistance i ≤ g.raceDistance g.leader := by
  by_cases hi : i = g.leader
  · rw [hi]
  · exact StableSort.key_le_of_before _ (g.leader_ahead hi)

section Update

variable (i : Fin 20)

@[simp]
theorem updatePositionsAndDrs_distanceInLap :
    (g.updatePositionsAndDrs.states i).distanceInLap = (g.states i).distanceInLap := by
  simp only [updatePositionsAndDrs, placed]

@[simp]
theorem updatePositionsAndDrs_inPit :
    (g.updatePositionsAndDrs.states i).inPit = (g.states i).inPit := by
  simp only [updatePositionsAndDrs, placed]

@[simp]
theorem updatePositionsAndDrs_profile :
    (g.updatePositionsAndDrs.states i).profile = (g.states i).profile := by
  simp only [updatePositionsAndDrs, placed]

@[simp]
theorem updatePositionsAndDrs_speedKph :
    (g.updatePositionsAndDrs.states i).latestFrame.speedKph
      = (g.states i).latestFrame.speedKph := by
  simp only [updatePositionsAndDrs, placed]

@[simp]
theorem updatePositionsAndDrs_position :
    (g.updatePositionsAndDrs.states i).position = g.ranking.idxOf i + 1 := by
  simp only [updatePositionsAndDrs, placed]

@[simp]
theorem updatePositionsAndDrs_gapToLeader :
    (g.updatePositionsAndDrs.states i).latestFrame.gapToLeader
      = g.gapToLeader g.ranking (g.ranking.idxOf i) i := by
  simp only [updatePositionsAndDrs, placed]

theorem updatePositionsAndDrs_drsActive :
    (g.updatePositionsAndDrs.states i).latestFrame.drsActive = true
      ↔ g.ranking.idxOf i ≠ 0 ∧ g.gapToLeader g.ranking (g.ranking.idxOf i) i
        - g.gapToLeader g.ranking (g.ranking.idxOf i - 1)
          (g.ranking.getD (g.ranking.idxOf i - 1) 0) < 1 := by
  simp only [updatePositionsAndDrs, placed, decide_eq_true_eq]

@[simp]
theorem updatePositionsAndDrs_raceDistance :
    g.updatePositionsAndDrs.raceDistance i = g.raceDistance i := by
  unfold raceDistance
  rw [updatePositionsAndDrs_lap, updatePositionsAndDrs_track, updatePositionsAndDrs_distanceInLap]

theorem updatePositionsAndDrs_ranking : g.updatePositionsAndDrs.ranking = g.ranking := by
  unfold ranking
  simp only [updatePositionsAndDrs_raceDistance]

/-- The callback's sort by position gives the drivers in the order of the ranking. -/
theorem standings_updatePositionsAndDrs :
    g.updatePositionsAndDrs.standings = g.ranking.map g.updatePositionsAndDrs.states := by
  have hsort := List.map_insertionSort (fun i j => g.ranking.idxOf i ≤ g.ranking.idxOf j)
    (fun a b : DriverState => a.position ≤ b.position) g.updatePositionsAndDrs.states
    (List.finRange 20) fun i _ j _ => by
      rw [updatePositionsAndDrs_position, updatePositionsAndDrs_position]
      omega
  unfold standings
  rw [← hsort, StableSort.insertionSort_idxOf g.ranking_nodup g.ranking_perm.symm]

end Update

variable {g} in
/-- The entries of the board are the drivers' states. -/
theorem mem_standings {d : DriverState} : d ∈ g.standings ↔ ∃ i, g.states i = d := by
  unfold standings
  rw [List.mem_insertionSort, List.mem_map]
  simp only [List.mem_finRange, true_and]

theorem gapToLeader_zero (idx : List (Fin 20)) (i : Fin 20) : g.gapToLeader idx 0 i = 0 :=
  if_pos rfl

theorem gapToLeader_nonneg (p : ℕ) (i : Fin 20) : 0 ≤ g.gapToLeader g.ranking p i := by
  unfold gapToLeader
  split
  · exact le_rfl
  · have hle := g.raceDistance_le_leader i
    have hkm : 0 ≤ g.raceDistance (g.ranking.headD 0) - g.raceDistance i := sub_nonneg.2 hle
    exact mul_nonneg (div_nonneg hkm (zero_le_one.trans (le_max_right _ _))) (by norm_num)

end TelemetryGenerator

end RaceConditionZ
