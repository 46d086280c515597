import Mathlib.Data.List.ReduceOption
import Mathlib.Tactic.Linarith
import Mathlib.Tactic.NormNum
import RaceConditionZ.Lib.Mealy
import RaceConditionZ.TelemetryGenerator
import RaceConditionZ.TrackLimits

/-!
# Track limits in two runs

A driver on the track takes one coin whether it is flagged or not, and a driver in the pits takes
none. So two runs with the same drivers in the pits meet the same coins, and where the second run's
probabilities are no smaller it flags whom the first flags.
-/

namespace RaceConditionZ

namespace DriverState

variable {s s' : DriverState}

/-- `s` and `s'` are both in the pits or both on the track, and no factor of the probability of `s`
is above that of `s'`. -/
structure Tamer (s s' : DriverState) : Prop where
  inPit : s.inPit = s'.inPit
  aggression : 0 ≤ s.profile.aggression ∧ s.profile.aggression ≤ s'.profile.aggression
  tireWear : 0 ≤ s.latestFrame.tireWear ∧ s.latestFrame.tireWear ≤ s'.latestFrame.tireWear
  speedKph : 0 ≤ s.latestFrame.speedKph ∧ s.latestFrame.speedKph ≤ s'.latestFrame.speedKph

theorem Tamer.violationProb_le (h : s.Tamer s') : s.violationProb ≤ s'.violationProb := by
  have hbase : 0 ≤ baseRate := by
    unfold baseRate
    norm_num
  have haggression : baseRate * s.profile.aggression ≤ baseRate * s'.profile.aggression :=
    mul_le_mul_of_nonneg_left h.aggression.2 hbase
  have haggression' : 0 ≤ baseRate * s'.profile.aggression :=
    mul_nonneg hbase (h.aggression.1.trans h.aggression.2)
  have hwear : 0 ≤ 1 + s.latestFrame.tireWear := by linarith [h.tireWear.1]
  have hwear' : 1 + s.latestFrame.tireWear ≤ 1 + s'.latestFrame.tireWear := by
    linarith [h.tireWear.2]
  have hspeed : 0 ≤ s.latestFrame.speedKph / 280 := div_nonneg h.speedKph.1 (by norm_num)
  have hspeed' : s.latestFrame.speedKph / 280 ≤ s'.latestFrame.speedKph / 280 :=
    div_le_div_of_nonneg_right h.speedKph.2 (by norm_num)
  exact mul_le_mul (mul_le_mul haggression hwear' hwear haggression') hspeed' hspeed
    (mul_nonneg haggression' (hwear.trans hwear'))

theorem check_isSome_iff {lap now : ℤ} {coin : ℚ} :
    (s.check lap coin now).isSome ↔ s.inPit = false ∧ coin < s.violationProb := by
  unfold check
  split_ifs with hpit hcoin
  · simp [hpit]
  · simpa [hpit] using hcoin
  · simpa [hpit] using hcoin

/-- A driver that is checked with the same coin. -/
theorem Tamer.check_isSome (h : s.Tamer s') {lap lap' now now' : ℤ} {coin : ℚ}
    (hflagged : (s.check lap coin now).isSome) : (s'.check lap' coin now').isSome := by
  rw [check_isSome_iff] at hflagged ⊢
  exact ⟨h.inPit ▸ hflagged.1, hflagged.2.trans_le h.violationProb_le⟩

/-- An event of a driver's turn is the driver's own, and not from the pits. -/
def Verdict (lap : ℤ) (x : DriverState × ℤ) (verdict : Option RaceControlEvent) : Prop :=
  ∀ e, verdict = some e → x.1.inPit = false ∧ e.type = .trackLimits ∧ e.lap = lap
    ∧ (x.1.profile.id.length = 3 → e.driverId.chars = x.1.profile.id.toList ++ ['\x00'])

theorem verdict_check (lap : ℤ) (coin : ℚ) (now : ℤ) :
    Verdict lap (s, now) (s.check lap coin now) := by
  intro e he
  have hpit := (check_isSome_iff.1 (Option.isSome_iff_exists.2 ⟨e, he⟩)).1
  unfold check at he
  split_ifs at he
  obtain rfl := Option.some.inj he
  refine ⟨hpit, rfl, rfl, fun hid => ?_⟩
  have hthree : s.profile.id.toList.length = 3 := by rwa [String.length_toList]
  show (s.profile.id.toList ++ ['\x00', '\x00', '\x00']).take 3 ++ ['\x00'] = _
  rw [← hthree, List.take_left]

end DriverState

namespace TrackLimitsMonitor

/-- A driver's turn in the loop. -/
def examine (lap : ℤ) (m : TrackLimitsMonitor) (x : DriverState × ℤ) :
    TrackLimitsMonitor × Option RaceControlEvent :=
  (if x.1.inPit then m else { m with drawn := m.drawn + 1 },
    x.1.check lap (m.coins m.drawn) x.2)

/-- The arguments of a call of `check`, with the times. -/
structure Call where
  states : List (DriverState × ℤ)
  lap : ℤ

/-- A call of `check`, with the outcome of each driver's turn. -/
def verdicts (m : TrackLimitsMonitor) (call : Call) :
    TrackLimitsMonitor × List (Option RaceControlEvent) :=
  (Mealy.after (examine call.lap) m call.states, Mealy.outputs (examine call.lap) m call.states)

variable {m : TrackLimitsMonitor}

theorem check_eq (call : Call) (queue : List RaceControlEvent) :
    m.check call.lap queue call.states
      = ((m.verdicts call).1, queue ++ (m.verdicts call).2.reduceOption) := by
  obtain ⟨states, lap⟩ := call
  unfold verdicts
  induction states generalizing m queue with
  | nil => exact congrArg (Prod.mk m) (List.append_nil queue).symm
  | cons x states ih =>
    obtain ⟨s, now⟩ := x
    unfold check
    by_cases hpit : s.inPit = true
    · have hexamine : examine lap m (s, now) = (m, none) := by
        simp [examine, DriverState.check, hpit]
      rw [if_pos hpit, ih, Mealy.after, Mealy.outputs, hexamine, List.reduceOption_cons_of_none]
    · have hexamine : examine lap m (s, now)
          = ({ m with drawn := m.drawn + 1 }, s.check lap (m.coins m.drawn) now) := by
        simp [examine, hpit]
      rw [if_neg hpit, ih, Mealy.after, Mealy.outputs, hexamine]
      rcases s.check lap (m.coins m.drawn) now with _ | e
      · rw [Option.toList_none, List.append_nil, List.reduceOption_cons_of_none]
      · rw [Option.toList_some, List.append_assoc, List.singleton_append,
          List.reduceOption_cons_of_some]

/-- The calls of two runs, driver by driver. -/
def Call.Tamer (call call' : Call) : Prop :=
  List.Forall₂ (fun x y => x.1.Tamer y.1) call.states call'.states

/-- Whom the first run flags in a call, the second flags there. -/
theorem verdicts_isSome {calls calls' : List Call} (h : List.Forall₂ Call.Tamer calls calls') :
    List.Forall₂ (List.Forall₂ fun v v' => v.isSome → v'.isSome)
      (Mealy.outputs verdicts m calls) (Mealy.outputs verdicts m calls') := by
  refine (Mealy.related (R := Eq) (fun m m' call call' hm hcall => ?_) rfl h).2
  subst hm
  refine Mealy.related (R := Eq) (fun m m' x y hm hxy => ?_) rfl hcall
  subst hm
  refine ⟨?_, fun hflagged => hxy.check_isSome hflagged⟩
  unfold examine
  rw [hxy.inPit]

/-- Each driver's turn has an outcome of its own. -/
theorem verdict_outputs (call : Call) :
    List.Forall₂ (DriverState.Verdict call.lap) call.states (m.verdicts call).2 := by
  obtain ⟨states, lap⟩ := call
  unfold verdicts
  induction states generalizing m with
  | nil => exact .nil
  | cons x states ih => exact .cons (DriverState.verdict_check lap _ x.2) ih

/-- Whom the first run flags in a call, the second flags there; and what a call pushes is for each
driver in turn its own event or none. -/
theorem track_limits_monotone (m : TrackLimitsMonitor) {calls calls' : List Call}
    (h : List.Forall₂ Call.Tamer calls calls') :
    List.Forall₂ (List.Forall₂ fun v v' => v.isSome → v'.isSome)
        (Mealy.outputs verdicts m calls) (Mealy.outputs verdicts m calls')
      ∧ ∀ (m : TrackLimitsMonitor) (call : Call) (queue : List RaceControlEvent),
        m.check call.lap queue call.states
            = ((m.verdicts call).1, queue ++ (m.verdicts call).2.reduceOption)
          ∧ List.Forall₂ (DriverState.Verdict call.lap) call.states (m.verdicts call).2 :=
  ⟨verdicts_isSome h, fun _ call queue => ⟨check_eq call queue, verdict_outputs call⟩⟩

/-- VER, TSU in the pits, and LEC, at that speed and on tyres worn so far. -/
def threeDrivers (speedKph tireWear : ℚ) : List (DriverState × ℤ) :=
  let driving (i : Fin 20) : DriverState :=
    let s := DriverState.onGrid i 0
    { s with latestFrame := { s.latestFrame with speedKph := speedKph, tireWear := tireWear } }
  [(driving 0, 0), ({ driving 1 with inPit := true }, 1), (driving 2, 2)]

theorem tamer_threeDrivers {speedKph speedKph' tireWear tireWear' : ℚ} (lap : ℤ)
    (hspeed : 0 ≤ speedKph ∧ speedKph ≤ speedKph') (hwear : 0 ≤ tireWear ∧ tireWear ≤ tireWear') :
    Call.Tamer ⟨threeDrivers speedKph tireWear, lap⟩ ⟨threeDrivers speedKph' tireWear', lap⟩ := by
  have haggression : ∀ i : Fin 20, 0 ≤ (DriverState.onGrid i 0).profile.aggression := by
    decide +kernel
  refine .cons ?_ (.cons ?_ (.cons ?_ .nil))
  · exact ⟨rfl, ⟨haggression 0, le_rfl⟩, hwear, hspeed⟩
  · exact ⟨rfl, ⟨haggression 1, le_rfl⟩, hwear, hspeed⟩
  · exact ⟨rfl, ⟨haggression 2, le_rfl⟩, hwear, hspeed⟩

/-- Two calls at 280 and 300 km/h, and at 350 km/h on worn tyres: LEC takes the second coin of the
first call, as TSU takes none, and is flagged in the second run only. -/
theorem track_limits_monotone_worn :
    let m : TrackLimitsMonitor := ⟨fun k => [0.003, 0.005].getD k 1, 0⟩
    let calls : List Call := [⟨threeDrivers 280 0, 5⟩, ⟨threeDrivers 300 0, 6⟩]
    let calls' : List Call := [⟨threeDrivers 350 1, 5⟩, ⟨threeDrivers 350 1, 6⟩]
    let flagged (calls : List Call) : List (List Bool) :=
      (Mealy.outputs verdicts m calls).map fun verdicts => verdicts.map Option.isSome
    flagged calls = [[true, false, false], [false, false, false]]
      ∧ flagged calls' = [[true, false, true], [false, false, false]]
      ∧ List.Forall₂ (List.Forall₂ fun v v' => v.isSome → v'.isSome)
        (Mealy.outputs verdicts m calls) (Mealy.outputs verdicts m calls') := by
  intro m calls calls' flagged
  have hfirst : Call.Tamer ⟨threeDrivers 280 0, 5⟩ ⟨threeDrivers 350 1, 5⟩ :=
    tamer_threeDrivers 5 ⟨by norm_num, by norm_num⟩ ⟨le_rfl, zero_le_one⟩
  have hsecond : Call.Tamer ⟨threeDrivers 300 0, 6⟩ ⟨threeDrivers 350 1, 6⟩ :=
    tamer_threeDrivers 6 ⟨by norm_num, by norm_num⟩ ⟨le_rfl, zero_le_one⟩
  refine ⟨by decide +kernel, by decide +kernel, ?_⟩
  exact (track_limits_monotone m (.cons hfirst (.cons hsecond .nil))).1

end TrackLimitsMonitor

end RaceConditionZ
