import Mathlib.Algebra.Order.Field.Rat
import RaceConditionZ.Types

/-!
# The track-limits monitor

`race_control/track_limits.{h,cpp}`: the loop body of `check`, and `check`. The draws from `coin_`
and the clock are inputs; a driver in the pits reads neither.
-/

namespace RaceConditionZ

def baseRate : ℚ := 0.004

namespace DriverState

variable (s : DriverState)

/-- `prob`. -/
def violationProb : ℚ :=
  let speedFactor := s.latestFrame.speedKph / 280
  baseRate * s.profile.aggression * (1 + s.latestFrame.tireWear) * speedFactor

def trackLimitsEvent (lap now : ℤ) : RaceControlEvent where
  type := .trackLimits
  driverId := .ofId s.profile.id
  lap := lap
  message := s.profile.id ++ " exceeded track limits (S" ++ toString s.latestFrame.sector ++ ")"
  timestamp := now

/-- The loop body of `check`: the event it pushes. -/
def check (lap : ℤ) (coin : ℚ) (now : ℤ) : Option RaceControlEvent :=
  if s.inPit then none
  else if coin < s.violationProb then some (s.trackLimitsEvent lap now)
  else none

end DriverState

/-- The monitor's `coin_(rng_)`: its draws in order, and how many have been made. -/
structure TrackLimitsMonitor where
  coins : ℕ → ℚ
  drawn : ℕ

namespace TrackLimitsMonitor

/-- `check` over a vector of states, each with the time at its turn, pushing onto the queue. -/
def check (m : TrackLimitsMonitor) (lap : ℤ) (queue : List RaceControlEvent) :
    List (DriverState × ℤ) → TrackLimitsMonitor × List RaceControlEvent
  | [] => (m, queue)
  | (s, now) :: states =>
    if s.inPit then m.check lap queue states
    else
      let coin := m.coins m.drawn
      let m := { m with drawn := m.drawn + 1 }
      m.check lap (queue ++ (s.check lap coin now).toList) states

end TrackLimitsMonitor

end RaceConditionZ
