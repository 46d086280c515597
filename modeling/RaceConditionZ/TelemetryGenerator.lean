import Mathlib.Algebra.Order.Field.Rat
import Mathlib.Data.List.Sort
import RaceConditionZ.Lib.Sweep
import RaceConditionZ.SeasonData

/-!
# The simulation

`simulation/telemetry_generator.{h,cpp}`: the constructor and `tick`. Floats are read as rationals,
and a driver's draw from `dist_` and the clock are inputs of the tick.
-/

namespace RaceConditionZ

def timeScale : ℚ := 120
def tickS : ℚ := 0.02
def simSPerTick : ℚ := timeScale * tickS
def tireWearBase : ℚ := 0.00130
def pitStopTicks : ℤ := 11
def totalLaps : ℤ := 50

/-- What a driver's turn in the loop of `tick` reads from outside: `dist_(rng_)`, and
`steady_clock` in nanoseconds. -/
structure DriverInput where
  noise : ℚ
  now : ℤ

abbrev TickInput := Fin 20 → DriverInput

/-- `std::clamp`. -/
def clamp (v lo hi : ℚ) : ℚ := if v < lo then lo else if hi < v then hi else v

/-- `static_cast<int>`. -/
def truncate (q : ℚ) : ℤ := q.num.tdiv q.den

def maxSpeed (car : CarProfile) : ℚ := 280 + car.enginePower * 90

namespace DriverState

/-- The state the constructor gives `DRIVERS[i]`. -/
def onGrid (i : Fin 20) (lapStart : ℤ) : DriverState where
  profile := drivers.get i
  car := carForDriver (drivers.get i)
  latestFrame := ⟨.ofId (drivers.get i).id, 1, 1, 0, 0, 0, 0, 100, false, false, 0, 0⟩
  position := i + 1
  pitStops := 0
  bestLapMs := 0
  distanceInLap := (20 - i - 1) * 0.010
  inPit := false
  pitTimerTicks := 0
  hasCompletedPit := false
  lapStart := lapStart

variable (s : DriverState) (track : TrackProfile)

/-- The end of the stop. -/
def leavePit : DriverState :=
  { s with
    inPit := false
    latestFrame := { s.latestFrame with inPit := false, tireWear := 0.02, fuelKg := 100 }
    pitStops := s.pitStops + 1 }

def handlePit : DriverState :=
  let s := { s with
    pitTimerTicks := s.pitTimerTicks - 1
    latestFrame := { s.latestFrame with
      inPit := true
      speedKph := 60
      throttle := 0.2
      brake := 0.1
      lapTimeMs := 0 } }
  if s.pitTimerTicks ≤ 0 then s.leavePit else s

def shouldPit : Bool :=
  if s.hasCompletedPit then false
  else if s.latestFrame.lap < 5 then false
  else
    let threshold := 0.60 + s.profile.tireMgmt * 0.25
    threshold ≤ s.latestFrame.tireWear

/-- The speed of this tick. -/
def speedKph (noise : ℚ) : ℚ :=
  let fuelFactor := 1 - s.latestFrame.fuelKg / 100 * 0.08
  let tireFactor := 1 - s.latestFrame.tireWear * 0.25
  let variation := noise * (1 - s.profile.consistency) * 8
  clamp (maxSpeed s.car * fuelFactor * tireFactor + variation
    + if s.latestFrame.drsActive then 12 else 0) 80 370

/-- The loop body up to the lap completion, for a driver that is not in the pits. -/
def drive (noise : ℚ) : DriverState :=
  let speed := s.speedKph noise
  let distKm := speed / 3600 * simSPerTick
  let distance := s.distanceInLap + distKm
  let sectorLen := track.lengthKm / 3
  let wear := tireWearBase * s.profile.aggression * track.tireDegFactor * (speed / 280)
  let fuelBurn := track.fuelConsumption * distKm
  { s with
    distanceInLap := distance
    latestFrame := { s.latestFrame with
      lapTimeMs := 0
      speedKph := speed
      throttle := min 1 (speed / 310)
      brake := if speed < 150 then clamp ((150 - speed) / 150) 0 1 else 0
      sector := min 3 (truncate (distance / sectorLen) + 1)
      tireWear := min 1 (s.latestFrame.tireWear + wear)
      fuelKg := max 0 (s.latestFrame.fuelKg - fuelBurn) } }

/-- The lap completion up to the pit decision. -/
def recordLap (now : ℤ) : DriverState :=
  let lapMs : ℚ := (now - s.lapStart) / 10 ^ 6
  { s with
    distanceInLap := s.distanceInLap - track.lengthKm
    latestFrame := { s.latestFrame with lap := s.latestFrame.lap + 1, lapTimeMs := lapMs }
    lapStart := now
    bestLapMs := if s.bestLapMs < 1 ∨ lapMs < s.bestLapMs then lapMs else s.bestLapMs }

def enterPit : DriverState :=
  { s with
    inPit := true
    pitTimerTicks := pitStopTicks
    hasCompletedPit := true
    latestFrame := { s.latestFrame with inPit := true } }

/-- The lap completion up to the race's own counters. -/
def completeLap (now : ℤ) : DriverState :=
  let s := s.recordLap track now
  if s.shouldPit then s.enterPit else s

/-- The test of the lap completion, for a driver that is not in the pits. -/
def crossesLine (noise : ℚ) : Prop :=
  s.inPit = false ∧ track.lengthKm ≤ s.distanceInLap + s.speedKph noise / 3600 * simSPerTick

instance (noise : ℚ) : Decidable (s.crossesLine track noise) :=
  inferInstanceAs (Decidable (_ ∧ _))

/-- What the loop body of `tick` makes of its driver. -/
def advance (x : DriverInput) : DriverState :=
  if s.inPit then s.handlePit
  else if s.crossesLine track x.noise then (s.drive track x.noise).completeLap track x.now
  else s.drive track x.noise

end DriverState

/-- `offered` is history: the frames passed to `queue_.push`, whether it takes or refuses them. -/
structure TelemetryGenerator where
  track : TrackProfile
  states : Fin 20 → DriverState
  raceLap : ℤ
  raceFinished : Bool
  offered : List (TelemetryFrame ℚ)

namespace TelemetryGenerator

/-- The constructor, for what the clock reads at each driver. -/
def init (track : TrackProfile) (lapStart : Fin 20 → ℤ) : TelemetryGenerator where
  track := track
  states i := .onGrid i (lapStart i)
  raceLap := 1
  raceFinished := false
  offered := []

variable (g : TelemetryGenerator)

/-- The loop body of `tick` at driver `i`. -/
def tickDriver (x : TickInput) (i : Fin 20) : TelemetryGenerator :=
  let s := (g.states i).advance g.track (x i)
  let lap := s.latestFrame.lap
  let completed := decide ((g.states i).crossesLine g.track (x i).noise)
  { g with
    states := Function.update g.states i s
    raceLap := if completed ∧ g.raceLap < lap then lap else g.raceLap
    raceFinished := g.raceFinished || (completed && totalLaps < lap && s.position = 1)
    offered := g.offered ++ [s.latestFrame] }

/-- `lap * length_km + distance_in_lap`. -/
def raceDistance (i : Fin 20) : ℚ :=
  (g.states i).latestFrame.lap * g.track.lengthKm + (g.states i).distanceInLap

/-- The vector `idx` after `stable_sort`: equal distances keep the order of `DRIVERS`. -/
def ranking : List (Fin 20) :=
  (List.finRange 20).insertionSort fun a b => g.raceDistance b ≤ g.raceDistance a

/-- `gap_to_leader` at index `p` of `idx`. -/
def gapToLeader (idx : List (Fin 20)) (p : ℕ) (i : Fin 20) : ℚ :=
  if p = 0 then 0
  else
    let leader := idx.headD 0
    let gapKm := g.raceDistance leader - g.raceDistance i
    let avgSpd :=
      ((g.states leader).latestFrame.speedKph + (g.states i).latestFrame.speedKph) / 2
    gapKm / max avgSpd 1 * 3600

/-- Both loops over `idx`, told by driver: `i` stands at index `idx.idxOf i`. The second reads the
gaps that the first has written. -/
def placed (idx : List (Fin 20)) (i : Fin 20) : DriverState :=
  let p := idx.idxOf i
  let gap := g.gapToLeader idx p i
  let ahead := idx.getD (p - 1) 0
  { g.states i with
    position := p + 1
    latestFrame := { (g.states i).latestFrame with
      gapToLeader := gap
      drsActive := p ≠ 0 ∧ gap - g.gapToLeader idx (p - 1) ahead < 1 } }

def updatePositionsAndDrs : TelemetryGenerator := { g with states := g.placed g.ranking }

/-- The loop of `tick` over `states_`. -/
def advanceAll (x : TickInput) : TelemetryGenerator :=
  (List.finRange 20).foldl (fun g i => g.tickDriver x i) g

/-- The callback then gets the `states` of the result. -/
def tick (x : TickInput) : TelemetryGenerator := (g.advanceAll x).updatePositionsAndDrs

/-- The ticks of a run, one after the other. -/
def ticks (xs : List TickInput) : TelemetryGenerator := xs.foldl tick g

end TelemetryGenerator

end RaceConditionZ
