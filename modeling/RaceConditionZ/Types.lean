import Mathlib.Data.Rat.Defs

/-!
# The shared types

`common/types.h`. The floating-point type of a frame is a parameter: the consumer of the telemetry
queue only compares lap times, and is read over the bits of a `float`; the simulation computes, and
is read over the rationals. Fields no modelled function reads (names, colours, the risk and
reliability ratings) are left out.
-/

namespace RaceConditionZ

/-- The `char driver_id[4]` of a frame or an event, read as a C string: it holds a NUL. -/
structure DriverTag where
  chars : List Char
  length_eq : chars.length = 4
  terminated : '\x00' ∈ chars
deriving DecidableEq

namespace DriverTag

/-- `std::string_view(driver_id)`: the characters before the first NUL. -/
def view (t : DriverTag) : String := String.ofList (t.chars.takeWhile (· ≠ '\x00'))

/-- `std::memcpy(driver_id, id.data(), 3)` into a zeroed array. -/
def ofId (id : String) : DriverTag where
  chars := (id.toList ++ ['\x00', '\x00', '\x00']).take 3 ++ ['\x00']
  length_eq := by simp
  terminated := by simp

/-- The zeroed array. -/
def empty : DriverTag where
  chars := ['\x00', '\x00', '\x00', '\x00']
  length_eq := rfl
  terminated := by decide

end DriverTag

structure TelemetryFrame (F : Type) where
  driverId : DriverTag
  lap : ℤ
  sector : ℤ
  speedKph : F
  throttle : F
  brake : F
  tireWear : F
  fuelKg : F
  drsActive : Bool
  inPit : Bool
  gapToLeader : F
  lapTimeMs : F

structure DriverProfile where
  id : String
  team : String
  aggression : ℚ
  consistency : ℚ
  tireMgmt : ℚ

structure CarProfile where
  team : String
  enginePower : ℚ

structure TrackProfile where
  lengthKm : ℚ
  tireDegFactor : ℚ
  fuelConsumption : ℚ

inductive PenaltyState
  | none
  | pending
  | serving
  | served
deriving DecidableEq, Repr

inductive WeatherState
  | dry
  | damp
  | wet
deriving DecidableEq, Repr

/-- `RaceControlEvent::Type`. -/
inductive EventType
  | trackLimits
  | penaltyIssued
  | pitEntry
  | pitExit
  | weatherChange
  | safetyCar
  | fastestLap
  | radioMessage
deriving DecidableEq, Repr

/-- The timestamp is a reading of `steady_clock`, in its ticks. -/
structure RaceControlEvent where
  type : EventType
  driverId : DriverTag
  lap : ℤ
  message : String
  timestamp : ℤ
deriving DecidableEq

/-- What the simulation keeps of a driver. -/
structure DriverState where
  profile : DriverProfile
  car : CarProfile
  latestFrame : TelemetryFrame ℚ
  position : ℤ
  pitStops : ℤ
  bestLapMs : ℚ
  distanceInLap : ℚ
  inPit : Bool
  pitTimerTicks : ℤ
  hasCompletedPit : Bool
  lapStart : ℤ

end RaceConditionZ
