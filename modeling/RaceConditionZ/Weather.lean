import Mathlib.Algebra.Order.Field.Rat
import RaceConditionZ.Types

/-!
# The weather

`race_control/weather.{h,cpp}`: the parts of `update`, as its callers' threads may interleave them,
and `update` called alone.
-/

namespace RaceConditionZ

def changeProbability : ℚ := 0.15

namespace WeatherState

/-- The transition of `update`. -/
def next : WeatherState → WeatherState
  | .dry => .damp
  | .damp => .wet
  | .wet => .dry

/-- `names`. -/
def name : WeatherState → String
  | .dry => "DRY"
  | .damp => "DAMP"
  | .wet => "WET"

end WeatherState

structure WeatherSystem where
  state : WeatherState
  lastUpdateLap : ℤ

namespace WeatherSystem

/-- A `WeatherSystem` as constructed. -/
def start : WeatherSystem := ⟨.dry, 0⟩

variable (w : WeatherSystem)

/-- The two early returns of `update`, for what `coin_` draws at the second; whether the call goes
on. -/
def draw (lap : ℤ) (coin : ℚ) : WeatherSystem × Bool :=
  if lap - w.lastUpdateLap < 5 then (w, false)
  else ({ w with lastUpdateLap := lap }, !decide (changeProbability < coin))

/-- The event pushed for the new state. -/
def changeEvent (state : WeatherState) (lap now : ℤ) : RaceControlEvent where
  type := .weatherChange
  driverId := .empty
  lap := lap
  message := "Weather: " ++ state.name
  timestamp := now

/-- What a call of `update` is given and reads. -/
structure Call where
  lap : ℤ
  coin : ℚ
  now : ℤ

/-- `update`, and the event it pushes. -/
def update (call : Call) : WeatherSystem × Option RaceControlEvent :=
  let (w, goesOn) := w.draw call.lap call.coin
  if goesOn then
    let newState := w.state.next
    ({ w with state := newState }, some (changeEvent newState call.lap call.now))
  else (w, none)

def current : WeatherState := w.state

def gripFactor : ℚ :=
  match w.state with
  | .dry => 1
  | .damp => 0.85
  | .wet => 0.70

end WeatherSystem

end RaceConditionZ
