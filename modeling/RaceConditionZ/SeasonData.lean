import Mathlib.Algebra.GroupWithZero.Nat
import RaceConditionZ.Types

/-!
# The season's tables

`common/season_data.h`: the drivers and cars of 2025, the default track, and the two lookups.
-/

namespace RaceConditionZ

/-- `DRIVERS`. -/
def drivers : List DriverProfile :=
  [⟨"VER", "Red Bull", 0.85, 0.95, 0.80⟩,
   ⟨"TSU", "Red Bull", 0.75, 0.75, 0.65⟩,
   ⟨"LEC", "Ferrari", 0.80, 0.85, 0.75⟩,
   ⟨"HAM", "Ferrari", 0.70, 0.92, 0.90⟩,
   ⟨"NOR", "McLaren", 0.78, 0.88, 0.72⟩,
   ⟨"PIA", "McLaren", 0.65, 0.85, 0.80⟩,
   ⟨"RUS", "Mercedes", 0.72, 0.90, 0.82⟩,
   ⟨"ANT", "Mercedes", 0.80, 0.65, 0.60⟩,
   ⟨"ALO", "Aston Martin", 0.75, 0.93, 0.92⟩,
   ⟨"STR", "Aston Martin", 0.60, 0.70, 0.68⟩,
   ⟨"GAS", "Alpine", 0.70, 0.78, 0.70⟩,
   ⟨"DOO", "Alpine", 0.72, 0.62, 0.58⟩,
   ⟨"ALB", "Williams", 0.68, 0.82, 0.78⟩,
   ⟨"SAI", "Williams", 0.75, 0.88, 0.85⟩,
   ⟨"HUL", "Haas", 0.72, 0.80, 0.72⟩,
   ⟨"OCO", "Haas", 0.68, 0.75, 0.70⟩,
   ⟨"LAW", "RB", 0.76, 0.72, 0.65⟩,
   ⟨"HAD", "RB", 0.74, 0.65, 0.60⟩,
   ⟨"BOT", "Sauber", 0.65, 0.82, 0.80⟩,
   ⟨"BEA", "Sauber", 0.73, 0.68, 0.62⟩]

/-- `CARS`. -/
def cars : List CarProfile :=
  [⟨"Red Bull", 0.97⟩,
   ⟨"Ferrari", 0.96⟩,
   ⟨"McLaren", 0.95⟩,
   ⟨"Mercedes", 0.93⟩,
   ⟨"Aston Martin", 0.88⟩,
   ⟨"Alpine", 0.83⟩,
   ⟨"Williams", 0.82⟩,
   ⟨"Haas", 0.80⟩,
   ⟨"RB", 0.84⟩,
   ⟨"Sauber", 0.78⟩]

def defaultTrack : TrackProfile where
  lengthKm := 5.4
  tireDegFactor := 1
  fuelConsumption := 2.3

/-- The car of the driver's team, and the last car of the table where no team matches. -/
def carForDriver (d : DriverProfile) : CarProfile :=
  (cars.find? fun car => car.team == d.team).getD ⟨"Sauber", 0.78⟩

/-- The table is not empty, so its indices have literals. -/
instance neZero_drivers : NeZero 20 := ⟨Nat.succ_ne_zero 19⟩

/-- The first row of `DRIVERS` with that id, `-1` where there is none. -/
def driverIndexOf (id : String) : ℤ :=
  match drivers.findIdx? fun d => d.id == id with
  | some i => i
  | none => -1

/-- What the lookup finds is a row with that id. -/
theorem driverIndexOf_eq {id : String} (h : 0 ≤ driverIndexOf id) :
    ∃ i : Fin 20, driverIndexOf id = (i : ℕ) ∧ (drivers.get i).id = id := by
  unfold driverIndexOf at h ⊢
  split at h
  · rename_i i hi
    obtain ⟨hlt, hid, -⟩ := List.findIdx?_eq_some_iff_getElem.1 hi
    exact ⟨⟨i, hlt⟩, rfl, beq_iff_eq.1 hid⟩
  · omega

/-- It finds every row by its own id: no id stands twice in the table. -/
theorem driverIndexOf_get (i : Fin 20) : driverIndexOf (drivers.get i).id = (i : ℕ) := by
  revert i
  decide

/-- Every id of the table fits into the tag. -/
theorem view_ofId (i : Fin 20) : (DriverTag.ofId (drivers.get i).id).view = (drivers.get i).id := by
  revert i
  decide

end RaceConditionZ
