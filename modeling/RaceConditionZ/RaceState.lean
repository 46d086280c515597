import RaceConditionZ.Lib.MachineFloat
import RaceConditionZ.Lib.Transition
import Mathlib.Logic.Function.Basic

/-!
# The race state

`common/race_state.h`. A call of `try_claim_fastest_lap` is taken step by step, one access of an
atomic a step, so that calls on several threads can be interleaved.
-/

namespace RaceConditionZ

open Transition

/-- `RaceState`, without the two flags that no modelled function reads. -/
structure RaceState (F : Type) where
  currentLap : ℤ
  fastestLapHolder : ℤ
  fastestLapMs : F
deriving DecidableEq

/-- The arguments of `try_claim_fastest_lap`. -/
structure LapClaim (F : Type) where
  driverIndex : ℤ
  lapMs : F

/-- Where a call of `try_claim_fastest_lap` stands, with its local `current_best`. -/
inductive ClaimPc (F : Type)
  | load
  | compare (currentBest : F)
  | exchange (currentBest : F)
  | storeHolder
  | returned (won : Bool)
deriving DecidableEq

variable {F : Type} [MachineFloat F] [DecidableEq F] [DecidableLT F]

/-- A `RaceState` as constructed. -/
def RaceState.initial : RaceState F where
  currentLap := 1
  fastestLapHolder := -1
  fastestLapMs := MachineFloat.maxFinite

def RaceState.setLap (rs : RaceState F) (lap : ℤ) : RaceState F := { rs with currentLap := lap }

/-- One step of `try_claim_fastest_lap`. A `compare_exchange_weak` compares bits, and on failure,
a `spurious` one included, overwrites `current_best` with the current time. -/
def RaceState.tryClaimFastestLap (rs : RaceState F) (c : LapClaim F) (spurious : Bool) :
    ClaimPc F → Option (RaceState F × ClaimPc F)
  | .load => some (rs, .compare rs.fastestLapMs)
  | .compare currentBest =>
    if c.lapMs < currentBest then some (rs, .exchange currentBest) else some (rs, .returned false)
  | .exchange currentBest =>
    if rs.fastestLapMs = currentBest ∧ spurious = false then
      some ({ rs with fastestLapMs := c.lapMs }, .storeHolder)
    else
      some (rs, .compare rs.fastestLapMs)
  | .storeHolder => some ({ rs with fastestLapHolder := c.driverIndex }, .returned true)
  | .returned _ => none

/-- Calls on one race state. `winners` is history: the calls whose exchange succeeded, the latest
first. -/
structure ClaimState (ι F : Type) where
  race : RaceState F
  pc : ι → ClaimPc F
  winners : List ι

/-- Any calls, interleaved in any way: a label is the call that moves, and whether its exchange
would fail spuriously. -/
def claimSystem {ι : Type} [DecidableEq ι] (calls : ι → LapClaim F) (race : RaceState F) :
    System (ClaimState ι F) (ι × Bool) where
  init := ⟨race, fun _ => .load, []⟩
  step s l :=
    (s.race.tryClaimFastestLap (calls l.1) l.2 (s.pc l.1)).map fun (race, pc) =>
      ⟨race, Function.update s.pc l.1 pc, if pc = .storeHolder then l.1 :: s.winners else s.winners⟩

end RaceConditionZ
