import RaceConditionZ.Proofs.LapAccounting

/-!
# The frames of one driver

The frames of all drivers go to one queue, and each names its driver. A driver's own are its frame
after each tick but for what the end of the tick writes (`place`), so what is true of them follows
from what `advance` does to its driver.
-/

namespace RaceConditionZ

namespace DriverState

variable (s : DriverState) (track : TrackProfile)

/-- What the end of a tick writes. -/
def place (position : ℤ) (gap : ℚ) (drs : Bool) : DriverState :=
  { s with
    position := position
    latestFrame := { s.latestFrame with gapToLeader := gap, drsActive := drs } }

theorem advance_driverId (x : DriverInput) :
    (s.advance track x).latestFrame.driverId = s.latestFrame.driverId := by
  unfold advance
  split_ifs
  · exact s.handlePit_field (f := fun t => t.latestFrame.driverId) rfl rfl
  · exact completeLap_field _ track (f := fun t => t.latestFrame.driverId) rfl rfl
  · rfl

end DriverState

namespace TelemetryGenerator

variable (g : TelemetryGenerator) (x : TickInput) (i : Fin 20)

theorem exists_place : ∃ position gap drs,
    (g.tick x).states i = ((g.states i).advance g.track (x i)).place position gap drs := by
  rw [← advanceAll_states]
  exact ⟨_, _, _, rfl⟩

/-- What the end of the tick does not touch is as `advance` leaves it. -/
theorem tick_field {α : Type*} {f : DriverState → α}
    (hf : ∀ s position gap drs, f (s.place position gap drs) = f s) :
    f ((g.tick x).states i) = f ((g.states i).advance g.track (x i)) := by
  obtain ⟨position, gap, drs, hplace⟩ := g.exists_place x i
  rw [hplace, hf]

theorem tick_inPit :
    ((g.tick x).states i).inPit = ((g.states i).advance g.track (x i)).inPit :=
  g.tick_field x i fun _ _ _ _ => rfl

theorem tick_hasCompletedPit : ((g.tick x).states i).hasCompletedPit
    = ((g.states i).advance g.track (x i)).hasCompletedPit :=
  g.tick_field x i (f := DriverState.hasCompletedPit) fun _ _ _ _ => rfl

theorem tick_tireWear : ((g.tick x).states i).latestFrame.tireWear
    = ((g.states i).advance g.track (x i)).latestFrame.tireWear :=
  g.tick_field x i (f := fun s => s.latestFrame.tireWear) fun _ _ _ _ => rfl

theorem updatePositionsAndDrs_driverId :
    (g.updatePositionsAndDrs.states i).latestFrame.driverId
      = (g.states i).latestFrame.driverId := by
  simp only [updatePositionsAndDrs, placed]

theorem updatePositionsAndDrs_offered : g.updatePositionsAndDrs.offered = g.offered := by
  simp only [updatePositionsAndDrs]

theorem tickDriver_offered :
    (g.tickDriver x i).offered
      = g.offered ++ [((g.states i).advance g.track (x i)).latestFrame] := rfl

/-- A tick offers a frame of each driver, in the order of `DRIVERS`. -/
theorem tick_offered : (g.tick x).offered = g.offered
    ++ (List.finRange 20).map fun i => ((g.states i).advance g.track (x i)).latestFrame := by
  unfold tick
  rw [updatePositionsAndDrs_offered]
  exact (local_tickDriver x).log_foldl offered
    (fun track i s => (s.advance track (x i)).latestFrame)
    (fun g i => g.tickDriver_offered x i) (List.nodup_finRange 20) g

/-- The frames that driver `i` has offered to the queue. -/
def offeredBy : List (TelemetryFrame ℚ) :=
  g.offered.filter fun frame => frame.driverId = .ofId (drivers.get i).id

/-- Every driver's frame names its driver. -/
def Named : Prop := ∀ i, (g.states i).latestFrame.driverId = .ofId (drivers.get i).id

variable {g x i}

theorem named_init (track : TrackProfile) (lapStart : Fin 20 → ℤ) : (init track lapStart).Named :=
  fun _ => rfl

theorem Named.tick (h : g.Named) (x : TickInput) : (g.tick x).Named := by
  intro i
  rw [g.tick_field x i (f := fun s => s.latestFrame.driverId) fun _ _ _ _ => rfl,
    DriverState.advance_driverId, h i]

theorem Named.ticks (h : g.Named) (xs : List TickInput) : (g.ticks xs).Named := by
  induction xs generalizing g with
  | nil => rwa [ticks_nil]
  | cons x xs ih =>
    rw [ticks_cons]
    exact ih (h.tick x)

theorem ofId_inj {i j : Fin 20}
    (h : DriverTag.ofId (drivers.get i).id = .ofId (drivers.get j).id) : i = j := by
  have hview := congrArg DriverTag.view h
  rw [view_ofId, view_ofId] at hview
  have hindex := congrArg driverIndexOf hview
  rw [driverIndexOf_get, driverIndexOf_get] at hindex
  exact Fin.ext (by exact_mod_cast hindex)

/-- Of a tick's frames one is the driver's. -/
theorem Named.tick_offeredBy (h : g.Named) (x : TickInput) (i : Fin 20) :
    (g.tick x).offeredBy i
      = g.offeredBy i ++ [((g.states i).advance g.track (x i)).latestFrame] := by
  have hname : ∀ j, ((g.states j).advance g.track (x j)).latestFrame.driverId
      = .ofId (drivers.get i).id ↔ j = i := by
    intro j
    rw [DriverState.advance_driverId, h j]
    exact ⟨fun he => ofId_inj he, fun he => by rw [he]⟩
  have hone : (List.finRange 20).filter (· = i) = [i] := by
    rw [List.filter_eq, List.count_eq_one_of_mem (List.nodup_finRange 20) (List.mem_finRange i)]
    rfl
  unfold offeredBy
  rw [tick_offered, List.filter_append, List.filter_map]
  simp only [Function.comp_def, hname]
  rw [hone, List.map_singleton]

end TelemetryGenerator

end RaceConditionZ
