import Mathlib.Data.Prod.Lex
import RaceConditionZ.Proofs.RaceEnd
import RaceConditionZ.Proofs.TelemetryRanges

/-!
# Sectors

The sector is taken from the distance before a completed lap is taken off it, and the lap is counted
after. So the frame of a completed lap names the last sector of the lap that has just begun, and is
right only where the tick carries the driver that far into it.
-/

namespace RaceConditionZ

theorem truncate_eq_floor {q : ℚ} (h : 0 ≤ q) : truncate q = ⌊q⌋ := by
  rw [Rat.floor_def']
  exact Int.tdiv_eq_ediv_of_nonneg (Rat.num_nonneg.2 h)

/-- How far a frame tells that the driver is. -/
def TelemetryFrame.place (frame : TelemetryFrame ℚ) : ℤ ×ₗ ℤ := toLex (frame.lap, frame.sector)

namespace DriverState

variable {s s' : DriverState} {track : TrackProfile} {x : DriverInput}

/-- `sector` is the third of the lap in which `distance_in_lap` lies. -/
def InThird (s : DriverState) (track : TrackProfile) : Prop :=
  (s.latestFrame.sector - 1) * (track.lengthKm / 3) ≤ s.distanceInLap
    ∧ s.distanceInLap < s.latestFrame.sector * (track.lengthKm / 3)

/-- Where this tick completes a lap, it ends in the last third of the next. -/
def KeepsSector (s : DriverState) (track : TrackProfile) (x : DriverInput) : Prop :=
  s.crossesLine track x.noise → track.lengthKm + 2 * (track.lengthKm / 3)
    ≤ s.distanceInLap + s.speedKph x.noise / 3600 * simSPerTick

theorem drive_sector (noise : ℚ) : (s.drive track noise).latestFrame.sector
    = min 3 (truncate ((s.drive track noise).distanceInLap / (track.lengthKm / 3)) + 1) := rfl

/-- Before the line the sector is right. -/
theorem drive_inThird (noise : ℚ) (h0 : 0 ≤ (s.drive track noise).distanceInLap)
    (hlt : (s.drive track noise).distanceInLap < track.lengthKm) :
    (s.drive track noise).InThird track := by
  have hthird : 0 < track.lengthKm / 3 := by linarith
  have hfloor : ⌊(s.drive track noise).distanceInLap / (track.lengthKm / 3)⌋ < 3 := by
    rw [Int.floor_lt, div_lt_iff₀ hthird]
    push_cast
    linarith
  have hsector : (s.drive track noise).latestFrame.sector
      = ⌊(s.drive track noise).distanceInLap / (track.lengthKm / 3)⌋ + 1 := by
    rw [drive_sector, truncate_eq_floor (div_nonneg h0 hthird.le)]
    omega
  unfold InThird
  rw [hsector, ← le_div_iff₀ hthird, ← div_lt_iff₀ hthird]
  push_cast
  rw [add_sub_cancel_right]
  exact ⟨Int.floor_le _, Int.lt_floor_add_one _⟩

/-- At the line and past it the sector is the last. -/
theorem drive_sector_of_crosses (hlength : 0 < track.lengthKm) {noise : ℚ}
    (hc : s.crossesLine track noise) : (s.drive track noise).latestFrame.sector = 3 := by
  have hthird : 0 < track.lengthKm / 3 := by linarith
  have hline : track.lengthKm ≤ (s.drive track noise).distanceInLap := hc.2
  have hfloor : 3 ≤ ⌊(s.drive track noise).distanceInLap / (track.lengthKm / 3)⌋ := by
    rw [Int.le_floor, le_div_iff₀ hthird]
    push_cast
    linarith
  have h0 : 0 ≤ (s.drive track noise).distanceInLap := by linarith
  rw [drive_sector, truncate_eq_floor (div_nonneg h0 hthird.le)]
  omega

theorem completeLap_sector (now : ℤ) :
    (s.completeLap track now).latestFrame.sector = s.latestFrame.sector :=
  s.completeLap_field track (f := fun t => t.latestFrame.sector) rfl rfl

theorem handlePit_sector : s.handlePit.latestFrame.sector = s.latestFrame.sector :=
  s.handlePit_field (f := fun t => t.latestFrame.sector) rfl rfl

theorem handlePit_inThird : s.handlePit.InThird track ↔ s.InThird track := by
  unfold InThird
  rw [handlePit_sector, handlePit_distanceInLap]

/-- The sector after a tick is right exactly if it is kept. -/
theorem advance_inThird_iff (hwithin : s.WithinLap track)
    (hlength : 370 / 3600 * simSPerTick ≤ track.lengthKm)
    (hpit : s.inPit = true → s.InThird track) :
    (s.advance track x).InThird track ↔ s.KeepsSector track x := by
  have hpos : 0 < track.lengthKm := hwithin.1.trans_lt hwithin.2
  by_cases hin : s.inPit = true
  · rw [s.advance_of_inPit track hin, handlePit_inThird]
    refine iff_of_true (hpit hin) fun hc => ?_
    rw [hc.1] at hin
    cases hin
  have hout : s.inPit = false := by simpa using hin
  by_cases hc : s.crossesLine track x.noise
  · have hlt := (hwithin.advance hlength x).2
    have hsector : (s.advance track x).latestFrame.sector = 3 := by
      rw [s.advance_of_crosses track hc, completeLap_sector, drive_sector_of_crosses hpos hc]
    have hdistance := s.advance_distanceInLap track x
    rw [if_pos hc, coveredKm_eq, if_neg hin] at hdistance
    unfold InThird KeepsSector
    rw [hsector]
    push_cast
    constructor
    · intro hthird _
      linarith [hthird.1]
    · intro hkeeps
      have hkept := hkeeps hc
      constructor <;> linarith
  · rw [s.advance_of_not_crosses track hout hc]
    refine iff_of_true (drive_inThird x.noise ?_ ?_) fun h => absurd h hc
    · have hkm := (hwithin.advance hlength x).1
      rwa [s.advance_of_not_crosses track hout hc] at hkm
    · have hkm := (hwithin.advance hlength x).2
      rwa [s.advance_of_not_crosses track hout hc] at hkm

/-- On a track of more than one and a half ticks at top speed no completed lap keeps the sector. -/
theorem WithinLap.keepsSector_iff (hwithin : s.WithinLap track)
    (hlong : 370 / 3600 * simSPerTick < 2 * (track.lengthKm / 3)) :
    s.KeepsSector track x ↔ ¬ s.crossesLine track x.noise := by
  refine ⟨fun hkeeps hc => ?_, fun h hc => absurd hc h⟩
  have hfar := hkeeps hc
  have hfast := (s.speedKph_mem x.noise).2
  have hkm : s.speedKph x.noise / 3600 * simSPerTick ≤ 370 / 3600 * simSPerTick :=
    mul_le_mul_of_nonneg_right (by linarith) simSPerTick_pos.le
  linarith [hwithin.2]

/-- Between two right sectors of one lap a driver does not go back. -/
theorem InThird.sector_le (h : s.InThird track) (h' : s'.InThird track)
    (hpos : 0 < track.lengthKm) (hle : s.distanceInLap ≤ s'.distanceInLap) :
    s.latestFrame.sector ≤ s'.latestFrame.sector := by
  have hthird : 0 < track.lengthKm / 3 := by linarith
  have hlt : ((s.latestFrame.sector - 1 : ℤ) : ℚ) * (track.lengthKm / 3)
      < s'.latestFrame.sector * (track.lengthKm / 3) := by
    push_cast
    linarith [h.1, h'.2]
  have hlt' : s.latestFrame.sector - 1 < s'.latestFrame.sector := by
    exact_mod_cast lt_of_mul_lt_mul_right hlt hthird.le
  omega

theorem advance_place_ge (hpos : 0 < track.lengthKm) (h : s.InThird track)
    (h' : (s.advance track x).InThird track) :
    s.latestFrame.place ≤ (s.advance track x).latestFrame.place := by
  have hlap := s.advance_lap track x
  unfold TelemetryFrame.place
  rw [Prod.Lex.toLex_le_toLex]
  by_cases hc : s.crossesLine track x.noise
  · rw [if_pos hc] at hlap
    exact .inl (by omega)
  · rw [if_neg hc, add_zero] at hlap
    have hdistance := s.advance_distanceInLap track x
    rw [if_neg hc, sub_zero] at hdistance
    have hkm := s.coveredKm_nonneg track x
    exact .inr ⟨hlap.symm, h.sector_le h' hpos (by linarith)⟩

end DriverState

namespace TelemetryGenerator

variable {g : TelemetryGenerator} {i : Fin 20} {x : TickInput}

/-- No driver's frames tell that it goes backwards. -/
def Forward (g : TelemetryGenerator) : Prop :=
  ∀ i, ((g.offeredBy i).map TelemetryFrame.place).Pairwise (· ≤ ·)

/-- Every driver's sector is right. -/
def SectorsRight (g : TelemetryGenerator) : Prop := ∀ i, (g.states i).InThird g.track

/-- Whoever completes a lap in the tick comes to the last third of the next. -/
def KeepsSectors (g : TelemetryGenerator) (x : TickInput) : Prop :=
  ∀ i, (g.states i).KeepsSector g.track (x i)

/-- What the ticks keep as long as they keep the sectors. -/
structure SectorInv (g : TelemetryGenerator) (i : Fin 20) : Prop where
  named : g.Named
  within : (g.states i).WithinLap g.track
  third : g.offeredBy i ≠ [] ∨ (g.states i).inPit = true → (g.states i).InThird g.track
  forward : ((g.offeredBy i).map TelemetryFrame.place).Pairwise (· ≤ ·)
  last : ∀ frame ∈ g.offeredBy i, frame.place ≤ (g.states i).latestFrame.place

theorem tick_inThird_iff (h : SectorInv g i) (hlength : 370 / 3600 * simSPerTick ≤ g.track.lengthKm)
    (x : TickInput) :
    ((g.tick x).states i).InThird (g.tick x).track ↔ (g.states i).KeepsSector g.track (x i) := by
  rw [← DriverState.advance_inThird_iff h.within hlength fun hpit => h.third (.inr hpit),
    tick_track]
  exact iff_of_eq (g.tick_field x i (f := fun s => s.InThird g.track) fun _ _ _ _ => rfl)

theorem SectorInv.tick (h : SectorInv g i) (hlength : 370 / 3600 * simSPerTick ≤ g.track.lengthKm)
    (hkeeps : (g.states i).KeepsSector g.track (x i)) : SectorInv (g.tick x) i := by
  have hpos : 0 < g.track.lengthKm := h.within.1.trans_lt h.within.2
  have hthird := (tick_inThird_iff h hlength x).2 hkeeps
  have hadvance := (DriverState.advance_inThird_iff (x := x i) h.within hlength
    fun hpit => h.third (.inr hpit)).2 hkeeps
  have hplace : ((g.tick x).states i).latestFrame.place
      = ((g.states i).advance g.track (x i)).latestFrame.place :=
    g.tick_field x i (f := fun s => s.latestFrame.place) fun _ _ _ _ => rfl
  have hlast : ∀ frame ∈ g.offeredBy i,
      frame.place ≤ ((g.states i).advance g.track (x i)).latestFrame.place := by
    intro frame hframe
    have hbefore := h.third (.inl (List.ne_nil_of_mem hframe))
    exact (h.last frame hframe).trans (DriverState.advance_place_ge hpos hbefore hadvance)
  refine ⟨h.named.tick x, tick_withinLap h.within hlength, fun _ => hthird, ?_, ?_⟩
  · rw [h.named.tick_offeredBy, List.map_append, List.map_singleton, List.pairwise_append]
    refine ⟨h.forward, List.pairwise_singleton _ _, fun a ha b hb => ?_⟩
    obtain ⟨frame, hframe, rfl⟩ := List.mem_map.1 ha
    rw [List.mem_singleton.1 hb]
    exact hlast frame hframe
  · intro frame hframe
    rw [h.named.tick_offeredBy, List.mem_append, List.mem_singleton] at hframe
    rw [hplace]
    rcases hframe with hframe | rfl
    · exact hlast frame hframe
    · exact le_rfl

section Run

variable (track : TrackProfile) (lapStart : Fin 20 → ℤ)

theorem sectorInv_init (hlength : 370 / 3600 * simSPerTick ≤ track.lengthKm) (i : Fin 20) :
    SectorInv (init track lapStart) i where
  named := named_init track lapStart
  within := init_withinLap i track lapStart hlength
  third := by
    rintro (h | h)
    · exact absurd rfl h
    · cases h
  forward := List.Pairwise.nil
  last := by rintro _ ⟨⟩

variable {track lapStart} in
theorem sectorInv_ticks (hlength : 370 / 3600 * simSPerTick ≤ track.lengthKm) {xs : List TickInput}
    (hkeeps : ∀ ys x, ys ++ [x] <+: xs → ((init track lapStart).ticks ys).KeepsSectors x)
    (i : Fin 20) : SectorInv ((init track lapStart).ticks xs) i := by
  induction xs using List.reverseRecOn with
  | nil => exact sectorInv_init track lapStart hlength i
  | append_singleton xs x ih =>
    have hbefore := ih fun ys y hpre => hkeeps ys y (hpre.trans (List.prefix_append xs [x]))
    rw [ticks_concat]
    refine hbefore.tick ?_ (hkeeps xs x List.prefix_rfl i)
    rw [ticks_track]
    exact hlength

variable {track lapStart} in
/-- The first tick that does not keep the sectors leaves one wrong. -/
theorem keepsSectors_of_right (hlength : 370 / 3600 * simSPerTick ≤ track.lengthKm)
    {xs : List TickInput}
    (hright : ∀ ys x, ys ++ [x] <+: xs → ((init track lapStart).ticks (ys ++ [x])).SectorsRight) :
    ∀ ys x, ys ++ [x] <+: xs → ((init track lapStart).ticks ys).KeepsSectors x := by
  induction xs using List.reverseRecOn with
  | nil =>
    intro ys x hpre
    exact absurd (List.prefix_nil.1 hpre) (List.append_ne_nil_of_right_ne_nil ys (by simp))
  | append_singleton xs z ih =>
    have hkept := ih fun ys x hpre => hright ys x (hpre.trans (List.prefix_append xs [z]))
    intro ys x hpre
    rcases List.prefix_concat_iff.1 hpre with heq | hpre
    · obtain ⟨rfl, rfl⟩ := List.append_singleton_inj.1 heq
      intro i
      have hthird := hright ys x hpre i
      rw [ticks_concat] at hthird
      refine (tick_inThird_iff (sectorInv_ticks hlength hkept i) ?_ x).1 hthird
      rw [ticks_track]
      exact hlength
    · exact hkept ys x hpre

/-- Along a run the frames go forward and the sectors are right after every tick exactly if every
tick keeps the sectors. -/
theorem telemetry_forward_iff (hlength : 370 / 3600 * simSPerTick ≤ track.lengthKm)
    (xs : List TickInput) :
    ((init track lapStart).ticks xs).Forward
        ∧ (∀ ys x, ys ++ [x] <+: xs → ((init track lapStart).ticks (ys ++ [x])).SectorsRight)
      ↔ ∀ ys x, ys ++ [x] <+: xs → ((init track lapStart).ticks ys).KeepsSectors x := by
  constructor
  · rintro ⟨-, hright⟩
    exact keepsSectors_of_right hlength hright
  · intro hkeeps
    refine ⟨fun i => (sectorInv_ticks hlength hkeeps i).forward, fun ys x hpre i => ?_⟩
    have hinv : SectorInv ((init track lapStart).ticks ys) i :=
      sectorInv_ticks hlength (fun zs z hzs => hkeeps zs z
        (hzs.trans ((List.prefix_append ys [x]).trans hpre))) i
    rw [ticks_concat]
    refine (tick_inThird_iff hinv ?_ x).2 (hkeeps ys x hpre i)
    rw [ticks_track]
    exact hlength

end Run

/-- On the short track VER goes a lap in each tick, and seven more do so in the second: a car that
completes a lap at top speed ends where it began, and these begin in the last third. -/
def lastThirdLaps : List TickInput :=
  [paced (fun i => i = 0) 20000000, paced (fun i => i ≤ 7) 40000000]

theorem telemetry_forward_iff_lastThird :
    let start := init shortTrack fun _ => 0
    let g := start.ticks lastThirdLaps
    ((g.states 0).latestFrame.lap = 3 ∧ (g.states 7).latestFrame.lap = 2
        ∧ (g.states 8).latestFrame.lap = 1)
      ∧ g.Forward
      ∧ ∀ ys x, ys ++ [x] <+: lastThirdLaps → (start.ticks (ys ++ [x])).SectorsRight := by
  intro start g
  have hfirst : ((init shortTrack fun _ => 0).ticks []).KeepsSectors
      (paced (fun i => i = 0) 20000000) := by
    unfold KeepsSectors DriverState.KeepsSector
    decide +kernel
  have hsecond : ((init shortTrack fun _ => 0).ticks [paced (fun i => i = 0) 20000000]).KeepsSectors
      (paced (fun i => i ≤ 7) 40000000) := by
    unfold KeepsSectors DriverState.KeepsSector
    decide +kernel
  refine ⟨by decide +kernel, (telemetry_forward_iff shortTrack (fun _ => 0) le_rfl _).2 ?_⟩
  intro ys x hpre
  rw [lastThirdLaps] at hpre
  rcases ys with _ | ⟨y, _ | ⟨z, zs⟩⟩
  · obtain ⟨rfl, -⟩ := List.cons_prefix_cons.1 hpre
    exact hfirst
  · obtain ⟨rfl, hrest⟩ := List.cons_prefix_cons.1 hpre
    obtain ⟨rfl, -⟩ := List.cons_prefix_cons.1 hrest
    exact hsecond
  · have hlength := hpre.length_le
    simp at hlength

/-! ### The first lap on the short track

In the first tick every car goes as far as the track is long. So VER, 190 m ahead of the line on the
grid, is there again after it, in the last third, and the last car, BEA, is at the line: its frame
says lap 2, sector 3. In the next tick it brakes, and its frame says lap 2, sector 1. -/

def everyoneBrakes (now : ℤ) : TickInput := fun _ => ⟨-1000, now⟩

namespace FlatOut

variable {k : ℤ} {i : Fin 20} {s : DriverState}

theorem shortTrack_pos : 0 < shortTrack.lengthKm := by
  unfold shortTrack simSPerTick timeScale tickS
  norm_num

theorem place_advance (h : FlatOut k i s) (now : ℤ) :
    (s.advance shortTrack ⟨100, now⟩).latestFrame.place = toLex (k + 2, 3) := by
  have hlap := (h.advance now).lap
  have hsector := DriverState.drive_sector_of_crosses shortTrack_pos h.crossesLine
  rw [s.advance_of_crosses shortTrack (x := ⟨100, now⟩) h.crossesLine] at hlap ⊢
  unfold TelemetryFrame.place
  rw [hlap, DriverState.completeLap_sector, hsector, add_assoc]
  rfl

theorem place_braking (h : FlatOut k 19 s) (now : ℤ) :
    (s.advance shortTrack ⟨-1000, now⟩).latestFrame.place = toLex (k + 1, 1) := by
  have hsector : min 3 (truncate ((s.distanceInLap + s.speedKph (-1000) / 3600 * simSPerTick)
      / (shortTrack.lengthKm / 3)) + 1) = 1 := by
    rw [h.distance, h.speedKph_braking]
    decide +kernel
  rw [s.advance_of_not_crosses shortTrack (x := ⟨-1000, now⟩) h.inPit h.not_crossesLine_braking]
  unfold TelemetryFrame.place
  rw [DriverState.drive_lap, h.lap]
  exact congrArg (fun sector => toLex (k + 1, sector)) hsector

theorem not_keepsSector (h : FlatOut k 19 s) (now : ℤ) :
    ¬ s.KeepsSector shortTrack ⟨100, now⟩ := by
  intro hkeeps
  have hfar := hkeeps h.crossesLine
  rw [h.distance, h.speedKph_eq] at hfar
  revert hfar
  decide +kernel

end FlatOut

/-- BEA's frames of the first two ticks go back, and its sector is wrong after the first. -/
theorem not_telemetry_forward :
    370 / 3600 * simSPerTick ≤ shortTrack.lengthKm
      ∧ ¬ ((init shortTrack fun _ => 0).ticks
        [flatOut 20000000, everyoneBrakes 40000000]).Forward
      ∧ ¬ ((init shortTrack fun _ => 0).ticks [flatOut 20000000]).SectorsRight := by
  have hgrid : Formation 0 (init shortTrack fun _ => 0) := Formation.init
  have hlap : Formation (0 + 1) ((init shortTrack fun _ => 0).tick (flatOut 20000000)) :=
    hgrid.tick (by omega) 20000000
  have hnamed := named_init shortTrack fun _ => 0
  rw [ticks_cons, ticks_cons, ticks_nil, ticks_cons, ticks_nil]
  refine ⟨le_rfl, fun hforward => ?_, fun hright => ?_⟩
  · have hframes := hforward 19
    rw [(hnamed.tick _).tick_offeredBy, hnamed.tick_offeredBy, List.map_append, List.map_append,
      List.map_singleton, List.map_singleton, List.pairwise_append] at hframes
    have hle := hframes.2.2 _ (List.mem_append_right _ (List.mem_singleton.2 rfl)) _
      (List.mem_singleton.2 rfl)
    rw [hlap.track, hgrid.track] at hle
    have hfirst := (hgrid.flatOut 19).place_advance 20000000
    have hnext := (hlap.flatOut 19).place_braking 40000000
    have hback := hfirst.symm.trans_le (hle.trans_eq hnext)
    revert hback
    decide
  · have hkeeps := (tick_inThird_iff (sectorInv_init shortTrack (fun _ => 0) le_rfl 19) le_rfl _).1
      (hright 19)
    exact (hgrid.flatOut 19).not_keepsSector 20000000 hkeeps

end TelemetryGenerator

end RaceConditionZ
