import RaceConditionZ.Proofs.PitEntry

/-!
# The pit stop

A driver is before its stop, in it with so many ticks left, or past it, and that phase tells the
five fields that two structs keep of it. A stop begins with a completed lap, and `handlePit` then
counts it down whatever the draws; past it `shouldPit` lets nobody in again.
-/

namespace RaceConditionZ

/-- How far a driver is with its one stop. -/
inductive StopPhase
  | ahead
  | standing (left : ℤ)
  | behind

namespace StopPhase

/-- The phase after a tick; `enters` tells whether the driver turns in. -/
def next (enters : Prop) [Decidable enters] : StopPhase → StopPhase
  | .ahead => if enters then .standing pitStopTicks else .ahead
  | .standing left => if left ≤ 1 then .behind else .standing (left - 1)
  | .behind => .behind

def isStanding : StopPhase → Bool
  | .standing _ => true
  | .ahead | .behind => false

def begun : StopPhase → Bool
  | .ahead => false
  | .standing _ | .behind => true

def stops : StopPhase → ℤ
  | .ahead | .standing _ => 0
  | .behind => 1

/-- The frames offered so far with the flag set, that of the entry included. -/
def frames : StopPhase → ℤ
  | .ahead => 0
  | .standing left => pitStopTicks + 1 - left
  | .behind => pitStopTicks

/-- The ticks stood still so far. -/
def stood : StopPhase → ℤ
  | .ahead => 0
  | .standing left => pitStopTicks - left
  | .behind => pitStopTicks

/-- The phase some ticks after one with `left` to go. -/
def after (left n : ℤ) : StopPhase := if n < left then .standing (left - n) else .behind

section Next

variable {enters : Prop} [Decidable enters] {left : ℤ}

theorem next_ahead_of_enters (h : enters) : next enters .ahead = .standing pitStopTicks := if_pos h

theorem next_ahead_of_stays (h : ¬ enters) : next enters .ahead = .ahead := if_neg h

theorem next_standing_of_last (h : left ≤ 1) : next enters (.standing left) = .behind := if_pos h

theorem next_standing_of_more (h : 1 < left) :
    next enters (.standing left) = .standing (left - 1) := if_neg (not_le.2 h)

theorem next_behind : next enters .behind = .behind := rfl

theorem next_after (n : ℤ) : next enters (after left n) = after left (n + 1) := by
  unfold after
  by_cases h : n < left
  · rw [if_pos h]
    by_cases hlast : left - n ≤ 1
    · rw [next_standing_of_last hlast, if_neg (by omega)]
    · rw [next_standing_of_more (by omega), if_pos (by omega), sub_sub]
  · rw [if_neg h, if_neg (by omega), next_behind]

end Next

end StopPhase

namespace DriverState

variable {s : DriverState} {track : TrackProfile} {x : DriverInput} {p : StopPhase}

variable (s) in
/-- What the fields say of the stop. -/
structure InPhase (p : StopPhase) : Prop where
  inPit : s.inPit = p.isStanding
  frame : s.latestFrame.inPit = p.isStanding
  completed : s.hasCompletedPit = p.begun
  pitStops : s.pitStops = p.stops
  timer : ∀ left, p = .standing left → s.pitTimerTicks = left ∧ 1 ≤ left ∧ left ≤ pitStopTicks

theorem handlePit_lapStart : s.handlePit.lapStart = s.lapStart :=
  s.handlePit_field (f := DriverState.lapStart) rfl rfl

theorem handlePit_bestLapMs : s.handlePit.bestLapMs = s.bestLapMs :=
  s.handlePit_field (f := DriverState.bestLapMs) rfl rfl

/-- The tick that releases the driver. -/
theorem handlePit_of_last (h : s.pitTimerTicks ≤ 1) :
    s.handlePit.inPit = false ∧ s.handlePit.latestFrame.inPit = false
      ∧ s.handlePit.hasCompletedPit = s.hasCompletedPit
      ∧ s.handlePit.pitStops = s.pitStops + 1
      ∧ s.handlePit.latestFrame.tireWear = 0.02 ∧ s.handlePit.latestFrame.fuelKg = 100 := by
  have hlast : s.pitTick.pitTimerTicks ≤ 0 := by
    show s.pitTimerTicks - 1 ≤ 0
    omega
  rw [handlePit_eq, if_pos hlast]
  exact ⟨rfl, rfl, rfl, rfl, rfl, rfl⟩

/-- A tick of the stop before that. -/
theorem handlePit_of_more (h : 1 < s.pitTimerTicks) :
    s.handlePit.inPit = s.inPit ∧ s.handlePit.latestFrame.inPit = true
      ∧ s.handlePit.hasCompletedPit = s.hasCompletedPit
      ∧ s.handlePit.pitStops = s.pitStops ∧ s.handlePit.pitTimerTicks = s.pitTimerTicks - 1
      ∧ s.handlePit.latestFrame.tireWear = s.latestFrame.tireWear
      ∧ s.handlePit.latestFrame.fuelKg = s.latestFrame.fuelKg := by
  have hmore : ¬ s.pitTick.pitTimerTicks ≤ 0 := by
    show ¬ s.pitTimerTicks - 1 ≤ 0
    omega
  rw [handlePit_eq, if_neg hmore]
  exact ⟨rfl, rfl, rfl, rfl, rfl, rfl, rfl⟩

theorem not_entersPit_of_completed (h : s.hasCompletedPit = true) : ¬ s.EntersPit track x := by
  intro henter
  have hfirst : s.hasCompletedPit = false := (shouldPit_iff.1 henter.2).1
  rw [h] at hfirst
  cases hfirst

/-- A driver that stays on the track keeps its phase. -/
theorem InPhase.stays (h : s.InPhase p) (hpit : s.inPit = false) (hstays : ¬ s.EntersPit track x) :
    (s.advance track x).InPhase p := by
  rw [advance_of_not_entersPit hpit hstays]
  split <;> exact ⟨h.inPit, h.frame, h.completed, h.pitStops, h.timer⟩

theorem pitStopTicks_pos : 1 ≤ pitStopTicks := by decide

theorem InPhase.advance (h : s.InPhase p) (track : TrackProfile) (x : DriverInput) :
    (s.advance track x).InPhase (p.next (s.EntersPit track x)) := by
  cases p with
  | ahead =>
    by_cases henter : s.EntersPit track x
    · rw [henter.advance, StopPhase.next_ahead_of_enters henter]
      refine ⟨rfl, rfl, rfl, h.pitStops, fun left hleft => ?_⟩
      cases hleft
      exact ⟨rfl, pitStopTicks_pos, le_rfl⟩
    · rw [StopPhase.next_ahead_of_stays henter]
      exact h.stays h.inPit henter
  | standing left =>
    obtain ⟨htimer, hpos, hle⟩ := h.timer left rfl
    rw [s.advance_of_inPit track h.inPit]
    by_cases hlast : left ≤ 1
    · obtain ⟨hin, hframe, hcompleted, hstops, -⟩ := handlePit_of_last (s := s) (by omega)
      rw [StopPhase.next_standing_of_last hlast]
      refine ⟨hin, hframe, hcompleted.trans h.completed, ?_, fun _ => by rintro ⟨⟩⟩
      rw [hstops, h.pitStops]
      rfl
    · obtain ⟨hin, hframe, hcompleted, hstops, htimer', -⟩ :=
        handlePit_of_more (s := s) (by omega)
      rw [StopPhase.next_standing_of_more (not_le.1 hlast)]
      refine ⟨hin.trans h.inPit, hframe, hcompleted.trans h.completed, hstops.trans h.pitStops,
        fun left' hleft => ?_⟩
      cases hleft
      exact ⟨by omega, by omega, by omega⟩
  | behind => exact h.stays h.inPit (not_entersPit_of_completed h.completed)

/-- The frame of a tick carries the flag where it counts as one of the stop. -/
theorem InPhase.frames_next (h : s.InPhase p) (track : TrackProfile) (x : DriverInput) :
    (p.next (s.EntersPit track x)).frames
      = p.frames + if (s.advance track x).latestFrame.inPit then 1 else 0 := by
  rw [(h.advance track x).frame]
  cases p with
  | ahead =>
    by_cases henter : s.EntersPit track x
    · rw [StopPhase.next_ahead_of_enters henter]
      simp [StopPhase.frames, StopPhase.isStanding]
    · rw [StopPhase.next_ahead_of_stays henter]
      simp [StopPhase.isStanding]
  | standing left =>
    by_cases hlast : left ≤ 1
    · have hpos := (h.timer left rfl).2.1
      rw [StopPhase.next_standing_of_last hlast]
      simp only [StopPhase.frames, StopPhase.isStanding, Bool.false_eq_true, if_false]
      omega
    · rw [StopPhase.next_standing_of_more (not_le.1 hlast)]
      simp only [StopPhase.frames, StopPhase.isStanding, if_true]
      omega
  | behind => simp [StopPhase.next_behind, StopPhase.isStanding]

end DriverState

namespace TelemetryGenerator

variable {g : TelemetryGenerator} {i : Fin 20} {p : StopPhase}

/-- The phase a driver is in after some ticks, and the frames it has offered of its stop. -/
structure StopInv (g : TelemetryGenerator) (i : Fin 20) (p : StopPhase) : Prop where
  named : g.Named
  phase : (g.states i).InPhase p
  frames : ((g.offeredBy i).countP (·.inPit) : ℤ) = p.frames

theorem StopInv.tick (h : StopInv g i p) (x : TickInput) :
    StopInv (g.tick x) i (p.next ((g.states i).EntersPit g.track (x i))) := by
  have hphase := h.phase.advance g.track (x i)
  refine ⟨h.named.tick x, ?_, ?_⟩
  · obtain ⟨position, gap, drs, hplace⟩ := g.exists_place x i
    rw [hplace]
    exact ⟨hphase.inPit, hphase.frame, hphase.completed, hphase.pitStops, hphase.timer⟩
  · rw [h.named.tick_offeredBy, List.countP_append, List.countP_singleton,
      h.phase.frames_next g.track (x i), ← h.frames]
    split <;> simp_all

theorem stopInv_init (track : TrackProfile) (lapStart : Fin 20 → ℤ) (i : Fin 20) :
    StopInv (init track lapStart) i .ahead where
  named := named_init track lapStart
  phase := ⟨rfl, rfl, rfl, rfl, fun _ => by rintro ⟨⟩⟩
  frames := rfl

theorem exists_stopInv (h : StopInv g i p) (xs : List TickInput) :
    ∃ p', StopInv (g.ticks xs) i p' := by
  induction xs generalizing g p with
  | nil => exact ⟨p, by rwa [ticks_nil]⟩
  | cons x xs ih =>
    rw [ticks_cons]
    exact ih (h.tick x)

/-- From the entry on the phases come with the ticks, whatever the draws. -/
theorem StopInv.ticks {left n : ℤ} (h : StopInv g i (.after left n)) (zs : List TickInput) :
    StopInv (g.ticks zs) i (.after left (n + zs.length)) := by
  induction zs generalizing g n with
  | nil =>
    rw [ticks_nil, List.length_nil, Nat.cast_zero, add_zero]
    exact h
  | cons z zs ih =>
    have hnext := h.tick z
    rw [StopPhase.next_after] at hnext
    have hrest := ih hnext
    rw [ticks_cons, List.length_cons]
    rw [add_assoc, add_comm 1] at hrest
    exact_mod_cast hrest

/-- What a stop leaves alone. -/
structure SameStint (s s' : DriverState) : Prop where
  lap : s'.latestFrame.lap = s.latestFrame.lap
  distance : s'.distanceInLap = s.distanceInLap
  lapStart : s'.lapStart = s.lapStart
  best : s'.bestLapMs = s.bestLapMs

theorem SameStint.trans {s s' s'' : DriverState} (h : SameStint s s') (h' : SameStint s' s'') :
    SameStint s s'' where
  lap := h'.lap.trans h.lap
  distance := h'.distance.trans h.distance
  lapStart := h'.lapStart.trans h.lapStart
  best := h'.best.trans h.best

theorem sameStint_tick (hpit : (g.states i).inPit = true) (x : TickInput) :
    SameStint (g.states i) ((g.tick x).states i) := by
  obtain ⟨position, gap, drs, hplace⟩ := g.exists_place x i
  rw [hplace, DriverState.advance_of_inPit _ _ hpit]
  exact ⟨DriverState.handlePit_lap _, DriverState.handlePit_distanceInLap _,
    DriverState.handlePit_lapStart, DriverState.handlePit_bestLapMs⟩

theorem StopInv.sameStint {left n : ℤ} (h : StopInv g i (.after left n)) {zs : List TickInput}
    (hle : n + zs.length ≤ left) : SameStint (g.states i) ((g.ticks zs).states i) := by
  induction zs generalizing g n with
  | nil =>
    rw [ticks_nil]
    exact ⟨rfl, rfl, rfl, rfl⟩
  | cons z zs ih =>
    rw [List.length_cons] at hle
    push_cast at hle
    have hpit : (g.states i).inPit = true := by
      rw [h.phase.inPit, StopPhase.after, if_pos (by omega)]
      rfl
    have hnext := h.tick z
    rw [StopPhase.next_after] at hnext
    rw [ticks_cons]
    exact (sameStint_tick hpit z).trans (ih hnext (by omega))

/-- The tick in which a driver turns in. -/
structure TurnsIn (s entered : DriverState) : Prop where
  lap : entered.latestFrame.lap = s.latestFrame.lap + 1
  late : 5 ≤ entered.latestFrame.lap
  worn : 0.60 + 0.25 * entered.profile.tireMgmt ≤ entered.latestFrame.tireWear
  pitStops : s.pitStops = 0

/-- Driver `i`, which turned in as `entered`, `n` ticks later. -/
structure StopAfter (entered : DriverState) (g : TelemetryGenerator) (i : Fin 20) (n : ℕ) :
    Prop where
  inPit : (g.states i).inPit = true ↔ (n : ℤ) < pitStopTicks
  still : (n : ℤ) ≤ pitStopTicks → SameStint entered (g.states i)
  released : (n : ℤ) = pitStopTicks →
    (g.states i).latestFrame.tireWear = 0.02 ∧ (g.states i).latestFrame.fuelKg = 100
  pitStops : (g.states i).pitStops = if (n : ℤ) < pitStopTicks then 0 else 1
  frames : ((g.offeredBy i).countP (·.inPit) : ℤ) = min (n + 1 : ℤ) pitStopTicks

theorem StopInv.released (h : StopInv g i (.standing 1)) (x : TickInput) :
    ((g.tick x).states i).latestFrame.tireWear = 0.02
      ∧ ((g.tick x).states i).latestFrame.fuelKg = 100 := by
  have htimer := (h.phase.timer 1 rfl).1
  obtain ⟨-, -, -, -, hwear, hfuel⟩ :=
    DriverState.handlePit_of_last (s := g.states i) htimer.le
  obtain ⟨position, gap, drs, hplace⟩ := g.exists_place x i
  rw [hplace, DriverState.advance_of_inPit _ _ h.phase.inPit]
  exact ⟨hwear, hfuel⟩

theorem StopInv.stopAfter (h : StopInv g i (.standing pitStopTicks)) (zs : List TickInput) :
    StopAfter (g.states i) (g.ticks zs) i zs.length := by
  have hstart : StopInv g i (.after pitStopTicks 0) := by
    rw [StopPhase.after, if_pos (by decide), sub_zero]
    exact h
  have hzs := hstart.ticks zs
  rw [zero_add] at hzs
  refine ⟨?_, fun hle => hstart.sameStint (by rwa [zero_add]), fun heq => ?_, ?_, ?_⟩
  · rw [hzs.phase.inPit, StopPhase.after]
    split_ifs with hlt <;> simp [StopPhase.isStanding, hlt]
  · -- the last of these ticks is the one that releases
    rcases List.eq_nil_or_concat zs with rfl | ⟨zs, z, rfl⟩
    · cases heq
    · rw [List.concat_eq_append, List.length_append, List.length_singleton] at heq
      push_cast at heq
      have hlast := hstart.ticks zs
      rw [zero_add, StopPhase.after, if_pos (by omega),
        show pitStopTicks - (zs.length : ℤ) = 1 by omega] at hlast
      rw [List.concat_eq_append, ticks_concat]
      exact hlast.released z
  · rw [hzs.phase.pitStops, StopPhase.after]
    split_ifs <;> rfl
  · rw [hzs.frames, StopPhase.after]
    split_ifs with hlt
    · rw [min_eq_left (by omega)]
      show pitStopTicks + 1 - (pitStopTicks - (zs.length : ℤ)) = zs.length + 1
      omega
    · rw [min_eq_right (by omega)]
      rfl

/-- The pit stop along every run: the two flags, the timer, what it takes to turn in, and what the
ticks from then on do. -/
theorem pit_stop_protocol (track : TrackProfile) (lapStart : Fin 20 → ℤ) (xs : List TickInput)
    (i : Fin 20) :
    let g := (init track lapStart).ticks xs
    (g.states i).latestFrame.inPit = (g.states i).inPit
      ∧ ((g.states i).inPit = true →
        1 ≤ (g.states i).pitTimerTicks ∧ (g.states i).pitTimerTicks ≤ pitStopTicks)
      ∧ ∀ x, (g.states i).inPit = false → ((g.tick x).states i).inPit = true →
        TurnsIn (g.states i) ((g.tick x).states i)
          ∧ (∀ zs, StopAfter ((g.tick x).states i) ((g.tick x).ticks zs) i zs.length)
          ∧ ∀ zs z, (((g.tick x).ticks zs).states i).inPit = false →
            ((((g.tick x).ticks zs).tick z).states i).inPit = false := by
  intro g
  obtain ⟨p, (h : StopInv g i p)⟩ := exists_stopInv (stopInv_init track lapStart i) xs
  refine ⟨h.phase.frame.trans h.phase.inPit.symm, fun hin => ?_, fun x hout hin => ?_⟩
  · rw [h.phase.inPit] at hin
    cases p with
    | standing left =>
      obtain ⟨htimer, hpos, hle⟩ := h.phase.timer left rfl
      exact ⟨by omega, by omega⟩
    | ahead | behind => cases hin
  · have henter : (g.states i).EntersPit g.track (x i) := by
      rw [tick_inPit] at hin
      exact (DriverState.advance_inPit_iff hout).1 hin
    have hahead : p = .ahead := by
      cases p with
      | ahead => rfl
      | standing left =>
        rw [h.phase.inPit] at hout
        cases hout
      | behind => exact absurd henter (DriverState.not_entersPit_of_completed h.phase.completed)
    subst hahead
    have hentered := h.tick x
    rw [StopPhase.next_ahead_of_enters henter] at hentered
    have hstop := hentered.stopAfter
    refine ⟨?_, hstop, fun zs z hbefore => ?_⟩
    · obtain ⟨-, hlate, hworn⟩ := DriverState.shouldPit_iff.1 henter.2
      obtain ⟨position, gap, drs, hplace⟩ := g.exists_place x i
      rw [hplace, henter.advance]
      refine ⟨rfl, hlate, ?_, h.phase.pitStops⟩
      rw [mul_comm]
      exact hworn
    · -- the stop is over, and one more tick does not begin another
      have hover := (hstop zs).inPit.not.1 (by rw [hbefore]; decide)
      rw [← Bool.not_eq_true, ← ticks_concat, (hstop (zs ++ [z])).inPit, List.length_append]
      push_cast
      omega

end TelemetryGenerator

end RaceConditionZ
