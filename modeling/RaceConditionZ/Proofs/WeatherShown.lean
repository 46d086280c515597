import RaceConditionZ.Proofs.Screens
import RaceConditionZ.Proofs.WeatherSerial

/-!
# The weather on the screens

The main thread reads the state and the grip one after the other, while a worker may store a change.
So a screen may show the grip of a later state than it names, but no screen goes back, and as the
throttle leaves one change for each five laps, the lap of a screen bounds what was shown before it.
-/

namespace RaceConditionZ

open Transition

/-- When a screen's weather was read: its lap, and how many changes were stored at the reads of the
state and of the grip. -/
structure WeatherRead where
  lap : ℤ
  current : ℕ
  grip : ℕ

/-- One screen before another. -/
structure WeatherRead.Before (a b : WeatherRead) : Prop where
  changes : a.grip ≤ b.current
  laps : 5 * (a.grip : ℤ) ≤ b.lap

/-- The screen shows the weather as it was read. -/
structure Screen.Weathered (read : WeatherRead) (screen : Screen) : Prop where
  lap : screen.lap = read.lap
  weather : screen.weather = WeatherState.next^[read.current] .dry
  grip : screen.gripFactor = WeatherSystem.gripFactor ⟨WeatherState.next^[read.grip] .dry, 0⟩
  ordered : read.current ≤ read.grip

theorem WeatherSystem.gripFactor_of_state {w : WeatherSystem} {state : WeatherState}
    (h : w.state = state) : w.gripFactor = WeatherSystem.gripFactor ⟨state, 0⟩ := by
  unfold gripFactor
  rw [h]

/-- A call of `update` taken up was submitted, with the lap of its tick. -/
theorem RaceControlState.submitted_of_updateLap {start : TelemetryGenerator} {c : RaceControlState}
    (h : (raceControlSystem start).Reachable c) {lap : ℤ} (hlap : lap ∈ c.updateLaps) :
    ∃ x ∈ c.submissions, lap = (start.ticks (c.inputs.take x.2)).raceLap := by
  obtain ⟨⟨w, task⟩, hdequeued, htask⟩ := List.mem_filterMap.1 hlap
  have haccepted : task ∈ c.pool.history.accepted := by
    rw [← (poolInv_reachable (pool_reachable h)).order]
    exact List.mem_append_left _ (List.mem_map.2 ⟨_, hdequeued, rfl⟩)
  have hjob : task.callable ∈ c.submissions.map (jobOf start c.inputs) := by
    rw [(submitted_reachable h).jobs]
    exact List.mem_append_left _ (List.mem_map_of_mem haccepted)
  obtain ⟨⟨kind, n⟩, hsubmission, hjob⟩ := List.mem_map.1 hjob
  refine ⟨_, hsubmission, ?_⟩
  rw [show (w, task).2.callable = _ from hjob.symm] at htask
  cases kind with
  | check => cases htask
  | update => exact (Option.some.inj htask).symm

namespace ProgramState

variable {θ : Type} [DecidableEq θ] {tid : θ} {start : TelemetryGenerator} {s s' : ProgramState θ}

section Laps

/-- What the callback submits, it submits in the tick whose lap it has set. -/
theorem submissions_le (h : (programSystem tid start).Reachable s) :
    ∀ x ∈ s.submissions, x.2 ≤ s.tickCounter := by
  refine h.invariant (I := fun s => ∀ x ∈ s.submissions, x.2 ≤ s.tickCounter)
    (fun x hx => absurd hx List.not_mem_nil) ?_
  intro s l s' hs hI _ hst
  cases move_of_step hst with
  | @callback l k c hl hpc hcallback =>
    have hcounter := (programInv hs).counter
    rw [if_neg (RunPc.ne_setLap_of_inCallback hpc), Nat.add_zero] at hcounter
    have hsubmissions : c.submissions = s.submissions
        ∨ ∃ kind, c.submissions = s.submissions ++ [(kind, s.inputs.length)] := by
      cases RaceControlState.move_of_step hcallback with
      | @callSubmit _ kind => exact .inr ⟨kind, rfl⟩
      | _ => exact .inl rfl
    rintro x hx
    rcases hsubmissions with heq | ⟨kind, heq⟩
    · exact hI x (heq ▸ hx)
    · rcases List.mem_append.1 (heq ▸ (show x ∈ c.submissions from hx)) with hx | hx
      · exact hI x hx
      · rw [List.mem_singleton.1 hx]
        exact hcounter.ge
  | setLap => exact fun x hx => (hI x hx).trans (Nat.le_succ _)
  | console hmove => cases hmove <;> exact hI
  | _ => exact hI

variable {track : TrackProfile} {lapStart : Fin 20 → ℤ}

/-- A call of `update` has a lap that is set. -/
theorem updateLaps_le (h : (programSystem tid (.init track lapStart)).Reachable s) :
    ∀ lap ∈ (s.raceControlSide (.init track lapStart)).updateLaps,
      lap ≤ s.pipeline.race.currentLap := by
  intro lap hlap
  obtain ⟨x, hx, rfl⟩ := RaceControlState.submitted_of_updateLap (raceControl_reachable h) hlap
  rw [(screenInv h).lap]
  exact TelemetryGenerator.raceLap_le_of_prefix (List.take_prefix_take_left (submissions_le h x hx))

theorem currentLap_nonneg (h : (programSystem tid (.init track lapStart)).Reachable s) :
    0 ≤ s.pipeline.race.currentLap := by
  rw [(screenInv h).lap]
  have hstart : (0 : ℤ) ≤ (TelemetryGenerator.init track lapStart).raceLap := Int.zero_le_ofNat 1
  exact hstart.trans (TelemetryGenerator.raceLap_le_ticks _ _)

/-- The changes of calls made one after the other are no more than the lap on the screen allows. -/
theorem five_changes_le_currentLap (h : (programSystem tid (.init track lapStart)).Reachable s)
    {calls : List WeatherSystem.Call} {stored : ℕ}
    (hserial : RaceControlState.Serial calls stored (s.raceControlSide (.init track lapStart))) :
    5 * (WeatherSystem.changes calls : ℤ) ≤ s.pipeline.race.currentLap := by
  refine (WeatherSystem.five_changes_le calls).trans
    (WeatherSystem.lastUpdateLap_le (currentLap_nonneg h) fun call hcall => ?_)
  exact updateLaps_le h _ (hserial.calls_prefix.subset (List.mem_map_of_mem hcall))

end Laps

section Shown

variable (s) in
/-- What the main thread has read of the weather for the screen in progress. -/
def Watching (reads : List WeatherRead) (stored : ℕ) : ConsolePc → Prop
  | .getWeather _ lap => ∀ a ∈ reads, 5 * (a.grip : ℤ) ≤ lap
  | .getGrip _ lap weather => ∃ n, n ≤ stored ∧ weather = WeatherState.next^[n] .dry
    ∧ ∀ a ∈ reads, a.Before ⟨lap, n, n⟩
  | .rows screen _ => ∃ read : WeatherRead, screen.Weathered read ∧ (∀ a ∈ reads, a.Before read)
    ∧ read.grip ≤ stored
  | _ => True

theorem Watching.mono {reads : List WeatherRead} {stored stored' : ℕ} (hle : stored ≤ stored')
    {pc : ConsolePc} (h : Watching reads stored pc) : Watching reads stored' pc := by
  unfold Watching at h ⊢
  split at h
  · exact h
  · obtain ⟨n, hn, hrest⟩ := h
    exact ⟨n, hn.trans hle, hrest⟩
  · obtain ⟨read, hshows, hbefore, hgrip⟩ := h
    exact ⟨read, hshows, hbefore, hgrip.trans hle⟩
  · trivial

/-- The screens show the weather of calls made one after the other. -/
structure WeatherInv (start : TelemetryGenerator) (calls : List WeatherSystem.Call) (stored : ℕ)
    (reads : List WeatherRead) (s : ProgramState θ) : Prop where
  serial : RaceControlState.Serial calls stored (s.raceControlSide start)
  shown : List.Forall₂ Screen.Weathered reads s.screens
  ordered : reads.Pairwise WeatherRead.Before
  stored_le : ∀ a ∈ reads, a.grip ≤ stored
  watching : Watching reads stored s.main

variable {track : TrackProfile} {lapStart : Fin 20 → ℤ} {calls : List WeatherSystem.Call}
  {stored : ℕ} {reads : List WeatherRead}

/-- What the main thread's step makes of what it has read. -/
theorem WeatherInv.console (h : WeatherInv (.init track lapStart) calls stored reads s)
    (hs : (programSystem tid (.init track lapStart)).Reachable s) (hmove : s.ConsoleMove s') :
    ∃ reads', List.Forall₂ Screen.Weathered reads' s'.screens
      ∧ reads'.Pairwise WeatherRead.Before ∧ (∀ a ∈ reads', a.grip ≤ stored)
      ∧ Watching reads' stored s'.main := by
  have hkeep : ∀ {main : ConsolePc}, Watching reads stored main → ∃ reads',
      List.Forall₂ Screen.Weathered reads' s.screens ∧ reads'.Pairwise WeatherRead.Before
        ∧ (∀ a ∈ reads', a.grip ≤ stored) ∧ Watching reads' stored main :=
    fun hwatching => ⟨reads, h.shown, h.ordered, h.stored_le, hwatching⟩
  have hwatching := h.watching
  have hstate : s.weather.state = WeatherState.next^[stored] .dry := h.serial.state
  cases hmove with
  | getLap hmain =>
    refine hkeep fun a ha => ?_
    have hchanges := five_changes_le_currentLap hs h.serial
    have hcount := h.serial.count
    have hstored := h.stored_le a ha
    omega
  | getWeather hmain =>
    rw [hmain] at hwatching
    exact hkeep ⟨stored, le_rfl, hstate, fun a ha => ⟨h.stored_le a ha, hwatching a ha⟩⟩
  | @getGrip standings lap weather hmain =>
    rw [hmain] at hwatching
    obtain ⟨n, hn, hweather, hbefore⟩ := hwatching
    refine hkeep ⟨⟨lap, n, stored⟩, ⟨rfl, hweather, ?_, hn⟩, fun a ha => ?_, le_rfl⟩
    · exact WeatherSystem.gripFactor_of_state hstate
    · exact ⟨(hbefore a ha).changes, (hbefore a ha).laps⟩
  | row hmain =>
    rw [hmain] at hwatching
    obtain ⟨read, ⟨hlap, hweather, hgrip, hle⟩, hrest⟩ := hwatching
    exact hkeep ⟨read, ⟨hlap, hweather, hgrip, hle⟩, hrest⟩
  | shown hmain =>
    rw [hmain] at hwatching
    obtain ⟨read, hshows, hbefore, hle⟩ := hwatching
    refine ⟨reads ++ [read], List.rel_append h.shown (.cons hshows .nil), ?_, ?_, trivial⟩
    · refine List.pairwise_append.2 ⟨h.ordered, List.pairwise_singleton _ _, ?_⟩
      intro a ha b hb
      rw [List.mem_singleton.1 hb]
      exact hbefore a ha
    · intro a ha
      rcases List.mem_append.1 ha with ha | ha
      · exact h.stored_le a ha
      · rw [List.mem_singleton.1 ha]
        exact hle
  | destroy => exact hkeep hwatching
  | _ => exact hkeep trivial

theorem WeatherInv.step (h : WeatherInv (.init track lapStart) calls stored reads s)
    (hs : (programSystem tid (.init track lapStart)).Reachable s) {l : ProgramLabel}
    (hst : s.step tid l = some s') :
    ∃ calls' stored' reads', WeatherInv (.init track lapStart) calls' stored' reads' s' := by
  have hmove := move_of_step hst
  obtain ⟨calls', stored', -, hle, hserial⟩ := h.serial.leads (raceControl_reachable hs)
    (hmove.on_raceControl (programInv hs))
  obtain ⟨reads', hshown, hordered, hstored, hwatching⟩ : ∃ reads',
      List.Forall₂ Screen.Weathered reads' s'.screens ∧ reads'.Pairwise WeatherRead.Before
        ∧ (∀ a ∈ reads', a.grip ≤ stored) ∧ Watching reads' stored s'.main := by
    cases hmove with
    | console hmove => exact h.console hs hmove
    | _ => exact ⟨reads, h.shown, h.ordered, h.stored_le, h.watching⟩
  exact ⟨calls', stored', reads', hserial, hshown, hordered, fun a ha => (hstored a ha).trans hle,
    hwatching.mono hle⟩

variable (tid) (track) (lapStart) in
/-- The weather is that of calls of `update` made one after the other, on the laps of the ticks that
submitted them: they are the calls that a worker has taken up, but for one that is at its draw. And
screen after screen shows the weather as it was at some moment of the reading. -/
theorem weather_shown (h : (programSystem tid (.init track lapStart)).Reachable s) :
    ∃ (calls : List WeatherSystem.Call) (reads : List WeatherRead),
      s.raceControl.settled = Mealy.after WeatherSystem.update .start calls
        ∧ ((∀ w, s.jobs w ≠ .draw) ∧ s.raceControl.updateLaps = calls.map WeatherSystem.Call.lap
          ∨ ∃ w ticket lap, s.jobs w = .draw
            ∧ s.pool.pool.workers w = .running ⟨ticket, .update lap⟩
            ∧ s.raceControl.updateLaps = calls.map WeatherSystem.Call.lap ++ [lap])
        ∧ List.Forall₂ Screen.Weathered reads s.screens ∧ reads.Pairwise WeatherRead.Before
        ∧ (∀ read ∈ reads, read.grip ≤ WeatherSystem.changes calls)
        ∧ 5 * (WeatherSystem.changes calls : ℤ) ≤ s.pipeline.race.currentLap := by
  have hinit : WeatherInv (.init track lapStart) [] 0 []
      (.init (.init track lapStart) : ProgramState θ) :=
    ⟨RaceControlState.serial_init _, .nil, .nil, fun _ ha => absurd ha List.not_mem_nil, trivial⟩
  obtain ⟨calls, stored, reads, hinv⟩ : ∃ calls stored reads,
      WeatherInv (.init track lapStart) calls stored reads s := by
    refine h.invariant
      (I := fun s => ∃ calls stored reads, WeatherInv (.init track lapStart) calls stored reads s)
      ⟨[], 0, [], hinit⟩ ?_
    rintro s l s' hs ⟨calls, stored, reads, hinv⟩ - hst
    exact hinv.step hs hst
  refine ⟨calls, reads, hinv.serial.settled, hinv.serial.laps, hinv.shown, hinv.ordered,
    fun read hread => ?_, five_changes_le_currentLap h hinv.serial⟩
  rw [← hinv.serial.count]
  exact (hinv.stored_le read hread).trans (Nat.le_add_right _ _)

/-- Four ticks of a lap each, with a screen after the first and one at the end. The call of `update`
that the first tick submits comes too early; that of the fourth stores a change. -/
def changeAtLapFive : List ProgramLabel :=
  let tick (now : ℤ) : List ProgramLabel := List.replicate 143 (.generate ⟨0, now⟩)
  let screen : List ProgramLabel := List.replicate 16 (.main false)
  let update : List ProgramLabel := List.replicate 4 (.worker 0 0 0)
  let submit : List ProgramLabel := List.replicate 6 (.callback 0)
  let skip : List ProgramLabel := List.replicate 3 (.callback 0)
  let drain : List ProgramLabel := [.drain false, .process 0, .process 0]
  [tick 20000000, submit, drain, screen, tick 40000000, skip, drain, tick 60000000, skip, drain,
    update, tick 80000000, submit, update, screen].flatten

theorem weather_shown_changeAtLapFive :
    let M := programSystem () (.init { defaultTrack with lengthKm := 0.25 } fun _ => 0)
    ∃ s, M.Reachable s
      ∧ s.screens.map (fun screen => (screen.lap, screen.weather)) = [(2, .dry), (5, .damp)]
      ∧ ∃ calls reads, calls.map WeatherSystem.Call.lap = [2, 5]
        ∧ s.raceControl.settled = Mealy.after WeatherSystem.update .start calls
        ∧ List.Forall₂ Screen.Weathered reads s.screens ∧ reads.Pairwise WeatherRead.Before := by
  intro M
  have hrun : (M.run M.init changeAtLapFive).any (fun s => decide
      (s.screens.map (fun screen => (screen.lap, screen.weather)) = [(2, .dry), (5, .damp)]
        ∧ (∀ w, s.jobs w ≠ .draw) ∧ s.raceControl.updateLaps = [2, 5])) = true := by
    decide +kernel
  rw [Option.any_eq_true] at hrun
  obtain ⟨s, hs, hfacts⟩ := hrun
  rw [decide_eq_true_eq] at hfacts
  obtain ⟨hscreens, hdrawn, hlaps⟩ := hfacts
  have hreach : M.Reachable s := System.Reachable.leads .init (System.leads_of_run hs)
  obtain ⟨calls, reads, hsettled, hcalls, hshown, hordered, -⟩ := weather_shown () _ _ hreach
  refine ⟨s, hreach, hscreens, calls, reads, ?_, hsettled, hshown, hordered⟩
  rcases hcalls with ⟨-, hcalls⟩ | ⟨w, -, -, hdraw, -⟩
  · exact hcalls.symm.trans hlaps
  · exact absurd hdraw (hdrawn w)

end Shown

end ProgramState

end RaceConditionZ
