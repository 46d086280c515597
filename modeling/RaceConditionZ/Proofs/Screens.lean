import RaceConditionZ.Proofs.Boards
import RaceConditionZ.Proofs.LapAccounting
import RaceConditionZ.Proofs.ProgramSides

/-!
# What the screens show

The main thread reads the board, the lap and the weather one after the other, while the generator's
thread goes on. The board is the latest published, and the lap is read after it, but `set_lap` comes
after `update`: so the lap may be that of the tick before, and as a tick takes no driver further
than one lap, it is one behind the rows at most. From screen to screen neither goes back.
-/

namespace RaceConditionZ

open Transition

namespace TelemetryGenerator

variable {g : TelemetryGenerator}

theorem raceLap_le_of_prefix {ys zs : List TickInput} (h : ys <+: zs) :
    (g.ticks ys).raceLap ≤ (g.ticks zs).raceLap := by
  obtain ⟨xs, rfl⟩ := h
  rw [ticks_append]
  exact raceLap_le_ticks _ xs

/-- A tick takes the race one lap further at most. -/
theorem RaceLapMax.tick_le (h : g.RaceLapMax) (x : TickInput) :
    (g.tick x).raceLap ≤ g.raceLap + 1 := by
  obtain ⟨⟨i, hi⟩, -⟩ := h.tick x
  have hle := h.2 ⟨i, rfl⟩
  simp only [tick_lap] at hi hle
  split_ifs at hi <;> omega

theorem RaceLapMax.ticks_le_dropLast (h : g.RaceLapMax) (ys : List TickInput) :
    (g.ticks ys).raceLap ≤ (g.ticks ys.dropLast).raceLap + 1 := by
  rcases List.eq_nil_or_concat ys with rfl | ⟨zs, x, rfl⟩
  · rw [List.dropLast_nil]
    omega
  · rw [List.concat_eq_append, ticks_concat, List.dropLast_concat]
    exact (h.ticks zs).tick_le x

theorem isBoard_ticks (track : TrackProfile) (lapStart : Fin 20 → ℤ) {ys : List TickInput}
    (hne : ys ≠ []) : ((init track lapStart).ticks ys).IsBoard
      ((init track lapStart).ticks ys).standings := by
  rcases List.eq_nil_or_concat ys with rfl | ⟨zs, x, rfl⟩
  · exact absurd rfl hne
  · rw [List.concat_eq_append, ticks_concat]
    refine isBoard_tick _ x fun i => ?_
    rw [ticks_profile, init_profile]

theorem IsBoard.length_eq {out : List DriverState} (h : g.IsBoard out) : out.length = 20 := by
  obtain ⟨order, hperm, rfl, -⟩ := h.entries
  rw [List.length_map, hperm.length_eq, List.length_finRange]

end TelemetryGenerator

/-- When a screen was read: the ticks that had published their board, and those that had published
their lap. -/
structure ReadAt where
  board : List TickInput
  lap : List TickInput

namespace ReadAt

structure Before (a b : ReadAt) : Prop where
  board : a.board <+: b.board
  lap : a.lap <+: b.lap

theorem Before.trans {a b c : ReadAt} (h : a.Before b) (h' : b.Before c) : a.Before c :=
  ⟨h.board.trans h'.board, h.lap.trans h'.lap⟩

/-- Some tick has published its board, and all but the last of these their lap. -/
structure Ordered (a : ReadAt) : Prop where
  board_ne : a.board ≠ []
  near : a.board.dropLast <+: a.lap

end ReadAt

/-- What the screen shows, with the rows still to be printed, is what was to be read then. -/
structure Screen.Shows (start : TelemetryGenerator) (read : ReadAt) (screen : Screen)
    (rest : List DriverState) : Prop where
  ordered : read.Ordered
  lap : screen.lap = (start.ticks read.lap).raceLap
  rows : screen.rows.map Prod.fst ++ rest = (start.ticks read.board).standings.take 10

/-- A screen is of ten drivers in the order of their positions, none of them further than a lap
ahead of the lap it is headed by. -/
theorem Screen.Shows.rows_ok {track : TrackProfile} {lapStart : Fin 20 → ℤ} {read : ReadAt}
    {screen : Screen} (h : screen.Shows (.init track lapStart) read []) :
    (screen.rows.map fun row => row.1.position) = ((List.range 10).map fun k : ℕ => (k : ℤ) + 1)
      ∧ ∀ row ∈ screen.rows, row.1.latestFrame.lap ≤ screen.lap + 1 := by
  have hrows := h.rows
  rw [List.append_nil] at hrows
  obtain ⟨hne, hnear⟩ := h.ordered
  have hboard := TelemetryGenerator.isBoard_ticks track lapStart hne
  refine ⟨?_, fun row hrow => ?_⟩
  · have hmap : (screen.rows.map fun row => row.1.position)
        = (screen.rows.map Prod.fst).map DriverState.position := by
      rw [List.map_map]
      rfl
    rw [hmap, hrows]
    refine List.ext_getElem ?_ fun k hk _ => ?_
    · rw [List.length_map, List.length_take, hboard.length_eq, List.length_map,
        List.length_range]
      rfl
    · rw [List.getElem_map, List.getElem_take, hboard.position, List.getElem_map,
        List.getElem_range]
  · have hmem : row.1 ∈ (((TelemetryGenerator.init track lapStart).ticks read.board).standings) :=
      List.mem_of_mem_take (hrows ▸ List.mem_map_of_mem hrow)
    obtain ⟨i, hi⟩ := TelemetryGenerator.mem_standings.1 hmem
    have hmax := TelemetryGenerator.raceLapMax_init track lapStart
    calc row.1.latestFrame.lap
        ≤ ((TelemetryGenerator.init track lapStart).ticks read.board).raceLap := by
          rw [← hi]
          exact (hmax.ticks read.board).2 ⟨i, rfl⟩
      _ ≤ ((TelemetryGenerator.init track lapStart).ticks read.board.dropLast).raceLap + 1 :=
          hmax.ticks_le_dropLast read.board
      _ ≤ screen.lap + 1 := by
          rw [h.lap]
          exact Int.add_le_add_right (TelemetryGenerator.raceLap_le_of_prefix hnear) 1

namespace ProgramState

variable {θ : Type} (start : TelemetryGenerator) (s : ProgramState θ)

/-- What there is to be read. -/
def readable : ReadAt := ⟨s.inputs, s.inputs.take s.tickCounter⟩

/-- What the main thread has read of the screen in progress, after all that the screens `seen`
show. -/
def Looking (seen : List ReadAt) : ConsolePc → Prop
  | .getLap standings => ∃ ys, ys ≠ [] ∧ ys <+: s.inputs
    ∧ ys.dropLast <+: s.inputs.take s.tickCounter ∧ (∀ a ∈ seen, a.board <+: ys)
    ∧ standings = (start.ticks ys).standings
  | .getWeather standings lap | .getGrip standings lap _ => ∃ read : ReadAt, read.Before s.readable
    ∧ (∀ a ∈ seen, a.Before read) ∧ read.Ordered ∧ standings = (start.ticks read.board).standings
    ∧ lap = (start.ticks read.lap).raceLap
  | .rows screen rest => ∃ read : ReadAt, read.Before s.readable ∧ (∀ a ∈ seen, a.Before read)
    ∧ screen.Shows start read rest
  | _ => True

structure ScreenInv : Prop where
  board : s.board.standings = if s.inputs = [] then [] else (start.ticks s.inputs).standings
  lap : s.pipeline.race.currentLap = (start.ticks (s.inputs.take s.tickCounter)).raceLap
  seen : ∃ seen, List.Forall₂ (fun read screen => screen.Shows start read []) seen s.screens
    ∧ seen.Pairwise ReadAt.Before ∧ (∀ a ∈ seen, a.Before s.readable)
    ∧ s.Looking start seen s.main

variable {start} {s} {s' : ProgramState θ}

/-- More is readable, and the main thread has stood still. -/
theorem Looking.mono {seen : List ReadAt} (hread : s.readable.Before s'.readable) {pc : ConsolePc}
    (h : s.Looking start seen pc) : s'.Looking start seen pc := by
  unfold Looking at h ⊢
  split at h
  · obtain ⟨ys, hne, hys, hlast, hseen, hst⟩ := h
    exact ⟨ys, hne, hys.trans hread.board, hlast.trans hread.lap, hseen, hst⟩
  · obtain ⟨read, hbefore, hrest⟩ := h
    exact ⟨read, hbefore.trans hread, hrest⟩
  · obtain ⟨read, hbefore, hrest⟩ := h
    exact ⟨read, hbefore.trans hread, hrest⟩
  · obtain ⟨read, hbefore, hrest⟩ := h
    exact ⟨read, hbefore.trans hread, hrest⟩
  · trivial

/-- A step of another thread than the main thread. -/
theorem ScreenInv.of_other (h : s.ScreenInv start)
    (hboard : s'.board.standings
      = if s'.inputs = [] then [] else (start.ticks s'.inputs).standings)
    (hlap : s'.pipeline.race.currentLap
      = (start.ticks (s'.inputs.take s'.tickCounter)).raceLap)
    (hread : s.readable.Before s'.readable) (hmain : s'.main = s.main)
    (hscreens : s'.screens = s.screens) : s'.ScreenInv start := by
  obtain ⟨seen, hshow, hpw, hle, hlook⟩ := h.seen
  refine ⟨hboard, hlap, seen, ?_, hpw, fun a ha => (hle a ha).trans hread, ?_⟩
  · rw [hscreens]
    exact hshow
  · rw [hmain]
    exact hlook.mono hread

/-- One that leaves what there is to be read. -/
theorem ScreenInv.of_same (h : s.ScreenInv start) (hboard : s'.board = s.board)
    (hlap : s'.pipeline.race.currentLap = s.pipeline.race.currentLap)
    (hinputs : s'.inputs = s.inputs) (hcounter : s'.tickCounter = s.tickCounter)
    (hmain : s'.main = s.main) (hscreens : s'.screens = s.screens) : s'.ScreenInv start := by
  refine h.of_other ?_ ?_ ?_ hmain hscreens
  · rw [hboard, hinputs]
    exact h.board
  · rw [hlap, hinputs, hcounter]
    exact h.lap
  · unfold readable
    rw [hinputs, hcounter]
    exact ⟨List.prefix_rfl, List.prefix_rfl⟩

/-- A tick is published. -/
theorem ScreenInv.publish [DecidableEq θ] {tid : θ} (h : s.ScreenInv start)
    (hinv : s.ProgramInv start) (hpc : s.pc = .drive []) {board : Leaderboard θ}
    (hboard : s.board.update tid s.generator.updatePositionsAndDrs.standings = some board) :
    ScreenInv start { s with
      generator := s.generator.updatePositionsAndDrs
      pc := .setLap
      board := board
      inputs := s.inputs ++ [s.input] } := by
  have hgen : s.generator.updatePositionsAndDrs = start.ticks (s.inputs ++ [s.input]) :=
    (hinv.publish hpc board).generator rfl
  have hcounter := hinv.counter
  rw [hpc] at hcounter
  have htake : (s.inputs ++ [s.input]).take s.tickCounter = s.inputs.take s.tickCounter :=
    List.take_append_of_le_length (by simp at hcounter; omega)
  refine h.of_other ?_ ?_ ?_ rfl rfl
  · rw [Leaderboard.standings_of_update hboard, hgen, if_neg (by simp)]
  · rw [htake]
    exact h.lap
  · refine ⟨List.prefix_append _ _, ?_⟩
    simp only [readable, htake]
    exact List.prefix_rfl

/-- Its lap is set. -/
theorem ScreenInv.setLap (h : s.ScreenInv start) (hinv : s.ProgramInv start)
    (hpc : s.pc = .setLap) : ScreenInv start { s with
      pipeline := s.pipeline.setLap s.generator.raceLap
      tickCounter := s.tickCounter + 1
      pc := .poll .check } := by
  have hgen := hinv.generator (by rw [hpc]; rfl)
  have hcounter := hinv.counter
  rw [if_pos hpc] at hcounter
  refine h.of_other h.board ?_ ?_ rfl rfl
  · rw [PipelineState.setLap_currentLap, hgen, hcounter, List.take_length]
  · refine ⟨List.prefix_rfl, ?_⟩
    simp only [readable]
    exact List.take_prefix_take_left (Nat.le_succ _)

/-- The main thread goes on, with what there is to be read as it was. -/
theorem ScreenInv.goTo (h : s.ScreenInv start) (hboard : s'.board = s.board)
    (hlap : s'.pipeline.race.currentLap = s.pipeline.race.currentLap)
    (hinputs : s'.inputs = s.inputs) (hcounter : s'.tickCounter = s.tickCounter)
    (hscreens : s'.screens = s.screens)
    (hlook : ∀ seen, (∀ a ∈ seen, ReadAt.Before a s.readable) → s.Looking start seen s.main →
      s.Looking start seen s'.main) : s'.ScreenInv start := by
  obtain ⟨seen, hshow, hpw, hle, hlooking⟩ := h.seen
  have hread : s'.readable = s.readable := by
    unfold readable
    rw [hinputs, hcounter]
  refine ⟨?_, ?_, seen, by rw [hscreens]; exact hshow, hpw, by rw [hread]; exact hle,
    (hlook seen hle hlooking).mono ?_⟩
  · rw [hboard, hinputs]
    exact h.board
  · rw [hlap, hinputs, hcounter]
    exact h.lap
  · rw [hread]
    exact ⟨List.prefix_rfl, List.prefix_rfl⟩

theorem ScreenInv.console (h : s.ScreenInv start) (hinv : s.ProgramInv start)
    (hmove : s.ConsoleMove s') : s'.ScreenInv start := by
  cases hmove with
  | snapshot hmain hne =>
    refine h.goTo rfl rfl rfl rfl rfl fun seen hle _ => ?_
    have hinputs : s.inputs ≠ [] := fun hnil => hne (by rw [h.board, if_pos hnil])
    refine ⟨s.inputs, hinputs, List.prefix_rfl, ?_, fun a ha => (hle a ha).board, ?_⟩
    · have hcounter := hinv.counter
      rw [List.dropLast_eq_take]
      refine List.take_prefix_take_left ?_
      split_ifs at hcounter <;> omega
    · rw [h.board, if_neg hinputs]
  | getLap hmain =>
    refine h.goTo rfl rfl rfl rfl rfl fun seen hle hlook => ?_
    rw [hmain] at hlook
    obtain ⟨ys, hne, hys, hlast, hseen, hst⟩ := hlook
    exact ⟨⟨ys, s.inputs.take s.tickCounter⟩, ⟨hys, List.prefix_rfl⟩,
      fun a ha => ⟨hseen a ha, (hle a ha).lap⟩, ⟨hne, hlast⟩, hst, h.lap⟩
  | getWeather hmain =>
    refine h.goTo rfl rfl rfl rfl rfl fun seen hle hlook => ?_
    rw [hmain] at hlook
    exact hlook
  | getGrip hmain =>
    refine h.goTo rfl rfl rfl rfl rfl fun seen hle hlook => ?_
    rw [hmain] at hlook
    obtain ⟨read, hbefore, hseen, hordered, hst, hlap⟩ := hlook
    refine ⟨read, hbefore, hseen, hordered, hlap, ?_⟩
    rw [List.map_nil, List.nil_append, hst]
  | row hmain =>
    refine h.goTo rfl rfl rfl rfl rfl fun seen hle hlook => ?_
    rw [hmain] at hlook
    obtain ⟨read, hbefore, hseen, hordered, hlap, hrows⟩ := hlook
    refine ⟨read, hbefore, hseen, hordered, hlap, ?_⟩
    simp only [printRow, List.map_append, List.map_cons, List.map_nil, List.append_assoc,
      List.singleton_append]
    exact hrows
  | shown hmain =>
    obtain ⟨seen, hshow, hpw, hle, hlook⟩ := h.seen
    rw [hmain] at hlook
    obtain ⟨read, hbefore, hseen, hshows⟩ := hlook
    refine ⟨h.board, h.lap, seen ++ [read], ?_, ?_, ?_, trivial⟩
    · exact List.rel_append hshow (.cons hshows .nil)
    · refine List.pairwise_append.2 ⟨hpw, List.pairwise_singleton _ _, ?_⟩
      intro a ha b hb
      rw [List.mem_singleton.1 hb]
      exact hseen a ha
    · intro a ha
      rcases List.mem_append.1 ha with ha | ha
      · exact hle a ha
      · rw [List.mem_singleton.1 ha]
        exact hbefore
  | leave | stay | empty | stopGenerator | joinGenerator | finalLap | finalSnapshot | classify
  | classified | fastestHolder | noFastest | fastestTime =>
    exact h.goTo rfl rfl rfl rfl rfl fun _ _ _ => trivial
  | stopConsumer _ hst | joinConsumer _ hst =>
    exact h.goTo rfl (PipelineState.step_currentLap hst) rfl rfl rfl fun _ _ _ => trivial
  | destroy => exact h.goTo rfl rfl rfl rfl rfl fun _ _ hlook => hlook

theorem ScreenInv.move [DecidableEq θ] {tid : θ} {l : ProgramLabel} (h : s.ScreenInv start)
    (hinv : s.ProgramInv start) (hmove : s.Move tid l s') : s'.ScreenInv start := by
  cases hmove with
  | leave | enter => exact h.of_same rfl rfl rfl rfl rfl rfl
  | push hpc hst =>
    have hframe := generate_frame (by simp [telemetry, hpc, RunPc.generator]) hst
    exact h.of_same rfl hframe.2.2 rfl rfl rfl rfl
  | drive hpc hst =>
    have hframe := generate_frame (by simp [telemetry, hpc, RunPc.generator]) hst
    exact h.of_same rfl hframe.2.2 rfl rfl rfl rfl
  | publish hpc hboard => exact h.publish hinv hpc hboard
  | setLap hpc => exact h.setLap hinv hpc
  | callback | worker | spurious => exact h.of_same rfl rfl rfl rfl rfl rfl
  | consume hst => exact h.of_same rfl (PipelineState.step_currentLap hst) rfl rfl rfl rfl
  | console hmove => exact h.console hinv hmove

section Run

variable [DecidableEq θ] {tid : θ} {track : TrackProfile} {lapStart : Fin 20 → ℤ}

theorem screenInv (h : (programSystem tid (.init track lapStart)).Reachable s) :
    s.ScreenInv (.init track lapStart) :=
  h.invariant ⟨rfl, rfl, [], .nil, .nil, fun _ hmem => absurd hmem List.not_mem_nil, trivial⟩
    fun hs hinv _ hst => hinv.move (programInv hs) (move_of_step hst)

omit [DecidableEq θ] in
theorem ScreenInv.laps_eq {seen : List ReadAt} {screens : List Screen}
    (h : List.Forall₂ (fun read screen => screen.Shows start read []) seen screens) :
    screens.map Screen.lap = seen.map fun read => (start.ticks read.lap).raceLap := by
  induction h with
  | nil => rfl
  | cons hshows _ ih => rw [List.map_cons, List.map_cons, ih, hshows.lap]

variable (tid) (track) (lapStart) in
/-- Screen after screen the main thread shows the first ten of later and later boards, each under a
lap that never goes back and is one behind its rows at most. -/
theorem screens_follow_race (h : (programSystem tid (.init track lapStart)).Reachable s) :
    (s.screens.map Screen.lap).Pairwise (· ≤ ·)
      ∧ ∃ boards : List (List TickInput), boards.Pairwise (· <+: ·)
        ∧ List.Forall₂ (fun ys (screen : Screen) => ys ≠ [] ∧ ys <+: s.inputs
          ∧ screen.rows.map Prod.fst
            = ((TelemetryGenerator.init track lapStart).ticks ys).standings.take 10
          ∧ (screen.rows.map fun row => row.1.position)
            = ((List.range 10).map fun k : ℕ => (k : ℤ) + 1)
          ∧ ∀ row ∈ screen.rows, row.1.latestFrame.lap ≤ screen.lap + 1) boards s.screens := by
  obtain ⟨seen, hshow, hpw, hle, -⟩ := (screenInv h).seen
  refine ⟨?_, seen.map ReadAt.board, ?_, ?_⟩
  · rw [ScreenInv.laps_eq hshow]
    exact List.pairwise_map.2
      (hpw.imp fun hbefore => TelemetryGenerator.raceLap_le_of_prefix hbefore.lap)
  · exact List.pairwise_map.2 (hpw.imp fun hbefore => hbefore.board)
  · rw [List.forall₂_map_left_iff]
    refine (List.forall₂_and_left _ _).2 ⟨hle, hshow⟩ |>.imp ?_
    rintro read screen ⟨hbefore, hshows⟩
    have hrows := hshows.rows
    rw [List.append_nil] at hrows
    exact ⟨hshows.ordered.board_ne, hbefore.board, hrows, hshows.rows_ok⟩

/-- Two screens, each read before the lap of its board is set. -/
def twoScreens : List ProgramLabel :=
  [List.replicate 142 (.generate ⟨0, 20000000⟩), List.replicate 16 (.main false),
    [.generate ⟨0, 20000000⟩], List.replicate 6 (.callback 0),
    [.drain false, .process 0, .process 0], List.replicate 142 (.generate ⟨0, 40000000⟩),
    List.replicate 16 (.main false)].flatten

theorem screens_follow_race_twoScreens :
    let M := programSystem () (.init { defaultTrack with lengthKm := 0.25 } fun _ => 0)
    let s := (M.run M.init twoScreens).get (by decide +kernel)
    s.screens.map Screen.lap = [1, 2] ∧ (s.screens.map Screen.lap).Pairwise (· ≤ ·)
      ∧ ∀ screen ∈ s.screens, ∀ row ∈ screen.rows, row.1.latestFrame.lap ≤ screen.lap + 1 := by
  intro M s
  have hs : M.Reachable s := System.reachable_get twoScreens (by decide +kernel)
  obtain ⟨hlaps, boards, -, hshown⟩ := screens_follow_race () _ _ hs
  refine ⟨by decide +kernel, hlaps, fun screen hscreen => ?_⟩
  obtain ⟨k, hk, rfl⟩ := List.getElem_of_mem hscreen
  exact (hshown.get (hshown.length_eq ▸ hk) hk).2.2.2.2

end Run

end ProgramState

end RaceConditionZ
