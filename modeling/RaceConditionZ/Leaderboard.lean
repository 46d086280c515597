import RaceConditionZ.Lib.MachineFloat
import RaceConditionZ.Lib.SharedMutex
import RaceConditionZ.Lib.Transition
import RaceConditionZ.TelemetryGenerator

/-!
# The leaderboard

`common/leaderboard.h`, and of `main.cpp` the part of the tick callback that sorts the states and
publishes them; last, the class among threads that end and whose ids are given again. In the
interleaved model the assignment to `standings_` and the loops of the readers go entry by entry:
only `mutex_` keeps a reader from a board that is half assigned.
-/

namespace RaceConditionZ

open Transition

/-- `Leaderboard`; `θ` are the values of `std::thread::id`, `none` the default-constructed one. -/
structure Leaderboard (θ : Type) where
  standings : List DriverState
  writerId : Option θ

namespace Leaderboard

variable {θ : Type}

def empty : Leaderboard θ := ⟨[], none⟩

/-- The writer check of `update`; `none` where it throws. -/
def claimWriter [DecidableEq θ] (b : Leaderboard θ) (tid : θ) : Option (Leaderboard θ) :=
  match b.writerId with
  | none => some { b with writerId := some tid }
  | some writer => if writer ≠ tid then none else some b

def update [DecidableEq θ] (b : Leaderboard θ) (tid : θ) (sortedStandings : List DriverState) :
    Option (Leaderboard θ) :=
  (b.claimWriter tid).map fun b => { b with standings := sortedStandings }

def snapshot (b : Leaderboard θ) : List DriverState := b.standings

def size (b : Leaderboard θ) : ℕ := b.standings.length

/-- `none` stands for the default-constructed state of a position out of range. -/
def atPosition (b : Leaderboard θ) (pos : ℤ) : Option DriverState :=
  b.standings.find? fun s => s.position = pos

/-- The loop of `fastest_lap_holder`, with its `best` and `holder`. -/
def scanFastestLap : ℚ × String → List DriverState → ℚ × String :=
  List.foldl fun found s =>
    if 0 < s.bestLapMs ∧ s.bestLapMs < found.1 then (s.bestLapMs, s.profile.id) else found

def fastestLapHolder (b : Leaderboard θ) : String :=
  (scanFastestLap (MachineFloat.maxFinite, "") b.standings).2

end Leaderboard

/-- The copy of `states` that the callback publishes. After a tick no two positions are equal, so
that `std::sort` has one result. -/
def TelemetryGenerator.standings (g : TelemetryGenerator) : List DriverState :=
  ((List.finRange 20).map g.states).insertionSort fun a b => a.position ≤ b.position

/-- `run` with the publishing in its callback: the generator when it returns, and the boards, one
for each tick. Where the inputs end, a stop is requested. -/
def TelemetryGenerator.run (g : TelemetryGenerator) :
    List TickInput → TelemetryGenerator × List (List DriverState)
  | [] => (g, [])
  | x :: xs =>
    if g.raceFinished then (g, [])
    else
      let g := g.tick x
      let (last, boards) := g.run xs
      (last, g.standings :: boards)

/-- A call of a reader. -/
inductive BoardQuery
  | snapshot
  | atPosition (pos : ℤ)

inductive BoardAnswer
  | standings (out : List DriverState)
  | driver (out : Option DriverState)

/-- Where a reader's call is: before the lock, in the loop with the entries it has passed, or
back. -/
inductive ReadPc
  | lock (query : BoardQuery)
  | loop (query : BoardQuery) (passed : List DriverState)
  | returned (query : BoardQuery) (answer : BoardAnswer)

/-- Where the generator's thread is: between two callbacks, or in `update`, before the lock or with
entries still to be assigned. -/
inductive UpdatePc
  | idle
  | lock (sorted : List DriverState)
  | assign (todo : List DriverState)
  | threw

/-- `inputs` is history: what the ticks were given. -/
structure BoardState (θ ι : Type) where
  generator : TelemetryGenerator
  board : Leaderboard θ
  mutex : SharedMutex ι
  pc : UpdatePc
  readers : ι → Option ReadPc
  inputs : List TickInput

inductive BoardLabel (ι : Type)
  | tick (x : TickInput)
  | update
  | callRead (i : ι) (query : BoardQuery)
  | read (i : ι)

namespace BoardState

variable {θ ι : Type}

def init (g : TelemetryGenerator) : BoardState θ ι where
  generator := g
  board := .empty
  mutex := .free
  pc := .idle
  readers := fun _ => none
  inputs := []

/-- A tick of `run`, up to the call of `update` in its callback. -/
def tick (s : BoardState θ ι) (x : TickInput) : Option (BoardState θ ι) :=
  match s.pc with
  | .idle =>
    if s.generator.raceFinished then none
    else
      let g := s.generator.tick x
      some { s with generator := g, pc := .lock g.standings, inputs := s.inputs ++ [x] }
  | _ => none

/-- A step of `update` on the thread `tid`. -/
def update [DecidableEq θ] (s : BoardState θ ι) (tid : θ) : Option (BoardState θ ι) :=
  match s.pc with
  | .lock sorted => s.mutex.lock.map fun mutex =>
    match s.board.claimWriter tid with
    | none => { s with pc := .threw }
    | some board => { s with
        board := { board with standings := [] }
        mutex := mutex
        pc := .assign sorted }
  | .assign (entry :: todo) => some { s with
      board := { s.board with standings := s.board.standings ++ [entry] }
      pc := .assign todo }
  | .assign [] => some { s with mutex := s.mutex.unlock, pc := .idle }
  | _ => none

/-- A reader gives the mutex back and returns. -/
def answer [DecidableEq ι] (s : BoardState θ ι) (i : ι) (query : BoardQuery)
    (out : BoardAnswer) : BoardState θ ι :=
  { s with
    mutex := s.mutex.unlockShared i
    readers := Function.update s.readers i (some (.returned query out)) }

/-- A step of a reader's loop: the next entry, or the end. -/
def loop [DecidableEq ι] (s : BoardState θ ι) (i : ι) (query : BoardQuery)
    (passed : List DriverState) : BoardState θ ι :=
  match s.board.standings[passed.length]?, query with
  | none, .snapshot => s.answer i .snapshot (.standings passed)
  | none, .atPosition pos => s.answer i (.atPosition pos) (.driver none)
  | some entry, .atPosition pos =>
    if entry.position = pos then s.answer i (.atPosition pos) (.driver (some entry))
    else { s with
      readers := Function.update s.readers i (some (.loop (.atPosition pos) (passed ++ [entry]))) }
  | some entry, .snapshot => { s with
      readers := Function.update s.readers i (some (.loop .snapshot (passed ++ [entry]))) }

/-- A step of the reader `i`. -/
def read [DecidableEq ι] (s : BoardState θ ι) (i : ι) : Option (BoardState θ ι) :=
  match s.readers i with
  | some (.lock query) => (s.mutex.lockShared i).map fun mutex => { s with
      mutex := mutex
      readers := Function.update s.readers i (some (.loop query [])) }
  | some (.loop query passed) => some (s.loop i query passed)
  | _ => none

def step [DecidableEq θ] [DecidableEq ι] (tid : θ) (s : BoardState θ ι) :
    BoardLabel ι → Option (BoardState θ ι)
  | .tick x => s.tick x
  | .update => s.update tid
  | .callRead i query =>
    match s.readers i with
    | some (.lock _) | some (.loop _ _) => none
    | _ => some { s with readers := Function.update s.readers i (some (.lock query)) }
  | .read i => s.read i

end BoardState

/-- The generator's thread `tid` and readers of the leaderboard, interleaved in any way. -/
def boardSystem {θ : Type} (ι : Type) [DecidableEq θ] [DecidableEq ι] (tid : θ)
    (g : TelemetryGenerator) : System (BoardState θ ι) (BoardLabel ι) where
  init := .init g
  step := BoardState.step tid

/-- Where a thread is in its life. -/
inductive ThreadPhase
  | running
  | terminated
  | joined
deriving DecidableEq

/-- A thread, with its `std::thread::id`. -/
structure BoardThread (θ : Type) where
  tid : θ
  phase : ThreadPhase

/-- A call of `update` by a thread, with the board before and after it. -/
structure UpdateCall (θ : Type) where
  thread : ℕ
  tid : θ
  sortedStandings : List DriverState
  threw : Bool
  before : Leaderboard θ
  after : Leaderboard θ

/-- The threads in the order of their creation; `updates` is history. -/
structure ThreadsState (θ : Type) where
  board : Leaderboard θ
  threads : List (BoardThread θ)
  updates : List (UpdateCall θ)

inductive ThreadsLabel (θ : Type)
  | create (tid : θ)
  | terminate (k : ℕ)
  | join (k : ℕ)
  | update (k : ℕ) (sortedStandings : List DriverState)
  | read (k : ℕ)

namespace ThreadsState

variable {θ : Type} [DecidableEq θ]

/-- Thread `k` goes from the one phase to the other. -/
def move (s : ThreadsState θ) (k : ℕ) (phase phase' : ThreadPhase) : Option (ThreadsState θ) :=
  match s.threads[k]? with
  | some t =>
    if t.phase = phase then some { s with threads := s.threads.set k { t with phase := phase' } }
    else none
  | none => none

/-- `update`, called by the thread `k` with that id. -/
def update (s : ThreadsState θ) (k : ℕ) (tid : θ) (sortedStandings : List DriverState) :
    ThreadsState θ :=
  let board := s.board.update tid sortedStandings
  { s with
    board := board.getD s.board
    updates := s.updates
      ++ [⟨k, tid, sortedStandings, board.isNone, s.board, board.getD s.board⟩] }

/-- A new thread's id is that of no thread that is not joined. A call holds `mutex_` from its first
statement to its end, so it is one step; those of the readers change nothing. -/
def step (s : ThreadsState θ) : ThreadsLabel θ → Option (ThreadsState θ)
  | .create tid =>
    if ∃ t ∈ s.threads, t.phase ≠ .joined ∧ t.tid = tid then none
    else some { s with threads := s.threads ++ [⟨tid, .running⟩] }
  | .terminate k => s.move k .running .terminated
  | .join k => s.move k .terminated .joined
  | .update k sortedStandings =>
    match s.threads[k]? with
    | some ⟨tid, .running⟩ => some (s.update k tid sortedStandings)
    | _ => none
  | .read k =>
    match s.threads[k]? with
    | some ⟨_, .running⟩ => some s
    | _ => none

end ThreadsState

/-- A leaderboard for its whole life, among threads that come and go. -/
def threadsSystem (θ : Type) [DecidableEq θ] : System (ThreadsState θ) (ThreadsLabel θ) where
  init := ⟨.empty, [], []⟩
  step := ThreadsState.step

end RaceConditionZ
