import RaceConditionZ.Proofs.LapAccounting

/-!
# The published standings

A tick's `updatePositionsAndDrs` and the callback's sort make one list of the twenty states, in the
order of the ranking. The exclusive mode of `mutex_` then keeps every reader from a board that is
half assigned: a reader in its loop holds the mutex, so the board stays what it was when the reader
took it, and that is a board that some tick has published.
-/

namespace RaceConditionZ

open Transition

namespace DriverState

variable (s : DriverState) (track : TrackProfile)

theorem handlePit_profile : s.handlePit.profile = s.profile :=
  s.handlePit_field (f := DriverState.profile) rfl rfl

theorem completeLap_profile (now : ℤ) : (s.completeLap track now).profile = s.profile :=
  s.completeLap_field track (f := DriverState.profile) rfl rfl

theorem advance_profile (x : DriverInput) : (s.advance track x).profile = s.profile := by
  unfold advance
  split_ifs
  · exact s.handlePit_profile
  · exact completeLap_profile _ track x.now
  · rfl

end DriverState

namespace TelemetryGenerator

variable (g : TelemetryGenerator) (x : TickInput)

theorem tick_profile (i : Fin 20) : ((g.tick x).states i).profile = (g.states i).profile := by
  unfold tick
  rw [updatePositionsAndDrs_profile, advanceAll_states, DriverState.advance_profile]

theorem ticks_profile (xs : List TickInput) (i : Fin 20) :
    ((g.ticks xs).states i).profile = (g.states i).profile := by
  induction xs generalizing g with
  | nil => rw [ticks_nil]
  | cons x xs ih => rw [ticks_cons, ih, tick_profile]

theorem init_profile (track : TrackProfile) (lapStart : Fin 20 → ℤ) (i : Fin 20) :
    ((init track lapStart).states i).profile = drivers.get i := rfl

/-- A list of states is a board of the tick that left `g`. -/
structure IsBoard (out : List DriverState) : Prop where
  drivers : ∀ i, (g.states i).profile = drivers.get i
  entries : ∃ order : List (Fin 20), order.Perm (List.finRange 20) ∧ out = order.map g.states
    ∧ order.Pairwise fun i j => g.raceDistance j ≤ g.raceDistance i
      ∧ (g.raceDistance i = g.raceDistance j → i < j)
  position : ∀ k (h : k < out.length), out[k].position = k + 1
  gap_leader : ∀ s ∈ out.head?, s.latestFrame.gapToLeader = 0
  gap_nonneg : ∀ s ∈ out, 0 ≤ s.latestFrame.gapToLeader

theorem ahead_order {i j : Fin 20} (h : g.Ahead i j) :
    g.raceDistance j ≤ g.raceDistance i ∧ (g.raceDistance i = g.raceDistance j → i < j) := by
  refine ⟨StableSort.key_le_of_before _ h, fun he => ?_⟩
  rcases h with hlt | hplace
  · rw [he] at hlt
    exact absurd hlt (lt_irrefl _)
  · exact hplace.2

theorem standings_tick :
    (g.tick x).standings = (g.advanceAll x).ranking.map (g.tick x).states := by
  unfold tick
  rw [standings_updatePositionsAndDrs]

theorem isBoard_tick (hdrivers : ∀ i, (g.states i).profile = RaceConditionZ.drivers.get i) :
    (g.tick x).IsBoard (g.tick x).standings := by
  have hranking : (g.tick x).ranking = (g.advanceAll x).ranking := by
    unfold tick
    rw [updatePositionsAndDrs_ranking]
  refine ⟨fun i => ?_, ⟨(g.advanceAll x).ranking, ranking_perm _, standings_tick g x, ?_⟩, ?_, ?_,
    ?_⟩
  · rw [tick_profile, hdrivers i]
  · rw [← hranking]
    exact (g.tick x).ranking_pairwise.imp fun h => (g.tick x).ahead_order h
  · intro k h
    simp only [standings_tick, List.getElem_map]
    unfold tick
    rw [updatePositionsAndDrs_position, (ranking_nodup _).idxOf_getElem]
  · intro s hs
    rw [standings_tick, List.head?_map, Option.mem_map] at hs
    obtain ⟨i, hi, rfl⟩ := hs
    have hlead : (g.advanceAll x).ranking.idxOf i = 0 := by
      rcases hr : (g.advanceAll x).ranking with _ | ⟨j, js⟩
      · rw [hr] at hi
        cases hi
      · rw [hr] at hi
        cases hi
        exact List.idxOf_cons_self
    unfold tick
    rw [updatePositionsAndDrs_gapToLeader, hlead, gapToLeader_zero]
  · intro s hs
    rw [standings_tick, List.mem_map] at hs
    obtain ⟨i, -, rfl⟩ := hs
    unfold tick
    rw [updatePositionsAndDrs_gapToLeader]
    exact gapToLeader_nonneg _ _ i

end TelemetryGenerator

/-- The answer of a call on a board that nobody writes. -/
def BoardQuery.answer (out : List DriverState) : BoardQuery → BoardAnswer
  | .snapshot => .standings out
  | .atPosition pos => .driver (out.find? fun s => s.position = pos)

/-- Empty, or what a tick among the first of `inputs` has published. -/
def IsPublished (start : TelemetryGenerator) (inputs : List TickInput) (out : List DriverState) :
    Prop :=
  out = [] ∨ ∃ ys, ys ≠ [] ∧ ys <+: inputs ∧ out = (start.ticks ys).standings

theorem IsPublished.append {start : TelemetryGenerator} {inputs : List TickInput}
    {out : List DriverState} (h : IsPublished start inputs out) (x : TickInput) :
    IsPublished start (inputs ++ [x]) out := by
  rcases h with h | ⟨ys, hne, hys, h⟩
  · exact .inl h
  · exact .inr ⟨ys, hne, hys.trans (List.prefix_append inputs [x]), h⟩

namespace BoardState

variable {θ ι : Type} (start : TelemetryGenerator) (s : BoardState θ ι)

/-- What the generator's thread relies on. -/
def Publishing : UpdatePc → Prop
  | .idle | .threw =>
    s.mutex.exclusive = false ∧ IsPublished start s.inputs s.board.standings
  | .lock sorted => s.mutex.exclusive = false ∧ IsPublished start s.inputs s.board.standings
    ∧ s.inputs ≠ [] ∧ sorted = s.generator.standings
  | .assign todo => s.mutex.exclusive = true ∧ s.inputs ≠ []
    ∧ s.board.standings ++ todo = s.generator.standings

/-- What the reader `i` relies on. -/
def Reading (i : ι) : Option ReadPc → Prop
  | some (.loop query passed) => i ∈ s.mutex.shared ∧ passed <+: s.board.standings
    ∧ ∀ pos, query = .atPosition pos → ∀ entry ∈ passed, entry.position ≠ pos
  | some (.returned query answer) =>
    ∃ out, IsPublished start s.inputs out ∧ answer = query.answer out
  | _ => True

/-- The invariant of the board. -/
structure BoardInv : Prop where
  generator : s.generator = start.ticks s.inputs
  publishing : s.Publishing start s.pc
  reading : ∀ i, s.Reading start i (s.readers i)

variable {start s}

/-- While a reader is in its loop, the board is a published one. -/
theorem BoardInv.isPublished {i : ι} (h : s.BoardInv start) (hi : i ∈ s.mutex.shared) :
    IsPublished start s.inputs s.board.standings := by
  have hexclusive := SharedMutex.exclusive_of_mem hi
  have hpub := h.publishing
  rcases hpc : s.pc with _ | sorted | todo | _ <;> rw [hpc] at hpub
  · exact hpub.2
  · exact hpub.2.1
  · rw [hpub.1] at hexclusive
    cases hexclusive
  · exact hpub.2

/-- What the readers rely on stays, if every step of a reader's loop still finds its board and
mutex. -/
theorem Reading.frame {s' : BoardState θ ι} {i : ι} {pc : Option ReadPc}
    (h : s.Reading start i pc) (hinputs : s'.inputs = s.inputs)
    (hshared : i ∈ s.mutex.shared →
      i ∈ s'.mutex.shared ∧ s'.board.standings = s.board.standings) :
    s'.Reading start i pc := by
  rcases pc with _ | query | ⟨query, passed⟩ | ⟨query, answer⟩
  · trivial
  · trivial
  · obtain ⟨hi, hpassed, hpos⟩ := h
    obtain ⟨hi', hboard⟩ := hshared hi
    refine ⟨hi', ?_, hpos⟩
    rw [hboard]
    exact hpassed
  · obtain ⟨out, hout, hanswer⟩ := h
    refine ⟨out, ?_, hanswer⟩
    rw [hinputs]
    exact hout

/-- The standings stay published, whatever is ticked next. -/
theorem Reading.append {s' : BoardState θ ι} {i : ι} {pc : Option ReadPc} {x : TickInput}
    (h : s.Reading start i pc) (hinputs : s'.inputs = s.inputs ++ [x])
    (hmutex : s'.mutex = s.mutex) (hboard : s'.board = s.board) : s'.Reading start i pc := by
  rcases pc with _ | query | ⟨query, passed⟩ | ⟨query, answer⟩
  · trivial
  · trivial
  · unfold Reading at h ⊢
    rw [hmutex, hboard]
    exact h
  · obtain ⟨out, hout, hanswer⟩ := h
    refine ⟨out, ?_, hanswer⟩
    rw [hinputs]
    exact hout.append x

theorem BoardInv.tick {s' : BoardState θ ι} {x : TickInput} (h : s.BoardInv start)
    (hst : s.tick x = some s') : s'.BoardInv start := by
  have hpub := h.publishing
  unfold BoardState.tick at hst
  split at hst
  · rename_i hpc
    rw [hpc] at hpub
    split at hst
    · cases hst
    · have hs := Option.some.inj hst
      have hgen : s'.generator = s.generator.tick x := by rw [← hs]
      have hpc' : s'.pc = .lock s'.generator.standings := by rw [← hs]
      have hinputs : s'.inputs = s.inputs ++ [x] := by rw [← hs]
      have hmutex : s'.mutex = s.mutex := by rw [← hs]
      have hboard : s'.board = s.board := by rw [← hs]
      have hreaders : s'.readers = s.readers := by rw [← hs]
      refine ⟨?_, ?_, fun i => ?_⟩
      · rw [hgen, hinputs, TelemetryGenerator.ticks_concat, h.generator]
      · rw [hpc']
        unfold Publishing
        rw [hmutex, hboard, hinputs]
        exact ⟨hpub.1, hpub.2.append x, by simp, rfl⟩
      · rw [hreaders]
        exact (h.reading i).append hinputs hmutex hboard
  · cases hst

/-- A step of the writer leaves the readers alone if none is in its loop, or if it only gives the
mutex back. -/
theorem BoardInv.of_update {s' : BoardState θ ι} (h : s.BoardInv start)
    (hgen : s'.generator = s.generator) (hinputs : s'.inputs = s.inputs)
    (hreaders : s'.readers = s.readers) (hpub : s'.Publishing start s'.pc)
    (hshared : s.mutex.shared = [] ∨ s'.mutex.shared = s.mutex.shared ∧ s'.board = s.board) :
    s'.BoardInv start := by
  refine ⟨?_, hpub, fun i => ?_⟩
  · rw [hgen, hinputs, h.generator]
  · rw [hreaders]
    refine (h.reading i).frame hinputs fun hi => ?_
    rcases hshared with hnone | ⟨hsame, hboard⟩
    · rw [hnone] at hi
      cases hi
    · rw [hsame, hboard]
      exact ⟨hi, rfl⟩

theorem BoardInv.update [DecidableEq θ] {s' : BoardState θ ι} {tid : θ} (h : s.BoardInv start)
    (hst : s.update tid = some s') : s'.BoardInv start := by
  have hpub := h.publishing
  unfold BoardState.update at hst
  rcases hpc : s.pc with _ | sorted | todo | _ <;> rw [hpc] at hpub hst
  · cases hst
  · obtain ⟨hfree, hpublished, hinputs, hsorted⟩ := hpub
    simp only [Option.map_eq_some_iff] at hst
    obtain ⟨mutex, hlock, hst⟩ := hst
    obtain ⟨-, hnone, hexclusive, hempty⟩ := SharedMutex.lock_eq_some hlock
    rcases hclaim : s.board.claimWriter tid with _ | board <;> rw [hclaim] at hst <;>
      subst hst
    · -- the thread throws, and the guard gives the mutex back
      exact h.of_update rfl rfl rfl ⟨hfree, hpublished⟩ (.inl hnone)
    · exact h.of_update rfl rfl rfl ⟨hexclusive, hinputs, hsorted⟩ (.inl hnone)
  · obtain ⟨hexclusive, hinputs, htodo⟩ := hpub
    have hnone := s.mutex.apart hexclusive
    rcases todo with _ | ⟨entry, todo⟩
    · cases hst
      rw [List.append_nil] at htodo
      refine h.of_update rfl rfl rfl ⟨rfl, .inr ⟨s.inputs, hinputs, List.prefix_rfl, ?_⟩⟩
        (.inl hnone)
      rw [← h.generator]
      exact htodo
    · cases hst
      refine h.of_update rfl rfl rfl ⟨hexclusive, hinputs, ?_⟩ (.inl hnone)
      rw [← htodo]
      exact List.append_assoc ..
  · cases hst

theorem publishing_congr {s' : BoardState θ ι} {pc : UpdatePc} (hgen : s'.generator = s.generator)
    (hinputs : s'.inputs = s.inputs) (hboard : s'.board = s.board)
    (hmutex : s'.mutex.exclusive = s.mutex.exclusive) (h : s.Publishing start pc) :
    s'.Publishing start pc := by
  rcases pc with _ | sorted | todo | _ <;> unfold Publishing at h ⊢ <;>
    rw [hmutex, hboard, hinputs]
  · exact h
  · rw [hgen]
    exact h
  · rw [hgen]
    exact h
  · exact h

section Readers

variable [DecidableEq ι]

/-- A step of the reader `i`, for what it relies on afterwards. -/
theorem BoardInv.of_read {s' : BoardState θ ι} {i : ι} {pc : ReadPc} (h : s.BoardInv start)
    (hgen : s'.generator = s.generator) (hinputs : s'.inputs = s.inputs)
    (hboard : s'.board = s.board) (hmutex : s'.mutex.exclusive = s.mutex.exclusive)
    (hpc : s'.pc = s.pc) (hshared : ∀ j, j ≠ i → j ∈ s.mutex.shared → j ∈ s'.mutex.shared)
    (hreaders : s'.readers = Function.update s.readers i (some pc))
    (hread : s'.Reading start i (some pc)) : s'.BoardInv start := by
  refine ⟨?_, ?_, fun j => ?_⟩
  · rw [hgen, hinputs, h.generator]
  · rw [hpc]
    exact publishing_congr hgen hinputs hboard hmutex h.publishing
  · rw [hreaders]
    by_cases hj : j = i
    · subst hj
      rw [Function.update_self]
      exact hread
    · rw [Function.update_of_ne hj]
      refine (h.reading j).frame hinputs fun hmem => ?_
      rw [hboard]
      exact ⟨hshared j hj hmem, rfl⟩

theorem BoardInv.answer {i : ι} {query : BoardQuery} {out : BoardAnswer} (h : s.BoardInv start)
    (hi : i ∈ s.mutex.shared) (hout : out = query.answer s.board.standings) :
    (s.answer i query out).BoardInv start :=
  h.of_read rfl rfl rfl rfl rfl (fun _ hj hmem => SharedMutex.mem_unlockShared hj hmem) rfl
    ⟨s.board.standings, h.isPublished hi, hout⟩

/-- The loop goes on over an entry it does not look for. -/
theorem BoardInv.pass {i : ι} {query : BoardQuery} {passed : List DriverState}
    {entry : DriverState} {s' : BoardState θ ι} (h : s.BoardInv start)
    (hi : i ∈ s.mutex.shared) (hpassed : passed ++ [entry] <+: s.board.standings)
    (hpos : ∀ pos, query = .atPosition pos → ∀ e ∈ passed ++ [entry], e.position ≠ pos)
    (hs : s' = { s with
      readers := Function.update s.readers i (some (.loop query (passed ++ [entry]))) }) :
    s'.BoardInv start := by
  subst hs
  exact h.of_read rfl rfl rfl rfl rfl (fun _ _ hmem => hmem) rfl ⟨hi, hpassed, hpos⟩

theorem passed_concat {α : Type*} {passed l : List α} {e : α} (h : passed <+: l)
    (he : l[passed.length]? = some e) : passed ++ [e] <+: l := by
  obtain ⟨rest, rfl⟩ := h
  rw [List.getElem?_append_right le_rfl, Nat.sub_self] at he
  rcases rest with _ | ⟨e', rest⟩
  · cases he
  · cases he
    exact ⟨rest, by simp⟩

theorem passed_eq {α : Type*} {passed l : List α} (h : passed <+: l)
    (he : l[passed.length]? = none) : passed = l :=
  h.eq_of_length_le (List.getElem?_eq_none_iff.1 he)

/-- A step of a reader's loop returns what the call gets on the board, or goes on over an entry it
does not look for. -/
theorem Reading.loop_eq {i : ι} {query : BoardQuery} {passed : List DriverState}
    (h : s.Reading start i (some (.loop query passed))) :
    s.loop i query passed = s.answer i query (query.answer s.board.standings)
      ∨ ∃ entry, passed ++ [entry] <+: s.board.standings
        ∧ (∀ pos, query = .atPosition pos → ∀ e ∈ passed ++ [entry], e.position ≠ pos)
        ∧ s.loop i query passed = { s with
          readers := Function.update s.readers i (some (.loop query (passed ++ [entry]))) } := by
  obtain ⟨-, hpassed, hpos⟩ := h
  unfold BoardState.loop
  split
  · rename_i hend
    refine .inl ?_
    rw [passed_eq hpassed hend]
    rfl
  · rename_i pos hend
    have hnone : (s.board.standings.find? fun s => s.position = pos) = none := by
      rw [← passed_eq hpassed hend, List.find?_eq_none]
      intro e he
      rw [decide_eq_true_eq]
      exact hpos pos rfl e he
    exact .inl (congrArg (fun out => s.answer i (.atPosition pos) (.driver out)) hnone.symm)
  · rename_i entry pos hentry
    have hnext := passed_concat hpassed hentry
    split
    · rename_i hfound
      have hsome : (s.board.standings.find? fun s => s.position = pos) = some entry := by
        obtain ⟨hlt, he⟩ := List.getElem?_eq_some_iff.1 hentry
        rw [List.find?_eq_some_iff_getElem]
        refine ⟨decide_eq_true hfound, passed.length, hlt, he, fun j hj => ?_⟩
        have hmem : s.board.standings[j] ∈ passed := by
          rw [← hpassed.getElem hj]
          exact List.getElem_mem hj
        simpa using hpos pos rfl _ hmem
      exact .inl (congrArg (fun out => s.answer i (.atPosition pos) (.driver out)) hsome.symm)
    · rename_i hother
      refine .inr ⟨entry, hnext, fun pos' heq e he => ?_, rfl⟩
      cases heq
      rcases List.mem_append.1 he with he | he
      · exact hpos pos rfl e he
      · rw [List.mem_singleton.1 he]
        exact hother
  · rename_i entry hentry
    exact .inr ⟨entry, passed_concat hpassed hentry, fun pos heq => (by cases heq), rfl⟩

theorem BoardInv.loop {i : ι} {query : BoardQuery} {passed : List DriverState}
    (h : s.BoardInv start) (hread : s.Reading start i (some (.loop query passed))) :
    (s.loop i query passed).BoardInv start := by
  rcases hread.loop_eq with heq | ⟨entry, hnext, hpos, heq⟩
  · rw [heq]
    exact h.answer hread.1 rfl
  · exact h.pass hread.1 hnext hpos heq

theorem BoardInv.read {s' : BoardState θ ι} {i : ι} (h : s.BoardInv start)
    (hst : s.read i = some s') : s'.BoardInv start := by
  have hread := h.reading i
  unfold BoardState.read at hst
  split at hst
  · rw [Option.map_eq_some_iff] at hst
    obtain ⟨mutex, hlock, rfl⟩ := hst
    obtain ⟨hfree, hfree', hshared⟩ := SharedMutex.lockShared_eq_some hlock
    refine h.of_read rfl rfl rfl (hfree'.trans hfree.symm) rfl (fun j _ hmem => ?_) rfl
      ⟨?_, List.nil_prefix, by simp⟩
    · rw [hshared]
      exact List.mem_cons_of_mem i hmem
    · rw [hshared]
      exact List.mem_cons_self
  · rename_i query passed hloop
    rw [hloop] at hread
    cases hst
    exact h.loop hread
  · cases hst

theorem BoardInv.step [DecidableEq θ] {s' : BoardState θ ι} {tid : θ} {l : BoardLabel ι}
    (h : s.BoardInv start) (hst : BoardState.step tid s l = some s') : s'.BoardInv start := by
  rcases l with x | _ | ⟨i, query⟩ | i
  · exact h.tick hst
  · exact h.update hst
  · simp only [BoardState.step] at hst
    split at hst
    · cases hst
    · cases hst
    · cases hst
      exact h.of_read rfl rfl rfl rfl rfl (fun _ _ hmem => hmem) rfl trivial
  · exact h.read hst

end Readers

end BoardState

section Calls

variable {θ ι : Type} [DecidableEq θ] [DecidableEq ι] (tid : θ) (start : TelemetryGenerator)
  (s : BoardState θ ι)

/-- The writer gets through its assignment. -/
theorem leads_assign (todo : List DriverState) :
    (boardSystem ι tid start).Leads { s with pc := .assign todo }
      { s with
        board := { s.board with standings := s.board.standings ++ todo }
        pc := .assign [] } := by
  induction todo generalizing s with
  | nil =>
    rw [List.append_nil]
  | cons entry todo ih =>
    have hrest := ih
      { s with board := { s.board with standings := s.board.standings ++ [entry] } }
    simp only [List.append_assoc, List.singleton_append] at hrest
    exact .head ⟨.update, rfl⟩ hrest

end Calls

end RaceConditionZ
