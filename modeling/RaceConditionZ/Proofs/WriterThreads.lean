import RaceConditionZ.Leaderboard

/-!
# The single writer

The board knows its writer by a thread id, and an id is given again once its thread is joined. So a
second thread is turned away exactly as long as it does not bear the first writer's id.
-/

namespace RaceConditionZ

open Transition

namespace Leaderboard

variable {θ : Type} [DecidableEq θ] {b : Leaderboard θ} {tid : θ}

/-- The writer check. -/
theorem update_of_writer (h : b.writerId = none ∨ b.writerId = some tid)
    (sorted : List DriverState) : b.update tid sorted = some ⟨sorted, some tid⟩ := by
  unfold update claimWriter
  rcases h with h | h
  · rw [h]
    rfl
  · rw [h]
    simp [h]

theorem update_of_other {writer : θ} (h : b.writerId = some writer) (hne : writer ≠ tid)
    (sorted : List DriverState) : b.update tid sorted = none := by
  unfold update claimWriter
  rw [h]
  simp [hne]

end Leaderboard

namespace ThreadsState

variable {θ : Type} {s s' : ThreadsState θ}

/-- The latest standings that a call of `update` has put on the board. -/
def latest (s : ThreadsState θ) : List DriverState :=
  ((s.updates.filter fun c => !c.threw).getLast?.map UpdateCall.sortedStandings).getD []

/-- The first thread to call `update` is the one whose calls succeed, a call by any other throws and
leaves the board, and a snapshot is what the latest successful call was given. -/
structure SingleWriter (s : ThreadsState θ) : Prop where
  first : ∀ first, s.updates.head? = some first → ∀ c ∈ s.updates,
    c.threw = false ↔ c.thread = first.thread
  unchanged : ∀ c ∈ s.updates, c.threw = true → c.after = c.before
  snapshot : s.board.snapshot = s.latest

/-- No thread but the first writer has called `update` under the first writer's id. -/
def Exclusive (s : ThreadsState θ) : Prop :=
  ∀ first, s.updates.head? = some first → ∀ c ∈ s.updates, c.tid = first.tid →
    c.thread = first.thread

/-- What the board and the calls tell of each other. -/
structure WriterInv (s : ThreadsState θ) : Prop where
  writer : s.board.writerId = s.updates.head?.map UpdateCall.tid
  threw : ∀ first, s.updates.head? = some first → ∀ c ∈ s.updates,
    c.threw = false ↔ c.tid = first.tid
  unchanged : ∀ c ∈ s.updates, c.threw = true → c.after = c.before
  standings : s.board.standings = s.latest
  tid : ∀ c ∈ s.updates, (s.threads[c.thread]?).map BoardThread.tid = some c.tid

/-- No two threads that are not joined bear one id. -/
def Distinct (threads : List (BoardThread θ)) : Prop :=
  ∀ (j k : ℕ) (t u : BoardThread θ), threads[j]? = some t → threads[k]? = some u →
    t.phase ≠ .joined → u.phase ≠ .joined → t.tid = u.tid → j = k

/-- What becomes of the threads: they keep their ids, the joined ones stay so, and a new one's id is
not that of another that is not joined. -/
structure Ages (threads threads' : List (BoardThread θ)) : Prop where
  kept : ∀ (k : ℕ) (t : BoardThread θ), threads[k]? = some t →
    ∃ t' : BoardThread θ, threads'[k]? = some t' ∧ t'.tid = t.tid
      ∧ (t.phase = .joined → t'.phase = .joined)
  distinct : Distinct threads → Distinct threads'

theorem ages_refl (threads : List (BoardThread θ)) : Ages threads threads :=
  ⟨fun _ t ht => ⟨t, ht, rfl, id⟩, id⟩

theorem ages_create {tid : θ} {threads : List (BoardThread θ)}
    (hfree : ¬ ∃ t ∈ threads, t.phase ≠ .joined ∧ t.tid = tid) :
    Ages threads (threads ++ [⟨tid, .running⟩]) := by
  have hnew : ∀ (k : ℕ) (t : BoardThread θ), (threads ++ [⟨tid, .running⟩])[k]? = some t →
      threads[k]? = some t ∨ k = threads.length ∧ t.tid = tid := by
    intro k t ht
    rw [List.getElem?_append] at ht
    split_ifs at ht with hk
    · exact .inl ht
    · obtain ⟨hlt, rfl⟩ := List.getElem?_eq_some_iff.1 ht
      rw [List.length_singleton] at hlt
      refine .inr ⟨by omega, ?_⟩
      rw [List.getElem_singleton]
  have hold : ∀ (k : ℕ) (t : BoardThread θ), threads[k]? = some t → t.phase ≠ .joined →
      t.tid ≠ tid :=
    fun k t ht hphase htid => hfree ⟨t, List.mem_of_getElem? ht, hphase, htid⟩
  refine ⟨fun k t ht => ⟨t, ?_, rfl, id⟩, fun h j k t u ht hu htp hup htid => ?_⟩
  · rw [List.getElem?_append_left (List.getElem?_eq_some_iff.1 ht).1, ht]
  · rcases hnew j t ht with ht | ⟨hj, ht⟩
    · rcases hnew k u hu with hu | ⟨hk, hu⟩
      · exact h j k t u ht hu htp hup htid
      · exact absurd (htid.trans hu) (hold j t ht htp)
    · rcases hnew k u hu with hu | ⟨hk, hu⟩
      · exact absurd (htid.symm.trans ht) (hold k u hu hup)
      · exact hj.trans hk.symm

theorem ages_move {k : ℕ} {phase phase' : ThreadPhase} (hphase : phase ≠ .joined)
    (hst : s.move k phase phase' = some s') :
    ∃ threads, s' = { s with threads := threads } ∧ Ages s.threads threads := by
  unfold move at hst
  split at hst
  · rename_i t ht
    split_ifs at hst with hp
    obtain rfl := Option.some.inj hst
    have hset : ∀ j, (s.threads.set k { t with phase := phase' })[j]?
        = if k = j then some { t with phase := phase' } else s.threads[j]? := by
      intro j
      rw [List.getElem?_set, if_pos (List.getElem?_eq_some_iff.1 ht).1]
    have hback : ∀ (j : ℕ) (u : BoardThread θ),
        (s.threads.set k { t with phase := phase' })[j]? = some u → u.phase ≠ .joined →
        ∃ u', s.threads[j]? = some u' ∧ u'.tid = u.tid ∧ u'.phase ≠ .joined := by
      intro j u hu hup
      rw [hset] at hu
      split_ifs at hu with hj
      · obtain rfl := Option.some.inj hu
        subst hj
        exact ⟨t, ht, rfl, by rw [hp]; exact hphase⟩
      · exact ⟨u, hu, rfl, hup⟩
    refine ⟨_, rfl, fun j u hu => ?_, fun h i j u v hu hv hup hvp htid => ?_⟩
    · rw [hset]
      split_ifs with hj
      · subst hj
        obtain rfl := Option.some.inj (ht.symm.trans hu)
        exact ⟨_, rfl, rfl, fun hjoined => absurd (hp.symm.trans hjoined) hphase⟩
      · exact ⟨u, hu, rfl, id⟩
    · obtain ⟨u', hu', hutid, hup'⟩ := hback i u hu hup
      obtain ⟨v', hv', hvtid, hvp'⟩ := hback j v hv hvp
      exact h i j u' v' hu' hv' hup' hvp' (by rw [hutid, hvtid, htid])
  · cases hst

theorem WriterInv.ages (h : s.WriterInv) {threads : List (BoardThread θ)}
    (hages : Ages s.threads threads) : WriterInv { s with threads := threads } where
  writer := h.writer
  threw := h.threw
  unchanged := h.unchanged
  standings := h.standings
  tid c hc := by
    obtain ⟨t, ht, htid⟩ := Option.map_eq_some_iff.1 (h.tid c hc)
    obtain ⟨t', ht', htid', -⟩ := hages.kept _ t ht
    rw [ht', Option.map_some, htid', htid]

/-- One more call, whose outcome is right. -/
theorem WriterInv.call (h : s.WriterInv) {b : Leaderboard θ} {c : UpdateCall θ}
    (hwriter : b.writerId = (s.updates ++ [c]).head?.map UpdateCall.tid)
    (hthrew : ∀ first, (s.updates ++ [c]).head? = some first →
      (c.threw = false ↔ c.tid = first.tid))
    (hunchanged : c.threw = true → c.after = c.before)
    (hstandings : b.standings = if c.threw then s.board.standings else c.sortedStandings)
    (htid : (s.threads[c.thread]?).map BoardThread.tid = some c.tid) :
    WriterInv { s with board := b, updates := s.updates ++ [c] } where
  writer := hwriter
  threw first hfirst d hd := by
    rcases List.mem_append.1 hd with hd | hd
    · obtain ⟨first', rest, hcons⟩ := List.exists_cons_of_ne_nil (List.ne_nil_of_mem hd)
      have hfirst' : s.updates.head? = some first' := by
        rw [hcons]
        rfl
      have hsame : (s.updates ++ [c]).head? = some first' := by
        rw [List.head?_append, hfirst']
        rfl
      obtain rfl := Option.some.inj (hsame.symm.trans hfirst)
      exact h.threw _ hfirst' d hd
    · rw [List.mem_singleton.1 hd]
      exact hthrew first hfirst
  unchanged d hd := by
    rcases List.mem_append.1 hd with hd | hd
    · exact h.unchanged d hd
    · rw [List.mem_singleton.1 hd]
      exact hunchanged
  standings := by
    have hlatest := h.standings
    unfold latest at hlatest ⊢
    rw [List.filter_append]
    rcases hc : c.threw with _ | _
    · rw [hc, if_neg (by decide)] at hstandings
      rw [List.filter_cons_of_pos (by simp [hc]), List.filter_nil, List.getLast?_concat]
      exact hstandings
    · rw [hc, if_pos rfl] at hstandings
      rw [List.filter_cons_of_neg (by simp [hc]), List.filter_nil, List.append_nil]
      exact hstandings.trans hlatest
  tid d hd := by
    rcases List.mem_append.1 hd with hd | hd
    · exact h.tid d hd
    · rw [List.mem_singleton.1 hd]
      exact htid

variable [DecidableEq θ]

/-- A step is a call of `update`, or leaves the board and the calls. -/
theorem step_cases {l : ThreadsLabel θ} (hst : s.step l = some s') :
    (∃ threads, s' = { s with threads := threads } ∧ Ages s.threads threads)
      ∨ ∃ k tid sorted, s.threads[k]? = some ⟨tid, .running⟩ ∧ s' = s.update k tid sorted := by
  cases l with
  | create tid =>
    simp only [step] at hst
    split_ifs at hst with hheld
    exact .inl ⟨_, (Option.some.inj hst).symm, ages_create hheld⟩
  | terminate k => exact .inl (ages_move (by decide) hst)
  | join k => exact .inl (ages_move (by decide) hst)
  | update k sorted =>
    simp only [step] at hst
    split at hst
    · rename_i tid hk
      exact .inr ⟨k, tid, sorted, hk, (Option.some.inj hst).symm⟩
    · cases hst
  | read k =>
    simp only [step] at hst
    split at hst
    · obtain rfl := Option.some.inj hst
      exact .inl ⟨s.threads, rfl, ages_refl s.threads⟩
    · cases hst

section Update

variable {k : ℕ} {tid : θ}

/-- A call that the check lets through. -/
theorem update_of_writer (h : s.board.writerId = none ∨ s.board.writerId = some tid)
    (sorted : List DriverState) : s.update k tid sorted = { s with
      board := ⟨sorted, some tid⟩
      updates := s.updates ++ [⟨k, tid, sorted, false, s.board, ⟨sorted, some tid⟩⟩] } := by
  unfold update
  rw [Leaderboard.update_of_writer h]
  rfl

theorem update_of_other {writer : θ} (h : s.board.writerId = some writer) (hne : writer ≠ tid)
    (sorted : List DriverState) : s.update k tid sorted = { s with
      updates := s.updates ++ [⟨k, tid, sorted, true, s.board, s.board⟩] } := by
  unfold update
  rw [Leaderboard.update_of_other h hne]
  rfl

theorem WriterInv.update (h : s.WriterInv) (hk : s.threads[k]? = some ⟨tid, .running⟩)
    (sorted : List DriverState) : WriterInv (s.update k tid sorted) := by
  have htid : (s.threads[k]?).map BoardThread.tid = some tid := by rw [hk, Option.map_some]
  rcases hfirst : s.updates.head? with _ | first
  · -- nobody has called before
    have hnone : s.updates = [] := List.head?_eq_none_iff.1 hfirst
    have hwriter : s.board.writerId = none := by rw [h.writer, hfirst, Option.map_none]
    rw [update_of_writer (.inl hwriter)]
    refine h.call ?_ (fun first' hfirst' => ?_) (by simp) rfl htid
    · rw [hnone]
      rfl
    · rw [hnone] at hfirst'
      obtain rfl := Option.some.inj hfirst'
      exact iff_of_true rfl rfl
  have hwriter : s.board.writerId = some first.tid := by rw [h.writer, hfirst, Option.map_some]
  have hhead : ∀ c, (s.updates ++ [c]).head? = some first := by
    intro c
    rw [List.head?_append, hfirst]
    rfl
  by_cases hsame : first.tid = tid
  · rw [update_of_writer (.inr (hsame ▸ hwriter))]
    refine h.call ?_ (fun first' hfirst' => ?_) (by simp) rfl htid
    · rw [hhead, Option.map_some, hsame]
    · obtain rfl := Option.some.inj ((hhead _).symm.trans hfirst')
      exact iff_of_true rfl hsame.symm
  · rw [update_of_other hwriter hsame]
    refine h.call ?_ (fun first' hfirst' => ?_) (fun _ => rfl) rfl htid
    · rw [hhead, Option.map_some, hwriter]
    · obtain rfl := Option.some.inj ((hhead _).symm.trans hfirst')
      exact iff_of_false (by simp) fun heq => hsame heq.symm

end Update

theorem writerInv_init : WriterInv (threadsSystem θ).init where
  writer := rfl
  threw _ hfirst := by cases hfirst
  unchanged _ hc := by cases hc
  standings := rfl
  tid _ hc := by cases hc

theorem writerInv_reachable (h : (threadsSystem θ).Reachable s) : s.WriterInv := by
  refine h.invariant writerInv_init fun {s l s'} _ hinv _ hst => ?_
  rcases step_cases hst with ⟨threads, rfl, hages⟩ | ⟨k, tid, sorted, hk, rfl⟩
  · exact hinv.ages hages
  · exact hinv.update hk sorted

/-- The board has a single writer exactly as long as no other thread calls `update` under the first
writer's id. -/
theorem single_writer_iff (h : (threadsSystem θ).Reachable s) :
    s.SingleWriter ↔ s.Exclusive := by
  have hinv := writerInv_reachable h
  constructor
  · intro hsingle first hfirst c hc htid
    exact (hsingle.first first hfirst c hc).1 ((hinv.threw first hfirst c hc).2 htid)
  · intro hexclusive
    refine ⟨fun first hfirst c hc => ?_, hinv.unchanged, hinv.standings⟩
    rw [hinv.threw first hfirst c hc]
    refine ⟨hexclusive first hfirst c hc, fun hthread => ?_⟩
    have hctid := hinv.tid c hc
    rw [hthread, hinv.tid first (List.mem_of_head? hfirst)] at hctid
    exact (Option.some.inj hctid).symm

/-- As long as the first writer is not joined no other thread bears its id. -/
structure Held (s : ThreadsState θ) : Prop where
  distinct : Distinct s.threads
  held : ∀ first, s.updates.head? = some first → ∀ t, s.threads[first.thread]? = some t →
    t.phase ≠ .joined → ∀ c ∈ s.updates, c.tid = first.tid → c.thread = first.thread

theorem held_init : Held (threadsSystem θ).init where
  distinct _ _ _ _ ht := by cases ht
  held _ hfirst := by cases hfirst

omit [DecidableEq θ] in
theorem Held.ages (h : s.Held) (hinv : s.WriterInv) {threads : List (BoardThread θ)}
    (hages : Ages s.threads threads) : Held { s with threads := threads } where
  distinct := hages.distinct h.distinct
  held first hfirst t ht hphase := by
    obtain ⟨u, hu, -⟩ := Option.map_eq_some_iff.1 (hinv.tid first (List.mem_of_head? hfirst))
    obtain ⟨t', ht', -, hjoined⟩ := hages.kept _ u hu
    obtain rfl := Option.some.inj (ht.symm.trans ht')
    exact h.held first hfirst u hu fun hu => hphase (hjoined hu)

theorem Held.update (h : s.Held) (hinv : s.WriterInv) {k : ℕ} {tid : θ}
    (hk : s.threads[k]? = some ⟨tid, .running⟩) (sorted : List DriverState) :
    Held (s.update k tid sorted) where
  distinct := h.distinct
  held first hfirst t ht hphase c hc htid := by
    have hcaller := (hinv.update hk sorted).tid first (List.mem_of_head? hfirst)
    have ht' : s.threads[first.thread]? = some t := ht
    rcases List.mem_append.1 hc with hc | hc
    · obtain ⟨first', rest, hcons⟩ := List.exists_cons_of_ne_nil (List.ne_nil_of_mem hc)
      have hfirst' : s.updates.head? = some first := by
        rw [← hfirst]
        unfold ThreadsState.update
        rw [hcons]
        rfl
      exact h.held first hfirst' t ht' hphase c hc htid
    · rw [List.mem_singleton.1 hc] at htid ⊢
      rw [ht, Option.map_some] at hcaller
      exact h.distinct k first.thread ⟨tid, .running⟩ t hk ht' (by simp) hphase
        (htid.trans (Option.some.inj hcaller).symm)

/-- So in a run that does not join the first writer the board has a single writer. -/
theorem exclusive_of_not_joined (h : (threadsSystem θ).Reachable s)
    (hheld : ∀ first, s.updates.head? = some first → ∀ t, s.threads[first.thread]? = some t →
      t.phase ≠ .joined) : s.Exclusive := by
  have hinv := writerInv_reachable h
  have hreached : s.Held := by
    refine h.invariant held_init fun {s l s'} hs hheld _ hst => ?_
    have hinv := writerInv_reachable hs
    rcases step_cases hst with ⟨threads, rfl, hages⟩ | ⟨k, tid, sorted, hk, rfl⟩
    · exact hheld.ages hinv hages
    · exact hheld.update hinv hk sorted
  intro first hfirst
  obtain ⟨t, ht, -⟩ := Option.map_eq_some_iff.1 (hinv.tid first (List.mem_of_head? hfirst))
  exact hreached.held first hfirst t ht (hheld first hfirst t ht)

end ThreadsState

/-- Thread 0 is joined after its call, and thread 1 with its id puts other standings on the
board. -/
def reusedId : List (ThreadsLabel ℕ) :=
  [.create 7, .update 0 [], .terminate 0, .join 0, .create 7, .update 1 [.onGrid 0 0]]

theorem not_single_writer :
    ∃ s, (threadsSystem ℕ).Reachable s ∧ ¬ s.SingleWriter ∧ s.board.standings = [.onGrid 0 0] := by
  refine ⟨((threadsSystem ℕ).run (threadsSystem ℕ).init reusedId).get rfl,
    System.reachable_get reusedId rfl, fun h => ?_, rfl⟩
  have hsecond := h.first ⟨0, 7, [], false, .empty, ⟨[], some 7⟩⟩ rfl
    ⟨1, 7, [.onGrid 0 0], false, ⟨[], some 7⟩, ⟨[.onGrid 0 0], some 7⟩⟩
    (List.mem_cons_of_mem _ (List.mem_singleton.2 rfl))
  exact absurd (hsecond.1 rfl) one_ne_zero

/-- A second thread calls between two calls of the first. -/
def secondWriter : List (ThreadsLabel ℕ) :=
  [.create 7, .create 8, .update 0 [], .update 1 [.onGrid 0 0], .update 0 [.onGrid 1 0]]

theorem single_writer_iff_secondWriter :
    ∃ s, (threadsSystem ℕ).Reachable s ∧ s.updates.map UpdateCall.threw = [false, true, false]
      ∧ s.board.standings = [.onGrid 1 0] ∧ s.SingleWriter := by
  have hreached : (threadsSystem ℕ).Reachable _ := System.reachable_get secondWriter rfl
  refine ⟨_, hreached, rfl, rfl, (ThreadsState.single_writer_iff hreached).2 ?_⟩
  intro first hfirst
  obtain rfl := Option.some.inj hfirst
  decide

end RaceConditionZ
