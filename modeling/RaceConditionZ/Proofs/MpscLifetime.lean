import RaceConditionZ.Proofs.MpscFifo

/-!
# The life of a node

A node is live from its allocation to its one deletion. What a step reads or writes is a node of the
list, a node not yet exchanged, or the one the consumer is about to delete, and these are the live
ones. The destructor's loop ends, and leaves none.
-/

namespace RaceConditionZ

open Transition

variable {ι T : Type} [DecidableEq ι] [Fintype ι]

/-- Each address is live for one more allocation than deletion, or not at all. -/
structure NodeCount (s : MpscState ι T) : Prop where
  count_eq : ∀ a, s.history.allocated.count a
    = s.history.deleted.count a + if a ∈ s.queue.live then 1 else 0
  none_live : s.phase = .destroyed → s.queue.live = ∅

section Live

variable {s : MpscState ι T}

omit [DecidableEq ι] [Fintype ι]

theorem MpscInv.tail_live (hI : MpscInv s) (hphase : s.phase ≠ .destroyed) :
    s.queue.tail ∈ s.queue.live := by
  obtain ⟨taken, old, hL, hat⟩ := hI.shape hphase
  rcases hc : s.consumer with _ | ⟨out, _ | n | n | o | ok⟩ <;> rw [hc] at hat
  · rw [hat.2.2]
    exact hL.node_live le_rfl hL.taken_le
  · rw [hat.2.2]
    exact hL.node_live le_rfl hL.taken_le
  · rw [hat.2.2.1]
    exact hL.node_live le_rfl hL.taken_le
  · exact (hL.live_iff _).2 (.inr (.inl hat.2.1))
  · rw [hat.2.2.1]
    exact hL.node_live le_rfl hL.taken_le
  · rw [hat.2.2]
    exact hL.node_live le_rfl hL.taken_le

theorem MpscInv.old_live (hI : MpscInv s) {out : Option T} {old : ℕ}
    (hc : s.consumer = some ⟨out, .delete old⟩) :
    old ∈ s.queue.live ∧ old ≠ s.queue.tail := by
  obtain ⟨taken, old', hL, hat⟩ := hI.shape (hI.busy hc rfl)
  rw [hc] at hat
  obtain ⟨-, rfl, htail, -⟩ := hat
  refine ⟨(hL.live_iff old).2 (.inr (.inl rfl)), fun he => ?_⟩
  exact hL.old_ne taken le_rfl hL.taken_le (by rw [← htail, he])

/-- Behind the node the consumer stands on is a live one. -/
theorem MpscInv.next_live (hI : MpscInv s) {out : Option T} {n : ℕ}
    (hc : s.consumer = some ⟨out, .load⟩ ∧ s.queue.next s.queue.tail = some n
      ∨ s.consumer = some ⟨out, .take n⟩ ∨ s.consumer = some ⟨out, .advance n⟩) :
    n ∈ s.queue.live := by
  rcases hc with ⟨hc, hn⟩ | hc | hc <;>
    obtain ⟨taken, old, hL, hat⟩ := hI.shape (hI.busy hc rfl) <;>
    rw [hc] at hat
  · rw [hat.2.2] at hn
    obtain ⟨hlt, rfl⟩ := hL.next_eq le_rfl hL.taken_le hn
    exact hL.node_live (Nat.le_succ _) hlt
  · obtain ⟨-, -, htail, hn⟩ := hat
    rw [htail] at hn
    obtain ⟨hlt, rfl⟩ := hL.next_eq le_rfl hL.taken_le hn
    exact hL.node_live (Nat.le_succ _) hlt
  · rw [hat.2.2.1]
    exact hL.node_live le_rfl hL.taken_le

theorem MpscInv.prevHead_live (hI : MpscInv s) {i : ι} {v : T} {new prev : ℕ}
    (hi : s.producers i = some ⟨v, .link new prev⟩) :
    prev ∈ s.queue.live ∧ new ∈ s.queue.live := by
  obtain ⟨taken, old, hL, -⟩ := hI.shape (by simp [hI.alive hi (by simp)])
  obtain ⟨hk, -, rfl, rfl, -⟩ := hL.linking i v new prev hi
  have hlt := hL.place_lt hi
  exact ⟨hL.node_live hk hlt.le, hL.node_live (Nat.le_succ_of_le hk) hlt⟩

theorem MpscInv.prevHead_ne (hI : MpscInv s) {i j : ι} {v w : T} {new new' prev : ℕ}
    (hi : s.producers i = some ⟨v, .link new prev⟩)
    (hj : s.producers j = some ⟨w, .link new' prev⟩) : i = j := by
  obtain ⟨taken, old, hL, -⟩ := hI.shape (by simp [hI.alive hi (by simp)])
  exact hL.prevHead_ne hi hj

/-- Once the destructor's last pop has failed, its sentinel is the only node left. -/
theorem MpscInv.live_eq_tail (hI : MpscInv s) {out : Option T} (hphase : s.phase = .draining)
    (hc : s.consumer = some ⟨out, .returned false⟩) : s.queue.live = {s.queue.tail} := by
  obtain ⟨taken, old, hL, hat⟩ := hI.shape (by simp [hphase])
  rw [hc] at hat
  obtain ⟨ht, rfl, htail⟩ := hat
  have hlen := hI.drained hphase out hc
  ext a
  rw [Finset.mem_singleton, hL.live_iff a, htail]
  constructor
  · rintro (⟨k, hk, hle, rfl⟩ | ho | ⟨i, v, hi⟩)
    · obtain rfl : k = taken := by omega
      rfl
    · cases ho
    · have := hI.closed (by simp [hphase]) i _ hi
      cases this
  · rintro rfl
    exact .inl ⟨taken, le_rfl, hL.taken_le, rfl⟩

end Live

/-- A deletion takes a live node. -/
theorem count_erase {allocated deleted : List ℕ} {live : Finset ℕ} {a : ℕ} (ha : a ∈ live)
    (hcount : ∀ b, allocated.count b = deleted.count b + if b ∈ live then 1 else 0) (b : ℕ) :
    allocated.count b = (deleted ++ [a]).count b + if b ∈ live.erase a then 1 else 0 := by
  rw [hcount b, List.count_append, List.count_singleton]
  by_cases hab : b = a
  · subst hab
    simp [ha]
  · simp [hab, Ne.symm hab]

theorem NodeCount.step {s s' : MpscState ι T} {l : MpscLabel ι T} (hI : MpscInv s)
    (hN : NodeCount s) (hst : s.step l = some s') : NodeCount s' := by
  cases mpscMove_of_step hst with
  | @allocate i v a hi ha =>
    have hphase := hI.alive hi (by simp)
    refine ⟨fun b => ?_, by simp [hphase]⟩
    rw [List.count_append, hN.count_eq b, List.count_singleton]
    by_cases hab : b = a
    · subst hab
      simp [ha]
    · simp [hab, Ne.symm hab]
  | @delete out old hc =>
    exact ⟨count_erase (hI.old_live hc).1 hN.count_eq,
      fun hd => absurd hd (hI.busy hc rfl)⟩
  | @finish out hphase hc =>
    refine ⟨count_erase (hI.tail_live (by simp [hphase])) hN.count_eq, fun _ => ?_⟩
    rw [hI.live_eq_tail hphase hc]
    simp
  | exchange hi =>
    have hphase := hI.alive hi (by simp)
    exact ⟨hN.count_eq, by simp [hphase]⟩
  | link hi =>
    have hphase := hI.alive hi (by simp)
    exact ⟨hN.count_eq, by simp [hphase]⟩
  | callPush | callPop | fail | load | take | advance | again => exact ⟨hN.count_eq, hN.none_live⟩
  | destroy => exact ⟨hN.count_eq, by simp⟩

theorem nodeCount_reachable [Inhabited T] {s : MpscState ι T}
    (h : (mpscSystem ι T).Reachable s) : NodeCount s := by
  refine h.invariant ⟨fun a => ?_, ?_⟩ fun hs hN _ hst => hN.step (mpscInv_reachable hs) hst
  · by_cases ha : a = 0 <;> simp [mpscSystem, MpscState.init, MpscQueue.empty, ha, eq_comm]
  · simp [mpscSystem, MpscState.init]

/-- Each step that deletes a node deletes a live one, which then is live no more. -/
theorem MpscInv.deleted_step {s s' : MpscState ι T} {l : MpscLabel ι T} (hI : MpscInv s)
    (hst : s.step l = some s') : s'.history.deleted = s.history.deleted
      ∨ ∃ a ∈ s.queue.live, s'.history.deleted = s.history.deleted ++ [a]
        ∧ s'.queue.live = s.queue.live.erase a := by
  cases mpscMove_of_step hst with
  | @delete out old hc => exact .inr ⟨old, (hI.old_live hc).1, rfl, rfl⟩
  | @finish out hphase hc => exact .inr ⟨_, hI.tail_live (by simp [hphase]), rfl, rfl⟩
  | callPush | allocate | exchange | link | callPop | fail | load | take | advance | destroy
    | again => exact .inl rfl

section Destructor

/-- The steps the destructor has before it, counted from above. -/
def MpscState.drainRest (s : MpscState ι T) : ℕ :=
  if s.phase = .destroyed then 0
  else 8 * (s.history.exchanged.length - s.history.popped.length)
    + match s.consumer.map MpscPop.pc with
      | some (.returned true) => 6
      | some .load => 5
      | some (.take _) => 4
      | some (.advance _) => 3
      | some (.delete _) => 2
      | _ => 1

theorem consumer_ne_none [Inhabited T] {s : MpscState ι T} (h : (mpscSystem ι T).Reachable s) :
    s.phase ≠ .alive → s.consumer ≠ none := by
  refine h.invariant (I := fun s => s.phase ≠ .alive → s.consumer ≠ none)
    (fun hne => absurd rfl hne) fun _ hI _ hst => ?_
  cases mpscMove_of_step hst with
  | fail | load | take | advance | delete | callPop | destroy | again => exact fun _ => by simp
  | finish hphase hc => exact fun _ => by simp [hc]
  | callPush | allocate | exchange | link => exact hI

/-- While the destructor runs the next step is its own, whatever its call of `pop` has found. -/
theorem exists_step_of_draining {s : MpscState ι T} (hphase : s.phase = .draining)
    (hc : s.consumer ≠ none) : ∃ l s', s.step l = some s' := by
  obtain ⟨⟨out, pc⟩, hc⟩ := Option.ne_none_iff_exists'.1 hc
  rcases pc with _ | n | n | o | _ | _
  · rcases hn : s.queue.next s.queue.tail with _ | n
    · exact ⟨.pop, _, by simp only [MpscState.step, hc, MpscQueue.pop, hn]; rfl⟩
    · exact ⟨.pop, _, by simp only [MpscState.step, hc, MpscQueue.pop, hn]; rfl⟩
  · exact ⟨.pop, _, by simp only [MpscState.step, hc, MpscQueue.pop]; rfl⟩
  · exact ⟨.pop, _, by simp only [MpscState.step, hc, MpscQueue.pop]; rfl⟩
  · exact ⟨.pop, _, by simp only [MpscState.step, hc, MpscQueue.pop]; rfl⟩
  · exact ⟨.destroy, _, by simp only [MpscState.step, MpscState.destroy, hphase, hc]; rfl⟩
  · exact ⟨.destroy, _, by simp only [MpscState.step, MpscState.destroy, hphase, hc]; rfl⟩

/-- Each of these steps brings the destructor nearer to its end. -/
theorem MpscInv.drainRest_lt {s s' : MpscState ι T} {l : MpscLabel ι T} (hI : MpscInv s)
    (hphase : s.phase = .draining) (hst : s.step l = some s') :
    s'.phase ≠ .alive ∧ s'.drainRest < s.drainRest := by
  have hne : s.phase ≠ .destroyed := by simp [hphase]
  have hle := (hI.step hst).popped_le
  cases mpscMove_of_step hst with
  | callPush h | callPop h | destroy h => cases hphase.symm.trans h
  | allocate hi | exchange hi | link hi => cases hphase.symm.trans (hI.alive hi (by simp))
  | fail hc | load hc | take hc | advance hc =>
    refine ⟨by simp [hphase], ?_⟩
    simp [MpscState.drainRest, hphase, hc]
  | delete hc =>
    refine ⟨by simp [hphase], ?_⟩
    simp only [List.length_append, List.length_singleton] at hle
    simp [MpscState.drainRest, hphase, hc]
    omega
  | again h hc =>
    refine ⟨by simp [hphase], ?_⟩
    simp [MpscState.drainRest, hphase, hc]
  | finish h hc =>
    refine ⟨by simp, ?_⟩
    simp [MpscState.drainRest, hphase, hc]

/-- The destructor ends: there is no step but its own, and there are finitely many of these. -/
theorem destructor_ends [Inhabited T] {s : MpscState ι T} (h : (mpscSystem ι T).Reachable s)
    (hphase : s.phase ≠ .alive) :
    ∃ s', (mpscSystem ι T).Leads s s' ∧ s'.phase = .destroyed := by
  induction hm : s.drainRest using Nat.strong_induction_on generalizing s with
  | _ m ih =>
    by_cases hd : s.phase = .destroyed
    · exact ⟨s, .refl, hd⟩
    have hdrain : s.phase = .draining := by
      cases hp : s.phase with
      | draining => rfl
      | alive => exact absurd hp hphase
      | destroyed => exact absurd hp hd
    obtain ⟨l, s₁, hst⟩ := exists_step_of_draining hdrain (consumer_ne_none h hphase)
    obtain ⟨hphase₁, hlt⟩ := (mpscInv_reachable h).drainRest_lt hdrain hst
    obtain ⟨s', hl, hd'⟩ := ih _ (hm ▸ hlt) (h.step hst) hphase₁ rfl
    exact ⟨s', .head ⟨l, hst⟩ hl, hd'⟩

end Destructor

/-- Every node a step reads or writes is live, and every node allocated is deleted once. -/
theorem mpsc_lifetime [Inhabited T] {s : MpscState ι T} (h : (mpscSystem ι T).Reachable s) :
    (∀ i v new prev, s.producers i = some ⟨v, .link new prev⟩ → prev ∈ s.queue.live)
      ∧ (∀ i j v w new new' prev, s.producers i = some ⟨v, .link new prev⟩ →
        s.producers j = some ⟨w, .link new' prev⟩ → i = j)
      ∧ (s.phase ≠ .destroyed → s.queue.tail ∈ s.queue.live)
      ∧ (∀ out n, s.consumer = some ⟨out, .load⟩ → s.queue.next s.queue.tail = some n →
        n ∈ s.queue.live)
      ∧ (∀ out n, s.consumer = some ⟨out, .take n⟩ ∨ s.consumer = some ⟨out, .advance n⟩ →
        n ∈ s.queue.live)
      ∧ (∀ l s', s.step l = some s' → s'.history.deleted = s.history.deleted
        ∨ ∃ a ∈ s.queue.live, s'.history.deleted = s.history.deleted ++ [a]
          ∧ s'.queue.live = s.queue.live.erase a)
      ∧ (∀ a, s.history.allocated.count a
        = s.history.deleted.count a + if a ∈ s.queue.live then 1 else 0)
      ∧ (s.phase ≠ .alive → ∃ s', (mpscSystem ι T).Leads s s' ∧ s'.phase = .destroyed)
      ∧ (s.phase = .destroyed → s.queue.live = ∅
        ∧ s.history.deleted.Perm s.history.allocated) := by
  have hI := mpscInv_reachable h
  have hN := nodeCount_reachable h
  refine ⟨fun i v new prev hi => (hI.prevHead_live hi).1,
    fun i j v w new new' prev hi hj => hI.prevHead_ne hi hj, hI.tail_live,
    fun out n hc hn => hI.next_live (.inl ⟨hc, hn⟩), fun out n hc => hI.next_live (.inr hc),
    fun l s' hst => hI.deleted_step hst, hN.count_eq, destructor_ends h, fun hd => ?_⟩
  refine ⟨hN.none_live hd, List.perm_iff_count.2 fun a => ?_⟩
  rw [hN.count_eq a, hN.none_live hd]
  simp

/-- A push still to link while its value's predecessor is popped, and the destructor. -/
def pushPopDestroy : List (MpscLabel (Fin 2) ℕ) :=
  [.callPush 0 7, .callPush 1 8, .push 0 1, .push 0 0, .push 1 2, .push 1 0, .push 0 0,
    .callPop none, .pop, .pop, .pop, .pop, .push 1 0, .destroy, .pop, .pop, .pop, .pop, .destroy,
    .pop, .destroy]

theorem mpsc_lifetime_pushPopDestroy :
    let s := ((mpscSystem (Fin 2) ℕ).run .init pushPopDestroy).get (by decide)
    s.history.deleted.Perm [0, 1, 2] :=
  have hs := System.reachable_get (M := mpscSystem (Fin 2) ℕ) pushPopDestroy (by decide)
  ((mpsc_lifetime hs).2.2.2.2.2.2.2.2 (by decide)).2

end RaceConditionZ
