import RaceConditionZ.Lib.Fifo
import RaceConditionZ.Proofs.MpscList
import Mathlib.Data.Fintype.Basic

/-!
# Popped in the order of the exchanges

A value is in the queue from the exchange of `head_` on. A pop takes the oldest one not yet taken
whenever its node is linked, so what is popped is always a prefix of what was exchanged, and a pop
fails only where there is nothing left or where the push of the oldest value is still to link it.
-/

namespace RaceConditionZ

open Transition

variable {ι T : Type}

/-- Where the consumer's call is: how many values have left the list, and which node it is about to
delete. -/
def PopAt (q : MpscQueue T) (h : MpscHistory ι T) (taken : ℕ) (old : Option ℕ) :
    Option (MpscPop T) → Prop
  | some ⟨_, .take n⟩ =>
    taken = h.popped.length ∧ old = none ∧ q.tail = h.node taken ∧ q.next q.tail = some n
  | some ⟨out, .advance n⟩ =>
    taken = h.popped.length + 1 ∧ old = some q.tail ∧ n = h.node taken
      ∧ ∃ i v, h.exchanged[h.popped.length]? = some (i, v) ∧ out = some v
  | some ⟨out, .delete oldTail⟩ =>
    taken = h.popped.length + 1 ∧ old = some oldTail ∧ q.tail = h.node taken
      ∧ ∃ i v, h.exchanged[h.popped.length]? = some (i, v) ∧ out = some v
  | _ => taken = h.popped.length ∧ old = none ∧ q.tail = h.node taken

/-- What a producer's step leaves of it. -/
theorem PopAt.of_push {q q' : MpscQueue T} {h h' : MpscHistory ι T} {taken : ℕ} {old : Option ℕ}
    {c : Option (MpscPop T)} (hat : PopAt q h taken old c) (htail : q'.tail = q.tail)
    (hpopped : h'.popped = h.popped) (hnode : h'.node taken = h.node taken)
    (hex : h.exchanged <+: h'.exchanged)
    (hnext : q.tail = h.node taken → ∀ n, q.next q.tail = some n → q'.next q.tail = some n) :
    PopAt q' h' taken old c := by
  have hval : ∀ {k : ℕ} {x : ι × T}, h.exchanged[k]? = some x → h'.exchanged[k]? = some x := by
    intro k x hx
    obtain ⟨l, hl⟩ := hex
    rw [← hl, List.getElem?_append_left (List.getElem?_eq_some_iff.1 hx).1]
    exact hx
  rcases c with _ | ⟨out, _ | n | n | o | ok⟩ <;>
    simp only [PopAt, htail, hpopped, hnode] at hat ⊢
  · exact hat
  · exact hat
  · obtain ⟨ht, ho, htl, hn⟩ := hat
    exact ⟨ht, ho, htl, hnext htl n hn⟩
  · obtain ⟨ht, ho, hn, i, v, hx, hv⟩ := hat
    exact ⟨ht, ho, hn, i, v, hval hx, hv⟩
  · obtain ⟨ht, ho, htl, i, v, hx, hv⟩ := hat
    exact ⟨ht, ho, htl, i, v, hval hx, hv⟩
  · exact hat

theorem PopAt.of_returned {q : MpscQueue T} {h : MpscHistory ι T} {taken : ℕ} {old : Option ℕ}
    {c : Option (MpscPop T)} (hc : c.all MpscPop.isReturned) (hat : PopAt q h taken old c)
    (out : Option T) : PopAt q h taken old (some ⟨out, .load⟩) := by
  rcases c with _ | ⟨out', _ | n | n | o | ok⟩
  · exact hat
  all_goals first | exact hat | cases hc

variable [DecidableEq ι] [Fintype ι]

/-- The steps, one for each control point of each call. -/
inductive MpscMove (s : MpscState ι T) : MpscLabel ι T → MpscState ι T → Prop
  | callPush {i : ι} {v : T} (hphase : s.phase = .alive)
      (hi : ∀ p, s.producers i = some p → p.pc = .returned) :
      MpscMove s (.callPush i v) { s with
        producers := Function.update s.producers i (some ⟨v, .allocate⟩)
        history := { s.history with
          given := Function.update s.history.given i (s.history.given i ++ [v]) } }
  | allocate {i : ι} {v : T} {a : ℕ} (hi : s.producers i = some ⟨v, .allocate⟩)
      (ha : a ∉ s.queue.live) :
      MpscMove s (.push i a) { s with
        queue := { s.queue with
          data := Function.update s.queue.data a (some v)
          next := Function.update s.queue.next a none
          live := insert a s.queue.live }
        producers := Function.update s.producers i (some ⟨v, .exchange a⟩)
        history := { s.history with allocated := s.history.allocated ++ [a] } }
  | exchange {i : ι} {v : T} {a b : ℕ} (hi : s.producers i = some ⟨v, .exchange a⟩) :
      MpscMove s (.push i b) { s with
        queue := { s.queue with head := a }
        producers := Function.update s.producers i (some ⟨v, .link a s.queue.head⟩)
        history := { s.history with
          exchanged := s.history.exchanged ++ [(i, v)]
          node := Function.update s.history.node (s.history.exchanged.length + 1) a
          place := Function.update s.history.place i s.history.exchanged.length } }
  | link {i : ι} {v : T} {new prev b : ℕ} (hi : s.producers i = some ⟨v, .link new prev⟩) :
      MpscMove s (.push i b) { s with
        queue := { s.queue with next := Function.update s.queue.next prev (some new) }
        producers := Function.update s.producers i (some ⟨v, .returned⟩) }
  | callPop {out : Option T} (hphase : s.phase = .alive) (hc : s.consumer.all MpscPop.isReturned) :
      MpscMove s (.callPop out) { s with consumer := some ⟨out, .load⟩ }
  | fail {out : Option T} (hc : s.consumer = some ⟨out, .load⟩)
      (hn : s.queue.next s.queue.tail = none) :
      MpscMove s .pop { s with consumer := some ⟨out, .returned false⟩ }
  | load {out : Option T} {n : ℕ} (hc : s.consumer = some ⟨out, .load⟩)
      (hn : s.queue.next s.queue.tail = some n) :
      MpscMove s .pop { s with consumer := some ⟨out, .take n⟩ }
  | take {out : Option T} {n : ℕ} (hc : s.consumer = some ⟨out, .take n⟩) :
      MpscMove s .pop { s with
        queue := { s.queue with data := Function.update s.queue.data n none }
        consumer := some ⟨s.queue.data n, .advance n⟩ }
  | advance {out : Option T} {n : ℕ} (hc : s.consumer = some ⟨out, .advance n⟩) :
      MpscMove s .pop { s with
        queue := { s.queue with tail := n }
        consumer := some ⟨out, .delete s.queue.tail⟩ }
  | delete {out : Option T} {old : ℕ} (hc : s.consumer = some ⟨out, .delete old⟩) :
      MpscMove s .pop { s with
        queue := { s.queue with live := s.queue.live.erase old }
        consumer := some ⟨out, .returned true⟩
        history := { s.history with
          popped := s.history.popped ++ [out]
          deleted := s.history.deleted ++ [old] } }
  | destroy (hphase : s.phase = .alive)
      (hp : ∀ i p, s.producers i = some p → p.pc = .returned)
      (hc : s.consumer.all MpscPop.isReturned) :
      MpscMove s .destroy { s with phase := .draining, consumer := some ⟨none, .load⟩ }
  | again {out : Option T} (hphase : s.phase = .draining)
      (hc : s.consumer = some ⟨out, .returned true⟩) :
      MpscMove s .destroy { s with consumer := some ⟨out, .load⟩ }
  | finish {out : Option T} (hphase : s.phase = .draining)
      (hc : s.consumer = some ⟨out, .returned false⟩) :
      MpscMove s .destroy { s with
        phase := .destroyed
        queue := { s.queue with live := s.queue.live.erase s.queue.tail }
        history := { s.history with deleted := s.history.deleted ++ [s.queue.tail] } }

theorem mpscMove_of_step {s s' : MpscState ι T} {l : MpscLabel ι T} (hst : s.step l = some s') :
    MpscMove s l s' := by
  cases l with
  | callPush i v =>
    simp only [MpscState.step, Option.ite_none_right_eq_some, Option.some.injEq] at hst
    obtain ⟨⟨hphase, hi⟩, rfl⟩ := hst
    refine .callPush hphase fun p hp => ?_
    simpa [hp, MpscPush.isReturned] using hi
  | push i a =>
    simp only [MpscState.step, Option.bind_eq_some_iff, Option.map_eq_some_iff, Prod.exists] at hst
    obtain ⟨⟨v, pc⟩, hi, q', p', hpush, rfl⟩ := hst
    rcases pc with _ | a' | ⟨new, prev⟩ | _ <;> simp only [MpscQueue.push] at hpush
    · split_ifs at hpush with ha
      cases hpush
      exact .allocate hi ha
    · cases hpush
      exact .exchange hi
    · cases hpush
      exact .link hi
    · cases hpush
  | callPop out =>
    simp only [MpscState.step, Option.ite_none_right_eq_some, Option.some.injEq] at hst
    obtain ⟨⟨hphase, hc⟩, rfl⟩ := hst
    exact .callPop hphase hc
  | pop =>
    simp only [MpscState.step, Option.bind_eq_some_iff, Option.map_eq_some_iff, Prod.exists] at hst
    obtain ⟨⟨out, pc⟩, hc, q', c', hpop, rfl⟩ := hst
    rcases pc with _ | n | n | old | ok <;> simp only [MpscQueue.pop] at hpop
    · split at hpop <;> cases hpop
      · exact .fail hc ‹_›
      · exact .load hc ‹_›
    · cases hpop
      exact .take hc
    · cases hpop
      exact .advance hc
    · cases hpop
      exact .delete hc
    · cases hpop
  | destroy =>
    simp only [MpscState.step, MpscState.destroy] at hst
    split at hst <;> rename_i hphase
    · simp only [Option.ite_none_right_eq_some, Option.some.injEq] at hst
      obtain ⟨⟨hp, hc⟩, rfl⟩ := hst
      refine .destroy hphase (fun i p hi => ?_) hc
      simpa [hi, MpscPush.isReturned] using hp i
    · simp only [Option.bind_eq_some_iff] at hst
      obtain ⟨⟨out, pc⟩, hc, hst⟩ := hst
      rcases pc with _ | n | n | old | _ | _ <;> cases hst
      · exact .finish hphase hc
      · exact .again hphase hc
    · cases hst

structure MpscInv (s : MpscState ι T) : Prop where
  shape : s.phase ≠ .destroyed → ∃ taken old,
    ListInv s.queue s.producers s.history taken old ∧ PopAt s.queue s.history taken old s.consumer
  popped_eq : s.history.popped
    = (s.history.exchanged.take s.history.popped.length).map fun x => some x.2
  closed : s.phase ≠ .alive → ∀ i p, s.producers i = some p → p.pc = .returned
  drained : s.phase = .draining → ∀ out, s.consumer = some ⟨out, .returned false⟩ →
    s.history.popped.length = s.history.exchanged.length
  ended : s.phase = .destroyed → ∃ out, s.consumer = some ⟨out, .returned false⟩

omit [DecidableEq ι] [Fintype ι] in
/-- The destructor keeps producers out. -/
theorem MpscInv.alive {s : MpscState ι T} (hI : MpscInv s) {i : ι} {p : MpscPush T}
    (hi : s.producers i = some p) (hpc : p.pc ≠ .returned) : s.phase = .alive := by
  by_contra hne
  exact hpc (hI.closed hne i p hi)

omit [DecidableEq ι] [Fintype ι] in
/-- No call of `pop` outlives the queue. -/
theorem MpscInv.busy {s : MpscState ι T} (hI : MpscInv s) {c : MpscPop T}
    (hc : s.consumer = some c) (hpc : c.isReturned = false) : s.phase ≠ .destroyed := by
  intro hd
  obtain ⟨out, ho⟩ := hI.ended hd
  rw [hc] at ho
  cases ho
  cases hpc

omit [DecidableEq ι] [Fintype ι] in
theorem MpscInv.popped_le {s : MpscState ι T} (hI : MpscInv s) :
    s.history.popped.length ≤ s.history.exchanged.length := by
  have := congrArg List.length hI.popped_eq
  simp only [List.length_map, List.length_take] at this
  omega

omit [DecidableEq ι] [Fintype ι] in
/-- Producers move only while the queue is alive, and leave the consumer where it is. -/
theorem MpscInv.produce {s : MpscState ι T} (hI : MpscInv s) (hphase : s.phase = .alive)
    {q : MpscQueue T} {producers : ι → Option (MpscPush T)} {h : MpscHistory ι T}
    (hpopped : h.popped = (h.exchanged.take h.popped.length).map fun x => some x.2)
    (hshape : ∀ {taken old}, ListInv s.queue s.producers s.history taken old →
      PopAt s.queue s.history taken old s.consumer →
      ListInv q producers h taken old ∧ PopAt q h taken old s.consumer) :
    MpscInv { s with queue := q, producers := producers, history := h } := by
  obtain ⟨taken, old, hL, hat⟩ := hI.shape (by simp [hphase])
  exact ⟨fun _ => ⟨taken, old, hshape hL hat⟩, hpopped, fun hne => absurd hphase hne,
    by simp [hphase], by simp [hphase]⟩

omit [DecidableEq ι] [Fintype ι] in
/-- A step within a call of `pop`. -/
theorem MpscInv.consume {s : MpscState ι T} (hI : MpscInv s) {c c' : MpscPop T}
    (hc : s.consumer = some c) (hbusy : c.isReturned = false) (hc' : c'.isReturned = false)
    {q : MpscQueue T}
    (hshape : ∀ {taken old}, ListInv s.queue s.producers s.history taken old →
      PopAt s.queue s.history taken old (some c) → ∃ taken old,
        ListInv q s.producers s.history taken old ∧ PopAt q s.history taken old (some c')) :
    MpscInv { s with queue := q, consumer := some c' } := by
  have hlive := hI.busy hc hbusy
  refine ⟨fun hne => ?_, hI.popped_eq, hI.closed, fun _ out h => ?_, fun hd => absurd hd hlive⟩
  · obtain ⟨taken, old, hL, hat⟩ := hI.shape hne
    exact hshape hL (hc ▸ hat)
  · cases h
    cases hc'

theorem MpscInv.step {s s' : MpscState ι T} {l : MpscLabel ι T} (hI : MpscInv s)
    (hst : s.step l = some s') : MpscInv s' := by
  cases mpscMove_of_step hst with
  | @callPush i v hphase hi =>
    exact hI.produce hphase hI.popped_eq fun hL hat => ⟨hL.call hi _, hat⟩
  | @allocate i v a hi ha =>
    refine hI.produce (hI.alive hi (by simp)) hI.popped_eq fun hL hat => ⟨hL.allocate hi ha _, ?_⟩
    refine hat.of_push rfl rfl rfl List.prefix_rfl fun htail n hn => ?_
    show Function.update s.queue.next a none s.queue.tail = some n
    rw [Function.update_of_ne, hn]
    rw [htail]
    rintro rfl
    exact ha (hL.node_live le_rfl hL.taken_le)
  | @exchange i v a b hi =>
    refine hI.produce (hI.alive hi (by simp)) ?_ fun hL hat => ⟨hL.exchange hi, ?_⟩
    · simp only
      rw [List.take_append_of_le_length hI.popped_le]
      exact hI.popped_eq
    · refine hat.of_push rfl rfl ?_ (List.prefix_append ..) fun _ n hn => hn
      have := hL.taken_le
      exact Function.update_of_ne (by omega) ..
  | @link i v new prev b hi =>
    refine hI.produce (hI.alive hi (by simp)) hI.popped_eq fun hL hat => ⟨hL.link hi, ?_⟩
    refine hat.of_push rfl rfl rfl List.prefix_rfl fun _ n hn => ?_
    show Function.update s.queue.next prev (some new) s.queue.tail = some n
    rw [Function.update_of_ne, hn]
    rintro rfl
    rw [(hL.linking i v new _ hi).2.2.2.2] at hn
    cases hn
  | @callPop out hphase hc =>
    obtain ⟨taken, old, hL, hat⟩ := hI.shape (by simp [hphase])
    exact ⟨fun _ => ⟨taken, old, hL, hat.of_returned hc out⟩, hI.popped_eq, hI.closed,
      by simp [hphase], by simp [hphase]⟩
  | @fail out hc hn =>
    refine ⟨fun hne => ?_, hI.popped_eq, hI.closed, fun hd _ _ => ?_, fun _ => ⟨out, rfl⟩⟩
    · obtain ⟨taken, old, hL, hat⟩ := hI.shape hne
      rw [hc] at hat
      exact ⟨taken, old, hL, hat⟩
    · obtain ⟨taken, old, hL, hat⟩ := hI.shape (fun he => by rw [he] at hd; cases hd)
      rw [hc] at hat
      obtain ⟨ht, -, htail⟩ := hat
      rw [htail, hL.next_eq_none_iff le_rfl hL.taken_le] at hn
      rcases hn with he | ⟨i, v, new, prev, hi, -⟩
      · exact ht.symm.trans he
      · have := hI.alive hi (by simp)
        rw [this] at hd
        cases hd
  | @load out n hc hn =>
    refine hI.consume hc rfl rfl fun {taken old} hL hat => ⟨taken, old, hL, ?_⟩
    obtain ⟨ht, ho, htail⟩ := hat
    exact ⟨ht, ho, htail, hn⟩
  | @take out n hc =>
    refine hI.consume hc rfl rfl fun {taken old} hL hat => ?_
    obtain ⟨ht, rfl, htail, hn⟩ := hat
    rw [htail] at hn
    obtain ⟨hlt, hnode⟩ := hL.next_eq le_rfl hL.taken_le hn
    obtain ⟨⟨i, v⟩, hx⟩ : ∃ x, s.history.exchanged[taken]? = some x :=
      ⟨_, List.getElem?_eq_getElem hlt⟩
    refine ⟨taken + 1, some (s.history.node taken), hL.take hn, by simp [ht], by simp [htail],
      hnode, i, v, ht ▸ hx, ?_⟩
    rw [hnode]
    exact hL.values taken i v le_rfl hx
  | @advance out n hc =>
    refine hI.consume hc rfl rfl fun {taken old} hL hat => ⟨taken, old, { hL with }, ?_⟩
    obtain ⟨ht, ho, hn, hout⟩ := hat
    exact ⟨ht, ho, hn, hout⟩
  | @delete out old hc =>
    have hlive := hI.busy hc (by simp [MpscPop.isReturned])
    obtain ⟨taken, old', hL, hat⟩ := hI.shape hlive
    rw [hc] at hat
    obtain ⟨ht, rfl, htail, i, v, hx, rfl⟩ := hat
    refine ⟨fun _ => ⟨taken, none, { hL.delete with }, by simp [ht], rfl, htail⟩, ?_, hI.closed,
      fun _ _ h => by (cases h), fun hd => absurd hd hlive⟩
    simp only [List.length_append, List.length_singleton, List.take_add_one, hx, Option.toList_some,
      List.map_append, List.map_cons, List.map_nil]
    rw [← hI.popped_eq]
  | @destroy hphase hp hc =>
    obtain ⟨taken, old, hL, hat⟩ := hI.shape (by simp [hphase])
    exact ⟨fun _ => ⟨taken, old, hL, hat.of_returned hc none⟩, hI.popped_eq, fun _ => hp,
      fun _ _ h => by (cases h), by simp⟩
  | @again out hphase hc =>
    obtain ⟨taken, old, hL, hat⟩ := hI.shape (by simp [hphase])
    rw [hc] at hat
    exact ⟨fun _ => ⟨taken, old, hL, hat⟩, hI.popped_eq, hI.closed, fun _ _ h => by (cases h),
      by simp [hphase]⟩
  | @finish out hphase hc =>
    exact ⟨fun hne => absurd rfl hne, hI.popped_eq, fun _ => hI.closed (by simp [hphase]),
      fun h => by (cases h), fun _ => ⟨out, hc⟩⟩

omit [DecidableEq ι] [Fintype ι] in
theorem mpscInv_init [Inhabited T] : MpscInv (MpscState.init (ι := ι) (T := T)) where
  shape _ := ⟨0, none,
    { taken_le := le_rfl
      head_eq := rfl
      last := rfl
      distinct := fun j k _ hjk hk => absurd (hjk.trans_le hk) (Nat.not_lt_zero j)
      linked := by simp [MpscState.init]
      values := by simp [MpscState.init]
      old_ne := by simp
      fresh := by simp [MpscState.init]
      separate := by simp [MpscState.init]
      linking := by simp [MpscState.init]
      live_iff := by simp [MpscState.init, MpscQueue.empty, eq_comm] }, rfl, rfl, rfl⟩
  popped_eq := rfl
  closed := by simp [MpscState.init]
  drained := by simp [MpscState.init]
  ended := by simp [MpscState.init]

theorem mpscInv_reachable [Inhabited T] {s : MpscState ι T} (h : (mpscSystem ι T).Reachable s) :
    MpscInv s :=
  h.invariant mpscInv_init fun _ hI _ hst => hI.step hst

section Calls

omit [DecidableEq ι] [Fintype ι] in
/-- At the load of the link the list ends at the consumer's node, or the push of the oldest value
waiting is still to link it. -/
theorem MpscInv.next_eq_none_iff {s : MpscState ι T} (hI : MpscInv s) {out : Option T}
    (hc : s.consumer = some ⟨out, .load⟩) :
    s.queue.next s.queue.tail = none ↔ s.history.popped.length = s.history.exchanged.length
      ∨ ∃ i v new prev, s.producers i = some ⟨v, .link new prev⟩
        ∧ s.history.place i = s.history.popped.length := by
  obtain ⟨taken, old, hL, hat⟩ := hI.shape (hI.busy hc rfl)
  rw [hc] at hat
  obtain ⟨rfl, -, htail⟩ := hat
  rw [htail]
  exact hL.next_eq_none_iff le_rfl hL.taken_le

theorem MpscInv.returned_false_iff {s s' : MpscState ι T} (hI : MpscInv s) {c c' : MpscPop T}
    (hc : s.consumer = some c) (hst : s.step .pop = some s') (hc' : s'.consumer = some c') :
    c'.pc = .returned false ↔ c.pc = .load
      ∧ (s.history.popped.length = s.history.exchanged.length
        ∨ ∃ i v new prev, s.producers i = some ⟨v, .link new prev⟩
          ∧ s.history.place i = s.history.popped.length) := by
  cases mpscMove_of_step hst with
  | @fail out hload hn =>
    cases hc'
    cases hc.symm.trans hload
    simp only [true_and, true_iff]
    exact (hI.next_eq_none_iff hload).1 hn
  | @load out n hload hn =>
    cases hc'
    cases hc.symm.trans hload
    simp only [reduceCtorEq, true_and, false_iff]
    rw [← hI.next_eq_none_iff hload, hn]
    simp
  | take hpc | advance hpc | delete hpc =>
    cases hc'
    cases hc.symm.trans hpc
    simp

end Calls

section Quiet

variable [Inhabited T]

/-- What was exchanged while no push was between exchange and link stays linked, whatever pushes
come after. -/
theorem linked_of_quiet {s s' : MpscState ι T}
    (hquiet : ∀ i v new prev, s.producers i ≠ some ⟨v, .link new prev⟩)
    (hl : (mpscSystem ι T).Leads s s') :
    s.history.exchanged <+: s'.history.exchanged
      ∧ ∀ i v new prev, s'.producers i = some ⟨v, .link new prev⟩ →
        s.history.exchanged.length ≤ s'.history.place i := by
  refine hl.keeps (P := fun s' => s.history.exchanged <+: s'.history.exchanged
    ∧ ∀ i v new prev, s'.producers i = some ⟨v, .link new prev⟩ →
      s.history.exchanged.length ≤ s'.history.place i) ?_
    ⟨List.prefix_rfl, fun i v new prev hi => absurd hi (hquiet i v new prev)⟩
  rintro t l t' ⟨hpre, hplace⟩ hst
  cases mpscMove_of_step hst with
  | @exchange i v a b hi =>
    refine ⟨hpre.trans (List.prefix_append ..), fun j w new prev hj => ?_⟩
    by_cases hji : j = i
    · subst hji
      simp only [Function.update_self]
      exact hpre.length_le
    · simp only [Function.update_of_ne hji] at hj ⊢
      exact hplace j w new prev hj
  | callPush | allocate | link =>
    exact ⟨hpre, fun j w new prev hj => hplace j w new prev (of_update hj (by simp)).2⟩
  | callPop | fail | load | take | advance | delete | destroy | again | finish =>
    exact ⟨hpre, hplace⟩

end Quiet

section Queue

/-- The values exchanged and not yet popped, the oldest first. -/
def MpscState.waiting (s : MpscState ι T) : List T :=
  (s.history.exchanged.map Prod.snd).drop s.history.popped.length

/-- A push takes effect at its exchange, a pop when it returns. -/
theorem MpscInv.waiting_step {s s' : MpscState ι T} (hI : MpscInv s) {l : MpscLabel ι T}
    (hst : s.step l = some s') :
    s'.waiting = s.waiting
      ∨ ∃ op, (Fifo.queue fun _ => true).step s.waiting op = some s'.waiting := by
  have hI' := hI.step hst
  cases mpscMove_of_step hst with
  | @exchange i v a b hi =>
    refine .inr ⟨.push v, ?_⟩
    simp only [MpscState.waiting, List.map_append, List.map_cons, List.map_nil]
    exact Fifo.step_push_drop (by simpa using hI.popped_le) rfl
  | @delete out old hc =>
    have hle := hI'.popped_le
    simp only [List.length_append, List.length_singleton] at hle
    refine .inr ⟨.pop, ?_⟩
    simp only [MpscState.waiting, List.length_append, List.length_singleton]
    exact Fifo.step_pop_drop (by rw [List.length_map]; omega)
  | callPush | allocate | link | callPop | fail | load | take | advance | destroy | again
    | finish => exact .inl rfl

/-- The list refines the unbounded queue. -/
theorem queue_reachable_of_mpsc [Inhabited T] {s : MpscState ι T}
    (h : (mpscSystem ι T).Reachable s) : (Fifo.queue fun _ => true).Reachable s.waiting :=
  System.Reachable.map (f := MpscState.waiting) rfl
    (fun hs hst => (mpscInv_reachable hs).waiting_step hst) h

end Queue

end RaceConditionZ
