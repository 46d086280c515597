import RaceConditionZ.Lib.Fifo
import RaceConditionZ.SpscQueue

/-!
# The ring is a bounded queue

Each index is a count modulo the size: how many pushes and pops have succeeded, and what each side
last saw of the other. A count seen earlier is never ahead of the present one, so a cached index
errs to the safe side: a push that goes on has a free slot, and a pop that goes on has a full one.
-/

namespace RaceConditionZ

open Transition

variable {T : Type} (r : RingSize)

/-- The indices as counts, and the slots between them. -/
structure RingInv (q : SpscQueue T) (h : SpscHistory T) : Prop where
  tail_eq : q.tail.toNat = h.pushed.length % r.n
  head_eq : q.head.toNat = h.popped.length % r.n
  headCache_eq : q.headCache.toNat = h.headSeen % r.n
  tailCache_eq : q.tailCache.toNat = h.tailSeen % r.n
  headSeen_le : h.headSeen ≤ h.popped.length
  popped_le : h.popped.length ≤ h.tailSeen
  tailSeen_le : h.tailSeen ≤ h.pushed.length
  pushed_lt : h.pushed.length < h.headSeen + r.n
  slots : ∀ j v, h.popped.length ≤ j → h.pushed[j]? = some v → q.buffer (j % r.n) = some v
  popped_eq : h.popped = (h.pushed.take h.popped.length).map some

/-- What a push in progress knows: nothing is changed until it goes on to the slot, and from there
on the slot is free. -/
def Push.Ok (q : SpscQueue T) (h : SpscHistory T) (p : Push T) : Prop :=
  match p.pc with
  | .loadTail => p.arg = some p.item ∧ h.pushStart = (q.tail, q.buffer)
  | .compare tail | .loadHead tail =>
    tail = q.tail ∧ p.arg = some p.item ∧ h.pushStart = (q.tail, q.buffer)
  | .recompare tail =>
    tail = q.tail ∧ p.arg = some p.item ∧ h.pushStart = (q.tail, q.buffer)
      ∧ h.heldAtPush = h.pushed.length - h.headSeen
  | .write tail | .writing tail =>
    tail = q.tail ∧ p.arg = some p.item ∧ h.pushed.length + 1 < h.headSeen + r.n
  | .storeTail tail =>
    tail = q.tail ∧ h.pushed.length + 1 < h.headSeen + r.n ∧ q.buffer tail.toNat = some p.item
  | .returned ok => ok = false →
    p.arg = some p.item ∧ h.pushStart = (q.tail, q.buffer) ∧ h.heldAtPush = r.n - 1

/-- What a pop in progress knows: from where it goes on to the slot, the slot holds the oldest value
not yet popped. -/
def Pop.Ok (q : SpscQueue T) (h : SpscHistory T) (c : Pop T) : Prop :=
  match c.pc with
  | .loadHead => h.popStart = (q.head, c.out)
  | .compare head | .loadTail head => head = q.head ∧ h.popStart = (q.head, c.out)
  | .recompare head =>
    head = q.head ∧ h.popStart = (q.head, c.out) ∧ h.heldAtPop = h.tailSeen - h.popped.length
  | .read head | .reading head => head = q.head ∧ h.popped.length < h.tailSeen
  | .storeHead head =>
    head = q.head ∧ h.popped.length < h.tailSeen
      ∧ ∃ v, h.pushed[h.popped.length]? = some v ∧ c.out = some v
  | .returned ok => ok = false → h.popStart = (q.head, c.out) ∧ h.heldAtPop = 0

structure SpscInv (s : SpscState T) : Prop where
  ring : RingInv r s.queue s.history
  push_ok : ∀ p, s.producer = some p → p.Ok r s.queue s.history
  pop_ok : ∀ c, s.consumer = some c → c.Ok s.queue s.history

section Ring

variable {r} {q : SpscQueue T} {h : SpscHistory T}

theorem RingInv.popped_le_pushed (hR : RingInv r q h) : h.popped.length ≤ h.pushed.length :=
  hR.popped_le.trans hR.tailSeen_le

theorem RingInv.pushed_lt_popped (hR : RingInv r q h) :
    h.pushed.length < h.popped.length + r.n := by
  have h1 := hR.headSeen_le
  have h4 := hR.pushed_lt
  omega

/-- At one instant the distance of the indices is the number of items. -/
theorem RingInv.toNat_sizeApprox (hR : RingInv r q h) :
    (q.sizeApprox r).toNat = h.pushed.length - h.popped.length :=
  r.toNat_distance_of_count hR.tail_eq hR.head_eq hR.popped_le_pushed hR.pushed_lt_popped

/-- The producer takes the ring for full where it lacks one place of the pops it has seen. -/
theorem RingInv.full_iff (hR : RingInv r q h) :
    r.next q.tail = q.headCache ↔ h.pushed.length + 1 = h.headSeen + r.n := by
  have hnext := r.toNat_next_of_count hR.tail_eq
  have h1 := hR.headSeen_le
  have h2 := hR.popped_le
  have h3 := hR.tailSeen_le
  have h4 := hR.pushed_lt
  constructor
  · intro he
    by_contra hne
    have hmod : h.headSeen % r.n = (h.pushed.length + 1) % r.n := by
      rw [← hnext, he, hR.headCache_eq]
    have := r.count_eq_of_mod_eq (by omega) (by omega) hmod
    omega
  · intro he
    apply BitVec.eq_of_toNat_eq
    rw [hnext, he, Nat.add_mod_right, hR.headCache_eq]

/-- The consumer takes the ring for empty where it has popped all the pushes it has seen. -/
theorem RingInv.empty_iff (hR : RingInv r q h) :
    q.head = q.tailCache ↔ h.popped.length = h.tailSeen := by
  have h1 := hR.headSeen_le
  have h3 := hR.tailSeen_le
  have h4 := hR.pushed_lt
  exact r.eq_iff_count_eq hR.head_eq hR.tailCache_eq hR.popped_le (by omega)

/-- The slot at `tail_` is none of those between `head_` and `tail_`. -/
theorem RingInv.slot_ne_tail (hR : RingInv r q h) {j : ℕ} (hj : h.popped.length ≤ j)
    (hlt : j < h.pushed.length) : j % r.n ≠ q.tail.toNat := by
  intro he
  rw [hR.tail_eq] at he
  have h4 := hR.pushed_lt_popped
  have := r.count_eq_of_mod_eq hlt.le (by omega) he
  omega

/-- An assignment to the slot at `tail_` touches no value of the queue. -/
theorem RingInv.assign (hR : RingInv r q h) (x : Option T) :
    RingInv r { q with buffer := Function.update q.buffer q.tail.toNat x } h := by
  refine { hR with slots := fun j v hj hv => ?_ }
  have hlt : j < h.pushed.length := (List.getElem?_eq_some_iff.1 hv).1
  simp only [Function.update_of_ne (hR.slot_ne_tail hj hlt)]
  exact hR.slots j v hj hv

/-- A value in the slot at `tail_` is published by the store of the next index. -/
theorem RingInv.publish (hR : RingInv r q h) {v : T} (hv : q.buffer q.tail.toNat = some v)
    (hroom : h.pushed.length + 1 < h.headSeen + r.n) :
    RingInv r { q with tail := r.next q.tail } { h with pushed := h.pushed ++ [v] } := by
  have h2 := hR.popped_le
  have h3 := hR.tailSeen_le
  refine { hR with
    tail_eq := ?_, tailSeen_le := ?_, pushed_lt := ?_, slots := ?_, popped_eq := ?_ }
  · rw [r.toNat_next_of_count hR.tail_eq, List.length_append, List.length_singleton]
  · rw [List.length_append]
    exact h3.trans (Nat.le_add_right ..)
  · rw [List.length_append]
    exact hroom
  · intro j w hj hw
    rcases lt_trichotomy j h.pushed.length with hlt | rfl | hgt
    · rw [List.getElem?_append_left hlt] at hw
      exact hR.slots j w hj hw
    · rw [List.getElem?_concat_length] at hw
      rw [← hR.tail_eq, ← hw]
      exact hv
    · rw [List.getElem?_eq_none (by simp; omega)] at hw
      cases hw
  · rw [List.take_append_of_le_length (h2.trans h3)]
    exact hR.popped_eq

/-- The oldest value not popped is taken by the store of the next index. -/
theorem RingInv.consume (hR : RingInv r q h) {v : T} (hv : h.pushed[h.popped.length]? = some v)
    (hlt : h.popped.length < h.tailSeen) :
    RingInv r { q with head := r.next q.head } { h with popped := h.popped ++ [some v] } := by
  have h1 := hR.headSeen_le
  refine { hR with
    head_eq := ?_, headSeen_le := ?_, popped_le := ?_, slots := ?_, popped_eq := ?_ }
  · rw [r.toNat_next_of_count hR.head_eq, List.length_append, List.length_singleton]
  · simp only [List.length_append, List.length_singleton]
    omega
  · simp only [List.length_append, List.length_singleton]
    omega
  · intro j w hj hw
    simp only [List.length_append, List.length_singleton] at hj
    exact hR.slots j w (by omega) hw
  · simp only [List.length_append, List.length_singleton, List.take_add_one, hv, Option.toList_some,
      List.map_append, List.map_cons, List.map_nil]
    rw [← hR.popped_eq]

theorem RingInv.seeHead (hR : RingInv r q h) (held : ℕ) :
    RingInv r { q with headCache := q.head }
      { h with headSeen := h.popped.length, heldAtPush := held } := by
  have h1 := hR.headSeen_le
  have h4 := hR.pushed_lt
  exact { hR with headCache_eq := hR.head_eq, headSeen_le := le_rfl, pushed_lt := by simp; omega }

theorem RingInv.seeTail (hR : RingInv r q h) (held : ℕ) :
    RingInv r { q with tailCache := q.tail }
      { h with tailSeen := h.pushed.length, heldAtPop := held } := by
  have h2 := hR.popped_le
  have h3 := hR.tailSeen_le
  exact { hR with tailCache_eq := hR.tail_eq, popped_le := h2.trans h3, tailSeen_le := le_rfl }

end Ring

section Labels

variable {r} {s s' : SpscState T}

theorem SpscState.of_step_callPush {item : T} {byMove : Bool}
    (hst : s.step r (.callPush item byMove) = some s') :
    s.producer.all Push.isReturned = true
      ∧ { s with
          producer := some (if byMove then .ofMove item else .ofCopy item)
          history := { s.history with pushStart := (s.queue.tail, s.queue.buffer) } } = s' := by
  simpa only [SpscState.step, Option.ite_none_right_eq_some, Option.some.injEq] using hst

theorem SpscState.of_step_push (hst : s.step r .push = some s') :
    ∃ p, s.producer = some p ∧ ∃ q' p', s.queue.push r p = some (q', p')
      ∧ { s with queue := q', producer := some p', history := s.notePush p } = s' := by
  simpa only [SpscState.step, Option.bind_eq_some_iff, Option.map_eq_some_iff, Prod.exists]
    using hst

theorem SpscState.of_step_callPop {out : Option T} (hst : s.step r (.callPop out) = some s') :
    s.consumer.all Pop.isReturned = true
      ∧ { s with
          consumer := some (.into out)
          history := { s.history with popStart := (s.queue.head, out) } } = s' := by
  simpa only [SpscState.step, Option.ite_none_right_eq_some, Option.some.injEq] using hst

theorem SpscState.of_step_pop (hst : s.step r .pop = some s') :
    ∃ c, s.consumer = some c ∧ ∃ q' c', s.queue.pop r c = some (q', c')
      ∧ { s with queue := q', consumer := some c', history := s.notePop c } = s' := by
  simpa only [SpscState.step, Option.bind_eq_some_iff, Option.map_eq_some_iff, Prod.exists]
    using hst

/-- A step of the producer leaves the consumer alone, and pushes only within a call. -/
theorem SpscState.push_frame (hst : s.step r .push = some s') :
    s'.consumer = s.consumer ∧ s'.history.popped = s.history.popped
      ∧ s'.history.tailSeen = s.history.tailSeen
      ∧ s.producer.all Push.isReturned = false := by
  obtain ⟨p, hp, q', p', hpush, rfl⟩ := SpscState.of_step_push hst
  unfold SpscQueue.push at hpush
  unfold SpscState.notePush
  rw [hp]
  rcases hpc : p.pc with _ | tail | tail | tail | tail | tail | tail | ok <;>
    simp only [hpc, reduceCtorEq] at hpush <;>
    exact ⟨rfl, rfl, rfl, by simp [Push.isReturned, hpc]⟩

/-- A step of the consumer leaves the producer alone, and pops only within a call. -/
theorem SpscState.pop_frame (hst : s.step r .pop = some s') :
    s'.producer = s.producer ∧ s'.history.pushed = s.history.pushed
      ∧ s.consumer.all Pop.isReturned = false := by
  obtain ⟨c, hc, q', c', hpop, rfl⟩ := SpscState.of_step_pop hst
  unfold SpscQueue.pop at hpop
  unfold SpscState.notePop
  rw [hc]
  rcases hpc : c.pc with _ | head | head | head | head | head | head | ok <;>
    simp only [hpc, reduceCtorEq] at hpop <;>
    exact ⟨rfl, rfl, by simp [Pop.isReturned, hpc]⟩

end Labels

section Steps

variable {r}

/-- What a step of the producer leaves of what the consumer's call depends on. -/
theorem Pop.Ok.of_push {q q' : SpscQueue T} {h h' : SpscHistory T} {c : Pop T}
    (hok : c.Ok q h) (hseen : h.tailSeen ≤ h.pushed.length) (hhead : q'.head = q.head)
    (hpopped : h'.popped = h.popped) (htailSeen : h'.tailSeen = h.tailSeen)
    (hheld : h'.heldAtPop = h.heldAtPop) (hstart : h'.popStart = h.popStart)
    (hpushed : h.pushed <+: h'.pushed) : c.Ok q' h' := by
  unfold Pop.Ok at hok ⊢
  rw [hhead, hpopped, htailSeen, hheld, hstart]
  split at hok <;> try exact hok
  obtain ⟨hh, hlt, v, hv, hout⟩ := hok
  obtain ⟨l, hl⟩ := hpushed
  refine ⟨hh, hlt, v, ?_, hout⟩
  rw [← hl, List.getElem?_append_left (hlt.trans_le hseen)]
  exact hv

/-- What a step of the consumer leaves of what the producer's call depends on. -/
theorem Push.Ok.of_pop {q q' : SpscQueue T} {h h' : SpscHistory T} {p : Push T}
    (hok : p.Ok r q h) (htail : q'.tail = q.tail) (hbuffer : q'.buffer = q.buffer)
    (hpushed : h'.pushed = h.pushed) (hheadSeen : h'.headSeen = h.headSeen)
    (hheld : h'.heldAtPush = h.heldAtPush) (hstart : h'.pushStart = h.pushStart) :
    p.Ok r q' h' := by
  unfold Push.Ok at hok ⊢
  rw [htail, hbuffer, hpushed, hheadSeen, hheld, hstart]
  exact hok

/-- One step of a push keeps the ring and what the push knows, and takes nothing from a pop. -/
theorem SpscInv.push {s : SpscState T} (hI : SpscInv r s) {p p' : Push T} {q' : SpscQueue T}
    (hp : s.producer = some p) (hst : s.queue.push r p = some (q', p')) :
    RingInv r q' (s.notePush p) ∧ p'.Ok r q' (s.notePush p)
      ∧ ∀ c, s.consumer = some c → c.Ok q' (s.notePush p) := by
  have hR := hI.ring
  have hok := hI.push_ok p hp
  have hpop : ∀ {q' h'}, q'.head = s.queue.head → h'.popped = s.history.popped →
      h'.tailSeen = s.history.tailSeen → h'.heldAtPop = s.history.heldAtPop →
      h'.popStart = s.history.popStart → s.history.pushed <+: h'.pushed →
      ∀ c, s.consumer = some c → c.Ok q' h' := fun h1 h2 h3 h4 h5 h6 c hc =>
    (hI.pop_ok c hc).of_push hR.tailSeen_le h1 h2 h3 h4 h5 h6
  unfold SpscQueue.push at hst
  unfold SpscState.notePush
  unfold Push.Ok at hok
  rcases hpc : p.pc with _ | tail | tail | tail | tail | tail | tail | ok <;>
    simp only [hpc] at hst hok ⊢
  · cases hst
    exact ⟨hR, ⟨rfl, hok⟩, hI.pop_ok⟩
  · obtain ⟨rfl, harg, hstart⟩ := hok
    split_ifs at hst with hfull <;> cases hst
    · exact ⟨hR, ⟨rfl, harg, hstart⟩, hI.pop_ok⟩
    · have hroom := mt hR.full_iff.2 hfull
      have := hR.pushed_lt
      exact ⟨hR, ⟨rfl, harg, by omega⟩, hI.pop_ok⟩
  · obtain ⟨rfl, harg, hstart⟩ := hok
    cases hst
    exact ⟨hR.seeHead _, ⟨rfl, harg, hstart, rfl⟩, hpop rfl rfl rfl rfl rfl List.prefix_rfl⟩
  · obtain ⟨rfl, harg, hstart, hheld⟩ := hok
    split_ifs at hst with hfull <;> cases hst
    · have := hR.full_iff.1 hfull
      exact ⟨hR, fun _ => ⟨harg, hstart, by omega⟩, hI.pop_ok⟩
    · have hroom := mt hR.full_iff.2 hfull
      have := hR.pushed_lt
      exact ⟨hR, ⟨rfl, harg, by omega⟩, hI.pop_ok⟩
  · obtain ⟨rfl, harg, hroom⟩ := hok
    cases hst
    exact ⟨hR.assign none, ⟨rfl, harg, hroom⟩, hpop rfl rfl rfl rfl rfl List.prefix_rfl⟩
  · obtain ⟨rfl, harg, hroom⟩ := hok
    cases hst
    refine ⟨hR.assign p.arg, ⟨rfl, hroom, ?_⟩, hpop rfl rfl rfl rfl rfl List.prefix_rfl⟩
    simp only [Function.update_self]
    exact harg
  · obtain ⟨rfl, hroom, hslot⟩ := hok
    cases hst
    exact ⟨hR.publish hslot hroom, fun h => (by cases h),
      hpop rfl rfl rfl rfl rfl (List.prefix_append ..)⟩
  · cases hst

/-- One step of a pop keeps the ring and what the pop knows, and takes nothing from a push. -/
theorem SpscInv.pop {s : SpscState T} (hI : SpscInv r s) {c c' : Pop T} {q' : SpscQueue T}
    (hc : s.consumer = some c) (hst : s.queue.pop r c = some (q', c')) :
    RingInv r q' (s.notePop c) ∧ c'.Ok q' (s.notePop c)
      ∧ ∀ p, s.producer = some p → p.Ok r q' (s.notePop c) := by
  have hR := hI.ring
  have hok := hI.pop_ok c hc
  have hpush : ∀ {q' h'}, q'.tail = s.queue.tail → q'.buffer = s.queue.buffer →
      h'.pushed = s.history.pushed → h'.headSeen = s.history.headSeen →
      h'.heldAtPush = s.history.heldAtPush → h'.pushStart = s.history.pushStart →
      ∀ p, s.producer = some p → p.Ok r q' h' := fun h1 h2 h3 h4 h5 h6 p hp =>
    (hI.push_ok p hp).of_pop h1 h2 h3 h4 h5 h6
  unfold SpscQueue.pop at hst
  unfold SpscState.notePop
  unfold Pop.Ok at hok
  rcases hpc : c.pc with _ | head | head | head | head | head | head | ok <;>
    simp only [hpc] at hst hok ⊢
  · cases hst
    exact ⟨hR, ⟨rfl, hok⟩, hI.push_ok⟩
  · obtain ⟨rfl, hstart⟩ := hok
    split_ifs at hst with hempty <;> cases hst
    · exact ⟨hR, ⟨rfl, hstart⟩, hI.push_ok⟩
    · have hne := mt hR.empty_iff.2 hempty
      exact ⟨hR, ⟨rfl, lt_of_le_of_ne hR.popped_le hne⟩, hI.push_ok⟩
  · obtain ⟨rfl, hstart⟩ := hok
    cases hst
    exact ⟨hR.seeTail _, ⟨rfl, hstart, rfl⟩, hpush rfl rfl rfl rfl rfl rfl⟩
  · obtain ⟨rfl, hstart, hheld⟩ := hok
    split_ifs at hst with hempty <;> cases hst
    · have := hR.empty_iff.1 hempty
      exact ⟨hR, fun _ => ⟨hstart, by omega⟩, hI.push_ok⟩
    · have hne := mt hR.empty_iff.2 hempty
      exact ⟨hR, ⟨rfl, lt_of_le_of_ne hR.popped_le hne⟩, hI.push_ok⟩
  · obtain ⟨rfl, hlt⟩ := hok
    cases hst
    exact ⟨hR, ⟨rfl, hlt⟩, hI.push_ok⟩
  · obtain ⟨rfl, hlt⟩ := hok
    cases hst
    obtain ⟨v, hv⟩ : ∃ v, s.history.pushed[s.history.popped.length]? = some v :=
      ⟨_, List.getElem?_eq_getElem (hlt.trans_le hR.tailSeen_le)⟩
    refine ⟨hR, ⟨rfl, hlt, v, hv, ?_⟩, hI.push_ok⟩
    rw [hR.head_eq]
    exact hR.slots _ v le_rfl hv
  · obtain ⟨rfl, hlt, v, hv, hout⟩ := hok
    cases hst
    rw [hout]
    exact ⟨hR.consume hv hlt, fun h => (by cases h), hpush rfl rfl rfl rfl rfl rfl⟩
  · cases hst

theorem RingInv.of_start {q : SpscQueue T} {h : SpscHistory T} (hR : RingInv r q h)
    (pushStart : BitVec 64 × (ℕ → Option T)) (popStart : BitVec 64 × Option T) :
    RingInv r q { h with pushStart := pushStart, popStart := popStart } :=
  { hR with }

theorem SpscInv.step {s s' : SpscState T} (hI : SpscInv r s) {l : SpscLabel T}
    (hst : SpscState.step r s l = some s') : SpscInv r s' := by
  cases l with
  | callPush item byMove =>
    obtain ⟨-, rfl⟩ := SpscState.of_step_callPush hst
    refine ⟨hI.ring.of_start _ _, fun p hp => ?_, fun c hc => ?_⟩
    · cases byMove <;> cases hp <;> exact ⟨rfl, rfl⟩
    · exact (hI.pop_ok c hc).of_push hI.ring.tailSeen_le rfl rfl rfl rfl rfl List.prefix_rfl
  | push =>
    obtain ⟨p, hp, q', p', hpush, rfl⟩ := SpscState.of_step_push hst
    obtain ⟨hR, hok, hpop⟩ := hI.push hp hpush
    exact ⟨hR, fun p'' h => Option.some.inj h ▸ hok, hpop⟩
  | callPop out =>
    obtain ⟨-, rfl⟩ := SpscState.of_step_callPop hst
    refine ⟨hI.ring.of_start _ _, fun p hp => ?_, fun c hc => ?_⟩
    · exact (hI.push_ok p hp).of_pop rfl rfl rfl rfl rfl rfl
    · cases hc
      rfl
  | pop =>
    obtain ⟨c, hc, q', c', hpop, rfl⟩ := SpscState.of_step_pop hst
    obtain ⟨hR, hok, hpush⟩ := hI.pop hc hpop
    exact ⟨hR, hpush, fun c'' h => Option.some.inj h ▸ hok⟩

variable [Inhabited T]

variable (r) in
theorem spscInv_init : SpscInv r (SpscState.init (T := T)) where
  ring :=
    { tail_eq := (Nat.zero_mod _).symm
      head_eq := (Nat.zero_mod _).symm
      headCache_eq := (Nat.zero_mod _).symm
      tailCache_eq := (Nat.zero_mod _).symm
      headSeen_le := le_rfl
      popped_le := le_rfl
      tailSeen_le := le_rfl
      pushed_lt := by simpa [SpscState.init] using r.n_pos
      slots := by simp [SpscState.init]
      popped_eq := rfl }
  push_ok := by simp [SpscState.init]
  pop_ok := by simp [SpscState.init]

theorem spscInv_reachable {ok : SpscState T → SpscLabel T → Prop} {s : SpscState T}
    (h : (spscSystem r).ReachableBy ok s) : SpscInv r s :=
  h.invariant (spscInv_init r) fun _ hI _ hst => hI.step hst

end Steps

section Queue

variable {r}

/-- The values pushed and not yet popped, the oldest first. -/
def SpscState.waiting (s : SpscState T) : List T := s.history.pushed.drop s.history.popped.length

theorem RingInv.contents_eq {q : SpscQueue T} {h : SpscHistory T} (hR : RingInv r q h) :
    q.contents r = (h.pushed.drop h.popped.length).map some := by
  have hle := hR.popped_le_pushed
  have hsize := hR.toNat_sizeApprox
  apply List.ext_getElem?
  intro i
  simp only [SpscQueue.contents, hsize, List.getElem?_map, List.getElem?_drop]
  rcases Nat.lt_or_ge i (h.pushed.length - h.popped.length) with hi | hi
  · rw [List.getElem?_range hi, List.getElem?_eq_getElem (by omega), Option.map_some,
      Option.map_some, r.toNat_add_of_count hR.head_eq]
    rw [hR.slots (h.popped.length + i) _ (Nat.le_add_right ..) (List.getElem?_eq_getElem _)]
  · rw [List.getElem?_eq_none (by simpa using hi), List.getElem?_eq_none (by omega)]
    rfl

/-- A push and a pop take effect at the store of their own index; no other step changes what is
waiting. -/
theorem SpscInv.waiting_step {s s' : SpscState T} (hI : SpscInv r s) {l : SpscLabel T}
    (hst : SpscState.step r s l = some s') :
    s'.waiting = s.waiting
      ∨ ∃ op, (Fifo.queue (· < r.n - 1)).step s.waiting op = some s'.waiting := by
  have hR := hI.ring
  have h1 := hR.headSeen_le
  have hle := hR.popped_le_pushed
  cases l with
  | callPush item byMove =>
    obtain ⟨-, rfl⟩ := SpscState.of_step_callPush hst
    exact Or.inl rfl
  | push =>
    obtain ⟨p, hp, q', p', -, rfl⟩ := SpscState.of_step_push hst
    have hok := hI.push_ok p hp
    unfold Push.Ok at hok
    unfold SpscState.waiting SpscState.notePush
    rcases hpc : p.pc with _ | tail | tail | tail | tail | tail | tail | ok <;>
      simp only [hpc] at hok ⊢ <;> try exact Or.inl trivial
    exact Or.inr ⟨.push p.item, Fifo.step_push_drop hle (by simp; omega)⟩
  | callPop out =>
    obtain ⟨-, rfl⟩ := SpscState.of_step_callPop hst
    exact Or.inl rfl
  | pop =>
    obtain ⟨c, hc, q', c', -, rfl⟩ := SpscState.of_step_pop hst
    have hok := hI.pop_ok c hc
    unfold Pop.Ok at hok
    unfold SpscState.waiting SpscState.notePop
    rcases hpc : c.pc with _ | head | head | head | head | head | head | ok <;>
      simp only [hpc] at hok ⊢ <;> try exact Or.inl trivial
    refine Or.inr ⟨.pop, ?_⟩
    rw [Fifo.step_pop_drop (hok.2.1.trans_le hR.tailSeen_le), List.length_append,
      List.length_singleton]

end Queue

end RaceConditionZ
