import RaceConditionZ.Proofs.SpscFifo
import RaceConditionZ.SlotCopy
import Mathlib.Data.Fin.VecNotation

/-!
# Who owns a slot

The word-by-word queue follows the one whose slots are assigned as a whole: a slot under assignment
there holds no value, and the copying of a word is no step of it. What lets the consumer's copy be
seen as one reading is ownership: while it copies, its slot is among those between `head_` and
`tail_`, and the slot that the producer writes is not.
-/

namespace RaceConditionZ

open Transition

variable {κ W : Type}

section View

def CopyPushPc.view : CopyPushPc κ → PushPc
  | .loadTail => .loadTail
  | .compare tail => .compare tail
  | .loadHead tail => .loadHead tail
  | .recompare tail => .recompare tail
  | .copy tail _ => .writing tail
  | .returned ok => .returned ok

def CopyPopPc.view : CopyPopPc κ → PopPc
  | .loadHead => .loadHead
  | .compare head => .compare head
  | .loadTail head => .loadTail head
  | .recompare head => .recompare head
  | .copy head _ => .reading head
  | .returned ok => .returned ok

/-- The slot a push writes, from its full check to its store of `tail_`. -/
def CopyPushPc.slot : CopyPushPc κ → Option (BitVec 64)
  | .copy tail _ => some tail
  | _ => none

/-- The slot a pop reads, from its empty check to its store of `head_`. -/
def CopyPopPc.slot : CopyPopPc κ → Option (BitVec 64)
  | .copy head _ => some head
  | _ => none

def CopyPush.view (p : CopyPush κ W) : Push (κ → W) where
  item := p.item
  byMove := p.byMove
  arg := match p.pc with
    | .returned true => if p.byMove then none else some p.item
    | _ => some p.item
  pc := p.pc.view

def CopyPop.view (c : CopyPop κ W) : Pop (κ → W) where
  out := match c.pc with
    | .copy _ _ => none
    | _ => some c.out
  pc := c.pc.view

/-- The slot under assignment. -/
def CopyState.assigned (s : CopyState κ W) : Option ℕ :=
  s.producer.bind fun p => p.pc.slot.map BitVec.toNat

def CopyState.slots (s : CopyState κ W) (i : ℕ) : Option (κ → W) :=
  if s.assigned = some i then none else some (s.queue.buffer i)

def CopyState.wholeQueue (s : CopyState κ W) : SpscQueue (κ → W) :=
  ⟨s.queue.tail, s.queue.headCache, s.queue.head, s.queue.tailCache, s.slots⟩

/-- The state as slots assigned as a whole would have it, with the copies in progress right as far
as they have come. -/
structure CopyState.Follows (s : CopyState κ W) (a : SpscState (κ → W)) : Prop where
  queue : a.queue = s.wholeQueue
  producer : a.producer = s.producer.map CopyPush.view
  consumer : a.consumer = s.consumer.map CopyPop.view
  pushed : a.history.pushed = s.pushed
  popped : a.history.popped.length = s.popped
  written : ∀ p tail copied, s.producer = some p → p.pc = .copy tail copied →
    ∀ word ∈ copied, s.queue.buffer tail.toNat word = p.item word
  read : ∀ c head copied, s.consumer = some c → c.pc = .copy head copied →
    ∀ word ∈ copied, c.out word = s.queue.buffer head.toNat word

end View

section Slots

variable {s : CopyState κ W}

/-- A slot that no push has under assignment shows its element. -/
theorem CopyState.slots_of_ne {i : ℕ} (h : s.assigned ≠ some i) :
    s.slots i = some (s.queue.buffer i) :=
  if_neg h

theorem CopyState.assigned_eq {p : CopyPush κ W} (hp : s.producer = some p) :
    s.assigned = p.pc.slot.map BitVec.toNat := by
  unfold assigned
  rw [hp, Option.bind_some]

theorem CopyState.slots_setPush {p : CopyPush κ W} {queue : CopyQueue κ W}
    (hfree : s.assigned = none) (hslot : p.pc.slot = none)
    (hbuffer : queue.buffer = s.queue.buffer) :
    CopyState.slots { s with queue := queue, producer := some p } = s.slots := by
  funext i
  rw [slots_of_ne, slots_of_ne, hbuffer]
  · rw [hfree]
    simp
  · rw [assigned_eq rfl, hslot]
    simp

/-- A push that goes from its full check to the slot takes the slot under assignment. -/
theorem CopyState.slots_assign {p : CopyPush κ W} (hp : s.producer = some p)
    (hslot : p.pc.slot = none) (tail : BitVec 64) (copied : Finset κ) :
    CopyState.slots { s with producer := some { p with pc := .copy tail copied } }
      = Function.update s.slots tail.toNat none := by
  funext i
  by_cases hi : i = tail.toNat
  · subst hi
    rw [Function.update_self]
    exact if_pos rfl
  · rw [Function.update_of_ne hi, slots_of_ne, slots_of_ne]
    · rw [assigned_eq hp, hslot]
      simp
    · rw [assigned_eq rfl]
      simpa [CopyPushPc.slot] using Ne.symm hi

/-- An element is complete when all its words are. -/
theorem CopyState.slots_publish {p : CopyPush κ W} (tail : BitVec 64) (queue : CopyQueue κ W)
    (pushed : List (κ → W)) (hp : s.producer = some p) (hslot : p.pc.slot = some tail)
    (hitem : s.queue.buffer tail.toNat = p.item) (hbuffer : queue.buffer = s.queue.buffer) :
    CopyState.slots { s with
      queue := queue
      producer := some { p with pc := .returned true }
      pushed := pushed } = Function.update s.slots tail.toNat (some p.item) := by
  funext i
  rw [slots_of_ne (by rw [assigned_eq rfl]; simp [CopyPushPc.slot])]
  simp only [hbuffer]
  by_cases hi : i = tail.toNat
  · subst hi
    rw [Function.update_self, hitem]
  · rw [Function.update_of_ne hi, slots_of_ne]
    rw [assigned_eq hp, hslot]
    simpa using Ne.symm hi

end Slots

section Owners

variable {r : RingSize} {s : CopyState κ W} {a : SpscState (κ → W)}

theorem CopyState.Follows.push_ok (hF : s.Follows a) (hI : SpscInv r a) {p : CopyPush κ W}
    (hp : s.producer = some p) : p.view.Ok r a.queue a.history :=
  hI.push_ok p.view (by rw [hF.producer, hp, Option.map_some])

theorem CopyState.Follows.pop_ok (hF : s.Follows a) (hI : SpscInv r a) {c : CopyPop κ W}
    (hc : s.consumer = some c) : c.view.Ok a.queue a.history :=
  hI.pop_ok c.view (by rw [hF.consumer, hc, Option.map_some])

/-- A push writes the slot at `tail_`. -/
theorem CopyState.Follows.push_slot (hF : s.Follows a) (hI : SpscInv r a) {p : CopyPush κ W}
    {tail : BitVec 64} (hp : s.producer = some p) (hslot : p.pc.slot = some tail) :
    tail = a.queue.tail := by
  have hok := hF.push_ok hI hp
  unfold CopyPushPc.slot at hslot
  split at hslot <;> cases hslot
  rename_i copied hpc
  simp only [Push.Ok, CopyPush.view, hpc, CopyPushPc.view] at hok
  exact hok.1

/-- A pop reads the slot at `head_`, and some element is there. -/
theorem CopyState.Follows.pop_slot (hF : s.Follows a) (hI : SpscInv r a) {c : CopyPop κ W}
    {head : BitVec 64} (hc : s.consumer = some c) (hslot : c.pc.slot = some head) :
    head = a.queue.head ∧ a.history.popped.length < a.history.pushed.length := by
  have hok := hF.pop_ok hI hc
  have hseen := hI.ring.tailSeen_le
  unfold CopyPopPc.slot at hslot
  split at hslot <;> cases hslot
  rename_i copied hpc
  simp only [Pop.Ok, CopyPop.view, hpc, CopyPopPc.view] at hok
  exact ⟨hok.1, by omega⟩

/-- The slot that is written is not the slot that is read. -/
theorem CopyState.Follows.slot_ne (hF : s.Follows a) (hI : SpscInv r a) {p : CopyPush κ W}
    {c : CopyPop κ W} {tail head : BitVec 64} (hp : s.producer = some p)
    (hc : s.consumer = some c) (htail : p.pc.slot = some tail) (hhead : c.pc.slot = some head) :
    head.toNat ≠ tail.toNat := by
  obtain ⟨rfl, hlt⟩ := hF.pop_slot hI hc hhead
  rw [hF.push_slot hI hp htail, hI.ring.head_eq]
  exact hI.ring.slot_ne_tail le_rfl hlt

theorem CopyState.Follows.assigned_ne (hF : s.Follows a) (hI : SpscInv r a) {c : CopyPop κ W}
    {head : BitVec 64} (hc : s.consumer = some c) (hhead : c.pc.slot = some head) :
    s.assigned ≠ some head.toNat := by
  rcases hp : s.producer with _ | p
  · simp [CopyState.assigned, hp]
  · rw [CopyState.assigned_eq hp]
    rcases htail : p.pc.slot with _ | tail
    · simp
    · simpa using (hF.slot_ne hI hp hc htail hhead).symm

end Owners

section Steps

variable {r : RingSize} {s s' : CopyState κ W} {a : SpscState (κ → W)} [Inhabited W]

variable (r) in
theorem SpscState.leads_push {p p' : Push (κ → W)} {q' : SpscQueue (κ → W)}
    (hp : a.producer = some p) (hst : a.queue.push r p = some (q', p')) :
    (spscSystem r).Leads a
      { a with queue := q', producer := some p', history := a.notePush p } :=
  .single ⟨.push, by simp only [spscSystem, SpscState.step, hp, hst, Option.bind_some,
    Option.map_some]⟩

variable (r) in
theorem SpscState.leads_pop {c c' : Pop (κ → W)} {q' : SpscQueue (κ → W)}
    (hc : a.consumer = some c) (hst : a.queue.pop r c = some (q', c')) :
    (spscSystem r).Leads a
      { a with queue := q', consumer := some c', history := a.notePop c } :=
  .single ⟨.pop, by simp only [spscSystem, SpscState.step, hc, hst, Option.bind_some,
    Option.map_some]⟩

omit [Inhabited W] in
/-- A step of the producer that copies no word. -/
theorem CopyState.Follows.setPush (hF : s.Follows a) {p : CopyPush κ W} {queue : CopyQueue κ W}
    {pushed : List (κ → W)} {a' : SpscState (κ → W)} (hbuffer : queue.buffer = s.queue.buffer)
    (hqueue : a'.queue = CopyState.wholeQueue
      { s with queue := queue, producer := some p, pushed := pushed })
    (hproducer : a'.producer = some p.view) (hconsumer : a'.consumer = a.consumer)
    (hpushed : a'.history.pushed = pushed) (hpopped : a'.history.popped = a.history.popped)
    (hcopied : ∀ tail copied, p.pc = .copy tail copied → copied = ∅) :
    CopyState.Follows { s with queue := queue, producer := some p, pushed := pushed } a' where
  queue := hqueue
  producer := hproducer
  consumer := hconsumer.trans hF.consumer
  pushed := hpushed
  popped := by rw [hpopped, hF.popped]
  written := by
    rintro p' tail copied ⟨⟩ hpc word hword
    rw [hcopied tail copied hpc] at hword
    cases hword
  read c head copied hc hpc word hword := by
    rw [hF.read c head copied hc hpc word hword, hbuffer]

omit [Inhabited W] in
/-- A step of the consumer that copies no word. -/
theorem CopyState.Follows.setPop (hF : s.Follows a) {c : CopyPop κ W} {queue : CopyQueue κ W}
    {popped : ℕ} {a' : SpscState (κ → W)} (hbuffer : queue.buffer = s.queue.buffer)
    (hqueue : a'.queue = CopyState.wholeQueue
      { s with queue := queue, consumer := some c, popped := popped })
    (hproducer : a'.producer = a.producer) (hconsumer : a'.consumer = some c.view)
    (hpushed : a'.history.pushed = a.history.pushed)
    (hpopped : a'.history.popped.length = popped)
    (hcopied : ∀ head copied, c.pc = .copy head copied → copied = ∅) :
    CopyState.Follows { s with queue := queue, consumer := some c, popped := popped } a' where
  queue := hqueue
  producer := hproducer.trans hF.producer
  consumer := hconsumer
  pushed := hpushed.trans hF.pushed
  popped := hpopped
  written p tail copied hp hpc word hword := by
    rw [← hF.written p tail copied hp hpc word hword, hbuffer]
  read := by
    rintro c' head copied ⟨⟩ hpc word hword
    rw [hcopied head copied hpc] at hword
    cases hword

variable [DecidableEq κ] [Fintype κ]

omit [DecidableEq κ] [Fintype κ] in
/-- From either comparison, with room: the slot is taken under assignment. -/
theorem SpscState.leads_assign {p : Push (κ → W)} {tail : BitVec 64} (hp : a.producer = some p)
    (hpc : p.pc = .compare tail ∨ p.pc = .recompare tail)
    (hroom : r.next tail ≠ a.queue.headCache) :
    (spscSystem r).Leads a { a with
      queue := { a.queue with buffer := Function.update a.queue.buffer tail.toNat none }
      producer := some { p with pc := .writing tail } } := by
  have hcheck : a.queue.push r p = some (a.queue, { p with pc := .write tail }) := by
    rcases hpc with hpc | hpc <;> simp only [SpscQueue.push, hpc, if_neg hroom]
  have hl := leads_push r hp hcheck
  have hnote : a.notePush p = a.history := by
    rcases hpc with hpc | hpc <;> simp only [notePush, hpc]
  rw [hnote] at hl
  have hl' := hl.trans (leads_push r rfl rfl)
  exact hl'

omit [DecidableEq κ] [Fintype κ] in
/-- With the assignment at its end: the slot holds the item, and `tail_` is stored. -/
theorem SpscState.leads_publish {item : κ → W} {byMove : Bool} {tail : BitVec 64}
    (hp : a.producer = some ⟨item, byMove, some item, .writing tail⟩) :
    (spscSystem r).Leads a { a with
      queue := { a.queue with
        buffer := Function.update a.queue.buffer tail.toNat (some item)
        tail := r.next tail }
      producer := some ⟨item, byMove, if byMove then none else some item, .returned true⟩
      history := { a.history with pushed := a.history.pushed ++ [item] } } := by
  have hl := (leads_push r hp rfl).trans (leads_push r rfl rfl)
  exact hl

omit [DecidableEq κ] [Fintype κ] in
/-- From either comparison, with an element there: `out` is taken under assignment. -/
theorem SpscState.leads_take {c : Pop (κ → W)} {head : BitVec 64} (hc : a.consumer = some c)
    (hpc : c.pc = .compare head ∨ c.pc = .recompare head) (hfull : head ≠ a.queue.tailCache) :
    (spscSystem r).Leads a { a with consumer := some ⟨none, .reading head⟩ } := by
  have hcheck : a.queue.pop r c = some (a.queue, { c with pc := .read head }) := by
    rcases hpc with hpc | hpc <;> simp only [SpscQueue.pop, hpc, if_neg hfull]
  have hl := leads_pop r hc hcheck
  have hnote : a.notePop c = a.history := by
    rcases hpc with hpc | hpc <;> simp only [notePop, hpc]
  rw [hnote] at hl
  have hl' := hl.trans (leads_pop r rfl rfl)
  exact hl'

omit [DecidableEq κ] [Fintype κ] in
/-- With the assignment at its end: `out` holds what the slot held, and `head_` is stored. -/
theorem SpscState.leads_consume {head : BitVec 64} (hc : a.consumer = some ⟨none, .reading head⟩) :
    (spscSystem r).Leads a { a with
      queue := { a.queue with head := r.next head }
      consumer := some ⟨a.queue.buffer head.toNat, .returned true⟩
      history := { a.history with
        popped := a.history.popped ++ [a.queue.buffer head.toNat] } } := by
  have hl := (leads_pop r hc rfl).trans (leads_pop r rfl rfl)
  exact hl

/-- The full check and the store of `tail_` take the producer of whole slots two steps each. -/
theorem CopyState.Follows.push (hF : s.Follows a) {p : CopyPush κ W} (hp : s.producer = some p)
    (hst : s.push r p = some s') : ∃ a', (spscSystem r).Leads a a' ∧ s'.Follows a' := by
  have hpa : a.producer = some p.view := by rw [hF.producer, hp, Option.map_some]
  have hfree := CopyState.assigned_eq hp
  obtain ⟨queue, producer, consumer, history⟩ := a
  obtain rfl : queue = s.wholeQueue := hF.queue
  obtain ⟨item, byMove, pc⟩ := p
  unfold CopyState.push at hst
  rcases pc with _ | tail | tail | tail | ⟨tail, copied⟩ | ok
  · cases hst
    refine ⟨_, SpscState.leads_push r hpa rfl, hF.setPush rfl ?_ rfl rfl hF.pushed rfl (by simp)⟩
    exact congrArg (SpscQueue.mk _ _ _ _) (CopyState.slots_setPush hfree rfl rfl).symm
  · simp only [Option.some.injEq] at hst
    subst hst
    split_ifs with hroom
    · refine ⟨_, SpscState.leads_push r hpa (if_pos hroom),
        hF.setPush rfl ?_ rfl rfl hF.pushed rfl (by simp)⟩
      exact congrArg (SpscQueue.mk _ _ _ _) (CopyState.slots_setPush hfree rfl rfl).symm
    · refine ⟨_, SpscState.leads_assign hpa (.inl rfl) hroom,
        hF.setPush rfl ?_ rfl rfl hF.pushed rfl (by simp)⟩
      exact congrArg (SpscQueue.mk _ _ _ _) (CopyState.slots_assign hp rfl tail ∅).symm
  · cases hst
    refine ⟨_, SpscState.leads_push r hpa rfl, hF.setPush rfl ?_ rfl rfl hF.pushed rfl (by simp)⟩
    exact congrArg (SpscQueue.mk _ _ _ _) (CopyState.slots_setPush hfree rfl rfl).symm
  · simp only [Option.some.injEq] at hst
    subst hst
    split_ifs with hroom
    · refine ⟨_, SpscState.leads_push r hpa (if_pos hroom),
        hF.setPush rfl ?_ rfl rfl hF.pushed rfl (by simp)⟩
      exact congrArg (SpscQueue.mk _ _ _ _) (CopyState.slots_setPush hfree rfl rfl).symm
    · refine ⟨_, SpscState.leads_assign hpa (.inr rfl) hroom,
        hF.setPush rfl ?_ rfl rfl hF.pushed rfl (by simp)⟩
      exact congrArg (SpscQueue.mk _ _ _ _) (CopyState.slots_assign hp rfl tail ∅).symm
  · simp only [Option.ite_none_right_eq_some, Option.some.injEq] at hst
    obtain ⟨rfl, rfl⟩ := hst
    have hitem : s.queue.buffer tail.toNat = item :=
      funext fun word => hF.written _ tail _ hp rfl word (Finset.mem_univ word)
    refine ⟨_, SpscState.leads_publish hpa, hF.setPush rfl ?_ rfl rfl ?_ rfl (by simp)⟩
    · exact congrArg (SpscQueue.mk _ _ _ _)
        (CopyState.slots_publish tail { s.queue with tail := r.next tail } (s.pushed ++ [item]) hp
          rfl hitem rfl).symm
    · exact congrArg (· ++ [item]) hF.pushed
  · cases hst

/-- So do the empty check and the store of `head_` the consumer of whole slots. -/
theorem CopyState.Follows.pop (hF : s.Follows a) (hI : SpscInv r a) {c : CopyPop κ W}
    (hc : s.consumer = some c) (hst : s.pop r c = some s') :
    ∃ a', (spscSystem r).Leads a a' ∧ s'.Follows a' := by
  have hca : a.consumer = some c.view := by rw [hF.consumer, hc, Option.map_some]
  have hfree : ∀ {head}, c.pc.slot = some head → s.assigned ≠ some head.toNat :=
    hF.assigned_ne hI hc
  obtain ⟨queue, producer, consumer, history⟩ := a
  obtain rfl : queue = s.wholeQueue := hF.queue
  obtain ⟨out, pc⟩ := c
  unfold CopyState.pop at hst
  rcases pc with _ | head | head | head | ⟨head, copied⟩ | ok
  · cases hst
    exact ⟨_, SpscState.leads_pop r hca rfl, hF.setPop rfl rfl rfl rfl rfl hF.popped (by simp)⟩
  · simp only [Option.some.injEq] at hst
    subst hst
    split_ifs with hempty
    · exact ⟨_, SpscState.leads_pop r hca (if_pos hempty),
        hF.setPop rfl rfl rfl rfl rfl hF.popped (by simp)⟩
    · exact ⟨_, SpscState.leads_take hca (.inl rfl) hempty,
        hF.setPop rfl rfl rfl rfl rfl hF.popped (by simp)⟩
  · cases hst
    exact ⟨_, SpscState.leads_pop r hca rfl, hF.setPop rfl rfl rfl rfl rfl hF.popped (by simp)⟩
  · simp only [Option.some.injEq] at hst
    subst hst
    split_ifs with hempty
    · exact ⟨_, SpscState.leads_pop r hca (if_pos hempty),
        hF.setPop rfl rfl rfl rfl rfl hF.popped (by simp)⟩
    · exact ⟨_, SpscState.leads_take hca (.inr rfl) hempty,
        hF.setPop rfl rfl rfl rfl rfl hF.popped (by simp)⟩
  · simp only [Option.ite_none_right_eq_some, Option.some.injEq] at hst
    obtain ⟨rfl, rfl⟩ := hst
    have hout : s.wholeQueue.buffer head.toNat = some out := by
      show s.slots head.toNat = some out
      rw [CopyState.slots_of_ne (hfree rfl)]
      exact congrArg some (funext fun word =>
        (hF.read _ head _ hc rfl word (Finset.mem_univ word)).symm)
    refine ⟨_, SpscState.leads_consume hca, hF.setPop rfl rfl rfl ?_ rfl ?_ (by simp)⟩
    · exact congrArg (fun out => some (Pop.mk out (.returned true))) hout
    · simp only [List.length_append, List.length_singleton]
      rw [hF.popped]
  · cases hst

omit [Inhabited W] [Fintype κ] in
/-- The copying of a word of the item is no step of the producer of whole slots. -/
theorem CopyState.Follows.copyIn (hF : s.Follows a) (hI : SpscInv r a) {p : CopyPush κ W}
    {word : κ} (hp : s.producer = some p) (hst : s.copyIn p word = some s') : s'.Follows a := by
  have hne : ∀ {c tail head}, s.consumer = some c → p.pc.slot = some tail →
      c.pc.slot = some head → head.toNat ≠ tail.toNat := fun hc => hF.slot_ne hI hp hc
  unfold CopyState.copyIn at hst
  obtain ⟨item, byMove, pc⟩ := p
  rcases pc with _ | _ | _ | _ | ⟨tail, copied⟩ | _ <;> simp only [reduceCtorEq] at hst
  simp only [Option.ite_none_left_eq_some, Option.some.injEq] at hst
  obtain ⟨hword, rfl⟩ := hst
  have hassigned : s.assigned = some tail.toNat := CopyState.assigned_eq hp
  refine ⟨?_, ?_, hF.consumer, hF.pushed, hF.popped, ?_, ?_⟩
  · rw [hF.queue]
    refine congrArg (SpscQueue.mk _ _ _ _) (funext fun i => ?_)
    by_cases hi : i = tail.toNat
    · rw [hi]
      exact (if_pos hassigned).trans (if_pos rfl).symm
    · rw [CopyState.slots_of_ne, CopyState.slots_of_ne]
      · exact congrArg some (Function.update_of_ne hi ..).symm
      · rw [CopyState.assigned_eq rfl]
        simpa [CopyPushPc.slot] using Ne.symm hi
      · rw [hassigned]
        simpa using Ne.symm hi
  · rw [hF.producer, hp]
    rfl
  · -- the words copied before, and this one
    rintro p' tail' copied' ⟨⟩ ⟨⟩ w hw
    show Function.update s.queue.buffer tail.toNat _ tail.toNat w = item w
    rw [Function.update_self]
    by_cases hww : w = word
    · rw [hww, Function.update_self]
    · rw [Function.update_of_ne hww]
      exact hF.written _ tail copied hp rfl w (Finset.mem_of_mem_insert_of_ne hw hww)
  · -- the consumer has copied from another slot
    intro c head copied' hc hpc w hw
    have hslot : c.pc.slot = some head := by rw [hpc]; rfl
    show c.out w = Function.update s.queue.buffer tail.toNat _ head.toNat w
    rw [Function.update_of_ne (hne hc rfl hslot)]
    exact hF.read c head copied' hc hpc w hw

omit [Inhabited W] [Fintype κ] in
/-- Nor is the copying of a word of the slot one of the consumer of whole slots. -/
theorem CopyState.Follows.copyOut (hF : s.Follows a) {c : CopyPop κ W} {word : κ}
    (hc : s.consumer = some c) (hst : s.copyOut c word = some s') : s'.Follows a := by
  unfold CopyState.copyOut at hst
  obtain ⟨out, pc⟩ := c
  rcases pc with _ | _ | _ | _ | ⟨head, copied⟩ | _ <;> simp only [reduceCtorEq] at hst
  simp only [Option.ite_none_left_eq_some, Option.some.injEq] at hst
  obtain ⟨hword, rfl⟩ := hst
  refine ⟨hF.queue, hF.producer, ?_, hF.pushed, hF.popped, hF.written, ?_⟩
  · rw [hF.consumer, hc]
    rfl
  · rintro c' head' copied' ⟨⟩ ⟨⟩ w hw
    show Function.update out word _ w = s.queue.buffer head.toNat w
    by_cases hww : w = word
    · rw [hww, Function.update_self]
    · rw [Function.update_of_ne hww]
      exact hF.read _ head copied hc rfl w (Finset.mem_of_mem_insert_of_ne hw hww)

omit [Inhabited W] [DecidableEq κ] [Fintype κ] in
theorem CopyState.assigned_of_idle (hidle : s.producer.all fun p => p.pc.isReturned) :
    s.assigned = none := by
  unfold assigned
  rcases hp : s.producer with _ | ⟨item, byMove, pc⟩
  · rfl
  · rw [hp] at hidle
    rcases pc with _ | _ | _ | _ | _ | ok
    all_goals first | rfl | cases hidle

omit [Inhabited W] [DecidableEq κ] [Fintype κ] in
theorem CopyState.Follows.producer_idle (hF : s.Follows a)
    (hidle : s.producer.all fun p => p.pc.isReturned) : a.producer.all Push.isReturned := by
  rw [hF.producer]
  rcases hp : s.producer with _ | ⟨item, byMove, pc⟩
  · rfl
  · rw [hp] at hidle
    rcases pc with _ | _ | _ | _ | _ | ok
    all_goals first | rfl | cases hidle

omit [Inhabited W] [DecidableEq κ] [Fintype κ] in
theorem CopyState.Follows.consumer_idle (hF : s.Follows a)
    (hidle : s.consumer.all fun c => c.pc.isReturned) : a.consumer.all Pop.isReturned := by
  rw [hF.consumer]
  rcases hc : s.consumer with _ | ⟨out, pc⟩
  · rfl
  · rw [hc] at hidle
    rcases pc with _ | _ | _ | _ | _ | ok
    all_goals first | rfl | cases hidle

theorem CopyState.Follows.step (hF : s.Follows a) (hI : SpscInv r a) {l : CopyLabel κ W}
    (hst : CopyState.step r s l = some s') : ∃ a', (spscSystem r).Leads a a' ∧ s'.Follows a' := by
  cases l with
  | callPush item byMove =>
    simp only [CopyState.step, Option.ite_none_right_eq_some, Option.some.injEq] at hst
    obtain ⟨hidle, rfl⟩ := hst
    refine ⟨_, .single ⟨.callPush item byMove, if_pos (hF.producer_idle hidle)⟩, ?_⟩
    refine hF.setPush rfl ?_ ?_ rfl hF.pushed rfl (by simp)
    · rw [hF.queue]
      have hfree := CopyState.assigned_of_idle hidle
      exact congrArg (SpscQueue.mk _ _ _ _) (CopyState.slots_setPush hfree rfl rfl).symm
    · cases byMove <;> rfl
  | push =>
    simp only [CopyState.step, Option.bind_eq_some_iff] at hst
    obtain ⟨p, hp, hst⟩ := hst
    exact hF.push hp hst
  | copyIn word =>
    simp only [CopyState.step, Option.bind_eq_some_iff] at hst
    obtain ⟨p, hp, hst⟩ := hst
    exact ⟨a, .refl, hF.copyIn hI hp hst⟩
  | callPop out =>
    simp only [CopyState.step, Option.ite_none_right_eq_some, Option.some.injEq] at hst
    obtain ⟨hidle, rfl⟩ := hst
    refine ⟨_, .single ⟨.callPop (some out), if_pos (hF.consumer_idle hidle)⟩, ?_⟩
    exact hF.setPop rfl hF.queue rfl rfl rfl hF.popped (by simp)
  | pop =>
    simp only [CopyState.step, Option.bind_eq_some_iff] at hst
    obtain ⟨c, hc, hst⟩ := hst
    exact hF.pop hI hc hst
  | copyOut word =>
    simp only [CopyState.step, Option.bind_eq_some_iff] at hst
    obtain ⟨c, hc, hst⟩ := hst
    exact ⟨a, .refl, hF.copyOut hc hst⟩

end Steps

section Ownership

variable {r : RingSize} {s : CopyState κ W} {a : SpscState (κ → W)}

/-- What shows as an element is the words of the slot. -/
theorem CopyState.buffer_of_slots {i : ℕ} {v : κ → W} (h : s.slots i = some v) :
    s.queue.buffer i = v := by
  unfold slots at h
  split at h
  · cases h
  · exact Option.some.inj h

/-- The slot a pop reads holds, complete, the element of the push that published it. -/
theorem CopyState.Follows.pop_value (hF : s.Follows a) (hI : SpscInv r a) {c : CopyPop κ W}
    {head : BitVec 64} (hc : s.consumer = some c) (hslot : c.pc.slot = some head) :
    s.pushed[s.popped]? = some (s.queue.buffer head.toNat) := by
  obtain ⟨rfl, hlt⟩ := hF.pop_slot hI hc hslot
  have hv : a.history.pushed[a.history.popped.length]? = some _ := List.getElem?_eq_getElem hlt
  have hbuffer := hI.ring.slots _ _ le_rfl hv
  rw [← hI.ring.head_eq, hF.queue] at hbuffer
  rw [← hF.pushed, ← hF.popped, hv, hF.queue, CopyState.buffer_of_slots hbuffer]

/-- The slots between the indices hold, complete, what was pushed and not popped. -/
theorem CopyState.Follows.contents_eq (hF : s.Follows a) (hI : SpscInv r a) :
    s.queue.contents r = s.pushed.drop s.popped := by
  have hwhole := hI.ring.contents_eq
  rw [hF.queue, hF.pushed, hF.popped] at hwhole
  apply List.map_injective_iff.2 (Option.some_injective _)
  rw [← hwhole]
  unfold CopyQueue.contents SpscQueue.contents
  rw [List.map_map]
  refine List.map_congr_left fun i hi => ?_
  -- none of the slots inside is under assignment
  have hmem : s.slots ((s.queue.head + BitVec.ofNat 64 i) &&& r.mask).toNat
      ∈ (s.pushed.drop s.popped).map some :=
    hwhole ▸ List.mem_map_of_mem hi
  obtain ⟨v, -, hv⟩ := List.mem_map.1 hmem
  exact (congrArg some (CopyState.buffer_of_slots hv.symm)).trans hv

variable [DecidableEq κ] [Fintype κ] [Inhabited W]

omit [DecidableEq κ] [Fintype κ] in
theorem follows_init : (CopyState.init (κ := κ) (W := W)).Follows .init where
  queue := rfl
  producer := rfl
  consumer := rfl
  pushed := rfl
  popped := rfl
  written := by simp [CopyState.init]
  read := by simp [CopyState.init]

theorem copy_follows (h : (copySystem r).Reachable s) :
    ∃ a, (spscSystem r).Reachable a ∧ s.Follows a :=
  h.simulated follows_init fun _ ha hF hst => hF.step (spscInv_reachable ha) hst

variable (r) in
/-- A push in progress at its slot has the one at `tail_`, outside the slots from `head_` up to
`tail_`; a pop has the one at `head_`, inside, and what it copies is the oldest element not popped.
All the slots inside are complete. -/
theorem slot_ownership (h : (copySystem r).Reachable s) :
    (∀ p tail, s.producer = some p → p.pc.slot = some tail →
        tail = s.queue.tail ∧ ¬ r.Between s.queue.head s.queue.tail tail)
      ∧ (∀ c head, s.consumer = some c → c.pc.slot = some head →
        head = s.queue.head ∧ r.Between s.queue.head s.queue.tail head
          ∧ s.pushed[s.popped]? = some (s.queue.buffer head.toNat))
      ∧ (∀ c head copied, s.consumer = some c → c.pc = .copy head copied →
        ∀ word ∈ copied, c.out word = s.queue.buffer head.toNat word)
      ∧ (∀ p c tail head, s.producer = some p → s.consumer = some c → p.pc.slot = some tail →
        c.pc.slot = some head → tail ≠ head)
      ∧ s.queue.contents r = s.pushed.drop s.popped := by
  obtain ⟨a, ha, hF⟩ := copy_follows h
  have hI := spscInv_reachable ha
  refine ⟨fun p tail hp hslot => ?_, fun c head hc hslot => ?_, hF.read,
    fun p c tail head hp hc htail hhead he => ?_, hF.contents_eq hI⟩
  · obtain rfl := hF.push_slot hI hp hslot
    rw [hF.queue]
    exact ⟨rfl, r.not_between_end _ _⟩
  · have hvalue := hF.pop_value hI hc hslot
    obtain ⟨rfl, hlt⟩ := hF.pop_slot hI hc hslot
    have hin := r.between_start hI.ring.tail_eq hI.ring.head_eq hlt hI.ring.pushed_lt_popped
    rw [hF.queue] at hvalue hin ⊢
    exact ⟨rfl, hin, hvalue⟩
  · exact hF.slot_ne hI hp hc htail hhead (by rw [he])

/-- `SpscQueue<T, 4>` with elements of two words: one element is published, and while the second is
half written the first is half read. -/
def bothCopying : List (CopyLabel (Fin 2) ℕ) :=
  [.callPush ![7, 8] true, .push, .push, .copyIn 1, .copyIn 0, .push,
    .callPush ![9, 10] false, .push, .push, .copyIn 0,
    .callPop ![0, 0], .pop, .pop, .pop, .pop, .copyOut 1]

def fourPlaces : RingSize := ⟨4, by decide, by decide⟩

theorem slot_ownership_bothCopying :
    let s := ((copySystem fourPlaces).run .init bothCopying).get (by decide)
    (s.producer.bind fun p => p.pc.slot) = some 1 ∧ (s.consumer.bind fun c => c.pc.slot) = some 0
      ∧ s.pushed[s.popped]? = some (s.queue.buffer 0) := by
  have hs := System.reachable_get (M := copySystem fourPlaces) bothCopying (by decide)
  have hread : (((copySystem fourPlaces).run .init bothCopying).get (by decide)).consumer.bind
      (fun c => c.pc.slot) = some 0 := by decide
  obtain ⟨c, hc, hslot⟩ := Option.bind_eq_some_iff.1 hread
  exact ⟨by decide, hread, ((slot_ownership fourPlaces hs).2.1 c 0 hc hslot).2.2⟩

end Ownership

end RaceConditionZ
