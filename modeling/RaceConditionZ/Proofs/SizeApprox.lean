import RaceConditionZ.Lib.Stretch
import RaceConditionZ.Proofs.SpscFifo

/-!
# The indices and the size

Each index is a count modulo the size of the ring, so all stay below it, and the masked difference
of `tail_` and `head_` at one instant is the number of items. `size_approx` takes them at two
instants: with pushes and pops in between it may give a number that the queue never held, up to the
size less one where more has been popped than its load of `tail_` had seen pushed.
-/

namespace RaceConditionZ

open Transition

variable {T : Type}

section Indices

/-- The slot that the push accesses next. -/
def Push.slot (p : Push T) : Option (BitVec 64) :=
  match p.pc with
  | .write tail | .writing tail => some tail
  | _ => none

/-- The slot that the pop accesses next. -/
def Pop.slot (c : Pop T) : Option (BitVec 64) :=
  match c.pc with
  | .read head | .reading head => some head
  | _ => none

variable {r : RingSize} {s : SpscState T}

/-- A slot that a side accesses is the one of its own index. -/
theorem SpscInv.push_slot (hI : SpscInv r s) {p : Push T} (hp : s.producer = some p)
    {i : BitVec 64} (hi : p.slot = some i) : i = s.queue.tail := by
  have hok := hI.push_ok p hp
  have hpc : p.pc = .write i ∨ p.pc = .writing i := by
    unfold Push.slot at hi
    split at hi <;> simp_all
  unfold Push.Ok at hok
  rcases hpc with hpc | hpc <;> rw [hpc] at hok <;> exact hok.1

theorem SpscInv.pop_slot (hI : SpscInv r s) {c : Pop T} (hc : s.consumer = some c)
    {i : BitVec 64} (hi : c.slot = some i) : i = s.queue.head := by
  have hok := hI.pop_ok c hc
  have hpc : c.pc = .read i ∨ c.pc = .reading i := by
    unfold Pop.slot at hi
    split at hi <;> simp_all
  unfold Pop.Ok at hok
  rcases hpc with hpc | hpc <;> rw [hpc] at hok <;> exact hok.1

variable [Inhabited T]

end Indices

section Between

variable {ι : Type} {r : RingSize}

theorem SpscState.length_waiting (s : SpscState T) :
    s.waiting.length = s.history.pushed.length - s.history.popped.length :=
  List.length_drop

/-- A step takes back no push and no pop, and adds one of each at most. -/
theorem SpscState.step_counts {s s' : SpscState T} {l : SpscLabel T}
    (hst : SpscState.step r s l = some s') :
    s.history.pushed.length ≤ s'.history.pushed.length
      ∧ s'.history.pushed.length ≤ s.history.pushed.length + 1
      ∧ s.history.popped.length ≤ s'.history.popped.length
      ∧ s'.history.popped.length ≤ s.history.popped.length + 1 := by
  cases l with
  | callPush item byMove =>
    obtain ⟨-, rfl⟩ := SpscState.of_step_callPush hst
    simp
  | push =>
    obtain ⟨p, hp, q', p', -, rfl⟩ := SpscState.of_step_push hst
    unfold SpscState.notePush
    rcases p.pc with _ | tail | tail | tail | tail | tail | tail | ok <;> simp
  | callPop out =>
    obtain ⟨-, rfl⟩ := SpscState.of_step_callPop hst
    simp
  | pop =>
    obtain ⟨c, hc, q', c', -, rfl⟩ := SpscState.of_step_pop hst
    unfold SpscState.notePop
    rcases c.pc with _ | head | head | head | head | head | head | ok <;> simp

/-- The caller's own side has stood still. -/
def SizeCaller.Keeps (a b : SpscState T) : SizeCaller ι → Prop
  | .producer => b.producer = a.producer ∧ b.history.pushed = a.history.pushed
  | .consumer => b.consumer = a.consumer ∧ b.history.popped = a.history.popped
  | .other _ => True

/-- A step of the queue while `caller` is in `size_approx`. -/
def SizeCaller.Follows (r : RingSize) (caller : SizeCaller ι) (a b : SpscState T) : Prop :=
  (∃ l, SpscState.step r a l = some b) ∧ caller.Keeps a b

/-- What a call of `size_approx` knows: its own thread is in no call of the queue, and the indices
it has loaded are those of the first and the last instant. -/
def SizeCall.Ok (r : RingSize) (s : SizeState ι T) (caller : SizeCaller ι)
    (c : SizeCall T) : Prop :=
  match c.pc with
  | .loadTail => s.queueIdle caller
  | .loadHead tail => s.queueIdle caller
    ∧ ∃ first, Stretch.Spans (caller.Follows r) first s.spsc c.instants ∧ tail = first.queue.tail
  | .returned size => ∃ first last, Stretch.Spans (caller.Follows r) first last c.instants
    ∧ size = r.distance first.queue.tail last.queue.head

structure SizeInv (r : RingSize) (s : SizeState ι T) : Prop where
  spsc : SpscInv r s.spsc
  instants : ∀ caller c, s.calls caller = some c → ∀ t ∈ c.instants, SpscInv r t
  calls : ∀ caller c, s.calls caller = some c → c.Ok r s caller

/-- Where no push is in progress and none starts, the producer's side stands still. -/
theorem SpscState.producer_still {s s' : SpscState T} {l : SpscLabel T}
    (hidle : s.producer.all Push.isReturned = true)
    (hcall : ∀ item byMove, l ≠ .callPush item byMove)
    (hst : SpscState.step r s l = some s') :
    s'.producer = s.producer ∧ s'.history.pushed = s.history.pushed := by
  cases l with
  | callPush item byMove => exact absurd rfl (hcall item byMove)
  | push =>
    obtain ⟨-, -, -, hbusy⟩ := SpscState.push_frame hst
    rw [hidle] at hbusy
    cases hbusy
  | callPop out =>
    obtain ⟨-, rfl⟩ := SpscState.of_step_callPop hst
    exact ⟨rfl, rfl⟩
  | pop =>
    obtain ⟨hproducer, hpushed, -⟩ := SpscState.pop_frame hst
    exact ⟨hproducer, hpushed⟩

theorem SpscState.consumer_still {s s' : SpscState T} {l : SpscLabel T}
    (hidle : s.consumer.all Pop.isReturned = true) (hcall : ∀ out, l ≠ .callPop out)
    (hst : SpscState.step r s l = some s') :
    s'.consumer = s.consumer ∧ s'.history.popped = s.history.popped := by
  cases l with
  | callPush item byMove =>
    obtain ⟨-, rfl⟩ := SpscState.of_step_callPush hst
    exact ⟨rfl, rfl⟩
  | push =>
    obtain ⟨hconsumer, hpopped, -, -⟩ := SpscState.push_frame hst
    exact ⟨hconsumer, hpopped⟩
  | callPop out => exact absurd rfl (hcall out)
  | pop =>
    obtain ⟨-, -, hbusy⟩ := SpscState.pop_frame hst
    rw [hidle] at hbusy
    cases hbusy

/-- A thread in `size_approx` moves neither side of the queue. -/
theorem SizeState.keeps_of_mayStep {s : SizeState ι T} {caller : SizeCaller ι} {l : SpscLabel T}
    {t : SpscState T} (hbusy : s.sizeIdle caller = false) (hidle : s.queueIdle caller = true)
    (hmay : s.mayStep l = true) (hst : s.spsc.step r l = some t) : caller.Keeps s.spsc t := by
  cases caller with
  | producer =>
    refine SpscState.producer_still hidle (fun item byMove hl => ?_) hst
    rw [hl, SizeState.mayStep, hbusy] at hmay
    cases hmay
  | consumer =>
    refine SpscState.consumer_still hidle (fun out hl => ?_) hst
    rw [hl, SizeState.mayStep, hbusy] at hmay
    cases hmay
  | other i => trivial

theorem SizeCaller.Keeps.queueIdle {a b : SpscState T} {caller : SizeCaller ι}
    (h : caller.Keeps a b) {calls calls' : SizeCaller ι → Option (SizeCall T)}
    (hidle : (SizeState.mk a calls).queueIdle caller = true) :
    (SizeState.mk b calls').queueIdle caller = true := by
  cases caller with
  | producer =>
    show b.producer.all Push.isReturned = true
    rw [h.1]
    exact hidle
  | consumer =>
    show b.consumer.all Pop.isReturned = true
    rw [h.1]
    exact hidle
  | other i => rfl

/-- What a call of `size_approx` knows stays so over a step of the queue. -/
theorem SizeCall.Ok.observe {s : SizeState ι T} {caller : SizeCaller ι} {c : SizeCall T}
    {l : SpscLabel T} {t : SpscState T} (hok : c.Ok r s caller) (hc : s.calls caller = some c)
    (hmay : s.mayStep l = true) (hst : s.spsc.step r l = some t)
    (calls : SizeCaller ι → Option (SizeCall T)) : (c.observe t).Ok r ⟨t, calls⟩ caller := by
  have hkeeps : c.isReturned = false → s.queueIdle caller = true → caller.Keeps s.spsc t := by
    intro hbusy hidle
    refine SizeState.keeps_of_mayStep ?_ hidle hmay hst
    rw [SizeState.sizeIdle, hc, Option.all_some, hbusy]
  unfold SizeCall.Ok at hok
  unfold SizeCall.observe SizeCall.Ok
  unfold SizeCall.isReturned at hkeeps
  rcases hpc : c.pc with _ | tail | size <;> simp only [hpc, forall_const] at hok hkeeps ⊢
  · exact (hkeeps hok).queueIdle hok
  · obtain ⟨hidle, first, hspan, htail⟩ := hok
    have hkeep := hkeeps hidle
    exact ⟨hkeep.queueIdle hidle, first, hspan.concat ⟨⟨l, hst⟩, hkeep⟩, htail⟩
  · exact hok

theorem SizeCall.instants_observe {c : SizeCall T} {P : SpscState T → Prop} {t : SpscState T}
    (h : ∀ a ∈ c.instants, P a) (ht : P t) : ∀ a ∈ (c.observe t).instants, P a := by
  unfold SizeCall.observe
  split
  · intro a ha
    rcases List.mem_append.1 ha with ha | ha
    · exact h a ha
    · rw [List.mem_singleton.1 ha]
      exact ht
  · exact h

/-- What a call of `size_approx` knows does not depend on the other calls of it. -/
theorem SizeCall.Ok.of_calls {s : SizeState ι T} {caller : SizeCaller ι} {c : SizeCall T}
    (hok : c.Ok r s caller) (calls : SizeCaller ι → Option (SizeCall T)) :
    c.Ok r ⟨s.spsc, calls⟩ caller := by
  unfold SizeCall.Ok at hok ⊢
  cases caller <;> exact hok

/-- One step of a call of `size_approx`. -/
theorem SizeInv.size {s : SizeState ι T} (hI : SizeInv r s) {caller : SizeCaller ι}
    {c : SizeCall T} (hc : s.calls caller = some c) {pc : SpscQueue.SizePc}
    (hpc : s.spsc.queue.sizeApproxStep r c.pc = some pc) :
    let instants := if c.pc = .loadTail then [s.spsc] else c.instants
    (∀ t ∈ instants, SpscInv r t) ∧ SizeCall.Ok r s caller ⟨pc, instants⟩ := by
  intro instants
  have hok := hI.calls caller c hc
  have hinst := hI.instants caller c hc
  unfold SizeCall.Ok at hok
  unfold SpscQueue.sizeApproxStep at hpc
  rcases hcpc : c.pc with _ | tail | size <;> simp only [hcpc] at hok hpc
  · obtain rfl := Option.some.inj hpc
    have hone : instants = [s.spsc] := if_pos hcpc
    rw [hone]
    refine ⟨fun t ht => ?_, hok, s.spsc, .singleton _, rfl⟩
    rw [List.mem_singleton.1 ht]
    exact hI.spsc
  · obtain rfl := Option.some.inj hpc
    have hsame : instants = c.instants := if_neg (by rw [hcpc]; simp)
    rw [hsame]
    obtain ⟨-, first, hspan, rfl⟩ := hok
    exact ⟨hinst, first, s.spsc, hspan, rfl⟩
  · cases hpc

theorem SizeInv.setCall [DecidableEq ι] {s : SizeState ι T} (hI : SizeInv r s)
    {caller : SizeCaller ι} {c : SizeCall T} (hinst : ∀ t ∈ c.instants, SpscInv r t)
    (hok : c.Ok r s caller) :
    SizeInv r { s with calls := Function.update s.calls caller (some c) } := by
  refine ⟨hI.spsc, fun i c' hc' => ?_, fun i c' hc' => ?_⟩ <;> simp only at hc' <;>
    rcases eq_or_ne i caller with rfl | hne
  · rw [Function.update_self] at hc'
    obtain rfl := Option.some.inj hc'
    exact hinst
  · rw [Function.update_of_ne hne] at hc'
    exact hI.instants i c' hc'
  · rw [Function.update_self] at hc'
    obtain rfl := Option.some.inj hc'
    exact hok.of_calls _
  · rw [Function.update_of_ne hne] at hc'
    exact (hI.calls i c' hc').of_calls _

theorem SizeInv.step [DecidableEq ι] {s s' : SizeState ι T} (hI : SizeInv r s)
    {l : SizeLabel ι T} (hst : SizeState.step r s l = some s') : SizeInv r s' := by
  cases l with
  | queue l =>
    simp only [SizeState.step, Option.ite_none_right_eq_some, Option.map_eq_some_iff] at hst
    obtain ⟨hmay, t, ht, rfl⟩ := hst
    refine ⟨hI.spsc.step ht, fun caller c' hc' => ?_, fun caller c' hc' => ?_⟩ <;>
      obtain ⟨c, hc, rfl⟩ := Option.map_eq_some_iff.1 hc'
    · exact SizeCall.instants_observe (hI.instants caller c hc) (hI.spsc.step ht)
    · exact (hI.calls caller c hc).observe hc hmay ht _
  | callSize caller =>
    simp only [SizeState.step, Option.ite_none_right_eq_some, Option.some.injEq] at hst
    obtain ⟨⟨-, hidle⟩, rfl⟩ := hst
    exact hI.setCall (fun t ht => absurd ht List.not_mem_nil) hidle
  | size caller =>
    simp only [SizeState.step, Option.bind_eq_some_iff, Option.map_eq_some_iff] at hst
    obtain ⟨c, hc, pc, hpc, rfl⟩ := hst
    obtain ⟨hinst, hok⟩ := hI.size hc hpc
    exact hI.setCall hinst hok

theorem sizeInv_reachable [DecidableEq ι] [Inhabited T] {s : SizeState ι T}
    (h : (sizeSystem ι r).Reachable s) : SizeInv r s :=
  h.invariant ⟨spscInv_init r, fun _ _ h => (by cases h), fun _ _ h => (by cases h)⟩
    fun _ hI _ hst => hI.step hst

/-- The number lies between those of items held at two instants of the call. -/
def SizeCall.Between (c : SizeCall T) (size : BitVec 64) : Prop :=
  (∃ a ∈ c.instants, a.waiting.length ≤ size.toNat)
    ∧ ∃ b ∈ c.instants, size.toNat ≤ b.waiting.length

instance (c : SizeCall T) (size : BitVec 64) : Decidable (c.Between size) :=
  inferInstanceAs (Decidable (_ ∧ _))

/-- The pushes up to some instant of the call and the pops from it on are whole rounds of the
ring. -/
def SizeCall.Aligned (r : RingSize) (c : SizeCall T) : Prop :=
  ∃ first last, c.instants.head? = some first ∧ c.instants.getLast? = some last
    ∧ ∃ m ∈ c.instants, r.n ∣ (m.history.pushed.length - first.history.pushed.length)
      + (last.history.popped.length - m.history.popped.length)

section Span

variable {caller : SizeCaller ι} {first last m : SpscState T} {instants : List (SpscState T)}

theorem pushed_le_of_spans (h : Stretch.Spans (caller.Follows r) first last instants)
    (hm : m ∈ instants) : first.history.pushed.length ≤ m.history.pushed.length := by
  refine Stretch.head_le_of_isChain (f := fun s => s.history.pushed.length) ?_ h.chain h.head hm
  rintro a b ⟨⟨l, hst⟩, -⟩
  exact (SpscState.step_counts hst).1

theorem popped_le_of_spans (h : Stretch.Spans (caller.Follows r) first last instants)
    (hm : m ∈ instants) : m.history.popped.length ≤ last.history.popped.length := by
  refine Stretch.le_last_of_isChain (f := fun s => s.history.popped.length) ?_ h.chain h.last hm
  rintro a b ⟨⟨l, hst⟩, -⟩
  exact (SpscState.step_counts hst).2.2.1

/-- The number of items passes through every value between two that it takes. -/
theorem exists_waiting_eq (h : Stretch.Spans (caller.Follows r) first last instants)
    {a b : SpscState T} (ha : a ∈ instants) (hb : b ∈ instants) {v : ℕ}
    (hav : a.waiting.length ≤ v) (hvb : v ≤ b.waiting.length) :
    ∃ m ∈ instants, m.waiting.length = v := by
  refine Stretch.exists_eq_of_isChain (f := fun s => s.waiting.length) ?_ h.chain ha hb hav hvb
  rintro a b ⟨⟨l, hst⟩, -⟩
  obtain ⟨h1, h2, h3, h4⟩ := SpscState.step_counts hst
  simp only [SpscState.length_waiting]
  omega

/-- At an instant of the call as many items were held as it returns exactly where the pushes up to
then and the pops from then on are whole rounds. -/
theorem waiting_eq_iff (h : Stretch.Spans (caller.Follows r) first last instants)
    (hinst : ∀ t ∈ instants, SpscInv r t) (hm : m ∈ instants) :
    m.waiting.length = (r.distance first.queue.tail last.queue.head).toNat
      ↔ r.n ∣ (m.history.pushed.length - first.history.pushed.length)
        + (last.history.popped.length - m.history.popped.length) := by
  have hR := (hinst m hm).ring
  have htail := (hinst first h.first_mem).ring.tail_eq
  have hhead := (hinst last h.last_mem).ring.head_eq
  have hpush := pushed_le_of_spans h hm
  have hpop := popped_le_of_spans h hm
  have hle := hR.popped_le_pushed
  have hlt := hR.pushed_lt_popped
  have hmod := r.toNat_distance_modEq htail hhead
  set v := (r.distance first.queue.tail last.queue.head).toNat
  set d := (m.history.pushed.length - first.history.pushed.length)
    + (last.history.popped.length - m.history.popped.length) with hd
  rw [SpscState.length_waiting]
  set w := m.history.pushed.length - m.history.popped.length with hw
  have hsum : w + last.history.popped.length = first.history.pushed.length + d := by omega
  calc w = v ↔ w ≡ v [MOD r.n] :=
        ⟨fun he => he ▸ Nat.ModEq.refl w,
          fun he => he.eq_of_lt_of_lt (by omega) (r.toNat_distance_lt _ _)⟩
    _ ↔ w + last.history.popped.length ≡ v + last.history.popped.length [MOD r.n] :=
        ⟨fun he => he.add_right _, fun he => Nat.ModEq.add_right_cancel' _ he⟩
    _ ↔ first.history.pushed.length + d ≡ first.history.pushed.length [MOD r.n] := by
        rw [hsum]
        exact ⟨fun he => he.trans hmod, fun he => he.trans hmod.symm⟩
    _ ↔ r.n ∣ d := Nat.add_modEq_left_iff

end Span

variable [DecidableEq ι] [Inhabited T]

/-- The number that a call of `size_approx` returns, of whichever thread. -/
theorem size_approx_between_iff {s : SizeState ι T} (h : (sizeSystem ι r).Reachable s)
    {caller : SizeCaller ι} {c : SizeCall T} (hc : s.calls caller = some c) {size : BitVec 64}
    (hpc : c.pc = .returned size) :
    size.toNat < r.n ∧ (c.Between size ↔ c.Aligned r)
      ∧ ∃ first last, c.instants.head? = some first ∧ c.instants.getLast? = some last
        ∧ (caller = .producer ∨ last.history.pushed = first.history.pushed →
          size.toNat = last.waiting.length)
        ∧ (caller = .consumer ∨ last.history.popped = first.history.popped →
          size.toNat = first.waiting.length) := by
  have hI := sizeInv_reachable h
  have hok := hI.calls caller c hc
  have hinst := hI.instants caller c hc
  simp only [SizeCall.Ok, hpc] at hok
  obtain ⟨first, last, hspan, rfl⟩ := hok
  refine ⟨r.toNat_distance_lt _ _, ⟨?_, ?_⟩, first, last, hspan.head, hspan.last, ?_, ?_⟩
  · rintro ⟨⟨a, ha, hav⟩, b, hb, hvb⟩
    obtain ⟨m, hm, heq⟩ := exists_waiting_eq hspan ha hb hav hvb
    exact ⟨first, last, hspan.head, hspan.last, m, hm, (waiting_eq_iff hspan hinst hm).1 heq⟩
  · rintro ⟨first', last', hfirst, hlast, m, hm, hdvd⟩
    obtain rfl := Option.some.inj (hspan.head.symm.trans hfirst)
    obtain rfl := Option.some.inj (hspan.last.symm.trans hlast)
    have heq := (waiting_eq_iff hspan hinst hm).2 hdvd
    exact ⟨⟨m, hm, heq.le⟩, m, hm, heq.ge⟩
  · intro hstill
    have hpushed : last.history.pushed = first.history.pushed := by
      rcases hstill with rfl | hstill
      · exact hspan.eq (f := fun s => s.history.pushed) fun a b hab => hab.2.2
      · exact hstill
    refine ((waiting_eq_iff hspan hinst hspan.last_mem).2 ?_).symm
    simp [hpushed]
  · intro hstill
    have hpopped : last.history.popped = first.history.popped := by
      rcases hstill with rfl | hstill
      · exact hspan.eq (f := fun s => s.history.popped) fun a b hab => hab.2.2
      · exact hstill
    refine ((waiting_eq_iff hspan hinst hspan.first_mem).2 ?_).symm
    simp [hpopped]

/-- A call of `size_approx` with `ls` between its two loads. -/
def loadsAround (caller : SizeCaller Unit) (ls : List (SpscLabel ℕ)) : List (SizeLabel Unit ℕ) :=
  .callSize caller :: .size caller :: ls.map .queue ++ [.size caller]

/-- The consumer's call, with a push between its loads. -/
theorem size_approx_between_iff_consumer :
    let r := RingSize.ofPow 2 (by decide) (by decide)
    let M := sizeSystem (T := ℕ) Unit r
    let ls := loadsAround .consumer (.callPush 7 false :: List.replicate 5 .push)
    let s := (M.run M.init ls).get (by decide)
    ∃ c, s.calls .consumer = some c ∧ c.pc = .returned 0 ∧ (c.Between 0 ↔ c.Aligned r) := by
  intro r M ls s
  have hs : M.Reachable s := System.reachable_get _ (by decide)
  have hc : ∃ c, s.calls .consumer = some c ∧ c.pc = .returned 0 :=
    ⟨(s.calls .consumer).get (by decide), (Option.some_get _).symm, by decide⟩
  obtain ⟨c, hc, hpc⟩ := hc
  exact ⟨c, hc, hpc, (size_approx_between_iff hs hc hpc).2.1⟩

/-- A push and a pop between the loads: one item is held at most, and three are reported. -/
theorem size_approx_outrun :
    let M := sizeSystem (T := ℕ) Unit (.ofPow 2 (by decide) (by decide))
    let s := (M.run M.init (loadsAround (.other ()) (.callPush 7 false :: List.replicate 5 .push
      ++ .callPop none :: List.replicate 7 .pop))).get (by decide)
    ∃ c, M.Reachable s ∧ s.calls (.other ()) = some c ∧ c.pc = .returned 3
      ∧ (∀ a ∈ c.instants, a.waiting.length ≤ 1) ∧ ¬ c.Between 3 := by
  intro M s
  have hs : M.Reachable s := System.reachable_get _ (by decide)
  exact ⟨(s.calls (.other ())).get (by decide), hs, (Option.some_get _).symm, by decide, by decide,
    by decide⟩

end Between

end RaceConditionZ
