import RaceConditionZ.Proofs.EventQueue
import RaceConditionZ.Proofs.MpscFifo
import RaceConditionZ.Proofs.WarningTally
import RaceConditionZ.QueuedEnforcer

/-!
# The enforcer's queue as a list

With the queue taken for the list of the events exchanged and not yet popped, the enforcer on the
`MpscQueue` takes the steps of the enforcer on a list: a push takes effect at its exchange, a pop
where it returns. A drain ends before that list is empty only where a push is between its exchange
and its link.
-/

namespace RaceConditionZ

open Transition PenaltyEnforcer

section Queue

variable {κ T : Type} [DecidableEq κ] [Fintype κ] {m m' : MpscState κ T}

/-- A producer's step leaves the consumer and the other producers alone. -/
theorem MpscState.producer_frame {l : MpscLabel κ T} {j : κ}
    (hl : (∃ v, l = .callPush j v) ∨ ∃ a, l = .push j a) (hst : m.step l = some m') :
    m'.consumer = m.consumer ∧ ∀ k, k ≠ j → m'.producers k = m.producers k := by
  rcases hl with ⟨v, rfl⟩ | ⟨a, rfl⟩ <;> cases mpscMove_of_step hst <;>
    exact ⟨rfl, fun k hk => Function.update_of_ne hk _ _⟩

theorem MpscState.callPush_effect {j : κ} {v : T} (hst : m.step (.callPush j v) = some m') :
    m'.waiting = m.waiting ∧ m'.producers j = some ⟨v, .allocate⟩
      ∧ m'.history.exchanged = m.history.exchanged := by
  cases mpscMove_of_step hst
  exact ⟨rfl, Function.update_self _ _ _, rfl⟩

theorem MpscState.callPop_effect {out : Option T} (hst : m.step (.callPop out) = some m') :
    m'.waiting = m.waiting ∧ m'.consumer = some ⟨out, .load⟩
      ∧ m'.history.exchanged = m.history.exchanged := by
  cases mpscMove_of_step hst
  exact ⟨rfl, rfl, rfl⟩

theorem MpscState.popped_le_of_step {l : MpscLabel κ T} (hst : m.step l = some m') :
    m.history.popped.length ≤ m'.history.popped.length := by
  cases mpscMove_of_step hst with
  | delete => simp only [List.length_append, Nat.le_add_right]
  | _ => exact le_rfl

/-- What a step of a push adds. -/
def MpscPush.adds (p : MpscPush T) : List T :=
  match p.pc with
  | .exchange _ => [p.value]
  | _ => []

/-- The push has taken effect. -/
def MpscPush.effected (p : MpscPush T) : Bool :=
  match p.pc with
  | .allocate | .exchange _ => false
  | _ => true

theorem MpscInv.push_effect (hI : MpscInv m) {j : κ} {a : ℕ} {p : MpscPush T}
    (hp : m.producers j = some p) (hst : m.step (.push j a) = some m') :
    m'.waiting = m.waiting ++ p.adds
      ∧ m'.history.exchanged.map Prod.snd = m.history.exchanged.map Prod.snd ++ p.adds
      ∧ ∃ p', m'.producers j = some p' ∧ p'.value = p.value
        ∧ (p.adds = [] ∧ p'.effected = p.effected
          ∨ p.adds = [p.value] ∧ p.effected = false ∧ p'.effected = true) := by
  cases mpscMove_of_step hst with
  | allocate hi | link hi =>
    cases hp.symm.trans hi
    exact ⟨(List.append_nil _).symm, (List.append_nil _).symm, _, Function.update_self _ _ _, rfl,
      .inl ⟨rfl, rfl⟩⟩
  | exchange hi =>
    cases hp.symm.trans hi
    refine ⟨?_, ?_, _, Function.update_self _ _ _, rfl, .inr ⟨rfl, rfl, rfl⟩⟩
    · have hle : m.history.popped.length ≤ (m.history.exchanged.map Prod.snd).length := by
        rw [List.length_map]
        exact hI.popped_le
      simp only [MpscState.waiting, MpscPush.adds, List.map_append, List.map_cons, List.map_nil,
        List.drop_append_of_le_length hle]
    · simp only [MpscPush.adds, List.map_append, List.map_cons, List.map_nil]

/-- A pop returns the oldest value waiting, and before it returns none has been taken. -/
theorem MpscInv.pop_effect (hI : MpscInv m) (hst : m.step .pop = some m') :
    m'.history.exchanged = m.history.exchanged
      ∧ ∃ c', m'.consumer = some c' ∧ (m'.waiting = m.waiting ∧ c'.pc ≠ .returned true
      ∨ ∃ e, m.waiting = e :: m'.waiting ∧ c'.out = some e ∧ c'.pc = .returned true) := by
  cases mpscMove_of_step hst with
  | fail | load | take | advance => exact ⟨rfl, _, rfl, .inl ⟨rfl, by simp⟩⟩
  | delete hc =>
    obtain ⟨taken, old, -, hat⟩ := hI.shape (hI.busy hc rfl)
    rw [hc] at hat
    obtain ⟨-, -, -, i, v, hv, hout⟩ := hat
    refine ⟨rfl, _, rfl, .inr ⟨v, ?_, hout, rfl⟩⟩
    have hget : (m.history.exchanged.map Prod.snd)[m.history.popped.length]? = some v := by
      rw [List.getElem?_map, hv, Option.map_some]
    obtain ⟨hlt, hget⟩ := List.getElem?_eq_some_iff.1 hget
    simp only [MpscState.waiting, List.length_append, List.length_singleton]
    rw [List.drop_eq_getElem_cons hlt, hget]

/-- What a pop has returned, until the next is called. -/
def MpscState.justPopped (m : MpscState κ T) : List T :=
  match m.consumer with
  | some ⟨out, .returned true⟩ => out.toList
  | _ => []

omit [DecidableEq κ] [Fintype κ] in
theorem MpscState.justPopped_of_ne {c : MpscPop T} (hc : m.consumer = some c)
    (hpc : c.pc ≠ .returned true) : m.justPopped = [] := by
  obtain ⟨out, pc⟩ := c
  unfold justPopped
  rw [hc]
  rcases pc with _ | _ | _ | _ | (_ | _)
  all_goals first | rfl | exact absurd rfl hpc

omit [DecidableEq κ] [Fintype κ] in
theorem MpscState.justPopped_of_returned {v : T}
    (hc : m.consumer = some ⟨some v, .returned true⟩) : m.justPopped = [v] := by
  unfold justPopped
  rw [hc]
  rfl

end Queue

/-- The violations among events: what the enforcer counts. -/
def violations (events : List RaceControlEvent) : List RaceControlEvent :=
  events.filter fun e => (warned e).isSome

theorem violations_append (es es' : List RaceControlEvent) :
    violations (es ++ es') = violations es ++ violations es' :=
  List.filter_append ..

/-- What the threads other than the enforcer push. -/
def EnforcerLabel.pushed : EnforcerLabel → List RaceControlEvent
  | .pushEvent e => [e]
  | _ => []

def EnforcerLabel.isPits : EnforcerLabel → Bool
  | .enteredPits _ | .exitedPits _ => true
  | _ => false

theorem EnforcerLabel.pushed_of_isPits {k : EnforcerLabel} (hk : k.isPits) : k.pushed = [] := by
  cases k with
  | pushEvent e => cases hk
  | _ => rfl

theorem EnforcerState.process_unqueued {e e' : EnforcerState} {now : ℤ}
    (hpush : ∀ f i batch, e.pc ≠ .push f i batch) (hst : e.process now = some e')
    (queue : List RaceControlEvent) :
    ({ e with queue := queue } : EnforcerState).process now = some { e' with queue := queue } := by
  unfold process at hst ⊢
  rcases hpc : e.pc with
      _ | _ | (_ | ⟨f, batch⟩) | ⟨f, i, count, batch⟩ | ⟨f, i, batch⟩ | ⟨i, batch⟩ <;>
    simp only [hpc, reduceCtorEq] at hst ⊢
  · obtain rfl := Option.some.inj hst
    rfl
  · split at hst <;> obtain rfl := Option.some.inj hst <;> rfl
  · by_cases hcount : count = 3
    · rw [if_pos hcount] at hst ⊢
      split at hst <;> obtain rfl := Option.some.inj hst <;> rfl
    · rw [if_neg hcount] at hst ⊢
      obtain rfl := Option.some.inj hst
      rfl
  · exact absurd hpc (hpush f i batch)
  · obtain rfl := Option.some.inj hst
    rfl

namespace QueuedEnforcer

variable {ι : Type} (s : QueuedEnforcer ι)

/-- Where the call is for the enforcer on a list. -/
def listPc : ProcessPc :=
  match s.pc with
  | .own pc => pc
  | .pop batch => .drain (batch ++ s.events.justPopped)
  | .push e i batch =>
    if (s.events.producers none).all MpscPush.effected then .store i batch else .push e i batch

/-- The events pushed, as far as their pushes have taken effect. -/
def exchanged : List RaceControlEvent := s.events.history.exchanged.map Prod.snd

/-- The enforcer on a list. -/
def onList : EnforcerState := ⟨s.enforcer, s.events.waiting, s.listPc, s.handled, s.announced⟩

/-- What the enforcer pushes announces the penalty in hand. -/
def Announcing : Prop :=
  ∀ e i batch, s.pc = .push e i batch → ∀ p, s.events.producers none = some p →
    ∃ now, p.value = penaltyIssued e now

variable {s} {s' : QueuedEnforcer ι} [DecidableEq ι] [Fintype ι]

/-- The steps, with what they do on the queue. -/
inductive Move (s : QueuedEnforcer ι) : QueuedLabel ι → QueuedEnforcer ι → Prop
  | producer {l : QueuedLabel ι} {i : ι} {k : MpscLabel (Option ι) RaceControlEvent}
      {events : MpscState (Option ι) RaceControlEvent}
      (hk : (∃ v, k = .callPush (some i) v) ∨ ∃ a, k = .push (some i) a)
      (hst : s.events.step k = some events) : Move s l { s with events := events }
  | callProcess (hpc : s.pc = .own .idle) : Move s .callProcess { s with pc := .own (.drain []) }
  | callPop {now : ℤ} {a : ℕ} {batch : List RaceControlEvent}
      {events : MpscState (Option ι) RaceControlEvent} (hpc : s.pc = .own (.drain batch))
      (hst : s.events.step (.callPop (ev batch)) = some events) :
      Move s (.process now a) { s with events := events, pc := .pop batch }
  | pop {now : ℤ} {a : ℕ} {batch : List RaceControlEvent}
      {c : MpscPop RaceControlEvent} {events : MpscState (Option ι) RaceControlEvent}
      (hpc : s.pc = .pop batch) (hc : s.events.consumer = some c)
      (hret : ∀ ok, c.pc ≠ .returned ok) (hst : s.events.step .pop = some events) :
      Move s (.process now a) { s with events := events }
  | found {now : ℤ} {a : ℕ} {batch : List RaceControlEvent} {e : RaceControlEvent}
      (hpc : s.pc = .pop batch) (hc : s.events.consumer = some ⟨some e, .returned true⟩) :
      Move s (.process now a) { s with pc := .own (.drain (batch ++ [e])) }
  | drained {now : ℤ} {a : ℕ} {batch : List RaceControlEvent} {out : Option RaceControlEvent}
      (hpc : s.pc = .pop batch) (hc : s.events.consumer = some ⟨out, .returned false⟩) :
      Move s (.process now a) { s with pc := .own (.loop batch) }
  | callPush {now : ℤ} {a : ℕ} {e : RaceControlEvent} {i : Fin 20}
      {batch : List RaceControlEvent} {events : MpscState (Option ι) RaceControlEvent}
      (hpc : s.pc = .own (.push e i batch))
      (hst : s.events.step (.callPush none (penaltyIssued e now)) = some events) :
      Move s (.process now a) { s with events := events, pc := .push e i batch }
  | push {now : ℤ} {a : ℕ} {e : RaceControlEvent} {i : Fin 20}
      {batch : List RaceControlEvent} {p : MpscPush RaceControlEvent}
      {events : MpscState (Option ι) RaceControlEvent} (hpc : s.pc = .push e i batch)
      (hp : s.events.producers none = some p) (hst : s.events.step (.push none a) = some events) :
      Move s (.process now a)
        { s with events := events, announced := s.announced ++ p.adds }
  | pushed {now : ℤ} {a : ℕ} {e : RaceControlEvent} {i : Fin 20}
      {batch : List RaceControlEvent} {p : MpscPush RaceControlEvent}
      (hpc : s.pc = .push e i batch) (hp : s.events.producers none = some p)
      (hret : p.pc = .returned) : Move s (.process now a) { s with pc := .own (.store i batch) }
  | own {now : ℤ} {a : ℕ} {pc : ProcessPc} {e : EnforcerState} (hpc : s.pc = .own pc)
      (hpush : ∀ f i batch, pc ≠ .push f i batch)
      (hst : (s.unqueued pc).process now = some e) : Move s (.process now a) (s.withUnqueued e)
  | pits {l : QueuedLabel ι} {k : EnforcerLabel} {p : PenaltyEnforcer} (hk : k.isPits)
      (hp : ∀ e : EnforcerState, e.enforcer = s.enforcer →
        e.step k = some { e with enforcer := p }) : Move s l { s with enforcer := p }

theorem move_of_process {now : ℤ} {a : ℕ} (hst : s.process now a = some s') :
    s.Move (.process now a) s' := by
  unfold QueuedEnforcer.process at hst
  split at hst
  · rw [Option.map_eq_some_iff] at hst
    obtain ⟨events, hevents, rfl⟩ := hst
    exact .callPop ‹_› hevents
  · rename_i batch hpc
    rw [Option.bind_eq_some_iff] at hst
    obtain ⟨⟨out, pc⟩, hc, hst⟩ := hst
    split at hst
    · rename_i hret
      rw [Option.map_eq_some_iff] at hst
      obtain ⟨e, he, rfl⟩ := hst
      obtain rfl : out = some e := he
      obtain rfl : pc = .returned true := hret
      exact .found hpc hc
    · rename_i hret
      obtain rfl := Option.some.inj hst
      obtain rfl : pc = .returned false := hret
      exact .drained hpc hc
    · rename_i htrue hfalse
      rw [Option.map_eq_some_iff] at hst
      obtain ⟨events, hevents, rfl⟩ := hst
      refine .pop hpc hc ?_ hevents
      rintro (_ | _) hok
      · exact hfalse hok
      · exact htrue hok
  · rw [Option.map_eq_some_iff] at hst
    obtain ⟨events, hevents, rfl⟩ := hst
    exact .callPush ‹_› hevents
  · rename_i e i batch hpc
    rw [Option.bind_eq_some_iff] at hst
    obtain ⟨p, hp, hst⟩ := hst
    split at hst
    · obtain rfl := Option.some.inj hst
      exact .pushed hpc hp ‹_›
    · rw [Option.map_eq_some_iff] at hst
      obtain ⟨events, hevents, rfl⟩ := hst
      exact .push hpc hp hevents
  · rename_i pc hdrain hpush hpc
    rw [Option.map_eq_some_iff] at hst
    obtain ⟨e, he, rfl⟩ := hst
    refine .own hpc ?_ he
    rintro f i batch rfl
    exact hpush f i batch rfl

theorem move_of_step {l : QueuedLabel ι} (hst : s.step l = some s') : s.Move l s' := by
  cases l with
  | callPush i e =>
    simp only [QueuedEnforcer.step, Option.map_eq_some_iff] at hst
    obtain ⟨events, hevents, rfl⟩ := hst
    exact .producer (.inl ⟨e, rfl⟩) hevents
  | push i a =>
    simp only [QueuedEnforcer.step, Option.map_eq_some_iff] at hst
    obtain ⟨events, hevents, rfl⟩ := hst
    exact .producer (.inr ⟨a, rfl⟩) hevents
  | callProcess =>
    simp only [QueuedEnforcer.step] at hst
    split at hst
    · obtain rfl := Option.some.inj hst
      exact .callProcess ‹_›
    · cases hst
  | process now a => exact move_of_process hst
  | enteredPits id =>
    obtain rfl := Option.some.inj hst
    refine .pits (k := .enteredPits id) rfl fun e he => ?_
    rw [EnforcerState.step, he]
  | exitedPits id =>
    obtain rfl := Option.some.inj hst
    refine .pits (k := .exitedPits id) rfl fun e he => ?_
    rw [EnforcerState.step, he]

/-- A step of the enforcer on its queue is a step of the queue, or leaves it alone. -/
theorem events_step {l : QueuedLabel ι} (hst : s.step l = some s') :
    s'.events = s.events
      ∨ ∃ k, (mpscSystem (Option ι) RaceControlEvent).step s.events k = some s'.events := by
  have hstep : ∀ {k : MpscLabel (Option ι) RaceControlEvent}
      {events : MpscState (Option ι) RaceControlEvent}, s.events.step k = some events →
      ∃ k, (mpscSystem (Option ι) RaceControlEvent).step s.events k = some events :=
    fun {k} _ hevents => ⟨k, hevents⟩
  cases move_of_step hst with
  | producer _ hevents | callPop _ hevents | pop _ _ _ hevents | callPush _ hevents
  | push _ _ hevents => exact .inr (hstep hevents)
  | _ => exact .inl rfl

theorem events_reachable (h : (queuedSystem ι).Reachable s) :
    (mpscSystem (Option ι) RaceControlEvent).Reachable s.events :=
  System.Reachable.map (f := fun s : QueuedEnforcer ι => s.events) rfl
    (fun _ hst => events_step hst) h

theorem announcing (h : (queuedSystem ι).Reachable s) : s.Announcing := by
  refine h.invariant (I := Announcing) (fun _ _ _ hpc => by cases hpc) ?_
  intro s l s' hs hI _ hst
  have hinv := mpscInv_reachable (events_reachable hs)
  cases move_of_step hst with
  | producer hk hevents =>
    obtain ⟨-, hproducers⟩ := MpscState.producer_frame hk hevents
    intro e i batch hpc p hp
    refine hI e i batch hpc p ?_
    rw [← hp]
    exact (hproducers none (by simp)).symm
  | callProcess | callPop | found | drained | pushed | own =>
    intro e i batch hpc
    cases hpc
  | pop hpc _ _ hevents =>
    intro e i batch hpc'
    rw [hpc] at hpc'
    cases hpc'
  | @callPush now _ _ _ _ events hpc hevents =>
    rintro e i batch ⟨⟩ p hp
    rw [(MpscState.callPush_effect hevents).2.1] at hp
    obtain rfl := Option.some.inj hp
    exact ⟨now, rfl⟩
  | push hpc hp hevents =>
    obtain ⟨-, -, p', hp', hvalue, -⟩ := hinv.push_effect hp hevents
    intro e i batch hpc' p'' hp''
    obtain rfl := Option.some.inj (hp'.symm.trans hp'')
    rw [hvalue]
    exact hI e i batch hpc' _ hp
  | pits => exact hI

/-- What a step of the enforcer on a list corresponds to: none, or one that is no pop of another
consumer, and the violations exchanged are those pushed. -/
def Follows (s s' : QueuedEnforcer ι) : Prop :=
  s'.onList = s.onList ∧ s'.exchanged = s.exchanged
    ∨ ∃ k, s.onList.step k = some s'.onList ∧ k ≠ .popEvent
      ∧ violations s'.exchanged = violations s.exchanged ++ violations k.pushed

theorem follows_of_step (h : (queuedSystem ι).Reachable s) {l : QueuedLabel ι}
    (hst : s.step l = some s') : s.Follows s' := by
  have hI := mpscInv_reachable (events_reachable h)
  cases move_of_step hst with
  | @producer l i k events hk hevents =>
    obtain ⟨hconsumer, hproducers⟩ := MpscState.producer_frame hk hevents
    have hsame : ({ s with events := events } : QueuedEnforcer ι).onList
        = { s.onList with queue := events.waiting } := by
      simp only [onList, listPc, MpscState.justPopped, hconsumer, hproducers none (by simp)]
    rcases hk with ⟨v, rfl⟩ | ⟨a, rfl⟩
    · obtain ⟨hwaiting, -, hexchanged⟩ := MpscState.callPush_effect hevents
      refine .inl ⟨?_, congrArg (List.map Prod.snd) hexchanged⟩
      rw [hsame, hwaiting]
      rfl
    · obtain ⟨p, hp⟩ : ∃ p, s.events.producers (some i) = some p := by
        simp only [MpscState.step, Option.bind_eq_some_iff] at hevents
        obtain ⟨p, hp, -⟩ := hevents
        exact ⟨p, hp⟩
      obtain ⟨hwaiting, hexchanged, -, -, -, ⟨hadds, -⟩ | ⟨hadds, -⟩⟩ := hI.push_effect hp hevents
      · rw [hadds, List.append_nil] at hwaiting hexchanged
        refine .inl ⟨?_, hexchanged⟩
        rw [hsame, hwaiting]
        rfl
      · rw [hadds] at hwaiting hexchanged
        refine .inr ⟨.pushEvent p.value, ?_, by simp, ?_⟩
        · rw [hsame, hwaiting]
          rfl
        · exact (congrArg violations hexchanged).trans (violations_append _ _)
  | callProcess hpc =>
    refine .inr ⟨.callProcess, ?_, by simp, (List.append_nil _).symm⟩
    simp only [onList, listPc, hpc, EnforcerState.step]
  | callPop hpc hevents =>
    obtain ⟨hwaiting, hconsumer, hexchanged⟩ := MpscState.callPop_effect hevents
    refine .inl ⟨?_, congrArg (List.map Prod.snd) hexchanged⟩
    simp only [onList, listPc, hpc, hwaiting, MpscState.justPopped_of_ne hconsumer (by simp),
      List.append_nil]
  | @pop _ _ _ _ events hpc hc hret hevents =>
    have hbefore := MpscState.justPopped_of_ne hc (hret true)
    obtain ⟨hexchanged, c', hc', ⟨hwaiting, hpc'⟩ | ⟨e, hwaiting, hout, hpc'⟩⟩ :=
      hI.pop_effect hevents
    · have hafter := MpscState.justPopped_of_ne hc' hpc'
      refine .inl ⟨?_, congrArg (List.map Prod.snd) hexchanged⟩
      simp only [onList, listPc, hpc, hbefore, hafter, hwaiting]
    · obtain ⟨out, pc⟩ := c'
      obtain rfl : out = some e := hout
      obtain rfl : pc = .returned true := hpc'
      refine .inr ⟨.drain true, ?_, by simp, ?_⟩
      · simp only [onList, listPc, hpc, hbefore, MpscState.justPopped_of_returned hc', hwaiting,
          List.append_nil, EnforcerState.step, EnforcerState.drain]
      · simp only [exchanged, hexchanged]
        exact (List.append_nil _).symm
  | found hpc hc =>
    refine .inl ⟨?_, rfl⟩
    simp only [onList, listPc, hpc, MpscState.justPopped_of_returned hc]
  | drained hpc hc =>
    refine .inr ⟨.drain false, ?_, by simp, (List.append_nil _).symm⟩
    simp only [onList, listPc, hpc, MpscState.justPopped_of_ne hc (by simp), List.append_nil,
      EnforcerState.step, EnforcerState.drain]
  | callPush hpc hevents =>
    obtain ⟨hwaiting, hproducer, hexchanged⟩ := MpscState.callPush_effect hevents
    refine .inl ⟨?_, congrArg (List.map Prod.snd) hexchanged⟩
    simp only [onList, listPc, hpc, hwaiting, hproducer, Option.all_some, MpscPush.effected,
      Bool.false_eq_true, if_false]
  | @push _ _ e i batch p events hpc hp hevents =>
    obtain ⟨hwaiting, hexchanged, p', hp', -, ⟨hadds, heffect⟩ | ⟨hadds, hnot, heffect⟩⟩ :=
      hI.push_effect hp hevents
    · rw [hadds, List.append_nil] at hwaiting hexchanged
      refine .inl ⟨?_, hexchanged⟩
      simp only [onList, listPc, hpc, hp, hp', hwaiting, hadds, heffect, Option.all_some,
        List.append_nil]
    · obtain ⟨now, hvalue⟩ := announcing h e i batch hpc p hp
      rw [hadds, hvalue] at hwaiting hexchanged
      refine .inr ⟨.process now, ?_, by simp, ?_⟩
      · simp only [onList, listPc, hpc, hp, hp', hwaiting, hadds, hnot, heffect, hvalue,
          Option.all_some, if_true, if_false, Bool.false_eq_true, EnforcerState.step,
          EnforcerState.process]
      · exact (congrArg violations hexchanged).trans (violations_append _ _)
  | pushed hpc hp hret =>
    refine .inl ⟨?_, rfl⟩
    simp only [onList, listPc, hpc, hp, Option.all_some, MpscPush.effected, hret, if_true]
  | @own now _ pc e hpc hpush hevents =>
    refine .inr ⟨.process now, ?_, by simp, (List.append_nil _).symm⟩
    have hprocess := EnforcerState.process_unqueued hpush hevents s.events.waiting
    simp only [onList, listPc, hpc, EnforcerState.step]
    exact hprocess
  | @pits l k p hk hp =>
    refine .inr ⟨k, hp _ rfl, ?_, ?_⟩
    · rintro rfl
      cases hk
    · rw [EnforcerLabel.pushed_of_isPits hk]
      exact (List.append_nil _).symm

theorem onList_step (h : (queuedSystem ι).Reachable s) {l : QueuedLabel ι}
    (hst : s.step l = some s') :
    s'.onList = s.onList ∨ ∃ k, enforcerSystem.step s.onList k = some s'.onList := by
  rcases follows_of_step h hst with ⟨he, -⟩ | ⟨k, hk, -⟩
  · exact .inl he
  · exact .inr ⟨k, hk⟩

end QueuedEnforcer

end RaceConditionZ
