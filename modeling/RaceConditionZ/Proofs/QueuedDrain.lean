import RaceConditionZ.Proofs.QueueRefinement

/-!
# Every violation pushed is counted

What is counted, in the batch or waiting is what was exchanged, in that order. A drain may end
early, but not before the events that were exchanged when it began, if none of them was still to be
linked. So these are counted when the call returns.
-/

namespace RaceConditionZ

open Transition PenaltyEnforcer

section List

variable {e e' : EnforcerState}

/-- The violations counted, in the batch or waiting. -/
def EnforcerState.tallied (e : EnforcerState) : List RaceControlEvent :=
  e.handled ++ violations (e.pc.batch ++ e.queue)

theorem EnforcerState.tallied_drain {found : Bool} (hst : e.drain found = some e') :
    e'.tallied = e.tallied := by
  unfold drain at hst
  unfold tallied
  split at hst
  · rename_i batch f queue hpc hqueue
    obtain rfl := Option.some.inj hst
    rw [hpc, hqueue]
    simp only [ProcessPc.batch, List.append_assoc, List.singleton_append]
  · rename_i batch _ hpc
    obtain rfl := Option.some.inj hst
    rw [hpc]
    rfl
  · cases hst

/-- The head of the batch is counted if it is a violation, and skipped otherwise. -/
theorem EnforcerState.tallied_process {now : ℤ} (hst : e.process now = some e') :
    e'.tallied = e.tallied := by
  have hpush := warned_penaltyIssued
  unfold process at hst
  unfold tallied
  rcases hpc : e.pc with
      _ | _ | (_ | ⟨f, batch⟩) | ⟨f, i, count, batch⟩ | ⟨f, i, batch⟩ | ⟨i, batch⟩ <;>
    simp only [hpc, reduceCtorEq] at hst
  · obtain rfl := Option.some.inj hst
    rfl
  · rcases hf : warned f with _ | i <;> simp only [hf] at hst <;> obtain rfl := Option.some.inj hst
    · simp only [ProcessPc.batch, violations, List.cons_append, List.filter_cons, hf,
        Option.isSome_none, Bool.false_eq_true, if_false]
    · simp only [ProcessPc.batch, violations, List.cons_append, List.filter_cons, hf,
        Option.isSome_some, if_true, List.append_assoc, List.nil_append]
  · have hsame : e'.pc.batch = batch ∧ e'.queue = e.queue ∧ e'.handled = e.handled := by
      by_cases hcount : count = 3
      · rw [if_pos hcount] at hst
        split at hst <;> obtain rfl := Option.some.inj hst <;> exact ⟨rfl, rfl, rfl⟩
      · rw [if_neg hcount] at hst
        obtain rfl := Option.some.inj hst
        exact ⟨rfl, rfl, rfl⟩
    obtain ⟨hbatch, hqueue, hhandled⟩ := hsame
    rw [hbatch, hqueue, hhandled]
    rfl
  · obtain rfl := Option.some.inj hst
    simp only [ProcessPc.batch, violations, ← List.append_assoc, List.filter_append]
    simp only [List.filter_cons, hpush, Option.isSome_none, Bool.false_eq_true, if_false,
      List.filter_nil, List.append_nil]
  · obtain rfl := Option.some.inj hst
    rfl

theorem EnforcerState.tallied_step {k : EnforcerLabel} (hk : k ≠ .popEvent)
    (hst : e.step k = some e') : e'.tallied = e.tallied ++ violations k.pushed := by
  cases k with
  | pushEvent f =>
    obtain rfl := Option.some.inj hst
    simp only [tallied, EnforcerLabel.pushed, violations_append, List.append_assoc]
  | popEvent => exact absurd rfl hk
  | callProcess =>
    simp only [EnforcerState.step] at hst
    split at hst
    · rename_i hpc
      obtain rfl := Option.some.inj hst
      unfold tallied
      rw [hpc]
      exact (List.append_nil _).symm
    · cases hst
  | drain found => exact (tallied_drain hst).trans (List.append_nil _).symm
  | process now => exact (tallied_process hst).trans (List.append_nil _).symm
  | enteredPits | exitedPits =>
    obtain rfl := Option.some.inj hst
    exact (List.append_nil _).symm

end List

namespace QueuedEnforcer

variable {ι : Type} [DecidableEq ι] [Fintype ι] {s s' : QueuedEnforcer ι}

theorem tallied_eq (h : (queuedSystem ι).Reachable s) :
    s.onList.tallied = violations s.exchanged := by
  refine h.invariant (I := fun s => s.onList.tallied = violations s.exchanged) rfl ?_
  intro s l s' hs htallied _ hst
  rcases follows_of_step hs hst with ⟨hsame, hexchanged⟩ | ⟨k, hk, hpop, hexchanged⟩
  · rw [hsame, hexchanged]
    exact htallied
  · rw [EnforcerState.tallied_step hpop hk, htallied, hexchanged]

/-- The events popped are those that are counted or in the batch. -/
theorem popped_eq (h : (queuedSystem ι).Reachable s) :
    s.handled ++ violations s.listPc.batch
      = violations (s.exchanged.take s.events.history.popped.length) := by
  have htallied := tallied_eq h
  rw [← List.take_append_drop s.events.history.popped.length s.exchanged,
    violations_append] at htallied
  unfold EnforcerState.tallied at htallied
  rw [violations_append, ← List.append_assoc] at htallied
  exact List.append_cancel_right htallied

theorem popped_le_of_step {l : QueuedLabel ι} (hst : s.step l = some s') :
    s.events.history.popped.length ≤ s'.events.history.popped.length := by
  rcases events_step hst with hsame | ⟨k, hevents⟩
  · rw [hsame]
  · exact MpscState.popped_le_of_step hevents

/-- The drain of the call has not ended, or the first `n` events have been popped. -/
def Drains (n : ℕ) (s : QueuedEnforcer ι) : Prop :=
  n ≤ s.events.history.popped.length
    ∨ (∃ batch, s.pc = .own (.drain batch))
    ∨ ∃ batch, s.pc = .pop batch ∧ ∀ out, s.events.consumer ≠ some ⟨out, .returned false⟩

/-- Where the first `n` exchanges are linked, a pop fails only after that many. -/
theorem Drains.step {n : ℕ} (hd : s.Drains n) (h : (queuedSystem ι).Reachable s)
    (hn : n ≤ s.events.history.exchanged.length)
    (hlinked : ∀ i v new prev, s.events.producers i = some ⟨v, .link new prev⟩ →
      n ≤ s.events.history.place i)
    {l : QueuedLabel ι} (hst : s.step l = some s') : s'.Drains n := by
  have hI := mpscInv_reachable (events_reachable h)
  rcases hd with hle | hd
  · exact .inl (hle.trans (popped_le_of_step hst))
  cases move_of_step hst with
  | producer hk hevents =>
    refine .inr (hd.imp id ?_)
    rintro ⟨batch, hpc, hfail⟩
    refine ⟨batch, hpc, ?_⟩
    rw [(MpscState.producer_frame hk hevents).1]
    exact hfail
  | pits => exact .inr hd
  | callPop hpc hevents =>
    refine .inr (.inr ⟨_, rfl, fun out hc => ?_⟩)
    rw [(MpscState.callPop_effect hevents).2.1] at hc
    cases hc
  | @pop _ _ batch c events hpc hc hret hevents =>
    obtain ⟨-, c', hc', -⟩ := hI.pop_effect hevents
    by_cases hfail : c'.pc = .returned false
    · refine .inl ?_
      have hle : s.events.history.popped.length ≤ events.history.popped.length :=
        popped_le_of_step hst
      show n ≤ events.history.popped.length
      rcases ((hI.returned_false_iff hc hevents hc').1 hfail).2 with
        heq | ⟨i, v, new, prev, hi, heq⟩
      · omega
      · have := hlinked i v new prev hi
        omega
    · refine .inr (.inr ⟨batch, hpc, fun out hout => hfail ?_⟩)
      rw [Option.some.inj (hc'.symm.trans hout)]
  | found => exact .inr (.inl ⟨_, rfl⟩)
  | drained hpc hc =>
    rcases hd with ⟨batch, hpc'⟩ | ⟨batch, hpc', hfail⟩
    · cases hpc.symm.trans hpc'
    · exact absurd hc (hfail _)
  | @own _ _ pc e hpc _ hprocess =>
    rcases hd with ⟨batch, hpc'⟩ | ⟨batch, hpc', -⟩
    · cases hpc.symm.trans hpc'
      cases hprocess
    · cases hpc.symm.trans hpc'
  | callProcess hpc | callPush hpc | push hpc | pushed hpc =>
    rcases hd with ⟨batch, hpc'⟩ | ⟨batch, hpc', -⟩ <;> cases hpc.symm.trans hpc'

/-- A call returns only after the events that were exchanged at its start, if these were linked. -/
theorem popped_of_call (h : (queuedSystem ι).Reachable s)
    (hquiet : ∀ i v new prev, s.events.producers i ≠ some ⟨v, .link new prev⟩)
    {batch : List RaceControlEvent} (hcall : s.pc = .own (.drain batch))
    (hl : (queuedSystem ι).Leads s s') (hidle : s'.pc = .own .idle) :
    s.events.history.exchanged <+: s'.events.history.exchanged
      ∧ s.events.history.exchanged.length ≤ s'.events.history.popped.length := by
  have hevents : ∀ {t}, (queuedSystem ι).Leads s t →
      (mpscSystem (Option ι) RaceControlEvent).Leads s.events t.events :=
    fun ht => ht.map (f := fun s : QueuedEnforcer ι => s.events) (fun _ hst => events_step hst) h
  refine ⟨(linked_of_quiet hquiet (hevents hl)).1, ?_⟩
  have hdrains := (hl.keeps (P := fun t => (queuedSystem ι).Leads s t
    ∧ t.Drains s.events.history.exchanged.length) ?_ ⟨.refl, .inr (.inl ⟨batch, hcall⟩)⟩).2
  · rcases hdrains with hle | ⟨batch, hpc⟩ | ⟨batch, hpc, -⟩
    · exact hle
    · cases hidle.symm.trans hpc
    · cases hidle.symm.trans hpc
  · rintro t l t' ⟨ht, hd⟩ hst
    obtain ⟨hpre, hplace⟩ := linked_of_quiet hquiet (hevents ht)
    exact ⟨ht.tail ⟨l, hst⟩, hd.step (h.leads ht) hpre.length_le hplace hst⟩

/-- The enforcer on the `MpscQueue` is the enforcer on a list. No violation is lost, counted twice
or out of order, a counter tells how many have been counted, a driver is penalised once, and a call
of `process_events` counts what was in the queue when it began, unless a push was between its
exchange and its link. -/
theorem enforcer_on_queue (h : (queuedSystem ι).Reachable s) :
    enforcerSystem.Reachable s.onList
      ∧ s.handled ++ violations (s.listPc.batch ++ s.events.waiting) = violations s.exchanged
      ∧ (∀ i, s.enforcer.warnings i = BitVec.ofNat 32 (s.onList.handledFor i))
      ∧ (∀ i, s.onList.announcedFor i ≤ 1)
      ∧ ∀ s', (queuedSystem ι).Leads s s' → enforcerSystem.Leads s.onList s'.onList
        ∧ ∀ batch, (∀ i v new prev, s.events.producers i ≠ some ⟨v, .link new prev⟩) →
          s.pc = .own (.drain batch) → s'.pc = .own .idle →
            violations s.exchanged <+: s'.handled := by
  have hlist : enforcerSystem.Reachable s.onList :=
    System.Reachable.map (f := onList) rfl (fun hs hst => onList_step hs hst) h
  have hI := enforcerInv_reachable hlist
  refine ⟨hlist, tallied_eq h, hI.warnings_eq, fun i => ?_, fun s' hl => ⟨?_, ?_⟩⟩
  · rw [hI.announced_eq]
    split_ifs <;> omega
  · exact hl.map (fun hs hst => onList_step hs hst) h
  · intro batch hquiet hcall hidle
    obtain ⟨hpre, hle⟩ := popped_of_call h hquiet hcall hl hidle
    have hhandled : s'.handled
        = violations (s'.exchanged.take s'.events.history.popped.length) := by
      rw [← popped_eq (h.leads hl), listPc, hidle]
      exact (List.append_nil _).symm
    rw [hhandled]
    exact .filter _ (List.prefix_take_iff.2 ⟨hpre.map Prod.snd, (List.length_map _).trans_le hle⟩)

/-- A violation pushed, and a call begun. -/
def pushThenCall : List (QueuedLabel (Fin 2)) :=
  [.callPush 0 ⟨.trackLimits, .ofId "VER", 5, "", 0⟩, .push 0 1, .push 0 0, .push 0 0, .callProcess]

/-- The rest of the call, with another push that is still to link its node when the drain ends. -/
def callBesidePush : List (QueuedLabel (Fin 2)) :=
  [.process 1 0, .callPush 1 ⟨.trackLimits, .ofId "HAM", 5, "", 0⟩, .push 1 2, .push 1 0]
    ++ List.replicate 11 (.process 1 0)

theorem enforcer_on_queue_callBesidePush :
    let s := ((queuedSystem (Fin 2)).run .init pushThenCall).get (by decide)
    let s' := ((queuedSystem (Fin 2)).run s callBesidePush).get (by decide +kernel)
    s'.events.waiting.length = 1 ∧ violations s.exchanged <+: s'.handled := by
  intro s s'
  have hs := System.reachable_get (M := queuedSystem (Fin 2)) pushThenCall (by decide)
  have hl : (queuedSystem (Fin 2)).Leads s s' := System.leads_of_run (Option.some_get _).symm
  have hreturned : ∀ i, (s.events.producers i).all MpscPush.isReturned := by decide +kernel
  have hquiet : ∀ i v new prev, s.events.producers i ≠ some ⟨v, .link new prev⟩ := by
    intro i v new prev hi
    have hall := hreturned i
    rw [show s.events.producers i = _ from hi] at hall
    cases hall
  exact ⟨by decide +kernel, ((enforcer_on_queue hs).2.2.2.2 s' hl).2 [] hquiet rfl rfl⟩

end QueuedEnforcer

end RaceConditionZ
