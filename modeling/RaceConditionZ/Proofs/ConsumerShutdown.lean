import RaceConditionZ.Lib.Potential
import RaceConditionZ.Proofs.PipelineShutdown
import RaceConditionZ.Proofs.TelemetryMoves

/-!
# The consumer's `stop` returns

Once the stop is requested nothing more is pushed, and either loop of `run` goes on to drain the
queue. A frame costs a pop and at most one claim, which has no rival, so that its exchange fails
only spuriously; the first pop that fails ends the drain, and with it the thread.
-/

namespace RaceConditionZ

open Transition

variable {F : Type}

/-- The steps up to where a pop has left the queue, at most; a frame popped pays for its claim. -/
def PopPc.left : PopPc → ℕ
  | .loadHead => 7
  | .compare _ => 6
  | .loadTail _ => 5
  | .recompare _ => 4
  | .read _ => 3
  | .reading _ => 2
  | .storeHead _ => 1
  | .returned true => 14
  | .returned false => 1

/-- The steps of a claim up to the head of the loop, and from there. -/
def ClaimPc.leftInRun : ClaimPc F → ℕ
  | .load => 13
  | .compare _ => 12
  | .exchange _ => 11
  | .storeHolder => 10
  | .returned _ => 9

/-- A step of the consumer's thread, or the return of `stop`. -/
def PipelineLabel.serves : PipelineLabel F → Bool
  | .consume _ | .join => true
  | _ => false

/-- A step with a spurious failure. -/
def PipelineLabel.fails : PipelineLabel F → Bool
  | .consume spurious => spurious
  | _ => false

namespace PipelineState

/-- How many frames wait in the queue. -/
def held (s : PipelineState F) : ℕ :=
  s.spsc.history.pushed.length - s.spsc.history.popped.length

/-- The steps of `run` that no frame waiting in the queue takes. -/
def pcLeft (s : PipelineState F) : ℕ :=
  match s.pc with
  | .testStop | .drain => 8
  | .pop draining =>
    (s.spsc.consumer.elim 0 fun c => c.pc.left) + if draining then 0 else 9
  | .claim _ _ pc => pc.leftInRun
  | .sleep => 9
  | .returned => 0

/-- The steps still to come once the stop is requested. -/
def left (s : PipelineState F) : ℕ :=
  14 * s.held + s.pcLeft + if s.stop = .returned then 0 else 1

/-- A pop is in progress where `run` calls it, and nowhere else. -/
def Popping (s : PipelineState F) : Prop :=
  match s.pc with
  | .pop _ => s.spsc.consumer.isSome = true
  | _ => s.spsc.consumer.all Pop.isReturned = true

theorem pcLeft_le (s : PipelineState F) : s.pcLeft ≤ 23 := by
  have hpop : ∀ pc : PopPc, pc.left ≤ 14 := by
    intro pc
    rcases pc with _ | _ | _ | _ | _ | _ | _ | (_ | _) <;> simp [PopPc.left]
  unfold pcLeft
  split
  · omega
  · omega
  · rcases s.spsc.consumer with _ | c
    · simp only [Option.elim_none]
      split <;> omega
    · have := hpop c.pc
      simp only [Option.elim_some]
      split <;> omega
  · rename_i pc _
    cases pc <;> simp [ClaimPc.leftInRun]
  · omega
  · omega

theorem left_le (s : PipelineState F) : s.left ≤ 14 * s.held + 24 := by
  have := s.pcLeft_le
  unfold left
  split <;> omega

/-- A step of a pop is one less to come. -/
theorem pop_left {s : PipelineState F} {spsc : SpscState (TelemetryFrame F)}
    {c : Pop (TelemetryFrame F)} (hI : SpscInv telemetryRing s.spsc) (hc : s.spsc.consumer = some c)
    (hst : s.spsc.step telemetryRing .pop = some spsc) :
    ∃ c', spsc.consumer = some c'
      ∧ 14 * (spsc.history.pushed.length - spsc.history.popped.length) + c'.pc.left + 1
        ≤ 14 * s.held + c.pc.left := by
  have hok := hI.pop_ok c hc
  have hle := hI.ring.popped_le
  have hseen := hI.ring.tailSeen_le
  obtain ⟨c₁, hc₁, q', c', hpop, rfl⟩ := SpscState.of_step_pop hst
  obtain rfl : c = c₁ := Option.some.inj (hc.symm.trans hc₁)
  refine ⟨c', rfl, ?_⟩
  unfold SpscQueue.pop at hpop
  unfold Pop.Ok at hok
  unfold held SpscState.notePop
  rcases hpc : c.pc with _ | head | head | head | head | head | head | ok <;>
    simp only [hpc] at hpop hok ⊢
  · cases hpop
    simp only [PopPc.left]
    omega
  · split_ifs at hpop <;> cases hpop <;> simp only [PopPc.left] <;> omega
  · cases hpop
    simp only [PopPc.left]
    omega
  · split_ifs at hpop <;> cases hpop <;> simp only [PopPc.left] <;> omega
  · cases hpop
    simp only [PopPc.left]
    omega
  · cases hpop
    simp only [PopPc.left]
    omega
  · cases hpop
    simp only [PopPc.left, List.length_append, List.length_singleton]
    omega
  · cases hpop

variable [MachineFloat F] [DecidableEq F] [DecidableLT F] [Inhabited (TelemetryFrame F)]
variable {s s' : PipelineState F}

theorem Popping.step {l : PipelineLabel F} (h : s.Popping) (hst : s.step l = some s') :
    s'.Popping := by
  have hmove := pipelineMove_of_step hst
  clear hst
  unfold Popping at h ⊢
  cases hmove with
  | produce hconsumer _ _ _ =>
    simp only [hconsumer]
    exact h
  | callPop hpc _ hst =>
    obtain ⟨-, rfl⟩ := SpscState.of_step_callPop hst
    rfl
  | pop hpc hc hst =>
    obtain ⟨c, -, q', c', -, rfl⟩ := SpscState.of_step_pop hst
    simp only [hpc]
    rfl
  | @found draining frame hpc hin =>
    have hret : s.spsc.consumer.all Pop.isReturned = true := by
      unfold inHand at hin
      rcases hc : s.spsc.consumer with _ | c
      · rfl
      · simp only [hpc, hc] at hin
        split_ifs at hin with hret
        simp [Pop.isReturned, hret]
    unfold examine
    rcases lapClaim frame with _ | claim
    · cases draining <;> exact hret
    · exact hret
  | @failed draining out hpc hc =>
    have hret : s.spsc.consumer.all Pop.isReturned = true := by
      rw [hc]
      rfl
    cases draining <;> exact hret
  | claim hpc _ =>
    simp only [hpc] at h
    exact h
  | @claimed draining _ _ hpc =>
    simp only [hpc] at h
    cases draining <;> exact h
  | wake hpc =>
    simp only [hpc] at h
    exact h
  | requestStop | join => exact h

theorem popping_reachable (h : (pipelineSystem F).Reachable s) : s.Popping := by
  refine h.invariant ?_ fun _ hP _ hst => hP.step hst
  rfl

omit [Inhabited (TelemetryFrame F)] in
/-- A step of a claim, with no other claimant. -/
theorem claim_left {race race' : RaceState F} {before : RaceState F} {claim : LapClaim F}
    {pc pc' : ClaimPc F} {spurious : Bool} (hfrom : pc.From before claim race)
    (hst : race.tryClaimFastestLap claim spurious pc = some (race', pc')) :
    pc'.leftInRun + 1 ≤ pc.leftInRun + if spurious then 2 else 0 := by
  cases pc with
  | load =>
    cases hst
    simp only [ClaimPc.leftInRun]
    omega
  | compare currentBest =>
    simp only [RaceState.tryClaimFastestLap] at hst
    split_ifs at hst <;> cases hst <;> simp only [ClaimPc.leftInRun] <;> omega
  | exchange currentBest =>
    obtain ⟨rfl, rfl, -⟩ := hfrom
    rcases spurious with _ | _ <;> simp [RaceState.tryClaimFastestLap] at hst <;>
      obtain ⟨-, rfl⟩ := hst <;> simp [ClaimPc.leftInRun]
  | storeHolder =>
    cases hst
    simp only [ClaimPc.leftInRun]
    omega
  | returned won => cases hst

/-- A step of `run`. -/
theorem consume_left {spurious : Bool} (h : (pipelineSystem F).Reachable s)
    (hstop : s.stop ≠ .notCalled) (hst : s.consume spurious = some s') :
    14 * s'.held + s'.pcLeft + 1 ≤ 14 * s.held + s.pcLeft + if spurious then 2 else 0 := by
  have hI := pipelineInv_reachable h
  have hcall : ∀ {s' : PipelineState F}, s.callPop true = some s' →
      s'.held = s.held ∧ s'.pcLeft = 7 := by
    intro s' hcall
    simp only [callPop, Option.map_eq_some_iff] at hcall
    obtain ⟨spsc, hspsc, rfl⟩ := hcall
    obtain ⟨-, rfl⟩ := SpscState.of_step_callPop hspsc
    exact ⟨rfl, rfl⟩
  rcases hpc : s.pc with _ | _ | draining | ⟨draining, claim, pc⟩ | _ | _ <;>
    simp only [consume, hpc] at hst
  · obtain ⟨hheld, hleft⟩ := hcall (by simpa [hstop] using hst)
    rw [hheld, hleft]
    simp only [pcLeft, hpc]
    omega
  · obtain ⟨hheld, hleft⟩ := hcall hst
    rw [hheld, hleft]
    simp only [pcLeft, hpc]
    omega
  · rw [Option.bind_eq_some_iff] at hst
    obtain ⟨c, hc, hst⟩ := hst
    have hbefore : s.pcLeft = c.pc.left + if draining then 0 else 9 := by
      simp only [pcLeft, hpc, hc, Option.elim_some]
    rw [hbefore]
    split at hst
    · rename_i hret
      rw [Option.map_eq_some_iff] at hst
      obtain ⟨frame, -, rfl⟩ := hst
      have hafter : (s.examine draining frame).pcLeft ≤ 13 := by
        unfold examine
        rcases lapClaim frame with _ | claim
        · cases draining <;> simp [pcLeft, LapConsumerPc.next]
        · simp [pcLeft, ClaimPc.leftInRun]
      rw [hret, show (s.examine draining frame).held = s.held from rfl]
      simp only [PopPc.left]
      omega
    · rename_i hret
      cases hst
      rw [hret, PopPc.left]
      cases draining <;>
        simp only [pcLeft, held, if_true, if_false, Bool.false_eq_true] <;> omega
    · rw [Option.map_eq_some_iff] at hst
      obtain ⟨spsc, hspsc, rfl⟩ := hst
      obtain ⟨c', hc', hle⟩ := pop_left hI.spsc hc hspsc
      simp only [pcLeft, hc', Option.elim_some, held] at hle ⊢
      omega
  · have hbefore : s.pcLeft = pc.leftInRun := by simp only [pcLeft, hpc]
    rw [hbefore]
    split at hst
    · cases hst
      rw [ClaimPc.leftInRun]
      cases draining <;>
        simp only [pcLeft, held, LapConsumerPc.next, if_true, if_false, Bool.false_eq_true] <;>
        omega
    · rw [Option.map_eq_some_iff] at hst
      obtain ⟨⟨race, pc'⟩, hclaim, rfl⟩ := hst
      obtain ⟨done, frame, -, -, hfrom⟩ := hI.claiming hpc
      have := claim_left hfrom hclaim
      simp only [pcLeft, held]
      omega
  · cases hst
    simp only [pcLeft, hpc, held]
    omega
  · cases hst

/-- Each step of the consumer or of `stop` is one less to come, a spurious failure apart. -/
theorem left_step {l : PipelineLabel F} (h : (pipelineSystem F).Reachable s)
    (hstop : s.stop ≠ .notCalled) (hst : s.step l = some s') :
    s'.left + (if l.serves then 1 else 0) ≤ s.left + if l.fails then 2 else 0 := by
  have hI := pipelineInv_reachable h
  have hidle := hI.idle hstop
  rcases l with ⟨frame, byMove⟩ | _ | spurious | _ | _
  · simp only [step, if_neg hstop] at hst
    cases hst
  · simp only [step, Option.map_eq_some_iff] at hst
    obtain ⟨spsc, hspsc, rfl⟩ := hst
    rw [(SpscState.push_frame hspsc).2.2.2] at hidle
    cases hidle
  · have hle := consume_left h hstop hst
    rw [left, left, (PipelineState.consume_frame hst).2.2]
    cases spurious <;>
      simp only [PipelineLabel.serves, PipelineLabel.fails, if_true, if_false,
        Bool.false_eq_true] at hle ⊢ <;> omega
  · simp only [step, Option.ite_none_right_eq_some] at hst
    exact absurd hst.1.1 hstop
  · simp only [step, Option.ite_none_right_eq_some] at hst
    obtain ⟨hreq, hst⟩ := hst
    split at hst <;> cases hst
    simp [left, held, pcLeft, hreq, PipelineLabel.serves, PipelineLabel.fails]

omit [DecidableEq F] [Inhabited (TelemetryFrame F)] in
/-- A pop that has succeeded has a frame. -/
theorem out_of_returned (hI : PipelineInv s) {draining : Bool} {c : Pop (TelemetryFrame F)}
    (hpc : s.pc = .pop draining) (hc : s.spsc.consumer = some c) (hret : c.pc = .returned true) :
    ∃ frame, c.out = some frame := by
  have hpopped := hI.popped_eq
  rw [hI.spsc.ring.popped_eq] at hpopped
  have hmem : c.out ∈ s.examined.map some ++ s.inHand := by
    refine List.mem_append_right _ ?_
    simp only [inHand, hpc, hc, hret, if_true, List.mem_singleton]
  rw [← hpopped] at hmem
  obtain ⟨frame, -, hframe⟩ := List.mem_map.1 hmem
  exact ⟨frame, hframe.symm⟩

/-- The consumer's thread can go on until it has returned. -/
theorem exists_consume (h : (pipelineSystem F).Reachable s) (hpc : s.pc ≠ .returned) :
    ∃ s', s.consume false = some s' := by
  have hI := pipelineInv_reachable h
  have hpopping := popping_reachable h
  have hcall : ∀ {draining : Bool}, s.spsc.consumer.all Pop.isReturned = true →
      ∃ s', s.callPop draining = some s' := by
    intro draining hret
    simp only [callPop, SpscState.step, hret, if_true, Option.map_some]
    exact ⟨_, rfl⟩
  unfold Popping at hpopping
  rcases hs : s.pc with _ | _ | draining | ⟨draining, claim, pc⟩ | _ | _ <;>
    simp only [consume, hs] at hpopping ⊢
  · exact hcall hpopping
  · exact hcall hpopping
  · obtain ⟨c, hc⟩ := Option.isSome_iff_exists.1 hpopping
    rw [hc, Option.bind_some]
    split
    · rename_i hret
      obtain ⟨frame, hframe⟩ := out_of_returned hI hs hc hret
      rw [hframe]
      exact ⟨_, rfl⟩
    · exact ⟨_, rfl⟩
    · rename_i htrue hfalse
      have hpop : ∃ q', s.spsc.queue.pop telemetryRing c = some q' := by
        unfold SpscQueue.pop
        rcases hc' : c.pc with _ | _ | _ | _ | _ | _ | _ | (_ | _)
        · exact ⟨_, rfl⟩
        · simp only
          split <;> exact ⟨_, rfl⟩
        · exact ⟨_, rfl⟩
        · simp only
          split <;> exact ⟨_, rfl⟩
        · exact ⟨_, rfl⟩
        · exact ⟨_, rfl⟩
        · exact ⟨_, rfl⟩
        · exact absurd hc' hfalse
        · exact absurd hc' htrue
      obtain ⟨q', hq'⟩ := hpop
      simp only [SpscState.step, hc, Option.bind_some, hq', Option.map_some]
      exact ⟨_, rfl⟩
  · rcases pc with _ | currentBest | currentBest | _ | won
    · exact ⟨_, rfl⟩
    · simp only [RaceState.tryClaimFastestLap]
      split <;> exact ⟨_, rfl⟩
    · simp only [RaceState.tryClaimFastestLap]
      split <;> exact ⟨_, rfl⟩
    · exact ⟨_, rfl⟩
    · exact ⟨_, rfl⟩
  · exact ⟨_, rfl⟩
  · exact absurd hs hpc

/-- With the stop requested, the consumer's thread or the call of `stop` can go on. -/
theorem exists_stop_step (h : (pipelineSystem F).Reachable s) (hstop : s.stop = .requested) :
    ∃ l s', l.serves = true ∧ l.fails = false ∧ s.step l = some s' := by
  by_cases hpc : s.pc = .returned
  · refine ⟨.join, { s with stop := .returned }, rfl, rfl, ?_⟩
    simp only [step, hstop, hpc, if_true]
  · obtain ⟨s', hst⟩ := exists_consume h hpc
    exact ⟨.consume false, s', rfl, rfl, hst⟩

theorem stopping_step {l : PipelineLabel F} (hstop : s.stop ≠ .notCalled)
    (hst : s.step l = some s') : s'.stop ≠ .notCalled := by
  rcases l with ⟨frame, byMove⟩ | _ | spurious | _ | _
  · simp only [step, if_neg hstop] at hst
    cases hst
  · simp only [step, Option.map_eq_some_iff] at hst
    obtain ⟨spsc, -, rfl⟩ := hst
    exact hstop
  · rw [(PipelineState.consume_frame hst).2.2]
    exact hstop
  · simp only [step, Option.ite_none_right_eq_some] at hst
    exact absurd hst.1.1 hstop
  · simp only [step, Option.ite_none_right_eq_some] at hst
    obtain ⟨-, hst⟩ := hst
    split at hst <;> cases hst
    simp

theorem stopping_pays : (pipelineSystem F).Pays
    (fun s => (pipelineSystem F).Reachable s ∧ s.stop ≠ .notCalled) left
    (fun _ l => if l.serves then 1 else 0) fun _ l => if l.fails then 2 else 0 where
  keeps hs hst := ⟨hs.1.step hst, stopping_step hs.2 hst⟩
  pays hs hst := left_step hs.1 hs.2 hst

theorem held_eq (h : (pipelineSystem F).Reachable s) :
    s.held = (s.spsc.queue.contents telemetryRing).length := by
  rw [SpscQueue.contents, List.length_map, List.length_range,
    (pipelineInv_reachable h).spsc.ring.toNat_sizeApprox]
  rfl

/-- Once the stop is requested, the consumer's thread takes boundedly many steps, fourteen for each
frame in the queue and a few more, and two for each spurious failure; and it is never stuck: so
`stop` returns, and every frame pushed has been examined by then. -/
theorem stop_returns (h : (pipelineSystem F).Reachable s) (hstop : s.stop ≠ .notCalled) :
    (∀ ls s', (pipelineSystem F).run s ls = some s' →
        ls.countP PipelineLabel.serves
            ≤ 14 * (s.spsc.queue.contents telemetryRing).length + 24
              + 2 * ls.countP PipelineLabel.fails
          ∧ (s'.stop = .returned ∨ ∃ l s'', l.serves = true ∧ s'.step l = some s'')
          ∧ (s'.stop = .returned →
            s'.spsc.queue.contents telemetryRing = [] ∧ s'.examined = s'.spsc.history.pushed))
      ∧ ∃ ls s', (pipelineSystem F).run s ls = some s' ∧ s'.stop = .returned
        ∧ ∀ l ∈ ls, l.serves = true ∧ l.fails = false := by
  have hrequested : ∀ {s : PipelineState F}, s.stop ≠ .notCalled → s.stop ≠ .returned →
      s.stop = .requested := by
    intro s hne hret
    rcases hs : s.stop with _ | _ | _
    · exact absurd hs hne
    · rfl
    · exact absurd hs hret
  refine ⟨fun ls s' hrun => ⟨?_, ?_, ?_⟩, ?_⟩
  · have hle := stopping_pays.total_le ⟨h, hstop⟩ hrun
    rw [System.total_ite hrun, System.total_ite hrun] at hle
    have hle : s'.left + 1 * ls.countP PipelineLabel.serves
        ≤ s.left + 2 * ls.countP PipelineLabel.fails := by
      simpa only [Bool.decide_eq_true] using hle
    have hleft := s.left_le
    rw [held_eq h] at hleft
    omega
  · have hl := System.leads_of_run hrun
    have hne := hl.keeps (P := fun s : PipelineState F => s.stop ≠ .notCalled)
      (fun hne hst => stopping_step hne hst) hstop
    by_cases hret : s'.stop = .returned
    · exact .inl hret
    · obtain ⟨l, s'', hserves, -, hst⟩ := exists_stop_step (h.leads hl) (hrequested hne hret)
      exact .inr ⟨l, s'', hserves, hst⟩
  · exact (pipelineInv_reachable (h.leads (System.leads_of_run hrun))).drained
  · have hnext : ∀ {s : PipelineState F}, (pipelineSystem F).Reachable s ∧ s.stop ≠ .notCalled →
        s.stop ≠ .returned → ∃ l s', (l.serves = true ∧ l.fails = false) ∧ s.step l = some s'
          ∧ 1 ≤ (if l.serves then 1 else 0) ∧ (if l.fails then 2 else 0) = 0 := by
      rintro s ⟨hs, hne⟩ hret
      obtain ⟨l, s', hserves, hfails, hst⟩ := exists_stop_step hs (hrequested hne hret)
      refine ⟨l, s', ⟨hserves, hfails⟩, hst, ?_, ?_⟩
      · rw [if_pos hserves]
      · rw [if_neg (by rw [hfails]; simp)]
    obtain ⟨ls, s', hrun, hret, -, hserves⟩ := stopping_pays.exists_run hnext ⟨h, hstop⟩
    exact ⟨ls, s', hrun, hret, hserves⟩

/-- The stop comes while a frame is being popped. -/
def stopInPop : List (PipelineLabel ℚ) :=
  .callPush default false :: List.replicate 5 .push
    ++ [.consume false, .consume false, .requestStop]

theorem stop_returns_stopInPop :
    let M := pipelineSystem ℚ
    let s := (M.run M.init stopInPop).get (by decide +kernel)
    s.held = 1 ∧ s.examined = [] ∧ ∃ ls s', M.run s ls = some s' ∧ s'.stop = .returned
      ∧ s'.examined = s'.spsc.history.pushed := by
  intro M s
  have hs : M.Reachable s := System.reachable_get stopInPop (by decide +kernel)
  obtain ⟨hruns, ls, s', hrun, hret, -⟩ := stop_returns hs (by decide +kernel)
  obtain ⟨-, -, hdrained⟩ := hruns ls s' hrun
  exact ⟨by decide +kernel, by decide +kernel, ls, s', hrun, hret, (hdrained hret).2⟩

end PipelineState

end RaceConditionZ
