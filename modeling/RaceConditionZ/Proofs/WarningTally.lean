import RaceConditionZ.Proofs.SingleFlight

/-!
# The tally of warnings

A violation that `check` has pushed waits, is in the batch of the call in progress, or its warning
has been counted. So where nothing waits, a driver's state tells how many violations were detected.
-/

namespace RaceConditionZ

open Transition PenaltyEnforcer

/-- The batch of the call in progress, as far as it is not yet counted. -/
def ProcessPc.batch : ProcessPc → List RaceControlEvent
  | .idle => []
  | .drain batch | .loop batch | .compare _ _ _ batch | .push _ _ batch | .store _ batch => batch

/-- How many warnings of the driver are still to be counted. -/
def EnforcerState.waitingFor (s : EnforcerState) (i : Fin 20) : ℕ :=
  (s.pc.batch ++ s.queue).countP fun e => warned e = some i

section Enforcer

variable {s s' : EnforcerState}

/-- A drain moves a waiting event into the batch, or nothing. -/
theorem EnforcerState.counted_drain {found : Bool} (hst : s.drain found = some s') (i : Fin 20) :
    s'.handledFor i + s'.waitingFor i = s.handledFor i + s.waitingFor i := by
  unfold drain at hst
  unfold handledFor waitingFor
  split at hst
  · rename_i batch e queue hpc hqueue
    cases hst
    simp [hpc, hqueue, ProcessPc.batch]
  · rename_i batch _ hpc
    cases hst
    simp [hpc, ProcessPc.batch]
  · cases hst

theorem warned_penaltyIssued (e : RaceControlEvent) (now : ℤ) :
    warned (penaltyIssued e now) = none := rfl

/-- The loop takes an event out of the batch where it counts the warning, or skips it. -/
theorem EnforcerState.counted_process {now : ℤ} (hst : s.process now = some s') (i : Fin 20) :
    s'.handledFor i + s'.waitingFor i = s.handledFor i + s.waitingFor i := by
  unfold process at hst
  unfold handledFor waitingFor
  rcases hpc : s.pc with
      _ | _ | (_ | ⟨e, batch⟩) | ⟨e, j, count, batch⟩ | ⟨e, j, batch⟩ | ⟨j, batch⟩ <;>
    simp only [hpc, reduceCtorEq] at hst
  · cases hst
    rfl
  · rcases he : warned e with _ | j <;> simp only [he] at hst <;> cases hst
    · simp [ProcessPc.batch, he]
    · simp only [ProcessPc.batch, List.countP_append, List.countP_cons, List.countP_nil]
      omega
  · have hbatch : s'.pc.batch = batch ∧ s'.queue = s.queue ∧ s'.handled = s.handled := by
      split at hst
      · split at hst <;> cases hst <;> exact ⟨rfl, rfl, rfl⟩
      · cases hst
        exact ⟨rfl, rfl, rfl⟩
    obtain ⟨hbatch, hqueue, hhandled⟩ := hbatch
    rw [hbatch, hqueue, hhandled]
    rfl
  · cases hst
    simp [ProcessPc.batch, warned_penaltyIssued]
  · cases hst
    rfl

end Enforcer

namespace RaceControlState

variable (s : RaceControlState)

/-- How many violations of the driver `check` has pushed. -/
def detectedFor (i : Fin 20) : ℕ :=
  s.detected.countP fun e => e.type = .trackLimits ∧ e.driverId.view = (drivers.get i).id

/-- Each violation detected is counted or waits, and outside the callback's last statement no call
of `process_events` is in progress. -/
structure Tallied : Prop where
  detectedFor_eq : ∀ i, s.detectedFor i = s.enforcer.handledFor i + s.enforcer.waitingFor i
  idle : s.pc ≠ .process → s.enforcer.pc = .idle

variable {s} {s' : RaceControlState}

theorem Tallied.of_same (h : s.Tallied) (hdetected : s'.detected = s.detected)
    (henforcer : s'.enforcer = s.enforcer) (hpc : s'.pc ≠ .process → s.pc ≠ .process) :
    s'.Tallied := by
  refine ⟨fun i => ?_, fun hne => ?_⟩
  · unfold detectedFor
    rw [hdetected, henforcer]
    exact h.detectedFor_eq i
  · rw [henforcer]
    exact h.idle (hpc hne)

/-- Events of other types change no count. -/
theorem Tallied.of_push (h : s.Tallied) {events : List RaceControlEvent}
    (hevents : ∀ e ∈ events, e.type ≠ .trackLimits) (hdetected : s'.detected = s.detected)
    (henforcer : s'.enforcer = { s.enforcer with queue := s.enforcer.queue ++ events })
    (hpc : s'.pc = s.pc) : s'.Tallied := by
  refine ⟨fun i => ?_, fun hne => ?_⟩
  · have hnone : events.countP (fun e => warned e = some i) = 0 := by
      rw [List.countP_eq_zero]
      intro e he
      simp [warned, hevents e he]
    have hi := h.detectedFor_eq i
    unfold detectedFor EnforcerState.handledFor EnforcerState.waitingFor at hi ⊢
    rw [hdetected, henforcer, hi]
    simp [List.countP_append, hnone]
  · rw [henforcer]
    exact h.idle (hpc ▸ hne)

theorem Tallied.detect (h : s.Tallied) {e : RaceControlEvent}
    (hdetected : s'.detected = s.detected ++ [e])
    (henforcer : s'.enforcer = { s.enforcer with queue := s.enforcer.queue ++ [e] })
    (hpc : s'.pc = s.pc) : s'.Tallied := by
  refine ⟨fun i => ?_, fun hne => ?_⟩
  · have hi := h.detectedFor_eq i
    unfold detectedFor EnforcerState.handledFor EnforcerState.waitingFor at hi ⊢
    rw [hdetected, henforcer, List.countP_append, hi]
    simp only [← warned_eq_some, List.countP_append, Nat.add_assoc]
  · rw [henforcer]
    exact h.idle (hpc ▸ hne)

theorem Tallied.step {l : RaceControlLabel} (h : s.Tallied) (hst : s.step l = some s') :
    s'.Tallied := by
  cases move_of_step hst with
  | @callProcess _ enforcer hpc hcall =>
    have hidle := h.idle (by simp [hpc])
    simp only [EnforcerState.step, hidle] at hcall
    cases hcall
    refine ⟨fun i => ?_, fun hne => absurd rfl hne⟩
    have hi := h.detectedFor_eq i
    unfold EnforcerState.waitingFor at hi
    rw [hidle] at hi
    exact hi
  | @enforce _ k enforcer hpc hk henforcer =>
    refine ⟨fun i => ?_, fun hne => absurd hpc hne⟩
    have hkeep : enforcer.handledFor i + enforcer.waitingFor i
        = s.enforcer.handledFor i + s.enforcer.waitingFor i := by
      rcases hk with ⟨found, rfl⟩ | ⟨now, rfl⟩
      · exact EnforcerState.counted_drain henforcer i
      · exact EnforcerState.counted_process henforcer i
    exact (h.detectedFor_eq i).trans hkeep.symm
  | back hpc hidle =>
    exact ⟨h.detectedFor_eq, fun _ => hidle⟩
  | @detect _ _ _ _ _ _ _ _ e => exact h.detect (e := e) rfl rfl rfl
  | @job _ _ _ _ _ _ event _ _ _ hevent =>
    have hother : ∀ e ∈ event.toList, e.type ≠ .trackLimits := by
      intro e he
      rw [hevent e (Option.mem_toList.1 he)]
      decide
    exact h.of_push hother rfl rfl rfl
  | leave hpc => exact h.of_same rfl rfl (by simp [hpc])
  | tick hpc => exact h.of_same rfl rfl (by simp [hpc])
  | skip hpc => exact h.of_same rfl rfl (by simp [hpc])
  | callSubmit hpc => exact h.of_same rfl rfl (by simp [hpc])
  | assign hpc => exact h.of_same rfl rfl (by simp [hpc])
  | _ => exact h.of_same rfl rfl id

end RaceControlState

section Run

variable {start : TelemetryGenerator} {s : RaceControlState}

theorem tallied_reachable (h : (raceControlSystem start).Reachable s) : s.Tallied := by
  refine h.invariant ⟨fun _ => rfl, fun _ => rfl⟩ fun _ hinv _ hst => hinv.step hst

theorem EnforcerState.waitingFor_eq_zero {e : EnforcerState} (hidle : e.pc = .idle)
    (hqueue : ∀ a ∈ e.queue, a.type ≠ .trackLimits) (i : Fin 20) : e.waitingFor i = 0 := by
  unfold waitingFor
  rw [hidle, List.countP_eq_zero]
  intro a ha
  simp [warned, hqueue a ha]

/-- A driver's state tells whether three of the violations detected have been counted. -/
theorem penaltyState_ne_none_iff (h : (raceControlSystem start).Reachable s)
    (hpc : s.pc ≠ .process) (i : Fin 20) :
    s.enforcer.enforcer.penaltyState (drivers.get i).id ≠ .none ↔ 3 ≤ s.enforcer.handledFor i := by
  have hstate := (enforcerInv_reachable (enforcer_reachable h)).state_iff i
  rw [(tallied_reachable h).idle hpc, if_neg (by simp [ProcessPc.counting])] at hstate
  unfold penaltyState
  simp only [driverIndex_get, ne_eq, hstate, not_lt]

end Run

end RaceConditionZ
