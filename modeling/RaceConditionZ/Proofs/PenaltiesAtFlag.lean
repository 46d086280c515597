import RaceConditionZ.Proofs.CallbackRounds

/-!
# Penalties at the flag

The callback alone takes events out, so whatever waits when the generator's thread leaves its loop,
and whatever is pushed from then on, is still there when the standings are printed: no drain follows
the last tick.
-/

namespace RaceConditionZ

open Transition PenaltyEnforcer

/-- All rows of the final standings are printed. -/
def MainPc.printed : MainPc → Bool
  | .print [] | .destroy => true
  | _ => false

/-- The entry whose row is printed next. -/
def MainPc.nextRow : MainPc → Option DriverState
  | .print (d :: _) => some d
  | _ => none

theorem MainPc.eq_print_of_nextRow {m : MainPc} {d : DriverState} (h : m.nextRow = some d) :
    ∃ rest, m = .print (d :: rest) := by
  rcases m with _ | _ | (_ | ⟨e, rest⟩) | _ <;> cases h
  exact ⟨rest, rfl⟩

namespace RaceControlState

variable (s : RaceControlState)

/-- With that draw the next step of worker `w` detects a violation. -/
def detects (w : Fin 2) (coin : ℚ) : Bool :=
  match s.pool.pool.workers w, s.jobs w with
  | .running task, .check (i :: _) =>
    match task.callable with
    | .check states _ => !(states i).inPit && decide (coin < (states i).violationProb)
    | .update _ => false
  | _, _ => false

/-- No violation waits where the generator's thread leaves its loop, and none is detected between
that and the last row of the standings. -/
def InTime : RaceControlLabel → Prop
  | .tick _ => s.pc = .testStop → s.leaves = true → ∀ e ∈ s.enforcer.queue, e.type ≠ .trackLimits
  | .worker w coin _ => s.pc = .returned → s.main.printed = false → s.detects w coin = false
  | _ => True

instance : (l : RaceControlLabel) → Decidable (s.InTime l)
  | .tick _ => inferInstanceAs (Decidable (_ → _ → ∀ e ∈ s.enforcer.queue, e.type ≠ .trackLimits))
  | .worker w coin _ => inferInstanceAs (Decidable (_ → _ → s.detects w coin = false))
  | .callback _ | .drain _ | .process _ | .spurious _ | .main => .isTrue trivial

/-- What the standings say of the penalties is right, and no violation waits. -/
structure PenaltiesComplete : Prop where
  printed : ∀ i : Fin 20,
    s.enforcer.enforcer.penaltyState (drivers.get i).id ≠ .none ↔ 3 ≤ s.detectedFor i
  processed : ∀ e ∈ s.enforcer.queue, e.type ≠ .trackLimits

variable {s} {s' : RaceControlState}

theorem detects_iff {w : Fin 2} {coin : ℚ} :
    s.detects w coin = true ↔ ∃ task states lap i rest, s.pool.pool.workers w = .running task
      ∧ task.callable = .check states lap ∧ s.jobs w = .check (i :: rest)
      ∧ (states i).inPit = false ∧ coin < (states i).violationProb := by
  unfold detects
  constructor
  · intro h
    split at h
    · rename_i task i rest hw hjob
      split at h
      · rename_i states lap htask
        simp only [Bool.and_eq_true, Bool.not_eq_true', decide_eq_true_eq] at h
        exact ⟨task, states, lap, i, rest, hw, htask, hjob, h⟩
      · cases h
    · cases h
  · rintro ⟨task, states, lap, i, rest, hw, htask, hjob, hpit, hcoin⟩
    simp [hw, htask, hjob, hpit, hcoin]

variable (s) in
/-- From the end of the generator's thread to the last row, no violation waits. -/
def Settled : Prop :=
  s.pc = .returned → s.main.printed = false → ∀ e ∈ s.enforcer.queue, e.type ≠ .trackLimits

theorem Settled.of_main (h : s.Settled) (hpc : s'.pc = s.pc) (henforcer : s'.enforcer = s.enforcer)
    (hmain : s'.main.printed = false → s.main.printed = false) : s'.Settled := by
  intro hret hprinted
  rw [henforcer]
  exact h (hpc ▸ hret) (hmain hprinted)

theorem Settled.step {l : RaceControlLabel} (h : s.Settled) (hok : s.InTime l)
    (hst : s.step l = some s') : s'.Settled := by
  cases move_of_step hst with
  | leave hpc hleaves => exact fun _ _ => hok hpc hleaves
  | @detect w coin now task states lap i rest e hw htask hjob he =>
    intro hret hprinted
    have hnot := hok hret hprinted
    rw [detects_iff.2 ⟨task, states, lap, i, rest, hw, htask, hjob,
      (DriverState.check_eq_some.1 he).1⟩] at hnot
    cases hnot
  | @job _ _ _ _ _ _ event _ _ _ hevent =>
    intro hret hprinted e he
    rcases List.mem_append.1 he with he | he
    · exact h hret hprinted e he
    · rw [hevent e (Option.mem_toList.1 he)]
      decide
  | callProcess => rintro ⟨⟩
  | enforce hpc =>
    intro hret
    rw [show s.pc = _ from hret] at hpc
    cases hpc
  | tick => rintro ⟨⟩
  | back => rintro ⟨⟩
  | @skip _ kind => exact fun hret => absurd hret kind.after_ne_returned
  | callSubmit => rintro ⟨⟩
  | @assign _ kind => exact fun hret => absurd hret kind.after_ne_returned
  | stop hmain => exact h.of_main rfl rfl fun _ => by rw [hmain]; rfl
  | join hmain => exact h.of_main rfl rfl fun _ => by rw [hmain]; rfl
  | print hmain => exact h.of_main rfl rfl fun _ => by rw [hmain]; rfl
  | printed hmain => exact h.of_main rfl rfl fun _ => by contradiction
  | _ => exact h.of_main rfl rfl id

variable (s) in
/-- A violation is left behind. -/
def LeftBehind : Prop :=
  s.pc = .returned ∧ ∃ e ∈ s.enforcer.queue, e.type = .trackLimits

/-- Nobody takes it out. -/
theorem LeftBehind.step {l : RaceControlLabel} (h : s.LeftBehind) (hst : s.step l = some s') :
    s'.LeftBehind := by
  obtain ⟨hret, e, he, htype⟩ := h
  cases move_of_step hst with
  | detect | job => exact ⟨hret, e, List.mem_append_left _ he, htype⟩
  | leave hpc | tick hpc | skip hpc | callSubmit hpc | assign hpc | callProcess hpc | enforce hpc
  | back hpc =>
    rw [hret] at hpc
    cases hpc
  | _ => exact ⟨hret, e, he, htype⟩

theorem leftBehind_of_not_inTime {l : RaceControlLabel} (hlate : ¬ s.InTime l)
    (hst : s.step l = some s') : s'.LeftBehind := by
  unfold InTime at hlate
  split at hlate
  · push Not at hlate
    obtain ⟨hpc, hleaves, e, he, htype⟩ := hlate
    cases move_of_step hst with
    | leave => exact ⟨rfl, e, he, htype⟩
    | tick _ hstays =>
      rw [hleaves] at hstays
      cases hstays
    | enforce hpc' =>
      rw [hpc] at hpc'
      cases hpc'
  · rename_i w coin now
    push Not at hlate
    obtain ⟨hret, -, hdetects⟩ := hlate
    rw [ne_eq, Bool.not_eq_false] at hdetects
    obtain ⟨task, states, lap, i, rest, hw, htask, hjob, hviolates⟩ := detects_iff.1 hdetects
    have he : (states i).check lap coin now = some ((states i).trackLimitsEvent lap now) :=
      DriverState.check_eq_some.2 ⟨hviolates, rfl⟩
    simp only [step, worker, hw, hjob, runJob, htask, he] at hst
    rw [← Option.some.inj hst]
    exact ⟨hret, _, List.mem_append_right _ (List.mem_singleton_self _), rfl⟩
  · exact absurd trivial hlate

end RaceControlState

section Run

variable {start : TelemetryGenerator} {s : RaceControlState}

theorem settled_reachable (h : (raceControlSystem start).ReachableBy RaceControlState.InTime s) :
    s.Settled := by
  refine h.invariant (fun hret => ?_) fun _ hinv hok hst => hinv.step hok hst
  cases hret

/-- Along a run whose steps are all `InTime`, each row printed is right and no violation waits;
after a step that is not, some violation waits at every row. -/
theorem penalties_complete_of_inTime :
    (∀ s d, (raceControlSystem start).ReachableBy RaceControlState.InTime s →
        s.main.nextRow = some d → s.PenaltiesComplete)
      ∧ ∀ s l s' t d, (raceControlSystem start).Reachable s → ¬ s.InTime l →
        (raceControlSystem start).step s l = some s' → (raceControlSystem start).Leads s' t →
        t.main.nextRow = some d → ¬ t.PenaltiesComplete := by
  constructor
  · intro s d h hrow
    obtain ⟨rest, hprint⟩ := MainPc.eq_print_of_nextRow hrow
    have hreach := h.reachable
    have hret := (wired_reachable hreach).past (.inl ⟨_, hprint⟩)
    have htallied := tallied_reachable hreach
    have hqueue := settled_reachable h hret (by rw [hprint]; rfl)
    refine ⟨fun i => ?_, hqueue⟩
    have hwaiting := EnforcerState.waitingFor_eq_zero (htallied.idle (by simp [hret])) hqueue i
    rw [penaltyState_ne_none_iff hreach (by simp [hret]), htallied.detectedFor_eq, hwaiting,
      Nat.add_zero]
  · intro s l s' t d _ hlate hst hl _ hcomplete
    have hleft := hl.keeps (P := RaceControlState.LeftBehind) (fun h hst => h.step hst)
      (RaceControlState.leftBehind_of_not_inTime hlate hst)
    obtain ⟨-, e, he, htype⟩ := hleft
    exact hcomplete.processed e he htype

/-- After a tick there are standings to print. -/
theorem RaceControlState.Underway.exists_nextRow {lapStart : Fin 20 → ℤ} {xs : ℕ → TickInput}
    {n k : ℕ} (h : Underway lapStart xs s n k) (hn : 0 < n) :
    ∃ d, (MainPc.print s.board).nextRow = some d := by
  have hmem : (TelemetryGenerator.race lapStart xs n).states 0 ∈ s.board := by
    rw [h.board hn]
    exact TelemetryGenerator.mem_standings.2 ⟨0, rfl⟩
  obtain ⟨d, rest, hboard⟩ := List.exists_cons_of_ne_nil (List.ne_nil_of_mem hmem)
  exact ⟨d, by rw [hboard]; rfl⟩

/-- No step is late while the generator's thread is in its loop. -/
theorem inTime_reachable (h : (raceControlSystem start).Reachable s) (hpc : s.pc ≠ .returned) :
    (raceControlSystem start).ReachableBy RaceControlState.InTime s := by
  have hback : ∀ {s s' : RaceControlState} {l : RaceControlLabel}, s.step l = some s' →
      s'.pc ≠ .returned → s.pc ≠ .returned ∧ s.InTime l := by
    intro s s' l hst hne
    have hstays : s.pc ≠ .returned := by
      intro hret
      cases RaceControlState.move_of_step hst with
      | leave hpc | tick hpc | skip hpc | callSubmit hpc | assign hpc | callProcess hpc
      | enforce hpc | back hpc =>
        rw [hret] at hpc
        cases hpc
      | _ => exact hne hret
    refine ⟨hstays, ?_⟩
    cases l with
    | tick x =>
      intro hhead hleaves
      simp only [RaceControlState.step, RaceControlState.tick, hhead, hleaves, if_true] at hst
      obtain rfl := Option.some.inj hst
      exact absurd rfl hne
    | worker w coin now => exact fun hret => absurd hret hstays
    | _ => trivial
  induction h with
  | init => exact .init
  | step _ _ hst ih =>
    obtain ⟨hbefore, hintime⟩ := hback hst hpc
    exact (ih hbefore).step hintime hst

/-- The main thread stops the generator between two ticks: the request, the test of the flag, and
the join. -/
theorem steps_print (hpc : s.pc = .testStop) (hmain : s.main = .racing) :
    s.step .main = some { s with main := .joining }
      ∧ RaceControlState.step { s with main := .joining } (.tick (TelemetryGenerator.steady 0))
        = some { s with main := .joining, pc := .returned }
      ∧ RaceControlState.step { s with main := .joining, pc := .returned } .main
        = some { s with pc := .returned, main := .print s.board } := by
  refine ⟨?_, ?_, ?_⟩
  · simp only [RaceControlState.step, RaceControlState.mainStep, hmain]
  · simp [RaceControlState.step, RaceControlState.tick, hpc, RaceControlState.leaves,
      MainPc.isRacing]
  · simp only [RaceControlState.step, RaceControlState.mainStep, if_true]

variable (start) in
theorem leads_print (hpc : s.pc = .testStop) (hmain : s.main = .racing) :
    (raceControlSystem start).Leads s { s with pc := .returned, main := .print s.board } := by
  obtain ⟨hstop, hleave, hjoin⟩ := steps_print hpc hmain
  exact (RaceControlState.leads_of_step hstop).trans
    ((RaceControlState.leads_of_step hleave).trans (RaceControlState.leads_of_step hjoin))

theorem inTime_print (h : (raceControlSystem start).ReachableBy RaceControlState.InTime s)
    (hpc : s.pc = .testStop) (hmain : s.main = .racing)
    (hqueue : ∀ e ∈ s.enforcer.queue, e.type ≠ .trackLimits) :
    (raceControlSystem start).ReachableBy RaceControlState.InTime
      { s with pc := .returned, main := .print s.board } := by
  obtain ⟨hstop, hleave, hjoin⟩ := steps_print hpc hmain
  have hrequested := h.step (show s.InTime .main from trivial) hstop
  have hhead : RaceControlState.InTime { s with main := .joining }
      (.tick (TelemetryGenerator.steady 0)) := fun _ _ => hqueue
  have hleft := hrequested.step hhead hleave
  exact hleft.step (l := .main) trivial hjoin

/-- VER's third violation is counted in tick 27, and the race ends there: VER is printed with its
penalty. -/
theorem penalties_complete_threeViolations :
    ∃ s, (raceControlSystem (.init defaultTrack fun _ => 0)).ReachableBy RaceControlState.InTime s
      ∧ s.main.nextRow.isSome = true ∧ s.detectedFor 0 = 3
      ∧ s.enforcer.enforcer.penaltyState (drivers.get (0 : Fin 20)).id ≠ .none
      ∧ s.PenaltiesComplete := by
  obtain ⟨s, h, -⟩ := RaceControlState.exists_between_held (fun _ => 0) TelemetryGenerator.steady
  have hintime := inTime_print (inTime_reachable h.reachable (by simp [h.pc])) h.pc h.main h.queue
  obtain ⟨d, hd⟩ := h.toUnderway.exists_nextRow (by omega)
  have hcomplete := penalties_complete_of_inTime.1 _ d hintime hd
  exact ⟨_, hintime, Option.isSome_iff_exists.2 ⟨d, hd⟩, h.detected,
    (hcomplete.printed 0).2 h.detected.ge, hcomplete⟩

/-- The third violation of VER is detected after the last tick's callback: VER is printed without a
penalty. -/
theorem exists_late_violation :
    ∃ s d, (raceControlSystem (.init defaultTrack fun _ => 0)).Reachable s
      ∧ s.inputs = TelemetryGenerator.firstTicks TelemetryGenerator.steady 27
      ∧ s.main.nextRow = some d ∧ s.detectedFor 0 = 3
      ∧ s.enforcer.enforcer.penaltyState (drivers.get (0 : Fin 20)).id = .none
      ∧ ¬ s.PenaltiesComplete := by
  obtain ⟨s, h, hchecking⟩ := RaceControlState.exists_between_checking (fun _ => 0)
    TelemetryGenerator.steady
  obtain ⟨s₁, -, h₁, hpc₁, -, hhandled⟩ := h.toUnderway.detect hchecking (by omega)
  have htwo : s₁.enforcer.handledFor 0 = 2 := by
    unfold EnforcerState.handledFor
    rw [hhandled]
    exact h.handledFor
  obtain ⟨d, hd⟩ := h₁.exists_nextRow (by omega)
  have hl := leads_print (.init defaultTrack fun _ => 0) (hpc₁.trans h.pc) h₁.main
  have hreach := h₁.reachable.leads hl
  have hiff := penaltyState_ne_none_iff hreach (by simp) 0
  have hnone := not_not.1 (mt hiff.1 (by
    show ¬ 3 ≤ s₁.enforcer.handledFor 0
    omega))
  refine ⟨_, d, hreach, h₁.inputs, hd, h₁.detected, hnone, fun hcomplete => ?_⟩
  exact (hcomplete.printed 0).2 h₁.detected.ge hnone

end Run

end RaceConditionZ
