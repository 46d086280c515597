import RaceConditionZ.PenaltyEnforcer
import Mathlib.Tactic.SplitIfs

/-!
# One penalty for three warnings

The counter is added to first, then compared with three, then the state is exchanged, and only who
wins the exchange announces. Between these steps a pit call may move the same driver's state, but
not out of `none` and not back to it, so the third warning, and no later one, wins.
-/

namespace RaceConditionZ

open Transition PenaltyEnforcer

/-- The driver whose count has been raised and not compared. -/
def ProcessPc.counting : ProcessPc → Option (Fin 20)
  | .compare _ i _ _ => some i
  | _ => none

/-- The driver whose penalty has been won and not announced. -/
def ProcessPc.announcing : ProcessPc → Option (Fin 20)
  | .push _ i _ => some i
  | _ => none

/-- The driver whose event the next step of the loop is about. -/
def ProcessPc.subject : ProcessPc → Option (Fin 20)
  | .loop (e :: _) => warned e
  | .compare _ i _ _ | .push _ i _ | .store i _ => some i
  | _ => none

/-- The driver a step is about. -/
def EnforcerState.subject (s : EnforcerState) : EnforcerLabel → Option (Fin 20)
  | .process _ => s.pc.subject
  | .enteredPits id | .exitedPits id => driverIndex id
  | _ => none

/-- How many of the driver's warnings have been counted. -/
def EnforcerState.handledFor (s : EnforcerState) (i : Fin 20) : ℕ :=
  s.handled.countP fun e => warned e = some i

/-- How many penalties have been announced for the driver. -/
def EnforcerState.announcedFor (s : EnforcerState) (i : Fin 20) : ℕ :=
  s.announced.countP fun e => e.type = .penaltyIssued ∧ driverIndex e.driverId.view = some i

/-- One step forward in the life of a penalty. -/
inductive PenaltyState.Forward : PenaltyState → PenaltyState → Prop
  | issue : Forward .none .pending
  | enter : Forward .pending .serving
  | exit : Forward .serving .served

theorem PenaltyState.Forward.ne_none {a b : PenaltyState} (h : Forward a b) : b ≠ .none := by
  cases h <;> simp

/-- The steps by what they do to the enforcer. -/
inductive EnforcerMove (s : EnforcerState) : EnforcerLabel → EnforcerState → Prop
  | quiet {l : EnforcerLabel} {queue : List RaceControlEvent} {pc : ProcessPc}
      (hpc : pc = s.pc ∨ s.pc.counting = none ∧ s.pc.announcing = none ∧ pc.counting = none
        ∧ pc.announcing = none) :
      EnforcerMove s l { s with queue := queue, pc := pc }
  | count {e : RaceControlEvent} {i : Fin 20} {batch : List RaceControlEvent} {now : ℤ}
      (hpc : s.pc = .loop (e :: batch)) (he : warned e = some i) :
      EnforcerMove s (.process now) { s with
        enforcer := s.enforcer.fetchAdd i
        pc := .compare e i (s.enforcer.warnings i + 1) batch
        handled := s.handled ++ [e] }
  | win {e : RaceControlEvent} {i : Fin 20} {batch : List RaceControlEvent} {now : ℤ}
      (hpc : s.pc = .compare e i 3 batch) (hstate : s.enforcer.states i = .none) :
      EnforcerMove s (.process now) { s with
        enforcer := { s.enforcer with
          states := Function.update s.enforcer.states i .pending }
        pc := .push e i batch }
  | lose {e : RaceControlEvent} {i : Fin 20} {count : BitVec 32} {batch : List RaceControlEvent}
      {now : ℤ} (hpc : s.pc = .compare e i count batch)
      (hlose : count ≠ 3 ∨ s.enforcer.states i ≠ .none) :
      EnforcerMove s (.process now) { s with pc := .loop batch }
  | push {e : RaceControlEvent} {i : Fin 20} {batch : List RaceControlEvent} {now : ℤ}
      (hpc : s.pc = .push e i batch) :
      EnforcerMove s (.process now) { s with
        queue := s.queue ++ [penaltyIssued e now]
        pc := .store i batch
        announced := s.announced ++ [penaltyIssued e now] }
  | store {i : Fin 20} {batch : List RaceControlEvent} {now : ℤ} (hpc : s.pc = .store i batch) :
      EnforcerMove s (.process now)
        { s with enforcer := s.enforcer.storePitTime i, pc := .loop batch }
  | pits {l : EnforcerLabel} {i : Fin 20} {b : PenaltyState} (hl : s.subject l = some i)
      (hold : s.enforcer.states i ≠ .none) (hb : (s.enforcer.states i).Forward b) :
      EnforcerMove s l { s with
        enforcer := { s.enforcer with states := Function.update s.enforcer.states i b } }

theorem enforcerMove_of_process {s s' : EnforcerState} {now : ℤ}
    (hst : s.process now = some s') : EnforcerMove s (.process now) s' := by
  unfold EnforcerState.process at hst
  rcases hpc : s.pc with _ | _ | (_ | ⟨e, batch⟩) | ⟨e, i, count, batch⟩ | ⟨e, i, batch⟩
      | ⟨i, batch⟩ <;>
    simp only [hpc, reduceCtorEq] at hst
  · cases hst
    exact .quiet (by simp [hpc, ProcessPc.counting, ProcessPc.announcing])
  · rcases he : warned e with _ | i <;> simp only [he] at hst <;> cases hst
    · exact .quiet (by simp [hpc, ProcessPc.counting, ProcessPc.announcing])
    · exact .count hpc he
  · unfold compareExchange at hst
    by_cases hcount : count = 3
    · subst hcount
      by_cases hstate : s.enforcer.states i = .none
      · simp only [if_true, hstate] at hst
        cases hst
        exact .win hpc hstate
      · simp only [if_true, if_neg hstate] at hst
        cases hst
        exact .lose hpc (.inr hstate)
    · rw [if_neg hcount] at hst
      cases hst
      exact .lose hpc (.inl hcount)
  · cases hst
    exact .push hpc
  · cases hst
    exact .store hpc

/-- A pit call moves the state of its own driver forward, or does nothing. -/
theorem enforcerMove_of_exchange {s : EnforcerState} {l : EnforcerLabel} {i : Fin 20}
    {a b : PenaltyState} (hl : s.subject l = some i) (ha : a ≠ .none) (hab : a.Forward b) :
    EnforcerMove s l
      { s with enforcer := (s.enforcer.compareExchange i a b).getD s.enforcer } := by
  unfold compareExchange
  split_ifs with hstate
  · subst hstate
    exact .pits hl ha hab
  · exact .quiet (.inl rfl)

theorem enforcerMove_of_step {s s' : EnforcerState} {l : EnforcerLabel}
    (hst : s.step l = some s') : EnforcerMove s l s' := by
  cases l with
  | pushEvent e =>
    cases hst
    exact .quiet (.inl rfl)
  | popEvent =>
    simp only [EnforcerState.step] at hst
    split at hst <;> cases hst
    exact .quiet (.inl rfl)
  | callProcess =>
    simp only [EnforcerState.step] at hst
    split at hst <;> cases hst
    rename_i hpc
    exact .quiet (by simp [hpc, ProcessPc.counting, ProcessPc.announcing])
  | drain found =>
    simp only [EnforcerState.step, EnforcerState.drain] at hst
    split at hst <;> cases hst
    · rename_i hpc _
      exact .quiet (by simp [hpc, ProcessPc.counting, ProcessPc.announcing])
    · rename_i hpc
      exact .quiet (by simp [hpc, ProcessPc.counting, ProcessPc.announcing])
  | process now => exact enforcerMove_of_process hst
  | enteredPits id =>
    cases hst
    unfold driverEnteredPits
    split
    · exact .quiet (.inl rfl)
    · exact enforcerMove_of_exchange ‹_› (by simp) .enter
  | exitedPits id =>
    cases hst
    unfold driverExitedPits
    split
    · exact .quiet (.inl rfl)
    · exact enforcerMove_of_exchange ‹_› (by simp) .exit

/-- The counter counts the warnings modulo its width, the state leaves `none` at the comparison of
the third, and the announcement is the step after. -/
structure EnforcerInv (s : EnforcerState) : Prop where
  warnings_eq : ∀ i, s.enforcer.warnings i = BitVec.ofNat 32 (s.handledFor i)
  compare_ok : ∀ e i count batch, s.pc = .compare e i count batch →
    warned e = some i ∧ count = s.enforcer.warnings i
  push_ok : ∀ e i batch, s.pc = .push e i batch →
    warned e = some i ∧ s.enforcer.states i ≠ .none
  state_iff : ∀ i, s.enforcer.states i = .none
    ↔ s.handledFor i < if s.pc.counting = some i then 4 else 3
  announced_eq : ∀ i, s.announcedFor i
    = if s.enforcer.states i = .none ∨ s.pc.announcing = some i then 0 else 1

theorem driverIndex_get (i : Fin 20) : driverIndex (drivers.get i).id = some i := by
  revert i
  decide

theorem driverIndex_eq_some {id : String} {i : Fin 20} :
    driverIndex id = some i ↔ id = (drivers.get i).id := by
  constructor
  · intro h
    have hid := List.find?_some h
    exact (beq_iff_eq.1 hid).symm
  · rintro rfl
    exact driverIndex_get i

theorem warned_eq_some {e : RaceControlEvent} {i : Fin 20} :
    warned e = some i ↔ e.type = .trackLimits ∧ e.driverId.view = (drivers.get i).id := by
  unfold warned
  rw [← driverIndex_eq_some]
  split_ifs with htype
  · simp [htype]
  · simp [not_not.1 htype]

theorem driverIndex_of_warned {e : RaceControlEvent} {i : Fin 20} (h : warned e = some i) :
    e.type = .trackLimits ∧ driverIndex e.driverId.view = some i := by
  unfold warned at h
  split_ifs at h with htype
  exact ⟨not_not.1 htype, h⟩

theorem EnforcerState.handledFor_append {s : EnforcerState} {e : RaceControlEvent} {i : Fin 20}
    (he : warned e = some i) (j : Fin 20) :
    (s.handled ++ [e]).countP (fun e => warned e = some j)
      = s.handledFor j + if i = j then 1 else 0 := by
  rw [List.countP_append, List.countP_singleton, he]
  simp only [Option.some.injEq, decide_eq_true_eq]
  rfl

theorem EnforcerState.announcedFor_append {s : EnforcerState} {e : RaceControlEvent} {i : Fin 20}
    {now : ℤ} (he : warned e = some i) (j : Fin 20) :
    (s.announced ++ [penaltyIssued e now]).countP
        (fun e => e.type = .penaltyIssued ∧ driverIndex e.driverId.view = some j)
      = s.announcedFor j + if i = j then 1 else 0 := by
  rw [List.countP_append, List.countP_singleton, penaltyIssued, (driverIndex_of_warned he).2]
  simp only [Option.some.injEq, decide_eq_true_eq, true_and]
  rfl

section Steps

variable {s : EnforcerState}

theorem EnforcerInv.count (hI : EnforcerInv s) {e : RaceControlEvent} {i : Fin 20}
    {batch : List RaceControlEvent} (hpc : s.pc = .loop (e :: batch)) (he : warned e = some i) :
    EnforcerInv { s with
      enforcer := s.enforcer.fetchAdd i
      pc := .compare e i (s.enforcer.warnings i + 1) batch
      handled := s.handled ++ [e] } where
  warnings_eq j := by
    show Function.update s.enforcer.warnings i _ j = BitVec.ofNat 32 (List.countP _ _)
    rw [EnforcerState.handledFor_append he]
    by_cases hij : i = j
    · subst hij
      rw [Function.update_self, hI.warnings_eq, if_pos rfl, BitVec.ofNat_add]
      rfl
    · rw [Function.update_of_ne (Ne.symm hij), if_neg hij]
      exact hI.warnings_eq j
  compare_ok := by
    rintro _ _ _ _ ⟨⟩
    refine ⟨he, ?_⟩
    show _ = Function.update s.enforcer.warnings i _ i
    rw [Function.update_self]
  push_ok := by
    rintro _ _ _ ⟨⟩
  state_iff j := by
    have hj := hI.state_iff j
    rw [hpc] at hj
    show s.enforcer.states j = .none ↔ List.countP _ _ < if some i = some j then 4 else 3
    rw [EnforcerState.handledFor_append he]
    simp only [ProcessPc.counting, reduceCtorEq, if_false] at hj
    by_cases hij : i = j
    · subst hij
      rw [hj, if_pos rfl, if_pos rfl]
      omega
    · simp only [hij, Option.some.injEq, if_false]
      exact hj
  announced_eq j := by
    have hj := hI.announced_eq j
    rw [hpc] at hj
    exact hj

theorem EnforcerInv.win (hI : EnforcerInv s) {e : RaceControlEvent} {i : Fin 20}
    {batch : List RaceControlEvent} (hpc : s.pc = .compare e i 3 batch)
    (hstate : s.enforcer.states i = .none) :
    EnforcerInv { s with
      enforcer := { s.enforcer with states := Function.update s.enforcer.states i .pending }
      pc := .push e i batch } where
  warnings_eq := hI.warnings_eq
  compare_ok := by
    rintro _ _ _ _ ⟨⟩
  push_ok := by
    rintro _ _ _ ⟨⟩
    exact ⟨(hI.compare_ok _ _ _ _ hpc).1, by simp⟩
  state_iff j := by
    have hj := hI.state_iff j
    rw [hpc] at hj
    show Function.update s.enforcer.states i .pending j = .none ↔ s.handledFor j < 3
    by_cases hij : j = i
    · subst hij
      have hcount : 3 = BitVec.ofNat 32 (s.handledFor j) :=
        (hI.compare_ok _ _ _ _ hpc).2.trans (hI.warnings_eq j)
      have hlt : s.handledFor j < 4 := by simpa [ProcessPc.counting] using hj.1 hstate
      have hge : ¬s.handledFor j < 3 := by
        intro hlt'
        have := congrArg BitVec.toNat hcount
        rw [BitVec.toNat_ofNat, Nat.mod_eq_of_lt (by omega)] at this
        change 3 = _ at this
        omega
      simp [hge]
    · rw [Function.update_of_ne hij]
      simpa [ProcessPc.counting, Ne.symm hij] using hj
  announced_eq j := by
    have hj := hI.announced_eq j
    rw [hpc] at hj
    show s.announcedFor j
      = if Function.update s.enforcer.states i .pending j = .none ∨ some i = some j then 0 else 1
    by_cases hij : j = i
    · subst hij
      rw [hj]
      simp [hstate]
    · rw [Function.update_of_ne hij]
      simpa [ProcessPc.announcing, Ne.symm hij] using hj

theorem EnforcerInv.lose (hI : EnforcerInv s) {e : RaceControlEvent} {i : Fin 20}
    {count : BitVec 32} {batch : List RaceControlEvent} (hpc : s.pc = .compare e i count batch)
    (hlose : count ≠ 3 ∨ s.enforcer.states i ≠ .none) :
    EnforcerInv { s with pc := .loop batch } where
  warnings_eq := hI.warnings_eq
  compare_ok := by
    rintro _ _ _ _ ⟨⟩
  push_ok := by
    rintro _ _ _ ⟨⟩
  state_iff j := by
    have hj := hI.state_iff j
    rw [hpc] at hj
    show s.enforcer.states j = .none ↔ s.handledFor j < 3
    by_cases hij : j = i
    · subst hij
      have hcount : count = BitVec.ofNat 32 (s.handledFor j) :=
        (hI.compare_ok _ _ _ _ hpc).2.trans (hI.warnings_eq j)
      simp only [ProcessPc.counting, if_true] at hj
      have hne : s.handledFor j ≠ 3 ∨ ¬s.handledFor j < 4 := by
        refine hlose.imp (fun hne he => hne ?_) (mt hj.2)
        rw [hcount, he]
        rfl
      rw [hj]
      omega
    · simpa [ProcessPc.counting, Ne.symm hij] using hj
  announced_eq j := by
    have hj := hI.announced_eq j
    rw [hpc] at hj
    exact hj

theorem EnforcerInv.push (hI : EnforcerInv s) {e : RaceControlEvent} {i : Fin 20}
    {batch : List RaceControlEvent} {now : ℤ} (hpc : s.pc = .push e i batch) :
    EnforcerInv { s with
      queue := s.queue ++ [penaltyIssued e now]
      pc := .store i batch
      announced := s.announced ++ [penaltyIssued e now] } where
  warnings_eq := hI.warnings_eq
  compare_ok := by
    rintro _ _ _ _ ⟨⟩
  push_ok := by
    rintro _ _ _ ⟨⟩
  state_iff j := by
    have hj := hI.state_iff j
    rw [hpc] at hj
    exact hj
  announced_eq j := by
    have hj := hI.announced_eq j
    rw [hpc] at hj
    obtain ⟨he, hstate⟩ := hI.push_ok _ _ _ hpc
    show List.countP _ _ = if s.enforcer.states j = .none ∨ none = some j then 0 else 1
    rw [EnforcerState.announcedFor_append he, hj]
    by_cases hij : i = j
    · subst hij
      simp [ProcessPc.announcing, hstate]
    · simp [ProcessPc.announcing, hij]

/-- Neither a pit call nor the store of the pit time opens or closes a penalty. -/
theorem EnforcerInv.pits (hI : EnforcerInv s) {i : Fin 20} {b : PenaltyState}
    (hold : s.enforcer.states i ≠ .none) (hb : b ≠ .none) :
    EnforcerInv { s with
      enforcer := { s.enforcer with states := Function.update s.enforcer.states i b } } := by
  have hstates : ∀ j, Function.update s.enforcer.states i b j = .none
      ↔ s.enforcer.states j = .none := by
    intro j
    by_cases hij : j = i
    · subst hij
      simp [hold, hb]
    · rw [Function.update_of_ne hij]
  refine ⟨hI.warnings_eq, hI.compare_ok, fun e j batch hpc => ?_, fun j => ?_, fun j => ?_⟩
  · obtain ⟨he, hne⟩ := hI.push_ok e j batch hpc
    exact ⟨he, fun h => hne ((hstates j).1 h)⟩
  · exact (hstates j).trans (hI.state_iff j)
  · simp only [hstates]
    exact hI.announced_eq j

theorem EnforcerInv.step {s' : EnforcerState} {l : EnforcerLabel} (hI : EnforcerInv s)
    (hst : s.step l = some s') : EnforcerInv s' := by
  cases enforcerMove_of_step hst with
  | @quiet _ queue pc hpc =>
    rcases hpc with rfl | ⟨hc, ha, hc', ha'⟩
    · exact { hI with }
    · refine ⟨hI.warnings_eq, fun e i count batch h => ?_, fun e i batch h => ?_, fun i => ?_,
        fun i => ?_⟩
      · rw [show pc = _ from h] at hc'
        cases hc'
      · rw [show pc = _ from h] at ha'
        cases ha'
      · have hi := hI.state_iff i
        rw [hc] at hi
        simp only [hc']
        exact hi
      · have hi := hI.announced_eq i
        rw [ha] at hi
        simp only [ha']
        exact hi
  | count hpc he => exact hI.count hpc he
  | win hpc hstate => exact hI.win hpc hstate
  | lose hpc hlose => exact hI.lose hpc hlose
  | push hpc => exact hI.push hpc
  | @store i batch now hpc =>
    refine ⟨hI.warnings_eq, by rintro _ _ _ _ ⟨⟩, by rintro _ _ _ ⟨⟩, fun j => ?_, fun j => ?_⟩
    · have hj := hI.state_iff j
      rw [hpc] at hj
      exact hj
    · have hj := hI.announced_eq j
      rw [hpc] at hj
      exact hj
  | pits hl hold hb => exact hI.pits hold hb.ne_none

end Steps

theorem enforcerInv_reachable {s : EnforcerState} (h : enforcerSystem.Reachable s) :
    EnforcerInv s := by
  refine h.invariant ⟨fun i => rfl, ?_, ?_, fun i => ?_, fun i => rfl⟩ fun _ hI _ hst => hI.step hst
  · rintro _ _ _ _ ⟨⟩
  · rintro _ _ _ ⟨⟩
  · exact iff_of_true rfl (Nat.zero_lt_succ 2)

section Runs

variable {s s' : EnforcerState} {l : EnforcerLabel}

/-- A state stays or moves forward, by one. -/
theorem state_forward (hst : s.step l = some s') (i : Fin 20) :
    s'.enforcer.states i = s.enforcer.states i
      ∨ (s.enforcer.states i).Forward (s'.enforcer.states i) := by
  cases enforcerMove_of_step hst with
  | quiet | count | lose | push | store => exact .inl rfl
  | @win e j batch now hpc hstate =>
    by_cases hij : i = j
    · subst hij
      simp only [Function.update_self, hstate]
      exact .inr .issue
    · exact .inl (Function.update_of_ne hij ..)
  | @pits _ j b hl hold hb =>
    by_cases hij : i = j
    · subst hij
      simp only [Function.update_self]
      exact .inr hb
    · exact .inl (Function.update_of_ne hij ..)

/-- A step about another driver, or about none, changes nothing of this one's. -/
theorem EnforcerInv.other (hI : EnforcerInv s) (hst : s.step l = some s') {i : Fin 20}
    (hi : s.subject l ≠ some i) :
    s'.enforcer.warnings i = s.enforcer.warnings i
      ∧ s'.enforcer.states i = s.enforcer.states i
      ∧ s'.announcedFor i = s.announcedFor i := by
  cases enforcerMove_of_step hst with
  | quiet | lose | store => exact ⟨rfl, rfl, rfl⟩
  | @count e j batch now hpc he =>
    have hij : i ≠ j := by
      rintro rfl
      simp [EnforcerState.subject, hpc, ProcessPc.subject, he] at hi
    exact ⟨Function.update_of_ne hij .., rfl, rfl⟩
  | @win e j batch now hpc hstate =>
    have hij : i ≠ j := by
      rintro rfl
      simp [EnforcerState.subject, hpc, ProcessPc.subject] at hi
    exact ⟨rfl, Function.update_of_ne hij .., rfl⟩
  | @push e j batch now hpc =>
    have hij : j ≠ i := by
      rintro rfl
      simp [EnforcerState.subject, hpc, ProcessPc.subject] at hi
    refine ⟨rfl, rfl, ?_⟩
    show List.countP _ _ = _
    rw [EnforcerState.announcedFor_append (hI.push_ok _ _ _ hpc).1, if_neg hij, Nat.add_zero]
  | @pits _ j b hl hold hb =>
    have hij : i ≠ j := by
      rintro rfl
      exact hi hl
    exact ⟨rfl, Function.update_of_ne hij .., rfl⟩

/-- The step that takes a state out of `none` is the comparison of its third warning. -/
theorem EnforcerInv.leaves_none_iff (hI : EnforcerInv s) (hst : s.step l = some s') (i : Fin 20) :
    s.enforcer.states i = .none ∧ s'.enforcer.states i ≠ .none
      ↔ (∃ now, l = .process now) ∧ s.pc.counting = some i ∧ s.handledFor i = 3 := by
  constructor
  · rintro ⟨hnone, hsome⟩
    cases enforcerMove_of_step hst with
    | quiet | count | lose | push | store => exact absurd hnone hsome
    | @win e j batch now hpc hstate =>
      have hij : i = j := by
        by_contra hij
        exact hsome ((Function.update_of_ne hij ..).trans hnone)
      subst hij
      have hcount := hI.state_iff i
      have hcount' := (hI.win hpc hstate).state_iff i
      rw [hpc] at hcount
      simp only [ProcessPc.counting, if_true, hstate, true_iff] at hcount
      simp only [ProcessPc.counting, Function.update_self, reduceCtorEq, if_false, false_iff]
        at hcount'
      change ¬s.handledFor i < 3 at hcount'
      refine ⟨⟨now, rfl⟩, by rw [hpc]; rfl, by omega⟩
    | @pits _ j b hl hold hb =>
      have hij : i ≠ j := by
        rintro rfl
        exact hold hnone
      exact absurd hnone (by simpa [Function.update_of_ne hij] using hsome)
  · rintro ⟨⟨now, rfl⟩, hcounting, hthree⟩
    rcases hpc : s.pc with _ | _ | _ | ⟨e, j, count, batch⟩ | _ | _ <;>
      simp only [hpc, ProcessPc.counting, reduceCtorEq, Option.some.injEq] at hcounting
    subst hcounting
    have hcount : count = 3 := by
      rw [(hI.compare_ok _ _ _ _ hpc).2, hI.warnings_eq, hthree]
      rfl
    have hstate : s.enforcer.states j = .none := by
      rw [hI.state_iff, hpc, hthree]
      simp [ProcessPc.counting]
    subst hcount
    simp only [EnforcerState.step, EnforcerState.process, hpc, compareExchange, hstate, if_true]
      at hst
    cases hst
    exact ⟨hstate, by simp⟩

/-- What the loop announces is what it pushes onto the queue. -/
theorem EnforcerState.process_pushes {now : ℤ} (hst : s.process now = some s') :
    ∃ pushed, s'.queue = s.queue ++ pushed ∧ s'.announced = s.announced ++ pushed := by
  have hnone : ∀ {t : EnforcerState}, t.queue = s.queue → t.announced = s.announced →
      ∃ pushed, t.queue = s.queue ++ pushed ∧ t.announced = s.announced ++ pushed := by
    intro t hqueue hannounced
    refine ⟨[], ?_, ?_⟩
    · rw [hqueue, List.append_nil]
    · rw [hannounced, List.append_nil]
  unfold EnforcerState.process at hst
  rcases hpc : s.pc with _ | _ | (_ | ⟨e, batch⟩) | ⟨e, i, count, batch⟩ | ⟨e, i, batch⟩
      | ⟨i, batch⟩ <;>
    simp only [hpc, reduceCtorEq] at hst
  · obtain rfl := Option.some.inj hst
    exact hnone rfl rfl
  · split at hst <;> obtain rfl := Option.some.inj hst <;> exact hnone rfl rfl
  · split_ifs at hst
    · split at hst <;> obtain rfl := Option.some.inj hst <;> exact hnone rfl rfl
    · obtain rfl := Option.some.inj hst
      exact hnone rfl rfl
  · obtain rfl := Option.some.inj hst
    exact ⟨[penaltyIssued e now], rfl, rfl⟩
  · obtain rfl := Option.some.inj hst
    exact hnone rfl rfl

/-- Nobody but the loop announces. -/
theorem EnforcerState.announced_of_step (hst : s.step l = some s') (hl : ∀ now, l ≠ .process now) :
    s'.announced = s.announced := by
  cases enforcerMove_of_step hst with
  | push => exact absurd rfl (hl _)
  | _ => rfl

end Runs

/-- The life of every driver's penalty, in every state of every interleaving. What is announced is
what the loop has pushed onto the queue. -/
theorem penalty_once {s : EnforcerState} (h : enforcerSystem.Reachable s) :
    (∀ l s' i, s.step l = some s' → s'.enforcer.states i = s.enforcer.states i
        ∨ (s.enforcer.states i).Forward (s'.enforcer.states i))
      ∧ (∀ l s' i, s.step l = some s' →
        (s.enforcer.states i = .none ∧ s'.enforcer.states i ≠ .none
          ↔ (∃ now, l = .process now) ∧ s.pc.counting = some i ∧ s.handledFor i = 3))
      ∧ (∀ i, s.pc.counting ≠ some i →
        (s.enforcer.states i = .none ↔ s.handledFor i < 3)
          ∧ (s.pc.announcing ≠ some i → s.announcedFor i = if s.handledFor i < 3 then 0 else 1))
      ∧ (∀ i, s.announcedFor i ≤ if s.handledFor i < 3 then 0 else 1)
      ∧ (∀ l s' i, s.step l = some s' → s.subject l ≠ some i →
        s'.enforcer.warnings i = s.enforcer.warnings i
          ∧ s'.enforcer.states i = s.enforcer.states i
          ∧ s'.announcedFor i = s.announcedFor i)
      ∧ (∀ now s', s.step (.process now) = some s' →
        ∃ pushed, s'.queue = s.queue ++ pushed ∧ s'.announced = s.announced ++ pushed)
      ∧ ∀ l s', s.step l = some s' → (∀ now, l ≠ .process now) →
        s'.announced = s.announced := by
  have hI := enforcerInv_reachable h
  refine ⟨fun l s' i hst => state_forward hst i, fun l s' i hst => hI.leaves_none_iff hst i,
    fun i hc => ⟨?_, fun ha => ?_⟩, fun i => ?_, fun l s' i hst hi => hI.other hst hi,
    fun now s' hst => EnforcerState.process_pushes hst,
    fun l s' hst hl => EnforcerState.announced_of_step hst hl⟩
  · rw [hI.state_iff i, if_neg hc]
  · have hstate := hI.state_iff i
    rw [if_neg hc] at hstate
    simp only [hI.announced_eq i, hstate, ha, or_false]
  · rw [hI.announced_eq i]
    by_cases hlt : s.handledFor i < 3
    · have hnone : s.enforcer.states i = .none := (hI.state_iff i).2 (by split_ifs <;> omega)
      rw [if_pos (.inl hnone)]
      exact Nat.zero_le _
    · rw [if_neg hlt]
      split_ifs <;> omega

/-- A driver's third warning, in a later batch than the first two; the driver is in the pits before
the announcement is out. -/
def thirdWarning : List EnforcerLabel :=
  let warning : RaceControlEvent := ⟨.trackLimits, .ofId "VER", 5, "", 0⟩
  [.pushEvent warning, .pushEvent warning, .pushEvent warning, .callProcess, .drain true,
    .drain true, .drain false, .process 1, .process 1, .process 1, .process 1, .process 1,
    .callProcess, .drain true, .drain false, .process 2, .process 2, .enteredPits "VER",
    .process 3, .process 3, .process 3]

theorem penalty_once_thirdWarning :
    let s := (enforcerSystem.run .init thirdWarning).get (by decide)
    s.enforcer.states 0 = .serving ∧ s.announcedFor 0 = if s.handledFor 0 < 3 then 0 else 1 :=
  have hs := System.reachable_get (M := enforcerSystem) thirdWarning (by decide)
  ⟨by decide, ((penalty_once hs).2.2.1 0 (by decide)).2 (by decide)⟩

end RaceConditionZ
