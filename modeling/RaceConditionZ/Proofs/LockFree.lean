import Mathlib.Algebra.BigOperators.Ring.Finset
import Mathlib.Algebra.Order.BigOperators.Group.Finset
import RaceConditionZ.Lib.Potential
import RaceConditionZ.Proofs.FastestLap

/-!
# Claims never wait for each other

An exchange that does not fail of itself only fails where another has succeeded since the call last
read the time. So each retry is paid for by the success of another call, and as a call succeeds once
at most, all calls return, whatever the schedule: a thread that stops in the middle of a call keeps
no other from its end.
-/

namespace RaceConditionZ

open Transition

variable {F ι : Type} [DecidableEq F] [DecidableEq ι]

/-- The steps a call still takes if no other call wins: two more where its exchange is bound to
fail. -/
def ClaimPc.left (fastest : F) : ClaimPc F → ℕ
  | .load => 4
  | .compare cur => if cur = fastest then 3 else 5
  | .exchange cur => if cur = fastest then 2 else 4
  | .storeHolder => 1
  | .returned _ => 0

/-- Another's success costs a call two steps at most. -/
theorem ClaimPc.left_le (pc : ClaimPc F) (fastest fastest' : F) :
    pc.left fastest' ≤ pc.left fastest + 2 := by
  cases pc with
  | compare cur =>
    simp only [left]
    split_ifs <;> omega
  | exchange cur =>
    simp only [left]
    split_ifs <;> omega
  | _ => exact Nat.le_add_right _ _

theorem ClaimPc.left_le_five (pc : ClaimPc F) (fastest : F) : pc.left fastest ≤ 5 := by
  cases pc with
  | compare cur | exchange cur =>
    simp only [left]
    split_ifs <;> omega
  | _ => simp [left]

/-- The exchange of the call that moves succeeds. -/
def ClaimState.Wins (s : ClaimState ι F) (l : ι × Bool) : Prop :=
  s.pc l.1 = .exchange s.race.fastestLapMs ∧ l.2 = false

instance (s : ClaimState ι F) (l : ι × Bool) : Decidable (s.Wins l) :=
  inferInstanceAs (Decidable (_ ∧ _))

variable [MachineFloat F] [DecidableLT F] {calls : ι → LapClaim F} {race : RaceState F}
  {s s' : ClaimState ι F} {l : ι × Bool} {ls : List (ι × Bool)}

/-- What a step makes of its call, and of the time. -/
theorem claim_step_spec (hst : (claimSystem calls race).step s l = some s') :
    (∃ pc, s'.pc = Function.update s.pc l.1 pc
        ∧ pc.left s'.race.fastestLapMs + 1
          ≤ (s.pc l.1).left s.race.fastestLapMs + if l.2 then 2 else 0)
      ∧ (s.Wins l ∧ s'.winners = l.1 :: s.winners
        ∨ ¬ s.Wins l ∧ s'.winners = s.winners
          ∧ s'.race.fastestLapMs = s.race.fastestLapMs) := by
  obtain ⟨i, spurious⟩ := l
  simp only [claimSystem, Option.map_eq_some_iff, Prod.exists] at hst
  obtain ⟨race', pc', hstep, rfl⟩ := hst
  rcases hpc : s.pc i with _ | cur | cur | _ | won <;>
    simp only [hpc, RaceState.tryClaimFastestLap, reduceCtorEq] at hstep
  · simp only [Option.some.injEq, Prod.mk.injEq] at hstep
    obtain ⟨rfl, rfl⟩ := hstep
    exact ⟨⟨_, rfl, by simp [ClaimPc.left]⟩, .inr ⟨by simp [ClaimState.Wins, hpc], by simp, rfl⟩⟩
  · split_ifs at hstep with hlt <;> simp only [Option.some.injEq, Prod.mk.injEq] at hstep <;>
      obtain ⟨rfl, rfl⟩ := hstep
    · refine ⟨⟨_, rfl, ?_⟩, .inr ⟨by simp [ClaimState.Wins, hpc], by simp, rfl⟩⟩
      simp only [ClaimPc.left]
      split_ifs <;> omega
    · refine ⟨⟨_, rfl, ?_⟩, .inr ⟨by simp [ClaimState.Wins, hpc], by simp, rfl⟩⟩
      simp only [ClaimPc.left]
      split_ifs <;> omega
  · split_ifs at hstep with heq <;> simp only [Option.some.injEq, Prod.mk.injEq] at hstep <;>
      obtain ⟨rfl, rfl⟩ := hstep
    · obtain ⟨rfl, rfl⟩ := heq
      exact ⟨⟨_, rfl, by simp [ClaimPc.left]⟩, .inl ⟨⟨hpc, rfl⟩, by simp⟩⟩
    · -- either the time has changed since the call read it, or the failure is spurious
      refine ⟨⟨_, rfl, ?_⟩, .inr ⟨?_, by simp, rfl⟩⟩
      · cases spurious <;> simp [ClaimPc.left] at heq ⊢
        · rw [if_neg (Ne.symm heq)]
        · split_ifs <;> omega
      · rintro ⟨hcur, hfalse⟩
        rw [hpc, ClaimPc.exchange.injEq] at hcur
        exact heq ⟨hcur.symm, hfalse⟩
  · simp only [Option.some.injEq, Prod.mk.injEq] at hstep
    obtain ⟨rfl, rfl⟩ := hstep
    exact ⟨⟨_, rfl, by simp [ClaimPc.left]⟩, .inr ⟨by simp [ClaimState.Wins, hpc], by simp, rfl⟩⟩

/-- A call that has not returned is never blocked. -/
theorem exists_claim_step {i : ι} (h : ¬ ∃ won, s.pc i = .returned won) :
    ∃ s', (claimSystem calls race).step s (i, false) = some s' := by
  simp only [claimSystem, Option.map_eq_some_iff, exists_comm (α := ClaimState ι F),
    exists_eq_right']
  rcases hpc : s.pc i with _ | cur | cur | _ | won
  · exact ⟨_, rfl⟩
  · simp only [RaceState.tryClaimFastestLap]
    split_ifs <;> exact ⟨_, rfl⟩
  · simp only [RaceState.tryClaimFastestLap]
    split_ifs <;> exact ⟨_, rfl⟩
  · exact ⟨_, rfl⟩
  · exact absurd ⟨won, hpc⟩ h

/-- A call wins once at most. -/
theorem winners_nodup (h : (claimSystem calls race).Reachable s) :
    s.winners.Nodup ∧ ∀ i ∈ s.winners, (s.pc i).Won := by
  refine h.invariant (I := fun s => s.winners.Nodup ∧ ∀ i ∈ s.winners, (s.pc i).Won)
    ⟨List.nodup_nil, fun i hi => absurd hi List.not_mem_nil⟩ ?_
  rintro s ⟨i, spurious⟩ s' _ ⟨hnodup, hwon⟩ - hst
  have hrest : ∀ {pc : ClaimPc F}, ((s.pc i).Won → pc.Won) →
      ∀ j ∈ s.winners, (Function.update s.pc i pc j).Won := by
    intro pc hkeep j hj
    rcases eq_or_ne j i with rfl | hne
    · rw [Function.update_self]
      exact hkeep (hwon j hj)
    · rw [Function.update_of_ne hne]
      exact hwon j hj
  cases claimMove_of_step calls hst with
  | win hpc =>
    have hnot : ¬ (s.pc i).Won := by simp [hpc, ClaimPc.Won]
    refine ⟨List.nodup_cons.2 ⟨fun hi => hnot (hwon i hi), hnodup⟩, ?_⟩
    intro j hj
    rcases List.mem_cons.1 hj with rfl | hj
    · simp [ClaimPc.Won]
    · exact hrest (fun h => absurd h hnot) j hj
  | store hpc => exact ⟨hnodup, hrest fun _ => rfl⟩
  | load hpc | faster cur hpc _ | slower cur hpc _ | retry cur hpc =>
    exact ⟨hnodup, hrest (by simp [hpc, ClaimPc.Won])⟩

/-- What a step pays call `i` for its retries: a success of another, a failure out of the blue. -/
def ClaimState.pay (i : ι) (s : ClaimState ι F) (l : ι × Bool) : ℕ :=
  (if s.Wins l ∧ l.1 ≠ i then 2 else 0) + if l = (i, true) then 2 else 0

variable (calls race) in
/-- The steps of call `i` are paid for. -/
theorem claim_pays (i : ι) :
    (claimSystem calls race).Pays (fun _ => True) (fun s => (s.pc i).left s.race.fastestLapMs)
      (fun _ l => if l.1 = i then 1 else 0) (ClaimState.pay i) where
  keeps _ _ := trivial
  pays := by
    rintro s ⟨j, spurious⟩ s' - hst
    obtain ⟨⟨pc, hpc, hleft⟩, htime⟩ := claim_step_spec hst
    rcases eq_or_ne j i with rfl | hne
    · simp only [hpc, Function.update_self, ClaimState.pay, ne_eq, not_true_eq_false, and_false,
        if_false, if_true, Prod.mk.injEq, true_and, Nat.zero_add]
      exact hleft
    · rw [hpc, Function.update_of_ne hne.symm, if_neg hne]
      rcases htime with ⟨hwin, -⟩ | ⟨hnot, -, htime⟩
      · rw [ClaimState.pay, if_pos ⟨hwin, hne⟩]
        have := (s.pc i).left_le s.race.fastestLapMs s'.race.fastestLapMs
        omega
      · rw [htime]
        omega

/-- The successes of the other calls, as they are counted. -/
theorem total_wins (i : ι) (hrun : (claimSystem calls race).run s ls = some s') :
    s'.winners.countP (· ≠ i) = s.winners.countP (· ≠ i)
      + (claimSystem calls race).total (fun s l => if s.Wins l ∧ l.1 ≠ i then 1 else 0) s ls := by
  refine System.total_of_counter (fun s => s.winners.countP (· ≠ i))
    (fun {s l s'} hst => ?_) hrun
  rcases (claim_step_spec hst).2 with ⟨hwin, hwinners⟩ | ⟨hnot, hwinners, -⟩
  · simp only [hwinners, hwin, true_and, List.countP_cons, decide_eq_true_eq]
  · simp only [hwinners, hnot, false_and, if_false, Nat.add_zero]

theorem total_pay (i : ι) (hrun : (claimSystem calls race).run s ls = some s') :
    (claimSystem calls race).total (ClaimState.pay i) s ls + 2 * s.winners.countP (· ≠ i)
      = 2 * s'.winners.countP (· ≠ i) + 2 * ls.count (i, true) := by
  have hpay : (ClaimState.pay i : ClaimState ι F → ι × Bool → ℕ)
      = fun s l => (if s.Wins l ∧ l.1 ≠ i then 1 else 0)
        + ((if s.Wins l ∧ l.1 ≠ i then 1 else 0) + if l = (i, true) then 2 else 0) := by
    funext s l
    simp only [ClaimState.pay]
    split_ifs <;> rfl
  rw [hpay, System.total_add, System.total_add, System.total_ite hrun, total_wins i hrun,
    List.count_eq_countP]
  simp only [beq_eq_decide]
  omega

/-- The steps of the calls make up the run. -/
theorem sum_count_fst {ι : Type} [DecidableEq ι] [Fintype ι] (ls : List (ι × Bool)) :
    ∑ i, (ls.map Prod.fst).count i = ls.length := by
  have h := Multiset.sum_count_eq_card (s := Finset.univ) (m := (ls.map Prod.fst : Multiset ι))
    fun i _ => Finset.mem_univ i
  simpa only [Multiset.coe_count, Multiset.coe_card, List.length_map] using h

theorem sum_count_true {ι : Type} [DecidableEq ι] [Fintype ι] (ls : List (ι × Bool)) :
    ∑ i, ls.count (i, true) = ls.countP (·.2) := by
  induction ls with
  | nil => simp
  | cons l ls ih =>
    obtain ⟨j, spurious⟩ := l
    simp only [List.count_cons, List.countP_cons, Finset.sum_add_distrib, ih]
    cases spurious <;> simp

variable (calls race) in
/-- Whatever the schedule, a call takes four steps, and two more for each success of another call
and for each spurious failure of its own; so all calls together take boundedly many. From any state
a call that is left to itself returns, wherever the others have stopped. -/
theorem claims_lock_free [Fintype ι]
    (hrun : (claimSystem calls race).run (claimSystem calls race).init ls = some s) :
    s.winners.Nodup
      ∧ (∀ i, (ls.map Prod.fst).count i
        ≤ 4 + 2 * s.winners.countP (· ≠ i) + 2 * ls.count (i, true))
      ∧ ls.length
        ≤ Fintype.card ι * (2 * Fintype.card ι + 2) + 2 * ls.countP (·.2)
      ∧ ∀ i, ∃ ls' s', (claimSystem calls race).run s ls' = some s'
        ∧ (∃ won, s'.pc i = .returned won) ∧ ls'.length ≤ 5 ∧ ∀ l ∈ ls', l = (i, false) := by
  have hnodup := (winners_nodup (System.Reachable.leads .init (System.leads_of_run hrun))).1
  have hcall : ∀ i, (ls.map Prod.fst).count i
      ≤ 4 + 2 * s.winners.countP (· ≠ i) + 2 * ls.count (i, true) := by
    intro i
    have hle := (claim_pays calls race i).total_le trivial hrun
    have hpay := total_pay i hrun
    have hcount : (ls.map Prod.fst).count i = ls.countP (·.1 = i) := by
      rw [List.count_eq_countP, List.countP_map]
      rfl
    rw [System.total_ite hrun] at hle
    simp only [claimSystem, ClaimPc.left, List.countP_nil, Nat.mul_zero, Nat.add_zero,
      Nat.one_mul] at hle hpay
    omega
  have hothers : ∀ i, s.winners.countP (· ≠ i) + 1 ≤ Fintype.card ι := by
    intro i
    have hcons : (i :: s.winners.filter (· ≠ i)).Nodup :=
      List.nodup_cons.2 ⟨by simp, hnodup.filter _⟩
    rw [List.countP_eq_length_filter]
    exact hcons.length_le_card
  refine ⟨hnodup, hcall, ?_, ?_⟩
  · calc ls.length = ∑ i, (ls.map Prod.fst).count i := (sum_count_fst ls).symm
      _ ≤ ∑ i, (2 * Fintype.card ι + 2 + 2 * ls.count (i, true)) :=
        Finset.sum_le_sum fun i _ => by
          have := hcall i
          have := hothers i
          omega
      _ = Fintype.card ι * (2 * Fintype.card ι + 2) + 2 * ls.countP (·.2) := by
        rw [Finset.sum_add_distrib, ← Finset.mul_sum, sum_count_true, Finset.sum_const,
          Finset.card_univ, Nat.nsmul_eq_mul]
  · intro i
    have hnext : ∀ {s : ClaimState ι F}, True → (¬ ∃ won, s.pc i = .returned won) →
        ∃ l s', l = (i, false) ∧ (claimSystem calls race).step s l = some s'
          ∧ 1 ≤ (if l.1 = i then 1 else 0) ∧ s.pay i l = 0 := by
      intro s _ hnot
      obtain ⟨s', hst⟩ := exists_claim_step hnot
      exact ⟨(i, false), s', rfl, hst, by simp, by simp [ClaimState.pay]⟩
    obtain ⟨ls', s', hrun', hgoal, hle, hpick⟩ :=
      (claim_pays calls race i).exists_run hnext (s := s) trivial
    exact ⟨ls', s', hrun', hgoal, hle.trans (ClaimPc.left_le_five _ _), hpick⟩

/-- The second call wins between the first call's reading and its exchange. -/
def overtaken : List (Fin 2 × Bool) :=
  [(0, false), (0, false), (1, false), (1, false), (1, false), (0, false), (0, false)]

theorem claims_lock_free_overtaken :
    overtaken.length ≤ Fintype.card (Fin 2) * (2 * Fintype.card (Fin 2) + 2) + 2 * 0 :=
  (claims_lock_free twoClaims .initial
    (Option.some_get (x := (claimSystem twoClaims .initial).run
      (claimSystem twoClaims .initial).init overtaken) (by decide)).symm).2.2.1

end RaceConditionZ
