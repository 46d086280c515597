import Mathlib.Algebra.BigOperators.Group.Finset.Basic
import Mathlib.Data.Fintype.BigOperators
import RaceConditionZ.Lib.Transition

/-!
# The potential method

A potential pays for the work of a run: a step takes from it the work it does, and adds to it no
more than the credit it brings. So a run does no more work than its potential and its credits allow
(`Pays.total_le`). Where something that works without credit can be done until a goal is reached, a
run reaches it (`Pays.exists_run`), and so does every schedule that does not put such steps off for
ever.
-/

namespace Transition

/-- Sums over all parties that differ in one party's term. -/
theorem sum_off {ι : Type*} [Fintype ι] [DecidableEq ι] {f g : ι → ℕ} (i : ι)
    (h : ∀ j, j ≠ i → f j = g j) : (∑ j, f j) + g i = (∑ j, g j) + f i := by
  have hrest : ∑ j ∈ Finset.univ.erase i, f j = ∑ j ∈ Finset.univ.erase i, g j :=
    Finset.sum_congr rfl fun j hj => h j (Finset.ne_of_mem_erase hj)
  rw [← Finset.add_sum_erase _ _ (Finset.mem_univ i),
    ← Finset.add_sum_erase Finset.univ g (Finset.mem_univ i), hrest]
  omega

/-- A sum over all parties, where one party moves. -/
theorem sum_update {ι α : Type*} [Fintype ι] [DecidableEq ι] (f : α → ℕ) (g : ι → α) (i : ι)
    (a : α) : (∑ j, f (Function.update g i a j)) + f (g i) = (∑ j, f (g j)) + f a := by
  have hsum := sum_off (f := fun j => f (Function.update g i a j)) (g := fun j => f (g j)) i
    fun j hj => by rw [Function.update_of_ne hj]
  rwa [Function.update_self] at hsum

namespace System

variable {σ ℓ : Type*} {M : System σ ℓ}

/-- What the steps of a run bring, added up. -/
def total (M : System σ ℓ) (f : σ → ℓ → ℕ) : σ → List ℓ → ℕ
  | _, [] => 0
  | s, l :: ls => f s l + (M.step s l).elim 0 fun s' => total M f s' ls

/-- Among the states that meet `P`, a step pays for its work from the potential. -/
structure Pays (M : System σ ℓ) (P : σ → Prop) (potential : σ → ℕ) (work credit : σ → ℓ → ℕ) :
    Prop where
  keeps : ∀ {s l s'}, P s → M.step s l = some s' → P s'
  pays : ∀ {s l s'}, P s → M.step s l = some s' →
    potential s' + work s l ≤ potential s + credit s l

variable {P Goal : σ → Prop} {potential : σ → ℕ} {work credit : σ → ℓ → ℕ} {s s' : σ}
  {ls : List ℓ}

theorem total_cons {f : σ → ℓ → ℕ} {l : ℓ} (hst : M.step s l = some s') :
    M.total f s (l :: ls) = f s l + M.total f s' ls := by
  simp only [total, hst, Option.elim_some]

@[simp]
theorem total_zero : M.total (fun _ _ => 0) s ls = 0 := by
  induction ls generalizing s with
  | nil => rfl
  | cons l ls ih =>
    simp only [total, Nat.zero_add]
    cases M.step s l with
    | none => rfl
    | some s₁ => exact ih

/-- What each label of a kind brings is brought as often as the run has that kind. -/
theorem total_ite {p : ℓ → Prop} [DecidablePred p] {c : ℕ} (hrun : M.run s ls = some s') :
    M.total (fun _ l => if p l then c else 0) s ls = c * ls.countP p := by
  induction ls generalizing s with
  | nil => rfl
  | cons l ls ih =>
    simp only [run_cons, Option.bind_eq_some_iff] at hrun
    obtain ⟨s₁, hst, hrun⟩ := hrun
    rw [total_cons hst, ih hrun, List.countP_cons]
    simp only [decide_eq_true_eq]
    split_ifs with hp
    · rw [Nat.mul_add, Nat.mul_one, Nat.add_comm]
    · rw [Nat.zero_add, Nat.add_zero]

theorem Pays.total_le (h : M.Pays P potential work credit) (hs : P s)
    (hrun : M.run s ls = some s') :
    potential s' + M.total work s ls ≤ potential s + M.total credit s ls := by
  induction ls generalizing s with
  | nil =>
    cases hrun
    exact le_refl _
  | cons l ls ih =>
    simp only [run_cons, Option.bind_eq_some_iff] at hrun
    obtain ⟨s₁, hst, hrun⟩ := hrun
    have hstep := h.pays hs hst
    have hrest := ih (h.keeps hs hst) hrun
    rw [total_cons hst, total_cons hst]
    omega

/-- Work that a counter counts. -/
theorem total_of_counter {f : σ → ℓ → ℕ} (counter : σ → ℕ)
    (hf : ∀ {s l s'}, M.step s l = some s' → counter s' = counter s + f s l)
    (hrun : M.run s ls = some s') : counter s' = counter s + M.total f s ls := by
  induction ls generalizing s with
  | nil =>
    cases hrun
    rfl
  | cons l ls ih =>
    simp only [run_cons, Option.bind_eq_some_iff] at hrun
    obtain ⟨s₁, hst, hrun⟩ := hrun
    rw [total_cons hst, ih hrun, hf hst, Nat.add_assoc]

theorem total_add (f g : σ → ℓ → ℕ) :
    M.total (fun s l => f s l + g s l) s ls = M.total f s ls + M.total g s ls := by
  induction ls generalizing s with
  | nil => rfl
  | cons l ls ih =>
    simp only [total]
    cases M.step s l with
    | none => simp only [Option.elim_none, Nat.add_zero]
    | some s₁ =>
      simp only [Option.elim_some]
      rw [ih]
      omega

theorem Pays.exists_run {pick : ℓ → Prop} (h : M.Pays P potential work credit)
    (hnext : ∀ {s}, P s → ¬ Goal s →
      ∃ l s', pick l ∧ M.step s l = some s' ∧ 1 ≤ work s l ∧ credit s l = 0)
    (hs : P s) :
    ∃ ls s', M.run s ls = some s' ∧ Goal s' ∧ ls.length ≤ potential s ∧ ∀ l ∈ ls, pick l := by
  -- by induction on the potential
  induction hk : potential s using Nat.strong_induction_on generalizing s with
  | _ k ih =>
    by_cases hgoal : Goal s
    · exact ⟨[], s, rfl, hgoal, Nat.zero_le _, fun l hl => absurd hl List.not_mem_nil⟩
    · obtain ⟨l, s₁, hl, hst, hwork, hcredit⟩ := hnext hs hgoal
      have hstep := h.pays hs hst
      obtain ⟨ls, s', hrun, hgoal', hle, hls⟩ := ih _ (by omega) (h.keeps hs hst) rfl
      refine ⟨l :: ls, s', ?_, hgoal', ?_, ?_⟩
      · rw [run_cons, hst, Option.bind_some]
        exact hrun
      · rw [List.length_cons]
        omega
      · intro l' hl'
        rcases List.mem_cons.1 hl' with rfl | hl'
        · exact hl
        · exact hls l' hl'

end System

end Transition
