import Mathlib.Algebra.GroupWithZero.Nat
import Mathlib.Logic.Relation
import Mathlib.Order.Defs.PartialOrder
import Mathlib.Tactic.SplitIfs

/-!
# Guarded transition systems

A system is a step function: `step s l` is the state after the step labelled `l`, or `none` where
that step is not enabled. Whatever is free in a run (which party moves, a spurious failure, a value
from outside) is part of the label, so a run is the list of its labels and can be replayed.
-/

namespace Transition

/-! Runs name their parties by literals of `Fin 1` and `Fin 2`. -/

instance neZero_one : NeZero 1 := ⟨Nat.succ_ne_zero 0⟩

instance neZero_two : NeZero 2 := ⟨Nat.succ_ne_zero 1⟩

/-- A start and a guarded step function. -/
structure System (σ ℓ : Type*) where
  init : σ
  step : σ → ℓ → Option σ

namespace System

variable {σ ℓ τ κ : Type*} (M : System σ ℓ)

/-- The state a list of labels leads to. -/
def run : σ → List ℓ → Option σ
  | s, [] => some s
  | s, l :: ls => (M.step s l).bind fun s' => run s' ls

/-- The states that runs lead to whose every step meets `ok`. -/
inductive ReachableBy (ok : σ → ℓ → Prop) : σ → Prop
  | init : ReachableBy ok M.init
  | step {s s' : σ} {l : ℓ} : ReachableBy ok s → ok s l → M.step s l = some s' → ReachableBy ok s'

/-- The states that runs lead to. -/
abbrev Reachable : σ → Prop := M.ReachableBy fun _ _ => True

/-- A run from the one state to the other. -/
abbrev Leads : σ → σ → Prop := Relation.ReflTransGen fun s s' => ∃ l, M.step s l = some s'

variable {M}

@[simp]
theorem run_cons (s : σ) (l : ℓ) (ls : List ℓ) :
    M.run s (l :: ls) = (M.step s l).bind fun s' => M.run s' ls := rfl

theorem run_append (s : σ) (ls ls' : List ℓ) :
    M.run s (ls ++ ls') = (M.run s ls).bind fun s' => M.run s' ls' := by
  induction ls generalizing s with
  | nil => rfl
  | cons l ls ih =>
    simp only [List.cons_append, run_cons]
    cases M.step s l with
    | none => rfl
    | some s₁ => exact ih s₁

/-- The rule of invariants, for runs that keep to `ok`: the step may use that its state is
reached. -/
theorem ReachableBy.invariant {ok : σ → ℓ → Prop} {I : σ → Prop} (h0 : I M.init)
    (hstep : ∀ {s l s'}, M.ReachableBy ok s → I s → ok s l → M.step s l = some s' → I s')
    {s : σ} (h : M.ReachableBy ok s) : I s := by
  induction h with
  | init => exact h0
  | step hs hok hst ih => exact hstep hs ih hok hst

theorem ReachableBy.reachable {ok : σ → ℓ → Prop} {s : σ} (h : M.ReachableBy ok s) :
    M.Reachable s := by
  induction h with
  | init => exact .init
  | step _ _ hst ih => exact .step ih trivial hst

theorem Reachable.step {s s' : σ} {l : ℓ} (h : M.Reachable s) (hst : M.step s l = some s') :
    M.Reachable s' :=
  ReachableBy.step h trivial hst

theorem Reachable.leads {s s' : σ} (h : M.Reachable s) (hl : M.Leads s s') : M.Reachable s' := by
  induction hl with
  | refl => exact h
  | tail _ hst ih =>
    obtain ⟨l, hl⟩ := hst
    exact Reachable.step ih hl

theorem Leads.of_eq {s s' : σ} (h : s = s') : M.Leads s s' := h ▸ .refl

theorem leads_of_run {s s' : σ} {ls : List ℓ} (h : M.run s ls = some s') : M.Leads s s' := by
  induction ls generalizing s with
  | nil => cases h; exact .refl
  | cons l ls ih =>
    simp only [run_cons, Option.bind_eq_some_iff] at h
    obtain ⟨s₁, hst, hrun⟩ := h
    exact .head ⟨l, hst⟩ (ih hrun)

theorem Leads.exists_run {s s' : σ} (h : M.Leads s s') : ∃ ls, M.run s ls = some s' := by
  induction h using Relation.ReflTransGen.head_induction_on with
  | refl => exact ⟨[], rfl⟩
  | head hst _ ih =>
    obtain ⟨l, hl⟩ := hst
    obtain ⟨ls, hls⟩ := ih
    refine ⟨l :: ls, ?_⟩
    rw [run_cons, hl, Option.bind_some, hls]

theorem reachable_get (ls : List ℓ) (h : (M.run M.init ls).isSome) :
    M.Reachable ((M.run M.init ls).get h) :=
  Reachable.leads .init (leads_of_run (Option.some_get h).symm)

/-- The system that takes only the steps that meet `ok`. -/
def guarded (M : System σ ℓ) (ok : σ → ℓ → Prop) [∀ s l, Decidable (ok s l)] : System σ ℓ where
  init := M.init
  step s l := if ok s l then M.step s l else none

theorem Reachable.of_guarded {ok : σ → ℓ → Prop} [∀ s l, Decidable (ok s l)] {s : σ}
    (h : (M.guarded ok).Reachable s) : M.ReachableBy ok s := by
  induction h with
  | init => exact .init
  | @step s s' l _ _ hst ih =>
    simp only [guarded] at hst
    split_ifs at hst with hok
    exact .step ih hok hst

theorem Leads.of_guarded {ok : σ → ℓ → Prop} [∀ s l, Decidable (ok s l)] {s s' : σ}
    (h : (M.guarded ok).Leads s s') : M.Leads s s' := by
  refine Relation.ReflTransGen.mono (fun t t' => ?_) _ _ h
  rintro ⟨l, hst⟩
  simp only [guarded] at hst
  split_ifs at hst
  exact ⟨l, hst⟩

/-- A property the steps between two states keep, once it holds, still holds at the second. -/
theorem Leads.keeps {P : σ → Prop} (hkeep : ∀ {s l s'}, P s → M.step s l = some s' → P s')
    {s s' : σ} (hl : M.Leads s s') (h : P s) : P s' := by
  induction hl with
  | refl => exact h
  | tail _ hst ih =>
    obtain ⟨l, hl⟩ := hst
    exact hkeep ih hl

/-- What no step from a reached state raises, no run raises. -/
theorem Leads.antitone {β : Type*} [Preorder β] {f : σ → β}
    (hf : ∀ {s l s'}, M.Reachable s → M.step s l = some s' → f s' ≤ f s) {s s' : σ}
    (h : M.Reachable s) (hl : M.Leads s s') : f s' ≤ f s := by
  refine (hl.keeps (P := fun t => M.Reachable t ∧ f t ≤ f s) ?_ ⟨h, le_rfl⟩).2
  rintro t l t' ⟨ht, hle⟩ hst
  exact ⟨ht.step hst, le_trans (hf ht hst) hle⟩

/-- Forward simulation: where `A` can follow each step of `M`, by any number of its own, a reached
state of `M` is related to a reached state of `A`. -/
theorem Reachable.simulated {A : System τ κ} {R : σ → τ → Prop} (h0 : R M.init A.init)
    (hstep : ∀ {s l s' a}, M.Reachable s → A.Reachable a → R s a → M.step s l = some s' →
      ∃ a', A.Leads a a' ∧ R s' a')
    {s : σ} (h : M.Reachable s) : ∃ a, A.Reachable a ∧ R s a := by
  induction h with
  | init => exact ⟨A.init, .init, h0⟩
  | step hs _ hst ih =>
    obtain ⟨a, ha, hR⟩ := ih
    obtain ⟨a', hl, hR'⟩ := hstep hs ha hR hst
    exact ⟨a', ha.leads hl, hR'⟩

/-- A map under which each step of `M` is a step of `A`, or none at all, takes reached states to
reached states. -/
theorem Reachable.map {A : System τ κ} {f : σ → τ} (h0 : f M.init = A.init)
    (hstep : ∀ {s l s'}, M.Reachable s → M.step s l = some s' →
      f s' = f s ∨ ∃ k, A.step (f s) k = some (f s'))
    {s : σ} (h : M.Reachable s) : A.Reachable (f s) := by
  obtain ⟨a, ha, rfl⟩ := Reachable.simulated (R := fun s a => f s = a) h0 (s := s)
    (fun {s l s' a} hs _ he hst => by
      subst he
      refine ⟨f s', ?_, rfl⟩
      rcases hstep hs hst with he | hk
      · rw [he]
      · exact .single hk) h
  exact ha

theorem Leads.map {A : System τ κ} {f : σ → τ}
    (hstep : ∀ {s l s'}, M.Reachable s → M.step s l = some s' →
      f s' = f s ∨ ∃ k, A.step (f s) k = some (f s'))
    {s s' : σ} (h : M.Reachable s) (hl : M.Leads s s') : A.Leads (f s) (f s') := by
  refine (hl.keeps (P := fun t => M.Reachable t ∧ A.Leads (f s) (f t)) ?_ ⟨h, .refl⟩).2
  rintro t l t' ⟨ht, hlt⟩ hst
  refine ⟨ht.step hst, ?_⟩
  rcases hstep ht hst with he | hk
  · rw [he]
    exact hlt
  · exact hlt.tail hk

end System

end Transition
