import Mathlib.Data.List.Nodup
import Mathlib.Logic.Function.Basic
import Mathlib.Tactic.SplitIfs

/-!
# Sweeps

A loop over the components of a state, each visited once, whose body at `i` reads and writes
component `i` and reads an environment it does not change. Since no body writes what a later one
reads, what the loop leaves is told by the state before it.
-/

namespace Sweep

variable {σ ε ι α β : Type*} [DecidableEq ι]

/-- The body at `i` maps component `i` by `f` and leaves the others and the environment. -/
structure Local (env : σ → ε) (get : σ → ι → α) (body : σ → ι → σ) (f : ε → ι → α → α) :
    Prop where
  env_eq : ∀ s i, env (body s i) = env s
  get_eq : ∀ s i, get (body s i) = Function.update (get s) i (f (env s) i (get s i))

namespace Local

variable {env : σ → ε} {get : σ → ι → α} {body : σ → ι → σ} {f : ε → ι → α → α}

theorem env_foldl (h : Local env get body f) (is : List ι) (s : σ) :
    env (is.foldl body s) = env s := by
  induction is generalizing s with
  | nil => rfl
  | cons i is ih => rw [List.foldl_cons, ih, h.env_eq]

theorem get_of_ne (h : Local env get body f) (s : σ) {i j : ι} (hij : j ≠ i) :
    get (body s i) j = get s j := by
  rw [h.get_eq, Function.update_of_ne hij]

theorem get_foldl (h : Local env get body f) {is : List ι} (hnd : is.Nodup) (s : σ) (j : ι) :
    get (is.foldl body s) j = if j ∈ is then f (env s) j (get s j) else get s j := by
  induction is generalizing s with
  | nil => simp
  | cons i is ih =>
    obtain ⟨hi, hnd⟩ := List.nodup_cons.1 hnd
    rw [List.foldl_cons, ih hnd, h.env_eq]
    by_cases hj : j = i
    · subst hj
      rw [if_neg hi, if_pos List.mem_cons_self, h.get_eq, Function.update_self]
    · rw [h.get_of_ne s hj]
      simp only [List.mem_cons, hj, false_or]

/-- A flag the body raises where its component meets `p` is up after the loop if it was before or
some component meets `p`. -/
theorem flag_foldl (h : Local env get body f) (flag : σ → Prop) (p : ε → ι → α → Prop)
    (hflag : ∀ s i, flag (body s i) ↔ flag s ∨ p (env s) i (get s i)) {is : List ι}
    (hnd : is.Nodup) (s : σ) :
    flag (is.foldl body s) ↔ flag s ∨ ∃ i ∈ is, p (env s) i (get s i) := by
  induction is generalizing s with
  | nil => simp
  | cons i is ih =>
    obtain ⟨hi, hnd⟩ := List.nodup_cons.1 hnd
    have hlater : (∃ j ∈ is, p (env s) j (get (body s i) j)) ↔ ∃ j ∈ is, p (env s) j (get s j) :=
      exists_congr fun j => and_congr_right fun hj => by
        rw [h.get_of_ne s (ne_of_mem_of_not_mem hj hi)]
    rw [List.foldl_cons, ih hnd, hflag, h.env_eq, hlater, or_assoc]
    simp only [List.mem_cons, exists_eq_or_imp]

/-- What the bodies append to a log, each for its own component, in the order of the loop. -/
theorem log_foldl {κ : Type*} (h : Local env get body f) (log : σ → List κ) (out : ε → ι → α → κ)
    (hlog : ∀ s i, log (body s i) = log s ++ [out (env s) i (get s i)]) {is : List ι}
    (hnd : is.Nodup) (s : σ) :
    log (is.foldl body s) = log s ++ is.map fun i => out (env s) i (get s i) := by
  induction is generalizing s with
  | nil => exact (List.append_nil _).symm
  | cons i is ih =>
    obtain ⟨hi, hnd⟩ := List.nodup_cons.1 hnd
    have hlater : (is.map fun j => out (env s) j (get (body s i) j))
        = is.map fun j => out (env s) j (get s j) :=
      List.map_congr_left fun j hj => by rw [h.get_of_ne s (ne_of_mem_of_not_mem hj hi)]
    rw [List.foldl_cons, ih hnd, hlog, h.env_eq, hlater, List.map_cons, List.append_assoc,
      List.singleton_append]

end Local

end Sweep
