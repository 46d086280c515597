import Mathlib.Data.List.Basic
import Mathlib.Data.List.Forall2
import Mathlib.Data.List.Induction
import Mathlib.Data.List.Perm.Basic

/-!
# Machines that answer

A machine takes an input, changes its state and answers with one output. Two runs whose inputs are
related keep their states and outputs related. A machine made of components, each input read by one
of them, is told by what its components make of their own inputs; so the order of inputs of
different components does not matter.
-/

namespace Mealy

variable {σ τ ι υ ο ρ κ α : Type*}

section Run

variable (step : σ → ι → σ × ο)

/-- The state after the inputs. -/
def after (s : σ) : List ι → σ
  | [] => s
  | x :: xs => after (step s x).1 xs

/-- The outputs, one for each input. -/
def outputs (s : σ) : List ι → List ο
  | [] => []
  | x :: xs => (step s x).2 :: outputs (step s x).1 xs

variable (s : σ)

theorem after_append (xs ys : List ι) :
    after step s (xs ++ ys) = after step (after step s xs) ys := by
  induction xs generalizing s with
  | nil => rfl
  | cons x xs ih => exact ih _

theorem outputs_append (xs ys : List ι) :
    outputs step s (xs ++ ys) = outputs step s xs ++ outputs step (after step s xs) ys := by
  induction xs generalizing s with
  | nil => rfl
  | cons x xs ih => exact congrArg _ (ih _)

theorem after_concat (xs : List ι) (x : ι) :
    after step s (xs ++ [x]) = (step (after step s xs) x).1 :=
  after_append step s xs [x]

theorem outputs_concat (xs : List ι) (x : ι) :
    outputs step s (xs ++ [x]) = outputs step s xs ++ [(step (after step s xs) x).2] :=
  outputs_append step s xs [x]

/-- An output is what the step says to its input in the state after the inputs before. -/
theorem outputs_getElem? (xs : List ι) (k : ℕ) :
    (outputs step s xs)[k]? = xs[k]?.map fun x => (step (after step s (xs.take k)) x).2 := by
  induction xs generalizing s k with
  | nil => rfl
  | cons x xs ih =>
    cases k with
    | zero => rfl
    | succ k => exact ih (step s x).1 k

variable {step s}

/-- What holds of the start and no outputs, and is kept by each step with its output, holds of the
state and the outputs after every run. -/
theorem history {P : List ι → σ → List ο → Prop} (hstart : P [] s [])
    (hstep : ∀ xs t os x, P xs t os → P (xs ++ [x]) (step t x).1 (os ++ [(step t x).2]))
    (xs : List ι) : P xs (after step s xs) (outputs step s xs) := by
  induction xs using List.reverseRecOn with
  | nil => exact hstart
  | append_singleton xs x ih =>
    rw [after_concat, outputs_concat]
    exact hstep _ _ _ _ ih

end Run

/-- Two runs side by side. -/
theorem related {step : σ → ι → σ × ο} {step' : τ → υ → τ × ρ} {R : σ → τ → Prop}
    {Q : ι → υ → Prop} {S : ο → ρ → Prop}
    (hstep : ∀ s t x y, R s t → Q x y →
      R (step s x).1 (step' t y).1 ∧ S (step s x).2 (step' t y).2)
    {s : σ} {t : τ} (hst : R s t) {xs : List ι} {ys : List υ} (hxs : List.Forall₂ Q xs ys) :
    R (after step s xs) (after step' t ys)
      ∧ List.Forall₂ S (outputs step s xs) (outputs step' t ys) := by
  induction hxs generalizing s t with
  | nil => exact ⟨hst, .nil⟩
  | cons hxy _ ih =>
    obtain ⟨hafter, houtput⟩ := hstep s t _ _ hst hxy
    obtain ⟨hlast, houtputs⟩ := ih hafter
    exact ⟨hlast, .cons houtput houtputs⟩

theorem after_map (step : σ → ι → σ × ο) (s : σ) (f : υ → ι) (ys : List υ) :
    after (fun s y => step s (f y)) s ys = after step s (ys.map f) := by
  induction ys generalizing s with
  | nil => rfl
  | cons y ys ih => exact ih _

/-- The inputs with their outputs. -/
def log (step : σ → ι → σ × ο) (s : σ) (xs : List ι) : List (ι × ο) :=
  xs.zip (outputs step s xs)

section Accepted

/-- The inputs answered with `true`. -/
def accepted (step : σ → ι → σ × Bool) (s : σ) (xs : List ι) : List ι :=
  ((log step s xs).filter fun p => p.2).map Prod.fst

variable (step : σ → ι → σ × Bool) (s : σ)

theorem accepted_cons (x : ι) (xs : List ι) : accepted step s (x :: xs)
    = (if (step s x).2 then [x] else []) ++ accepted step (step s x).1 xs := by
  unfold accepted log
  rw [outputs, List.zip_cons_cons, List.filter_cons]
  split <;> rfl

theorem accepted_append (xs ys : List ι) :
    accepted step s (xs ++ ys) = accepted step s xs ++ accepted step (after step s xs) ys := by
  induction xs generalizing s with
  | nil => rfl
  | cons x xs ih =>
    rw [List.cons_append, accepted_cons, accepted_cons, ih, List.append_assoc, after]

theorem accepted_concat (xs : List ι) (x : ι) : accepted step s (xs ++ [x])
    = accepted step s xs ++ if (step (after step s xs) x).2 then [x] else [] := by
  rw [accepted_append, accepted_cons]
  exact congrArg _ (List.append_nil _)

theorem accepted_map (f : υ → ι) (ys : List υ) :
    (accepted (fun s y => step s (f y)) s ys).map f = accepted step s (ys.map f) := by
  induction ys generalizing s with
  | nil => rfl
  | cons y ys ih =>
    rw [accepted_cons, List.map_append, ih, List.map_cons, accepted_cons]
    split <;> rfl

/-- An input is accepted as the step answers it in the state after the inputs before. -/
theorem accepted_zipIdx (xs : List ι) :
    accepted (fun s x => step s x.1) s xs.zipIdx
      = xs.zipIdx.filter fun x => (step (after step s (xs.take x.2)) x.1).2 := by
  induction xs using List.reverseRecOn with
  | nil => rfl
  | append_singleton xs x ih =>
    have hbefore : ∀ y ∈ xs.zipIdx, (step (after step s ((xs ++ [x]).take y.2)) y.1).2
        = (step (after step s (xs.take y.2)) y.1).2 := by
      intro y hy
      have hlt : y.2 < xs.length := by
        simpa using List.snd_lt_of_mem_zipIdx hy
      rw [List.take_append_of_le_length (Nat.le_of_lt hlt)]
    rw [List.zipIdx_append, List.zipIdx_singleton, accepted_concat, after_map, List.zipIdx_map_fst,
      ih, List.filter_append, List.filter_congr hbefore, List.filter_cons, List.filter_nil]
    simp only [Nat.zero_add, List.take_left]

end Accepted

section Keyed

variable [DecidableEq κ]

/-- An input is read by the component of its key, which `own` tells, and by no other; an input
without a key changes nothing, and its output is `quiet`. -/
structure Keyed (step : σ → ι → σ × ο) (get : σ → κ → α) (key : ι → Option κ)
    (own : α → ι → α × ο) (quiet : ο) : Prop where
  read : ∀ {s x k}, key x = some k → (get (step s x).1 k, (step s x).2) = own (get s k) x
  other : ∀ {s x k}, key x ≠ some k → get (step s x).1 k = get s k
  unread : ∀ {s x}, key x = none → (step s x).2 = quiet

variable {step : σ → ι → σ × ο} {get : σ → κ → α} {key : ι → Option κ} {own : α → ι → α × ο}
  {quiet : ο}

/-- A component is told by its own inputs. -/
theorem Keyed.get_after (h : Keyed step get key own quiet) (s : σ) (xs : List ι) (k : κ) :
    get (after step s xs) k = after own (get s k) (xs.filter fun x => key x = some k) := by
  induction xs generalizing s with
  | nil => rfl
  | cons x xs ih =>
    by_cases hx : key x = some k
    · rw [List.filter_cons_of_pos (by simpa using hx), after, after, ih, ← h.read hx]
    · rw [List.filter_cons_of_neg (by simpa using hx), after, ih, h.other hx]

/-- So are the outputs to them. -/
theorem Keyed.log_filter (h : Keyed step get key own quiet) (s : σ) (xs : List ι) (k : κ) :
    (log step s xs).filter (fun p => key p.1 = some k)
      = log own (get s k) (xs.filter fun x => key x = some k) := by
  induction xs generalizing s with
  | nil => rfl
  | cons x xs ih =>
    unfold log at ih ⊢
    rw [outputs, List.zip_cons_cons]
    by_cases hx : key x = some k
    · rw [List.filter_cons_of_pos (by simpa using hx), List.filter_cons_of_pos (by simpa using hx),
        outputs, List.zip_cons_cons, ih, ← h.read hx]
    · rw [List.filter_cons_of_neg (by simpa using hx), List.filter_cons_of_neg (by simpa using hx),
        ih, h.other hx]

section Accepted

variable {step : σ → ι → σ × Bool} {own : α → ι → α × Bool}

theorem Keyed.accepted_filter (h : Keyed step get key own false) (s : σ) (xs : List ι) (k : κ) :
    (accepted step s xs).filter (fun x => key x = some k)
      = accepted own (get s k) (xs.filter fun x => key x = some k) := by
  unfold accepted
  rw [← h.log_filter, List.filter_map, List.filter_filter, List.filter_filter]
  simp only [Function.comp_apply, Bool.and_comm]

omit [DecidableEq κ] in
theorem Keyed.key_of_accepted (h : Keyed step get key own false) {s : σ} {xs : List ι} {x : ι}
    (hx : x ∈ accepted step s xs) : key x ≠ none := by
  induction xs generalizing s with
  | nil => cases hx
  | cons y xs ih =>
    rw [accepted_cons, List.mem_append] at hx
    rcases hx with hx | hx
    · split_ifs at hx with hy
      · rw [List.mem_singleton.1 hx]
        intro hnone
        rw [h.unread hnone] at hy
        cases hy
      · cases hx
    · exact ih hx

/-- Reordered inputs, each key's own in the same order, leave the same components and have the same
inputs accepted. -/
theorem Keyed.accepted_perm [DecidableEq ι] (h : Keyed step get key own false) (s : σ)
    {xs ys : List ι}
    (hown : ∀ k, xs.filter (fun x => key x = some k) = ys.filter fun x => key x = some k) :
    (accepted step s xs).Perm (accepted step s ys) := by
  refine List.perm_iff_count.2 fun x => ?_
  rcases hx : key x with _ | k
  · rw [List.count_eq_zero_of_not_mem fun hmem => h.key_of_accepted hmem hx,
      List.count_eq_zero_of_not_mem fun hmem => h.key_of_accepted hmem hx]
  · have hcount : ∀ l : List ι, l.count x = (l.filter fun x => key x = some k).count x :=
      fun l => (List.count_filter (by simpa using hx)).symm
    rw [hcount (accepted step s xs), hcount (accepted step s ys), h.accepted_filter,
      h.accepted_filter, hown k]

end Accepted

end Keyed

end Mealy
