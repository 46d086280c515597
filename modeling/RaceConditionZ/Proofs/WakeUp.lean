import RaceConditionZ.Proofs.PoolDrain

/-!
# No wake-up is lost

`submit` notifies after it has released the mutex, and a notification that finds no waiter is gone.
But a worker only goes to wait where it has seen the queue empty, under the mutex, so a task that is
queued later comes with a notification still to come. With several submits between their unlock and
their notification one worker awake is enough: it tests the queue again before it waits.
-/

namespace RaceConditionZ

open Transition

variable {n : ℕ} {ι τ : Type}

/-- A worker that goes to the queue of itself: it executes a task, or tests the predicate next. -/
def WorkerPc.Awake : WorkerPc τ → Prop
  | .lock | .running _ => True
  | .waiting | .returned => False

/-- A queued task has a worker awake or a notification to come, and whoever waits after `stop_` is
set is still to be notified. -/
structure WakeInv (s : PoolState n ι τ) : Prop where
  attended : s.pool.tasks ≠ [] →
    (∃ w, (s.pool.workers w).Awake) ∨ ∃ i, s.submitters i = some .notify
  released : s.pool.stop = true → ∀ w, s.pool.workers w = .waiting → s.dtor = .notify

namespace WakeInv

variable {s : PoolState n ι τ}

/-- A step of worker `w` that leaves it awake. -/
theorem setAwake (hI : WakeInv s) {w : Fin n} {pc : WorkerPc τ} (hpc : pc.Awake)
    (submitters : ι → Option (SubmitPc τ)) (tasks : List (PackagedTask τ))
    (history : PoolHistory n τ) :
    WakeInv ⟨{ s.pool with tasks := tasks }.setWorker w pc, submitters, s.dtor, history⟩ where
  attended _ := by
    refine .inl ⟨w, ?_⟩
    rw [ThreadPool.setWorker_self]
    exact hpc
  released hstop v hv := by
    by_cases hvw : v = w
    · subst hvw
      simp only [ThreadPool.setWorker_self] at hv
      rw [hv] at hpc
      exact hpc.elim
    · rw [ThreadPool.setWorker_of_ne hvw] at hv
      exact hI.released hstop v hv

/-- A thread that is not about to notify goes on in `submit`. -/
theorem setSubmitter [DecidableEq ι] (hI : WakeInv s) {i : ι} (hi : s.submitters i ≠ some .notify)
    (pc : SubmitPc τ) :
    WakeInv { s with submitters := Function.update s.submitters i (some pc) } where
  attended htasks := by
    rcases hI.attended htasks with hawake | ⟨j, hj⟩
    · exact .inl hawake
    · have hji : j ≠ i := by
        intro h
        exact hi (h ▸ hj)
      refine .inr ⟨j, ?_⟩
      rw [← hj]
      exact Function.update_of_ne hji ..
  released := hI.released

theorem step [DecidableEq ι] {s' : PoolState n ι τ} {l : PoolLabel n ι τ} (hn : 0 < n)
    (hP : PoolInv s) (hI : WakeInv s) (hst : s.step l = some s') : WakeInv s' := by
  cases poolMove_of_step hst with
  | callSubmit hi => exact hI.setSubmitter hi _
  | throw hi _ => exact hI.setSubmitter (by simp [hi]) _
  | @accept i w c hi hstop =>
    refine ⟨fun _ => .inr ⟨i, Function.update_self ..⟩, fun hstop' => ?_⟩
    rw [hstop] at hstop'
    cases hstop'
  | @notifyNone i w hi hw =>
    -- the notification is lost, and nobody waits
    refine ⟨fun htasks => .inl ⟨⟨0, hn⟩, ?_⟩, hI.released⟩
    show (s.pool.workers _).Awake
    rcases h0 : s.pool.workers ⟨0, hn⟩ with _ | _ | task | _
    · trivial
    · exact hw _ h0
    · trivial
    · exact htasks (hP.exited _ h0).2
  | notifyOne _ _ => exact hI.setAwake (by trivial) _ _ _
  | @wait w hw htasks hstop =>
    refine ⟨fun hne => absurd htasks hne, fun hstop' => ?_⟩
    change s.pool.stop = true at hstop'
    rw [hstop] at hstop'
    cases hstop'
  | @exit w hw htasks hstop =>
    refine ⟨fun hne => absurd htasks hne, fun _ v hv => ?_⟩
    by_cases hvw : v = w
    · subst hvw
      simp at hv
    · simp only [ThreadPool.setWorker_of_ne hvw] at hv
      exact hI.released hstop v hv
  | take _ _ => exact hI.setAwake (by trivial) _ _ _
  | finish _ => exact hI.setAwake (by trivial) _ _ _
  | spurious _ => exact hI.setAwake (by trivial) _ _ _
  | stop hd => exact ⟨hI.attended, fun _ _ _ => rfl⟩
  | notifyAll hd =>
    refine ⟨fun htasks => ?_, fun _ v hv => ?_⟩
    · rcases hI.attended htasks with ⟨w, hw⟩ | hnotify
      · refine .inl ⟨w, ?_⟩
        simp only [ThreadPool.notifyAll]
        split
        · trivial
        · exact hw
      · exact .inr hnotify
    · simp only [ThreadPool.notifyAll] at hv
      split at hv
      · cases hv
      · rename_i hwait
        simp [hv, WorkerPc.isWaiting] at hwait
  | join hd _ =>
    refine ⟨hI.attended, fun hstop v hv => ?_⟩
    have hnotify := hI.released hstop v hv
    rw [hd] at hnotify
    cases hnotify
  | joined hd _ =>
    refine ⟨hI.attended, fun hstop v hv => ?_⟩
    have hnotify := hI.released hstop v hv
    rw [hd] at hnotify
    cases hnotify

end WakeInv

theorem wakeInv_init : WakeInv (PoolState.init n ι τ) where
  attended htasks := absurd rfl htasks
  released hstop := by cases hstop

/-- While a task is queued a worker is awake or a notification is to come, and once `stop_` is set a
worker only waits until the destructor's notification. -/
theorem no_wakeup_lost [DecidableEq ι] (hn : 0 < n) {s : PoolState n ι τ}
    (h : (poolSystem n ι τ).Reachable s) :
    (s.pool.tasks ≠ [] →
        (∃ w, (s.pool.workers w).Awake) ∨ ∃ i, s.submitters i = some .notify)
      ∧ (s.pool.stop = true → (∃ w, s.pool.workers w = .waiting) → s.dtor = .notify) := by
  have hI : WakeInv s :=
    h.invariant wakeInv_init fun hs hI _ hst => hI.step hn (poolInv_reachable hs) hst
  exact ⟨hI.attended, fun hstop ⟨w, hw⟩ => hI.released hstop w hw⟩

/-- The worker waits; two tasks are queued before either submit notifies. -/
def twoSubmitsOneWaiter : List (PoolLabel 1 (Fin 2) ℕ) :=
  [.worker 0, .callSubmit 0 7, .callSubmit 1 8, .submit 0 0, .submit 1 0]

theorem no_wakeup_lost_twoSubmitsOneWaiter :
    let s := ((poolSystem 1 (Fin 2) ℕ).run (.init 1 (Fin 2) ℕ) twoSubmitsOneWaiter).get (by decide)
    s.pool.workers 0 = .waiting ∧ s.pool.tasks.length = 2
      ∧ ((∃ w, (s.pool.workers w).Awake) ∨ ∃ i, s.submitters i = some .notify) :=
  have hs := System.reachable_get (M := poolSystem 1 (Fin 2) ℕ) twoSubmitsOneWaiter (by decide)
  ⟨by decide, by decide, (no_wakeup_lost (by decide) hs).1 (by decide)⟩

end RaceConditionZ
