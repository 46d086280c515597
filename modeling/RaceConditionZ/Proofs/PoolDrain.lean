import RaceConditionZ.ThreadPool

/-!
# The pool drains before it is joined

The tasks dequeued and those queued are, one after the other, the tasks accepted. A worker only
returns once `stop_` is set and the queue is empty, and from then on the queue stays empty, since
`submit` throws. So when all workers have been joined, each has finished what it dequeued and
nothing is left.
-/

namespace RaceConditionZ

open Transition

variable {n : ℕ} {ι τ : Type}

section Sections

variable {p : ThreadPool n τ} {w : Fin n}

@[simp]
theorem ThreadPool.setWorker_self (pc : WorkerPc τ) : (p.setWorker w pc).workers w = pc :=
  Function.update_self ..

theorem ThreadPool.setWorker_of_ne {v : Fin n} (hv : v ≠ w) (pc : WorkerPc τ) :
    (p.setWorker w pc).workers v = p.workers v :=
  Function.update_of_ne hv ..

theorem ThreadPool.lockSection_wait (htasks : p.tasks = []) (hstop : p.stop = false) :
    p.lockSection w = p.setWorker w .waiting := by
  simp [lockSection, ready, htasks, hstop]

theorem ThreadPool.lockSection_exit (htasks : p.tasks = []) (hstop : p.stop = true) :
    p.lockSection w = p.setWorker w .returned := by
  simp [lockSection, ready, htasks, hstop]

theorem ThreadPool.lockSection_take {task : PackagedTask τ} {tasks : List (PackagedTask τ)}
    (htasks : p.tasks = task :: tasks) :
    p.lockSection w = { p with tasks := tasks }.setWorker w (.running task) := by
  simp [lockSection, ready, htasks]

theorem WorkerPc.eq_waiting {pc : WorkerPc τ} (h : pc.isWaiting) : pc = .waiting := by
  cases pc with
  | waiting => rfl
  | _ => cases h

end Sections

section Moves

variable [DecidableEq ι]

/-- The steps, one for each control point and outcome. -/
inductive PoolMove (s : PoolState n ι τ) : PoolLabel n ι τ → PoolState n ι τ → Prop
  | callSubmit {i : ι} {c : τ} (hi : s.submitters i ≠ some .notify) :
      PoolMove s (.callSubmit i c)
        { s with submitters := Function.update s.submitters i (some (.lock c)) }
  | throw {i : ι} {w : Fin n} {c : τ} (hi : s.submitters i = some (.lock c))
      (hstop : s.pool.stop = true) :
      PoolMove s (.submit i w) { s with submitters := Function.update s.submitters i (some .threw) }
  | accept {i : ι} {w : Fin n} {c : τ} (hi : s.submitters i = some (.lock c))
      (hstop : s.pool.stop = false) :
      PoolMove s (.submit i w) { s with
        pool := { s.pool with tasks := s.pool.tasks ++ [⟨s.history.accepted.length, c⟩] }
        submitters := Function.update s.submitters i (some .notify)
        history := { s.history with
          accepted := s.history.accepted ++ [⟨s.history.accepted.length, c⟩] } }
  | notifyNone {i : ι} {w : Fin n} (hi : s.submitters i = some .notify)
      (hw : ∀ v, s.pool.workers v ≠ .waiting) :
      PoolMove s (.submit i w)
        { s with submitters := Function.update s.submitters i (some .returned) }
  | notifyOne {i : ι} {w : Fin n} (hi : s.submitters i = some .notify)
      (hw : s.pool.workers w = .waiting) :
      PoolMove s (.submit i w) { s with
        pool := s.pool.setWorker w .lock
        submitters := Function.update s.submitters i (some .returned) }
  | wait {w : Fin n} (hw : s.pool.workers w = .lock) (htasks : s.pool.tasks = [])
      (hstop : s.pool.stop = false) :
      PoolMove s (.worker w) { s with pool := s.pool.setWorker w .waiting }
  | exit {w : Fin n} (hw : s.pool.workers w = .lock) (htasks : s.pool.tasks = [])
      (hstop : s.pool.stop = true) :
      PoolMove s (.worker w) { s with pool := s.pool.setWorker w .returned }
  | take {w : Fin n} {task : PackagedTask τ} {tasks : List (PackagedTask τ)}
      (hw : s.pool.workers w = .lock) (htasks : s.pool.tasks = task :: tasks) :
      PoolMove s (.worker w) { s with
        pool := { s.pool with tasks := tasks }.setWorker w (.running task)
        history := { s.history with dequeued := s.history.dequeued ++ [(w, task)] } }
  | finish {w : Fin n} {task : PackagedTask τ} (hw : s.pool.workers w = .running task) :
      PoolMove s (.worker w) { s with
        pool := s.pool.setWorker w .lock
        history := { s.history with finished := s.history.finished ++ [(w, task)] } }
  | spurious {w : Fin n} (hw : s.pool.workers w = .waiting) :
      PoolMove s (.spurious w) { s with pool := s.pool.setWorker w .lock }
  | stop (hd : s.dtor = .alive) :
      PoolMove s .destroy { s with pool := { s.pool with stop := true }, dtor := .notify }
  | notifyAll (hd : s.dtor = .notify) :
      PoolMove s .destroy { s with pool := s.pool.notifyAll, dtor := .join 0 }
  | join {k : ℕ} {hk : k < n} (hd : s.dtor = .join k) (hw : s.pool.workers ⟨k, hk⟩ = .returned) :
      PoolMove s .destroy { s with dtor := .join (k + 1) }
  | joined {k : ℕ} (hd : s.dtor = .join k) (hk : n ≤ k) :
      PoolMove s .destroy { s with dtor := .returned }

theorem poolMove_of_submit {s s' : PoolState n ι τ} {i : ι} {w : Fin n}
    (hst : s.submit i w = some s') : PoolMove s (.submit i w) s' := by
  unfold PoolState.submit at hst
  rcases hi : s.submitters i with _ | _ | _ | _ | _ <;> simp only [hi, reduceCtorEq] at hst
  · simp only [ThreadPool.submitSection] at hst
    by_cases hstop : s.pool.stop = true
    · rw [if_pos hstop] at hst
      cases hst
      exact .throw hi hstop
    · rw [if_neg hstop] at hst
      cases hst
      exact .accept hi (by simpa using hstop)
  · simp only [Option.map_eq_some_iff, ThreadPool.notifyOne, ThreadPool.wake] at hst
    obtain ⟨pool, hpool, rfl⟩ := hst
    split_ifs at hpool with hany hw
    · cases hpool
      exact .notifyOne hi (WorkerPc.eq_waiting hw)
    · cases hpool
      exact .notifyNone hi fun v hv => hany ⟨v, by rw [hv]; rfl⟩

theorem poolMove_of_worker {s s' : PoolState n ι τ} {w : Fin n} (hst : s.worker w = some s') :
    PoolMove s (.worker w) s' := by
  unfold PoolState.worker at hst
  rcases hw : s.pool.workers w with _ | _ | task | _ <;> simp only [hw, reduceCtorEq] at hst
  · rcases htasks : s.pool.tasks with _ | ⟨task, tasks⟩
    · rcases hstop : s.pool.stop with _ | _
      · simp only [ThreadPool.lockSection_wait htasks hstop, ThreadPool.setWorker_self] at hst
        cases hst
        exact .wait hw htasks hstop
      · simp only [ThreadPool.lockSection_exit htasks hstop, ThreadPool.setWorker_self] at hst
        cases hst
        exact .exit hw htasks hstop
    · simp only [ThreadPool.lockSection_take htasks, ThreadPool.setWorker_self] at hst
      cases hst
      exact .take hw htasks
  · cases hst
    exact .finish hw

theorem poolMove_of_destroy {s s' : PoolState n ι τ} (hst : s.destroy = some s') :
    PoolMove s .destroy s' := by
  unfold PoolState.destroy at hst
  split at hst
  · cases hst
    exact .stop ‹_›
  · cases hst
    exact .notifyAll ‹_›
  · split_ifs at hst with hk
    · split at hst <;> cases hst
      exact .join ‹_› ‹_›
    · cases hst
      exact .joined ‹_› (not_lt.1 hk)
  · cases hst

theorem poolMove_of_step {s s' : PoolState n ι τ} {l : PoolLabel n ι τ} (hst : s.step l = some s') :
    PoolMove s l s' := by
  cases l with
  | callSubmit i c =>
    simp only [PoolState.step] at hst
    split at hst
    · cases hst
    · cases hst
    · cases hst
      exact .callSubmit ‹_›
  | submit i w => exact poolMove_of_submit hst
  | worker w => exact poolMove_of_worker hst
  | spurious w =>
    simp only [PoolState.step, ThreadPool.wake, Option.map_eq_some_iff] at hst
    obtain ⟨pool, hpool, rfl⟩ := hst
    split_ifs at hpool with hw
    cases hpool
    exact .spurious (WorkerPc.eq_waiting hw)
  | destroy => exact poolMove_of_destroy hst

end Moves

/-- What of a log was worker `w`'s, in order. -/
def tasksOf (log : List (Fin n × PackagedTask τ)) (w : Fin n) : List (PackagedTask τ) :=
  (log.filter (·.1 = w)).map Prod.snd

theorem tasksOf_append (log : List (Fin n × PackagedTask τ)) (v w : Fin n)
    (task : PackagedTask τ) :
    tasksOf (log ++ [(v, task)]) w = tasksOf log w ++ if v = w then [task] else [] := by
  by_cases hvw : v = w <;> simp [tasksOf, hvw]

theorem count_tasksOf [DecidableEq τ] (log : List (Fin n × PackagedTask τ)) (w : Fin n)
    (task : PackagedTask τ) : (tasksOf log w).count task = log.count (w, task) := by
  induction log with
  | nil => rfl
  | cons x log ih =>
    obtain ⟨v, t⟩ := x
    rw [List.count_cons, ← ih]
    by_cases hvw : v = w
    · simp [tasksOf, hvw, List.count_cons]
    · simp [tasksOf, hvw]

/-- The task a worker has dequeued and not finished. -/
def WorkerPc.inHand : WorkerPc τ → List (PackagedTask τ)
  | .running task => [task]
  | _ => []

structure PoolInv (s : PoolState n ι τ) : Prop where
  order : s.history.dequeued.map Prod.snd ++ s.pool.tasks = s.history.accepted
  tickets : s.history.accepted.map PackagedTask.ticket = List.range s.history.accepted.length
  own : ∀ w, tasksOf s.history.dequeued w
    = tasksOf s.history.finished w ++ (s.pool.workers w).inHand
  exited : ∀ w, s.pool.workers w = .returned → s.pool.stop = true ∧ s.pool.tasks = []
  joining : ∀ k, s.dtor = .join k → ∀ w, w.1 < k → s.pool.workers w = .returned
  joined : s.dtor = .returned → ∀ w, s.pool.workers w = .returned

theorem ThreadPool.inHand_setWorker {p : ThreadPool n τ} {w : Fin n} {pc : WorkerPc τ}
    (h : pc.inHand = (p.workers w).inHand) (v : Fin n) :
    ((p.setWorker w pc).workers v).inHand = (p.workers v).inHand := by
  by_cases hv : v = w
  · subst hv
    rw [setWorker_self, h]
  · rw [setWorker_of_ne hv]

/-- A worker that has not returned goes on; those that have returned stay so. -/
theorem PoolInv.setWorker {s : PoolState n ι τ} (hI : PoolInv s) {w : Fin n} {pc : WorkerPc τ}
    {finished : List (Fin n × PackagedTask τ)} (hw : s.pool.workers w ≠ .returned)
    (hown : ∀ v, tasksOf s.history.dequeued v
      = tasksOf finished v ++ ((s.pool.setWorker w pc).workers v).inHand)
    (hpc : pc = .returned → s.pool.stop = true ∧ s.pool.tasks = []) :
    PoolInv { s with
      pool := s.pool.setWorker w pc
      history := { s.history with finished := finished } } where
  order := hI.order
  tickets := hI.tickets
  own := hown
  exited v hv := by
    by_cases hvw : v = w
    · subst hvw
      simp only [ThreadPool.setWorker_self] at hv
      exact hpc hv
    · simp only [ThreadPool.setWorker_of_ne hvw] at hv
      exact hI.exited v hv
  joining k hk v hv := by
    have hret := hI.joining k hk v hv
    simp only
    rw [ThreadPool.setWorker_of_ne, hret]
    rintro rfl
    exact hw hret
  joined hd v := absurd (hI.joined hd w) hw

/-- A worker that neither takes nor finishes a task. -/
theorem PoolInv.setIdle {s : PoolState n ι τ} (hI : PoolInv s) {w : Fin n} {pc : WorkerPc τ}
    (hw : s.pool.workers w ≠ .returned) (hhand : pc.inHand = (s.pool.workers w).inHand)
    (hpc : pc = .returned → s.pool.stop = true ∧ s.pool.tasks = []) :
    PoolInv { s with pool := s.pool.setWorker w pc } :=
  hI.setWorker hw (fun v => by rw [hI.own v, ThreadPool.inHand_setWorker hhand]) hpc

theorem PoolInv.step [DecidableEq ι] {s s' : PoolState n ι τ} {l : PoolLabel n ι τ}
    (hI : PoolInv s) (hst : s.step l = some s') : PoolInv s' := by
  cases poolMove_of_step hst with
  | callSubmit | throw | notifyNone => exact { hI with }
  | @accept i w c hi hstop =>
    refine { hI with order := ?_, tickets := ?_, exited := fun v hv => ?_ }
    · simp only [← List.append_assoc, hI.order]
    · simp only [List.map_append, hI.tickets, List.length_append, List.length_singleton,
        List.range_succ, List.map_cons, List.map_nil]
    · rw [(hI.exited v hv).1] at hstop
      cases hstop
  | @notifyOne i w hi hw =>
    have hI' : PoolInv { s with pool := s.pool.setWorker w .lock } :=
      hI.setIdle (by simp [hw]) (by simp [hw, WorkerPc.inHand]) (by simp)
    exact { hI' with }
  | @spurious w hw =>
    exact hI.setIdle (by simp [hw]) (by simp [hw, WorkerPc.inHand]) (by simp)
  | @wait w hw htasks hstop =>
    exact hI.setIdle (by simp [hw]) (by simp [hw, WorkerPc.inHand]) (by simp)
  | @exit w hw htasks hstop =>
    exact hI.setIdle (by simp [hw]) (by simp [hw, WorkerPc.inHand]) fun _ => ⟨hstop, htasks⟩
  | @take w task tasks hw htasks =>
    have hopen : ∀ v, s.pool.workers v ≠ .returned := by
      intro v hv
      rw [(hI.exited v hv).2] at htasks
      cases htasks
    refine ⟨?_, hI.tickets, fun v => ?_, fun v hv => ?_, fun k hk v hv => ?_, fun hd => ?_⟩
    · rw [← hI.order, htasks]
      simp [ThreadPool.setWorker]
    · simp only [tasksOf_append, hI.own v]
      by_cases hvw : v = w
      · subst hvw
        simp [hw, WorkerPc.inHand]
      · rw [if_neg (Ne.symm hvw), ThreadPool.setWorker_of_ne hvw, List.append_nil]
    · by_cases hvw : v = w
      · subst hvw
        simp at hv
      · simp only [ThreadPool.setWorker_of_ne hvw] at hv
        exact absurd hv (hopen v)
    · exact absurd (hI.joining k hk v hv) (hopen v)
    · exact absurd (hI.joined hd w) (hopen w)
  | @finish w task hw =>
    refine hI.setWorker (by simp [hw]) (fun v => ?_) (by simp)
    simp only [tasksOf_append, hI.own v]
    by_cases hvw : v = w
    · subst hvw
      simp [hw, WorkerPc.inHand]
    · rw [if_neg (Ne.symm hvw), ThreadPool.setWorker_of_ne hvw, List.append_nil]
  | stop hd =>
    refine { hI with exited := fun v hv => ⟨rfl, (hI.exited v hv).2⟩, joining := ?_, joined := ?_ }
    · simp
    · simp
  | notifyAll hd =>
    have hwake : ∀ v, (s.pool.notifyAll.workers v).inHand = (s.pool.workers v).inHand
        ∧ (s.pool.notifyAll.workers v = .returned → s.pool.workers v = .returned) := by
      intro v
      simp only [ThreadPool.notifyAll]
      split_ifs with hv
      · rw [WorkerPc.eq_waiting hv]
        exact ⟨rfl, by simp⟩
      · exact ⟨rfl, id⟩
    refine ⟨hI.order, hI.tickets, fun v => ?_, fun v hv => hI.exited v ((hwake v).2 hv), ?_, ?_⟩
    · rw [hI.own v, (hwake v).1]
    · simp
    · simp
  | @join k hk hd hw =>
    refine { hI with joining := fun j hj v hv => ?_, joined := by simp }
    simp only [PoolDtorPc.join.injEq] at hj
    rcases (Nat.lt_succ_iff.1 (hj ▸ hv)).lt_or_eq with hlt | he
    · exact hI.joining k hd v hlt
    · obtain rfl : v = ⟨k, hk⟩ := Fin.ext he
      exact hw
  | @joined k hd hk =>
    refine { hI with joining := by simp, joined := fun _ v => ?_ }
    exact hI.joining k hd v (v.2.trans_le hk)

theorem poolInv_init : PoolInv (PoolState.init n ι τ) where
  order := rfl
  tickets := rfl
  own _ := rfl
  exited := by simp [PoolState.init, ThreadPool.start]
  joining := by simp [PoolState.init]
  joined := by simp [PoolState.init]

theorem poolInv_reachable [DecidableEq ι] {s : PoolState n ι τ}
    (h : (poolSystem n ι τ).Reachable s) : PoolInv s :=
  h.invariant poolInv_init fun _ hI _ hst => hI.step hst

section Drain

variable {s : PoolState n ι τ}

/-- The tasks are told apart by their tickets, so none is dequeued twice. -/
theorem PoolInv.nodup_tickets (hI : PoolInv s) :
    (s.history.dequeued.map fun x => x.2.ticket).Nodup := by
  have hnodup : (s.history.accepted.map PackagedTask.ticket).Nodup := by
    rw [hI.tickets]
    exact List.nodup_range
  rw [← hI.order, List.map_append, List.map_map] at hnodup
  exact (List.nodup_append.1 hnodup).1

/-- With no task in hand, what was dequeued is what was finished. -/
theorem PoolInv.finished_perm (hI : PoolInv s) (hidle : ∀ w, (s.pool.workers w).inHand = []) :
    s.history.finished.Perm s.history.dequeued := by
  classical
  rw [List.perm_iff_count]
  rintro ⟨w, task⟩
  rw [← count_tasksOf, ← count_tasksOf, hI.own w, hidle w, List.append_nil]

/-- A `submit` throws because `stop_` is set, and then changes nothing of the pool, or its task is
accepted behind the others. -/
theorem submit_throws_or_accepts [DecidableEq ι] {s' : PoolState n ι τ} {i : ι} {w : Fin n} {c : τ}
    (hi : s.submitters i = some (.lock c)) (hst : s.step (.submit i w) = some s') :
    (s.pool.stop = true ∧ s'.submitters i = some .threw ∧ s'.pool = s.pool
        ∧ s'.history = s.history)
      ∨ s.pool.stop = false ∧ s'.submitters i = some .notify
        ∧ s'.pool.tasks = s.pool.tasks ++ [⟨s.history.accepted.length, c⟩]
        ∧ s'.history.accepted = s.history.accepted ++ [⟨s.history.accepted.length, c⟩] := by
  cases poolMove_of_step hst with
  | throw hi' hstop => exact .inl ⟨hstop, Function.update_self .., rfl, rfl⟩
  | accept hi' hstop =>
    cases hi.symm.trans hi'
    exact .inr ⟨hstop, Function.update_self .., rfl, rfl⟩
  | notifyNone hi' => cases hi.symm.trans hi'
  | notifyOne hi' => cases hi.symm.trans hi'

end Drain

/-- What a user of the pool can rely on, in every state of every interleaving. -/
theorem pool_drains [DecidableEq ι] (hn : 0 < n) {s : PoolState n ι τ}
    (h : (poolSystem n ι τ).Reachable s) :
    (∀ i w c s', s.submitters i = some (.lock c) → s.step (.submit i w) = some s' →
      (s.pool.stop = true ∧ s'.submitters i = some .threw ∧ s'.pool = s.pool
          ∧ s'.history = s.history)
        ∨ s.pool.stop = false ∧ s'.submitters i = some .notify
          ∧ s'.pool.tasks = s.pool.tasks ++ [⟨s.history.accepted.length, c⟩]
          ∧ s'.history.accepted = s.history.accepted ++ [⟨s.history.accepted.length, c⟩])
      ∧ s.history.dequeued.map Prod.snd ++ s.pool.tasks = s.history.accepted
      ∧ (s.history.dequeued.map fun x => x.2.ticket).Nodup
      ∧ (∀ w, tasksOf s.history.dequeued w
        = tasksOf s.history.finished w ++ (s.pool.workers w).inHand)
      ∧ (s.dtor = .returned → s.pool.tasks = []
        ∧ (s.history.finished.map Prod.snd).Perm s.history.accepted
        ∧ (s.history.finished.map fun x => x.2.ticket).Nodup) := by
  have hI := poolInv_reachable h
  refine ⟨fun i w c s' hi hst => submit_throws_or_accepts hi hst, hI.order, hI.nodup_tickets,
    hI.own, fun hd => ?_⟩
  have hret := hI.joined hd
  have htasks := (hI.exited ⟨0, hn⟩ (hret _)).2
  have hperm := hI.finished_perm fun w => by rw [hret w]; rfl
  refine ⟨htasks, ?_, (hperm.map _).nodup_iff.2 hI.nodup_tickets⟩
  rw [← hI.order, htasks, List.append_nil]
  exact hperm.map _

/-- Two submits and the destructor between them; the worker finishes the first task late. -/
def submitStopSubmit : List (PoolLabel 1 (Fin 2) ℕ) :=
  [.worker 0, .callSubmit 0 7, .callSubmit 1 8, .submit 0 0, .submit 0 0, .worker 0, .destroy,
    .submit 1 0, .destroy, .worker 0, .worker 0, .destroy, .destroy]

theorem pool_drains_submitStopSubmit :
    let s := ((poolSystem 1 (Fin 2) ℕ).run (.init 1 (Fin 2) ℕ) submitStopSubmit).get (by decide)
    (s.history.finished.map Prod.snd).Perm [⟨0, 7⟩] :=
  have hs := System.reachable_get (M := poolSystem 1 (Fin 2) ℕ) submitStopSubmit (by decide)
  ((pool_drains (by decide) hs).2.2.2.2 (by decide)).2.1

end RaceConditionZ
