import RaceConditionZ.Proofs.LapAccounting
import RaceConditionZ.Proofs.RaceControlMoves

/-!
# One job of a kind at a time

A job that is queued or running is the one behind the callback's future of its kind, or the one
being submitted, and its future is not ready. The callback submits only where there is no future or
a ready one, so before each submission no job of that kind is left; and two jobs behind one future
would have one ticket.
-/

namespace RaceConditionZ

open Transition

@[simp]
theorem TelemetryGenerator.job_kind (g : TelemetryGenerator) (kind : JobKind) :
    (g.job kind).kind = kind := by
  rcases kind with _ | _ <;> rfl

namespace RaceControlState

variable (s : RaceControlState)

/-- The task whose function worker `w` is in. -/
def executing (w : Fin 2) : Option (PackagedTask Job) :=
  match s.pool.pool.workers w with
  | .running task => if s.jobs w = .ready then none else some task
  | _ => none

/-- The tasks queued and those running. -/
def inFlight : List (PackagedTask Job) :=
  s.pool.pool.tasks ++ (List.finRange 2).filterMap s.executing

/-- The ticket of the latest task of a kind; none while it is being submitted. -/
def current (kind : JobKind) : Option ℕ :=
  if s.pc = .submit kind then
    match s.pool.submitters () with
    | some (.lock _) => none
    | _ => some (s.pool.history.accepted.length - 1)
  else s.futures kind

variable {s} {s' : RaceControlState}

theorem executing_eq_some {w : Fin 2} {task : PackagedTask Job} :
    s.executing w = some task ↔ s.pool.pool.workers w = .running task ∧ s.jobs w ≠ .ready := by
  unfold executing
  rcases s.pool.pool.workers w with _ | _ | t | _
  · simp
  · simp
  · by_cases hready : s.jobs w = .ready <;> simp [hready]
  · simp

theorem mem_inFlight {task : PackagedTask Job} :
    task ∈ s.inFlight ↔ task ∈ s.pool.pool.tasks ∨ ∃ w, s.executing w = some task := by
  unfold inFlight
  simp only [List.mem_append, List.mem_filterMap, List.mem_finRange, true_and]

theorem current_of_submit {kind : JobKind} (hpc : s.pc = .submit kind)
    (hlock : ∀ c, s.pool.submitters () ≠ some (.lock c)) :
    s.current kind = some (s.pool.history.accepted.length - 1) := by
  unfold current
  rw [if_pos hpc]
  split
  · exact absurd ‹_› (hlock _)
  · rfl

theorem current_of_ne {kind : JobKind} (hpc : s.pc ≠ .submit kind) :
    s.current kind = s.futures kind := if_neg hpc

variable (s) in
/-- Where the callback, the main thread and the pool are with each other. -/
structure Wired : Prop where
  submitting : ∀ kind, s.pc = .submit kind →
    (∃ c, s.pool.submitters () = some (.lock c) ∧ c.kind = kind)
      ∨ s.pool.history.accepted ≠ []
        ∧ (s.pool.submitters () = some .notify ∨ s.pool.submitters () = some .returned)
  quiet : (∀ kind, s.pc ≠ .submit kind) →
    s.pool.submitters () = none ∨ s.pool.submitters () = some .returned
  closing : s.pool.pool.stop = true → s.pc = .returned
  past : (∃ rest, s.main = .print rest) ∨ s.main = .destroy → s.pc = .returned

/-- A step that leaves the pool alone and is not about a submission. -/
theorem Wired.of_quiet (h : s.Wired) (hpool : s'.pool = s.pool)
    (hpc : s'.pc = s.pc
      ∨ (∀ k, s.pc ≠ .submit k) ∧ (∀ k, s'.pc ≠ .submit k) ∧ s.pc ≠ .returned)
    (hmain : s'.main = s.main ∨ s.pc = .returned ∧ s'.pc = s.pc ∨ s'.main = .joining) :
    s'.Wired := by
  refine ⟨fun kind hk => ?_, fun hk => ?_, fun hstop => ?_, fun hpast => ?_⟩
  · rw [hpool]
    rcases hpc with hpc | ⟨-, hpc, -⟩
    · exact h.submitting kind (hpc.symm.trans hk)
    · exact absurd hk (hpc kind)
  · rw [hpool]
    rcases hpc with hpc | ⟨hpc, -⟩
    · exact h.quiet fun k => hpc ▸ hk k
    · exact h.quiet hpc
  · rw [hpool] at hstop
    have hret := h.closing hstop
    rcases hpc with hpc | ⟨-, -, hpc⟩
    · exact hpc.trans hret
    · exact absurd hret hpc
  · rcases hmain with hmain | ⟨hret, hpc⟩ | hmain
    · rw [hmain] at hpast
      have hret := h.past hpast
      rcases hpc with hpc | ⟨-, -, hpc⟩
      · exact hpc.trans hret
      · exact absurd hret hpc
    · exact hpc.trans hret
    · rw [hmain] at hpast
      simp at hpast

/-- A step of the pool other than its destructor and its submitter. -/
theorem Wired.of_pool (h : s.Wired) (hpc : s'.pc = s.pc) (hmain : s'.main = s.main)
    (hsubmitters : s'.pool.submitters () = s.pool.submitters ())
    (haccepted : s'.pool.history.accepted = s.pool.history.accepted)
    (hstop : s'.pool.pool.stop = true → s.pool.pool.stop = true ∨ s.pc = .returned) :
    s'.Wired := by
  refine ⟨?_, ?_, fun hs => ?_, ?_⟩
  · rw [hpc, hsubmitters, haccepted]
    exact h.submitting
  · rw [hpc, hsubmitters]
    exact h.quiet
  · rw [hpc]
    exact (hstop hs).elim h.closing id
  · rw [hpc, hmain]
    exact h.past

/-- A step of a worker. -/
theorem pool_of_worker {p p' : PoolState 2 Unit Job} {w : Fin 2}
    (hst : p.step (.worker w) = some p' ∨ p.step (.spurious w) = some p') :
    p'.submitters = p.submitters ∧ p'.history.accepted = p.history.accepted
      ∧ p'.pool.stop = p.pool.stop := by
  rcases hst with hst | hst <;> rcases poolMove_of_step hst with _ | _ <;> exact ⟨rfl, rfl, rfl⟩

theorem Wired.of_submit {kind : JobKind} {w : Fin 2} {pool : PoolState 2 Unit Job} (h : s.Wired)
    (hpc : s.pc = .submit kind) (hst : s.pool.step (.submit () w) = some pool) :
    Wired { s with pool := pool } := by
  have hopen : s.pool.pool.stop ≠ true := by
    intro hstop
    have hret := h.closing hstop
    rw [hpc] at hret
    cases hret
  have hpast : ¬ ((∃ rest, s.main = .print rest) ∨ s.main = .destroy) := by
    intro hmain
    have hret := h.past hmain
    rw [hpc] at hret
    cases hret
  have hsubmitting := h.submitting kind hpc
  cases poolMove_of_step hst with
  | throw _ hstop => exact absurd hstop hopen
  | accept _ hstop =>
    refine ⟨fun k hk => ?_, fun hk => absurd hpc (hk kind), fun hs => absurd hs hopen,
      fun hmain => absurd hmain hpast⟩
    exact .inr ⟨by simp, .inl (Function.update_self () _ s.pool.submitters)⟩
  | notifyNone hi =>
    refine ⟨fun k hk => ?_, fun hk => absurd hpc (hk kind), fun hs => absurd hs hopen,
      fun hmain => absurd hmain hpast⟩
    rcases hsubmitting with ⟨c, hc, -⟩ | ⟨haccepted, -⟩
    · rw [hi] at hc
      cases hc
    · exact .inr ⟨haccepted, .inr (Function.update_self () _ s.pool.submitters)⟩
  | notifyOne hi =>
    refine ⟨fun k hk => ?_, fun hk => absurd hpc (hk kind), fun hs => absurd hs hopen,
      fun hmain => absurd hmain hpast⟩
    rcases hsubmitting with ⟨c, hc, -⟩ | ⟨haccepted, -⟩
    · rw [hi] at hc
      cases hc
    · exact .inr ⟨haccepted, .inr (Function.update_self () _ s.pool.submitters)⟩

theorem Wired.step {l : RaceControlLabel} (h : s.Wired) (hst : s.step l = some s') :
    s'.Wired := by
  cases move_of_step hst with
  | leave hpc => exact h.of_quiet rfl (.inr ⟨by simp [hpc], by simp, by simp [hpc]⟩) (.inl rfl)
  | tick hpc => exact h.of_quiet rfl (.inr ⟨by simp [hpc], by simp, by simp [hpc]⟩) (.inl rfl)
  | @skip _ kind hpc =>
    exact h.of_quiet rfl (.inr ⟨by simp [hpc], kind.after_ne_submit, by simp [hpc]⟩) (.inl rfl)
  | @callSubmit _ kind _ hpc _ hpool =>
    cases poolMove_of_step hpool with
    | callSubmit _ =>
      refine ⟨fun k hk => ?_, fun hk => absurd rfl (hk kind), fun hs => ?_, fun hmain => ?_⟩
      · cases hk
        exact .inl ⟨_, Function.update_self () _ s.pool.submitters, TelemetryGenerator.job_kind _ _⟩
      · have hret := h.closing hs
        rw [hpc] at hret
        cases hret
      · have hret := h.past hmain
        rw [hpc] at hret
        cases hret
  | submit hpc hpool => exact h.of_submit hpc hpool
  | @assign _ kind hpc hret =>
    refine ⟨fun k hk => absurd hk (kind.after_ne_submit k), fun _ => .inr hret, fun hs => ?_,
      fun hmain => ?_⟩
    · have hreturned := h.closing hs
      rw [hpc] at hreturned
      cases hreturned
    · have hreturned := h.past hmain
      rw [hpc] at hreturned
      cases hreturned
  | callProcess hpc =>
    exact h.of_quiet rfl (.inr ⟨by simp [hpc], by simp, by simp [hpc]⟩) (.inl rfl)
  | enforce => exact h.of_quiet rfl (.inl rfl) (.inl rfl)
  | back hpc => exact h.of_quiet rfl (.inr ⟨by simp [hpc], by simp, by simp [hpc]⟩) (.inl rfl)
  | detect => exact h.of_quiet rfl (.inl rfl) (.inl rfl)
  | job => exact h.of_quiet rfl (.inl rfl) (.inl rfl)
  | makeReady => exact h.of_quiet rfl (.inl rfl) (.inl rfl)
  | finish _ _ hpool =>
    obtain ⟨hsubmitters, haccepted, hstop⟩ := pool_of_worker (.inl hpool)
    exact h.of_pool rfl rfl (congrFun hsubmitters ()) haccepted fun hs => .inl (hstop ▸ hs)
  | lock _ hpool =>
    obtain ⟨hsubmitters, haccepted, hstop⟩ := pool_of_worker (.inl hpool)
    exact h.of_pool rfl rfl (congrFun hsubmitters ()) haccepted fun hs => .inl (hstop ▸ hs)
  | spurious hpool =>
    obtain ⟨hsubmitters, haccepted, hstop⟩ := pool_of_worker (.inr hpool)
    exact h.of_pool rfl rfl (congrFun hsubmitters ()) haccepted fun hs => .inl (hstop ▸ hs)
  | stop => exact h.of_quiet rfl (.inl rfl) (.inr (.inr rfl))
  | join _ hpc => exact h.of_quiet rfl (.inl rfl) (.inr (.inl ⟨hpc, rfl⟩))
  | @print d rest hmain =>
    exact h.of_quiet rfl (.inl rfl) (.inr (.inl ⟨h.past (.inl ⟨_, hmain⟩), rfl⟩))
  | printed hmain =>
    exact h.of_quiet rfl (.inl rfl) (.inr (.inl ⟨h.past (.inl ⟨_, hmain⟩), rfl⟩))
  | destroy hmain hpool =>
    have hret := h.past (.inr hmain)
    cases poolMove_of_step hpool <;> exact h.of_pool rfl rfl rfl rfl fun _ => .inr hret

variable (s) in
/-- A job in flight is the one its kind's future stands for, and the future is not ready. -/
structure Flight : Prop where
  latest : ∀ task ∈ s.inFlight,
    s.current task.callable.kind = some task.ticket ∧ task.ticket ∉ s.ready
  ready_lt : ∀ ticket ∈ s.ready, ticket < s.pool.history.accepted.length

theorem inFlight_subset (htasks : s'.pool.pool.tasks = s.pool.pool.tasks)
    (hexecuting : ∀ w task, s'.pool.pool.workers w = .running task → s'.jobs w ≠ .ready →
      s.pool.pool.workers w = .running task ∧ s.jobs w ≠ .ready) :
    ∀ task ∈ s'.inFlight, task ∈ s.inFlight := by
  intro task htask
  rw [mem_inFlight] at htask ⊢
  rcases htask with hqueued | ⟨w, hw⟩
  · rw [htasks] at hqueued
    exact .inl hqueued
  · rw [executing_eq_some] at hw
    exact .inr ⟨w, executing_eq_some.2 (hexecuting w task hw.1 hw.2)⟩

theorem current_congr (hpc : s'.pc = s.pc ∨ (∀ k, s.pc ≠ .submit k) ∧ ∀ k, s'.pc ≠ .submit k)
    (hsubmitters : s'.pool.submitters () = s.pool.submitters ())
    (haccepted : s'.pool.history.accepted = s.pool.history.accepted)
    (hfutures : s'.futures = s.futures) (kind : JobKind) : s'.current kind = s.current kind := by
  rcases hpc with hpc | ⟨hpc, hpc'⟩
  · unfold current
    rw [hpc, hsubmitters, haccepted, hfutures]
  · rw [current_of_ne (hpc kind), current_of_ne (hpc' kind), hfutures]

theorem Flight.of_subset (h : s.Flight) (hflight : ∀ task ∈ s'.inFlight, task ∈ s.inFlight)
    (hcurrent : ∀ kind, s'.current kind = s.current kind) (hready : s'.ready = s.ready)
    (haccepted : s'.pool.history.accepted = s.pool.history.accepted) : s'.Flight := by
  refine ⟨fun task htask => ?_, ?_⟩
  · rw [hcurrent, hready]
    exact h.latest task (hflight task htask)
  · rw [hready, haccepted]
    exact h.ready_lt

/-- A step that leaves the pool and the futures alone, and starts no job. -/
theorem Flight.of_quiet (h : s.Flight) (hpool : s'.pool = s.pool)
    (hpc : s'.pc = s.pc ∨ (∀ k, s.pc ≠ .submit k) ∧ ∀ k, s'.pc ≠ .submit k)
    (hfutures : s'.futures = s.futures) (hready : s'.ready = s.ready)
    (hjobs : ∀ w, s'.jobs w ≠ .ready → s.jobs w ≠ .ready) : s'.Flight := by
  refine h.of_subset (inFlight_subset ?_ fun w task hw hjob => ?_) ?_ hready ?_
  · rw [hpool]
  · rw [hpool] at hw
    exact ⟨hw, hjobs w hjob⟩
  · exact current_congr hpc (by rw [hpool]) (by rw [hpool]) hfutures
  · rw [hpool]

/-- No job of a kind is in flight where its future is invalid or ready. -/
theorem Flight.none_of_idle (h : s.Flight) {kind : JobKind} (hpc : s.pc ≠ .submit kind)
    (hidle : s.idle kind = true) {task : PackagedTask Job} (htask : task ∈ s.inFlight) :
    task.callable.kind ≠ kind := by
  intro hkind
  obtain ⟨hcurrent, hready⟩ := h.latest task htask
  rw [hkind, current_of_ne hpc] at hcurrent
  unfold idle at hidle
  rw [hcurrent] at hidle
  exact hready (by simpa using hidle)

/-- The section of `submit` that queues the task. -/
theorem Flight.accept (h : s.Flight) (hwired : s.Wired) {kind : JobKind} {c : Job}
    (hpc : s.pc = .submit kind) (hlock : s.pool.submitters () = some (.lock c))
    (hworkers : s'.pool.pool.workers = s.pool.pool.workers) (hjobs : s'.jobs = s.jobs)
    (htasks : s'.pool.pool.tasks = s.pool.pool.tasks ++ [⟨s.pool.history.accepted.length, c⟩])
    (hpc' : s'.pc = s.pc) (hnotify : s'.pool.submitters () = some .notify)
    (haccepted : s'.pool.history.accepted
      = s.pool.history.accepted ++ [⟨s.pool.history.accepted.length, c⟩])
    (hfutures : s'.futures = s.futures) (hready : s'.ready = s.ready) : s'.Flight := by
  have hkind : c.kind = kind := by
    rcases hwired.submitting kind hpc with ⟨c', hc', hkind⟩ | ⟨-, hother⟩
    · rw [hlock] at hc'
      cases hc'
      exact hkind
    · rw [hlock] at hother
      rcases hother with hother | hother <;> cases hother
  have hnone : s.current kind = none := by
    unfold RaceControlState.current
    rw [if_pos hpc, hlock]
  refine ⟨fun task htask => ?_, fun ticket hticket => ?_⟩
  · have hsplit : task ∈ s.inFlight ∨ task = ⟨s.pool.history.accepted.length, c⟩ := by
      rw [mem_inFlight, htasks] at htask
      rw [mem_inFlight]
      rcases htask with hqueued | ⟨w, hw⟩
      · rcases List.mem_append.1 hqueued with hqueued | hnew
        · exact .inl (.inl hqueued)
        · exact .inr (List.mem_singleton.1 hnew)
      · rw [executing_eq_some, hworkers, hjobs, ← executing_eq_some] at hw
        exact .inl (.inr ⟨w, hw⟩)
    rw [hready]
    rcases hsplit with hold | hnew
    · obtain ⟨hcurrent, hnot⟩ := h.latest task hold
      refine ⟨?_, hnot⟩
      have hne : s.pc ≠ .submit task.callable.kind := by
        intro he
        rw [hpc] at he
        cases he
        rw [hnone] at hcurrent
        cases hcurrent
      rw [current_of_ne (hpc' ▸ hne), hfutures, ← current_of_ne hne]
      exact hcurrent
    · rw [hnew, hkind]
      refine ⟨?_, fun hmem => lt_irrefl _ (h.ready_lt _ hmem)⟩
      rw [current_of_submit (hpc'.trans hpc) fun c' hc' => by simp [hnotify] at hc', haccepted]
      simp
  · rw [hready] at hticket
    have hlt := h.ready_lt ticket hticket
    rw [haccepted, List.length_append, List.length_singleton]
    omega

theorem mem_dequeued (hpool : PoolInv s.pool) {w : Fin 2} {task : PackagedTask Job}
    (hw : s.pool.pool.workers w = .running task) : (w, task) ∈ s.pool.history.dequeued := by
  have hmem : task ∈ tasksOf s.pool.history.dequeued w := by
    rw [hpool.own w, hw]
    exact List.mem_append_right _ List.mem_cons_self
  obtain ⟨⟨v, t⟩, hv, ht⟩ := List.mem_map.1 hmem
  obtain ⟨hdequeued, hvw⟩ := List.mem_filter.1 hv
  obtain rfl : v = w := by simpa using hvw
  obtain rfl : t = task := ht
  exact hdequeued

/-- No task queued, and none that another worker runs, has the ticket of one that runs. -/
theorem ticket_ne (hpool : PoolInv s.pool) {w : Fin 2} {task task' : PackagedTask Job}
    (hw : s.pool.pool.workers w = .running task)
    (h : task' ∈ s.pool.pool.tasks ∨ ∃ v, v ≠ w ∧ s.pool.pool.workers v = .running task') :
    task'.ticket ≠ task.ticket := by
  intro he
  have hdequeued := mem_dequeued hpool hw
  rcases h with hqueued | ⟨v, hvw, hv⟩
  · have hnodup : (s.pool.history.accepted.map PackagedTask.ticket).Nodup := by
      rw [hpool.tickets]
      exact List.nodup_range
    rw [← hpool.order, List.map_append, List.nodup_append] at hnodup
    refine hnodup.2.2 task.ticket ?_ task'.ticket (List.mem_map_of_mem hqueued) he.symm
    exact List.mem_map_of_mem (List.mem_map.2 ⟨_, hdequeued, rfl⟩)
  · have hsame := List.inj_on_of_nodup_map hpool.nodup_tickets (mem_dequeued hpool hv) hdequeued he
    exact hvw (congrArg Prod.fst hsame)

theorem ticket_lt (hpool : PoolInv s.pool) {w : Fin 2} {task : PackagedTask Job}
    (hw : s.pool.pool.workers w = .running task) :
    task.ticket < s.pool.history.accepted.length := by
  have hmem : task.ticket ∈ s.pool.history.accepted.map PackagedTask.ticket := by
    rw [← hpool.order]
    refine List.mem_map_of_mem (List.mem_append_left _ ?_)
    exact List.mem_map.2 ⟨_, mem_dequeued hpool hw, rfl⟩
  rw [hpool.tickets] at hmem
  exact List.mem_range.1 hmem

/-- A worker that comes to hold no task. -/
theorem running_setWorker {p : ThreadPool 2 Job} {w v : Fin 2} {pc : WorkerPc Job}
    {task : PackagedTask Job} (hpc : ∀ t, pc ≠ .running t)
    (h : (p.setWorker w pc).workers v = .running task) : p.workers v = .running task := by
  by_cases hv : v = w
  · rw [hv, ThreadPool.setWorker_self] at h
    exact absurd h (hpc task)
  · rwa [ThreadPool.setWorker_of_ne hv] at h

/-- A step of the pool in which no worker takes a task. -/
theorem Flight.of_idle (h : s.Flight) (hpc : s'.pc = s.pc) (hjobs : s'.jobs = s.jobs)
    (hfutures : s'.futures = s.futures) (hready : s'.ready = s.ready)
    (hsubmitters : s'.pool.submitters () = s.pool.submitters ())
    (haccepted : s'.pool.history.accepted = s.pool.history.accepted)
    (htasks : s'.pool.pool.tasks = s.pool.pool.tasks)
    (hworkers : ∀ v task, s'.pool.pool.workers v = .running task →
      s.pool.pool.workers v = .running task) : s'.Flight := by
  refine h.of_subset (inFlight_subset htasks fun v task hv hjob => ?_)
    (current_congr (.inl hpc) hsubmitters haccepted hfutures) hready haccepted
  rw [hjobs] at hjob
  exact ⟨hworkers v task hv, hjob⟩

/-- The notification of `submit`. -/
theorem Flight.notify (h : s.Flight) {kind : JobKind} (hpc : s.pc = .submit kind)
    (hpc' : s'.pc = s.pc) (hjobs : s'.jobs = s.jobs) (hfutures : s'.futures = s.futures)
    (hready : s'.ready = s.ready) (hnotify : s.pool.submitters () = some .notify)
    (hreturned : s'.pool.submitters () = some .returned)
    (haccepted : s'.pool.history.accepted = s.pool.history.accepted)
    (htasks : s'.pool.pool.tasks = s.pool.pool.tasks)
    (hworkers : ∀ v task, s'.pool.pool.workers v = .running task →
      s.pool.pool.workers v = .running task) : s'.Flight := by
  refine h.of_subset (inFlight_subset htasks fun v task hv hjob => ?_) (fun k => ?_) hready
    haccepted
  · rw [hjobs] at hjob
    exact ⟨hworkers v task hv, hjob⟩
  · by_cases hk : k = kind
    · subst hk
      rw [current_of_submit hpc fun c hc => by simp [hnotify] at hc,
        current_of_submit (hpc'.trans hpc) fun c hc => by simp [hreturned] at hc, haccepted]
    · have hne : s.pc ≠ .submit k := by
        rw [hpc]
        intro he
        cases he
        exact hk rfl
      rw [current_of_ne hne, current_of_ne (hpc' ▸ hne), hfutures]

theorem Flight.of_submit (h : s.Flight) (hwired : s.Wired) {kind : JobKind} {w : Fin 2}
    {pool : PoolState 2 Unit Job} (hpc : s.pc = .submit kind)
    (hst : s.pool.step (.submit () w) = some pool) : Flight { s with pool := pool } := by
  cases poolMove_of_step hst with
  | throw _ hstop =>
    have hret := hwired.closing hstop
    rw [hpc] at hret
    cases hret
  | accept hi _ =>
    exact h.accept hwired hpc hi rfl rfl rfl rfl (Function.update_self () _ s.pool.submitters) rfl
      rfl rfl
  | notifyNone hi =>
    exact h.notify hpc rfl rfl rfl rfl hi (Function.update_self () _ s.pool.submitters) rfl rfl
      fun _ _ hv => hv
  | notifyOne hi =>
    exact h.notify hpc rfl rfl rfl rfl hi (Function.update_self () _ s.pool.submitters) rfl rfl
      fun _ _ hv => running_setWorker (by simp) hv

/-- The section of `worker_loop`. -/
theorem Flight.lock (h : s.Flight) {w : Fin 2} {pool : PoolState 2 Unit Job} {jobs : Fin 2 → JobPc}
    (hw : ∀ task, s.pool.pool.workers w ≠ .running task)
    (hst : s.pool.step (.worker w) = some pool)
    (hjobs : (∃ task, pool.pool.workers w = .running task
        ∧ jobs = Function.update s.jobs w task.callable.start)
      ∨ (∀ task, pool.pool.workers w ≠ .running task) ∧ jobs = s.jobs) :
    Flight { s with pool := pool, jobs := jobs } := by
  cases poolMove_of_step hst with
  | wait =>
    rcases hjobs with ⟨task, htask, -⟩ | ⟨-, rfl⟩
    · simp at htask
    · exact h.of_idle rfl rfl rfl rfl rfl rfl rfl fun _ _ hv => running_setWorker (by simp) hv
  | exit =>
    rcases hjobs with ⟨task, htask, -⟩ | ⟨-, rfl⟩
    · simp at htask
    · exact h.of_idle rfl rfl rfl rfl rfl rfl rfl fun _ _ hv => running_setWorker (by simp) hv
  | finish hrunning => exact absurd hrunning (hw _)
  | @take _ task tasks _ htasks =>
    obtain rfl : jobs = Function.update s.jobs w task.callable.start := by
      rcases hjobs with ⟨task', htask', hjobs⟩ | ⟨hnone, -⟩
      · simp only [ThreadPool.setWorker_self, WorkerPc.running.injEq] at htask'
        rw [hjobs, htask']
      · exact absurd (ThreadPool.setWorker_self _) (hnone task)
    refine h.of_subset (fun t ht => ?_) (current_congr (.inl rfl) rfl rfl rfl) rfl rfl
    rw [mem_inFlight] at ht ⊢
    rw [htasks]
    rcases ht with hqueued | ⟨v, hv⟩
    · exact .inl (List.mem_cons_of_mem _ hqueued)
    · rw [executing_eq_some] at hv
      obtain ⟨hv, hjob⟩ := hv
      by_cases hvw : v = w
      · subst hvw
        simp only [ThreadPool.setWorker_self, WorkerPc.running.injEq] at hv
        rw [← hv]
        exact .inl List.mem_cons_self
      · simp only [ThreadPool.setWorker_of_ne hvw] at hv
        simp only [Function.update_of_ne hvw] at hjob
        exact .inr ⟨v, executing_eq_some.2 ⟨hv, hjob⟩⟩

/-- A future becomes ready: its job is no longer in flight, and no other has its ticket. -/
theorem Flight.makeReady (h : s.Flight) (hpool : PoolInv s.pool) {w : Fin 2}
    {task : PackagedTask Job} (hw : s.pool.pool.workers w = .running task) :
    Flight { s with
      ready := task.ticket :: s.ready
      jobs := Function.update s.jobs w .ready } := by
  have hflight : ∀ t ∈ inFlight { s with
      ready := task.ticket :: s.ready
      jobs := Function.update s.jobs w .ready }, t ∈ s.inFlight ∧ t.ticket ≠ task.ticket := by
    intro t ht
    rw [mem_inFlight] at ht ⊢
    rcases ht with hqueued | ⟨v, hv⟩
    · exact ⟨.inl hqueued, ticket_ne hpool hw (.inl hqueued)⟩
    · rw [executing_eq_some] at hv
      obtain ⟨hv, hjob⟩ := hv
      by_cases hvw : v = w
      · subst hvw
        simp at hjob
      · simp only [Function.update_of_ne hvw] at hjob
        exact ⟨.inr ⟨v, executing_eq_some.2 ⟨hv, hjob⟩⟩, ticket_ne hpool hw (.inr ⟨v, hvw, hv⟩)⟩
  refine ⟨fun t ht => ?_, fun ticket hticket => ?_⟩
  · obtain ⟨hold, hne⟩ := hflight t ht
    obtain ⟨hcurrent, hready⟩ := h.latest t hold
    refine ⟨hcurrent, ?_⟩
    rw [List.mem_cons, not_or]
    exact ⟨hne, hready⟩
  · rcases List.mem_cons.1 hticket with hticket | hticket
    · rw [hticket]
      exact ticket_lt hpool hw
    · exact h.ready_lt ticket hticket

/-- A job goes on, without its future becoming ready. -/
theorem Flight.of_job (h : s.Flight) {w : Fin 2} (hpool : s'.pool = s.pool) (hpc : s'.pc = s.pc)
    (hfutures : s'.futures = s.futures) (hready : s'.ready = s.ready) {pc : JobPc}
    (hjobs : s'.jobs = Function.update s.jobs w pc) (hjob : s.jobs w ≠ .ready) : s'.Flight := by
  refine h.of_quiet hpool (.inl hpc) hfutures hready fun v hv => ?_
  rw [hjobs] at hv
  by_cases hvw : v = w
  · rw [hvw]
    exact hjob
  · rwa [Function.update_of_ne hvw] at hv

theorem Flight.step {l : RaceControlLabel} (h : s.Flight) (hwired : s.Wired)
    (hpool : PoolInv s.pool) (hst : s.step l = some s') : s'.Flight := by
  cases move_of_step hst with
  | leave hpc => exact h.of_quiet rfl (.inr ⟨by simp [hpc], by simp⟩) rfl rfl fun _ hv => hv
  | tick hpc => exact h.of_quiet rfl (.inr ⟨by simp [hpc], by simp⟩) rfl rfl fun _ hv => hv
  | @skip _ kind hpc =>
    exact h.of_quiet rfl (.inr ⟨by simp [hpc], kind.after_ne_submit⟩) rfl rfl fun _ hv => hv
  | @callSubmit _ kind _ hpc hidle hcall =>
    cases poolMove_of_step hcall with
    | callSubmit _ =>
      refine ⟨fun task htask => ?_, h.ready_lt⟩
      have hold : task ∈ s.inFlight := htask
      obtain ⟨hcurrent, hready⟩ := h.latest task hold
      have hother := h.none_of_idle (by simp [hpc]) hidle hold
      have hne : CallbackPc.submit kind ≠ .submit task.callable.kind := by
        intro he
        cases he
        exact hother rfl
      refine ⟨(current_of_ne hne).trans ?_, hready⟩
      rw [current_of_ne (by simp [hpc])] at hcurrent
      exact hcurrent
  | submit hpc hsubmit => exact h.of_submit hwired hpc hsubmit
  | @assign _ kind hpc hret =>
    refine h.of_subset (fun _ ht => ht) (fun k => ?_) rfl rfl
    refine (current_of_ne (kind.after_ne_submit k)).trans ?_
    by_cases hk : k = kind
    · subst hk
      rw [current_of_submit hpc fun c hc => by simp [hret] at hc]
      exact Function.update_self ..
    · have hne : s.pc ≠ .submit k := by
        rw [hpc]
        intro he
        cases he
        exact hk rfl
      rw [current_of_ne hne]
      exact Function.update_of_ne hk ..
  | callProcess hpc =>
    exact h.of_quiet rfl (.inr ⟨by simp [hpc], by simp⟩) rfl rfl fun _ hv => hv
  | enforce => exact h.of_quiet rfl (.inl rfl) rfl rfl fun _ hv => hv
  | back hpc => exact h.of_quiet rfl (.inr ⟨by simp [hpc], by simp⟩) rfl rfl fun _ hv => hv
  | detect _ _ hjob => exact h.of_job rfl rfl rfl rfl rfl (by simp [hjob])
  | job _ hjob => exact h.of_job rfl rfl rfl rfl rfl hjob
  | makeReady hw _ => exact h.makeReady hpool hw
  | @finish w _ _ task pool hw hjob hworker =>
    cases poolMove_of_step hworker with
    | wait hw' => exact absurd (hw.symm.trans hw') (by simp)
    | exit hw' => exact absurd (hw.symm.trans hw') (by simp)
    | take hw' => exact absurd (hw.symm.trans hw') (by simp)
    | finish _ =>
      exact h.of_idle rfl rfl rfl rfl rfl rfl rfl fun _ _ hv => running_setWorker (by simp) hv
  | lock hw hworker hjobs => exact h.lock hw hworker hjobs
  | spurious hwake =>
    cases poolMove_of_step hwake with
    | spurious _ =>
      exact h.of_idle rfl rfl rfl rfl rfl rfl rfl fun _ _ hv => running_setWorker (by simp) hv
  | stop => exact h.of_quiet rfl (.inl rfl) rfl rfl fun _ hv => hv
  | join => exact h.of_quiet rfl (.inl rfl) rfl rfl fun _ hv => hv
  | print => exact h.of_quiet rfl (.inl rfl) rfl rfl fun _ hv => hv
  | printed => exact h.of_quiet rfl (.inl rfl) rfl rfl fun _ hv => hv
  | destroy _ hdestroy =>
    cases poolMove_of_step hdestroy with
    | stop => exact h.of_idle rfl rfl rfl rfl rfl rfl rfl fun _ _ hv => hv
    | notifyAll =>
      refine h.of_idle rfl rfl rfl rfl rfl rfl rfl fun v task hv => ?_
      simp only [ThreadPool.notifyAll] at hv
      split at hv
      · cases hv
      · exact hv
    | join => exact h.of_idle rfl rfl rfl rfl rfl rfl rfl fun _ _ hv => hv
    | joined => exact h.of_idle rfl rfl rfl rfl rfl rfl rfl fun _ _ hv => hv

variable (s) in
/-- What a call of `submit` that has not reached the mutex carries. -/
def pendingJob : List Job :=
  match s.pool.submitters () with
  | some (.lock c) => [c]
  | _ => []

/-- The job a submission of that kind carries in that tick. -/
def jobOf (start : TelemetryGenerator) (inputs : List TickInput) (x : JobKind × ℕ) : Job :=
  (start.ticks (inputs.take x.2)).job x.1

variable {start : TelemetryGenerator}

variable (start s) in
/-- The tasks are those of the submissions, each with what its own tick left. -/
structure Submitted : Prop where
  generator : s.generator = start.ticks s.inputs
  ticked : s.pc ≠ .testStop → s.pc ≠ .returned → s.inputs ≠ []
  jobs : s.submissions.map (jobOf start s.inputs)
    = s.pool.history.accepted.map PackagedTask.callable ++ s.pendingJob
  range : ∀ x ∈ s.submissions, 1 ≤ x.2 ∧ x.2 ≤ s.inputs.length
  sorted : s.submissions.Pairwise fun x y => x.2 ≤ y.2

theorem Submitted.of_same (h : s.Submitted start) (hgen : s'.generator = s.generator)
    (hpc : s'.pc ≠ .testStop → s'.pc ≠ .returned → s.pc ≠ .testStop ∧ s.pc ≠ .returned)
    (hinputs : s'.inputs = s.inputs) (hsubmissions : s'.submissions = s.submissions)
    (haccepted : s'.pool.history.accepted = s.pool.history.accepted)
    (hpending : s'.pendingJob = s.pendingJob) : s'.Submitted start := by
  refine ⟨?_, fun h1 h2 => ?_, ?_, ?_, ?_⟩
  · rw [hgen, hinputs, h.generator]
  · rw [hinputs]
    exact h.ticked (hpc h1 h2).1 (hpc h1 h2).2
  · rw [hsubmissions, hinputs, haccepted, hpending, h.jobs]
  · rw [hsubmissions, hinputs]
    exact h.range
  · rw [hsubmissions]
    exact h.sorted

theorem pendingJob_congr (h : s'.pool.submitters () = s.pool.submitters ()) :
    s'.pendingJob = s.pendingJob := by
  unfold pendingJob
  rw [h]

theorem Submitted.tick (h : s.Submitted start) (x : TickInput)
    (hgen : s'.generator = s.generator.tick x) (hinputs : s'.inputs = s.inputs ++ [x])
    (hsubmissions : s'.submissions = s.submissions)
    (hpool : s'.pool = s.pool) : s'.Submitted start := by
  refine ⟨?_, fun _ _ => by simp [hinputs], ?_, fun y hy => ?_, ?_⟩
  · rw [hgen, hinputs, TelemetryGenerator.ticks_concat, h.generator]
  · have hpending : s'.pendingJob = s.pendingJob := pendingJob_congr (by rw [hpool])
    rw [hsubmissions, hpool, hpending, ← h.jobs]
    refine List.map_congr_left fun y hy => ?_
    unfold jobOf
    rw [hinputs, List.take_append_of_le_length (h.range y hy).2]
  · rw [hsubmissions] at hy
    have hle := h.range y hy
    rw [hinputs, List.length_append, List.length_singleton]
    omega
  · rw [hsubmissions]
    exact h.sorted

theorem Submitted.callSubmit (h : s.Submitted start) {kind : JobKind} (hpc : s.pc = .poll kind)
    (hnone : s.pendingJob = []) (hgen : s'.generator = s.generator) (hinputs : s'.inputs = s.inputs)
    (hsubmissions : s'.submissions = s.submissions ++ [(kind, s.inputs.length)])
    (haccepted : s'.pool.history.accepted = s.pool.history.accepted)
    (hlock : s'.pool.submitters () = some (.lock (s.generator.job kind))) :
    s'.Submitted start := by
  have hticked : s.inputs ≠ [] := h.ticked (by simp [hpc]) (by simp [hpc])
  have hpos : 1 ≤ s.inputs.length := List.length_pos_iff.2 hticked
  refine ⟨?_, fun _ _ => by rwa [hinputs], ?_, fun y hy => ?_, ?_⟩
  · rw [hgen, hinputs, h.generator]
  · have hpending : s'.pendingJob = [s.generator.job kind] := by
      unfold pendingJob
      rw [hlock]
    have hjob : jobOf start s.inputs (kind, s.inputs.length) = s.generator.job kind := by
      unfold jobOf
      rw [List.take_length, h.generator]
    rw [hsubmissions, hinputs, List.map_append, h.jobs, hnone, List.append_nil, haccepted, hpending,
      List.map_cons, hjob, List.map_nil]
  · rw [hinputs]
    rw [hsubmissions] at hy
    rcases List.mem_append.1 hy with hy | hy
    · exact h.range y hy
    · rw [List.mem_singleton.1 hy]
      exact ⟨hpos, le_rfl⟩
  · rw [hsubmissions, List.pairwise_append]
    refine ⟨h.sorted, List.pairwise_singleton _ _, fun y hy z hz => ?_⟩
    rw [List.mem_singleton.1 hz]
    exact (h.range y hy).2

theorem Submitted.of_submit (h : s.Submitted start) {w : Fin 2} {pool : PoolState 2 Unit Job}
    (hst : s.pool.step (.submit () w) = some pool) (hopen : s.pool.pool.stop ≠ true) :
    Submitted { s with pool := pool } start := by
  have hself : ∀ pc, Function.update s.pool.submitters () (some pc) () = some pc :=
    fun pc => Function.update_self () _ s.pool.submitters
  cases poolMove_of_step hst with
  | throw _ hstop => exact absurd hstop hopen
  | @accept _ _ c hi _ =>
    refine ⟨h.generator, h.ticked, ?_, h.range, h.sorted⟩
    have hjobs := h.jobs
    unfold pendingJob at hjobs ⊢
    rw [hi] at hjobs
    simp only [hself, List.map_append, List.append_nil]
    exact hjobs
  | notifyNone hi =>
    refine h.of_same rfl (fun h1 h2 => ⟨h1, h2⟩) rfl rfl rfl ?_
    unfold pendingJob
    simp only [hi, hself]
  | notifyOne hi =>
    refine h.of_same rfl (fun h1 h2 => ⟨h1, h2⟩) rfl rfl rfl ?_
    unfold pendingJob
    simp only [hi, hself]

theorem Submitted.step {l : RaceControlLabel} (h : s.Submitted start) (hwired : s.Wired)
    (hst : s.step l = some s') : s'.Submitted start := by
  cases move_of_step hst with
  | leave => exact h.of_same rfl (fun _ h2 => absurd rfl h2) rfl rfl rfl rfl
  | @tick x => exact h.tick x rfl rfl rfl rfl
  | skip hpc => exact h.of_same rfl (fun _ _ => by simp [hpc]) rfl rfl rfl rfl
  | @callSubmit _ kind _ hpc _ hcall =>
    have hquiet := hwired.quiet (by simp [hpc])
    cases poolMove_of_step hcall with
    | callSubmit _ =>
      refine h.callSubmit hpc ?_ rfl rfl rfl rfl (Function.update_self () _ s.pool.submitters)
      unfold pendingJob
      rcases hquiet with hquiet | hquiet <;> rw [hquiet]
  | submit hpc hsubmit =>
    refine h.of_submit hsubmit fun hstop => ?_
    have hret := hwired.closing hstop
    rw [hpc] at hret
    cases hret
  | assign hpc => exact h.of_same rfl (fun _ _ => by simp [hpc]) rfl rfl rfl rfl
  | callProcess hpc => exact h.of_same rfl (fun _ _ => by simp [hpc]) rfl rfl rfl rfl
  | back => exact h.of_same rfl (fun h1 _ => absurd rfl h1) rfl rfl rfl rfl
  | finish _ _ hworker =>
    obtain ⟨hsubmitters, haccepted, -⟩ := pool_of_worker (.inl hworker)
    exact h.of_same rfl (fun h1 h2 => ⟨h1, h2⟩) rfl rfl haccepted
      (pendingJob_congr (congrFun hsubmitters ()))
  | lock _ hworker =>
    obtain ⟨hsubmitters, haccepted, -⟩ := pool_of_worker (.inl hworker)
    exact h.of_same rfl (fun h1 h2 => ⟨h1, h2⟩) rfl rfl haccepted
      (pendingJob_congr (congrFun hsubmitters ()))
  | spurious hwake =>
    obtain ⟨hsubmitters, haccepted, -⟩ := pool_of_worker (.inr hwake)
    exact h.of_same rfl (fun h1 h2 => ⟨h1, h2⟩) rfl rfl haccepted
      (pendingJob_congr (congrFun hsubmitters ()))
  | destroy _ hdestroy =>
    cases poolMove_of_step hdestroy <;> exact h.of_same rfl (fun h1 h2 => ⟨h1, h2⟩) rfl rfl rfl rfl
  | _ => exact h.of_same rfl (fun h1 h2 => ⟨h1, h2⟩) rfl rfl rfl rfl

end RaceControlState

section Run

variable {start : TelemetryGenerator} {s : RaceControlState}

theorem wired_reachable (h : (raceControlSystem start).Reachable s) : s.Wired := by
  refine h.invariant ⟨fun _ hk => ?_, fun _ => .inl rfl, fun hs => ?_, fun hmain => ?_⟩
    fun _ hinv _ hst => hinv.step hst
  · cases hk
  · cases hs
  · rcases hmain with ⟨rest, hmain⟩ | hmain <;> cases hmain

theorem flight_reachable (h : (raceControlSystem start).Reachable s) : s.Flight := by
  refine h.invariant ⟨fun task htask => ?_, fun _ ht => ?_⟩ fun hs hinv _ hst =>
    hinv.step (wired_reachable hs) (poolInv_reachable (pool_reachable hs)) hst
  · rw [RaceControlState.mem_inFlight] at htask
    rcases htask with htask | ⟨w, hw⟩
    · cases htask
    · cases hw
  · cases ht

theorem submitted_reachable (h : (raceControlSystem start).Reachable s) :
    s.Submitted start := by
  refine h.invariant (I := fun s => s.Submitted start)
    ⟨start.ticks_nil.symm, fun hk => absurd rfl hk, rfl, fun x hx => ?_, .nil⟩
    fun hs hinv _ hst => hinv.step (wired_reachable hs) hst
  cases hx

/-- No two tasks in flight have one ticket. -/
theorem nodup_inFlight (hpool : PoolInv s.pool) :
    (s.inFlight.map PackagedTask.ticket).Nodup := by
  have hqueued : (s.pool.pool.tasks.map PackagedTask.ticket).Nodup := by
    have hnodup : (s.pool.history.accepted.map PackagedTask.ticket).Nodup := by
      rw [hpool.tickets]
      exact List.nodup_range
    rw [← hpool.order, List.map_append, List.nodup_append] at hnodup
    exact hnodup.2.1
  have hrunning : ((List.finRange 2).filterMap s.executing).Pairwise
      fun task task' => task.ticket ≠ task'.ticket := by
    refine List.Pairwise.filterMap s.executing (fun w v hwv task hw task' hv => ?_)
      (List.nodup_finRange 2)
    have hw := (RaceControlState.executing_eq_some.1 hw).1
    have hv := (RaceControlState.executing_eq_some.1 hv).1
    exact RaceControlState.ticket_ne hpool hv (.inr ⟨w, hwv, hw⟩)
  unfold RaceControlState.inFlight
  rw [List.map_append, List.nodup_append]
  refine ⟨hqueued, List.pairwise_map.2 hrunning, fun t ht t' ht' he => ?_⟩
  obtain ⟨task, htask, rfl⟩ := List.mem_map.1 ht
  obtain ⟨task', htask', rfl⟩ := List.mem_map.1 ht'
  obtain ⟨w, -, hw⟩ := List.mem_filterMap.1 htask'
  exact RaceControlState.ticket_ne hpool (RaceControlState.executing_eq_some.1 hw).1 (.inl htask) he

/-- A list whose entries have different values, all of them among those of `l`. -/
theorem length_le_of_nodup_map {α β : Type*} {f : α → β} {as : List α} {l : List β}
    (hnodup : (as.map f).Nodup) (h : ∀ a ∈ as, f a ∈ l) : as.length ≤ l.length := by
  have hsub : as.map f ⊆ l := by
    intro b hb
    obtain ⟨a, ha, rfl⟩ := List.mem_map.1 hb
    exact h a ha
  have hle := (hnodup.subperm hsub).length_le
  rwa [List.length_map] at hle

/-- The lap an update job is called with. -/
def Job.updateLap : Job → Option ℤ
  | .check _ _ => none
  | .update lap => some lap

theorem updateLap_le {inputs : List TickInput} {x y : JobKind × ℕ} (h : x.2 ≤ y.2) {a b : ℤ}
    (ha : (RaceControlState.jobOf start inputs x).updateLap = some a)
    (hb : (RaceControlState.jobOf start inputs y).updateLap = some b) : a ≤ b := by
  have hlap : ∀ {g : TelemetryGenerator} {kind : JobKind} {c : ℤ},
      (g.job kind).updateLap = some c → c = g.raceLap := by
    intro g kind c hc
    rcases kind with _ | _
    · cases hc
    · exact (Option.some.inj hc).symm
  have hsplit : inputs.take y.2 = inputs.take x.2 ++ (inputs.take y.2).drop x.2 := by
    have htake := List.take_append_drop x.2 (inputs.take y.2)
    rw [List.take_take, min_eq_left h] at htake
    exact htake.symm
  rw [hlap ha, hlap hb, hsplit, TelemetryGenerator.ticks_append]
  exact TelemetryGenerator.raceLap_le_ticks _ _

theorem accepted_ticket (hpool : PoolInv s.pool) {task : PackagedTask Job}
    (h : task ∈ s.pool.history.accepted) :
    s.pool.history.accepted[task.ticket]? = some task := by
  obtain ⟨k, hk, rfl⟩ := List.getElem_of_mem h
  have hticket : (s.pool.history.accepted.map PackagedTask.ticket)[k]?
      = (List.range s.pool.history.accepted.length)[k]? := by
    rw [hpool.tickets]
  rw [List.getElem?_map, List.getElem?_eq_getElem hk, List.getElem?_range hk] at hticket
  rw [Option.some.inj hticket, List.getElem?_eq_getElem hk]

/-- What a worker runs is what was submitted in the tick of its ticket. -/
theorem running_submitted (h : (raceControlSystem start).Reachable s) {w : Fin 2}
    {task : PackagedTask Job} (hw : s.pool.pool.workers w = .running task) :
    ∃ n, s.submissions[task.ticket]? = some (task.callable.kind, n) ∧ 1 ≤ n
      ∧ n ≤ s.inputs.length
      ∧ task.callable = (start.ticks (s.inputs.take n)).job task.callable.kind := by
  have hpool := poolInv_reachable (pool_reachable h)
  have hsubmitted := submitted_reachable h
  have hmem : task ∈ s.pool.history.accepted := by
    rw [← hpool.order]
    exact List.mem_append_left _
      (List.mem_map.2 ⟨_, RaceControlState.mem_dequeued hpool hw, rfl⟩)
  have haccepted := accepted_ticket hpool hmem
  have hlt : task.ticket < (s.pool.history.accepted.map PackagedTask.callable).length := by
    rw [List.length_map]
    exact (List.getElem?_eq_some_iff.1 haccepted).1
  have hjob := congrArg (fun jobs => jobs[task.ticket]?) hsubmitted.jobs
  simp only [List.getElem?_append_left hlt, List.getElem?_map, haccepted, Option.map_some,
    Option.map_eq_some_iff] at hjob
  obtain ⟨⟨kind, n⟩, hsubmission, hjob⟩ := hjob
  have hkind : task.callable.kind = kind := by
    rw [← hjob]
    exact TelemetryGenerator.job_kind _ _
  obtain ⟨hpos, hle⟩ := hsubmitted.range _ (List.mem_of_getElem? hsubmission)
  refine ⟨n, ?_, hpos, hle, ?_⟩
  · rw [hkind]
    exact hsubmission
  · rw [hkind]
    exact hjob.symm

theorem updateLaps_sorted (h : (raceControlSystem start).Reachable s) :
    (s.pool.history.dequeued.filterMap fun x => x.2.callable.updateLap).Pairwise (· ≤ ·) := by
  have hpool := poolInv_reachable (pool_reachable h)
  have hsubmitted := submitted_reachable h
  have hall : ((s.submissions.map (RaceControlState.jobOf start s.inputs)).filterMap
      Job.updateLap).Pairwise (· ≤ ·) := by
    rw [List.filterMap_map]
    refine List.Pairwise.filterMap _ (fun x y hxy a ha b hb => ?_) hsubmitted.sorted
    exact updateLap_le hxy ha hb
  rw [hsubmitted.jobs, ← hpool.order, List.map_append, List.map_map, List.append_assoc,
    List.filterMap_append, List.filterMap_map] at hall
  exact (List.pairwise_append.1 hall).1

/-- The jobs of the callback, in every state of every interleaving. -/
theorem single_flight (h : (raceControlSystem start).Reachable s) :
    (∀ kind, (s.inFlight.filter fun task => task.callable.kind = kind).length ≤ 1)
      ∧ s.pool.pool.tasks.length ≤ 2
      ∧ (∀ w v task task', s.executing w = some task → s.executing v = some task' →
        task.callable.kind = task'.callable.kind → w = v)
      ∧ (∀ w task, s.pool.pool.workers w = .running task →
        ∃ n, s.submissions[task.ticket]? = some (task.callable.kind, n) ∧ 1 ≤ n
          ∧ n ≤ s.inputs.length
          ∧ task.callable = (start.ticks (s.inputs.take n)).job task.callable.kind)
      ∧ (s.pool.history.dequeued.filterMap fun x => x.2.callable.updateLap).Pairwise (· ≤ ·) := by
  have hpool := poolInv_reachable (pool_reachable h)
  have hflight := flight_reachable h
  have hnodup := nodup_inFlight hpool
  have hone : ∀ kind, (s.current kind).toList.length ≤ 1 := by
    intro kind
    rcases s.current kind with _ | ticket <;> simp
  refine ⟨fun kind => ?_, ?_, fun w v task task' hw hv hkind => ?_,
    fun w task hw => running_submitted h hw, updateLaps_sorted h⟩
  · have hsub : (s.inFlight.filter fun task => task.callable.kind = kind).Sublist s.inFlight :=
      List.filter_sublist
    refine (length_le_of_nodup_map (hnodup.sublist (hsub.map _)) fun task htask => ?_).trans
      (hone kind)
    obtain ⟨htask, hkind⟩ := List.mem_filter.1 htask
    have hcurrent := (hflight.latest task htask).1
    rw [of_decide_eq_true hkind] at hcurrent
    simp [hcurrent]
  · have hsub : s.pool.pool.tasks.Sublist s.inFlight := List.sublist_append_left ..
    have hle := length_le_of_nodup_map (hnodup.sublist (hsub.map _))
      (l := (s.current .check).toList ++ (s.current .update).toList) fun task htask => by
        have hcurrent := (hflight.latest task (hsub.subset htask)).1
        rw [List.mem_append, Option.mem_toList, Option.mem_toList]
        rcases hkind : task.callable.kind with _ | _ <;> rw [hkind] at hcurrent
        · exact .inl hcurrent
        · exact .inr hcurrent
    rw [List.length_append] at hle
    have hcheck := hone .check
    have hupdate := hone .update
    omega
  · by_contra hne
    have hcurrent := (hflight.latest task (RaceControlState.mem_inFlight.2 (.inr ⟨w, hw⟩))).1
    have hcurrent' := (hflight.latest task' (RaceControlState.mem_inFlight.2 (.inr ⟨v, hv⟩))).1
    rw [hkind, hcurrent'] at hcurrent
    have hw := (RaceControlState.executing_eq_some.1 hw).1
    have hv := (RaceControlState.executing_eq_some.1 hv).1
    exact RaceControlState.ticket_ne hpool hv (.inr ⟨w, hne, hw⟩) (Option.some.inj hcurrent).symm

/-- The first tick, whose update job worker `0` is in, with the callback at its last statement. -/
def firstUpdate : List RaceControlLabel :=
  .tick (fun _ => ⟨0, 20000000⟩) :: List.replicate 5 (.callback 0) ++ [.worker 0 0 0, .callback 0]

theorem single_flight_firstUpdate :
    let M := raceControlSystem (.init defaultTrack fun _ => 0)
    let s := (M.run M.init firstUpdate).get (by decide +kernel)
    (s.executing 0).isSome
      ∧ (s.inFlight.filter fun task => task.callable.kind = .update).length ≤ 1 := by
  intro M s
  have hs : M.Reachable s := System.reachable_get firstUpdate (by decide +kernel)
  exact ⟨by decide +kernel, (single_flight hs).1 .update⟩

end Run

end RaceConditionZ
