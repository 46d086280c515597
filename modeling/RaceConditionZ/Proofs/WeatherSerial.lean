import RaceConditionZ.Proofs.JobSteps
import RaceConditionZ.Proofs.WeatherHistory

/-!
# One call of `update` after the other

The two workers take `update` step by step, but never two calls of it at once. So the weather is
what the calls that have drawn leave when they are made one after the other, except that a change
drawn may still be to store.
-/

namespace RaceConditionZ

open Transition

namespace JobPc

/-- In a call of `update`. -/
def updating : JobPc → Bool
  | .draw | .readState | .writeState _ | .announce _ => true
  | _ => false

/-- In a call of `update` that has drawn a change and is to store it. -/
def changing : JobPc → Bool
  | .readState | .writeState _ => true
  | _ => false

theorem updating_of_changing {pc : JobPc} (h : pc.changing = true) : pc.updating = true := by
  cases pc <;> first | rfl | cases h

end JobPc

namespace WeatherSystem

/-- How many of the calls change the state. -/
def changes (calls : List Call) : ℕ := (Mealy.outputs update start calls).reduceOption.length

theorem changes_concat_of_changes {calls : List Call} {call : Call}
    (h : (Mealy.after update start calls).Changes call) :
    changes (calls ++ [call]) = changes calls + 1 := by
  unfold changes
  rw [Mealy.outputs_concat, update_of_changes h, List.reduceOption_append, List.length_append]
  rfl

theorem changes_concat_of_not_changes {calls : List Call} {call : Call}
    (h : ¬ (Mealy.after update start calls).Changes call) :
    changes (calls ++ [call]) = changes calls := by
  unfold changes
  rw [Mealy.outputs_concat, update_of_not_changes h, List.reduceOption_append, List.length_append]
  rfl

/-- The throttle leaves one change for each five laps. -/
theorem five_changes_le (calls : List Call) :
    5 * (changes calls : ℤ) ≤ (Mealy.after update start calls).lastUpdateLap := by
  induction calls using List.reverseRecOn with
  | nil => exact le_rfl
  | append_singleton calls call ih =>
    rw [Mealy.after_concat]
    by_cases hc : (Mealy.after update start calls).Changes call
    · have hthrottle := hc.1
      rw [changes_concat_of_changes hc, update_of_changes hc]
      push_cast
      show _ ≤ call.lap
      omega
    · obtain ⟨lap, hle, hdraw⟩ := draw_of_not_changes hc
      rw [changes_concat_of_not_changes hc, update_of_not_changes hc, hdraw]
      exact ih.trans hle

theorem update_lastUpdateLap (w : WeatherSystem) (call : Call) :
    (w.update call).1.lastUpdateLap = w.lastUpdateLap
      ∨ (w.update call).1.lastUpdateLap = call.lap := by
  by_cases hc : w.Changes call
  · rw [update_of_changes hc]
    exact .inr rfl
  · rw [update_of_not_changes hc]
    unfold draw
    split_ifs
    · exact .inl rfl
    · exact .inr rfl

theorem lastUpdateLap_le {calls : List Call} {lap : ℤ} (h0 : 0 ≤ lap)
    (hle : ∀ call ∈ calls, call.lap ≤ lap) :
    (Mealy.after update start calls).lastUpdateLap ≤ lap := by
  induction calls using List.reverseRecOn with
  | nil => exact h0
  | append_singleton calls call ih =>
    rw [Mealy.after_concat]
    rcases update_lastUpdateLap (Mealy.after update start calls) call with hlap | hlap
    · rw [hlap]
      exact ih fun c hc => hle c (List.mem_append_left _ hc)
    · rw [hlap]
      exact hle call (List.mem_append_right _ List.mem_cons_self)

end WeatherSystem

namespace RaceControlState

variable (s : RaceControlState)

/-- Some change has been drawn and is to be stored. -/
def Changing : Prop := ∃ w, (s.jobs w).changing = true

instance : Decidable s.Changing := inferInstanceAs (Decidable (∃ w, (s.jobs w).changing = true))

/-- The weather, with a change drawn taken for stored. -/
def settled : WeatherSystem :=
  if s.Changing then { s.weather with state := s.weather.state.next } else s.weather

/-- The laps of the calls of `update` that workers have taken up. -/
def updateLaps : List ℤ := s.pool.history.dequeued.filterMap fun x => x.2.callable.updateLap

/-- A worker that is not between two tasks has one. -/
def Held : Prop := ∀ w, s.jobs w ≠ .ready → ∃ task, s.pool.pool.workers w = .running task

variable {s} {s' : RaceControlState}

section Alone

theorem Held.of_pool (h : s.Held) {l : PoolLabel 2 Unit Job} (hst : s.pool.step l = some s'.pool)
    (hl : ∀ w, l ≠ .worker w) (hjobs : s'.jobs = s.jobs) : s'.Held := by
  intro w hjob
  rw [hjobs] at hjob
  obtain ⟨task, hw⟩ := h w hjob
  exact ⟨task, (running_iff_of_other hst (hl w)).2 hw⟩

theorem Held.of_same (h : s.Held) (hpool : s'.pool = s.pool) (hjobs : s'.jobs = s.jobs) :
    s'.Held := by
  intro w hjob
  rw [hjobs] at hjob
  rw [hpool]
  exact h w hjob

theorem Held.of_job (h : s.Held) {w : Fin 2} {pc : JobPc} {task : PackagedTask Job}
    (hw : s.pool.pool.workers w = .running task) (hpool : s'.pool = s.pool)
    (hjobs : s'.jobs = Function.update s.jobs w pc) : s'.Held := by
  intro v hjob
  rw [hpool]
  by_cases hvw : v = w
  · rw [hvw]
    exact ⟨task, hw⟩
  · rw [hjobs, Function.update_of_ne hvw] at hjob
    exact h v hjob

theorem Held.worker (h : s.Held) {w : Fin 2} {coin : ℚ} {now : ℤ} (hfit : s.JobsFit)
    (hst : s.worker w coin now = some s') : s'.Held := by
  rcases worker_cases hst with ⟨task, pool, hw, hjob, hpool, rfl⟩ | ⟨task, hw, hjob, rfl⟩
    | ⟨task, hw, hrun⟩ | ⟨pool, jobs, hw, hpool, rfl, hjobs⟩
  · intro v hv
    obtain ⟨t, ht⟩ := h v hv
    refine ⟨t, (running_iff_of_other hpool ?_).2 ht⟩
    rintro ⟨⟩
    exact hv hjob
  · exact h.of_job hw rfl rfl
  · obtain ⟨pc, events, hjobs, hpool, -⟩ := runJob_left (hfit w task hw) hrun
    exact h.of_job hw hpool hjobs
  · intro v hv
    rcases hjobs with ⟨task, htask, rfl⟩ | ⟨-, rfl⟩
    · by_cases hvw : v = w
      · subst hvw
        exact ⟨task, htask⟩
      · simp only [Function.update_of_ne hvw] at hv
        obtain ⟨t, ht⟩ := h v hv
        exact ⟨t, (running_iff_of_other hpool (by simpa using Ne.symm hvw)).2 ht⟩
    · obtain ⟨t, ht⟩ := h v hv
      refine ⟨t, (running_iff_of_other hpool ?_).2 ht⟩
      rintro ⟨⟩
      exact hw t ht

theorem Held.step {l : RaceControlLabel} (h : s.Held) (hfit : s.JobsFit)
    (hst : s.step l = some s') : s'.Held := by
  cases move_of_step hst with
  | callSubmit _ _ hpool | submit _ hpool | spurious hpool | destroy _ hpool =>
    exact h.of_pool hpool (by simp) rfl
  | detect | job | makeReady | finish | lock => exact h.worker hfit hst
  | _ => exact h.of_same rfl rfl

theorem held_reachable {start : TelemetryGenerator} (h : (raceControlSystem start).Reachable s) :
    s.Held :=
  h.invariant (I := Held) (fun _ hjob => absurd rfl hjob)
    fun hs hI _ hst => hI.step (jobsFit_reachable hs) hst

/-- A worker in a call of `update` has the task of one. -/
theorem task_of_updating (hheld : s.Held) (hfit : s.JobsFit) {w : Fin 2}
    (hw : (s.jobs w).updating = true) :
    ∃ ticket lap, s.pool.pool.workers w = .running ⟨ticket, .update lap⟩ := by
  obtain ⟨⟨ticket, job⟩, hrunning⟩ := hheld w (by rintro hjob; rw [hjob] at hw; cases hw)
  have hfits := hfit w _ hrunning
  cases job with
  | update lap => exact ⟨ticket, lap, hrunning⟩
  | check states lap =>
    rcases hfits with hjob | hjob | ⟨rest, hjob, -⟩ <;> rw [hjob] at hw <;> cases hw

/-- While a worker is in a call of `update`, no other call waits or is made. -/
theorem update_alone {start : TelemetryGenerator} (h : (raceControlSystem start).Reachable s)
    {w : Fin 2} (hw : (s.jobs w).updating = true) :
    (∀ v, v ≠ w → (s.jobs v).updating = false)
      ∧ ∀ task ∈ s.pool.pool.tasks, task.callable.kind ≠ .update := by
  have hheld := held_reachable h
  have hfit := jobsFit_reachable h
  have hpool := poolInv_reachable (pool_reachable h)
  obtain ⟨ticket, lap, hrunning⟩ := task_of_updating hheld hfit hw
  have hready : ∀ {v : Fin 2}, (s.jobs v).updating = true → s.jobs v ≠ .ready := by
    intro v hv hjob
    rw [hjob] at hv
    cases hv
  have hone : ∀ task ∈ s.inFlight, task.callable.kind = .update → task.ticket = ticket := by
    intro task htask hkind
    have hcurrent := ((flight_reachable h).latest task htask).1
    have hcurrent' := ((flight_reachable h).latest _
      (mem_inFlight.2 (.inr ⟨w, executing_eq_some.2 ⟨hrunning, hready hw⟩⟩))).1
    rw [hkind] at hcurrent
    exact Option.some.inj (hcurrent.symm.trans hcurrent')
  refine ⟨fun v hvw => ?_, fun task htask hkind => ?_⟩
  · by_contra hv
    rw [Bool.not_eq_false] at hv
    obtain ⟨ticket', lap', hrunning'⟩ := task_of_updating hheld hfit hv
    refine ticket_ne hpool hrunning (.inr ⟨v, hvw, hrunning'⟩) (hone _ ?_ rfl)
    exact mem_inFlight.2 (.inr ⟨v, executing_eq_some.2 ⟨hrunning', hready hv⟩⟩)
  · exact ticket_ne hpool hrunning (.inl htask) (hone task (mem_inFlight.2 (.inl htask)) hkind)

end Alone

section Serial

/-- The weather is that of calls made one after the other, of whose changes `stored` are stored.
They are the calls taken up, but for one that is at its draw. -/
structure Serial (calls : List WeatherSystem.Call) (stored : ℕ) (s : RaceControlState) : Prop where
  settled : s.settled = Mealy.after WeatherSystem.update .start calls
  state : s.weather.state = WeatherState.next^[stored] .dry
  count : stored + (if s.Changing then 1 else 0) = WeatherSystem.changes calls
  next : ∀ w newState, s.jobs w = .writeState newState → newState = s.weather.state.next
  laps : (∀ w, s.jobs w ≠ .draw) ∧ s.updateLaps = calls.map WeatherSystem.Call.lap
    ∨ ∃ w ticket lap, s.jobs w = .draw ∧ s.pool.pool.workers w = .running ⟨ticket, .update lap⟩
      ∧ s.updateLaps = calls.map WeatherSystem.Call.lap ++ [lap]

variable {calls : List WeatherSystem.Call} {stored : ℕ} {w : Fin 2} {pc : JobPc}

theorem updateLaps_congr (h : s'.pool.history.dequeued = s.pool.history.dequeued) :
    s'.updateLaps = s.updateLaps := by
  unfold updateLaps
  rw [h]

theorem settled_of_changing (h : s.Changing) :
    s.settled = { s.weather with state := s.weather.state.next } :=
  if_pos h

theorem settled_of_not_changing (h : ¬ s.Changing) : s.settled = s.weather := if_neg h

theorem settled_congr (hchanging : s'.Changing ↔ s.Changing) (hweather : s'.weather = s.weather) :
    s'.settled = s.settled := by
  unfold settled
  simp only [hchanging, hweather]

theorem changing_iff (hjobs : s'.jobs = Function.update s.jobs w pc)
    (hpc : pc.changing = (s.jobs w).changing) : s'.Changing ↔ s.Changing := by
  unfold Changing
  rw [hjobs]
  refine exists_congr fun v => ?_
  by_cases hvw : v = w
  · subst hvw
    rw [Function.update_self, hpc]
  · rw [Function.update_of_ne hvw]

theorem changing_iff_of_alone (hjobs : s'.jobs = Function.update s.jobs w pc)
    (halone : ∀ v, v ≠ w → (s.jobs v).updating = false) : s'.Changing ↔ pc.changing = true := by
  unfold Changing
  rw [hjobs]
  constructor
  · rintro ⟨v, hv⟩
    by_cases hvw : v = w
    · subst hvw
      rwa [Function.update_self] at hv
    · rw [Function.update_of_ne hvw] at hv
      have hupdating := JobPc.updating_of_changing hv
      rw [halone v hvw] at hupdating
      cases hupdating
  · intro hpc
    exact ⟨w, by rw [Function.update_self, hpc]⟩

theorem Serial.calls_prefix (h : Serial calls stored s) :
    calls.map WeatherSystem.Call.lap <+: s.updateLaps := by
  rcases h.laps with ⟨-, hlaps⟩ | ⟨w, ticket, lap, -, -, hlaps⟩ <;> rw [hlaps]
  exact List.prefix_append _ _

/-- A step of the pool in which no worker takes a task. -/
theorem Serial.of_same (h : Serial calls stored s) (hjobs : s'.jobs = s.jobs)
    (hweather : s'.weather = s.weather)
    (hdequeued : s'.pool.history.dequeued = s.pool.history.dequeued)
    (hrunning : ∀ w task, s.jobs w = .draw → s.pool.pool.workers w = .running task →
      s'.pool.pool.workers w = .running task) : Serial calls stored s' := by
  have hchanging : s'.Changing ↔ s.Changing := by
    unfold Changing
    rw [hjobs]
  refine ⟨(settled_congr hchanging hweather).trans h.settled, ?_, ?_, ?_, ?_⟩
  · rw [hweather]
    exact h.state
  · simp only [hchanging]
    exact h.count
  · rw [hjobs, hweather]
    exact h.next
  · rw [hjobs, updateLaps_congr hdequeued]
    refine h.laps.imp id ?_
    rintro ⟨w, ticket, lap, hw, htask, hlaps⟩
    exact ⟨w, ticket, lap, hw, hrunning w _ hw htask, hlaps⟩

/-- A step of a job other than a draw and a store. -/
theorem Serial.of_job (h : Serial calls stored s) (hjobs : s'.jobs = Function.update s.jobs w pc)
    (hweather : s'.weather = s.weather) (hupdates : s'.updateLaps = s.updateLaps)
    (hrunning : ∀ v task, v ≠ w → s.pool.pool.workers v = .running task →
      s'.pool.pool.workers v = .running task)
    (hchanging : pc.changing = (s.jobs w).changing) (hpc : pc ≠ .draw) (hw : s.jobs w ≠ .draw)
    (hnext : ∀ newState, pc = .writeState newState → newState = s.weather.state.next) :
    Serial calls stored s' := by
  have hiff := changing_iff hjobs hchanging
  refine ⟨(settled_congr hiff hweather).trans h.settled, ?_, ?_, fun v newState hv => ?_, ?_⟩
  · rw [hweather]
    exact h.state
  · simp only [hiff]
    exact h.count
  · rw [hweather]
    by_cases hvw : v = w
    · subst hvw
      rw [hjobs, Function.update_self] at hv
      exact hnext newState hv
    · rw [hjobs, Function.update_of_ne hvw] at hv
      exact h.next v newState hv
  · rw [hupdates]
    refine h.laps.imp ?_ ?_
    · rintro ⟨hnone, hlaps⟩
      refine ⟨fun v => ?_, hlaps⟩
      by_cases hvw : v = w
      · subst hvw
        rwa [hjobs, Function.update_self]
      · rw [hjobs, Function.update_of_ne hvw]
        exact hnone v
    · rintro ⟨v, ticket, lap, hv, htask, hlaps⟩
      have hvw : v ≠ w := by
        rintro rfl
        exact hw hv
      refine ⟨v, ticket, lap, ?_, hrunning v _ hvw htask, hlaps⟩
      rwa [hjobs, Function.update_of_ne hvw]

/-- A step of the one worker that is in a call of `update`, past its draw. -/
theorem serial_of_alone (halone : ∀ v, v ≠ w → (s.jobs v).updating = false)
    (hjobs : s'.jobs = Function.update s.jobs w pc) (hpc : pc ≠ .draw)
    (hsettled : (if pc.changing then { s'.weather with state := s'.weather.state.next }
      else s'.weather) = Mealy.after WeatherSystem.update .start calls)
    (hstate : s'.weather.state = WeatherState.next^[stored] .dry)
    (hcount : stored + (if pc.changing then 1 else 0) = WeatherSystem.changes calls)
    (hnext : ∀ newState, pc = .writeState newState → newState = s'.weather.state.next)
    (hlaps : s'.updateLaps = calls.map WeatherSystem.Call.lap) : Serial calls stored s' := by
  have hiff := changing_iff_of_alone hjobs halone
  refine ⟨?_, hstate, ?_, fun v newState hv => ?_, .inl ⟨fun v hv => ?_, hlaps⟩⟩
  · unfold RaceControlState.settled
    simp only [hiff]
    exact hsettled
  · simp only [hiff]
    exact hcount
  · by_cases hvw : v = w
    · rw [hvw, hjobs, Function.update_self] at hv
      exact hnext newState hv
    · have hupdating := halone v hvw
      rw [hjobs, Function.update_of_ne hvw] at hv
      rw [hv] at hupdating
      cases hupdating
  · by_cases hvw : v = w
    · rw [hvw, hjobs, Function.update_self] at hv
      exact hpc hv
    · have hupdating := halone v hvw
      rw [hjobs, Function.update_of_ne hvw] at hv
      rw [hv] at hupdating
      cases hupdating

/-- The draw, where a call takes its place among the calls. -/
theorem Serial.draw {start : TelemetryGenerator} (h : Serial calls stored s)
    (hs : (raceControlSystem start).Reachable s) {ticket : ℕ} (call : WeatherSystem.Call)
    (hw : s.pool.pool.workers w = .running ⟨ticket, .update call.lap⟩) (hjob : s.jobs w = .draw) :
    Serial (calls ++ [call]) stored
      ({ s with weather := (s.weather.draw call.lap call.coin).1 }.setJob w
        (if (s.weather.draw call.lap call.coin).2 then .readState else .returned)) := by
  obtain ⟨halone, -⟩ := update_alone hs (w := w) (by rw [hjob]; rfl)
  have hbefore : ¬ s.Changing := by
    rw [changing_iff_of_alone (Function.update_eq_self w s.jobs).symm halone, hjob]
    simp [JobPc.changing]
  have hsettled := (settled_of_not_changing hbefore).symm.trans h.settled
  have hcount := h.count
  rw [if_neg hbefore, Nat.add_zero] at hcount
  have hlaps : s.updateLaps = (calls ++ [call]).map WeatherSystem.Call.lap := by
    rcases h.laps with ⟨hnone, -⟩ | ⟨v, ticket', lap, hv, htask, hlaps⟩
    · exact absurd hjob (hnone w)
    · have hvw : v = w := by
        by_contra hvw
        have hupdating := halone v hvw
        rw [hv] at hupdating
        cases hupdating
      rw [hvw, hw] at htask
      cases htask
      rw [hlaps, List.map_append]
      rfl
  by_cases hc : s.weather.Changes call
  · rw [WeatherSystem.draw_of_changes hc]
    refine serial_of_alone (s := s) halone rfl (by simp) ?_ h.state ?_ (by simp) hlaps
    · rw [Mealy.after_concat, ← hsettled, WeatherSystem.update_of_changes hc]
      rfl
    · rw [WeatherSystem.changes_concat_of_changes (hsettled ▸ hc), ← hcount]
      rfl
  · obtain ⟨lap, -, hdraw⟩ := WeatherSystem.draw_of_not_changes hc
    have hafter : Mealy.after WeatherSystem.update .start (calls ++ [call])
        = ⟨s.weather.state, lap⟩ := by
      rw [Mealy.after_concat, ← hsettled, WeatherSystem.update_of_not_changes hc, hdraw]
    rw [hdraw]
    refine serial_of_alone (s := s) halone rfl (by simp) hafter.symm h.state ?_ (by simp) hlaps
    rw [WeatherSystem.changes_concat_of_not_changes (hsettled ▸ hc), ← hcount]
    rfl

/-- The store of a change. -/
theorem Serial.store {start : TelemetryGenerator} (h : Serial calls stored s)
    (hs : (raceControlSystem start).Reachable s) {newState : WeatherState}
    (hjob : s.jobs w = .writeState newState) :
    Serial calls (stored + 1) ({ s with weather := { s.weather with state := newState } }.setJob w
      (.announce newState)) := by
  obtain ⟨halone, -⟩ := update_alone hs (w := w) (by rw [hjob]; rfl)
  have hbefore : s.Changing := ⟨w, by rw [hjob]; rfl⟩
  have hnext := h.next w newState hjob
  have hcount := h.count
  rw [if_pos hbefore] at hcount
  have hlaps : s.updateLaps = calls.map WeatherSystem.Call.lap := by
    rcases h.laps with ⟨-, hlaps⟩ | ⟨v, ticket, lap, hv, -⟩
    · exact hlaps
    · have hvw : v ≠ w := by
        rintro rfl
        rw [hjob] at hv
        cases hv
      have hupdating := halone v hvw
      rw [hv] at hupdating
      cases hupdating
  refine serial_of_alone (s := s) halone rfl (by simp) ?_ ?_ hcount (by simp) hlaps
  · rw [← h.settled, settled_of_changing hbefore, ← hnext]
    rfl
  · show newState = _
    rw [Function.iterate_succ_apply', hnext, h.state]

/-- A worker takes up a task. -/
theorem Serial.take {start : TelemetryGenerator} (h : Serial calls stored s)
    (hs : (raceControlSystem start).Reachable s) {task : PackagedTask Job}
    (hw : ∀ task, s.pool.pool.workers w ≠ .running task) (htask : task ∈ s.pool.pool.tasks)
    (hdequeued : s'.pool.history.dequeued = s.pool.history.dequeued ++ [(w, task)])
    (hrunning : s'.pool.pool.workers w = .running task)
    (hothers : ∀ v t, v ≠ w → s.pool.pool.workers v = .running t →
      s'.pool.pool.workers v = .running t)
    (hjobs : s'.jobs = Function.update s.jobs w task.callable.start)
    (hweather : s'.weather = s.weather) : Serial calls stored s' := by
  have hready : s.jobs w = .ready := by
    by_contra hjob
    obtain ⟨t, ht⟩ := held_reachable hs w hjob
    exact hw t ht
  have hupdates : s'.updateLaps = s.updateLaps ++ task.callable.updateLap.toList := by
    unfold updateLaps
    rw [hdequeued, List.filterMap_append]
    rcases hlap : task.callable.updateLap with _ | lap <;> simp [hlap]
  obtain ⟨ticket, ⟨states, lap⟩ | lap⟩ := task
  · exact h.of_job hjobs hweather (hupdates.trans (List.append_nil _)) hothers
      (by rw [hready]; rfl) (by simp [Job.start]) (by simp [hready]) (by simp [Job.start])
  · have hnone : ∀ v, (s.jobs v).updating = false := by
      intro v
      by_contra hv
      rw [Bool.not_eq_false] at hv
      exact (update_alone hs hv).2 _ htask rfl
    have hdraw : ∀ v, s.jobs v ≠ .draw := by
      intro v hv
      have hupdating := hnone v
      rw [hv] at hupdating
      cases hupdating
    have hiff : s'.Changing ↔ s.Changing := changing_iff hjobs (by rw [hready]; rfl)
    refine ⟨(settled_congr hiff hweather).trans h.settled, ?_, ?_, fun v newState hv => ?_,
      .inr ⟨w, ticket, lap, ?_, hrunning, ?_⟩⟩
    · rw [hweather]
      exact h.state
    · simp only [hiff]
      exact h.count
    · rw [hjobs] at hv
      by_cases hvw : v = w
      · rw [hvw, Function.update_self] at hv
        cases hv
      · have hupdating := hnone v
        rw [Function.update_of_ne hvw] at hv
        rw [hv] at hupdating
        cases hupdating
    · rw [hjobs, Function.update_self]
      rfl
    · rcases h.laps with ⟨-, hlaps⟩ | ⟨v, -, -, hv, -⟩
      · rw [hupdates, hlaps]
        rfl
      · exact absurd hv (hdraw v)

theorem Serial.worker {start : TelemetryGenerator} (h : Serial calls stored s)
    (hs : (raceControlSystem start).Reachable s) {coin : ℚ} {now : ℤ}
    (hst : s.worker w coin now = some s') : ∃ calls' stored', calls <+: calls' ∧ stored ≤ stored'
      ∧ Serial calls' stored' s' := by
  have hkeep : ∀ {s' : RaceControlState}, Serial calls stored s' → ∃ calls' stored',
      calls <+: calls' ∧ stored ≤ stored' ∧ Serial calls' stored' s' :=
    fun h' => ⟨calls, stored, List.prefix_rfl, le_rfl, h'⟩
  rcases worker_cases hst with ⟨task, pool, hw, hjob, hpool, rfl⟩ | ⟨task, hw, hjob, rfl⟩
    | ⟨task, hw, hrun⟩ | ⟨pool, jobs, hw, hpool, rfl, hjobs⟩
  · refine hkeep (h.of_same rfl rfl ?_ fun v t hv ht => ?_)
    · cases poolMove_of_step hpool with
      | take hw' => cases hw.symm.trans hw'
      | _ => rfl
    · refine (running_iff_of_other hpool ?_).2 ht
      rintro ⟨⟩
      rw [hjob] at hv
      cases hv
  · exact hkeep (h.of_job rfl rfl rfl (fun _ _ _ hv => hv) (by rw [hjob]; rfl) (by simp)
      (by simp [hjob]) (by simp))
  · obtain ⟨ticket, job⟩ := task
    unfold runJob at hrun
    split at hrun
    · rename_i hjob
      split at hrun <;> obtain rfl := Option.some.inj hrun <;>
        exact hkeep (h.of_job rfl rfl rfl (fun _ _ _ hv => hv) (by rw [hjob]; rfl) (by simp)
          (by simp [hjob]) (by simp))
    · rename_i hjob
      obtain rfl := Option.some.inj hrun
      exact hkeep (h.of_job rfl rfl rfl (fun _ _ _ hv => hv) (by rw [hjob]; rfl) (by simp)
        (by simp [hjob]) (by simp))
    · rename_i lap htask hjob
      obtain rfl : job = .update lap := htask
      obtain rfl := Option.some.inj hrun
      exact ⟨_, stored, List.prefix_append _ _, le_rfl, h.draw hs ⟨lap, coin, now⟩ hw hjob⟩
    · rename_i hjob
      obtain rfl := Option.some.inj hrun
      exact hkeep (h.of_job rfl rfl rfl (fun _ _ _ hv => hv) (by rw [hjob]; rfl) (by simp)
        (by simp [hjob]) (by simp))
    · rename_i newState hjob
      obtain rfl := Option.some.inj hrun
      exact ⟨calls, _, List.prefix_rfl, Nat.le_succ _, h.store hs hjob⟩
    · rename_i lap newState hjob
      obtain rfl := Option.some.inj hrun
      exact hkeep (h.of_job rfl rfl rfl (fun _ _ _ hv => hv) (by rw [hjob]; rfl) (by simp)
        (by simp [hjob]) (by simp))
    · cases hrun
  · have hsame : jobs = s.jobs → pool.history.dequeued = s.pool.history.dequeued →
        Serial calls stored { s with pool := pool, jobs := jobs } := by
      rintro rfl hdequeued
      refine h.of_same rfl rfl hdequeued fun v t _ hv =>
        (running_iff_of_other hpool ?_).2 hv
      rintro ⟨⟩
      exact hw t hv
    cases poolMove_of_step hpool with
    | finish hrunning => exact absurd hrunning (hw _)
    | wait | exit =>
      rcases hjobs with ⟨task, htask, -⟩ | ⟨-, hjobs⟩
      · rw [ThreadPool.setWorker_self] at htask
        cases htask
      · exact hkeep (hsame hjobs rfl)
    | @take _ task tasks hlock htasks =>
      have hrunning : ({ s.pool.pool with tasks := tasks }.setWorker w (.running task)).workers w
          = .running task := ThreadPool.setWorker_self _
      rcases hjobs with ⟨task', htask', hjobs⟩ | ⟨hnone, -⟩
      · cases hrunning.symm.trans htask'
        refine hkeep
          (h.take hs hw (by rw [htasks]; exact List.mem_cons_self) rfl hrunning ?_ hjobs rfl)
        intro v t hvw hv
        exact (ThreadPool.setWorker_of_ne hvw _).trans hv
      · exact absurd hrunning (hnone task)

theorem dequeued_of_other {p p' : PoolState 2 Unit Job} {l : PoolLabel 2 Unit Job}
    (hst : p.step l = some p') (hl : ∀ w, l ≠ .worker w) :
    p'.history.dequeued = p.history.dequeued := by
  cases poolMove_of_step hst with
  | wait | exit | take | finish => exact absurd rfl (hl _)
  | _ => rfl

theorem Serial.step {start : TelemetryGenerator} (h : Serial calls stored s)
    (hs : (raceControlSystem start).Reachable s) {l : RaceControlLabel}
    (hst : s.step l = some s') : ∃ calls' stored', calls <+: calls' ∧ stored ≤ stored'
      ∧ Serial calls' stored' s' := by
  cases move_of_step hst with
  | callSubmit _ _ hpool | submit _ hpool | spurious hpool | destroy _ hpool =>
    refine ⟨calls, stored, List.prefix_rfl, le_rfl, h.of_same rfl rfl ?_ fun v t _ hv => ?_⟩
    · exact dequeued_of_other hpool (by simp)
    · exact (running_iff_of_other hpool (by simp)).2 hv
  | detect | job | makeReady | finish | lock => exact h.worker hs hst
  | _ => exact ⟨calls, stored, List.prefix_rfl, le_rfl, h.of_same rfl rfl rfl fun _ _ _ hv => hv⟩

theorem Serial.leads {start : TelemetryGenerator} (h : Serial calls stored s)
    (hs : (raceControlSystem start).Reachable s) (hl : (raceControlSystem start).Leads s s') :
    ∃ calls' stored', calls <+: calls' ∧ stored ≤ stored' ∧ Serial calls' stored' s' := by
  induction hl with
  | refl => exact ⟨calls, stored, List.prefix_rfl, le_rfl, h⟩
  | tail hl hst ih =>
    obtain ⟨l, hst⟩ := hst
    obtain ⟨calls₁, stored₁, hcalls₁, hle₁, h₁⟩ := ih
    obtain ⟨calls₂, stored₂, hcalls₂, hle₂, h₂⟩ := h₁.step (hs.leads hl) hst
    exact ⟨calls₂, stored₂, hcalls₁.trans hcalls₂, hle₁.trans hle₂, h₂⟩

theorem serial_init (start : TelemetryGenerator) : Serial [] 0 (.init start) := by
  have hchanging : ¬ (RaceControlState.init start).Changing := by
    rintro ⟨w, hw⟩
    cases hw
  refine ⟨?_, rfl, ?_, ?_, .inl ⟨?_, rfl⟩⟩
  · rw [settled_of_not_changing hchanging]
    rfl
  · rw [if_neg hchanging]
    rfl
  · rintro w newState ⟨⟩
  · rintro w ⟨⟩

end Serial

end RaceControlState

end RaceConditionZ
