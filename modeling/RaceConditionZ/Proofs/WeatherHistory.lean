import Mathlib.Data.List.ReduceOption
import Mathlib.Logic.Function.Iterate
import RaceConditionZ.Lib.Mealy
import RaceConditionZ.RaceControl

/-!
# The history of the weather

A call either pushes the event of the next state of the cycle and enters that state, or does
neither. The lap of the latest call that came to the coin never goes back, and lies at or past the
last event's, so the throttle keeps the events apart also where the laps jump back.
-/

namespace RaceConditionZ

namespace WeatherState

theorem next_ne (state : WeatherState) : state.next ≠ state := by
  cases state <;> decide

/-- The cycle of the states. -/
theorem iterate_next_dry (n : ℕ) : next^[n] .dry = match n % 3 with
    | 0 => .dry
    | 1 => .damp
    | _ => .wet := by
  induction n with
  | zero => rfl
  | succ n ih =>
    rw [Function.iterate_succ_apply', ih]
    have hlt := Nat.mod_lt n (by omega : 0 < 3)
    rcases hn : n % 3 with _ | _ | _ | _
    · rw [(by omega : (n + 1) % 3 = 1)]
      rfl
    · rw [(by omega : (n + 1) % 3 = 2)]
      rfl
    · rw [(by omega : (n + 1) % 3 = 0)]
      rfl
    · omega

end WeatherState

namespace WeatherSystem

variable {w : WeatherSystem} {call : Call}

/-- The calls that go past both early returns. -/
def Changes (w : WeatherSystem) (call : Call) : Prop :=
  5 ≤ call.lap - w.lastUpdateLap ∧ call.coin ≤ changeProbability

theorem draw_of_changes (h : w.Changes call) :
    w.draw call.lap call.coin = (⟨w.state, call.lap⟩, true) := by
  unfold draw
  rw [if_neg (not_lt.2 h.1)]
  simp [not_lt.2 h.2]

/-- The second early return has moved the lap on. -/
theorem draw_of_not_changes (h : ¬ w.Changes call) : ∃ lap, w.lastUpdateLap ≤ lap
    ∧ w.draw call.lap call.coin = (⟨w.state, lap⟩, false) := by
  unfold draw
  by_cases hlap : call.lap - w.lastUpdateLap < 5
  · exact ⟨w.lastUpdateLap, le_rfl, if_pos hlap⟩
  · have hcoin : changeProbability < call.coin := by
      by_contra hcoin
      exact h ⟨not_lt.1 hlap, not_lt.1 hcoin⟩
    refine ⟨call.lap, by omega, ?_⟩
    rw [if_neg hlap]
    simp [hcoin]

theorem update_of_changes (h : w.Changes call) : w.update call
    = (⟨w.state.next, call.lap⟩, some (changeEvent w.state.next call.lap call.now)) := by
  unfold update
  rw [draw_of_changes h]
  rfl

theorem update_of_not_changes (h : ¬ w.Changes call) :
    w.update call = ((w.draw call.lap call.coin).1, none) := by
  obtain ⟨lap, -, hdraw⟩ := draw_of_not_changes h
  unfold update
  rw [hdraw]
  rfl

/-- A call that pushes no event leaves the state, and one that does enters the state it names. -/
theorem update_event : (w.update call).2
    = if (w.update call).1.current = w.current then none
      else some (changeEvent (w.update call).1.current call.lap call.now) := by
  by_cases h : w.Changes call
  · rw [update_of_changes h]
    exact (if_neg w.state.next_ne).symm
  · obtain ⟨lap, -, hdraw⟩ := draw_of_not_changes h
    rw [update_of_not_changes h, hdraw]
    exact (if_pos rfl).symm

/-- What the events so far tell of the system. -/
structure Told (events : List RaceControlEvent) (w : WeatherSystem) : Prop where
  state : w.state = WeatherState.next^[events.length] .dry
  named : ∀ k e, events[k]? = some e →
    e = changeEvent (WeatherState.next^[k + 1] .dry) e.lap e.timestamp
  spaced : events.Pairwise fun a b => a.lap + 5 ≤ b.lap
  late : ∀ e ∈ events, 5 ≤ e.lap
  latest : 0 ≤ w.lastUpdateLap ∧ ∀ e ∈ events, e.lap ≤ w.lastUpdateLap

theorem told_start : Told [] start where
  state := rfl
  named _ _ h := by cases h
  spaced := .nil
  late _ h := absurd h List.not_mem_nil
  latest := ⟨le_rfl, fun _ h => absurd h List.not_mem_nil⟩

/-- A change is the next state's event, at least five laps after the last. -/
theorem Told.change {events : List RaceControlEvent} (h : Told events w) (hc : w.Changes call) :
    Told (events ++ [changeEvent w.state.next call.lap call.now]) ⟨w.state.next, call.lap⟩ := by
  have hstate : w.state.next = WeatherState.next^[events.length + 1] .dry := by
    rw [Function.iterate_succ_apply', h.state]
  obtain ⟨hpos, hlast⟩ := h.latest
  have hlap : w.lastUpdateLap + 5 ≤ call.lap := by
    have hthrottle := hc.1
    omega
  refine ⟨?_, fun k e hk => ?_, ?_, fun e he => ?_, ?_, fun e he => ?_⟩
  · rw [List.length_append, List.length_singleton]
    exact hstate
  · rw [List.getElem?_append] at hk
    split_ifs at hk with hlt
    · exact h.named k e hk
    · obtain ⟨hk, he⟩ := List.getElem?_eq_some_iff.1 hk
      rw [List.length_singleton] at hk
      rw [List.getElem_singleton] at he
      rw [← he, hstate, (by omega : k = events.length)]
      rfl
  · rw [List.pairwise_append]
    refine ⟨h.spaced, List.pairwise_singleton _ _, fun a ha b hb => ?_⟩
    rw [List.mem_singleton.1 hb]
    have hle := hlast a ha
    show a.lap + 5 ≤ call.lap
    omega
  · rcases List.mem_append.1 he with he | he
    · exact h.late e he
    · rw [List.mem_singleton.1 he]
      show 5 ≤ call.lap
      omega
  · show 0 ≤ call.lap
    omega
  · rcases List.mem_append.1 he with he | he
    · have hle := hlast e he
      show e.lap ≤ call.lap
      omega
    · rw [List.mem_singleton.1 he]
      exact le_rfl

theorem Told.update {events : List RaceControlEvent} (h : Told events w) (call : Call) :
    Told (events ++ (w.update call).2.toList) (w.update call).1 := by
  by_cases hc : w.Changes call
  · rw [update_of_changes hc]
    exact h.change hc
  · obtain ⟨lap, hle, hdraw⟩ := draw_of_not_changes hc
    rw [update_of_not_changes hc, hdraw, Option.toList_none, List.append_nil]
    exact ⟨h.state, h.named, h.spaced, h.late, h.latest.1.trans hle,
      fun e he => (h.latest.2 e he).trans hle⟩

theorem told_history (calls : List Call) :
    Told (Mealy.outputs update start calls).reduceOption (Mealy.after update start calls) := by
  refine Mealy.history (P := fun _ w outputs => Told outputs.reduceOption w) told_start ?_ calls
  intro _ w outputs call h
  rw [← List.concat_eq_append, List.reduceOption_concat]
  exact h.update call

/-- The calls that push an event are those that change the state, the events name the cycle of the
states, and their laps are at least five apart, from lap 5 on. -/
theorem weather_history (calls : List Call) :
    let w := Mealy.after update start calls
    let outputs := Mealy.outputs update start calls
    let events := outputs.reduceOption
    (∀ k call, calls[k]? = some call →
        let before := Mealy.after update start (calls.take k)
        let later := Mealy.after update start (calls.take (k + 1))
        outputs[k]? = some (if later.current = before.current then none
          else some (changeEvent later.current call.lap call.now)))
      ∧ (∀ k e, events[k]? = some e → e.type = .weatherChange
        ∧ e.message = (match k % 3 with
          | 0 => "Weather: DAMP"
          | 1 => "Weather: WET"
          | _ => "Weather: DRY"))
      ∧ w.current = (match events.length % 3 with
          | 0 => .dry
          | 1 => .damp
          | _ => .wet)
      ∧ (events = [] → w.current = .dry)
      ∧ (∀ e, events.getLast? = some e → e.message = (match w.current with
          | .dry => "Weather: DRY"
          | .damp => "Weather: DAMP"
          | .wet => "Weather: WET"))
      ∧ w.gripFactor = (match w.current with | .dry => 1 | .damp => 0.85 | .wet => 0.70)
      ∧ (∀ e, events.head? = some e → 5 ≤ e.lap)
      ∧ events.Pairwise fun a b => a.lap + 5 ≤ b.lap := by
  intro w outputs events
  have htold : Told events w := told_history calls
  have hcurrent : w.current = WeatherState.next^[events.length] .dry := htold.state
  have hcycle := hcurrent.trans (WeatherState.iterate_next_dry events.length)
  refine ⟨fun k call hk => ?_, fun k e hk => ?_, hcycle, fun hnone => ?_, fun e he => ?_, rfl,
    fun e he => htold.late e (List.mem_of_head? he), htold.spaced⟩
  · have hlater : calls.take (k + 1) = calls.take k ++ [call] := by
      rw [List.take_add_one, hk, Option.toList_some]
    simp only [outputs, hlater, Mealy.after_concat]
    rw [Mealy.outputs_getElem?, hk, Option.map_some, update_event]
  · rw [htold.named k e hk, Function.iterate_succ_apply', WeatherState.iterate_next_dry]
    refine ⟨rfl, ?_⟩
    rcases k % 3 with _ | _ | _ <;> rfl
  · rw [hcurrent, hnone]
    rfl
  · rw [List.getLast?_eq_getElem?] at he
    have hpos : 0 < events.length := by
      obtain ⟨hlt, -⟩ := List.getElem?_eq_some_iff.1 he
      omega
    rw [htold.named _ e he, Nat.sub_add_cancel hpos, ← hcurrent]
    rcases w.current with _ | _ | _ <;> rfl

/-- A lap too early, one that goes back and a draw that fails are without an event. -/
example :
    let calls : List Call := [⟨4, 0, 0⟩, ⟨5, 0, 1⟩, ⟨9, 0, 2⟩, ⟨3, 0, 3⟩, ⟨10, 0.2, 4⟩, ⟨12, 0, 5⟩,
      ⟨15, 0, 6⟩, ⟨20, 0.15, 7⟩]
    (Mealy.outputs update start calls).reduceOption.map (fun e => (e.lap, e.message))
      = [(5, "Weather: DAMP"), (15, "Weather: WET"), (20, "Weather: DRY")] := by
  decide +kernel

end WeatherSystem

/-! ### The job -/

namespace RaceControlState

variable {s : RaceControlState} {w : Fin 2} {task : PackagedTask Job}

/-- A worker that takes its `update` step by step, while nobody else steps, does what the call does
alone. -/
theorem leads_update (start : TelemetryGenerator) (call : WeatherSystem.Call)
    (hw : s.pool.pool.workers w = .running task) (htask : task.callable = .update call.lap)
    (hjob : s.jobs w = .draw) :
    (raceControlSystem start).Leads s { s with
      jobs := Function.update s.jobs w .returned
      weather := (s.weather.update call).1
      enforcer := { s.enforcer with
        queue := s.enforcer.queue ++ (s.weather.update call).2.toList } } := by
  by_cases hc : s.weather.Changes call
  · have hdraw : s.step (.worker w call.coin call.now)
        = some ({ s with weather := ⟨s.weather.state, call.lap⟩ }.setJob w .readState) := by
      simp only [step, worker, hw, hjob, runJob, htask, WeatherSystem.draw_of_changes hc, if_true]
    have hread : ({ s with weather := ⟨s.weather.state, call.lap⟩ }.setJob w .readState).step
          (.worker w call.coin call.now)
        = some ({ s with weather := ⟨s.weather.state, call.lap⟩ }.setJob w
          (.writeState s.weather.state.next)) := by
      simp only [step, worker, setJob, hw, Function.update_self, runJob, htask,
        Function.update_idem]
    have hwrite : ({ s with weather := ⟨s.weather.state, call.lap⟩ }.setJob w
          (.writeState s.weather.state.next)).step (.worker w call.coin call.now)
        = some ({ s with weather := ⟨s.weather.state.next, call.lap⟩ }.setJob w
          (.announce s.weather.state.next)) := by
      simp only [step, worker, setJob, hw, Function.update_self, runJob, htask,
        Function.update_idem]
    have hpush : ({ s with weather := ⟨s.weather.state.next, call.lap⟩ }.setJob w
          (.announce s.weather.state.next)).step (.worker w call.coin call.now)
        = some { s with
          jobs := Function.update s.jobs w .returned
          weather := ⟨s.weather.state.next, call.lap⟩
          enforcer := { s.enforcer with queue := s.enforcer.queue
            ++ [WeatherSystem.changeEvent s.weather.state.next call.lap call.now] } } := by
      simp only [step, worker, setJob, pushEvent, hw, Function.update_self, runJob, htask,
        Function.update_idem]
    rw [WeatherSystem.update_of_changes hc]
    exact .head ⟨.worker w call.coin call.now, hdraw⟩ (.head ⟨.worker w call.coin call.now, hread⟩
      (.head ⟨.worker w call.coin call.now, hwrite⟩
        (.single ⟨.worker w call.coin call.now, hpush⟩)))
  · obtain ⟨lap, -, hdraw⟩ := WeatherSystem.draw_of_not_changes hc
    rw [WeatherSystem.update_of_not_changes hc, hdraw, Option.toList_none, List.append_nil]
    have hskip : s.step (.worker w call.coin call.now)
        = some ({ s with weather := ⟨s.weather.state, lap⟩ }.setJob w .returned) := by
      simp only [step, worker, hw, hjob, runJob, htask, hdraw, Bool.false_eq_true, if_false]
    exact .single ⟨.worker w call.coin call.now, hskip⟩

end RaceControlState

end RaceConditionZ
