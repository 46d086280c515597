import RaceConditionZ.Proofs.PenaltyOnce
import Mathlib.Data.List.Basic

/-!
# What a call leaves in the event queue

A call of `process_events` takes out all that waits, whatever its type, before it handles any of it.
So its own announcements are what it leaves; it is the next call that takes these out.
-/

namespace RaceConditionZ

open Transition PenaltyEnforcer

theorem popAll_eq (batch queue : List RaceControlEvent) :
    popAll batch queue = (batch ++ queue, []) := by
  induction queue generalizing batch with
  | nil => rw [popAll, List.append_nil]
  | cons e queue ih =>
    rw [popAll, ih, List.append_assoc]
    rfl

theorem handleAll_queue (p : PenaltyEnforcer) (queue : List RaceControlEvent)
    (batch : List (RaceControlEvent × ℤ)) :
    (p.handleAll queue batch).2 = queue ++ p.announcements batch := by
  induction batch generalizing p queue with
  | nil => exact (List.append_nil queue).symm
  | cons x batch ih =>
    rw [handleAll, announcements, ih, List.append_assoc]

theorem processEvents_queue (p : PenaltyEnforcer) (queue : List RaceControlEvent) (clock : ℕ → ℤ) :
    (p.processEvents queue clock).2 = p.announcements (timed queue clock) := by
  rw [processEvents, popAll_eq]
  exact handleAll_queue ..

section Handle

variable {p : PenaltyEnforcer} {e : RaceControlEvent} {i : Fin 20}

theorem compareExchange_of_eq {a : PenaltyState} (h : p.states i = a) (b : PenaltyState) :
    p.compareExchange i a b
      = some { p with states := Function.update p.states i b } :=
  if_pos h

theorem compareExchange_of_ne {a : PenaltyState} (h : p.states i ≠ a) (b : PenaltyState) :
    p.compareExchange i a b = none :=
  if_neg h

theorem handle_skip (he : warned e = none) (now : ℤ) : p.handle e now = (p, none) := by
  unfold handle
  rw [he]

/-- The third warning of a driver whose state is still `none` opens the penalty. -/
theorem handle_win (he : warned e = some i) (hcount : p.warnings i + 1 = 3)
    (hstate : p.states i = .none) (now : ℤ) :
    p.handle e now
      = ({ p.fetchAdd i with states := Function.update p.states i .pending }.storePitTime i,
        some (penaltyIssued e now)) := by
  have hcas := compareExchange_of_eq (p := p.fetchAdd i) hstate .pending
  unfold handle
  simp only [he, hcount, if_true, hcas]
  rfl

theorem handle_lose (he : warned e = some i)
    (hlose : p.warnings i + 1 ≠ 3 ∨ p.states i ≠ .none) (now : ℤ) :
    p.handle e now = (p.fetchAdd i, none) := by
  unfold handle
  simp only [he]
  by_cases hcount : p.warnings i + 1 = 3
  · have hstate := hlose.resolve_left (not_not.2 hcount)
    have hcas := compareExchange_of_ne (p := p.fetchAdd i) hstate .pending
    rw [if_pos hcount, hcas]
  · rw [if_neg hcount]

theorem handle_type {a : RaceControlEvent} {now : ℤ} (ha : (p.handle e now).2 = some a) :
    a.type = .penaltyIssued := by
  rcases he : warned e with _ | i
  · rw [handle_skip he] at ha
    cases ha
  by_cases hwin : p.warnings i + 1 = 3 ∧ p.states i = .none
  · rw [handle_win he hwin.1 hwin.2] at ha
    cases ha
    rfl
  · rw [handle_lose he (not_and_or.1 hwin)] at ha
    cases ha

end Handle

theorem announcements_type {p : PenaltyEnforcer} {batch : List (RaceControlEvent × ℤ)}
    {a : RaceControlEvent} (ha : a ∈ p.announcements batch) : a.type = .penaltyIssued := by
  induction batch generalizing p with
  | nil => cases ha
  | cons x batch ih =>
    rw [announcements, List.mem_append, Option.mem_toList] at ha
    rcases ha with ha | ha
    · exact handle_type ha
    · exact ih ha

/-- The steps of a call after its first. -/
def EnforcerLabel.consumes : EnforcerLabel → Bool
  | .drain _ | .process _ => true
  | _ => false

theorem EnforcerLabel.eq_of_consumes {l : EnforcerLabel} (h : l.consumes = true) :
    (∃ found, l = .drain found) ∨ ∃ now, l = .process now := by
  cases l with
  | drain found => exact .inl ⟨found, rfl⟩
  | process now => exact .inr ⟨now, rfl⟩
  | _ => cases h

/-- The enforcer where nobody but the call in progress takes a step. -/
def callSystem : System EnforcerState EnforcerLabel :=
  enforcerSystem.guarded fun _ l => l.consumes = true

section Steps

variable {s s' : EnforcerState}

theorem callSystem_process {now : ℤ} (hst : s.process now = some s') :
    ∃ l, callSystem.step s l = some s' := ⟨.process now, hst⟩

/-- The drain step by step, with nobody else pushing, is the drain of the call. -/
theorem leads_popAll {batch : List RaceControlEvent} (hpc : s.pc = .drain batch) :
    callSystem.Leads s
      { s with queue := (popAll batch s.queue).2, pc := .loop (popAll batch s.queue).1 } := by
  obtain ⟨p, queue, pc, handled, announced⟩ := s
  cases hpc
  induction queue generalizing batch with
  | nil => exact .single ⟨.drain false, rfl⟩
  | cons e queue ih => exact .head ⟨.drain true, rfl⟩ ih

/-- The exchange succeeds, and the penalty is announced. -/
theorem leads_won {e : RaceControlEvent} {i : Fin 20} {batch : List RaceControlEvent}
    (hpc : s.pc = .compare e i 3 batch) (hstate : s.enforcer.states i = .none) (now : ℤ) :
    ∃ s', callSystem.Leads s s' ∧ s'.pc = .loop batch
      ∧ s'.enforcer = { s.enforcer with
          states := Function.update s.enforcer.states i .pending }.storePitTime i
      ∧ s'.queue = s.queue ++ [penaltyIssued e now] := by
  have hcas := compareExchange_of_eq hstate .pending
  let won : EnforcerState := { s with
    enforcer := { s.enforcer with states := Function.update s.enforcer.states i .pending }
    pc := .push e i batch }
  let pushed : EnforcerState := { won with
    queue := s.queue ++ [penaltyIssued e now]
    pc := .store i batch
    announced := s.announced ++ [penaltyIssued e now] }
  have hexchange : s.process now = some won := by
    simp only [EnforcerState.process, hpc, if_true, hcas]
    rfl
  have hpush : won.process now = some pushed := rfl
  have hstore : pushed.process now = some { pushed with
      enforcer := won.enforcer.storePitTime i
      pc := .loop batch } := rfl
  exact ⟨_, .head (callSystem_process hexchange) (.head (callSystem_process hpush)
    (.single (callSystem_process hstore))), rfl, rfl, rfl⟩

/-- Too few warnings or too many, or a penalty that is open already. -/
theorem process_lost {e : RaceControlEvent} {i : Fin 20} {count : BitVec 32}
    {batch : List RaceControlEvent} (hpc : s.pc = .compare e i count batch)
    (hlose : count ≠ 3 ∨ s.enforcer.states i ≠ .none) (now : ℤ) :
    s.process now = some { s with pc := .loop batch } := by
  simp only [EnforcerState.process, hpc]
  by_cases hthree : count = 3
  · have hstate := hlose.resolve_left (not_not.2 hthree)
    rw [if_pos hthree, compareExchange_of_ne hstate]
  · rw [if_neg hthree]

/-- The body of the loop step by step is the body of the call. -/
theorem leads_handle {e : RaceControlEvent} {batch : List RaceControlEvent}
    (hpc : s.pc = .loop (e :: batch)) (now : ℤ) :
    ∃ s', callSystem.Leads s s' ∧ s'.pc = .loop batch
      ∧ s'.enforcer = (s.enforcer.handle e now).1
      ∧ s'.queue = s.queue ++ (s.enforcer.handle e now).2.toList := by
  rcases he : warned e with _ | i
  · have hst : s.process now = some { s with pc := .loop batch } := by
      simp only [EnforcerState.process, hpc, he]
    refine ⟨_, .single (callSystem_process hst), rfl, ?_⟩
    rw [handle_skip he]
    simp
  let counted : EnforcerState := { s with
    enforcer := s.enforcer.fetchAdd i
    pc := .compare e i (s.enforcer.warnings i + 1) batch
    handled := s.handled ++ [e] }
  have hcount : s.process now = some counted := by
    simp only [EnforcerState.process, hpc, he]
    rfl
  by_cases hwin : s.enforcer.warnings i + 1 = 3 ∧ s.enforcer.states i = .none
  · obtain ⟨hthree, hstate⟩ := hwin
    obtain ⟨s', hl, hpc', henforcer, hqueue⟩ :=
      leads_won (s := counted) (by rw [← hthree]) hstate now
    refine ⟨s', .head (callSystem_process hcount) hl, hpc', ?_⟩
    rw [handle_win he hthree hstate]
    exact ⟨henforcer, hqueue⟩
  · have hlose := not_and_or.1 hwin
    have hlost := process_lost (s := counted) rfl hlose now
    refine ⟨_, .head (callSystem_process hcount) (.single (callSystem_process hlost)), rfl, ?_⟩
    rw [handle_lose he hlose]
    exact ⟨rfl, (List.append_nil _).symm⟩

/-- The loop step by step is the loop of the call. -/
theorem leads_handleAll (batch : List (RaceControlEvent × ℤ)) {s : EnforcerState}
    (hpc : s.pc = .loop (batch.map Prod.fst)) :
    ∃ s', callSystem.Leads s s' ∧ s'.pc = .idle
      ∧ s'.enforcer = (s.enforcer.handleAll s.queue batch).1
      ∧ s'.queue = (s.enforcer.handleAll s.queue batch).2 := by
  induction batch generalizing s with
  | nil =>
    have hst : s.process 0 = some { s with pc := .idle } := by
      simp only [EnforcerState.process, hpc, List.map_nil]
    exact ⟨_, .single (callSystem_process hst), rfl, rfl, rfl⟩
  | cons x batch ih =>
    obtain ⟨e, now⟩ := x
    obtain ⟨s₁, hl₁, hpc₁, henf₁, hqueue₁⟩ := leads_handle hpc now
    obtain ⟨s₂, hl₂, hpc₂, henf₂, hqueue₂⟩ := ih hpc₁
    refine ⟨s₂, hl₁.trans hl₂, hpc₂, ?_, ?_⟩
    · rw [henf₂, henf₁, hqueue₁]
      rfl
    · rw [hqueue₂, henf₁, hqueue₁]
      rfl

theorem map_fst_timed (batch : List RaceControlEvent) (clock : ℕ → ℤ) :
    (timed batch clock).map Prod.fst = batch := by
  rw [timed, List.map_map]
  exact List.zipIdx_map_fst 0 batch

/-- A call is what its steps do where nobody else takes one. -/
theorem leads_processEvents (hpc : s.pc = .drain []) (clock : ℕ → ℤ) :
    ∃ s', callSystem.Leads s s' ∧ s'.pc = .idle
      ∧ s'.enforcer = (s.enforcer.processEvents s.queue clock).1
      ∧ s'.queue = (s.enforcer.processEvents s.queue clock).2 := by
  have hdrain := leads_popAll hpc
  simp only [popAll_eq, List.nil_append] at hdrain
  obtain ⟨s', hl, hpc', henf, hqueue⟩ := leads_handleAll (timed s.queue clock)
    (s := { s with queue := [], pc := .loop s.queue }) (by rw [map_fst_timed])
  refine ⟨s', hdrain.trans hl, hpc', ?_, ?_⟩
  · rw [henf, processEvents, popAll_eq]
    rfl
  · rw [hqueue, processEvents, popAll_eq]
    rfl

/-- The call from outside it. -/
theorem leads_call (hpc : s.pc = .idle) (clock : ℕ → ℤ) :
    ∃ s', enforcerSystem.Leads s s' ∧ s'.pc = .idle
      ∧ s'.enforcer = (s.enforcer.processEvents s.queue clock).1
      ∧ s'.queue = (s.enforcer.processEvents s.queue clock).2 := by
  have hcall : enforcerSystem.step s .callProcess = some { s with pc := .drain [] } := by
    simp only [enforcerSystem, EnforcerState.step, hpc]
  obtain ⟨s', hl, hs'⟩ := leads_processEvents (s := { s with pc := .drain [] }) rfl clock
  exact ⟨s', .head ⟨_, hcall⟩ hl.of_guarded, hs'⟩

end Steps

section Calls

/-- The events that are not for the enforcer. -/
def others (events : List RaceControlEvent) : List RaceControlEvent :=
  events.filter fun e => e.type ≠ .trackLimits

/-- All of these that were ever pushed are still waiting, in their order. -/
def EventQueueState.KeepsOthers (s : EventQueueState) : Prop := others s.queue = others s.pushed

theorem queue_eq_pushedSince {s : EventQueueState} (h : eventQueueSystem.Reachable s) :
    s.queue = s.pushedSince := by
  refine h.invariant (I := fun s => s.queue = s.pushedSince) rfl ?_
  rintro s (e | clock) s' - hq - hst <;> cases hst
  · exact congrArg (· ++ [e]) hq
  · exact processEvents_queue ..

/-- What waits is what was pushed since the latest call began, its announcements first; the call
before took out the rest, of whatever type. -/
theorem call_leaves_announcements {s : EventQueueState} (h : eventQueueSystem.Reachable s) :
    s.queue = s.pushedSince
      ∧ ∀ clock s', eventQueueSystem.step s (.processEvents clock) = some s' →
        s'.queue = s.enforcer.announcements (timed s.queue clock)
          ∧ (∀ e ∈ s'.queue, e.type = .penaltyIssued)
          ∧ s'.pushed = s.pushed ++ s'.queue
          ∧ (s'.KeepsOthers ↔ others s.pushed = []) := by
  have hq := queue_eq_pushedSince h
  refine ⟨hq, fun clock s' hst => ?_⟩
  have hqueue : s'.queue = s.enforcer.announcements (timed s.queue clock) := by
    cases hst
    exact processEvents_queue ..
  have hpushed : s'.pushed = s.pushed ++ s'.queue := by
    rw [hqueue]
    cases hst
    rfl
  refine ⟨hqueue, fun e he => announcements_type (hqueue ▸ he), hpushed, ?_⟩
  have hothers : others (s.pushed ++ s'.queue) = others s.pushed ++ others s'.queue :=
    List.filter_append ..
  rw [EventQueueState.KeepsOthers, hpushed, hothers, List.self_eq_append_left]

/-- Three warnings and a change of weather, and two calls: the first takes out the change of
weather, the second its own announcement. -/
def weatherThenCalls : List EventQueueOp :=
  let warning : RaceControlEvent := ⟨.trackLimits, .ofId "VER", 5, "", 0⟩
  let weather : RaceControlEvent := ⟨.weatherChange, .empty, 5, "Weather: DAMP", 0⟩
  [.push warning, .push warning, .push weather, .push warning, .processEvents fun _ => 1,
    .processEvents fun _ => 2]

theorem call_leaves_announcements_weather :
    let s := (eventQueueSystem.run eventQueueSystem.init (weatherThenCalls.take 5)).get (by decide)
    s.queue.map (·.type) = [.penaltyIssued] ∧ s.queue = s.pushedSince :=
  have hs := System.reachable_get (M := eventQueueSystem) (weatherThenCalls.take 5) (by decide)
  ⟨by decide, (call_leaves_announcements hs).1⟩

theorem not_keepsOthers_weatherThenCalls :
    ¬EventQueueState.KeepsOthers
      ((eventQueueSystem.run eventQueueSystem.init weatherThenCalls).get (by decide)) := by
  unfold EventQueueState.KeepsOthers
  decide

end Calls

end RaceConditionZ
