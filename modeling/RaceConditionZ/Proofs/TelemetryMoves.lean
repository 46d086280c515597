import RaceConditionZ.Proofs.SpscFifo
import RaceConditionZ.Telemetry

/-!
# The steps of the telemetry side

Each step is the generator's thread's, the consumer's or the main thread's (`Move`). The consumer
leaves the producer's side of the queue alone, and the pipeline never looks at the lap in the race
state, so it runs as it does without the calls of `set_lap`.
-/

namespace RaceConditionZ

open Transition

section Pipeline

/-- What a step of a push adds to what was pushed. -/
theorem SpscState.push_adds {T : Type} {r : RingSize} {s s' : SpscState T} {p : Push T}
    (hp : s.producer = some p) (hst : s.step r .push = some s') :
    ∃ p', s'.producer = some p' ∧ p'.item = p.item
      ∧ s'.history.pushed
        = s.history.pushed ++ if p'.pc = .returned true then [p.item] else [] := by
  simp only [SpscState.step, hp, Option.bind_some, Option.map_eq_some_iff, Prod.exists] at hst
  obtain ⟨q', p', hpush, rfl⟩ := hst
  refine ⟨p', rfl, ?_⟩
  unfold SpscQueue.push at hpush
  unfold SpscState.notePush
  rcases hpc : p.pc with _ | tail | tail | tail | tail | tail | tail | ok <;>
    simp only [hpc, reduceCtorEq] at hpush ⊢
  · cases hpush
    simp
  · split_ifs at hpush <;> cases hpush <;> simp
  · cases hpush
    simp
  · split_ifs at hpush <;> cases hpush <;> simp
  · cases hpush
    simp
  · cases hpush
    simp
  · cases hpush
    simp

variable {F : Type} [MachineFloat F] [DecidableEq F] [DecidableLT F]
variable [Inhabited (TelemetryFrame F)] {s s' : PipelineState F}

/-- A step of the consumer leaves the producer's side alone. -/
theorem PipelineState.consume_frame {spurious : Bool} (hst : s.consume spurious = some s') :
    s'.spsc.producer = s.spsc.producer ∧ s'.spsc.history.pushed = s.spsc.history.pushed
      ∧ s'.stop = s.stop := by
  have hcall : ∀ {draining : Bool}, s.callPop draining = some s' →
      s'.spsc.producer = s.spsc.producer ∧ s'.spsc.history.pushed = s.spsc.history.pushed
        ∧ s'.stop = s.stop := by
    intro draining hcall
    simp only [PipelineState.callPop, Option.map_eq_some_iff] at hcall
    obtain ⟨spsc, hspsc, rfl⟩ := hcall
    obtain ⟨-, rfl⟩ := SpscState.of_step_callPop hspsc
    exact ⟨rfl, rfl, rfl⟩
  unfold PipelineState.consume at hst
  split at hst
  · exact hcall hst
  · exact hcall hst
  · rw [Option.bind_eq_some_iff] at hst
    obtain ⟨c, -, hst⟩ := hst
    split at hst
    · rw [Option.map_eq_some_iff] at hst
      obtain ⟨frame, -, rfl⟩ := hst
      exact ⟨rfl, rfl, rfl⟩
    · cases hst
      exact ⟨rfl, rfl, rfl⟩
    · rw [Option.map_eq_some_iff] at hst
      obtain ⟨spsc, hspsc, rfl⟩ := hst
      obtain ⟨hproducer, hpushed, -⟩ := SpscState.pop_frame hspsc
      exact ⟨hproducer, hpushed, rfl⟩
  · split at hst
    · cases hst
      exact ⟨rfl, rfl, rfl⟩
    · rw [Option.map_eq_some_iff] at hst
      obtain ⟨⟨race, pc⟩, -, rfl⟩ := hst
      exact ⟨rfl, rfl, rfl⟩
  · cases hst
    exact ⟨rfl, rfl, rfl⟩
  · cases hst

omit [Inhabited (TelemetryFrame F)] in
theorem RaceState.tryClaimFastestLap_setLap (rs : RaceState F) (c : LapClaim F) (spurious : Bool)
    (pc : ClaimPc F) (lap : ℤ) :
    (rs.setLap lap).tryClaimFastestLap c spurious pc
      = (rs.tryClaimFastestLap c spurious pc).map fun (rs, pc) => (rs.setLap lap, pc) := by
  unfold tryClaimFastestLap setLap
  rcases pc with _ | currentBest | currentBest | _ | won
  · rfl
  · simp only []
    split <;> rfl
  · simp only []
    split <;> rfl
  · rfl
  · rfl

theorem PipelineState.consume_setLap {spurious : Bool} (hst : s.consume spurious = some s')
    (lap : ℤ) : (s.setLap lap).consume spurious = some (s'.setLap lap) := by
  obtain ⟨spsc, race, pc, stop, examined⟩ := s
  rcases pc with _ | _ | draining | ⟨draining, claim, pc⟩ | _ | _
  · simp only [consume, callPop, setLap, Option.map_eq_some_iff] at hst ⊢
    obtain ⟨spsc', hspsc, rfl⟩ := hst
    exact ⟨spsc', hspsc, rfl⟩
  · simp only [consume, callPop, setLap, Option.map_eq_some_iff] at hst ⊢
    obtain ⟨spsc', hspsc, rfl⟩ := hst
    exact ⟨spsc', hspsc, rfl⟩
  · simp only [consume, setLap, Option.bind_eq_some_iff] at hst ⊢
    obtain ⟨c, hc, hst⟩ := hst
    refine ⟨c, hc, ?_⟩
    split at hst
    · rw [Option.map_eq_some_iff] at hst ⊢
      obtain ⟨frame, hframe, rfl⟩ := hst
      exact ⟨frame, hframe, rfl⟩
    · cases hst
      rfl
    · rw [Option.map_eq_some_iff] at hst ⊢
      obtain ⟨spsc', hspsc, rfl⟩ := hst
      exact ⟨spsc', hspsc, rfl⟩
  · have hclaim : ∀ pc : ClaimPc F,
        (race.tryClaimFastestLap claim spurious pc).map (fun (race, pc) =>
          (⟨spsc, race, .claim draining claim pc, stop, examined⟩ : PipelineState F)) = some s' →
        ((race.setLap lap).tryClaimFastestLap claim spurious pc).map (fun (race, pc) =>
          (⟨spsc, race, .claim draining claim pc, stop, examined⟩ : PipelineState F))
          = some (s'.setLap lap) := by
      intro pc hst
      rw [RaceState.tryClaimFastestLap_setLap]
      obtain ⟨⟨race', pc'⟩, htry, hs'⟩ := Option.map_eq_some_iff.1 hst
      rw [htry, ← hs']
      rfl
    rcases pc with _ | currentBest | currentBest | _ | won
    · exact hclaim .load hst
    · exact hclaim (.compare currentBest) hst
    · exact hclaim (.exchange currentBest) hst
    · exact hclaim .storeHolder hst
    · cases hst
      rfl
  · cases hst
    rfl
  · cases hst

/-- The steps of the pipeline do not depend on the lap. -/
theorem PipelineState.step_setLap {l : PipelineLabel F} (hst : s.step l = some s') (lap : ℤ) :
    (s.setLap lap).step l = some (s'.setLap lap) := by
  obtain ⟨spsc, race, pc, stop, examined⟩ := s
  rcases l with ⟨frame, byMove⟩ | _ | spurious | _ | _
  · simp only [PipelineState.step, Option.ite_none_right_eq_some,
      Option.map_eq_some_iff] at hst
    obtain ⟨hstop, spsc', hspsc, rfl⟩ := hst
    exact (if_pos hstop).trans (Option.map_eq_some_iff.2 ⟨spsc', hspsc, rfl⟩)
  · simp only [PipelineState.step, Option.map_eq_some_iff] at hst
    obtain ⟨spsc', hspsc, rfl⟩ := hst
    exact Option.map_eq_some_iff.2 ⟨spsc', hspsc, rfl⟩
  · exact PipelineState.consume_setLap hst lap
  · simp only [PipelineState.step, Option.ite_none_right_eq_some, Option.some.injEq] at hst
    obtain ⟨hstop, rfl⟩ := hst
    exact if_pos hstop
  · simp only [PipelineState.step, Option.ite_none_right_eq_some] at hst
    obtain ⟨hstop, hst⟩ := hst
    refine (if_pos hstop).trans ?_
    split at hst
    · cases hst
      rfl
    · cases hst

/-- So they leave the lap alone. -/
theorem PipelineState.step_currentLap {l : PipelineLabel F} (hst : s.step l = some s') :
    s'.race.currentLap = s.race.currentLap := by
  have hsame : s.step l = some (s'.setLap s.race.currentLap) :=
    PipelineState.step_setLap hst s.race.currentLap
  rw [hst] at hsame
  rw [Option.some.inj hsame, PipelineState.setLap_currentLap]

end Pipeline

namespace TelemetryState

variable {θ : Type} {s s' : TelemetryState θ}

/-- The steps of the three threads. -/
inductive Move [DecidableEq θ] (tid : θ) (s : TelemetryState θ) : TelemetryState θ → Prop
  | leave (hpc : s.pc = .testStop) : Move tid s { s with pc := .returned }
  | enter (hpc : s.pc = .testStop) (hstop : s.stop = .notCalled) :
      Move tid s { s with pc := .drive (List.finRange 20) }
  | drive {x : DriverInput} {i : Fin 20} {rest : List (Fin 20)} {s' : TelemetryState θ}
      (hpc : s.pc = .drive (i :: rest)) (hst : s.drive x i rest = some s') : Move tid s s'
  | push {rest : List (Fin 20)} {p : Push (TelemetryFrame ℚ)} {pipeline : PipelineState ℚ}
      (hpc : s.pc = .push rest) (hp : s.pipeline.spsc.producer = some p)
      (hp' : ∀ ok, p.pc ≠ .returned ok) (hst : s.pipeline.step .push = some pipeline) :
      Move tid s { s with pipeline := pipeline }
  | pushed {rest : List (Fin 20)} {p : Push (TelemetryFrame ℚ)} {ok : Bool}
      (hpc : s.pc = .push rest) (hp : s.pipeline.spsc.producer = some p)
      (hret : p.pc = .returned ok) :
      Move tid s { s with pc := .drive rest, refused := if ok then s.refused else s.refused + 1 }
  | publish {s' : TelemetryState θ} (hpc : s.pc = .drive []) (hst : s.publish tid = some s') :
      Move tid s s'
  | consume {spurious : Bool} {pipeline : PipelineState ℚ}
      (hst : s.pipeline.step (.consume spurious) = some pipeline) :
      Move tid s { s with pipeline := pipeline }
  | callStop (hstop : s.stop = .notCalled) : Move tid s { s with stop := .requested }
  | join (hstop : s.stop = .requested) (hpc : s.pc = .returned) :
      Move tid s { s with stop := .returned }
  | stopConsumer {l : PipelineLabel ℚ} {pipeline : PipelineState ℚ} (hstop : s.stop = .returned)
      (hl : l = .requestStop ∨ l = .join) (hst : s.pipeline.step l = some pipeline) :
      Move tid s { s with pipeline := pipeline }

theorem move_of_generate [DecidableEq θ] {tid : θ} {x : DriverInput}
    (hst : s.generate tid x = some s') : s.Move tid s' := by
  unfold TelemetryState.generate at hst
  split at hst
  · rename_i hpc
    split_ifs at hst with hleave
    · obtain rfl := Option.some.inj hst
      exact .leave hpc
    · obtain rfl := Option.some.inj hst
      exact .enter hpc (not_not.1 fun hne => hleave (.inl hne))
  · exact .drive ‹_› hst
  · rename_i hpc
    rw [Option.bind_eq_some_iff] at hst
    obtain ⟨p, hp, hst⟩ := hst
    split at hst
    · rename_i hret
      obtain rfl := Option.some.inj hst
      exact .pushed hpc hp hret
    · rename_i hret
      rw [Option.map_eq_some_iff] at hst
      obtain ⟨pipeline, hpipeline, rfl⟩ := hst
      exact .push hpc hp hret hpipeline
  · exact .publish ‹_› hst
  · cases hst

theorem move_of_main [DecidableEq θ] {tid : θ} (hst : s.main = some s') : s.Move tid s' := by
  unfold TelemetryState.main at hst
  split at hst
  · obtain rfl := Option.some.inj hst
    exact .callStop ‹_›
  · split_ifs at hst with hpc
    obtain rfl := Option.some.inj hst
    exact .join ‹_› hpc
  · simp only [Option.map_eq_some_iff] at hst
    obtain ⟨pipeline, hpipeline, rfl⟩ := hst
    refine .stopConsumer ‹_› ?_ hpipeline
    split_ifs
    · exact .inl rfl
    · exact .inr rfl

theorem move_of_step [DecidableEq θ] {tid : θ} {l : TelemetryLabel}
    (hst : TelemetryState.step tid s l = some s') : s.Move tid s' := by
  rcases l with x | spurious | _
  · exact move_of_generate hst
  · simp only [TelemetryState.step, Option.map_eq_some_iff] at hst
    obtain ⟨pipeline, hpipeline, rfl⟩ := hst
    exact .consume hpipeline
  · exact move_of_main hst

end TelemetryState

end RaceConditionZ
