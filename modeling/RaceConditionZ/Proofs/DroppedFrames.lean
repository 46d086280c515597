import RaceConditionZ.Proofs.Printout

/-!
# Frames that find the queue full

Where the queue is full, `tick` drops a frame rather than wait for the consumer. So what has been
pushed is what was offered without the frames dropped, in its order. The producer takes the queue
for full only where 2047 frames were waiting when it last looked, and that many must have been
pushed before.
-/

namespace RaceConditionZ

open Transition

/-- What was waiting when the producer last looked changes only as it looks again. -/
theorem SpscState.heldAtPush_of_step {T : Type} {r : RingSize} {s s' : SpscState T}
    {l : SpscLabel T} (hst : s.step r l = some s') :
    (s'.history.heldAtPush = s.history.heldAtPush ∨ s'.history.heldAtPush = s.waiting.length)
      ∧ s.history.pushed.length ≤ s'.history.pushed.length := by
  unfold waiting
  rw [List.length_drop]
  cases l with
  | callPush item byMove =>
    obtain ⟨-, rfl⟩ := of_step_callPush hst
    exact ⟨.inl rfl, le_rfl⟩
  | push =>
    obtain ⟨p, -, q', p', -, rfl⟩ := of_step_push hst
    unfold notePush
    split
    · exact ⟨.inr rfl, le_rfl⟩
    · exact ⟨.inl rfl, by simp⟩
    · exact ⟨.inl rfl, le_rfl⟩
  | callPop out =>
    obtain ⟨-, rfl⟩ := of_step_callPop hst
    exact ⟨.inl rfl, le_rfl⟩
  | pop =>
    obtain ⟨c, -, q', c', -, rfl⟩ := of_step_pop hst
    unfold notePop
    split
    · exact ⟨.inl rfl, le_rfl⟩
    · exact ⟨.inl rfl, le_rfl⟩
    · exact ⟨.inl rfl, le_rfl⟩

section Pipeline

variable {F : Type} [MachineFloat F] [DecidableEq F] [DecidableLT F]
variable [Inhabited (TelemetryFrame F)] {s s' : PipelineState F}

omit [DecidableEq F] [Inhabited (TelemetryFrame F)] in
theorem PipelineInv.examined_prefix (hI : PipelineInv s) :
    s.examined <+: s.spsc.history.pushed := by
  have hpopped : s.examined.map some <+: s.spsc.history.popped := by
    rw [hI.popped_eq]
    exact List.prefix_append ..
  rw [hI.spsc.ring.popped_eq] at hpopped
  exact (List.prefix_map_iff_of_injective (Option.some_injective _)).1
    (hpopped.trans ((List.take_prefix ..).map some))

/-- The two calls of `stop` leave the queue alone. -/
theorem PipelineState.spsc_of_stop {l : PipelineLabel F} (hl : l = .requestStop ∨ l = .join)
    (hst : s.step l = some s') : s'.spsc = s.spsc := by
  rcases hl with rfl | rfl
  · simp only [PipelineState.step, Option.ite_none_right_eq_some, Option.some.injEq] at hst
    obtain ⟨-, rfl⟩ := hst
    rfl
  · simp only [PipelineState.step, Option.ite_none_right_eq_some] at hst
    obtain ⟨-, hst⟩ := hst
    split at hst
    · obtain rfl := Option.some.inj hst
      rfl
    · cases hst

/-- A step of the pipeline takes one step of the queue, or none. -/
theorem PipelineState.spsc_of_step {l : PipelineLabel F} (hst : s.step l = some s') :
    s'.spsc = s.spsc ∨ ∃ k, s.spsc.step telemetryRing k = some s'.spsc := by
  have hqueue : ∀ {k : SpscLabel (TelemetryFrame F)} {f : SpscState (TelemetryFrame F) → _},
      (∀ spsc, (f spsc).spsc = spsc) → (s.spsc.step telemetryRing k).map f = some s' →
      s'.spsc = s.spsc ∨ ∃ k, s.spsc.step telemetryRing k = some s'.spsc := by
    intro k f hf hst
    obtain ⟨spsc, hspsc, rfl⟩ := Option.map_eq_some_iff.1 hst
    exact .inr ⟨k, by rw [hf, hspsc]⟩
  cases l with
  | callPush frame byMove =>
    simp only [PipelineState.step, Option.ite_none_right_eq_some] at hst
    exact hqueue (fun _ => rfl) hst.2
  | push => exact hqueue (fun _ => rfl) hst
  | consume spurious =>
    simp only [PipelineState.step] at hst
    unfold consume at hst
    split at hst
    · exact hqueue (fun _ => rfl) hst
    · exact hqueue (fun _ => rfl) hst
    · obtain ⟨c, -, hst⟩ := Option.bind_eq_some_iff.1 hst
      split at hst
      · obtain ⟨frame, -, rfl⟩ := Option.map_eq_some_iff.1 hst
        exact .inl rfl
      · obtain rfl := Option.some.inj hst
        exact .inl rfl
      · exact hqueue (fun _ => rfl) hst
    · split at hst
      · obtain rfl := Option.some.inj hst
        exact .inl rfl
      · obtain ⟨⟨race, pc⟩, -, rfl⟩ := Option.map_eq_some_iff.1 hst
        exact .inl rfl
    · obtain rfl := Option.some.inj hst
      exact .inl rfl
    · cases hst
  | requestStop => exact .inl (spsc_of_stop (.inl rfl) hst)
  | join => exact .inl (spsc_of_stop (.inr rfl) hst)

end Pipeline

namespace TelemetryState

variable {θ : Type}

/-- The frames offered that no push has refused, the one in its push included. -/
def unrefused (s : TelemetryState θ) : List (TelemetryFrame ℚ) :=
  s.pipeline.spsc.history.pushed ++ s.inPush

/-- The frames that have been offered, by what has become of them. -/
structure Accounted (s : TelemetryState θ) : Prop where
  sublist : s.unrefused.Sublist s.generator.offered
  length_eq : s.unrefused.length + s.refused = s.generator.offered.length

variable {s s' : TelemetryState θ}

theorem inPush_eq_nil (h : ∀ rest, s.pc ≠ .push rest) : s.inPush = [] := by
  unfold inPush
  split
  · exact absurd ‹_› (h _)
  · rfl

theorem unrefused_eq_pushed (h : ∀ rest, s.pc ≠ .push rest) :
    s.unrefused = s.pipeline.spsc.history.pushed := by
  unfold unrefused
  rw [inPush_eq_nil h, List.append_nil]

theorem Accounted.of_same (h : s.Accounted) (hunrefused : s'.unrefused = s.unrefused)
    (hrefused : s'.refused = s.refused) (hoffered : s'.generator.offered = s.generator.offered) :
    s'.Accounted := by
  refine ⟨?_, ?_⟩
  · rw [hunrefused, hoffered]
    exact h.sublist
  · rw [hunrefused, hrefused, hoffered]
    exact h.length_eq

/-- A step that leaves the producer's side of the queue alone, outside a push. -/
theorem Accounted.outside (h : s.Accounted) (hpc : ∀ rest, s.pc ≠ .push rest)
    (hpc' : ∀ rest, s'.pc ≠ .push rest)
    (hpushed : s'.pipeline.spsc.history.pushed = s.pipeline.spsc.history.pushed)
    (hrefused : s'.refused = s.refused) (hoffered : s'.generator.offered = s.generator.offered) :
    s'.Accounted := by
  refine h.of_same ?_ hrefused hoffered
  rw [unrefused_eq_pushed hpc, unrefused_eq_pushed hpc', hpushed]

/-- A driver's turn offers a frame, and its push begins. -/
theorem unrefused_drive {x : DriverInput} {i : Fin 20} {rest : List (Fin 20)}
    (hst : s.drive x i rest = some s') : ∃ frame,
      s'.unrefused = s.pipeline.spsc.history.pushed ++ [frame]
      ∧ s'.generator.offered = s.generator.offered ++ [frame] ∧ s'.refused = s.refused := by
  unfold TelemetryState.drive at hst
  simp only [Option.map_eq_some_iff] at hst
  obtain ⟨pipeline, hpipeline, rfl⟩ := hst
  simp only [PipelineState.step, SpscState.step, Option.ite_none_right_eq_some,
    Option.map_eq_some_iff, Option.some.injEq] at hpipeline
  obtain ⟨-, spsc, ⟨-, rfl⟩, rfl⟩ := hpipeline
  refine ⟨_, rfl, ?_, rfl⟩
  simp only [TelemetryGenerator.tickDriver_offered, TelemetryGenerator.tickDriver_state]
  rfl

theorem Accounted.drive {x : DriverInput} {i : Fin 20} {rest : List (Fin 20)} (h : s.Accounted)
    (hpc : s.pc = .drive (i :: rest)) (hst : s.drive x i rest = some s') : s'.Accounted := by
  obtain ⟨hsublist, hlength⟩ := h
  obtain ⟨frame, hunrefused, hoffered, hrefused⟩ := unrefused_drive hst
  rw [unrefused_eq_pushed (by simp [hpc])] at hsublist hlength
  refine ⟨?_, ?_⟩
  · rw [hunrefused, hoffered]
    exact hsublist.append_right _
  · rw [hunrefused, hoffered, hrefused, List.length_append, List.length_append, ← hlength]
    omega

/-- A step of the push publishes its frame, or leaves it in the push. -/
theorem Accounted.push {rest : List (Fin 20)} {p : Push (TelemetryFrame ℚ)}
    {pipeline : PipelineState ℚ} (h : s.Accounted) (hpc : s.pc = .push rest)
    (hp : s.pipeline.spsc.producer = some p) (hp' : ∀ ok, p.pc ≠ .returned ok)
    (hst : s.pipeline.step .push = some pipeline) :
    Accounted { s with pipeline := pipeline } := by
  simp only [PipelineState.step, Option.map_eq_some_iff] at hst
  obtain ⟨spsc, hspsc, rfl⟩ := hst
  obtain ⟨p', hproducer, hitem, hpushed⟩ := SpscState.push_adds hp hspsc
  refine h.of_same ?_ rfl rfl
  unfold unrefused inPush
  simp only [hpc, hp, if_neg (hp' true), hproducer, hpushed, hitem, List.append_assoc]
  split_ifs <;> rfl

/-- The `push` of a frame has come back; a frame refused is dropped. -/
theorem Accounted.pushed {rest : List (Fin 20)} {p : Push (TelemetryFrame ℚ)} {ok : Bool}
    (h : s.Accounted) (hpc : s.pc = .push rest) (hp : s.pipeline.spsc.producer = some p)
    (hret : p.pc = .returned ok) : Accounted { s with
      pc := .drive rest
      refused := if ok then s.refused else s.refused + 1 } := by
  obtain ⟨hsublist, hlength⟩ := h
  have hafter : unrefused { s with
      pc := .drive rest
      refused := if ok then s.refused else s.refused + 1 } = s.pipeline.spsc.history.pushed :=
    unrefused_eq_pushed (by simp)
  unfold unrefused inPush at hsublist hlength
  simp only [hpc, hp, hret] at hsublist hlength
  refine ⟨?_, ?_⟩
  · rw [hafter]
    exact (List.sublist_append_left ..).trans hsublist
  · rw [hafter]
    cases ok with
    | false =>
      simp only [PushPc.returned.injEq, reduceCtorEq, if_false, List.length_append,
        List.length_singleton] at hlength ⊢
      omega
    | true =>
      simp only [if_true, List.append_nil] at hlength ⊢
      exact hlength

theorem Accounted.move [DecidableEq θ] {tid : θ} (h : s.Accounted) (hmove : s.Move tid s') :
    s'.Accounted := by
  have hconsumer : ∀ {pipeline : PipelineState ℚ},
      pipeline.spsc.producer = s.pipeline.spsc.producer →
      pipeline.spsc.history.pushed = s.pipeline.spsc.history.pushed →
      Accounted { s with pipeline := pipeline } := by
    intro pipeline hproducer hpushed
    refine h.of_same ?_ rfl rfl
    unfold unrefused inPush
    simp only [hproducer, hpushed]
  cases hmove with
  | leave hpc => exact h.outside (by simp [hpc]) (by simp) rfl rfl rfl
  | enter hpc hstop => exact h.outside (by simp [hpc]) (by simp) rfl rfl rfl
  | drive hpc hst => exact h.drive hpc hst
  | push hpc hp hp' hst => exact h.push hpc hp hp' hst
  | pushed hpc hp hret => exact h.pushed hpc hp hret
  | publish hpc hst =>
    unfold TelemetryState.publish at hst
    obtain ⟨board, -, rfl⟩ := Option.map_eq_some_iff.1 hst
    exact h.outside (by simp [hpc]) (by simp) rfl rfl
      (TelemetryGenerator.updatePositionsAndDrs_offered _)
  | consume hst =>
    obtain ⟨hproducer, hpushed, -⟩ := PipelineState.consume_frame hst
    exact hconsumer hproducer hpushed
  | callStop | join => exact h.of_same rfl rfl rfl
  | @stopConsumer l pipeline _ hl hst =>
    have hspsc : pipeline.spsc = s.pipeline.spsc := PipelineState.spsc_of_stop hl hst
    exact hconsumer (by rw [hspsc]) (by rw [hspsc])

/-- The step after which a frame counts as refused, and what the queue does in a step. -/
theorem Move.queue [DecidableEq θ] {tid : θ} (hmove : s.Move tid s') :
    (s'.pipeline.spsc = s.pipeline.spsc
        ∨ ∃ k, s.pipeline.spsc.step telemetryRing k = some s'.pipeline.spsc)
      ∧ (s'.refused ≠ s.refused →
        ∃ p, s.pipeline.spsc.producer = some p ∧ p.pc = .returned false) := by
  cases hmove with
  | leave | enter | callStop | join => exact ⟨.inl rfl, fun h => absurd rfl h⟩
  | drive hpc hst =>
    unfold TelemetryState.drive at hst
    obtain ⟨pipeline, hpipeline, rfl⟩ := Option.map_eq_some_iff.1 hst
    exact ⟨PipelineState.spsc_of_step hpipeline, fun h => absurd rfl h⟩
  | push hpc hp hp' hst => exact ⟨PipelineState.spsc_of_step hst, fun h => absurd rfl h⟩
  | @pushed rest p ok hpc hp hret =>
    refine ⟨.inl rfl, fun h => ⟨p, hp, ?_⟩⟩
    cases ok with
    | false => exact hret
    | true => exact absurd rfl h
  | publish hpc hst =>
    unfold TelemetryState.publish at hst
    obtain ⟨board, -, rfl⟩ := Option.map_eq_some_iff.1 hst
    exact ⟨.inl rfl, fun h => absurd rfl h⟩
  | consume hst => exact ⟨PipelineState.spsc_of_step hst, fun h => absurd rfl h⟩
  | stopConsumer _ _ hst => exact ⟨PipelineState.spsc_of_step hst, fun h => absurd rfl h⟩

theorem Accounted.of_reachable [DecidableEq θ] {tid : θ} {track : TrackProfile}
    {lapStart : Fin 20 → ℤ} (h : (telemetrySystem tid (.init track lapStart)).Reachable s) :
    s.Accounted :=
  h.invariant ⟨.refl _, rfl⟩ fun _ hI _ hst => hI.move (move_of_step hst)

end TelemetryState

/-- The turns of a tick offer one frame each. -/
theorem TelemetryGenerator.turns_offered_length (x : TickInput) (is : List (Fin 20))
    (g : TelemetryGenerator) :
    (is.foldl (fun g i => g.tickDriver x i) g).offered.length = g.offered.length + is.length := by
  induction is generalizing g with
  | nil => rfl
  | cons i is ih =>
    rw [List.foldl_cons, ih, tickDriver_offered, List.length_append, List.length_singleton,
      List.length_cons]
    omega

theorem TelemetryGenerator.ticks_offered_length (g : TelemetryGenerator) (xs : List TickInput) :
    (g.ticks xs).offered.length = g.offered.length + 20 * xs.length := by
  induction xs generalizing g with
  | nil => rfl
  | cons x xs ih =>
    rw [ticks_cons, ih, tick_offered, List.length_append, List.length_map, List.length_finRange,
      List.length_cons]
    omega

theorem RunPc.exists_of_inTick {pc : RunPc} (h : pc.inTick = true) :
    ∃ rest, pc = .drive rest ∨ pc = .push rest := by
  cases pc with
  | drive rest => exact ⟨rest, .inl rfl⟩
  | push rest => exact ⟨rest, .inr rfl⟩
  | _ => cases h

namespace ProgramState

variable {θ : Type} [DecidableEq θ] {tid : θ} {s s' : ProgramState θ}

omit [DecidableEq θ] in
@[simp]
theorem telemetrySide_spsc (s : ProgramState θ) :
    s.telemetrySide.pipeline.spsc = s.pipeline.spsc := by
  unfold telemetrySide lapSet
  split
  · exact PipelineState.setLap_spsc ..
  · rfl

/-- The consumer and its queue, whatever the lap is. -/
theorem pipelineInv_setLap {start : TelemetryGenerator}
    (h : (programSystem tid start).Reachable s) : PipelineInv (s.pipeline.setLap 1) := by
  have hside : s.telemetrySide.pipeline.setLap 1 = s.pipeline.setLap 1 := by
    unfold telemetrySide lapSet
    split <;> rfl
  rw [← hside]
  exact pipelineInv_reachable (pipeline_reachable (telemetry_reachable h))

theorem queue_of_step {l : ProgramLabel} (hst : s.step tid l = some s') :
    (s'.pipeline.spsc = s.pipeline.spsc
        ∨ ∃ k, s.pipeline.spsc.step telemetryRing k = some s'.pipeline.spsc)
      ∧ (s'.refused ≠ s.refused →
        ∃ p, s.pipeline.spsc.producer = some p ∧ p.pc = .returned false) := by
  rcases (move_of_step hst).on_telemetry with hsame | ⟨k, hk⟩
  · have hspsc := congrArg (fun t : TelemetryState θ => t.pipeline.spsc) hsame
    have hrefused := congrArg TelemetryState.refused hsame
    simp only [telemetrySide_spsc] at hspsc
    exact ⟨.inl hspsc, fun h => absurd hrefused h⟩
  · have hqueue := (TelemetryState.move_of_step hk).queue
    simp only [telemetrySide_spsc] at hqueue
    exact hqueue

variable {start : TelemetryGenerator}

/-- A frame is refused only if 2047 were waiting when the producer looked. -/
theorem held_of_refused (h : (programSystem tid start).Reachable s) {l : ProgramLabel}
    (hst : s.step tid l = some s') (hne : s'.refused ≠ s.refused) :
    s.pipeline.spsc.history.heldAtPush = 2047 := by
  obtain ⟨p, hp, hret⟩ := (queue_of_step hst).2 hne
  have hok := (pipelineInv_setLap h).spsc.push_ok p hp
  simp only [Push.Ok, hret, forall_const] at hok
  exact hok.2.2

/-- Before the first refusal, 2047 frames have been pushed. -/
theorem pushed_of_refused (h : (programSystem tid start).Reachable s) :
    s.pipeline.spsc.history.heldAtPush ≤ s.pipeline.spsc.history.pushed.length
      ∧ (s.refused ≠ 0 → 2047 ≤ s.pipeline.spsc.history.pushed.length) := by
  refine h.invariant (I := fun s : ProgramState θ =>
    s.pipeline.spsc.history.heldAtPush ≤ s.pipeline.spsc.history.pushed.length
      ∧ (s.refused ≠ 0 → 2047 ≤ s.pipeline.spsc.history.pushed.length))
    ⟨le_rfl, fun h => absurd rfl h⟩ ?_
  rintro s l s' hs ⟨hheld, hfull⟩ - hst
  have hqueue : s'.pipeline.spsc.history.heldAtPush ≤ s'.pipeline.spsc.history.pushed.length
      ∧ s.pipeline.spsc.history.pushed.length ≤ s'.pipeline.spsc.history.pushed.length := by
    rcases (queue_of_step hst).1 with hsame | ⟨k, hk⟩
    · rw [hsame]
      exact ⟨hheld, le_rfl⟩
    · obtain ⟨hheld' | hheld', hle⟩ := SpscState.heldAtPush_of_step hk
      · exact ⟨hheld' ▸ hheld.trans hle, hle⟩
      · rw [hheld', SpscState.waiting, List.length_drop]
        exact ⟨by omega, hle⟩
  refine ⟨hqueue.1, fun hne => ?_⟩
  by_cases hrefused : s'.refused = s.refused
  · exact (hfull (hrefused ▸ hne)).trans hqueue.2
  · rw [← held_of_refused hs hst hrefused]
    exact hheld.trans hqueue.2

/-- Where the queue is never full, no frame is dropped. -/
theorem refused_eq_zero {ok : ProgramState θ → ProgramLabel → Prop}
    (h : (programSystem tid start).ReachableBy ok s)
    (hroom : ∀ t l, ok t l → t.pipeline.spsc.waiting.length ≠ 2047) : s.refused = 0 := by
  refine (h.invariant (I := fun s : ProgramState θ =>
    s.pipeline.spsc.history.heldAtPush ≠ 2047 ∧ s.refused = 0) ⟨Nat.zero_ne_add_one 2046, rfl⟩ ?_).2
  rintro s l s' hs ⟨hheld, hrefused⟩ hok hst
  refine ⟨?_, ?_⟩
  · rcases (queue_of_step hst).1 with hsame | ⟨k, hk⟩
    · rw [hsame]
      exact hheld
    · rcases (SpscState.heldAtPush_of_step hk).1 with hheld' | hheld'
      · rw [hheld']
        exact hheld
      · rw [hheld']
        exact hroom s l hok
  · by_contra hne
    exact hheld (held_of_refused hs.reachable hst (by rw [hrefused]; exact hne))

omit [DecidableEq θ] in
theorem telemetrySide_pc_ne_push (hin : s.pc.inTick = false) (rest : List (Fin 20)) :
    s.telemetrySide.pc ≠ .push rest := by
  show s.pc.generator ≠ _
  cases hpc : s.pc <;> simp_all [RunPc.inTick, RunPc.generator]

variable {track : TrackProfile} {lapStart : Fin 20 → ℤ}

/-- How many frames the ticks so far have offered. -/
theorem offered_length (h : (programSystem tid (.init track lapStart)).Reachable s) :
    (s.pc.inTick = false → s.generator.offered.length = 20 * s.inputs.length)
      ∧ s.generator.offered.length ≤ 20 * s.inputs.length + 20 := by
  have hI := programInv h
  have hticks : ((TelemetryGenerator.init track lapStart).ticks s.inputs).offered.length
      = 20 * s.inputs.length :=
    (TelemetryGenerator.ticks_offered_length ..).trans (Nat.zero_add _)
  have hidle : s.pc.inTick = false → s.generator.offered.length = 20 * s.inputs.length := by
    intro hin
    rw [hI.generator hin, hticks]
  refine ⟨hidle, ?_⟩
  by_cases hin : s.pc.inTick = false
  · rw [hidle hin]
    exact Nat.le_add_right ..
  · obtain ⟨rest, hrest⟩ := RunPc.exists_of_inTick (by simpa using hin)
    obtain ⟨-, turned, hturned, hgen⟩ := hI.inTick hrest
    have hlength := congrArg List.length hturned
    rw [List.length_append, List.length_finRange] at hlength
    rw [hgen, TelemetryGenerator.turns_offered_length, hticks]
    omega

/-- Every frame is pushed and examined in its turn, or counted as refused. A frame is refused only
where the consumer is 2047 frames behind: not in the first 102 ticks, and never in a run whose
queue is never full. -/
theorem frames_accounted {ok : ProgramState θ → ProgramLabel → Prop}
    (h : (programSystem tid (.init track lapStart)).ReachableBy ok s) :
    (s.pipeline.examined <+: s.pipeline.spsc.history.pushed
        ∧ s.pipeline.spsc.history.pushed.Sublist s.generator.offered)
      ∧ (s.pc.inTick = false →
        s.pipeline.spsc.history.pushed.length + s.refused = 20 * s.inputs.length)
      ∧ (s.pipeline.stop = .returned → s.pipeline.examined = s.pipeline.spsc.history.pushed
        ∧ s.pipeline.examined.Sublist s.generator.offered
        ∧ s.pipeline.examined.length + s.refused = 20 * s.inputs.length)
      ∧ (s.refused ≠ 0 → 2047 ≤ s.pipeline.spsc.history.pushed.length)
      ∧ (s.inputs.length < 102 → s.refused = 0)
      ∧ ((∀ t l, ok t l → t.pipeline.spsc.waiting.length ≠ 2047) → s.refused = 0) := by
  have hreach := h.reachable
  have hside := telemetry_reachable hreach
  have hacc := TelemetryState.Accounted.of_reachable hside
  have hpipeline := pipelineInv_setLap hreach
  have hseen : s.pipeline.examined <+: s.pipeline.spsc.history.pushed :=
    hpipeline.examined_prefix
  have hfull := (pushed_of_refused hreach).2
  obtain ⟨hidle, hle⟩ := offered_length hreach
  have hsublist : s.pipeline.spsc.history.pushed.Sublist s.generator.offered := by
    refine (List.sublist_append_left _ s.telemetrySide.inPush).trans ?_
    have hsublist := hacc.sublist
    rw [TelemetryState.unrefused, telemetrySide_spsc] at hsublist
    exact hsublist
  have hcount : s.pc.inTick = false →
      s.pipeline.spsc.history.pushed.length + s.refused = 20 * s.inputs.length := by
    intro hin
    have hlength := hacc.length_eq
    rw [TelemetryState.unrefused_eq_pushed (telemetrySide_pc_ne_push hin),
      telemetrySide_spsc] at hlength
    exact hlength.trans (hidle hin)
  refine ⟨⟨hseen, hsublist⟩, hcount, fun hstop => ?_, hfull, fun hticks => ?_, refused_eq_zero h⟩
  · have hpc := (stopped_of_joined hreach hstop).1
    have hexamined : s.pipeline.examined = s.pipeline.spsc.history.pushed :=
      (hpipeline.drained hstop).2
    rw [hexamined]
    exact ⟨rfl, hsublist, hcount (by rw [hpc]; rfl)⟩
  · by_contra hne
    have := hfull hne
    have := hsublist.length_le
    omega

/-- A driver's turn, with a frame that is pushed and examined while the next driver's turn comes. -/
def frameByFrame : List ProgramLabel :=
  [List.replicate 8 (.generate ⟨0, 0⟩), List.replicate 9 (.consume false),
    List.replicate 3 (.generate ⟨0, 0⟩)].flatten

theorem frames_accounted_frameByFrame :
    let M := programSystem () (.init defaultTrack fun _ => 0)
    let room : ProgramState Unit → ProgramLabel → Prop :=
      fun t _ => t.pipeline.spsc.waiting.length ≠ 2047
    ∃ s, M.ReachableBy room s ∧ s.generator.offered.length = 2 ∧ s.refused = 0
      ∧ s.pipeline.examined.length = 1
      ∧ s.pipeline.examined <+: s.pipeline.spsc.history.pushed := by
  intro M room
  have hrun : ((M.guarded room).run M.init frameByFrame).any (fun s =>
      decide (s.generator.offered.length = 2 ∧ s.pipeline.examined.length = 1)) = true := by
    decide +kernel
  rw [Option.any_eq_true] at hrun
  obtain ⟨s, hs, hfacts⟩ := hrun
  rw [decide_eq_true_eq] at hfacts
  have hreach : M.ReachableBy room s :=
    System.Reachable.of_guarded (System.Reachable.leads .init (System.leads_of_run hs))
  obtain ⟨⟨hseen, -⟩, -, -, -, -, hroom⟩ := frames_accounted hreach
  exact ⟨s, hreach, hfacts.1, hroom fun _ _ h => h, hfacts.2, hseen⟩

end ProgramState

end RaceConditionZ
