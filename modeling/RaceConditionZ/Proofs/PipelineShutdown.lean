import RaceConditionZ.LapTimeConsumer
import RaceConditionZ.Lib.Record
import RaceConditionZ.Proofs.SpscFifo
import Mathlib.Data.List.Induction

/-!
# The pipeline is empty when it stops

What the consumer has examined is what it has popped, in the same order, and the race state is what
the claims of these frames make of it, one after the other: with a single claimant no exchange fails
but spuriously. The drain starts after the last push, so the pop that ends it reloads an index that
is the last one, and finds nothing because nothing is left.
-/

namespace RaceConditionZ

open Transition

section Claims

variable {F : Type} [MachineFloat F] [DecidableLT F]

/-- A claim that nobody else's interferes with. -/
def RaceState.claimed (rs : RaceState F) (c : LapClaim F) : RaceState F :=
  if c.lapMs < rs.fastestLapMs then
    { rs with fastestLapMs := c.lapMs, fastestLapHolder := c.driverIndex }
  else rs

/-- The claims of a list of frames, in order. -/
def claimsOf (frames : List (TelemetryFrame F)) : List (LapClaim F) := frames.filterMap lapClaim

/-- These claims, one after the other. -/
def RaceState.afterFrames (rs : RaceState F) (frames : List (TelemetryFrame F)) : RaceState F :=
  (claimsOf frames).foldl RaceState.claimed rs

/-- Driver `i` completes a lap in the frame. -/
def TelemetryFrame.LapOf (frame : TelemetryFrame F) (i : Fin 20) : Prop :=
  0 < frame.lapTimeMs ∧ frame.driverId.view = (drivers.get i).id

theorem lapClaim_eq_some {frame : TelemetryFrame F} {c : LapClaim F} :
    lapClaim frame = some c ↔ ∃ i : Fin 20, frame.LapOf i ∧ c = ⟨(i : ℕ), frame.lapTimeMs⟩ := by
  unfold lapClaim TelemetryFrame.LapOf
  simp only [Option.ite_none_right_eq_some, Option.some.injEq]
  constructor
  · rintro ⟨hpos, hidx, rfl⟩
    obtain ⟨i, hi, hid⟩ := driverIndexOf_eq hidx
    exact ⟨i, ⟨hpos, hid.symm⟩, by rw [hi]⟩
  · rintro ⟨i, ⟨hpos, hid⟩, rfl⟩
    rw [hid, driverIndexOf_get]
    exact ⟨hpos, Int.natCast_nonneg _, rfl⟩

theorem TelemetryFrame.LapOf.claim_mem {frame : TelemetryFrame F} {i : Fin 20}
    (h : frame.LapOf i) {frames : List (TelemetryFrame F)} (hmem : frame ∈ frames) :
    ⟨(i : ℕ), frame.lapTimeMs⟩ ∈ claimsOf frames :=
  List.mem_filterMap.2 ⟨frame, hmem, lapClaim_eq_some.2 ⟨i, h, rfl⟩⟩

/-- The frame of a claim, after the frames of the claims before it. -/
theorem claimsOf_split {frames : List (TelemetryFrame F)} {before after : List (LapClaim F)}
    {c : LapClaim F} (h : claimsOf frames = before ++ c :: after) :
    ∃ earlier frame later, ∃ i : Fin 20, frames = earlier ++ frame :: later ∧ frame.LapOf i
      ∧ c = ⟨(i : ℕ), frame.lapTimeMs⟩
      ∧ ∀ b ∈ earlier, ∀ j : Fin 20, b.LapOf j → ⟨(j : ℕ), b.lapTimeMs⟩ ∈ before := by
  obtain ⟨first, rest, rfl, hfirst, hrest⟩ := List.filterMap_eq_append_iff.1 h
  obtain ⟨silent, frame, later, rfl, hsilent, hclaim, -⟩ := List.filterMap_eq_cons_iff.1 hrest
  obtain ⟨i, hlap, hc⟩ := lapClaim_eq_some.1 hclaim
  refine ⟨first ++ silent, frame, later, i, (List.append_assoc ..).symm, hlap, hc, ?_⟩
  intro b hb j hj
  rcases List.mem_append.1 hb with hb | hb
  · rw [← hfirst]
    exact hj.claim_mem hb
  · have hnone := hsilent b hb
    rw [lapClaim_eq_some.2 ⟨j, hj, rfl⟩] at hnone
    cases hnone

theorem not_isNaN_of_mem_claimsOf {frames : List (TelemetryFrame F)} {c : LapClaim F}
    (hc : c ∈ claimsOf frames) : ¬ MachineFloat.isNaN c.lapMs := by
  obtain ⟨frame, -, hclaim⟩ := List.mem_filterMap.1 hc
  unfold lapClaim at hclaim
  split_ifs at hclaim with hpos
  simp only [Option.ite_none_right_eq_some, Option.some.injEq] at hclaim
  obtain ⟨-, rfl⟩ := hclaim
  exact (MachineFloat.not_isNaN_of_lt hpos).2

theorem RaceState.afterFrames_concat (rs : RaceState F) (frames : List (TelemetryFrame F))
    (frame : TelemetryFrame F) :
    rs.afterFrames (frames ++ [frame])
      = match lapClaim frame with
        | some c => (rs.afterFrames frames).claimed c
        | none => rs.afterFrames frames := by
  unfold afterFrames claimsOf
  rw [List.filterMap_append, List.foldl_append]
  rcases hc : lapClaim frame with _ | c
  · rw [List.filterMap_cons_none hc]
    rfl
  · rw [List.filterMap_cons_some hc]
    rfl

/-- What a call that began at `before` has made of it. -/
def ClaimPc.From (before : RaceState F) (c : LapClaim F) (race : RaceState F) : ClaimPc F → Prop
  | .load => race = before
  | .compare currentBest => race = before ∧ currentBest = before.fastestLapMs
  | .exchange currentBest =>
    race = before ∧ currentBest = before.fastestLapMs ∧ c.lapMs < before.fastestLapMs
  | .storeHolder => c.lapMs < before.fastestLapMs ∧ race = { before with fastestLapMs := c.lapMs }
  | .returned _ => race = before.claimed c

theorem ClaimPc.From.step [DecidableEq F] {before race race' : RaceState F} {c : LapClaim F}
    {spurious : Bool} {pc pc' : ClaimPc F} (h : pc.From before c race)
    (hst : race.tryClaimFastestLap c spurious pc = some (race', pc')) :
    pc'.From before c race' := by
  cases pc with
  | load =>
    cases hst
    exact ⟨h, by rw [show race = before from h]⟩
  | compare currentBest =>
    obtain ⟨rfl, rfl⟩ := h
    simp only [RaceState.tryClaimFastestLap] at hst
    split_ifs at hst with hlt <;> cases hst
    · exact ⟨rfl, rfl, hlt⟩
    · exact (if_neg hlt).symm
  | exchange currentBest =>
    obtain ⟨rfl, rfl, hlt⟩ := h
    simp only [RaceState.tryClaimFastestLap] at hst
    split_ifs at hst <;> cases hst
    · exact ⟨hlt, rfl⟩
    · exact ⟨rfl, rfl⟩
  | storeHolder =>
    obtain ⟨hlt, rfl⟩ := h
    cases hst
    exact (if_pos hlt).symm
  | returned won => cases hst

/-- The claims leave the record with its holder. -/
theorem claims_hold_record (rs : RaceState F) (claims : List (LapClaim F)) :
    ∃ holder, Record.Holds LapClaim.lapMs rs.fastestLapMs claims holder
      ∧ (claims.foldl RaceState.claimed rs).fastestLapMs
        = Record.standing LapClaim.lapMs rs.fastestLapMs holder
      ∧ (claims.foldl RaceState.claimed rs).fastestLapHolder
        = holder.elim rs.fastestLapHolder LapClaim.driverIndex := by
  induction claims using List.reverseRecOn with
  | nil => exact ⟨none, .nil, rfl, rfl⟩
  | append_singleton claims c ih =>
    obtain ⟨holder, hholds, htime, hindex⟩ := ih
    rw [List.foldl_append, List.foldl_cons, List.foldl_nil, RaceState.claimed]
    split_ifs with hlt <;> rw [htime] at hlt
    · exact ⟨some c, hholds.take hlt, rfl, rfl⟩
    · exact ⟨holder, hholds.keep hlt, htime, hindex⟩

end Claims

section Queue

variable {T : Type} {r : RingSize} {s s' : SpscState T}

/-- What a step of a pop adds to what was popped, and when it fails. -/
theorem SpscInv.pop_effect (hI : SpscInv r s) {c : Pop T} (hc : s.consumer = some c)
    (hst : s.step r .pop = some s') :
    ∃ c', s'.consumer = some c' ∧ c.isReturned = false ∧ s'.producer = s.producer
      ∧ s'.history.pushed = s.history.pushed
      ∧ s'.history.popped = s.history.popped ++ (if c'.pc = .returned true then [c'.out] else [])
      ∧ (∀ head, c'.pc = .recompare head → s'.history.tailSeen = s.history.pushed.length)
      ∧ (c'.pc = .returned false → (∃ head, c.pc = .recompare head)
        ∧ s.history.popped.length = s.history.tailSeen) := by
  have hok := hI.pop_ok c hc
  simp only [SpscState.step, hc, Option.bind_some, Option.map_eq_some_iff, Prod.exists] at hst
  obtain ⟨q', c', hpop, rfl⟩ := hst
  refine ⟨c', rfl, ?_⟩
  unfold SpscQueue.pop at hpop
  unfold Pop.Ok at hok
  unfold SpscState.notePop Pop.isReturned
  rcases hpc : c.pc with _ | head | head | head | head | head | head | ok <;>
    simp only [hpc] at hpop hok ⊢
  · cases hpop
    simp
  · split_ifs at hpop <;> cases hpop <;> simp
  · cases hpop
    simp
  · split_ifs at hpop with hempty <;> cases hpop
    · obtain ⟨rfl, -⟩ := hok
      simpa using hI.ring.empty_iff.1 hempty
    · simp
  · cases hpop
    simp
  · cases hpop
    simp
  · cases hpop
    simp
  · cases hpop

end Queue

section Invariant

variable {F : Type}

/-- The second loop has begun. -/
def LapConsumerPc.draining : LapConsumerPc F → Bool
  | .drain | .returned => true
  | .pop draining | .claim draining _ _ => draining
  | .testStop | .sleep => false

@[simp]
theorem LapConsumerPc.draining_next (draining : Bool) :
    (next draining : LapConsumerPc F).draining = draining := by
  cases draining <;> rfl

/-- The frame popped and not yet examined. -/
def PipelineState.inHand (s : PipelineState F) : List (Option (TelemetryFrame F)) :=
  match s.pc, s.spsc.consumer with
  | .pop _, some c => if c.pc = .returned true then [c.out] else []
  | _, _ => []

/-- How near the last pop is to finding the queue empty, once nothing more is pushed. -/
def PipelineState.Emptied (s : PipelineState F) : Prop :=
  match s.pc, s.spsc.consumer with
  | .pop true, some ⟨_, .recompare _⟩ => s.spsc.history.tailSeen = s.spsc.history.pushed.length
  | .pop true, some ⟨_, .returned false⟩ | .returned, _ =>
    s.spsc.history.popped.length = s.spsc.history.pushed.length
  | _, _ => True

theorem PipelineState.emptied_of_not_draining {s : PipelineState F}
    (h : s.pc.draining = false) : s.Emptied := by
  unfold PipelineState.Emptied
  split
  · rename_i hpc _
    simp [hpc, LapConsumerPc.draining] at h
  · rename_i hpc _
    simp [hpc, LapConsumerPc.draining] at h
  · rename_i hpc
    simp [hpc, LapConsumerPc.draining] at h
  · trivial

variable [MachineFloat F] [DecidableLT F]

/-- The race state between two claims, and within one. -/
def PipelineState.RaceOk (s : PipelineState F) : Prop :=
  match s.pc with
  | .claim _ claim pc => ∃ done frame, s.examined = done ++ [frame] ∧ lapClaim frame = some claim
    ∧ pc.From (RaceState.initial.afterFrames done) claim s.race
  | _ => s.race = RaceState.initial.afterFrames s.examined

structure PipelineInv (s : PipelineState F) : Prop where
  spsc : SpscInv telemetryRing s.spsc
  popped_eq : s.spsc.history.popped = s.examined.map some ++ s.inHand
  race_ok : s.RaceOk
  idle : s.stop ≠ .notCalled → s.spsc.producer.all Push.isReturned
  draining : s.pc.draining = true → s.stop ≠ .notCalled
  emptied : s.Emptied
  joined : s.stop = .returned → s.pc = .returned

variable {s : PipelineState F}

theorem PipelineInv.popped_of_inHand (hI : PipelineInv s) (hin : s.inHand = []) :
    s.spsc.history.popped = s.examined.map some := by
  have hpopped := hI.popped_eq
  rw [hin, List.append_nil] at hpopped
  exact hpopped

theorem PipelineInv.race_eq (hI : PipelineInv s)
    (hpc : ∀ draining claim pc, s.pc ≠ .claim draining claim pc) :
    s.race = RaceState.initial.afterFrames s.examined := by
  have hrace := hI.race_ok
  unfold PipelineState.RaceOk at hrace
  split at hrace
  · exact absurd ‹_› (hpc _ _ _)
  · exact hrace

theorem PipelineInv.claiming (hI : PipelineInv s) {draining : Bool} {claim : LapClaim F}
    {pc : ClaimPc F} (hpc : s.pc = .claim draining claim pc) :
    ∃ done frame, s.examined = done ++ [frame] ∧ lapClaim frame = some claim
      ∧ pc.From (RaceState.initial.afterFrames done) claim s.race := by
  have hrace := hI.race_ok
  unfold PipelineState.RaceOk at hrace
  simp only [hpc] at hrace
  exact hrace

/-- A step of `run` to a place where nothing has been popped that is not examined, with the queue
as it was. -/
theorem PipelineInv.goTo (hI : PipelineInv s) {race : RaceState F} {pc : LapConsumerPc F}
    (hin : s.inHand = []) (hpc : s.pc ≠ .returned) (hleft : ∀ draining, pc ≠ .pop draining)
    (hrace : PipelineState.RaceOk { s with race := race, pc := pc })
    (hdraining : pc.draining = true → s.pc.draining = true)
    (hemptied : pc = .returned → s.spsc.history.popped.length = s.spsc.history.pushed.length) :
    PipelineInv { s with race := race, pc := pc } := by
  refine ⟨hI.spsc, ?_, hrace, hI.idle, fun hd => hI.draining (hdraining hd), ?_,
    fun hj => absurd (hI.joined hj) hpc⟩
  · have hin' : PipelineState.inHand { s with race := race, pc := pc } = [] := by
      cases pc with
      | pop draining => exact absurd rfl (hleft draining)
      | _ => rfl
    rw [hin', List.append_nil]
    exact hI.popped_of_inHand hin
  · cases pc with
    | pop draining => exact absurd rfl (hleft draining)
    | returned => exact hemptied rfl
    | _ => trivial

theorem PipelineInv.callPop (hI : PipelineInv s) {draining : Bool}
    {out : Option (TelemetryFrame F)} {spsc : SpscState (TelemetryFrame F)}
    (hpc : s.pc = .testStop ∨ s.pc = .drain)
    (hdrain : draining = true → s.pc.draining = true ∨ s.stop ≠ .notCalled)
    (hst : s.spsc.step telemetryRing (.callPop out) = some spsc) :
    PipelineInv { s with spsc := spsc, pc := .pop draining } := by
  have hspsc := hI.spsc.step hst
  obtain ⟨-, rfl⟩ := SpscState.of_step_callPop hst
  have hin : s.inHand = [] := by
    rcases hpc with hpc | hpc <;> simp [PipelineState.inHand, hpc]
  have hrace := hI.race_eq (by rcases hpc with hpc | hpc <;> simp [hpc])
  refine ⟨hspsc, ?_, hrace, hI.idle, fun hd => (hdrain hd).elim hI.draining id, ?_, fun hj => ?_⟩
  · exact (hI.popped_of_inHand hin).trans (List.append_nil _).symm
  · cases draining <;> trivial
  · rcases hpc with hpc | hpc <;> exact absurd (hI.joined hj) (by simp [hpc])

theorem PipelineInv.pop (hI : PipelineInv s) {draining : Bool} {c : Pop (TelemetryFrame F)}
    {spsc : SpscState (TelemetryFrame F)} (hpc : s.pc = .pop draining)
    (hc : s.spsc.consumer = some c) (hst : s.spsc.step telemetryRing .pop = some spsc) :
    PipelineInv { s with spsc := spsc } := by
  obtain ⟨⟨out', pc'⟩, hc', hbusy, hproducer, hpushed, hpopped, hseen, hfail⟩ :=
    hI.spsc.pop_effect hc hst
  have hin : s.inHand = [] := by
    simp only [PipelineState.inHand, hpc, hc]
    rw [if_neg]
    intro hret
    simp [Pop.isReturned, hret] at hbusy
  refine ⟨hI.spsc.step hst, ?_, hI.race_ok, ?_, hI.draining, ?_, hI.joined⟩
  · have hin' : PipelineState.inHand { s with spsc := spsc }
        = if pc' = .returned true then [out'] else [] := by
      simp only [PipelineState.inHand, hpc, hc']
    rw [hin', hpopped, hI.popped_eq, hin, List.append_nil]
  · rw [hproducer]
    exact hI.idle
  · have hemptied := hI.emptied
    unfold PipelineState.Emptied at hemptied ⊢
    obtain ⟨out, pc⟩ := c
    cases draining with
    | false => simp only [hpc]
    | true =>
      simp only [hpc, hc, hc'] at hemptied ⊢
      split
      · rename_i heq
        cases heq
        exact (hseen _ rfl).trans (congrArg List.length hpushed).symm
      · rename_i heq
        cases heq
        obtain ⟨⟨head, rfl⟩, hlen⟩ := hfail rfl
        rw [hpopped, hpushed, if_neg (by simp), List.append_nil]
        exact hlen.trans hemptied
      · rename_i heq
        cases heq
      · trivial

theorem PipelineInv.examine (hI : PipelineInv s) {draining : Bool} {frame : TelemetryFrame F}
    (hpc : s.pc = .pop draining) (hin : s.inHand = [some frame]) :
    PipelineInv (s.examine draining frame) := by
  have hrace := hI.race_eq (by simp [hpc])
  have hdraining : (s.examine draining frame).pc.draining = draining := by
    unfold PipelineState.examine
    rcases lapClaim frame with _ | claim
    · exact LapConsumerPc.draining_next draining
    · rfl
  refine ⟨hI.spsc, ?_, ?_, hI.idle, fun hd => hI.draining ?_, ?_, fun hj => ?_⟩
  · have hin' : (s.examine draining frame).inHand = [] := by
      unfold PipelineState.inHand PipelineState.examine
      rcases lapClaim frame with _ | claim
      · cases draining <;> rfl
      · rfl
    rw [hin', List.append_nil]
    show s.spsc.history.popped = (s.examined ++ [frame]).map some
    rw [hI.popped_eq, hin, List.map_append]
    rfl
  · unfold PipelineState.RaceOk PipelineState.examine
    rcases hclaim : lapClaim frame with _ | claim
    · have hafter := RaceState.afterFrames_concat RaceState.initial s.examined frame
      rw [hclaim] at hafter
      cases draining <;> exact hrace.trans hafter.symm
    · exact ⟨s.examined, frame, rfl, hclaim, hrace⟩
  · rw [hdraining] at hd
    rw [hpc]
    exact hd
  · unfold PipelineState.Emptied PipelineState.examine
    rcases lapClaim frame with _ | claim
    · cases draining <;> trivial
    · trivial
  · exact absurd (hI.joined hj) (by simp [hpc])

theorem PipelineInv.claim [DecidableEq F] (hI : PipelineInv s) {draining : Bool}
    {claim : LapClaim F} {pc pc' : ClaimPc F} {spurious : Bool} {race : RaceState F}
    (hpc : s.pc = .claim draining claim pc)
    (hst : s.race.tryClaimFastestLap claim spurious pc = some (race, pc')) :
    PipelineInv { s with race := race, pc := .claim draining claim pc' } := by
  have hin : s.inHand = [] := by simp [PipelineState.inHand, hpc]
  obtain ⟨done, frame, hex, hclaim, hfrom⟩ := hI.claiming hpc
  refine hI.goTo hin (by simp [hpc]) (by simp) ⟨done, frame, hex, hclaim, hfrom.step hst⟩
    (fun hd => ?_) (by simp)
  rw [hpc]
  exact hd

theorem PipelineInv.failed (hI : PipelineInv s) {draining : Bool}
    {out : Option (TelemetryFrame F)} (hpc : s.pc = .pop draining)
    (hc : s.spsc.consumer = some ⟨out, .returned false⟩) :
    PipelineInv { s with pc := if draining then .returned else .sleep } := by
  have hin : s.inHand = [] := by simp [PipelineState.inHand, hpc, hc]
  have hrace := hI.race_eq (by simp [hpc])
  have hemptied := hI.emptied
  unfold PipelineState.Emptied at hemptied
  cases draining with
  | false =>
    exact hI.goTo hin (by simp [hpc]) (by simp) hrace (by simp [LapConsumerPc.draining]) (by simp)
  | true =>
    simp only [hpc, hc] at hemptied
    exact hI.goTo hin (by simp [hpc]) (by simp) hrace (fun _ => by rw [hpc]; rfl) fun _ => hemptied

theorem PipelineInv.claimed (hI : PipelineInv s) {draining won : Bool} {claim : LapClaim F}
    (hpc : s.pc = .claim draining claim (.returned won)) :
    PipelineInv { s with pc := .next draining } := by
  have hin : s.inHand = [] := by simp [PipelineState.inHand, hpc]
  obtain ⟨done, frame, hex, hclaim, hfrom⟩ := hI.claiming hpc
  have hafter : s.race = RaceState.initial.afterFrames s.examined := by
    rw [hex, RaceState.afterFrames_concat, hclaim]
    exact hfrom
  refine hI.goTo hin (by simp [hpc]) ?_ ?_ (fun hd => ?_) ?_
  · cases draining <;> simp [LapConsumerPc.next]
  · cases draining <;> exact hafter
  · rw [LapConsumerPc.draining_next] at hd
    rw [hpc]
    exact hd
  · cases draining <;> simp [LapConsumerPc.next]

/-- Once `stop` has returned, all frames pushed have been popped and examined. -/
theorem PipelineInv.drained (hI : PipelineInv s) (hstop : s.stop = .returned) :
    s.spsc.queue.contents telemetryRing = [] ∧ s.examined = s.spsc.history.pushed := by
  have hpc := hI.joined hstop
  have hlen := hI.emptied
  unfold PipelineState.Emptied at hlen
  simp only [hpc] at hlen
  refine ⟨?_, ?_⟩
  · rw [hI.spsc.ring.contents_eq, hlen, List.drop_length]
    rfl
  · have hpopped := hI.popped_of_inHand (by simp [PipelineState.inHand, hpc])
    rw [hI.spsc.ring.popped_eq, hlen, List.take_length] at hpopped
    exact (List.map_injective_iff.2 (Option.some_injective _) hpopped).symm

end Invariant

section Pipeline

variable {F : Type} [MachineFloat F] [DecidableEq F] [DecidableLT F]
variable [Inhabited (TelemetryFrame F)]

/-- The steps of the pipeline. -/
inductive PipelineMove (s : PipelineState F) : PipelineState F → Prop
  | produce {spsc : SpscState (TelemetryFrame F)} (hconsumer : spsc.consumer = s.spsc.consumer)
      (hpopped : spsc.history.popped = s.spsc.history.popped)
      (hspsc : SpscInv telemetryRing s.spsc → SpscInv telemetryRing spsc)
      (hstop : s.spsc.producer.all Push.isReturned → s.stop = .notCalled) :
      PipelineMove s { s with spsc := spsc }
  | callPop {draining : Bool} {out : Option (TelemetryFrame F)}
      {spsc : SpscState (TelemetryFrame F)} (hpc : s.pc = .testStop ∨ s.pc = .drain)
      (hdrain : draining = true → s.pc.draining = true ∨ s.stop ≠ .notCalled)
      (hst : s.spsc.step telemetryRing (.callPop out) = some spsc) :
      PipelineMove s { s with spsc := spsc, pc := .pop draining }
  | pop {draining : Bool} {c : Pop (TelemetryFrame F)} {spsc : SpscState (TelemetryFrame F)}
      (hpc : s.pc = .pop draining) (hc : s.spsc.consumer = some c)
      (hst : s.spsc.step telemetryRing .pop = some spsc) :
      PipelineMove s { s with spsc := spsc }
  | found {draining : Bool} {frame : TelemetryFrame F} (hpc : s.pc = .pop draining)
      (hin : s.inHand = [some frame]) : PipelineMove s (s.examine draining frame)
  | failed {draining : Bool} {out : Option (TelemetryFrame F)} (hpc : s.pc = .pop draining)
      (hc : s.spsc.consumer = some ⟨out, .returned false⟩) :
      PipelineMove s { s with pc := if draining then .returned else .sleep }
  | claim {draining : Bool} {claim : LapClaim F} {pc pc' : ClaimPc F} {spurious : Bool}
      {race : RaceState F} (hpc : s.pc = .claim draining claim pc)
      (hst : s.race.tryClaimFastestLap claim spurious pc = some (race, pc')) :
      PipelineMove s { s with race := race, pc := .claim draining claim pc' }
  | claimed {draining won : Bool} {claim : LapClaim F}
      (hpc : s.pc = .claim draining claim (.returned won)) :
      PipelineMove s { s with pc := .next draining }
  | wake (hpc : s.pc = .sleep) : PipelineMove s { s with pc := .testStop }
  | requestStop (hstop : s.stop = .notCalled) (hidle : s.spsc.producer.all Push.isReturned) :
      PipelineMove s { s with stop := .requested }
  | join (hstop : s.stop = .requested) (hpc : s.pc = .returned) :
      PipelineMove s { s with stop := .returned }

theorem pipelineMove_of_consume {s s' : PipelineState F} {spurious : Bool}
    (hst : s.consume spurious = some s') : PipelineMove s s' := by
  unfold PipelineState.consume PipelineState.callPop at hst
  split at hst
  · rename_i hpc
    rw [Option.map_eq_some_iff] at hst
    obtain ⟨spsc, hspsc, rfl⟩ := hst
    exact .callPop (.inl hpc) (fun h => .inr (by simpa using h)) hspsc
  · rename_i hpc
    rw [Option.map_eq_some_iff] at hst
    obtain ⟨spsc, hspsc, rfl⟩ := hst
    exact .callPop (.inr hpc) (fun _ => .inl (by simp [hpc, LapConsumerPc.draining])) hspsc
  · rename_i draining hpc
    rw [Option.bind_eq_some_iff] at hst
    obtain ⟨c, hc, hst⟩ := hst
    split at hst
    · rename_i hret
      rw [Option.map_eq_some_iff] at hst
      obtain ⟨frame, hout, rfl⟩ := hst
      exact .found hpc (by simp [PipelineState.inHand, hpc, hc, hret, hout])
    · rename_i hret
      cases hst
      obtain ⟨out, pc⟩ := c
      cases hret
      exact .failed hpc hc
    · rw [Option.map_eq_some_iff] at hst
      obtain ⟨spsc, hspsc, rfl⟩ := hst
      exact .pop hpc hc hspsc
  · rename_i draining claim pc hpc
    split at hst
    · cases hst
      exact .claimed hpc
    · rw [Option.map_eq_some_iff] at hst
      obtain ⟨⟨race, pc'⟩, hclaim, rfl⟩ := hst
      exact .claim hpc hclaim
  · cases hst
    exact .wake ‹_›
  · cases hst

theorem pipelineMove_of_step {s s' : PipelineState F} {l : PipelineLabel F}
    (hst : s.step l = some s') : PipelineMove s s' := by
  cases l with
  | callPush frame byMove =>
    simp only [PipelineState.step, Option.ite_none_right_eq_some, Option.map_eq_some_iff] at hst
    obtain ⟨hstop, spsc, hspsc, rfl⟩ := hst
    obtain ⟨-, rfl⟩ := SpscState.of_step_callPush hspsc
    exact .produce rfl rfl (fun hI => hI.step hspsc) fun _ => hstop
  | push =>
    simp only [PipelineState.step, Option.map_eq_some_iff] at hst
    obtain ⟨spsc, hspsc, rfl⟩ := hst
    obtain ⟨hconsumer, hpopped, -, hbusy⟩ := SpscState.push_frame hspsc
    exact .produce hconsumer hpopped (fun hI => hI.step hspsc) fun hidle => by simp [hbusy] at hidle
  | consume spurious => exact pipelineMove_of_consume hst
  | requestStop =>
    simp only [PipelineState.step, Option.ite_none_right_eq_some, Option.some.injEq] at hst
    obtain ⟨⟨hstop, hidle⟩, rfl⟩ := hst
    exact .requestStop hstop hidle
  | join =>
    simp only [PipelineState.step, Option.ite_none_right_eq_some] at hst
    obtain ⟨hstop, hst⟩ := hst
    split at hst <;> cases hst
    exact .join hstop ‹_›

theorem PipelineInv.step {s s' : PipelineState F} {l : PipelineLabel F} (hI : PipelineInv s)
    (hst : s.step l = some s') : PipelineInv s' := by
  cases pipelineMove_of_step hst with
  | @produce spsc hconsumer hpopped hspsc hstop =>
    have hnot : s.stop = .notCalled := by
      by_contra hne
      exact hne (hstop (hI.idle hne))
    have hdraining : s.pc.draining = false := by
      by_contra hd
      exact hI.draining (by simpa using hd) hnot
    refine ⟨hspsc hI.spsc, ?_, hI.race_ok, fun hne => absurd hnot hne, hI.draining,
      PipelineState.emptied_of_not_draining hdraining, hI.joined⟩
    simp only [PipelineState.inHand, hconsumer, hpopped]
    exact hI.popped_eq
  | callPop hpc hdrain hspsc => exact hI.callPop hpc hdrain hspsc
  | pop hpc hc hspsc => exact hI.pop hpc hc hspsc
  | found hpc hin => exact hI.examine hpc hin
  | failed hpc hc => exact hI.failed hpc hc
  | claim hpc hclaim => exact hI.claim hpc hclaim
  | claimed hpc => exact hI.claimed hpc
  | wake hpc =>
    have hin : s.inHand = [] := by simp [PipelineState.inHand, hpc]
    exact hI.goTo hin (by simp [hpc]) (by simp) (hI.race_eq (by simp [hpc]))
      (by simp [LapConsumerPc.draining]) (by simp)
  | requestStop hstop hidle =>
    exact ⟨hI.spsc, hI.popped_eq, hI.race_ok, fun _ => hidle, fun _ => by simp, hI.emptied, by simp⟩
  | join hstop hpc =>
    exact ⟨hI.spsc, hI.popped_eq, hI.race_ok, fun _ => hI.idle (by simp [hstop]),
      fun _ => by simp, hI.emptied, fun _ => hpc⟩

theorem pipelineInv_reachable {s : PipelineState F} (h : (pipelineSystem F).Reachable s) :
    PipelineInv s := by
  refine h.invariant ⟨spscInv_init telemetryRing, rfl, rfl, ?_, ?_, trivial, ?_⟩
    fun _ hI _ hst => hI.step hst
  · exact fun hne => absurd rfl hne
  · exact fun hd => by cases hd
  · exact fun hj => by cases hj

/-- Once `stop` has returned, the race state is that of all frames pushed. -/
theorem race_of_joined {s : PipelineState F} (h : (pipelineSystem F).Reachable s)
    (hstop : s.stop = .returned) :
    s.race = RaceState.initial.afterFrames s.spsc.history.pushed := by
  have hI := pipelineInv_reachable h
  rw [hI.race_eq (by simp [hI.joined hstop]), (hI.drained hstop).2]

/-- What the program finds once `stop` has returned. -/
theorem pipeline_shutdown {s : PipelineState F} (h : (pipelineSystem F).Reachable s)
    (hstop : s.stop = .returned) :
    s.spsc.queue.contents telemetryRing = []
      ∧ s.examined = s.spsc.history.pushed
      ∧ (∀ frame ∈ s.spsc.history.pushed, ∀ i, frame.LapOf i →
        s.race.fastestLapMs ≤ frame.lapTimeMs)
      ∧ (s.race.fastestLapMs = MachineFloat.maxFinite ∧ s.race.fastestLapHolder = -1
          ∧ (∀ frame ∈ s.spsc.history.pushed, ∀ i, frame.LapOf i →
            ¬ frame.lapTimeMs < MachineFloat.maxFinite)
        ∨ ∃ earlier frame later, ∃ i : Fin 20, s.spsc.history.pushed = earlier ++ frame :: later
          ∧ frame.LapOf i ∧ s.race.fastestLapMs = frame.lapTimeMs
          ∧ s.race.fastestLapHolder = (i : ℕ) ∧ frame.lapTimeMs < MachineFloat.maxFinite
          ∧ ∀ b ∈ earlier, ∀ j, b.LapOf j → frame.lapTimeMs < b.lapTimeMs) := by
  obtain ⟨hempty, hexamined⟩ := (pipelineInv_reachable h).drained hstop
  have hrace := race_of_joined h hstop
  obtain ⟨holder, hholds, htime, hindex⟩ :=
    claims_hold_record RaceState.initial (claimsOf s.spsc.history.pushed)
  rw [show List.foldl _ _ _ = s.race from hrace.symm] at htime hindex
  have hnan : ¬ MachineFloat.isNaN s.race.fastestLapMs := by
    rw [htime]
    cases holder with
    | none => exact MachineFloat.not_isNaN_maxFinite
    | some c => exact (MachineFloat.not_isNaN_of_lt hholds.1).1
  refine ⟨hempty, hexamined, fun frame hframe i hlap => ?_, ?_⟩
  · have hc := hlap.claim_mem hframe
    have hnot := hholds.not_lt _ hc
    rw [← htime] at hnot
    exact MachineFloat.le_of_not_lt (not_isNaN_of_mem_claimsOf hc) hnan hnot
  · cases holder with
    | none =>
      exact .inl ⟨htime, hindex, fun frame hframe i hlap => hholds _ (hlap.claim_mem hframe)⟩
    | some c =>
      obtain ⟨hlt, before, after, hsplit, hbefore, -⟩ := hholds
      obtain ⟨earlier, frame, later, i, hframes, hlap, rfl, hearlier⟩ := claimsOf_split hsplit
      refine .inr ⟨earlier, frame, later, i, hframes, hlap, htime, hindex, hlt, ?_⟩
      intro b hb j hj
      have hb' := hearlier b hb j hj
      have hb'' : ⟨(j : ℕ), b.lapTimeMs⟩ ∈ claimsOf s.spsc.history.pushed := by
        rw [hsplit]
        exact List.mem_append_left _ hb'
      have hle := MachineFloat.total (not_isNaN_of_mem_claimsOf hb'')
        (MachineFloat.not_isNaN_of_lt hlt).1
      exact lt_of_le_not_ge (hle.resolve_left (hbefore _ hb')) (hbefore _ hb')

/-- Two frames, the second of them still in the queue when `stop` is called: 90 and 89 seconds. -/
def pushStopDrain : List (PipelineLabel Binary32) :=
  let frame (id : String) (lapTimeMs : Binary32) : TelemetryFrame Binary32 :=
    { (default : TelemetryFrame Binary32) with driverId := .ofId id, lapTimeMs := lapTimeMs }
  .callPush (frame "VER" ⟨0x47afc800⟩) true :: List.replicate 5 .push
    ++ .callPush (frame "LEC" ⟨0x47add400⟩) false :: List.replicate 5 .push
    ++ List.replicate 11 (.consume false) ++ .consume true :: .requestStop
    :: List.replicate 22 (.consume false) ++ [.join]

theorem pipeline_shutdown_pushStopDrain :
    let s := ((pipelineSystem Binary32).run .init pushStopDrain).get (by decide)
    s.examined = s.spsc.history.pushed ∧ s.race.fastestLapHolder = 2 :=
  have hs := System.reachable_get (M := pipelineSystem Binary32) pushStopDrain (by decide)
  ⟨(pipeline_shutdown hs (by decide)).2.1, by decide⟩

end Pipeline

end RaceConditionZ
