import RaceConditionZ.Proofs.CallbackRounds

/-!
# Penalties at the pit stops

No step of the program tells the enforcer of a pit stop, so a state leaves `none` for `pending` and
then stays: a driver that turns into the pits with its penalty pending never serves it.
-/

namespace RaceConditionZ

open Transition PenaltyEnforcer

namespace RaceControlState

variable (s : RaceControlState)

def penaltyOf (i : Fin 20) : PenaltyState :=
  s.enforcer.enforcer.penaltyState (drivers.get i).id

/-- In this tick the driver turns into the pits, and its penalty is pending. -/
def EntersOwing (i : Fin 20) : RaceControlLabel → Prop
  | .tick x => (s.pc = .testStop ∧ s.leaves = false)
      ∧ (s.generator.states i).EntersPit s.generator.track (x i) ∧ s.penaltyOf i = .pending
  | _ => False

instance (i : Fin 20) : (l : RaceControlLabel) → Decidable (s.EntersOwing i l)
  | .tick _ => inferInstanceAs (Decidable (_ ∧ _ ∧ _))
  | .callback _ | .drain _ | .process _ | .worker _ _ _ | .spurious _ | .main => .isFalse id

end RaceControlState

/-- `owing` is history: the drivers that have turned into the pits with their penalty pending. -/
structure PitStopState where
  race : RaceControlState
  owing : Fin 20 → Bool

/-- The race-control side, with that history. -/
def pitStopSystem (start : TelemetryGenerator) : System PitStopState RaceControlLabel where
  init := ⟨.init start, fun _ => false⟩
  step w l := (w.race.step l).map fun race =>
    ⟨race, fun i => w.owing i || decide (w.race.EntersOwing i l)⟩

/-- Between two ticks, who owed a penalty at its stop serves it while in the pits and has served it
afterwards. -/
def PitStopState.ServedAtStops (w : PitStopState) : Prop :=
  w.race.pc = .testStop → ∀ i, w.owing i = true →
    w.race.penaltyOf i = if (w.race.generator.states i).inPit then .serving else .served

/-- No driver turns into the pits with its penalty pending. -/
def PitStopState.NobodyOwes (w : PitStopState) (l : RaceControlLabel) : Prop :=
  ∀ i, ¬ w.race.EntersOwing i l

instance (w : PitStopState) (l : RaceControlLabel) : Decidable (w.NobodyOwes l) :=
  inferInstanceAs (Decidable (∀ i : Fin 20, ¬ w.race.EntersOwing i l))

theorem EnforcerState.states_of_process {s s' : EnforcerState} {now : ℤ}
    (hst : s.process now = some s') (i : Fin 20) :
    s'.enforcer.states i = s.enforcer.states i ∨ s'.enforcer.states i = .pending := by
  unfold process at hst
  split at hst
  · cases hst
    exact .inl rfl
  · split at hst <;> cases hst <;> exact .inl rfl
  · rename_i e j count batch _
    split at hst
    · unfold compareExchange at hst
      split_ifs at hst <;> cases hst
      · by_cases hij : i = j
        · subst hij
          exact .inr (Function.update_self ..)
        · exact .inl (Function.update_of_ne hij ..)
      · exact .inl rfl
    · cases hst
      exact .inl rfl
  · cases hst
    exact .inl rfl
  · cases hst
    exact .inl rfl
  · cases hst

theorem RaceControlState.penaltyOf_eq (s : RaceControlState) (i : Fin 20) :
    s.penaltyOf i = s.enforcer.enforcer.states i := by
  unfold penaltyOf penaltyState
  simp only [driverIndex_get]

section Run

variable {start : TelemetryGenerator}

/-- No penalty of the program is ever served. -/
theorem penaltyOf_eq_or {s : RaceControlState} (h : (raceControlSystem start).Reachable s)
    (i : Fin 20) : s.penaltyOf i = .none ∨ s.penaltyOf i = .pending := by
  rw [s.penaltyOf_eq]
  refine h.invariant (I := fun s => s.enforcer.enforcer.states i = .none
    ∨ s.enforcer.enforcer.states i = .pending) (.inl rfl) ?_
  intro s l s' _ hI _ hst
  cases RaceControlState.move_of_step hst with
  | @callProcess _ enforcer _ hcall =>
    simp only [EnforcerState.step] at hcall
    split at hcall <;> cases hcall
    exact hI
  | @enforce _ k enforcer _ hk henforcer =>
    rcases hk with ⟨found, rfl⟩ | ⟨now, rfl⟩
    · simp only [EnforcerState.step, EnforcerState.drain] at henforcer
      split at henforcer <;> cases henforcer <;> exact hI
    · show enforcer.enforcer.states i = .none ∨ enforcer.enforcer.states i = .pending
      rcases EnforcerState.states_of_process henforcer i with hsame | hpending
      · rwa [hsame]
      · exact .inr hpending
  | _ => exact hI

theorem race_reachable {w : PitStopState} (h : (pitStopSystem start).Reachable w) :
    (raceControlSystem start).Reachable w.race := by
  refine System.Reachable.map (f := PitStopState.race) rfl ?_ h
  intro w l w' _ hst
  obtain ⟨race, hrace, rfl⟩ := Option.map_eq_some_iff.1 hst
  exact .inr ⟨l, hrace⟩

theorem not_owing {w : PitStopState}
    (h : (pitStopSystem start).ReachableBy PitStopState.NobodyOwes w) (i : Fin 20) :
    w.owing i = false := by
  refine h.invariant (I := fun w => w.owing i = false) rfl ?_
  intro w l w' _ hI hok hst
  obtain ⟨race, hrace, rfl⟩ := Option.map_eq_some_iff.1 hst
  simp only [hI, Bool.false_or, decide_eq_false_iff_not]
  exact hok i

/-- The drivers that have owed a penalty at a stop are those for which the property fails, so it
holds along the runs in which nobody turns in with a penalty pending. -/
theorem served_at_stops :
    (∀ w, (pitStopSystem start).ReachableBy PitStopState.NobodyOwes w → w.ServedAtStops)
      ∧ ∀ w, (pitStopSystem start).Reachable w → w.race.pc = .testStop →
        (w.ServedAtStops ↔ ∀ i, w.owing i = false) := by
  constructor
  · intro w h _ i howing
    rw [not_owing h i] at howing
    cases howing
  · intro w h hpc
    constructor
    · intro hserved i
      rw [← Bool.not_eq_true]
      intro howing
      have hstate := hserved hpc i howing
      rcases penaltyOf_eq_or (race_reachable h) i with hnone | hpending
      · rw [hnone] at hstate
        split at hstate <;> cases hstate
      · rw [hpending] at hstate
        split at hstate <;> cases hstate
    · intro hnobody _ i howing
      rw [hnobody i] at howing
      cases howing

/-- Runs of the race-control side are runs with the history. -/
theorem leads_pitStop {s s' : RaceControlState} (hl : (raceControlSystem start).Leads s s')
    (o : Fin 20 → Bool) :
    ∃ o', (pitStopSystem start).Leads ⟨s, o⟩ ⟨s', o'⟩ ∧ ∀ i, o i = true → o' i = true := by
  induction hl with
  | refl => exact ⟨o, .refl, fun _ h => h⟩
  | @tail s₁ s₂ _ hst ih =>
    obtain ⟨o₁, hl, ho⟩ := ih
    obtain ⟨l, hst⟩ := hst
    have hstep : (pitStopSystem start).step ⟨s₁, o₁⟩ l
        = some ⟨s₂, fun i => o₁ i || decide (s₁.EntersOwing i l)⟩ :=
      Option.map_eq_some_iff.2 ⟨s₂, hst, rfl⟩
    exact ⟨_, hl.tail ⟨l, hstep⟩, fun i hi => by simp [ho i hi]⟩

theorem exists_owing {s : RaceControlState} (h : (raceControlSystem start).Reachable s) :
    ∃ o, (pitStopSystem start).Reachable ⟨s, o⟩ := by
  induction h with
  | init => exact ⟨_, .init⟩
  | step _ _ hst ih =>
    obtain ⟨o, ho⟩ := ih
    exact ⟨_, ho.step (Option.map_eq_some_iff.2 ⟨_, hst, rfl⟩)⟩

/-- Short laps, and tyres that are worn out after one. -/
def wornTrack : TrackProfile := ⟨0.25, 1000, 1000⟩

/-- Four ticks of a lap each; in the last VER turns into the pits, without a penalty. -/
def stopWithoutPenalty : List RaceControlLabel :=
  let tick (now : ℤ) : RaceControlLabel := .tick (TelemetryGenerator.flatOut now)
  let skip : List RaceControlLabel := List.replicate 3 (.callback 0)
  let drain : List RaceControlLabel := [.drain false, .process 0, .process 0]
  tick 20000000 :: List.replicate 6 (.callback 0) ++ drain ++ tick 40000000 :: skip ++ drain
    ++ tick 60000000 :: skip ++ drain ++ tick 80000000 :: skip ++ drain

theorem served_at_stops_stopWithoutPenalty :
    let M := pitStopSystem (.init wornTrack fun _ => 0)
    ∃ w, M.ReachableBy PitStopState.NobodyOwes w ∧ (w.race.generator.states 0).inPit = true
      ∧ w.race.penaltyOf 0 = .none ∧ w.ServedAtStops ∧ ∀ i, w.owing i = false := by
  intro M
  have hrun : ((M.guarded PitStopState.NobodyOwes).run M.init stopWithoutPenalty).any (fun w =>
      decide (w.race.pc = .testStop ∧ (w.race.generator.states 0).inPit = true
        ∧ w.race.penaltyOf 0 = .none)) = true := by
    decide +kernel
  rw [Option.any_eq_true] at hrun
  obtain ⟨w, hw, hfacts⟩ := hrun
  rw [decide_eq_true_eq] at hfacts
  obtain ⟨hpc, hpit, hnone⟩ := hfacts
  have hreach : M.ReachableBy PitStopState.NobodyOwes w :=
    System.Reachable.of_guarded (System.Reachable.leads .init (System.leads_of_run hw))
  have hserved := served_at_stops.1 w hreach
  exact ⟨w, hreach, hpit, hnone, hserved, (served_at_stops.2 w hreach.reachable hpc).1 hserved⟩

section Unserved

variable {lapStart : Fin 20 → ℤ} {xs : ℕ → TickInput} {s : RaceControlState} {n : ℕ}

open RaceControlState

theorem RaceControlState.Between.penaltyOf_eq (h : Between lapStart xs s n 3) :
    s.penaltyOf 0 = .pending := by
  refine (penaltyOf_eq_or h.reachable 0).resolve_left ?_
  exact (penaltyState_ne_none_iff h.reachable (by simp [h.pc]) 0).2 h.handledFor.ge

theorem RaceControlState.Between.entersOwing (h : Between lapStart xs s n 3) (hn : n ≤ 1093)
    (henter : ((TelemetryGenerator.race lapStart xs n).states 0).EntersPit defaultTrack (xs n 0)) :
    s.EntersOwing 0 (.tick (xs n)) := by
  refine ⟨⟨h.pc, h.leaves hn⟩, ?_, h.penaltyOf_eq⟩
  rwa [h.generator, TelemetryGenerator.race_track]

end Unserved

/-- VER turns into the pits with its penalty pending, and it stays so. -/
theorem exists_unserved_stop :
    ∃ w n, (pitStopSystem (.init defaultTrack fun _ => 0)).Reachable w
      ∧ w.race.inputs = TelemetryGenerator.firstTicks TelemetryGenerator.steady n
      ∧ w.race.pc = .testStop ∧ w.owing 0 = true
      ∧ (w.race.generator.states 0).inPit = true ∧ w.race.penaltyOf 0 = .pending
      ∧ ¬ w.ServedAtStops := by
  have hnoise : ∀ n, 0 ≤ (TelemetryGenerator.steady n 0).noise := fun _ => le_rfl
  obtain ⟨n, hn, hn', henter⟩ := TelemetryGenerator.exists_entersPit (fun _ => 0) hnoise
  obtain ⟨s₂₇, h₂₇, hidle⟩ :=
    RaceControlState.exists_between_held (fun _ => 0) TelemetryGenerator.steady
  obtain ⟨m, rfl⟩ := Nat.exists_eq_add_of_le (show 27 ≤ n by omega)
  obtain ⟨s, -, h, hsame⟩ := h₂₇.quiets (m := m) (by omega) (.inr hidle)
  rw [← hsame.idle] at hidle
  obtain ⟨s₁, s', hst, hl, h', -⟩ := h.quiet (by omega) (.inr hidle)
  -- the same ticks with the history, in which VER owes its penalty from the last one on
  obtain ⟨o, ho⟩ := exists_owing h.reachable
  have hstep : (pitStopSystem (.init defaultTrack fun _ => 0)).step ⟨s, o⟩
      (.tick (TelemetryGenerator.steady (27 + m)))
        = some ⟨s₁, fun i => o i || decide (s.EntersOwing i
          (.tick (TelemetryGenerator.steady (27 + m))))⟩ :=
    Option.map_eq_some_iff.2 ⟨s₁, hst, rfl⟩
  obtain ⟨o', hl', ho'⟩ := leads_pitStop hl fun i => o i || decide (s.EntersOwing i
    (.tick (TelemetryGenerator.steady (27 + m))))
  have howing : o' 0 = true := by
    refine ho' 0 ?_
    rw [decide_eq_true (h.entersOwing (by omega) henter), Bool.or_true]
  have hpit : (s'.generator.states 0).inPit = true := by
    rw [h'.generator, TelemetryGenerator.race_succ, TelemetryGenerator.tick_inPit,
      TelemetryGenerator.race_track, henter.advance]
    rfl
  refine ⟨⟨s', o'⟩, 27 + m + 1, (ho.step hstep).leads hl', h'.inputs, h'.pc, howing, hpit,
    h'.penaltyOf_eq, fun hserved => ?_⟩
  have hserving := hserved h'.pc 0 howing
  rw [h'.penaltyOf_eq, if_pos hpit] at hserving
  cases hserving

end Run

end RaceConditionZ
