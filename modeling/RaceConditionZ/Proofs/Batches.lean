import RaceConditionZ.Lib.Mealy
import RaceConditionZ.Proofs.EventQueue

/-!
# Batches and the order of drivers

An event is about one driver at most, and what the enforcer keeps of a driver is changed by that
driver's warnings only, each in the same way. So neither the batches nor the order among different
drivers' events matter, and a driver's penalty is announced for its third warning.
-/

namespace RaceConditionZ

namespace PenaltyEnforcer

/-- What the enforcer keeps of a driver. -/
structure File where
  warnings : BitVec 32
  state : PenaltyState
  extraPitTime : BitVec 32

/-- A warning; whether the penalty is announced for it. -/
def File.warn (f : File) (_ : RaceControlEvent) : File × Bool :=
  if f.warnings + 1 = 3 ∧ f.state = .none then (⟨f.warnings + 1, .pending, 3⟩, true)
  else ({ f with warnings := f.warnings + 1 }, false)

theorem File.warn_win (f : File) (h : f.warnings + 1 = 3 ∧ f.state = .none)
    (e : RaceControlEvent) : f.warn e = (⟨f.warnings + 1, .pending, 3⟩, true) := if_pos h

theorem File.warn_lose (f : File) (h : ¬ (f.warnings + 1 = 3 ∧ f.state = .none))
    (e : RaceControlEvent) : f.warn e = ({ f with warnings := f.warnings + 1 }, false) := if_neg h

def file (p : PenaltyEnforcer) (i : Fin 20) : File :=
  ⟨p.warnings i, p.states i, p.extraPitTime i⟩

theorem ext_file {p q : PenaltyEnforcer} (h : ∀ i, p.file i = q.file i) : p = q := by
  have hwarnings : p.warnings = q.warnings := funext fun i => congrArg File.warnings (h i)
  have hstates : p.states = q.states := funext fun i => congrArg File.state (h i)
  have htime : p.extraPitTime = q.extraPitTime := funext fun i => congrArg File.extraPitTime (h i)
  obtain ⟨warnings, states, time⟩ := p
  obtain ⟨warnings', states', time'⟩ := q
  exact PenaltyEnforcer.mk.injEq .. ▸ ⟨hwarnings, hstates, htime⟩

/-- The loop body without its clock. -/
def turn (p : PenaltyEnforcer) (e : RaceControlEvent) : PenaltyEnforcer × Bool :=
  ((p.handle e 0).1, (p.handle e 0).2.isSome)

theorem handle_eq_turn (p : PenaltyEnforcer) (e : RaceControlEvent) (now : ℤ) :
    p.handle e now
      = ((p.turn e).1, if (p.turn e).2 then some (penaltyIssued e now) else none) := by
  unfold turn
  rcases he : warned e with _ | i
  · rw [handle_skip he, handle_skip he]
    rfl
  by_cases hwin : p.warnings i + 1 = 3 ∧ p.states i = .none
  · rw [handle_win he hwin.1 hwin.2, handle_win he hwin.1 hwin.2]
    rfl
  · rw [handle_lose he (not_and_or.1 hwin), handle_lose he (not_and_or.1 hwin)]
    rfl

theorem turn_lose {p : PenaltyEnforcer} {e : RaceControlEvent} {i : Fin 20}
    (he : warned e = some i) (hlose : ¬ (p.warnings i + 1 = 3 ∧ p.states i = .none)) :
    p.turn e = (p.fetchAdd i, false) := by
  unfold turn
  rw [handle_lose he (not_and_or.1 hlose)]
  rfl

theorem turn_win {p : PenaltyEnforcer} {e : RaceControlEvent} {i : Fin 20}
    (he : warned e = some i) (hwin : p.warnings i + 1 = 3 ∧ p.states i = .none) :
    p.turn e = ({ p.fetchAdd i with
      states := Function.update p.states i .pending }.storePitTime i, true) := by
  unfold turn
  rw [handle_win he hwin.1 hwin.2]
  rfl

theorem keyed_turn : Mealy.Keyed turn file warned File.warn false where
  read {p e i} he := by
    by_cases hwin : p.warnings i + 1 = 3 ∧ p.states i = .none
    · rw [turn_win he hwin, (p.file i).warn_win hwin]
      simp [file, fetchAdd, storePitTime]
    · rw [turn_lose he hwin, (p.file i).warn_lose hwin]
      simp [file, fetchAdd]
  other {p e i} he := by
    rcases hj : warned e with _ | j
    · unfold turn
      rw [handle_skip hj]
    have hij : i ≠ j := by
      rintro rfl
      exact he hj
    by_cases hwin : p.warnings j + 1 = 3 ∧ p.states j = .none
    · rw [turn_win hj hwin]
      simp [file, fetchAdd, storePitTime, hij]
    · rw [turn_lose hj hwin]
      simp [file, fetchAdd, hij]
  unread {p e} he := by
    unfold turn
    rw [handle_skip he]
    rfl

namespace File

variable (f : File)

/-- As long as the count has not been at three it comes there with the warnings still missing. -/
theorem third_iff {w : BitVec 32} {n : ℕ} (h : n ≤ (2 - w).toNat) :
    w + BitVec.ofNat 32 n + 1 = 3 ↔ n = (2 - w).toNat := by
  bv_omega

/-- A driver's file after so many warnings. -/
theorem after_warn (es : List RaceControlEvent) :
    (Mealy.after warn f es).warnings = f.warnings + BitVec.ofNat 32 es.length
      ∧ ((Mealy.after warn f es).state = .none
        ↔ f.state = .none ∧ es.length ≤ (2 - f.warnings).toNat) := by
  induction es using List.reverseRecOn with
  | nil => simp [Mealy.after]
  | append_singleton es e ih =>
    obtain ⟨hwarnings, hstate⟩ := ih
    have hcount : f.warnings + BitVec.ofNat 32 es.length + 1
        = f.warnings + BitVec.ofNat 32 (es.length + 1) := by bv_omega
    rw [Mealy.after_concat, List.length_append, List.length_singleton, ← hcount, ← hwarnings]
    by_cases hwin : (Mealy.after warn f es).warnings + 1 = 3 ∧ (Mealy.after warn f es).state = .none
    · rw [warn_win _ hwin]
      refine ⟨rfl, iff_of_false (by simp) fun hnone => ?_⟩
      have hthird := (third_iff (hstate.1 hwin.2).2).1 (hwarnings ▸ hwin.1)
      have hle := hnone.2
      omega
    · rw [warn_lose _ hwin]
      refine ⟨rfl, hstate.trans (and_congr_right fun hnone => ⟨fun hle => ?_, fun hle => by omega⟩)⟩
      by_contra hlast
      have hthird := (third_iff hle).2 (by omega)
      exact hwin ⟨hwarnings ▸ hthird, hstate.2 ⟨hnone, hle⟩⟩

/-- The third warning is the one that is announced. -/
theorem warn_after (es : List RaceControlEvent) (e : RaceControlEvent) :
    (warn (Mealy.after warn f es) e).2 = true
      ↔ f.state = .none ∧ es.length = (2 - f.warnings).toNat := by
  obtain ⟨hwarnings, hstate⟩ := f.after_warn es
  by_cases hwin : (Mealy.after warn f es).warnings + 1 = 3 ∧ (Mealy.after warn f es).state = .none
  · obtain ⟨hnone, hle⟩ := hstate.1 hwin.2
    rw [warn_win _ hwin]
    exact iff_of_true rfl ⟨hnone, (third_iff hle).1 (hwarnings ▸ hwin.1)⟩
  · rw [warn_lose _ hwin]
    refine iff_of_false (by simp) fun hthird => hwin ?_
    obtain ⟨hnone, heq⟩ := hthird
    exact ⟨hwarnings ▸ (third_iff heq.le).2 heq, hstate.2 ⟨hnone, heq.le⟩⟩

theorem accepted_warn (es : List RaceControlEvent) : Mealy.accepted warn f es
    = if f.state = .none then es[(2 - f.warnings).toNat]?.toList else [] := by
  induction es using List.reverseRecOn with
  | nil => split <;> rfl
  | append_singleton es e ih =>
    have hlast := f.warn_after es e
    rw [Mealy.accepted_concat, ih]
    by_cases hnone : f.state = .none
    · rw [if_pos hnone, if_pos hnone, List.getElem?_append]
      by_cases hthird : es.length = (2 - f.warnings).toNat
      · rw [if_pos (hlast.2 ⟨hnone, hthird⟩), ← hthird, if_neg (lt_irrefl _), Nat.sub_self,
          List.getElem?_eq_none le_rfl]
        rfl
      · rw [if_neg (hlast.not.2 fun h => hthird h.2), List.append_nil]
        split_ifs with hlt
        · rfl
        · rw [List.getElem?_eq_none (by omega),
            List.getElem?_eq_none (by rw [List.length_singleton]; omega)]
    · rw [if_neg hnone, if_neg hnone, if_neg (hlast.not.2 fun h => hnone h.1)]
      rfl

end File

/-- `e`, after the events `before`, is a third warning that opens a penalty; `2 - warnings` are
still to come before it. -/
def isThird (p : PenaltyEnforcer) (before : List RaceControlEvent) (e : RaceControlEvent) : Bool :=
  match warned e with
  | none => false
  | some i => p.states i = .none
      ∧ before.countP (fun e => warned e = some i) = (2 - p.warnings i).toNat

theorem turn_after (p : PenaltyEnforcer) (before : List RaceControlEvent) (e : RaceControlEvent) :
    (turn (Mealy.after turn p before) e).2 = p.isThird before e := by
  unfold isThird
  rcases he : warned e with _ | i
  · exact keyed_turn.unread he
  · have hread := congrArg Prod.snd (keyed_turn.read (s := Mealy.after turn p before) he)
    rw [keyed_turn.get_after] at hread
    rw [Bool.eq_iff_iff, decide_eq_true_iff, List.countP_eq_length_filter]
    exact (iff_of_eq (congrArg (· = true) hread)).trans (File.warn_after ..)

theorem announcements_eq (p : PenaltyEnforcer) (clock : ℕ → ℤ) (xs : List (RaceControlEvent × ℕ)) :
    p.announcements (xs.map fun x => (x.1, clock x.2))
      = (Mealy.accepted (fun p x => turn p x.1) p xs).map fun x =>
        penaltyIssued x.1 (clock x.2) := by
  induction xs generalizing p with
  | nil => rfl
  | cons x xs ih =>
    rw [List.map_cons, announcements, handle_eq_turn, Mealy.accepted_cons, List.map_append, ← ih]
    cases (turn p x.1).2 <;> rfl

theorem handleAll_enforcer (p : PenaltyEnforcer) (queue : List RaceControlEvent)
    (batch : List (RaceControlEvent × ℤ)) :
    (p.handleAll queue batch).1 = Mealy.after turn p (batch.map Prod.fst) := by
  induction batch generalizing p queue with
  | nil => rfl
  | cons x batch ih =>
    rw [handleAll, handle_eq_turn, ih]
    rfl

section Call

variable (p : PenaltyEnforcer) (queue : List RaceControlEvent) (clock : ℕ → ℤ)

theorem processEvents_enforcer : (p.processEvents queue clock).1 = Mealy.after turn p queue := by
  rw [processEvents, popAll_eq]
  refine (handleAll_enforcer p [] (timed queue clock)).trans ?_
  unfold timed
  rw [List.map_map]
  exact congrArg _ (List.zipIdx_map_fst 0 queue)

theorem processEvents_accepted : (p.processEvents queue clock).2
    = (Mealy.accepted (fun p x => turn p x.1) p queue.zipIdx).map fun x =>
      penaltyIssued x.1 (clock x.2) := by
  rw [processEvents_queue]
  exact announcements_eq p clock queue.zipIdx

/-- A call leaves its announcements, in the order of the third warnings. -/
theorem processEvents_thirds : (p.processEvents queue clock).2
    = (queue.zipIdx.filter fun x => p.isThird (queue.take x.2) x.1).map fun x =>
      penaltyIssued x.1 (clock x.2) := by
  rw [processEvents_accepted, Mealy.accepted_zipIdx]
  simp only [turn_after]

end Call

/-- What waits in the queue at a call, and what the clock reads at the turns of its loop. -/
abbrev Batch := List RaceControlEvent × (ℕ → ℤ)

/-- A call of `process_events`, with what it leaves in the queue. -/
def call (p : PenaltyEnforcer) (b : Batch) : PenaltyEnforcer × List RaceControlEvent :=
  p.processEvents b.1 b.2

/-- All that waits at one call or another. -/
def events (bs : List Batch) : List RaceControlEvent := (bs.map Prod.fst).flatten

/-- What the calls announce. -/
def announced (p : PenaltyEnforcer) (bs : List Batch) : List RaceControlEvent :=
  (Mealy.outputs call p bs).flatten

/-- Whose penalty an announcement is, or whose warning an event, and from which lap. -/
def told (e : RaceControlEvent) : DriverTag × ℤ := (e.driverId, e.lap)

theorem after_call (p : PenaltyEnforcer) (bs : List Batch) :
    Mealy.after call p bs = Mealy.after turn p (events bs) := by
  induction bs generalizing p with
  | nil => rfl
  | cons b bs ih =>
    unfold events at ih ⊢
    rw [Mealy.after, ih, List.map_cons, List.flatten_cons, Mealy.after_append]
    exact congrArg (Mealy.after turn · _) (processEvents_enforcer p b.1 b.2)

theorem call_told (p : PenaltyEnforcer) (b : Batch) :
    (call p b).2.map told = (Mealy.accepted turn p b.1).map told := by
  have hmap : (Mealy.accepted (fun p x => turn p x.1) p b.1.zipIdx).map Prod.fst
      = Mealy.accepted turn p b.1 := by
    rw [Mealy.accepted_map, List.zipIdx_map_fst]
  unfold call
  rw [processEvents_accepted, ← hmap, List.map_map, List.map_map]
  rfl

theorem announced_told (p : PenaltyEnforcer) (bs : List Batch) :
    (announced p bs).map told = (Mealy.accepted turn p (events bs)).map told := by
  induction bs generalizing p with
  | nil => rfl
  | cons b bs ih =>
    unfold announced events at ih ⊢
    rw [Mealy.outputs, List.flatten_cons, List.map_append, call_told, ih, List.map_cons,
      List.flatten_cons, Mealy.accepted_append, List.map_append]
    exact congrArg (fun q => _ ++ (Mealy.accepted turn q _).map told)
      (processEvents_enforcer p b.1 b.2)

/-- The events of one driver tell its warnings. -/
theorem filter_warned {l l' : List RaceControlEvent}
    (hown : ∀ id,
      (l.filter fun e => e.driverId.view = id) = l'.filter fun e => e.driverId.view = id)
    (i : Fin 20) :
    (l.filter fun e => warned e = some i) = l'.filter fun e => warned e = some i := by
  have hfilter : ∀ l : List RaceControlEvent, (l.filter fun e => warned e = some i)
      = (l.filter fun e => e.driverId.view = (drivers.get i).id).filter
        fun e => e.type = .trackLimits := by
    intro l
    rw [List.filter_filter]
    refine List.filter_congr fun e _ => ?_
    rw [Bool.eq_iff_iff, decide_eq_true_iff, warned_eq_some, Bool.and_eq_true, decide_eq_true_iff,
      decide_eq_true_iff]
  rw [hfilter l, hfilter l', hown]

/-- A driver's penalty is announced for its third warning. -/
theorem announced_of_driver (p : PenaltyEnforcer) (bs : List Batch) (i : Fin 20) :
    ((announced p bs).filter fun e => driverIndex e.driverId.view = some i).map told
      = if p.states i = .none then
          ((events bs).filter fun e => warned e = some i)[(2 - p.warnings i).toNat]?.toList.map told
        else [] := by
  have haccepted : ((Mealy.accepted turn p (events bs)).filter
        fun e => driverIndex e.driverId.view = some i)
      = (Mealy.accepted turn p (events bs)).filter fun e => warned e = some i := by
    refine List.filter_congr fun e he => ?_
    obtain ⟨j, hj⟩ := Option.ne_none_iff_exists'.1 (keyed_turn.key_of_accepted he)
    rw [hj, (driverIndex_of_warned hj).2]
  have hmap : ∀ l : List RaceControlEvent,
      (l.filter fun e => driverIndex e.driverId.view = some i).map told
        = (l.map told).filter fun t => driverIndex t.1.view = some i := by
    intro l
    rw [List.filter_map]
    rfl
  rw [hmap, announced_told, ← hmap, haccepted, keyed_turn.accepted_filter, File.accepted_warn]
  unfold file
  simp only []
  split <;> rfl

/-- The batches, and the order of different drivers' events, do not matter to the enforcer; and a
call leaves its own announcements, in the order of the third warnings. -/
theorem batches_do_not_matter (p : PenaltyEnforcer) (bs cs : List Batch)
    (hown : ∀ id, ((events bs).filter fun e => e.driverId.view = id)
      = (events cs).filter fun e => e.driverId.view = id) :
    Mealy.after call p bs = Mealy.after call p cs
      ∧ ((announced p bs).map told).Perm ((announced p cs).map told)
      ∧ (∀ (ds : List Batch) (i : Fin 20),
        ((announced p ds).filter fun e => driverIndex e.driverId.view = some i).map told
          = if p.states i = .none then
              ((events ds).filter fun e => warned e = some i)[(2 - p.warnings i).toNat]?.toList.map
                told
            else [])
      ∧ ∀ (p : PenaltyEnforcer) (queue : List RaceControlEvent) (clock : ℕ → ℤ),
        (p.processEvents queue clock).2
          = (queue.zipIdx.filter fun x => p.isThird (queue.take x.2) x.1).map fun x =>
            penaltyIssued x.1 (clock x.2) := by
  refine ⟨?_, ?_, announced_of_driver p, processEvents_thirds⟩
  · rw [after_call, after_call]
    refine ext_file fun i => ?_
    rw [keyed_turn.get_after, keyed_turn.get_after, filter_warned hown]
  · rw [announced_told, announced_told]
    exact (keyed_turn.accepted_perm p (filter_warned hown)).map told

/-- A violation of the track limits in that lap. -/
def violation (id : String) (lap : ℤ) : RaceControlEvent := ⟨.trackLimits, .ofId id, lap, "", 0⟩

/-- Three warnings of VER and one of LEC in one batch, and in two with LEC's last. -/
theorem batches_do_not_matter_two :
    let bs : List Batch :=
      [([violation "VER" 1, violation "LEC" 1, violation "VER" 2, violation "VER" 3], fun _ => 0)]
    let cs : List Batch :=
      [([violation "VER" 1, violation "VER" 2], fun _ => 0),
        ([violation "VER" 3, violation "LEC" 1], fun _ => 0)]
    ((announced start bs).map told).Perm ((announced start cs).map told) := by
  intro bs cs
  have hver : ∀ lap, (violation "VER" lap).driverId.view = "VER" := fun _ => rfl
  have hlec : (violation "LEC" 1).driverId.view = "LEC" := rfl
  refine (batches_do_not_matter start bs cs fun id => ?_).2.1
  by_cases h : "LEC" = id
  · subst h
    rfl
  · simp [events, bs, cs, List.filter_cons, hver, hlec, h]

end PenaltyEnforcer

end RaceConditionZ
