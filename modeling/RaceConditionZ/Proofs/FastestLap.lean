import RaceConditionZ.RaceState
import Mathlib.Data.Fin.VecNotation
import Mathlib.Data.Fintype.Basic
import Mathlib.Data.List.Pairwise
import Mathlib.Order.Bounds.Basic

/-!
# Concurrent claims of the fastest lap

Every exchange that succeeds replaces the time its call last read by a smaller one, so the time
only falls, through the times of the winners in the order they won. The holder is stored in a later
step, and two winners may store in the other order: the record is then one driver's time under
another driver's name. It is not where no store comes after the store of the call whose time stands.
-/

namespace RaceConditionZ

open Transition MachineFloat

variable {F ι : Type} [MachineFloat F] [DecidableEq ι]

section Claims

variable (calls : ι → LapClaim F) {race : RaceState F}

/-- The steps of one call, on the state of them all. -/
inductive ClaimMove (i : ι) (s : ClaimState ι F) : ClaimState ι F → Prop
  | load : s.pc i = .load →
      ClaimMove i s { s with pc := Function.update s.pc i (.compare s.race.fastestLapMs) }
  | faster (cur : F) : s.pc i = .compare cur → (calls i).lapMs < cur →
      ClaimMove i s { s with pc := Function.update s.pc i (.exchange cur) }
  | slower (cur : F) : s.pc i = .compare cur → ¬ (calls i).lapMs < cur →
      ClaimMove i s { s with pc := Function.update s.pc i (.returned false) }
  | win : s.pc i = .exchange s.race.fastestLapMs →
      ClaimMove i s ⟨{ s.race with fastestLapMs := (calls i).lapMs },
        Function.update s.pc i .storeHolder, i :: s.winners⟩
  | retry (cur : F) : s.pc i = .exchange cur →
      ClaimMove i s { s with pc := Function.update s.pc i (.compare s.race.fastestLapMs) }
  | store : s.pc i = .storeHolder →
      ClaimMove i s ⟨{ s.race with fastestLapHolder := (calls i).driverIndex },
        Function.update s.pc i (.returned true), s.winners⟩

/-- A call has won once its exchange has succeeded, and holds that in its own place. -/
def ClaimPc.Won : ClaimPc F → Prop
  | .storeHolder => True
  | .returned won => won = true
  | _ => False

/-- What a call knows of the time: it never rises above a value the call has read. -/
def ClaimPc.Ok (c : LapClaim F) (fastest : F) : ClaimPc F → Prop
  | .load => True
  | .compare cur => ¬ isNaN cur ∧ fastest ≤ cur
  | .exchange cur => ¬ isNaN cur ∧ fastest ≤ cur ∧ c.lapMs < cur
  | .storeHolder => fastest ≤ c.lapMs
  | .returned _ => fastest ≤ c.lapMs

theorem ClaimPc.Ok.mono {c : LapClaim F} {fastest fastest' : F} (hle : fastest' ≤ fastest) :
    ∀ {pc : ClaimPc F}, pc.Ok c fastest → pc.Ok c fastest'
  | .load, _ => trivial
  | .compare _, h => ⟨h.1, hle.trans h.2⟩
  | .exchange _, h => ⟨h.1, hle.trans h.2.1, h.2.2⟩
  | .storeHolder, h => le_trans hle h
  | .returned _, h => le_trans hle h

theorem ClaimPc.Ok.le_of_won {c : LapClaim F} {fastest : F} :
    ∀ {pc : ClaimPc F}, pc.Ok c fastest → pc.Won → fastest ≤ c.lapMs
  | .storeHolder, h, _ => h
  | .returned _, h, _ => h

/-- What holds of the time, the winners and the calls in every reached state. -/
structure ClaimInv (race : RaceState F) (s : ClaimState ι F) : Prop where
  not_isNaN : ¬ isNaN s.race.fastestLapMs
  ok : ∀ i, (s.pc i).Ok (calls i) s.race.fastestLapMs
  mem_winners : ∀ i, i ∈ s.winners ↔ (s.pc i).Won
  decreasing : (s.winners.map fun i => (calls i).lapMs).Pairwise (· < ·)
  current : s.race.fastestLapMs = (s.winners.map fun i => (calls i).lapMs).headD race.fastestLapMs
  le_start : s.race.fastestLapMs ≤ race.fastestLapMs

/-- A step that leaves its call as much a winner as it was, and the times alone, keeps the
invariant if the call's new place is right. -/
theorem ClaimInv.move {s : ClaimState ι F} (hI : ClaimInv calls race s) {i : ι} {pc : ClaimPc F}
    {holder : ℤ} (hwon : pc.Won ↔ (s.pc i).Won) (hok : pc.Ok (calls i) s.race.fastestLapMs) :
    ClaimInv calls race
      ⟨{ s.race with fastestLapHolder := holder }, Function.update s.pc i pc, s.winners⟩ where
  not_isNaN := hI.not_isNaN
  ok := (Function.forall_update_iff s.pc fun j pc => pc.Ok (calls j) s.race.fastestLapMs).2
    ⟨hok, fun j _ => hI.ok j⟩
  mem_winners := (Function.forall_update_iff s.pc fun j pc => j ∈ s.winners ↔ pc.Won).2
    ⟨(hI.mem_winners i).trans hwon.symm, fun j _ => hI.mem_winners j⟩
  decreasing := hI.decreasing
  current := hI.current
  le_start := hI.le_start

/-- A successful exchange puts a smaller time in place of the current one. -/
theorem ClaimInv.win {s : ClaimState ι F} (hI : ClaimInv calls race s) {i : ι}
    (hcall : ¬ isNaN (calls i).lapMs) (hpc : s.pc i = .exchange s.race.fastestLapMs) :
    ClaimInv calls race ⟨{ s.race with fastestLapMs := (calls i).lapMs },
      Function.update s.pc i .storeHolder, i :: s.winners⟩ := by
  have hlt : (calls i).lapMs < s.race.fastestLapMs := by
    have hok := hI.ok i
    rw [hpc] at hok
    exact hok.2.2
  refine ⟨hcall, ?_, ?_, ?_, rfl, hlt.le.trans hI.le_start⟩
  · exact (Function.forall_update_iff s.pc fun j pc => pc.Ok (calls j) (calls i).lapMs).2
      ⟨le_refl _, fun j _ => (hI.ok j).mono hlt.le⟩
  · refine (Function.forall_update_iff s.pc fun j pc => j ∈ i :: s.winners ↔ pc.Won).2
      ⟨iff_of_true List.mem_cons_self trivial, fun j hne => ?_⟩
    simp only [List.mem_cons, hne, false_or]
    exact hI.mem_winners j
  · simp only [List.map_cons, List.pairwise_cons, List.mem_map, forall_exists_index, and_imp]
    refine ⟨?_, hI.decreasing⟩
    rintro _ j hj rfl
    exact hlt.trans_le ((hI.ok j).le_of_won ((hI.mem_winners j).1 hj))

theorem ClaimInv.step (hcalls : ∀ i, ¬ isNaN (calls i).lapMs) {s s' : ClaimState ι F}
    (hI : ClaimInv calls race s) {i : ι} (hm : ClaimMove calls i s s') :
    ClaimInv calls race s' := by
  have hok := hI.ok i
  cases hm with
  | load hpc => exact hI.move calls (by simp [hpc, ClaimPc.Won]) ⟨hI.not_isNaN, le_rfl⟩
  | faster cur hpc hlt =>
    rw [hpc] at hok
    exact hI.move calls (by simp [hpc, ClaimPc.Won]) ⟨hok.1, hok.2, hlt⟩
  | slower cur hpc hnlt =>
    rw [hpc] at hok
    exact hI.move calls (by simp [hpc, ClaimPc.Won])
      (hok.2.trans (le_of_not_lt (hcalls i) hok.1 hnlt))
  | win hpc => exact hI.win calls (hcalls i) hpc
  | retry cur hpc => exact hI.move calls (by simp [hpc, ClaimPc.Won]) ⟨hI.not_isNaN, le_rfl⟩
  | store hpc =>
    rw [hpc] at hok
    exact hI.move calls (by simp [hpc, ClaimPc.Won]) hok

/-- A step lowers the time or leaves it. -/
theorem ClaimInv.time_le {s s' : ClaimState ι F} (hI : ClaimInv calls race s) {i : ι}
    (hm : ClaimMove calls i s s') : s'.race.fastestLapMs ≤ s.race.fastestLapMs := by
  have hok := hI.ok i
  cases hm with
  | win hpc =>
    rw [hpc] at hok
    exact hok.2.2.le
  | _ => exact le_rfl

/-- Of the calls that offer one time at most one wins. -/
theorem ClaimInv.eq_of_same_time {s : ClaimState ι F} (hI : ClaimInv calls race s) {i j : ι}
    (hi : i ∈ s.winners) (hj : j ∈ s.winners) (hij : (calls i).lapMs ≤ (calls j).lapMs)
    (hji : (calls j).lapMs ≤ (calls i).lapMs) : i = j := by
  let Differ (i j : ι) : Prop :=
    ¬ ((calls i).lapMs ≤ (calls j).lapMs ∧ (calls j).lapMs ≤ (calls i).lapMs)
  have hpw : s.winners.Pairwise Differ :=
    (List.pairwise_map.1 hI.decreasing).imp fun h hle => h.not_ge hle.2
  have : Std.Symm Differ := ⟨fun _ _ h hle => h hle.symm⟩
  by_contra hne
  exact hpw.forall hi hj hne ⟨hij, hji⟩

/-- A call that gives up does so while the time is no larger than its own. -/
theorem ClaimInv.le_of_lost (hcalls : ∀ i, ¬ isNaN (calls i).lapMs) {s s' : ClaimState ι F}
    (hI : ClaimInv calls race s) {i : ι} (hm : ClaimMove calls i s s')
    (hlost : s'.pc i = .returned false) : s.race.fastestLapMs ≤ (calls i).lapMs := by
  have hok := hI.ok i
  cases hm with
  | slower cur hpc hnlt =>
    rw [hpc] at hok
    exact hok.2.trans (le_of_not_lt (hcalls i) hok.1 hnlt)
  | _ => simp at hlost

omit [DecidableEq ι] in
theorem ClaimInv.mem_offered {s : ClaimState ι F} (hI : ClaimInv calls race s) :
    s.race.fastestLapMs ∈ insert race.fastestLapMs (Set.range fun i => (calls i).lapMs) := by
  rw [hI.current]
  rcases s.winners with _ | ⟨i, is⟩
  · exact Or.inl rfl
  · exact Or.inr ⟨i, rfl⟩

variable [DecidableEq F] [DecidableLT F]

theorem claimMove_of_step {s s' : ClaimState ι F} {l : ι × Bool}
    (h : (claimSystem calls race).step s l = some s') : ClaimMove calls l.1 s s' := by
  obtain ⟨i, spurious⟩ := l
  simp only [claimSystem, Option.map_eq_some_iff, Prod.exists] at h
  obtain ⟨race', pc', hstep, rfl⟩ := h
  rcases hpc : s.pc i with _ | cur | cur | _ | won <;>
    simp only [hpc, RaceState.tryClaimFastestLap] at hstep
  · simp only [Option.some.injEq, Prod.mk.injEq] at hstep
    obtain ⟨rfl, rfl⟩ := hstep
    exact .load hpc
  · split_ifs at hstep with hlt <;> simp only [Option.some.injEq, Prod.mk.injEq] at hstep <;>
      obtain ⟨rfl, rfl⟩ := hstep
    · exact .faster cur hpc hlt
    · exact .slower cur hpc hlt
  · split_ifs at hstep with heq <;> simp only [Option.some.injEq, Prod.mk.injEq] at hstep <;>
      obtain ⟨rfl, rfl⟩ := hstep
    · exact .win (by rw [heq.1]; exact hpc)
    · exact .retry cur hpc
  · simp only [Option.some.injEq, Prod.mk.injEq] at hstep
    obtain ⟨rfl, rfl⟩ := hstep
    exact .store hpc
  · simp at hstep

theorem claimInv_init (hrace : ¬ isNaN race.fastestLapMs) :
    ClaimInv calls race (claimSystem calls race).init where
  not_isNaN := hrace
  ok := by simp [claimSystem, ClaimPc.Ok]
  mem_winners := by simp [claimSystem, ClaimPc.Won]
  decreasing := by simp [claimSystem]
  current := by simp [claimSystem]
  le_start := le_rfl

theorem claimInv_reachable (hcalls : ∀ i, ¬ isNaN (calls i).lapMs)
    (hrace : ¬ isNaN race.fastestLapMs) {ok : ClaimState ι F → ι × Bool → Prop}
    {s : ClaimState ι F} (h : (claimSystem calls race).ReachableBy ok s) :
    ClaimInv calls race s :=
  h.invariant (claimInv_init calls hrace)
    fun _ hI _ hst => hI.step calls hcalls (claimMove_of_step calls hst)

theorem time_antitone (hcalls : ∀ i, ¬ isNaN (calls i).lapMs) (hrace : ¬ isNaN race.fastestLapMs)
    {s s' : ClaimState ι F} (h : (claimSystem calls race).Reachable s)
    (hl : (claimSystem calls race).Leads s s') :
    s'.race.fastestLapMs ≤ s.race.fastestLapMs :=
  hl.antitone (f := fun s => s.race.fastestLapMs)
    (fun hs hst => (claimInv_reachable calls hcalls hrace hs).time_le calls
      (claimMove_of_step calls hst)) h

variable (race) in
/-- The time falls through the winners' times, no call loses to a larger one, and once all calls
have returned the time is the least of those it started from and was offered. -/
theorem fastest_lap_is_least (hcalls : ∀ i, ¬ isNaN (calls i).lapMs)
    (hrace : ¬ isNaN race.fastestLapMs) {s : ClaimState ι F}
    (h : (claimSystem calls race).Reachable s) :
    (∀ s', (claimSystem calls race).Leads s s' → s'.race.fastestLapMs ≤ s.race.fastestLapMs)
      ∧ (s.winners.map fun i => (calls i).lapMs).Pairwise (· < ·)
      ∧ (∀ i j, s.pc i = .returned true → s.pc j = .returned true →
        (calls i).lapMs ≤ (calls j).lapMs → (calls j).lapMs ≤ (calls i).lapMs → i = j)
      ∧ (∀ i spurious s', (claimSystem calls race).step s (i, spurious) = some s' →
        s'.pc i = .returned false → s.race.fastestLapMs ≤ (calls i).lapMs)
      ∧ ((∀ i, ∃ won, s.pc i = .returned won) →
        IsLeast (insert race.fastestLapMs (Set.range fun i => (calls i).lapMs))
          s.race.fastestLapMs) := by
  have hI := claimInv_reachable calls hcalls hrace h
  refine ⟨fun s' hl => time_antitone calls hcalls hrace h hl, hI.decreasing, ?_, ?_, ?_⟩
  · intro i j hi hj hij hji
    exact hI.eq_of_same_time calls ((hI.mem_winners i).2 (by simp [hi, ClaimPc.Won]))
      ((hI.mem_winners j).2 (by simp [hj, ClaimPc.Won])) hij hji
  · intro i spurious s' hst hlost
    exact hI.le_of_lost calls hcalls (claimMove_of_step calls hst) hlost
  · intro hall
    refine ⟨hI.mem_offered calls, ?_⟩
    rintro _ (rfl | ⟨i, rfl⟩)
    · exact hI.le_start
    · obtain ⟨won, hwon⟩ := hall i
      have hok := hI.ok i
      rw [hwon] at hok
      exact hok

/-- Two drivers' claims, of 90 s and of 80 s. -/
def twoClaims : Fin 2 → LapClaim Binary32 :=
  ![⟨0, ⟨0x47afc800⟩⟩, ⟨1, ⟨0x479c4000⟩⟩]

/-- The first exchanges before the second reads, and the second fails once spuriously. -/
def twoClaimsInTurn : List (Fin 2 × Bool) :=
  [(0, false), (0, false), (0, false), (1, false), (0, false), (1, false), (1, true), (1, false),
    (1, false), (1, false)]

theorem fastest_lap_is_least_two :
    IsLeast (insert (RaceState.initial (F := Binary32)).fastestLapMs
        (Set.range fun i => (twoClaims i).lapMs))
      (((claimSystem twoClaims .initial).run (claimSystem twoClaims .initial).init
        twoClaimsInTurn).get (by decide)).race.fastestLapMs :=
  (fastest_lap_is_least twoClaims .initial (by decide) not_isNaN_maxFinite
    (System.reachable_get _ (by decide))).2.2.2.2 (by decide)

end Claims

section Record

variable (calls : ι → LapClaim F) {race : RaceState F}

/-- The holder is the driver of the call that installed the time, once all calls have returned and
one has won. -/
def OneClaim (s : ClaimState ι F) : Prop :=
  (∀ i, ∃ won, s.pc i = .returned won) → (∃ i, s.pc i = .returned true) →
    ∃ i, s.winners.head? = some i ∧ s.race.fastestLapHolder = (calls i).driverIndex

/-- A holder is stored while the call that installed the time has its own store still to do, or
for the same driver. -/
def StoreInOrder (s : ClaimState ι F) (l : ι × Bool) : Prop :=
  s.pc l.1 = .storeHolder → ∀ j ∈ s.winners.head?,
    s.pc j = .storeHolder ∨ (calls j).driverIndex = (calls l.1).driverIndex

/-- The call that installed the time has stored its driver, or has that still to do. -/
def HolderDue (s : ClaimState ι F) : Prop :=
  ∀ j, s.winners.head? = some j →
    s.pc j = .storeHolder ∨ s.race.fastestLapHolder = (calls j).driverIndex

omit [MachineFloat F] in
theorem HolderDue.move {s : ClaimState ι F} (hD : HolderDue calls s) {i : ι} {pc : ClaimPc F}
    (hi : i ∉ s.winners) : HolderDue calls { s with pc := Function.update s.pc i pc } := by
  intro j hj
  have hne : j ≠ i := fun h => hi (h ▸ List.mem_of_mem_head? hj)
  simp only [Function.update_of_ne hne]
  exact hD j hj

theorem HolderDue.step {s s' : ClaimState ι F} (hI : ClaimInv calls race s)
    (hD : HolderDue calls s) {l : ι × Bool} (hok : StoreInOrder calls s l)
    (hm : ClaimMove calls l.1 s s') : HolderDue calls s' := by
  have hout : ¬ (s.pc l.1).Won → l.1 ∉ s.winners := fun h hmem => h ((hI.mem_winners l.1).1 hmem)
  cases hm with
  | load hpc => exact hD.move calls (hout (by simp [hpc, ClaimPc.Won]))
  | faster cur hpc _ => exact hD.move calls (hout (by simp [hpc, ClaimPc.Won]))
  | slower cur hpc _ => exact hD.move calls (hout (by simp [hpc, ClaimPc.Won]))
  | retry cur hpc => exact hD.move calls (hout (by simp [hpc, ClaimPc.Won]))
  | win hpc =>
    intro j hj
    simp only [List.head?_cons, Option.some.injEq] at hj
    subst hj
    exact Or.inl (Function.update_self ..)
  | store hpc =>
    intro j hj
    rcases eq_or_ne j l.1 with rfl | hne
    · exact Or.inr rfl
    · simp only [Function.update_of_ne hne]
      exact (hok hpc j hj).imp id Eq.symm

variable [DecidableEq F] [DecidableLT F]

variable (race) in
/-- Where every store is in order, the record is of one claim. -/
theorem oneClaim_of_storesInOrder (hcalls : ∀ i, ¬ isNaN (calls i).lapMs)
    (hrace : ¬ isNaN race.fastestLapMs) {s : ClaimState ι F}
    (h : (claimSystem calls race).ReachableBy (StoreInOrder calls) s) : OneClaim calls s := by
  have hI := claimInv_reachable calls hcalls hrace h
  have hD : HolderDue calls s := by
    refine h.invariant (by simp [HolderDue, claimSystem]) fun hs hD hok hst => ?_
    exact hD.step calls (claimInv_reachable calls hcalls hrace hs) hok
      (claimMove_of_step calls hst)
  rintro hall ⟨i, hi⟩
  have hmem : i ∈ s.winners := (hI.mem_winners i).2 (by simp [hi, ClaimPc.Won])
  obtain ⟨j, hj⟩ : ∃ j, s.winners.head? = some j := by
    rcases hw : s.winners with _ | ⟨j, js⟩
    · simp [hw] at hmem
    · exact ⟨j, rfl⟩
  refine ⟨j, hj, (hD j hj).resolve_left fun hpc => ?_⟩
  obtain ⟨won, hwon⟩ := hall j
  rw [hpc] at hwon
  cases hwon

/-- A store out of order tears the record: the call that installed the time has returned, and the
holder is another driver. -/
theorem torn_of_late_store (hcalls : ∀ i, ¬ isNaN (calls i).lapMs)
    (hrace : ¬ isNaN race.fastestLapMs) {s s' : ClaimState ι F} {l : ι × Bool}
    (h : (claimSystem calls race).Reachable s)
    (hst : (claimSystem calls race).step s l = some s') (hlate : ¬ StoreInOrder calls s l) :
    ∃ j, s'.winners.head? = some j ∧ s'.pc j = .returned true
      ∧ s'.race.fastestLapHolder ≠ (calls j).driverIndex := by
  have hI := claimInv_reachable calls hcalls hrace h
  simp only [StoreInOrder, not_forall, not_or] at hlate
  obtain ⟨hpc, j, hj, hnot, hdiff⟩ := hlate
  have hwon : (s.pc j).Won := (hI.mem_winners j).1 (List.mem_of_mem_head? hj)
  have hne : j ≠ l.1 := fun h => hnot (h ▸ hpc)
  have hm := claimMove_of_step calls hst
  cases hm with
  | store _ =>
    refine ⟨j, hj, ?_, fun h => hdiff h.symm⟩
    simp only [Function.update_of_ne hne]
    rcases hj' : s.pc j with _ | _ | _ | _ | won <;> simp_all [ClaimPc.Won]
  | _ => simp_all

instance (s : ClaimState (Fin 2) Binary32) (l : Fin 2 × Bool) :
    Decidable (StoreInOrder twoClaims s l) := by
  unfold StoreInOrder
  infer_instance

theorem oneClaim_of_storesInOrder_two :
    let M := (claimSystem twoClaims .initial).guarded (StoreInOrder twoClaims)
    let s := (M.run M.init twoClaimsInTurn).get (by decide)
    ∃ i, s.winners.head? = some i ∧ s.race.fastestLapHolder = (twoClaims i).driverIndex :=
  oneClaim_of_storesInOrder twoClaims .initial (by decide) not_isNaN_maxFinite
    (System.Reachable.of_guarded (System.reachable_get _ (by decide))) (by decide) (by decide)

/-- The first call exchanges, the second claims and stores, and then the first stores. -/
def lateStore : List (Fin 2 × Bool) :=
  [(0, false), (0, false), (0, false), (1, false), (1, false), (1, false), (1, false), (0, false)]

theorem not_oneClaim_lateStore :
    ¬ ∀ s, (claimSystem twoClaims .initial).Reachable s → OneClaim twoClaims s := by
  intro h
  have hone := h _ (System.reachable_get lateStore (by decide))
  unfold OneClaim at hone
  revert hone
  decide

end Record

end RaceConditionZ
