import RaceConditionZ.EnforcerThreads
import RaceConditionZ.Proofs.PenaltyOnce

/-!
# One penalty, whoever counts

Each `fetch_add` gives out a count of its own, so the third warning of a driver is compared by one
thread only, and until the counter has wrapped around no other compares equal to three: that
thread's exchange cannot fail. After a wrap another thread may compare equal as well, and then the
exchange lets one of them through.
-/

namespace RaceConditionZ

open Transition PenaltyEnforcer

theorem ProcessPc.counting_eq_some {pc : ProcessPc} {i : Fin 20} :
    pc.counting = some i ↔ ∃ e count batch, pc = .compare e i count batch := by
  cases pc <;> simp [counting]

theorem ProcessPc.announcing_eq_some {pc : ProcessPc} {i : Fin 20} :
    pc.announcing = some i ↔ ∃ e batch, pc = .push e i batch := by
  cases pc <;> simp [announcing]

namespace EnforcerThreads

variable {ι : Type} (s : EnforcerThreads ι)

/-- How many of the driver's warnings have been counted. -/
def handledFor (i : Fin 20) : ℕ := (s.view .idle).handledFor i

/-- How many penalties have been announced for the driver. -/
def announcedFor (i : Fin 20) : ℕ := (s.view .idle).announcedFor i

/-- `ticket` tells which of its driver's warnings a thread that is to compare has counted. -/
structure Ticketed (ticket : ι → ℕ) : Prop where
  warnings_eq : ∀ i, s.enforcer.warnings i = BitVec.ofNat 32 (s.handledFor i)
  compare_ok : ∀ a e i count batch, s.loops a = .compare e i count batch →
    warned e = some i ∧ ticket a ≤ s.handledFor i ∧ count = BitVec.ofNat 32 (ticket a)
  distinct : ∀ i a b, (s.loops a).counting = some i → (s.loops b).counting = some i →
    ticket a = ticket b → a = b
  push_ok : ∀ a e i batch, s.loops a = .push e i batch →
    warned e = some i ∧ s.enforcer.states i ≠ .none ∧ s.announcedFor i = 0
  push_one : ∀ i a b, (s.loops a).announcing = some i → (s.loops b).announcing = some i → a = b
  closed : ∀ i, s.enforcer.states i = .none → s.announcedFor i = 0
    ∧ (3 ≤ s.handledFor i → ∃ a, (s.loops a).counting = some i ∧ ticket a = 3)
  issued : ∀ i, s.enforcer.states i ≠ .none → 3 ≤ s.handledFor i ∧ s.announcedFor i ≤ 1
    ∧ (s.announcedFor i = 0 → ∃ a, (s.loops a).announcing = some i)
    ∧ ∀ a, (s.loops a).counting = some i → ticket a = 3 → 2 ^ 32 + 3 ≤ s.handledFor i

variable {s} {s' : EnforcerThreads ι} {ticket : ι → ℕ}

theorem handledFor_congr (h : s'.handled = s.handled) (i : Fin 20) :
    s'.handledFor i = s.handledFor i := by
  unfold handledFor view EnforcerState.handledFor
  rw [h]

theorem announcedFor_congr (h : s'.announced = s.announced) (i : Fin 20) :
    s'.announcedFor i = s.announcedFor i := by
  unfold announcedFor view EnforcerState.announcedFor
  rw [h]

theorem Ticketed.ticket_le (h : s.Ticketed ticket) {a : ι} {i : Fin 20}
    (ha : (s.loops a).counting = some i) : ticket a ≤ s.handledFor i := by
  obtain ⟨e, count, batch, ha⟩ := ProcessPc.counting_eq_some.1 ha
  exact (h.compare_ok a e i count batch ha).2.1

theorem Ticketed.not_announcing (h : s.Ticketed ticket) {a : ι} {i : Fin 20}
    (hi : s.enforcer.states i = .none) : (s.loops a).announcing ≠ some i := by
  intro ha
  obtain ⟨e, batch, ha⟩ := ProcessPc.announcing_eq_some.1 ha
  exact (h.push_ok a e i batch ha).2.1 hi

/-- A call about a pit stop: no penalty is opened or closed. -/
theorem Ticketed.of_pits (h : s.Ticketed ticket)
    (hwarnings : s'.enforcer.warnings = s.enforcer.warnings)
    (hstates : ∀ i, s'.enforcer.states i = .none ↔ s.enforcer.states i = .none)
    (hhandled : s'.handled = s.handled) (hannounced : s'.announced = s.announced)
    (hloops : s'.loops = s.loops) : s'.Ticketed ticket := by
  refine ⟨fun i => ?_, ?_, ?_, fun a e i batch ha => ?_, ?_, fun i hi => ?_, fun i hi => ?_⟩
  · rw [hwarnings, handledFor_congr hhandled]
    exact h.warnings_eq i
  · simp only [hloops, handledFor_congr hhandled]
    exact h.compare_ok
  · rw [hloops]
    exact h.distinct
  · rw [hloops] at ha
    rw [ne_eq, hstates, announcedFor_congr hannounced]
    exact h.push_ok a e i batch ha
  · rw [hloops]
    exact h.push_one
  · rw [hstates] at hi
    simp only [hloops, handledFor_congr hhandled, announcedFor_congr hannounced]
    exact h.closed i hi
  · rw [ne_eq, hstates] at hi
    simp only [hloops, handledFor_congr hhandled, announcedFor_congr hannounced]
    exact h.issued i hi

variable [DecidableEq ι]

/-- What one loop's step makes of where the loops are. -/
theorem update_loops_eq_some {β : Type} (f : ProcessPc → Option β) {loops : ι → ProcessPc} {a b : ι}
    {pc : ProcessPc} {x : β} : f (Function.update loops a pc b) = some x
      ↔ b = a ∧ f pc = some x ∨ b ≠ a ∧ f (loops b) = some x := by
  by_cases hba : b = a
  · simp [hba]
  · simp [hba]

/-- A loop goes on to where it neither compares nor announces, and nothing else changes. -/
theorem Ticketed.of_loop (h : s.Ticketed ticket) {a : ι} {pc : ProcessPc}
    (hwarnings : s'.enforcer.warnings = s.enforcer.warnings)
    (hstates : s'.enforcer.states = s.enforcer.states) (hhandled : s'.handled = s.handled)
    (hannounced : s'.announced = s.announced) (hloops : s'.loops = Function.update s.loops a pc)
    (hcounting : pc.counting = none) (hannouncing : pc.announcing = none)
    (hlose : ∀ i, (s.loops a).counting = some i → s.enforcer.states i = .none → ticket a ≠ 3)
    (hquiet : (s.loops a).announcing = none) : s'.Ticketed ticket := by
  have hh := handledFor_congr hhandled
  have ha := announcedFor_congr hannounced
  have hc : ∀ {b i}, (s'.loops b).counting = some i → b ≠ a ∧ (s.loops b).counting = some i := by
    intro b i hb
    rw [hloops, update_loops_eq_some, hcounting] at hb
    simpa using hb
  have hp : ∀ {b i}, (s'.loops b).announcing = some i ↔ (s.loops b).announcing = some i := by
    intro b i
    rw [hloops, update_loops_eq_some, hannouncing]
    constructor
    · rintro (⟨-, hb⟩ | ⟨-, hb⟩)
      · cases hb
      · exact hb
    · intro hb
      refine .inr ⟨?_, hb⟩
      rintro rfl
      rw [hquiet] at hb
      cases hb
  have hother : ∀ {b pc'}, s'.loops b = pc' → pc' ≠ pc → s.loops b = pc' := by
    intro b pc' hb hne
    rw [hloops] at hb
    by_cases hba : b = a
    · rw [hba, Function.update_self] at hb
      exact absurd hb.symm hne
    · rwa [Function.update_of_ne hba] at hb
  refine ⟨fun i => ?_, fun b e i count batch hb => ?_, fun i b b' hb hb' => ?_,
    fun b e i batch hb => ?_, fun i b b' hb hb' => ?_, fun i hi => ?_, fun i hi => ?_⟩
  · rw [hwarnings, hh]
    exact h.warnings_eq i
  · rw [hh]
    refine h.compare_ok b e i count batch (hother hb ?_)
    rintro rfl
    cases hcounting
  · exact h.distinct i b b' (hc hb).2 (hc hb').2
  · rw [hstates, ha]
    refine h.push_ok b e i batch (hother hb ?_)
    rintro rfl
    cases hannouncing
  · exact h.push_one i b b' (hp.1 hb) (hp.1 hb')
  · rw [hstates] at hi
    obtain ⟨hzero, hthree⟩ := h.closed i hi
    rw [ha, hh]
    refine ⟨hzero, fun hle => ?_⟩
    obtain ⟨b, hb, hticket⟩ := hthree hle
    have hba : b ≠ a := by
      rintro rfl
      exact hlose i hb hi hticket
    exact ⟨b, by rwa [hloops, Function.update_of_ne hba], hticket⟩
  · rw [hstates] at hi
    obtain ⟨hthree, hone, hopen, hwrap⟩ := h.issued i hi
    rw [ha, hh]
    refine ⟨hthree, hone, fun hzero => ?_, fun b hb => hwrap b (hc hb).2⟩
    obtain ⟨b, hb⟩ := hopen hzero
    exact ⟨b, hp.2 hb⟩

/-- `fetch_add`: the thread gets a ticket that no other has. -/
theorem Ticketed.count (h : s.Ticketed ticket) {a : ι} {e : RaceControlEvent} {i : Fin 20}
    {batch : List RaceControlEvent} (hpc : s.loops a = .loop (e :: batch)) (he : warned e = some i)
    (henforcer : s'.enforcer = s.enforcer.fetchAdd i)
    (hhandled : s'.handled = s.handled ++ [e]) (hannounced : s'.announced = s.announced)
    (hloops : s'.loops
      = Function.update s.loops a (.compare e i (s.enforcer.warnings i + 1) batch)) :
    s'.Ticketed (Function.update ticket a (s.handledFor i + 1)) := by
  have hh : ∀ j, s'.handledFor j = s.handledFor j + if i = j then 1 else 0 := by
    intro j
    unfold handledFor view EnforcerState.handledFor
    rw [hhandled]
    exact EnforcerState.handledFor_append (s := s.view .idle) he j
  have hle : ∀ j, s.handledFor j ≤ s'.handledFor j := fun j => by
    rw [hh]
    exact Nat.le_add_right _ _
  have hanew : s'.loops a = .compare e i (s.enforcer.warnings i + 1) batch := by
    rw [hloops, Function.update_self]
  have hother : ∀ {b}, b ≠ a → s'.loops b = s.loops b
      ∧ Function.update ticket a (s.handledFor i + 1) b = ticket b := fun hb => by
    rw [hloops]
    exact ⟨Function.update_of_ne hb _ _, Function.update_of_ne hb _ _⟩
  have hc : ∀ {b j}, (s'.loops b).counting = some j
      → b = a ∧ i = j ∨ b ≠ a ∧ (s.loops b).counting = some j := by
    intro b j hb
    rw [hloops, update_loops_eq_some] at hb
    exact hb.imp_left fun ⟨hba, hi⟩ => ⟨hba, Option.some.inj hi⟩
  have hp : ∀ {b j}, (s'.loops b).announcing = some j ↔ (s.loops b).announcing = some j := by
    intro b j
    rw [hloops, update_loops_eq_some]
    by_cases hba : b = a
    · simp [hba, hpc, ProcessPc.announcing]
    · simp [hba]
  have hfresh : ∀ {b}, b ≠ a → (s.loops b).counting = some i →
      Function.update ticket a (s.handledFor i + 1) a
        ≠ Function.update ticket a (s.handledFor i + 1) b := by
    intro b hba hb
    have hticket := h.ticket_le hb
    rw [Function.update_self, (hother hba).2]
    omega
  refine ⟨fun j => ?_, fun b f j count batch hb => ?_, fun j b b' hb hb' heq => ?_,
    fun b f j batch hb => ?_, fun j b b' hb hb' => h.push_one j b b' (hp.1 hb) (hp.1 hb'),
    fun j hj => ?_, fun j hj => ?_⟩
  · rw [henforcer, hh]
    show Function.update s.enforcer.warnings i _ j = _
    by_cases hij : i = j
    · subst hij
      rw [Function.update_self, h.warnings_eq, if_pos rfl, BitVec.ofNat_add]
      rfl
    · rw [Function.update_of_ne (Ne.symm hij), if_neg hij]
      exact h.warnings_eq j
  · by_cases hba : b = a
    · subst hba
      obtain ⟨rfl, rfl, rfl, rfl⟩ := ProcessPc.compare.inj (hanew.symm.trans hb)
      rw [Function.update_self, hh, if_pos rfl, h.warnings_eq, BitVec.ofNat_add]
      exact ⟨he, le_rfl, rfl⟩
    · rw [(hother hba).1] at hb
      rw [(hother hba).2]
      obtain ⟨hf, hticket, hcount⟩ := h.compare_ok b f j count batch hb
      exact ⟨hf, hticket.trans (hle j), hcount⟩
  · rcases hc hb with ⟨rfl, rfl⟩ | ⟨hba, hb⟩ <;> rcases hc hb' with ⟨rfl, hij⟩ | ⟨hba', hb'⟩
    · rfl
    · exact absurd heq (hfresh hba' hb')
    · subst hij
      exact absurd heq.symm (hfresh hba hb)
    · rw [(hother hba).2, (hother hba').2] at heq
      exact h.distinct j b b' hb hb' heq
  · have hba : b ≠ a := by
      rintro rfl
      rw [hanew] at hb
      cases hb
    rw [henforcer, announcedFor_congr hannounced]
    exact h.push_ok b f j batch ((hother hba).1 ▸ hb)
  · rw [henforcer] at hj
    obtain ⟨hzero, hthree⟩ := h.closed j hj
    rw [announcedFor_congr hannounced]
    refine ⟨hzero, fun hle' => ?_⟩
    by_cases hold : 3 ≤ s.handledFor j
    · obtain ⟨b, hb, hticket⟩ := hthree hold
      have hba : b ≠ a := by
        rintro rfl
        rw [hpc] at hb
        cases hb
      rw [← (hother hba).1] at hb
      rw [← (hother hba).2] at hticket
      exact ⟨b, hb, hticket⟩
    · have hij : i = j := by
        by_contra hij
        rw [hh, if_neg hij] at hle'
        exact hold hle'
      subst hij
      rw [hh, if_pos rfl] at hle'
      refine ⟨a, by rw [hanew]; rfl, ?_⟩
      rw [Function.update_self]
      omega
  · rw [henforcer] at hj
    obtain ⟨hthree, hone, hopen, hwrap⟩ := h.issued j hj
    rw [announcedFor_congr hannounced]
    refine ⟨hthree.trans (hle j), hone, fun hzero => ?_, fun b hb hticket => ?_⟩
    · obtain ⟨b, hb⟩ := hopen hzero
      exact ⟨b, hp.2 hb⟩
    · rcases hc hb with ⟨rfl, rfl⟩ | ⟨hba, hb⟩
      · rw [Function.update_self] at hticket
        omega
      · rw [(hother hba).2] at hticket
        exact (hwrap b hb hticket).trans (hle j)

/-- Who has counted three has counted the third warning, or the counter has wrapped around. -/
theorem third_or_wrapped {n : ℕ} (h : 3 = BitVec.ofNat 32 n) : n = 3 ∨ 2 ^ 32 + 3 ≤ n := by
  have hmod := congrArg BitVec.toNat h
  rw [BitVec.toNat_ofNat] at hmod
  change 3 = _ at hmod
  omega

/-- The exchange of a thread that has counted three. -/
theorem Ticketed.win (h : s.Ticketed ticket) {a : ι} {e : RaceControlEvent} {i : Fin 20}
    {batch : List RaceControlEvent} (hpc : s.loops a = .compare e i 3 batch)
    (hstate : s.enforcer.states i = .none)
    (hwarnings : s'.enforcer.warnings = s.enforcer.warnings)
    (hstates : s'.enforcer.states = Function.update s.enforcer.states i .pending)
    (hhandled : s'.handled = s.handled) (hannounced : s'.announced = s.announced)
    (hloops : s'.loops = Function.update s.loops a (.push e i batch)) : s'.Ticketed ticket := by
  have hh := handledFor_congr hhandled
  have ha := announcedFor_congr hannounced
  obtain ⟨he, hticket, hcount⟩ := h.compare_ok a e i 3 batch hpc
  have hthird := third_or_wrapped hcount
  have hc : ∀ {b j}, (s'.loops b).counting = some j → b ≠ a ∧ (s.loops b).counting = some j := by
    intro b j hb
    rw [hloops, update_loops_eq_some] at hb
    simpa [ProcessPc.counting] using hb
  have hother : ∀ {b}, b ≠ a → s'.loops b = s.loops b := fun hb => by
    rw [hloops, Function.update_of_ne hb]
  have hp : ∀ {b j}, (s'.loops b).announcing = some j
      ↔ b = a ∧ i = j ∨ b ≠ a ∧ (s.loops b).announcing = some j := by
    intro b j
    rw [hloops, update_loops_eq_some]
    simp [ProcessPc.announcing]
  have hne : ∀ {b j}, b ≠ a → (s.loops b).announcing = some j → j ≠ i := by
    rintro b j - hb rfl
    exact h.not_announcing hstate hb
  refine ⟨fun j => ?_, fun b f j count batch' hb => ?_, fun j b b' hb hb' => ?_,
    fun b f j batch' hb => ?_, fun j b b' hb hb' => ?_, fun j hj => ?_, fun j hj => ?_⟩
  · rw [hwarnings, hh]
    exact h.warnings_eq j
  · obtain ⟨hba, -⟩ := hc (show (s'.loops b).counting = some j by rw [hb]; rfl)
    rw [hother hba] at hb
    rw [hh]
    exact h.compare_ok b f j count batch' hb
  · exact h.distinct j b b' (hc hb).2 (hc hb').2
  · rw [hstates, ha]
    rcases hp.1 (show (s'.loops b).announcing = some j by rw [hb]; rfl) with ⟨rfl, rfl⟩ | ⟨hba, hb'⟩
    · rw [hloops, Function.update_self] at hb
      obtain ⟨rfl, -, -⟩ := ProcessPc.push.inj hb
      rw [Function.update_self]
      exact ⟨he, by simp, (h.closed _ hstate).1⟩
    · rw [Function.update_of_ne (hne hba hb')]
      exact h.push_ok b f j batch' (hother hba ▸ hb)
  · rcases hp.1 hb with ⟨rfl, rfl⟩ | ⟨hba, hb⟩ <;> rcases hp.1 hb' with ⟨rfl, hij⟩ | ⟨hba', hb'⟩
    · rfl
    · exact absurd rfl (hne hba' hb')
    · exact absurd hij.symm (hne hba hb)
    · exact h.push_one j b b' hb hb'
  · have hij : j ≠ i := by
      rintro rfl
      rw [hstates, Function.update_self] at hj
      cases hj
    rw [hstates, Function.update_of_ne hij] at hj
    obtain ⟨hzero, hthree⟩ := h.closed j hj
    rw [ha, hh]
    refine ⟨hzero, fun hle => ?_⟩
    obtain ⟨b, hb, hticket⟩ := hthree hle
    have hba : b ≠ a := by
      rintro rfl
      rw [hpc] at hb
      exact hij (Option.some.inj hb).symm
    exact ⟨b, by rwa [hother hba], hticket⟩
  · rw [ha, hh]
    by_cases hij : j = i
    · subst hij
      obtain ⟨hzero, -⟩ := h.closed j hstate
      refine ⟨by omega, by omega, fun _ => ⟨a, hp.2 (.inl ⟨rfl, rfl⟩)⟩, fun b hb hb3 => ?_⟩
      obtain ⟨hba, hb⟩ := hc hb
      have hne3 : ticket a ≠ 3 := by
        intro ha3
        exact hba (h.distinct j b a hb (by rw [hpc]; rfl) (hb3.trans ha3.symm))
      omega
    · rw [hstates, Function.update_of_ne hij] at hj
      obtain ⟨hthree, hone, hopen, hwrap⟩ := h.issued j hj
      refine ⟨hthree, hone, fun hzero => ?_, fun b hb => hwrap b (hc hb).2⟩
      obtain ⟨b, hb⟩ := hopen hzero
      have hba : b ≠ a := by
        rintro rfl
        rw [hpc] at hb
        cases hb
      exact ⟨b, hp.2 (.inr ⟨hba, hb⟩)⟩

/-- The announcement of who has won. -/
theorem Ticketed.push (h : s.Ticketed ticket) {a : ι} {e : RaceControlEvent} {i : Fin 20}
    {batch : List RaceControlEvent} {now : ℤ} (hpc : s.loops a = .push e i batch)
    (henforcer : s'.enforcer = s.enforcer) (hhandled : s'.handled = s.handled)
    (hannounced : s'.announced = s.announced ++ [penaltyIssued e now])
    (hloops : s'.loops = Function.update s.loops a (.store i batch)) : s'.Ticketed ticket := by
  obtain ⟨he, hstate, hzero⟩ := h.push_ok a e i batch hpc
  have hh := handledFor_congr hhandled
  have ha : ∀ j, s'.announcedFor j = s.announcedFor j + if i = j then 1 else 0 := by
    intro j
    unfold announcedFor view EnforcerState.announcedFor
    rw [hannounced]
    exact EnforcerState.announcedFor_append (s := s.view .idle) he j
  have hc : ∀ {b j}, (s'.loops b).counting = some j ↔ (s.loops b).counting = some j := by
    intro b j
    rw [hloops, update_loops_eq_some]
    by_cases hba : b = a
    · simp [hba, hpc, ProcessPc.counting]
    · simp [hba]
  have hp : ∀ {b j}, (s'.loops b).announcing = some j
      ↔ b ≠ a ∧ (s.loops b).announcing = some j := by
    intro b j
    rw [hloops, update_loops_eq_some]
    simp [ProcessPc.announcing]
  have hne : ∀ {b j}, b ≠ a → (s.loops b).announcing = some j → i ≠ j := by
    rintro b j hba hb rfl
    exact hba (h.push_one i b a hb (by rw [hpc]; rfl))
  have hother : ∀ {b pc}, s'.loops b = pc → (∀ j batch, pc ≠ .store j batch) → s.loops b = pc := by
    intro b pc hb hpc'
    rw [hloops] at hb
    by_cases hba : b = a
    · rw [hba, Function.update_self] at hb
      exact absurd hb.symm (hpc' _ _)
    · rwa [Function.update_of_ne hba] at hb
  refine ⟨fun j => ?_, fun b f j count batch' hb => ?_,
    fun j b b' hb hb' => h.distinct j b b' (hc.1 hb) (hc.1 hb'), fun b f j batch' hb => ?_,
    fun j b b' hb hb' => h.push_one j b b' (hp.1 hb).2 (hp.1 hb').2, fun j hj => ?_,
    fun j hj => ?_⟩
  · rw [henforcer, hh]
    exact h.warnings_eq j
  · rw [hh]
    exact h.compare_ok b f j count batch' (hother hb (by simp))
  · obtain ⟨hba, hb'⟩ := hp.1 (show (s'.loops b).announcing = some j by rw [hb]; rfl)
    rw [henforcer, ha, if_neg (hne hba hb')]
    exact h.push_ok b f j batch' (hother hb (by simp))
  · rw [henforcer] at hj
    have hij : i ≠ j := by
      rintro rfl
      exact hstate hj
    rw [ha, if_neg hij, hh]
    obtain ⟨hzero, hthree⟩ := h.closed j hj
    refine ⟨hzero, fun hle => ?_⟩
    obtain ⟨b, hb, hticket⟩ := hthree hle
    exact ⟨b, hc.2 hb, hticket⟩
  · rw [henforcer] at hj
    obtain ⟨hthree, hone, hopen, hwrap⟩ := h.issued j hj
    rw [ha, hh]
    refine ⟨hthree, ?_, fun hzero' => ?_, fun b hb => hwrap b (hc.1 hb)⟩
    · by_cases hij : i = j
      · subst hij
        rw [if_pos rfl, hzero]
      · rw [if_neg hij]
        exact hone
    · have hij : i ≠ j := by
        rintro rfl
        rw [if_pos rfl] at hzero'
        omega
      rw [if_neg hij] at hzero'
      obtain ⟨b, hb⟩ := hopen hzero'
      refine ⟨b, hp.2 ⟨?_, hb⟩⟩
      rintro rfl
      rw [hpc] at hb
      exact hij (Option.some.inj hb)

/-- An exchange between two states of an issued penalty neither issues nor revokes one. -/
theorem exchange_issued (p : PenaltyEnforcer) (i : Fin 20) {x y : PenaltyState} (hx : x ≠ .none)
    (hy : y ≠ .none) : ((p.compareExchange i x y).getD p).warnings = p.warnings
      ∧ ∀ j, ((p.compareExchange i x y).getD p).states j = .none ↔ p.states j = .none := by
  unfold compareExchange
  split_ifs with hstate
  · refine ⟨rfl, fun j => ?_⟩
    by_cases hij : j = i
    · subst hij
      simp [hstate, hx, hy]
    · simp [Function.update_of_ne hij]
  · exact ⟨rfl, fun _ => Iff.rfl⟩

theorem driverEnteredPits_issued (p : PenaltyEnforcer) (id : String) :
    (p.driverEnteredPits id).warnings = p.warnings
      ∧ ∀ i, (p.driverEnteredPits id).states i = .none ↔ p.states i = .none := by
  unfold driverEnteredPits
  split
  · exact ⟨rfl, fun _ => Iff.rfl⟩
  · exact exchange_issued p _ (by simp) (by simp)

theorem driverExitedPits_issued (p : PenaltyEnforcer) (id : String) :
    (p.driverExitedPits id).warnings = p.warnings
      ∧ ∀ i, (p.driverExitedPits id).states i = .none ↔ p.states i = .none := by
  unfold driverExitedPits
  split
  · exact ⟨rfl, fun _ => Iff.rfl⟩
  · exact exchange_issued p _ (by simp) (by simp)

/-- A step of the loop of thread `a`. -/
theorem Ticketed.process (h : s.Ticketed ticket) {a : ι} {now : ℤ} {e : EnforcerState}
    (hst : (s.view (s.loops a)).process now = some e) :
    ∃ ticket', (s.withLoop a e).Ticketed ticket' := by
  cases enforcerMove_of_process hst with
  | @quiet _ _ pc hpc =>
    rcases hpc with hpc | ⟨hcount, hannounce, hcount', hannounce'⟩
    · refine ⟨ticket, h.of_pits rfl (fun _ => Iff.rfl) rfl rfl ?_⟩
      show Function.update s.loops a pc = s.loops
      rw [hpc]
      exact Function.update_eq_self a s.loops
    · refine ⟨ticket, h.of_loop rfl rfl rfl rfl rfl hcount' hannounce' (fun i hi => ?_) hannounce⟩
      rw [show (s.loops a).counting = none from hcount] at hi
      cases hi
  | count hpc he => exact ⟨_, h.count hpc he rfl rfl rfl rfl⟩
  | win hpc hstate => exact ⟨ticket, h.win hpc hstate rfl rfl rfl rfl rfl⟩
  | @lose e i count batch _ hpc hlose =>
    replace hpc : s.loops a = .compare e i count batch := hpc
    have hcounting : (s.loops a).counting = some i := by rw [hpc]; rfl
    refine ⟨ticket, h.of_loop rfl rfl rfl rfl rfl rfl rfl (fun j hj hnone h3 => ?_)
      (by rw [hpc]; rfl)⟩
    obtain rfl := Option.some.inj (hcounting.symm.trans hj)
    have hcount := (h.compare_ok a e i count batch hpc).2.2
    rw [h3] at hcount
    exact hlose.elim (fun hne => hne hcount) fun hne => hne hnone
  | push hpc => exact ⟨ticket, h.push hpc rfl rfl rfl rfl⟩
  | @store i batch _ hpc =>
    replace hpc : s.loops a = .store i batch := hpc
    refine ⟨ticket, h.of_loop rfl rfl rfl rfl rfl rfl rfl (fun j hj => ?_) (by rw [hpc]; rfl)⟩
    rw [hpc] at hj
    cases hj
  | @pits _ i b hl hold hb =>
    refine ⟨ticket, h.of_pits rfl (fun j => ?_) rfl rfl (Function.update_eq_self a s.loops)⟩
    show Function.update s.enforcer.states i b j = .none ↔ _
    by_cases hij : j = i
    · subst hij
      rw [Function.update_self]
      exact iff_of_false hb.ne_none hold
    · rw [Function.update_of_ne hij]

theorem Ticketed.step {l : LoopsLabel ι} (h : s.Ticketed ticket) (hst : s.step l = some s') :
    ∃ ticket', s'.Ticketed ticket' := by
  cases l with
  | start a batch =>
    simp only [EnforcerThreads.step] at hst
    split at hst <;> cases hst
    rename_i hidle
    refine ⟨ticket, h.of_loop rfl rfl rfl rfl rfl rfl rfl (fun i hi => ?_) (by rw [hidle]; rfl)⟩
    rw [hidle] at hi
    cases hi
  | process a now =>
    obtain ⟨e, he, rfl⟩ := Option.map_eq_some_iff.1 hst
    exact h.process he
  | enteredPits id =>
    obtain rfl := Option.some.inj hst
    obtain ⟨hwarnings, hstates⟩ := driverEnteredPits_issued s.enforcer id
    exact ⟨ticket, h.of_pits hwarnings hstates rfl rfl rfl⟩
  | exitedPits id =>
    obtain rfl := Option.some.inj hst
    obtain ⟨hwarnings, hstates⟩ := driverExitedPits_issued s.enforcer id
    exact ⟨ticket, h.of_pits hwarnings hstates rfl rfl rfl⟩

omit [DecidableEq ι] in
theorem ticketed_init : (init : EnforcerThreads ι).Ticketed fun _ => 0 := by
  constructor <;> simp [init, PenaltyEnforcer.start, handledFor, announcedFor, view,
    EnforcerState.handledFor, EnforcerState.announcedFor, ProcessPc.counting, ProcessPc.announcing]

theorem ticketed_reachable (h : (loopsSystem ι).Reachable s) : ∃ ticket, s.Ticketed ticket := by
  refine h.invariant (I := fun s => ∃ ticket, s.Ticketed ticket) ⟨_, ticketed_init⟩ ?_
  rintro s l s' - ⟨ticket, hI⟩ - hst
  exact hI.step hst

/-- What is in the queue is what the loops have announced: nobody else pushes, and nobody pops. -/
theorem queue_eq_announced (h : (loopsSystem ι).Reachable s) : s.queue = s.announced := by
  refine h.invariant (I := fun s => s.queue = s.announced) rfl ?_
  rintro s l s' - hqueue - hst
  cases l with
  | start a batch =>
    simp only [loopsSystem, EnforcerThreads.step] at hst
    split at hst
    · obtain rfl := Option.some.inj hst
      exact hqueue
    · cases hst
  | process a now =>
    obtain ⟨e, he, rfl⟩ := Option.map_eq_some_iff.1 hst
    obtain ⟨pushed, hpushed, hannounced⟩ := EnforcerState.process_pushes he
    refine hpushed.trans (Eq.trans ?_ hannounced.symm)
    exact congrArg (· ++ pushed) hqueue
  | enteredPits id =>
    obtain rfl := Option.some.inj hst
    exact hqueue
  | exitedPits id =>
    obtain rfl := Option.some.inj hst
    exact hqueue

/-- A driver's penalty when any number of threads count: the counter counts the warnings, at most
one penalty is announced and not before the third warning, and it is announced once nobody is
between the counting and the announcement; what is announced is what is in the queue; and up to
`2 ^ 32 + 2` warnings, who has counted three wins the exchange. -/
theorem penalty_among_threads (h : (loopsSystem ι).Reachable s) (i : Fin 20) :
    s.queue = s.announced
      ∧ s.enforcer.warnings i = BitVec.ofNat 32 (s.handledFor i)
      ∧ s.announcedFor i ≤ (if s.handledFor i < 3 then 0 else 1)
      ∧ ((∀ a, (s.loops a).counting ≠ some i) →
        (s.enforcer.states i = .none ↔ s.handledFor i < 3)
          ∧ ((∀ a, (s.loops a).announcing ≠ some i) →
            s.announcedFor i = if s.handledFor i < 3 then 0 else 1))
      ∧ (s.handledFor i < 2 ^ 32 + 3 → ∀ a e batch, s.loops a = .compare e i 3 batch →
        s.enforcer.states i = .none
          ∧ ∀ b e' batch', s.loops b = .compare e' i 3 batch' → b = a) := by
  obtain ⟨ticket, hI⟩ := ticketed_reachable h
  have hclosed := hI.closed i
  have hissued := hI.issued i
  refine ⟨queue_eq_announced h, hI.warnings_eq i, ?_, fun hcounting => ?_,
    fun hwrap a e batch ha => ?_⟩
  · by_cases hstate : s.enforcer.states i = .none
    · rw [(hclosed hstate).1]
      exact Nat.zero_le _
    · rw [if_neg (by have := (hissued hstate).1; omega)]
      exact (hissued hstate).2.1
  · have hiff : s.enforcer.states i = .none ↔ s.handledFor i < 3 := by
      refine ⟨fun hstate => ?_, fun hlt => ?_⟩
      · by_contra hle
        obtain ⟨a, ha, -⟩ := (hclosed hstate).2 (by omega)
        exact hcounting a ha
      · by_contra hstate
        have := (hissued hstate).1
        omega
    refine ⟨hiff, fun hannouncing => ?_⟩
    by_cases hstate : s.enforcer.states i = .none
    · rw [if_pos (hiff.1 hstate), (hclosed hstate).1]
    · rw [if_neg (mt hiff.2 hstate)]
      refine Nat.le_antisymm (hissued hstate).2.1 (Nat.one_le_iff_ne_zero.2 fun hzero => ?_)
      obtain ⟨a, ha⟩ := (hissued hstate).2.2.1 hzero
      exact hannouncing a ha
  · have hthree : ∀ {b f rest}, s.loops b = .compare f i 3 rest →
        (s.loops b).counting = some i ∧ ticket b = 3 := by
      intro b f rest hb
      refine ⟨by rw [hb]; rfl, ?_⟩
      obtain ⟨-, hle, hcount⟩ := hI.compare_ok b f i 3 rest hb
      have := third_or_wrapped hcount
      omega
    obtain ⟨hac, hat⟩ := hthree ha
    refine ⟨?_, fun b f rest hb => ?_⟩
    · by_contra hstate
      have := (hissued hstate).2.2.2 a hac hat
      omega
    · obtain ⟨hbc, hbt⟩ := hthree hb
      exact hI.distinct i b a hbc hac (hbt.trans hat.symm)

/-- Two threads with two warnings each, of the same driver; the second counts to three, the first to
four. -/
def twoLoops : List (LoopsLabel (Fin 2)) :=
  let warning : RaceControlEvent := ⟨.trackLimits, .ofId "TSU", 7, "", 0⟩
  [.start 0 [warning, warning], .start 1 [warning, warning], .process 0 1, .process 1 1,
    .process 0 2, .process 1 2, .process 1 3, .process 0 3]

/-- The second thread's exchange and its push. -/
def announceOne : List (LoopsLabel (Fin 2)) := [.process 1 4, .process 1 5]

theorem penalty_among_threads_twoLoops :
    let s := ((loopsSystem (Fin 2)).run .init twoLoops).get (by decide)
    let s' := ((loopsSystem (Fin 2)).run .init (twoLoops ++ announceOne)).get (by decide)
    s.announcedFor 1 ≤ (if s.handledFor 1 < 3 then 0 else 1) ∧ s.enforcer.states 1 = .none
      ∧ s'.queue = s'.announced ∧ s'.queue.length = 1 := by
  intro s s'
  have hs := System.reachable_get (M := loopsSystem (Fin 2)) twoLoops (by decide)
  have hs' := System.reachable_get (M := loopsSystem (Fin 2)) (twoLoops ++ announceOne) (by decide)
  have hthird : s.loops 1 = .compare ⟨.trackLimits, .ofId "TSU", 7, "", 0⟩ 1 3 [] := rfl
  have hpenalty := penalty_among_threads hs 1
  exact ⟨hpenalty.2.2.1, (hpenalty.2.2.2.2 (by decide) 1 _ _ hthird).1,
    (penalty_among_threads hs' 1).1, rfl⟩

end EnforcerThreads

end RaceConditionZ
