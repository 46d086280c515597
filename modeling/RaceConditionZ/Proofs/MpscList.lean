import RaceConditionZ.MpscQueue

/-!
# The list between exchange and link

The exchanges of `head_` number the nodes: node `k + 1` is that of the exchange at place `k`, node 0
the first sentinel. From the node whose value was taken last up to `head_` the nodes are live and
distinct, and each is either linked to the next or waits for the one push that exchanged it away.
A push only ever writes to the node at the place of its exchange, and the consumer only leaves a
node that is linked: it cannot overtake a pending link.
-/

namespace RaceConditionZ

open Transition

variable {ι T : Type}

/-- The nodes from place `taken` on, and those at the two ends: `old`, which the consumer has
stepped past and not deleted, and the nodes not yet exchanged into `head_`. -/
structure ListInv (q : MpscQueue T) (producers : ι → Option (MpscPush T)) (h : MpscHistory ι T)
    (taken : ℕ) (old : Option ℕ) : Prop where
  taken_le : taken ≤ h.exchanged.length
  head_eq : q.head = h.node h.exchanged.length
  last : q.next (h.node h.exchanged.length) = none
  distinct : ∀ j k, taken ≤ j → j < k → k ≤ h.exchanged.length → h.node j ≠ h.node k
  linked : ∀ k, taken ≤ k → k < h.exchanged.length → q.next (h.node k) = some (h.node (k + 1))
    ∨ ∃ i v, producers i = some ⟨v, .link (h.node (k + 1)) (h.node k)⟩ ∧ h.place i = k
  values : ∀ k i v, taken ≤ k → h.exchanged[k]? = some (i, v) → q.data (h.node (k + 1)) = some v
  old_ne : ∀ k, taken ≤ k → k ≤ h.exchanged.length → old ≠ some (h.node k)
  fresh : ∀ i v a, producers i = some ⟨v, .exchange a⟩ → q.next a = none ∧ q.data a = some v
    ∧ old ≠ some a ∧ ∀ k, taken ≤ k → k ≤ h.exchanged.length → h.node k ≠ a
  separate : ∀ i j v w a, producers i = some ⟨v, .exchange a⟩ →
    producers j = some ⟨w, .exchange a⟩ → i = j
  linking : ∀ i v new prev, producers i = some ⟨v, .link new prev⟩ →
    taken ≤ h.place i ∧ h.exchanged[h.place i]? = some (i, v) ∧ prev = h.node (h.place i)
      ∧ new = h.node (h.place i + 1) ∧ q.next prev = none
  live_iff : ∀ a, a ∈ q.live ↔ (∃ k, taken ≤ k ∧ k ≤ h.exchanged.length ∧ h.node k = a)
    ∨ old = some a ∨ ∃ i v, producers i = some ⟨v, .exchange a⟩

theorem update_eq_some_iff [DecidableEq ι] {α : Type} {f : ι → Option α} {i j : ι} {x y : α} :
    Function.update f i (some x) j = some y ↔ j = i ∧ x = y ∨ j ≠ i ∧ f j = some y := by
  by_cases hij : j = i
  · subst hij
    simp
  · simp [hij]

/-- Who is found elsewhere than where the step led is not who moved, and was there before. -/
theorem of_update [DecidableEq ι] {α : Type} {f : ι → Option α} {i j : ι} {x y : α}
    (hj : Function.update f i (some x) j = some y) (hxy : x ≠ y) : j ≠ i ∧ f j = some y := by
  rcases update_eq_some_iff.1 hj with ⟨-, he⟩ | hj
  · exact absurd he hxy
  · exact hj

/-- Who stood elsewhere than who moved is still there. -/
theorem update_of_other [DecidableEq ι] {α : Type} {f : ι → Option α} {i j : ι} {x z : α}
    {y : Option α} (hi : f i = some x) (hj : f j = some z) (hxz : x ≠ z) :
    Function.update f i y j = some z := by
  rw [Function.update_of_ne, hj]
  rintro rfl
  exact hxz (Option.some.inj (hi.symm.trans hj))

namespace ListInv

variable {q : MpscQueue T} {producers : ι → Option (MpscPush T)} {h : MpscHistory ι T}
  {taken : ℕ} {old : Option ℕ}

theorem place_lt (hL : ListInv q producers h taken old) {i : ι} {v : T} {new prev : ℕ}
    (hi : producers i = some ⟨v, .link new prev⟩) : h.place i < h.exchanged.length :=
  (List.getElem?_eq_some_iff.1 (hL.linking i v new prev hi).2.1).1

theorem node_live (hL : ListInv q producers h taken old) {k : ℕ} (hk : taken ≤ k)
    (hle : k ≤ h.exchanged.length) : h.node k ∈ q.live :=
  (hL.live_iff _).2 (.inl ⟨k, hk, hle, rfl⟩)

/-- The pushes in flight name different nodes: their exchanges were at different places. -/
theorem prevHead_ne (hL : ListInv q producers h taken old) {i j : ι} {v w : T} {new new' prev : ℕ}
    (hi : producers i = some ⟨v, .link new prev⟩) (hj : producers j = some ⟨w, .link new' prev⟩) :
    i = j := by
  obtain ⟨hti, hei, hpi, -, -⟩ := hL.linking i v new prev hi
  obtain ⟨htj, hej, hpj, -, -⟩ := hL.linking j w new' prev hj
  have hlti := hL.place_lt hi
  have hltj := hL.place_lt hj
  have hplace : h.place i = h.place j := by
    rcases lt_trichotomy (h.place i) (h.place j) with hlt | he | hlt
    · exact absurd (hpi.symm.trans hpj) (hL.distinct _ _ hti hlt hltj.le)
    · exact he
    · exact absurd (hpj.symm.trans hpi) (hL.distinct _ _ htj hlt hlti.le)
  rw [hplace, hej] at hei
  simp only [Option.some.injEq, Prod.mk.injEq] at hei
  exact hei.1.symm

/-- A node of the list that is not linked yet is the last one, or its pusher has still to link
it. -/
theorem next_eq_none_iff (hL : ListInv q producers h taken old) {k : ℕ} (hk : taken ≤ k)
    (hle : k ≤ h.exchanged.length) :
    q.next (h.node k) = none ↔ k = h.exchanged.length
      ∨ ∃ i v new prev, producers i = some ⟨v, .link new prev⟩ ∧ h.place i = k := by
  constructor
  · intro hnone
    rcases hle.eq_or_lt with he | hlt
    · exact .inl he
    · rcases hL.linked k hk hlt with hs | ⟨i, v, hi, hp⟩
      · rw [hnone] at hs
        cases hs
      · exact .inr ⟨i, v, _, _, hi, hp⟩
  · rintro (rfl | ⟨i, v, new, prev, hi, rfl⟩)
    · exact hL.last
    · obtain ⟨-, -, rfl, -, hnone⟩ := hL.linking i v new prev hi
      exact hnone

/-- What the consumer finds behind a linked node is the next one. -/
theorem next_eq (hL : ListInv q producers h taken old) {k n : ℕ} (hk : taken ≤ k)
    (hle : k ≤ h.exchanged.length) (hn : q.next (h.node k) = some n) :
    k < h.exchanged.length ∧ n = h.node (k + 1) := by
  have hlt : k < h.exchanged.length := by
    rcases hle.eq_or_lt with rfl | hlt
    · rw [hL.last] at hn
      cases hn
    · exact hlt
  refine ⟨hlt, ?_⟩
  rcases hL.linked k hk hlt with hs | ⟨i, v, hi, hp⟩
  · rw [hn] at hs
    exact Option.some.inj hs
  · rw [(hL.linking i v _ _ hi).2.2.2.2] at hn
    cases hn

end ListInv

section Producers

variable [DecidableEq ι] {q : MpscQueue T} {producers : ι → Option (MpscPush T)}
  {h : MpscHistory ι T} {taken : ℕ} {old : Option ℕ}

/-- A producer outside its call holds no node, so it may enter one. -/
theorem ListInv.call (hL : ListInv q producers h taken old) {i : ι} {v : T}
    (hi : ∀ p, producers i = some p → p.pc = .returned) (given : ι → List T) :
    ListInv q (Function.update producers i (some ⟨v, .allocate⟩)) { h with given := given }
      taken old := by
  have hkeep : ∀ {j w pc}, pc ≠ .returned → producers j = some ⟨w, pc⟩ →
      Function.update producers i (some ⟨v, .allocate⟩) j = some ⟨w, pc⟩ := by
    intro j w pc hpc hj
    rw [Function.update_of_ne, hj]
    rintro rfl
    exact hpc (hi _ hj)
  refine { hL with
    linked := fun k hk hlt => ?_
    fresh := fun j w a hj => hL.fresh j w a (of_update hj (by simp)).2
    separate := fun j j' w w' a hj hj' =>
      hL.separate j j' w w' a (of_update hj (by simp)).2 (of_update hj' (by simp)).2
    linking := fun j w new prev hj => hL.linking j w new prev (of_update hj (by simp)).2
    live_iff := fun a => ?_ }
  · rcases hL.linked k hk hlt with hs | ⟨j, w, hj, hp⟩
    · exact .inl hs
    · exact .inr ⟨j, w, hkeep (by simp) hj, hp⟩
  · rw [hL.live_iff a]
    refine or_congr_right (or_congr_right ⟨?_, ?_⟩)
    · rintro ⟨j, w, hj⟩
      exact ⟨j, w, hkeep (by simp) hj⟩
    · rintro ⟨j, w, hj⟩
      exact ⟨j, w, (of_update hj (by simp)).2⟩

/-- A new node is outside the list: every address of the list is live. -/
theorem ListInv.allocate (hL : ListInv q producers h taken old) {i : ι} {v : T} {a : ℕ}
    (hi : producers i = some ⟨v, .allocate⟩) (ha : a ∉ q.live) (allocated : List ℕ) :
    ListInv { q with
        data := Function.update q.data a (some v)
        next := Function.update q.next a none
        live := insert a q.live }
      (Function.update producers i (some ⟨v, .exchange a⟩))
      { h with allocated := allocated } taken old := by
  have hnode : ∀ k, taken ≤ k → k ≤ h.exchanged.length → h.node k ≠ a := by
    rintro k hk hle rfl
    exact ha (hL.node_live hk hle)
  have hfresh : ∀ j w b, producers j = some ⟨w, .exchange b⟩ → b ≠ a := by
    rintro j w b hj rfl
    exact ha ((hL.live_iff b).2 (.inr (.inr ⟨j, w, hj⟩)))
  have hold : old ≠ some a := fun he => ha ((hL.live_iff a).2 (.inr (.inl he)))
  have hlast := hnode _ hL.taken_le le_rfl
  refine { hL with
    last := ?_, linked := fun k hk hlt => ?_, values := fun k j w hk hw => ?_,
    fresh := fun j w b hj => ?_, separate := fun j j' w w' b hj hj' => ?_,
    linking := fun j w new prev hj => ?_, live_iff := fun b => ?_ }
  · simp only [Function.update_of_ne hlast]
    exact hL.last
  · simp only [Function.update_of_ne (hnode k hk hlt.le)]
    rcases hL.linked k hk hlt with hs | ⟨j, w, hj, hp⟩
    · exact .inl hs
    · exact .inr ⟨j, w, update_of_other hi hj (by simp), hp⟩
  · have hlt := (List.getElem?_eq_some_iff.1 hw).1
    simp only [Function.update_of_ne (hnode (k + 1) (by omega) hlt)]
    exact hL.values k j w hk hw
  · rcases update_eq_some_iff.1 hj with ⟨rfl, he⟩ | ⟨-, hj⟩
    · cases he
      exact ⟨Function.update_self .., Function.update_self .., hold, hnode⟩
    · simp only [Function.update_of_ne (hfresh j w b hj)]
      exact hL.fresh j w b hj
  · rcases update_eq_some_iff.1 hj with ⟨hji, he⟩ | ⟨-, hj₁⟩ <;>
      rcases update_eq_some_iff.1 hj' with ⟨hji', he'⟩ | ⟨-, hj₂⟩
    · exact hji.trans hji'.symm
    · cases he
      exact absurd rfl (hfresh j' w' _ hj₂)
    · cases he'
      exact absurd rfl (hfresh j w _ hj₁)
    · exact hL.separate j j' w w' b hj₁ hj₂
  · have hj := (of_update hj (by simp)).2
    obtain ⟨hk, he, hp, hn, hnone⟩ := hL.linking j w new prev hj
    refine ⟨hk, he, hp, hn, ?_⟩
    show Function.update q.next a none prev = none
    rw [Function.update_of_ne (hp ▸ hnode _ hk (hL.place_lt hj).le)]
    exact hnone
  · simp only [Finset.mem_insert, hL.live_iff b]
    constructor
    · rintro (rfl | hk | ho | ⟨j, w, hj⟩)
      · exact .inr (.inr ⟨i, v, Function.update_self ..⟩)
      · exact .inl hk
      · exact .inr (.inl ho)
      · exact .inr (.inr ⟨j, w, update_of_other hi hj (by simp)⟩)
    · rintro (hk | ho | ⟨j, w, hj⟩)
      · exact .inr (.inl hk)
      · exact .inr (.inr (.inl ho))
      · rcases update_eq_some_iff.1 hj with ⟨-, he⟩ | ⟨-, hj⟩
        · cases he
          exact .inl rfl
        · exact .inr (.inr (.inr ⟨j, w, hj⟩))

/-- The exchange puts the new node behind the last one, and leaves the link to it pending. -/
theorem ListInv.exchange (hL : ListInv q producers h taken old) {i : ι} {v : T} {a : ℕ}
    (hi : producers i = some ⟨v, .exchange a⟩) :
    ListInv { q with head := a } (Function.update producers i (some ⟨v, .link a q.head⟩))
      { h with
        exchanged := h.exchanged ++ [(i, v)]
        node := Function.update h.node (h.exchanged.length + 1) a
        place := Function.update h.place i h.exchanged.length } taken old := by
  obtain ⟨hnext, hdata, hold, hnode⟩ := hL.fresh i v a hi
  have hkept : ∀ k, k ≤ h.exchanged.length →
      Function.update h.node (h.exchanged.length + 1) a k = h.node k := fun k hk =>
    Function.update_of_ne (by omega) ..
  have hlen : (h.exchanged ++ [(i, v)]).length = h.exchanged.length + 1 := by simp
  have hle := hL.taken_le
  refine ⟨by simp only [hlen]; omega, ?_, ?_, fun j k hj hjk hk => ?_, fun k hk hlt => ?_,
    fun k j w hk hw => ?_, fun k hk hle => ?_, fun j w b hj => ?_, fun j j' w w' b hj hj' => ?_,
    fun j w new prev hj => ?_, fun b => ?_⟩
  · simp only [hlen, Function.update_self]
  · simp only [hlen, Function.update_self]
    exact hnext
  · simp only [hlen] at hk ⊢
    rw [hkept j (by omega)]
    rcases hk.eq_or_lt with rfl | hk
    · rw [Function.update_self]
      exact hnode j hj (by omega)
    · rw [hkept k (by omega)]
      exact hL.distinct j k hj hjk (by omega)
  · simp only [hlen] at hlt ⊢
    rcases (Nat.lt_succ_iff.1 hlt).eq_or_lt with rfl | hlt
    · refine .inr ⟨i, v, ?_, Function.update_self ..⟩
      rw [hkept _ le_rfl, Function.update_self, Function.update_self, hL.head_eq]
    · rw [hkept k hlt.le, hkept (k + 1) hlt]
      rcases hL.linked k hk hlt with hs | ⟨j, w, hj, hp⟩
      · exact .inl hs
      · refine .inr ⟨j, w, update_of_other hi hj (by simp), ?_⟩
        rw [Function.update_of_ne, hp]
        rintro rfl
        exact absurd (hi.symm.trans hj) (by simp)
  · simp only at hw ⊢
    rcases lt_or_ge k h.exchanged.length with hlt | hge
    · rw [List.getElem?_append_left hlt] at hw
      rw [hkept (k + 1) hlt]
      exact hL.values k j w hk hw
    · have hk' := (List.getElem?_eq_some_iff.1 hw).1
      obtain rfl : k = h.exchanged.length := by omega
      rw [List.getElem?_concat_length] at hw
      cases hw
      rw [Function.update_self]
      exact hdata
  · simp only [hlen] at hle ⊢
    rcases hle.eq_or_lt with rfl | hlt
    · rw [Function.update_self]
      exact hold
    · rw [hkept k (by omega)]
      exact hL.old_ne k hk (by omega)
  · obtain ⟨hji, hj⟩ := of_update hj (by simp)
    obtain ⟨hn, hd, ho, hb⟩ := hL.fresh j w b hj
    refine ⟨hn, hd, ho, fun k hk hle => ?_⟩
    simp only [hlen] at hle ⊢
    rcases hle.eq_or_lt with rfl | hlt
    · rw [Function.update_self]
      rintro rfl
      exact hji (hL.separate j i w v a hj hi)
    · rw [hkept k (by omega)]
      exact hb k hk (by omega)
  · exact hL.separate j j' w w' b (of_update hj (by simp)).2 (of_update hj' (by simp)).2
  · simp only
    rcases update_eq_some_iff.1 hj with ⟨rfl, he⟩ | ⟨hji, hj⟩
    · cases he
      rw [Function.update_self, hkept _ le_rfl, List.getElem?_concat_length, Function.update_self]
      refine ⟨hL.taken_le, rfl, hL.head_eq, rfl, ?_⟩
      rw [hL.head_eq]
      exact hL.last
    · obtain ⟨hk, he, hp, hn, hnone⟩ := hL.linking j w new prev hj
      have hlt := hL.place_lt hj
      rw [Function.update_of_ne hji, hkept _ hlt.le, hkept _ hlt, List.getElem?_append_left hlt]
      exact ⟨hk, he, hp, hn, hnone⟩
  · simp only [hL.live_iff b, hlen]
    constructor
    · rintro (⟨k, hk, hle, rfl⟩ | ho | ⟨j, w, hj⟩)
      · exact .inl ⟨k, hk, by omega, hkept k hle⟩
      · exact .inr (.inl ho)
      · by_cases hji : j = i
        · subst hji
          rw [hi] at hj
          cases hj
          exact .inl ⟨h.exchanged.length + 1, by omega, le_rfl, Function.update_self ..⟩
        · exact .inr (.inr ⟨j, w, (Function.update_of_ne hji ..).trans hj⟩)
    · rintro (⟨k, hk, hle, rfl⟩ | ho | ⟨j, w, hj⟩)
      · rcases hle.eq_or_lt with rfl | hlt
        · rw [Function.update_self]
          exact .inr (.inr ⟨i, v, hi⟩)
        · exact .inl ⟨k, hk, by omega, (hkept k (by omega)).symm⟩
      · exact .inr (.inl ho)
      · exact .inr (.inr ⟨j, w, (of_update hj (by simp)).2⟩)

/-- The link store joins the two segments at the place of its exchange, and touches no other
node. -/
theorem ListInv.link (hL : ListInv q producers h taken old) {i : ι} {v : T} {new prev : ℕ}
    (hi : producers i = some ⟨v, .link new prev⟩) :
    ListInv { q with next := Function.update q.next prev (some new) }
      (Function.update producers i (some ⟨v, .returned⟩)) h taken old := by
  have hlt := hL.place_lt hi
  obtain ⟨hk, -, hp, hn, -⟩ := hL.linking i v new prev hi
  have hnode : ∀ k, taken ≤ k → k ≤ h.exchanged.length → k ≠ h.place i → h.node k ≠ prev := by
    intro k hk' hle hne he
    rcases hne.lt_or_gt with hlt' | hlt'
    · exact hL.distinct _ _ hk' hlt' hlt.le (he.trans hp)
    · exact hL.distinct _ _ hk hlt' hle (hp.symm.trans he.symm)
  refine { hL with
    last := ?_, linked := fun k hk' hlt' => ?_, fresh := fun j w b hj => ?_,
    separate := fun j j' w w' b hj hj' => ?_, linking := fun j w new' prev' hj => ?_,
    live_iff := fun b => ?_ }
  · simp only [Function.update_of_ne (hnode _ hL.taken_le le_rfl hlt.ne')]
    exact hL.last
  · simp only
    by_cases hkp : k = h.place i
    · subst hkp
      rw [← hp, ← hn, Function.update_self]
      exact .inl rfl
    · rw [Function.update_of_ne (hnode k hk' hlt'.le hkp)]
      rcases hL.linked k hk' hlt' with hs | ⟨j, w, hj, rfl⟩
      · exact .inl hs
      · refine .inr ⟨j, w, (Function.update_of_ne ?_ ..).trans hj, rfl⟩
        rintro rfl
        exact hkp rfl
  · obtain ⟨hn', hd, ho, hb⟩ := hL.fresh j w b (of_update hj (by simp)).2
    refine ⟨?_, hd, ho, hb⟩
    show Function.update q.next prev (some new) b = none
    rw [Function.update_of_ne]
    · exact hn'
    · rintro rfl
      exact hb _ hk hlt.le hp.symm
  · exact hL.separate j j' w w' b (of_update hj (by simp)).2 (of_update hj' (by simp)).2
  · obtain ⟨hji, hj⟩ := of_update hj (by simp)
    obtain ⟨hk', he', hp', hn', hnone⟩ := hL.linking j w new' prev' hj
    refine ⟨hk', he', hp', hn', ?_⟩
    show Function.update q.next prev (some new) prev' = none
    rw [Function.update_of_ne]
    · exact hnone
    · rintro rfl
      exact hji (hL.prevHead_ne hj hi)
  · simp only [hL.live_iff b]
    refine or_congr_right (or_congr_right ⟨?_, ?_⟩)
    · rintro ⟨j, w, hj⟩
      exact ⟨j, w, update_of_other hi hj (by simp)⟩
    · rintro ⟨j, w, hj⟩
      exact ⟨j, w, (of_update hj (by simp)).2⟩

end Producers

section Consumer

variable {q : MpscQueue T} {producers : ι → Option (MpscPush T)} {h : MpscHistory ι T} {taken : ℕ}

/-- The consumer takes the value behind a linked node, which it may then delete: the push that
exchanged that node away has finished. -/
theorem ListInv.take (hL : ListInv q producers h taken none) {n : ℕ}
    (hn : q.next (h.node taken) = some n) :
    ListInv { q with data := Function.update q.data n none } producers h (taken + 1)
      (some (h.node taken)) := by
  obtain ⟨hlt, rfl⟩ := hL.next_eq le_rfl hL.taken_le hn
  refine { hL with
    taken_le := hlt, distinct := fun j k hj => hL.distinct j k (by omega),
    linked := fun k hk => hL.linked k (by omega), values := fun k i v hk he => ?_,
    old_ne := fun k hk hle he => ?_, fresh := fun i v a hi => ?_,
    linking := fun i v new prev hi => ?_, live_iff := fun a => ?_ }
  · have hk' := (List.getElem?_eq_some_iff.1 he).1
    have hne := hL.distinct (taken + 1) (k + 1) (by omega) (by omega) hk'
    simp only [Function.update_of_ne hne.symm]
    exact hL.values k i v (by omega) he
  · exact hL.distinct taken k le_rfl hk hle (Option.some.inj he)
  · obtain ⟨hnext, hdata, -, hnode⟩ := hL.fresh i v a hi
    refine ⟨hnext, ?_, fun he => hnode taken le_rfl hlt.le (Option.some.inj he),
      fun k hk hle => hnode k (by omega) hle⟩
    have hne := hnode (taken + 1) (by omega) hlt
    simp only [Function.update_of_ne hne.symm]
    exact hdata
  · obtain ⟨hk, he, hp, hnew, hnone⟩ := hL.linking i v new prev hi
    refine ⟨?_, he, hp, hnew, hnone⟩
    rcases hk.eq_or_lt with heq | hlt'
    · rw [hp, ← heq, hn] at hnone
      cases hnone
    · exact hlt'
  · simp only [hL.live_iff a, Option.some.injEq, reduceCtorEq, false_or]
    constructor
    · rintro (⟨k, hk, hle, rfl⟩ | hi)
      · rcases hk.eq_or_lt with rfl | hlt'
        · exact .inr (.inl rfl)
        · exact .inl ⟨k, hlt', hle, rfl⟩
      · exact .inr (.inr hi)
    · rintro (⟨k, hk, hle, rfl⟩ | rfl | hi)
      · exact .inl ⟨k, by omega, hle, rfl⟩
      · exact .inl ⟨taken, le_rfl, hlt.le, rfl⟩
      · exact .inr hi

/-- The node deleted is none of those still in use. -/
theorem ListInv.delete {old : ℕ} (hL : ListInv q producers h taken (some old)) :
    ListInv { q with live := q.live.erase old } producers h taken none := by
  refine { hL with
    old_ne := fun _ _ _ => by simp, fresh := fun i v a hi => ?_, live_iff := fun a => ?_ }
  · obtain ⟨hnext, hdata, -, hnode⟩ := hL.fresh i v a hi
    exact ⟨hnext, hdata, by simp, hnode⟩
  · simp only [Finset.mem_erase, hL.live_iff a, reduceCtorEq, false_or]
    constructor
    · rintro ⟨hne, hk | ho | hi⟩
      · exact .inl hk
      · exact absurd (Option.some.inj ho).symm hne
      · exact .inr hi
    · rintro (⟨k, hk, hle, rfl⟩ | ⟨i, v, hi⟩)
      · refine ⟨fun he => hL.old_ne k hk hle (by rw [he]), .inl ⟨k, hk, hle, rfl⟩⟩
      · obtain ⟨-, -, ho, -⟩ := hL.fresh i v a hi
        exact ⟨fun he => ho (by rw [he]), .inr (.inr ⟨i, v, hi⟩)⟩

end Consumer

end RaceConditionZ
