import Mathlib.Data.List.Sort
import Mathlib.Order.Basic

/-!
# Stable sorting by a key

Sorting by a key, the largest first, sorts a list that stands in increasing order by the key and
then by that order: equal keys keep their places. Who writes down each element's place in the result
and sorts by the places gets the same result.
-/

namespace StableSort

variable {α β : Type*}

/-- `a` comes before `b`: it has the larger key, or an equal one and comes first in the order. -/
def Before [LT α] [LT β] (key : α → β) (a b : α) : Prop :=
  key b < key a ∨ key a = key b ∧ a < b

section Insertion

variable (r s : α → α → Prop) [DecidableRel r] [DecidableRel s]

theorem orderedInsert_congr {a : α} {l : List α} (h : ∀ b ∈ l, r a b ↔ s a b) :
    l.orderedInsert r a = l.orderedInsert s a := by
  induction l with
  | nil => rfl
  | cons b l ih =>
    rw [List.orderedInsert_cons, List.orderedInsert_cons,
      ih fun c hc => h c (List.mem_cons_of_mem b hc)]
    exact if_congr (h b List.mem_cons_self) rfl rfl

/-- Two relations that agree on the pairs of a list, each taken in its order, sort it alike. -/
theorem insertionSort_congr {l : List α} (h : l.Pairwise fun a b => r a b ↔ s a b) :
    l.insertionSort r = l.insertionSort s := by
  induction l with
  | nil => rfl
  | cons a l ih =>
    rw [List.pairwise_cons] at h
    rw [List.insertionSort_cons, List.insertionSort_cons, ← ih h.2]
    exact orderedInsert_congr r s fun b hb => h.1 b ((List.mem_insertionSort r).1 hb)

end Insertion

section Key

variable [LinearOrder α] [LinearOrder β] (key : α → β)

theorem before_asymm {a b : α} (h : Before key a b) : ¬ Before key b a := by
  rcases h with h | ⟨he, h⟩
  · rintro (h' | ⟨he, -⟩)
    · exact lt_asymm h h'
    · exact h.ne he
  · rintro (h' | ⟨-, h'⟩)
    · exact h'.ne he
    · exact lt_asymm h h'

theorem before_trichotomy {a b : α} (hne : a ≠ b) : Before key a b ∨ Before key b a := by
  rcases lt_trichotomy (key a) (key b) with h | h | h
  · exact .inr (.inl h)
  · rcases lt_or_gt_of_ne hne with h' | h'
    · exact .inl (.inr ⟨h, h'⟩)
    · exact .inr (.inr ⟨h.symm, h'⟩)
  · exact .inl (.inl h)

theorem Before.trans {a b c : α} (hab : Before key a b) (hbc : Before key b c) :
    Before key a c := by
  rcases hab with hab | ⟨hab, hlt⟩ <;> rcases hbc with hbc | ⟨hbc, hlt'⟩
  · exact .inl (hbc.trans hab)
  · exact .inl (hbc ▸ hab)
  · exact .inl (hab ▸ hbc)
  · exact .inr ⟨hab.trans hbc, hlt.trans hlt'⟩

theorem key_le_of_before {a b : α} (h : Before key a b) : key b ≤ key a := by
  rcases h with h | ⟨h, -⟩
  · exact h.le
  · exact h.ge

/-- The sort by the key is stable. -/
theorem pairwise_insertionSort {l : List α} (hl : l.Pairwise (· < ·)) :
    (l.insertionSort fun a b => key b ≤ key a).Pairwise (Before key) := by
  classical
  let s : α → α → Prop := fun a b => a = b ∨ Before key a b
  have : Std.Total s := ⟨fun a b => by
    rcases eq_or_ne a b with h | h
    · exact .inl (.inl h)
    · exact (before_trichotomy key h).imp .inr .inr⟩
  have : IsTrans α s := ⟨by
    rintro a b c (rfl | hab) (rfl | hbc)
    · exact .inl rfl
    · exact .inr hbc
    · exact .inr hab
    · exact .inr (hab.trans key hbc)⟩
  have hcongr : l.Pairwise fun a b => key b ≤ key a ↔ s a b := by
    refine hl.imp fun {a b} hab => ⟨fun hle => .inr ?_, ?_⟩
    · rcases hle.lt_or_eq with hlt | he
      · exact .inl hlt
      · exact .inr ⟨he.symm, hab⟩
    · rintro (rfl | h)
      · exact le_rfl
      · exact key_le_of_before key h
  have hnodup : (l.insertionSort s).Nodup :=
    (List.perm_insertionSort s l).nodup_iff.2 (hl.imp fun h => h.ne)
  rw [insertionSort_congr _ s hcongr]
  refine (List.pairwise_insertionSort s l).imp₂ (fun a b h hne => ?_) hnodup
  exact h.resolve_left hne

end Key

theorem rel_of_idxOf_lt [DecidableEq α] {R : α → α → Prop} {l : List α} (h : l.Pairwise R)
    {a b : α} (hb : b ∈ l) (hlt : l.idxOf a < l.idxOf b) : R a b := by
  have hb' := List.idxOf_lt_length_of_mem hb
  have hrel := List.pairwise_iff_getElem.1 h _ _ (hlt.trans hb') hb' hlt
  rwa [List.getElem_idxOf, List.getElem_idxOf] at hrel

/-- A list without repetitions is what sorting by the places in it gives. -/
theorem insertionSort_idxOf [DecidableEq α] {l l' : List α} (hnd : l.Nodup) (hperm : l'.Perm l) :
    (l'.insertionSort fun a b => l.idxOf a ≤ l.idxOf b) = l := by
  refine List.Perm.eq_of_pairwise ?_ (List.pairwise_insertionSort _ l') ?_
    ((List.perm_insertionSort _ l').trans hperm)
  · intro a b ha hb hab hba
    have hmem := hperm.mem_iff.1 ((List.mem_insertionSort _).1 ha)
    exact (List.idxOf_inj hmem).1 (le_antisymm hab hba)
  · rw [List.pairwise_iff_getElem]
    intro i j hi hj hij
    rw [hnd.idxOf_getElem i hi, hnd.idxOf_getElem j hj]
    exact hij.le

end StableSort
