import Mathlib.Data.List.Chain
import Mathlib.Order.Basic

/-!
# Stretches of a run

A stretch of a run is the list of its states, each one step after the one before. What no step
lowers is least at its start and greatest at its end, and what moves by at most one in a step takes
every value between any two.
-/

namespace Stretch

variable {σ : Type*} {R : σ → σ → Prop} {l : List σ} {first last s : σ}

/-- `l` is a stretch from the one state to the other. -/
structure Spans (R : σ → σ → Prop) (first last : σ) (l : List σ) : Prop where
  head : l.head? = some first
  last : l.getLast? = some last
  chain : l.IsChain R

theorem Spans.singleton (s : σ) : Spans R s s [s] := ⟨rfl, rfl, List.isChain_singleton s⟩

theorem Spans.concat (h : Spans R first last l) (hR : R last s) : Spans R first s (l ++ [s]) where
  head := by rw [List.head?_append, h.head, Option.some_or]
  last := List.getLast?_concat
  chain := by
    refine h.chain.append (List.isChain_singleton s) fun a ha b hb => ?_
    rw [h.last] at ha
    obtain rfl := Option.some.inj ha
    obtain rfl := Option.some.inj hb
    exact hR

theorem Spans.first_mem (h : Spans R first last l) : first ∈ l := List.mem_of_head? h.head

theorem Spans.last_mem (h : Spans R first last l) : last ∈ l := List.mem_of_getLast? h.last

/-- What no step of a stretch changes is at its end what it was at its start. -/
theorem Spans.eq {β : Type*} {f : σ → β} (hf : ∀ a b, R a b → f b = f a)
    (h : Spans R first last l) : f last = f first := by
  induction l generalizing first with
  | nil => cases h.head
  | cons a l ih =>
    obtain rfl := Option.some.inj h.head
    rcases l with _ | ⟨b, l⟩
    · obtain rfl := Option.some.inj h.last
      rfl
    · obtain ⟨hab, hrest⟩ := List.isChain_cons_cons.1 h.chain
      have hlast := h.last
      rw [List.getLast?_cons_cons] at hlast
      exact (ih ⟨rfl, hlast, hrest⟩).trans (hf a b hab)

/-- Along a stretch on which no step lowers `f`, the first state has the least. -/
theorem head_le_of_isChain {β : Type*} [Preorder β] {f : σ → β} (hf : ∀ a b, R a b → f a ≤ f b)
    (hl : l.IsChain R) (hfirst : l.head? = some first) (hs : s ∈ l) : f first ≤ f s := by
  induction l generalizing first with
  | nil => cases hfirst
  | cons a l ih =>
    obtain rfl := Option.some.inj hfirst
    rcases List.mem_cons.1 hs with rfl | hs
    · exact le_refl _
    · rcases l with _ | ⟨b, l⟩
      · cases hs
      · obtain ⟨hab, hl⟩ := List.isChain_cons_cons.1 hl
        exact le_trans (hf a b hab) (ih hl rfl hs)

theorem le_last_of_isChain {β : Type*} [Preorder β] {f : σ → β} (hf : ∀ a b, R a b → f a ≤ f b)
    (hl : l.IsChain R) (hlast : l.getLast? = some last) (hs : s ∈ l) : f s ≤ f last := by
  induction l generalizing s with
  | nil => cases hs
  | cons a l ih =>
    rcases l with _ | ⟨b, l⟩
    · obtain rfl := List.mem_singleton.1 hs
      obtain rfl := Option.some.inj hlast
      exact le_refl _
    · obtain ⟨hab, hrest⟩ := List.isChain_cons_cons.1 hl
      rw [List.getLast?_cons_cons] at hlast
      rcases List.mem_cons.1 hs with rfl | hs
      · exact le_trans (hf s b hab) (ih hrest hlast List.mem_cons_self)
      · exact ih hrest hlast hs

/-- Along a stretch on which `f` moves by at most one in a step, it takes every value between. -/
theorem exists_eq_of_isChain {f : σ → ℕ} (hf : ∀ a b, R a b → f b ≤ f a + 1 ∧ f a ≤ f b + 1)
    (hl : l.IsChain R) {a b : σ} (ha : a ∈ l) (hb : b ∈ l) {v : ℕ} (hav : f a ≤ v)
    (hvb : v ≤ f b) : ∃ s ∈ l, f s = v := by
  induction l generalizing a b with
  | nil => cases ha
  | cons x l ih =>
    rcases eq_or_ne (f x) v with hx | hx
    · exact ⟨x, List.mem_cons_self, hx⟩
    -- the first state is on one side of the value, and so is the second
    have hsecond : ∃ a' ∈ l, ∃ b' ∈ l, f a' ≤ v ∧ v ≤ f b' := by
      rcases l with _ | ⟨y, l⟩
      · rw [List.mem_singleton.1 ha] at hav
        rw [List.mem_singleton.1 hb] at hvb
        omega
      · obtain ⟨hup, hdown⟩ := hf x y (List.isChain_cons_cons.1 hl).1
        rcases lt_or_gt_of_ne hx with hlt | hgt
        · have hb' : b ∈ y :: l := (List.mem_cons.1 hb).resolve_left (by rintro rfl; omega)
          exact ⟨y, List.mem_cons_self, b, hb', by omega, hvb⟩
        · have ha' : a ∈ y :: l := (List.mem_cons.1 ha).resolve_left (by rintro rfl; omega)
          exact ⟨a, ha', y, List.mem_cons_self, hav, by omega⟩
    obtain ⟨a', ha', b', hb', hav', hvb'⟩ := hsecond
    obtain ⟨s, hs, heq⟩ := ih hl.tail ha' hb' hav' hvb'
    exact ⟨s, List.mem_cons_of_mem x hs, heq⟩

end Stretch
