import Mathlib.Order.Basic
import Mathlib.Data.List.Basic

/-!
# The holder of a record

Who holds a record after a sequence of attempts, where only an attempt strictly below the standing
value takes it: the first of the least ones, and nobody while none is below the initial value. The
order may have incomparable values, which beat nothing and are beaten by nothing.
-/

namespace Record

variable {α β : Type*} [Preorder β]

/-- `holder` holds the record of the least `value` over `attempts`, against the initial value. -/
def Holds (value : α → β) (initial : β) (attempts : List α) : Option α → Prop
  | none => ∀ a ∈ attempts, ¬ value a < initial
  | some m => value m < initial ∧ ∃ before after, attempts = before ++ m :: after
      ∧ (∀ a ∈ before, ¬ value a ≤ value m) ∧ ∀ a ∈ after, ¬ value a < value m

/-- The standing value. -/
def standing (value : α → β) (initial : β) : Option α → β
  | none => initial
  | some m => value m

variable {value : α → β} {initial : β} {attempts : List α} {holder : Option α}

theorem Holds.nil : Holds value initial [] none := fun _ ha => absurd ha List.not_mem_nil

theorem Holds.not_lt (h : Holds value initial attempts holder) :
    ∀ a ∈ attempts, ¬ value a < standing value initial holder := by
  cases holder with
  | none => exact h
  | some m =>
    obtain ⟨-, before, after, rfl, hbefore, hafter⟩ := h
    intro a ha
    rcases List.mem_append.1 ha with ha | ha
    · exact fun hlt => hbefore a ha hlt.le
    · rcases List.mem_cons.1 ha with rfl | ha
      · exact lt_irrefl _
      · exact hafter a ha

theorem Holds.standing_le (h : Holds value initial attempts holder) :
    standing value initial holder ≤ initial := by
  cases holder with
  | none => exact le_rfl
  | some m => exact h.1.le

/-- An attempt below the standing value takes the record. -/
theorem Holds.take (h : Holds value initial attempts holder) {a : α}
    (ha : value a < standing value initial holder) :
    Holds value initial (attempts ++ [a]) (some a) := by
  refine ⟨ha.trans_le h.standing_le, attempts, [], rfl, fun b hb hle => ?_, ?_⟩
  · exact h.not_lt b hb (hle.trans_lt ha)
  · exact fun b hb => absurd hb List.not_mem_nil

/-- Any other leaves it. -/
theorem Holds.keep (h : Holds value initial attempts holder) {a : α}
    (ha : ¬ value a < standing value initial holder) :
    Holds value initial (attempts ++ [a]) holder := by
  cases holder with
  | none =>
    intro b hb
    rcases List.mem_append.1 hb with hb | hb
    · exact h b hb
    · rw [List.mem_singleton.1 hb]
      exact ha
  | some m =>
    obtain ⟨hm, before, after, rfl, hbefore, hafter⟩ := h
    refine ⟨hm, before, after ++ [a], by simp, hbefore, fun b hb => ?_⟩
    rcases List.mem_append.1 hb with hb | hb
    · exact hafter b hb
    · rw [List.mem_singleton.1 hb]
      exact ha

end Record
