import Mathlib.Algebra.Order.Ring.Rat
import Mathlib.Tactic.NormNum

/-!
# Floating-point values under comparison

Code that only compares and copies floating-point values sees a preorder: `<` is false on a NaN,
and the two zeros are equal under `<` though their bits differ. `Binary32` is that order on the bits
of a `float`; the rationals are the reading of the same code in exact arithmetic.
-/

/-- The comparisons of a floating-point type. Equality is equality of bits; `≤` holds between equal
bits too, so that it is a preorder, and only `<` is the machine's comparison on a NaN. -/
class MachineFloat (F : Type*) extends Preorder F, Zero F where
  isNaN : F → Prop
  /-- `std::numeric_limits<F>::max()`. -/
  maxFinite : F
  total {a b : F} : ¬ isNaN a → ¬ isNaN b → a ≤ b ∨ b ≤ a
  not_isNaN_of_lt {a b : F} : a < b → ¬ isNaN a ∧ ¬ isNaN b
  zero_lt_maxFinite : 0 < maxFinite

namespace MachineFloat

variable {F : Type*} [MachineFloat F] {a b : F}

theorem le_of_not_lt (ha : ¬ isNaN a) (hb : ¬ isNaN b) (h : ¬ a < b) : b ≤ a := by
  rcases total ha hb with hab | hba
  · by_contra hba
    exact h (lt_of_le_not_ge hab hba)
  · exact hba

theorem not_isNaN_maxFinite : ¬ isNaN (maxFinite : F) :=
  (not_isNaN_of_lt zero_lt_maxFinite).2

instance : MachineFloat ℚ where
  isNaN _ := False
  maxFinite := (2 ^ 24 - 1) * 2 ^ 104
  total _ _ := le_total _ _
  not_isNaN_of_lt _ := ⟨not_false, not_false⟩
  zero_lt_maxFinite := by norm_num

end MachineFloat

/-- The bits of an IEEE 754 single-precision value. -/
structure Binary32 where
  bits : BitVec 32
deriving DecidableEq

namespace Binary32

/-- Exponent and fraction. -/
def magnitude (a : Binary32) : ℕ := a.bits.toNat % 2 ^ 31

/-- Exponent all ones, fraction not zero. -/
def IsNaN (a : Binary32) : Prop := 0x7f800000 < a.magnitude

instance (a : Binary32) : Decidable a.IsNaN := inferInstanceAs (Decidable (_ < _))

/-- A key in the order of the values: the magnitudes are in that order, the sign mirrors them. -/
def rank (a : Binary32) : ℤ := if a.bits.msb then -a.magnitude else a.magnitude

instance : LT Binary32 := ⟨fun a b => ¬ a.IsNaN ∧ ¬ b.IsNaN ∧ a.rank < b.rank⟩

instance : LE Binary32 := ⟨fun a b => a = b ∨ (¬ a.IsNaN ∧ ¬ b.IsNaN ∧ a.rank ≤ b.rank)⟩

instance : DecidableLT Binary32 := fun _ _ => inferInstanceAs (Decidable (_ ∧ _ ∧ _))

theorem lt_def {a b : Binary32} : a < b ↔ ¬ a.IsNaN ∧ ¬ b.IsNaN ∧ a.rank < b.rank := Iff.rfl

theorem le_def {a b : Binary32} :
    a ≤ b ↔ a = b ∨ (¬ a.IsNaN ∧ ¬ b.IsNaN ∧ a.rank ≤ b.rank) := Iff.rfl

instance : Preorder Binary32 where
  le_refl a := Or.inl rfl
  le_trans a b c := by
    rintro (rfl | ⟨ha, hb, hab⟩) (rfl | ⟨hb', hc, hbc⟩)
    · exact Or.inl rfl
    · exact Or.inr ⟨hb', hc, hbc⟩
    · exact Or.inr ⟨ha, hb, hab⟩
    · exact Or.inr ⟨ha, hc, hab.trans hbc⟩
  lt_iff_le_not_ge a b := by
    rw [lt_def, le_def, le_def]
    constructor
    · rintro ⟨ha, hb, hab⟩
      refine ⟨Or.inr ⟨ha, hb, hab.le⟩, ?_⟩
      rintro (rfl | ⟨-, -, hba⟩) <;> omega
    · rintro ⟨rfl | ⟨ha, hb, -⟩, hn⟩
      · exact absurd (Or.inl rfl) hn
      · refine ⟨ha, hb, ?_⟩
        by_contra hab
        exact hn (Or.inr ⟨hb, ha, by omega⟩)

/-- `+0.0`. -/
instance : Zero Binary32 := ⟨⟨0⟩⟩

theorem zero_def : (0 : Binary32) = ⟨0⟩ := rfl

instance : MachineFloat Binary32 where
  isNaN := IsNaN
  maxFinite := ⟨0x7f7fffff⟩
  total {a b} ha hb := by
    rcases le_total a.rank b.rank with h | h
    · exact Or.inl (Or.inr ⟨ha, hb, h⟩)
    · exact Or.inr (Or.inr ⟨hb, ha, h⟩)
  not_isNaN_of_lt h := ⟨h.1, h.2.1⟩
  zero_lt_maxFinite := by rw [zero_def, lt_def]; decide

instance : DecidablePred (MachineFloat.isNaN : Binary32 → Prop) :=
  fun a => inferInstanceAs (Decidable a.IsNaN)

end Binary32
