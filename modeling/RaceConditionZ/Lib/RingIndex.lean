import Mathlib.Data.Nat.ModEq

/-!
# Ring indices on machine words

A ring of a power of two of places is indexed by 64-bit words: the successor and the distance of
two indices are taken by wrapping arithmetic and a mask. Read as the counts of the places passed,
they are the successor and the distance modulo the size, since the size divides `2 ^ 64`.
-/

/-- A ring size that has passed the two checks `size >= 2` and `(size & (size - 1)) == 0`. -/
structure RingSize where
  size : BitVec 64
  two_le : 2 ≤ size
  and_pred : size &&& (size - 1) = 0

namespace RingSize

/-- The size `2 ^ k`. -/
def ofPow (k : ℕ) (hpos : 1 ≤ k) (hle : k ≤ 63) : RingSize where
  size := BitVec.ofNat 64 (2 ^ k)
  two_le := by
    have hlt : 2 ^ k < 2 ^ 64 := Nat.pow_lt_pow_right (by omega) (by omega)
    have htwo : 2 ^ 1 ≤ 2 ^ k := Nat.pow_le_pow_right (by omega) hpos
    rw [BitVec.le_def, BitVec.toNat_ofNat, Nat.mod_eq_of_lt hlt]
    exact htwo
  and_pred := by
    have hlt : 2 ^ k < 2 ^ 64 := Nat.pow_lt_pow_right (by omega) (by omega)
    have hone : 1 ≤ 2 ^ k := Nat.one_le_two_pow
    have hpred : (BitVec.ofNat 64 (2 ^ k) - 1).toNat = 2 ^ k - 1 := by bv_omega
    apply BitVec.eq_of_toNat_eq
    rw [BitVec.toNat_and, hpred, BitVec.toNat_ofNat, Nat.mod_eq_of_lt hlt,
      Nat.and_two_pow_sub_one_eq_mod, Nat.mod_self]
    rfl

variable (r : RingSize)

/-- The number of places. -/
def n : ℕ := r.size.toNat

def mask : BitVec 64 := r.size - 1

/-- `(i + 1) & MASK`. -/
def next (i : BitVec 64) : BitVec 64 := (i + 1) &&& r.mask

/-- `(t - h) & MASK`. -/
def distance (t h : BitVec 64) : BitVec 64 := (t - h) &&& r.mask

/-- Whether `i` is one of the places from `h` cyclically up to `t`, without `t`. -/
def Between (h t i : BitVec 64) : Prop := r.distance i h < r.distance t h

theorem two_le_n : 2 ≤ r.n := r.two_le

theorem n_pos : 0 < r.n := lt_of_lt_of_le Nat.zero_lt_two r.two_le_n

theorem toNat_mask : r.mask.toNat = r.n - 1 := by
  have h2 := r.two_le_n
  unfold n at h2
  simp only [mask, n]
  bv_omega

theorem n_eq_pow : ∃ k, 1 ≤ k ∧ k ≤ 63 ∧ r.n = 2 ^ k := by
  have hand : r.n &&& (r.n - 1) = 0 := by
    have h := congrArg BitVec.toNat r.and_pred
    rw [BitVec.toNat_and] at h
    rw [← r.toNat_mask]
    exact h
  obtain ⟨k, hk⟩ := (Nat.and_sub_one_eq_zero_iff_isPowerOfTwo r.n_pos.ne').1 hand
  refine ⟨k, ?_, ?_, hk⟩
  · rcases k with _ | k
    · have := r.two_le_n
      omega
    · omega
  · have hlt : 2 ^ k < 2 ^ 64 := hk ▸ r.size.isLt
    exact Nat.le_of_lt_succ ((Nat.pow_lt_pow_iff_right (by omega)).1 hlt)

theorem n_dvd : r.n ∣ 2 ^ 64 := by
  obtain ⟨k, -, hk, hn⟩ := r.n_eq_pow
  rw [hn]
  exact Nat.pow_dvd_pow 2 (by omega)

theorem toNat_and_mask (i : BitVec 64) : (i &&& r.mask).toNat = i.toNat % r.n := by
  obtain ⟨k, -, -, hn⟩ := r.n_eq_pow
  rw [BitVec.toNat_and, toNat_mask, hn, Nat.and_two_pow_sub_one_eq_mod]

theorem toNat_next (i : BitVec 64) : (r.next i).toNat = (i.toNat + 1) % r.n := by
  unfold next
  rw [toNat_and_mask, BitVec.toNat_add, Nat.mod_mod_of_dvd _ r.n_dvd]
  rfl

/-- The index of a count is followed by the index of the next count. -/
theorem toNat_next_of_count {i : BitVec 64} {c : ℕ} (h : i.toNat = c % r.n) :
    (r.next i).toNat = (c + 1) % r.n := by
  rw [toNat_next, h, Nat.mod_add_mod]

/-- An index some places on from the index of a count. -/
theorem toNat_add_of_count {i : BitVec 64} {c : ℕ} (h : i.toNat = c % r.n) (j : ℕ) :
    ((i + BitVec.ofNat 64 j) &&& r.mask).toNat = (c + j) % r.n := by
  rw [toNat_and_mask, BitVec.toNat_add, BitVec.toNat_ofNat, Nat.mod_mod_of_dvd _ r.n_dvd, h,
    Nat.mod_add_mod, Nat.add_mod c (j % 2 ^ 64), Nat.mod_mod_of_dvd _ r.n_dvd, ← Nat.add_mod]

theorem toNat_distance_lt (t h : BitVec 64) : (r.distance t h).toNat < r.n := by
  unfold distance
  rw [toNat_and_mask]
  exact Nat.mod_lt _ r.n_pos

/-- The distance of the indices of two counts is that of the counts, modulo the size. -/
theorem toNat_distance_modEq {t h : BitVec 64} {p c : ℕ} (ht : t.toNat = p % r.n)
    (hh : h.toNat = c % r.n) : (r.distance t h).toNat + c ≡ p [MOD r.n] := by
  unfold distance
  rw [toNat_and_mask, BitVec.toNat_sub, Nat.mod_mod_of_dvd _ r.n_dvd, ht, hh]
  set x := 2 ^ 64 - c % r.n + p % r.n with hx
  have hle : c % r.n ≤ 2 ^ 64 := (Nat.mod_lt c r.n_pos).le.trans r.size.isLt.le
  have hsum : x + c % r.n = 2 ^ 64 + p % r.n := by omega
  -- modulo the size, the word length is nothing and the counts are their remainders
  calc x % r.n + c ≡ x + c % r.n [MOD r.n] :=
        (Nat.mod_modEq x r.n).add (Nat.mod_modEq c r.n).symm
    _ = 2 ^ 64 + p % r.n := hsum
    _ ≡ 0 + p [MOD r.n] := ((Nat.modEq_zero_iff_dvd).2 r.n_dvd).add (Nat.mod_modEq p r.n)
    _ = p := Nat.zero_add p

/-- The distance of the indices of two counts less than a round apart. -/
theorem toNat_distance_of_count {t h : BitVec 64} {p c : ℕ} (ht : t.toNat = p % r.n)
    (hh : h.toNat = c % r.n) (hcp : c ≤ p) (hpc : p < c + r.n) :
    (r.distance t h).toNat = p - c := by
  have hmod : (r.distance t h).toNat + c ≡ (p - c) + c [MOD r.n] := by
    rw [Nat.sub_add_cancel hcp]
    exact r.toNat_distance_modEq ht hh
  exact Nat.ModEq.eq_of_lt_of_lt (Nat.ModEq.add_right_cancel' c hmod) (r.toNat_distance_lt t h)
    (by omega)

/-- Counts less than a round apart have one index only where they are the same count. -/
theorem count_eq_of_mod_eq {c p : ℕ} (hcp : c ≤ p) (hpc : p < c + r.n)
    (h : c % r.n = p % r.n) : c = p := by
  have hdvd : r.n ∣ p - c := (Nat.modEq_iff_dvd' hcp).1 h
  have := Nat.eq_zero_of_dvd_of_lt hdvd (by omega)
  omega

theorem eq_iff_count_eq {i j : BitVec 64} {c p : ℕ} (hi : i.toNat = c % r.n)
    (hj : j.toNat = p % r.n) (hcp : c ≤ p) (hpc : p < c + r.n) : i = j ↔ c = p := by
  constructor
  · rintro rfl
    exact r.count_eq_of_mod_eq hcp hpc (hi.symm.trans hj)
  · rintro rfl
    exact BitVec.eq_of_toNat_eq (hi.trans hj.symm)

theorem not_between_end (h t : BitVec 64) : ¬ r.Between h t t := Nat.lt_irrefl _

/-- The first place is one of them, unless there is none. -/
theorem between_start {h t : BitVec 64} {p c : ℕ} (ht : t.toNat = p % r.n)
    (hh : h.toNat = c % r.n) (hcp : c < p) (hpc : p < c + r.n) : r.Between h t h := by
  have hself := r.toNat_distance_of_count hh hh le_rfl (Nat.lt_add_of_pos_right r.n_pos)
  have hdist := r.toNat_distance_of_count ht hh hcp.le hpc
  show (r.distance h h).toNat < (r.distance t h).toNat
  omega

end RingSize
