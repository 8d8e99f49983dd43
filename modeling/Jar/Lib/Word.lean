import Mathlib.Data.BitVec
import Mathlib.Tactic.Ring

/-! Facts about fixed-width words that a processor's flags and division rest on. -/

namespace Word

/-- Words in their unsigned order. -/
scoped instance linearOrder {n : Nat} : LinearOrder (BitVec n) where
  le_refl := BitVec.le_refl
  le_trans _ _ _ := BitVec.le_trans
  le_antisymm _ _ := BitVec.le_antisymm
  le_total := BitVec.le_total
  lt_iff_le_not_ge a b := by
    simp only [BitVec.lt_def, BitVec.le_def]
    omega
  toDecidableLE := inferInstance
  toDecidableEq := inferInstance

/-- A word in the range of a signed half is the sign extension of its low half. -/
theorem signExtend_low (a : BitVec 64) (lower : -2 ^ 31 ≤ a.toInt) (upper : a.toInt < 2 ^ 31) :
    (a.extractLsb' 0 32).signExtend 64 = a := by
  apply BitVec.eq_of_toInt_eq
  rw [BitVec.toInt_signExtend_of_le (by decide)]
  simp only [BitVec.toInt_eq_toNat_cond, BitVec.extractLsb'_toNat, Nat.shiftRight_zero] at *
  have bound := a.isLt
  split at lower <;> split <;> omega

/-- A word below the size of a half is the zero extension of its low half. -/
theorem zeroExtend_low (a : BitVec 64) (small : a.toNat < 2 ^ 32) :
    (a.extractLsb' 0 32).zeroExtend 64 = a := by
  apply BitVec.eq_of_toNat_eq
  simp only [BitVec.truncate_eq_setWidth, BitVec.toNat_setWidth, BitVec.extractLsb'_toNat]
  omega

/-- A word in the range of a narrower signed one is the sign extension of its low part. -/
theorem signExtend_of_range {n k : Nat} (x : BitVec n) (narrow : k ≤ n)
    (lower : -2 ^ k ≤ 2 * x.toInt) (upper : 2 * x.toInt < 2 ^ k) :
    (x.extractLsb' 0 k).signExtend n = x := by
  apply BitVec.eq_of_toInt_eq
  have cut : x.extractLsb' 0 k = x.setWidth k := by
    ext i
    simp
  have whole : (x.toNat : Int).bmod (2 ^ k) = x.toInt.bmod (2 ^ k) := by
    rw [BitVec.toInt_eq_toNat_bmod, Int.bmod_bmod_of_dvd (Nat.pow_dvd_pow 2 narrow)]
  rw [BitVec.toInt_signExtend_of_le narrow, cut, BitVec.toInt_setWidth, whole]
  apply Int.bmod_eq_of_le
  · push_cast
    omega
  · push_cast
    omega

/-! ## Comparison -/

/-- Words are equal exactly when their difference is zero. -/
theorem sub_beq_zero {n : Nat} (a b : BitVec n) : (a - b == 0) = (a == b) := by
  rw [Bool.eq_iff_iff]
  simp only [beq_iff_eq]
  exact sub_eq_zero

/-- The borrow of a subtraction is the unsigned order. -/
theorem usubOverflow_eq_ult {n : Nat} (a b : BitVec n) : BitVec.usubOverflow a b = a.ult b := rfl

/-- The signed order is sign against overflow of the difference. -/
theorem slt_eq_sign_ne_overflow {n : Nat} (a b : BitVec (n + 1)) :
    ((a - b).msb != BitVec.ssubOverflow a b) = a.slt b := by
  have lowA := a.le_toInt
  have highA := a.toInt_lt
  have lowB := b.le_toInt
  have highB := b.toInt_lt
  simp only [Nat.add_sub_cancel] at lowA highA lowB highB
  have cast : ((2 ^ (n + 1) : Nat) : Int) = 2 * 2 ^ n := by push_cast; ring
  simp only [BitVec.msb_eq_toInt, BitVec.toInt_sub, BitVec.ssubOverflow, BitVec.slt,
    Nat.add_sub_cancel]
  -- The difference is below, inside or above the signed range; outside it wraps once.
  rcases Int.lt_or_le (a.toInt - b.toInt) (-2 ^ n) with under | notUnder
  · have wrapped : (a.toInt - b.toInt).bmod (2 ^ (n + 1)) = a.toInt - b.toInt + 2 * 2 ^ n := by
      rw [← Int.add_bmod_right, Int.bmod_eq_of_le] <;> omega
    have sign : decide (a.toInt - b.toInt + 2 * 2 ^ n < 0) = false := decide_eq_false (by omega)
    rw [wrapped, sign, decide_eq_true under]
    simp
    omega
  · rcases Int.lt_or_le (a.toInt - b.toInt) (2 ^ n) with inside | beyond
    · have plain : (a.toInt - b.toInt).bmod (2 ^ (n + 1)) = a.toInt - b.toInt := by
        rw [Int.bmod_eq_of_le] <;> omega
      have fits : decide (a.toInt - b.toInt ≥ 2 ^ n) = false := decide_eq_false (by omega)
      rw [plain, fits, decide_eq_false (show ¬ a.toInt - b.toInt < -2 ^ n by omega)]
      simp
    · have wrapped : (a.toInt - b.toInt).bmod (2 ^ (n + 1)) = a.toInt - b.toInt - 2 * 2 ^ n := by
        rw [← Int.sub_bmod_right, Int.bmod_eq_of_le] <;> omega
      have sign : decide (a.toInt - b.toInt - 2 * 2 ^ n < 0) = true := decide_eq_true (by omega)
      have overflow : decide (a.toInt - b.toInt ≥ 2 ^ n) = true := decide_eq_true beyond
      rw [wrapped, sign, overflow]
      simp
      omega

/-! ## Division -/

/-- Filling the upper half with the sign keeps the value. -/
theorem toInt_signFill_append {n : Nat} (a : BitVec (n + 1)) :
    (a.sshiftRight n ++ a).toInt = a.toInt := by
  have low := a.le_toInt
  have high := a.toInt_lt
  have value := a.toInt_eq_toNat_cond
  have power : (2 : Int) ^ (n + 1) = 2 * 2 ^ n := by ring
  have cast : ((2 ^ (n + 1) : Nat) : Int) = 2 * 2 ^ n := by push_cast; ring
  have positive : (0 : Int) < 2 ^ n := Int.pow_pos (by decide)
  simp only [Nat.add_sub_cancel] at low high
  rw [BitVec.toInt_append, BitVec.toInt_sshiftRight, Int.shiftRight_eq_div_pow]
  simp only [Nat.add_eq_zero_iff, Nat.one_ne_zero, and_false, beq_iff_eq, if_false, power,
    Nat.cast_pow, Nat.cast_ofNat]
  rcases Int.lt_or_le a.toInt 0 with negative | nonneg
  · -- The fill is minus one, which takes the unsigned value down to the signed one.
    have fill : a.toInt / 2 ^ n = -1 := by
      rw [Int.ediv_eq_iff_of_pos positive]
      omega
    rw [fill]
    split at value <;> omega
  · have fill : a.toInt / 2 ^ n = 0 := Int.ediv_eq_zero_of_lt nonneg high
    rw [fill]
    split at value <;> omega

/-- A signed quotient is in range unless it is the one overflow. -/
theorem tdiv_range {n : Nat} (a b : BitVec (n + 1))
    (noOverflow : a ≠ BitVec.intMin (n + 1) ∨ b ≠ -1) :
    -2 ^ n ≤ a.toInt.tdiv b.toInt ∧ a.toInt.tdiv b.toInt < 2 ^ n := by
  rw [← BitVec.toInt_sdiv_of_ne_or_ne a b noOverflow]
  exact ⟨by simpa using (a.sdiv b).le_toInt, by simpa using (a.sdiv b).toInt_lt⟩

/-- Signed division by minus one negates, with the overflow wrapping to itself. -/
theorem sdiv_neg_one {n : Nat} (a : BitVec (n + 2)) : a.sdiv (-1) = -a := by
  have notMin : (1 : BitVec (n + 2)) ≠ BitVec.intMin (n + 2) := by
    intro same
    have value := congrArg BitVec.toNat same
    have large : 2 ^ (n + 1) < 2 ^ (n + 2) := Nat.pow_lt_pow_right (by decide) (by omega)
    have even : 2 ^ (n + 1) = 2 * 2 ^ n := by ring
    have one : 1 < 2 ^ (n + 2) := Nat.one_lt_two_pow (by omega)
    rw [BitVec.toNat_intMin, Nat.add_sub_cancel (m := 1), Nat.mod_eq_of_lt large] at value
    simp only [BitVec.ofNat_eq_ofNat, BitVec.toNat_ofNat, Nat.mod_eq_of_lt one] at value
    omega
  rw [BitVec.sdiv_neg notMin]
  exact congrArg _ BitVec.sdiv_one

theorem srem_neg_one {n : Nat} (a : BitVec (n + 1)) : a.srem (-1) = 0 := by
  apply BitVec.eq_of_toInt_eq
  have value : (-1 : BitVec (n + 1)).toInt = -1 := by
    have ones := BitVec.toInt_allOnes (w := n + 1)
    rw [← BitVec.neg_one_eq_allOnes] at ones
    simpa using ones
  rw [BitVec.toInt_srem, value]
  simp

end Word
