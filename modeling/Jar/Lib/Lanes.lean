import Mathlib.Data.BitVec

/-! Words as rows of byte lanes, and the operations that act on each lane by itself. -/

namespace Lanes

/-- The word with given bytes, the first one lowest. -/
def join : (n : Nat) → (Nat → BitVec 8) → BitVec (8 * n)
  | 0, _ => 0#0
  | n + 1, f => join n (fun i => f (i + 1)) ++ f 0

variable {n : Nat} {f g : Nat → BitVec 8}

theorem toNat_join_succ (n : Nat) (f : Nat → BitVec 8) :
    (join (n + 1) f).toNat = (join n fun i => f (i + 1)).toNat * 256 + (f 0).toNat := by
  have low := (f 0).isLt
  change (join n (fun i => f (i + 1)) ++ f 0).toNat = _
  rw [BitVec.toNat_append, ← Nat.shiftLeft_add_eq_or_of_lt low, Nat.shiftLeft_eq]

theorem getLsbD_join (n : Nat) (f : Nat → BitVec 8) (j : Nat) :
    (join n f).getLsbD j = (decide (j < 8 * n) && (f (j / 8)).getLsbD (j % 8)) := by
  induction n generalizing f j with
  | zero => simp [join]
  | succ n ih =>
    change (join n (fun i => f (i + 1)) ++ f 0).getLsbD j = _
    rw [BitVec.getLsbD_append, ih]
    split
    · next low =>
      have first : j / 8 = 0 := by omega
      have same : j % 8 = j := by omega
      have within : j < 8 * (n + 1) := by omega
      simp [first, same, within]
    · next high =>
      have next : (j - 8) / 8 + 1 = j / 8 := by omega
      have same : (j - 8) % 8 = j % 8 := by omega
      have within : j - 8 < 8 * n ↔ j < 8 * (n + 1) := by omega
      simp [next, same, within]

theorem join_bytes {n : Nat} (a : BitVec (8 * n)) :
    join n (fun i => a.extractLsb' (8 * i) 8) = a := by
  apply BitVec.eq_of_getLsbD_eq
  intro j within
  have place : 8 * (j / 8) + j % 8 = j := by omega
  have low : j % 8 < 8 := Nat.mod_lt j (by decide)
  rw [getLsbD_join]
  simp [within, low, place]

theorem join_and (n : Nat) (f g : Nat → BitVec 8) :
    join n f &&& join n g = join n fun i => f i &&& g i := by
  apply BitVec.eq_of_getLsbD_eq
  intro j within
  rw [BitVec.getLsbD_and, getLsbD_join, getLsbD_join, getLsbD_join]
  simp [within]

theorem join_or (n : Nat) (f g : Nat → BitVec 8) :
    join n f ||| join n g = join n fun i => f i ||| g i := by
  apply BitVec.eq_of_getLsbD_eq
  intro j within
  rw [BitVec.getLsbD_or, getLsbD_join, getLsbD_join, getLsbD_join]
  simp [within]

theorem toNat_join_add (n : Nat) (small : ∀ i, (f i).toNat + (g i).toNat < 256) :
    (join n f).toNat + (join n g).toNat = (join n fun i => f i + g i).toNat := by
  induction n generalizing f g with
  | zero => simp [join]
  | succ n ih =>
    have rest := ih fun i => small (i + 1)
    have here : (f 0 + g 0).toNat = (f 0).toNat + (g 0).toNat := by
      rw [BitVec.toNat_add]
      exact Nat.mod_eq_of_lt (small 0)
    rw [toNat_join_succ, toNat_join_succ, toNat_join_succ, ← rest, here]
    omega

/-- Sums without a carry stay in their lanes. -/
theorem join_add (n : Nat) (small : ∀ i, (f i).toNat + (g i).toNat < 256) :
    join n f + join n g = join n fun i => f i + g i := by
  apply BitVec.eq_of_toNat_eq
  rw [BitVec.toNat_add, toNat_join_add n small]
  exact Nat.mod_eq_of_lt (BitVec.isLt _)

/-- Differences without a borrow stay in their lanes. -/
theorem join_sub (n : Nat) (ordered : ∀ i, (g i).toNat ≤ (f i).toNat) :
    join n f - join n g = join n fun i => f i - g i := by
  have split : join n f = (join n fun i => f i - g i) + join n g := by
    rw [join_add]
    · simp
    · intro i
      have bounded := (f i).isLt
      have smaller := ordered i
      rw [BitVec.toNat_sub_of_le (BitVec.le_def.mpr smaller)]
      omega
  rw [split]
  simp

/-- Lanes that hold only their highest bit shift it to their own lowest one. -/
theorem join_shiftRight (n : Nat) (high : ∀ i, (f i).toNat % 128 = 0) :
    join n f >>> 7 = join n fun i => f i >>> 7 := by
  apply BitVec.eq_of_toNat_eq
  rw [BitVec.toNat_ushiftRight, Nat.shiftRight_eq_div_pow]
  have whole : ∀ n (f : Nat → BitVec 8), (∀ i, (f i).toNat % 128 = 0) →
      (join n f).toNat % 128 = 0 ∧
        (join n f).toNat / 128 = (join n fun i => f i >>> 7).toNat := by
    intro n
    induction n with
    | zero => simp [join]
    | succ n ih =>
      intro f high
      obtain ⟨even, rest⟩ := ih (fun i => f (i + 1)) fun i => high (i + 1)
      have here := high 0
      rw [toNat_join_succ, toNat_join_succ, ← rest, BitVec.toNat_ushiftRight,
        Nat.shiftRight_eq_div_pow]
      omega
  exact (whole n f high).2

end Lanes
