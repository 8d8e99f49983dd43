import Mathlib.Data.BitVec
import Mathlib.Algebra.Order.Ring.Nat

/-! Unsigned numbers as byte strings of a fixed width, the lowest byte first. -/

namespace LittleEndian

/-- The bytes of a number, cut off to a width. -/
def encode : Nat → Nat → List (BitVec 8)
  | 0, _ => []
  | width + 1, value => BitVec.ofNat 8 value :: encode width (value / 256)

/-- The number that a byte string stands for. -/
def decode : List (BitVec 8) → Nat
  | [] => 0
  | b :: rest => b.toNat + 256 * decode rest

@[simp]
theorem length_encode (width value : Nat) : (encode width value).length = width := by
  induction width generalizing value with
  | zero => rfl
  | succ width ih => simp [encode, ih]

/-- Decoding recovers the part of a number that the width can hold. -/
theorem decode_encode (width value : Nat) : decode (encode width value) = value % 256 ^ width := by
  induction width generalizing value with
  | zero => simp [encode, decode, Nat.mod_one]
  | succ width ih =>
    rw [encode, decode, ih, BitVec.toNat_ofNat]
    change value % 256 + 256 * (value / 256 % 256 ^ width) = value % 256 ^ (width + 1)
    rw [Nat.pow_succ, Nat.mul_comm (256 ^ width) 256, Nat.mod_mul]

theorem decode_encode_of_lt {width value : Nat} (fits : value < 256 ^ width) :
    decode (encode width value) = value := by
  rw [decode_encode, Nat.mod_eq_of_lt fits]

theorem decode_lt (bytes : List (BitVec 8)) : decode bytes < 256 ^ bytes.length := by
  induction bytes with
  | nil => simp [decode]
  | cons b rest ih =>
    have low := b.isLt
    rw [decode, List.length_cons, Nat.pow_succ]
    omega

theorem encode_decode (bytes : List (BitVec 8)) : encode bytes.length (decode bytes) = bytes := by
  induction bytes with
  | nil => rfl
  | cons b rest ih =>
    have low := b.isLt
    have quotient : (b.toNat + 256 * decode rest) / 256 = decode rest := by omega
    have remainder : BitVec.ofNat 8 (b.toNat + 256 * decode rest) = b := by
      apply BitVec.eq_of_toNat_eq
      rw [BitVec.toNat_ofNat]
      omega
    rw [List.length_cons, decode, encode, quotient, remainder, ih]

end LittleEndian
