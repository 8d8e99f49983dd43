import Jar.Exec.Alu

/-! The low half of a word under the operations of the arithmetic instructions. -/

namespace Jar

theorem low32_eq_setWidth (a : Word64) : low32 a = a.setWidth 32 := by
  unfold low32
  ext i
  simp

@[simp]
theorem low32_sext32 (a : BitVec 32) : low32 (sext32 a) = a := by
  simp only [low32_eq_setWidth, sext32]
  ext i within
  have wide : i < 64 := by omega
  simp [BitVec.getElem_signExtend, within, wide]

@[simp]
theorem low32_zeroExtend (a : BitVec 32) : low32 (a.zeroExtend 64) = a := by
  simp [low32_eq_setWidth]

@[simp]
theorem low32_zext32 (a : Word64) : low32 (zext32 a) = low32 a := low32_zeroExtend _

@[simp]
theorem low32_zero : low32 0#64 = 0#32 := by decide

theorem sext32_eq_iff (a b : BitVec 32) : sext32 a = sext32 b ↔ a = b := by
  constructor
  · intro same
    simpa using congrArg low32 same
  · rintro rfl
    rfl

@[simp]
theorem low32_add (a b : Word64) : low32 (a + b) = low32 a + low32 b := by
  simp [low32_eq_setWidth, BitVec.setWidth_add]

@[simp]
theorem low32_neg (a : Word64) : low32 (-a) = -low32 a := by
  simp [low32_eq_setWidth, BitVec.setWidth_neg_of_le]

end Jar
