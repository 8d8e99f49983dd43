import Jar.Recompiler.Expand

/-! Expanded words decode to what the interpreter decompresses. -/

namespace Jar.Recompiler

/-! ## Fields of encoded words -/

theorem and_upper (x : BitVec 32) : x &&& 0xFFFFF000#32 = x.extractLsb' 12 20 ++ 0#12 := by
  have bit : ∀ i (small : i < 32), (0xFFFFF000#32)[i] = decide (12 ≤ i) := by decide
  ext i small
  rw [BitVec.getElem_and, bit i small]
  grind

section

variable (op : BitVec 5) (f3 : BitVec 3) (f7 : BitVec 7) (rd rs1 rs2 : RegIdx) (imm : BitVec 32)
  (shtype6 shamt : BitVec 6)

theorem fields_encI :
    lengthBits (encI op f3 rd rs1 imm) = 0b11#2 ∧ major (encI op f3 rd rs1 imm) = op ∧
      rdField (encI op f3 rd rs1 imm) = rd ∧ funct3 (encI op f3 rd rs1 imm) = f3 ∧
      rs1Field (encI op f3 rd rs1 imm) = rs1 ∧
      immI (encI op f3 rd rs1 imm) = (imm.extractLsb' 0 12).signExtend 32 := by
  simp (disch := omega) only [lengthBits, major, rdField, funct3, rs1Field, immI, encI,
    BitVec.extractLsb'_append_eq_of_le, BitVec.extractLsb'_append_eq_of_add_le, Nat.reduceSub,
    BitVec.extractLsb'_eq_self, and_self]

theorem fields_encS :
    lengthBits (encS op f3 rs1 rs2 imm) = 0b11#2 ∧ major (encS op f3 rs1 rs2 imm) = op ∧
      funct3 (encS op f3 rs1 rs2 imm) = f3 ∧ rs1Field (encS op f3 rs1 rs2 imm) = rs1 ∧
      rs2Field (encS op f3 rs1 rs2 imm) = rs2 ∧
      immS (encS op f3 rs1 rs2 imm) =
        (imm.extractLsb' 5 7 ++ imm.extractLsb' 0 5).signExtend 32 := by
  simp (disch := omega) only [lengthBits, major, funct3, rs1Field, rs2Field, immS, encS,
    BitVec.extractLsb'_append_eq_of_le, BitVec.extractLsb'_append_eq_of_add_le, Nat.reduceSub,
    BitVec.extractLsb'_eq_self, and_self]

theorem fields_encB :
    lengthBits (encB op f3 rs1 rs2 imm) = 0b11#2 ∧ major (encB op f3 rs1 rs2 imm) = op ∧
      funct3 (encB op f3 rs1 rs2 imm) = f3 ∧ rs1Field (encB op f3 rs1 rs2 imm) = rs1 ∧
      rs2Field (encB op f3 rs1 rs2 imm) = rs2 := by
  simp (disch := omega) only [lengthBits, major, funct3, rs1Field, rs2Field, encB,
    BitVec.extractLsb'_append_eq_of_le, BitVec.extractLsb'_append_eq_of_add_le, Nat.reduceSub,
    BitVec.extractLsb'_eq_self, and_self]

theorem immB_encB :
    immB (encB op f3 rs1 rs2 imm) =
      (imm.extractLsb' 12 1 ++ imm.extractLsb' 11 1 ++ imm.extractLsb' 5 6
        ++ imm.extractLsb' 1 4 ++ 0#1).signExtend 32 := by
  simp (disch := omega) only [immB, encB, BitVec.extractLsb'_append_eq_of_le,
    BitVec.extractLsb'_append_eq_of_add_le, Nat.reduceSub, BitVec.extractLsb'_eq_self]

theorem fields_encJ :
    lengthBits (encJ op rd imm) = 0b11#2 ∧ major (encJ op rd imm) = op ∧
      rdField (encJ op rd imm) = rd := by
  simp (disch := omega) only [lengthBits, major, rdField, encJ,
    BitVec.extractLsb'_append_eq_of_le, BitVec.extractLsb'_append_eq_of_add_le, Nat.reduceSub,
    BitVec.extractLsb'_eq_self, and_self]

theorem immJ_encJ :
    immJ (encJ op rd imm) =
      (imm.extractLsb' 20 1 ++ imm.extractLsb' 12 8 ++ imm.extractLsb' 11 1
        ++ imm.extractLsb' 1 10 ++ 0#1).signExtend 32 := by
  simp (disch := omega) only [immJ, encJ, BitVec.extractLsb'_append_eq_of_le,
    BitVec.extractLsb'_append_eq_of_add_le, Nat.reduceSub, BitVec.extractLsb'_eq_self]

theorem fields_encU :
    lengthBits (encU op rd imm) = 0b11#2 ∧ major (encU op rd imm) = op ∧
      rdField (encU op rd imm) = rd ∧ immU (encU op rd imm) = imm &&& 0xFFFFF000#32 := by
  refine ⟨?_, ?_, ?_, ?_⟩
  · simp (disch := omega) only [lengthBits, encU, BitVec.extractLsb'_append_eq_of_add_le,
      BitVec.extractLsb'_eq_self]
  · simp (disch := omega) only [major, encU, BitVec.extractLsb'_append_eq_of_le,
      BitVec.extractLsb'_append_eq_of_add_le, Nat.reduceSub, BitVec.extractLsb'_eq_self]
  · simp (disch := omega) only [rdField, encU, BitVec.extractLsb'_append_eq_of_le,
      BitVec.extractLsb'_append_eq_of_add_le, Nat.reduceSub, BitVec.extractLsb'_eq_self]
  · rw [immU, and_upper, and_upper]
    simp (disch := omega) only [encU, BitVec.extractLsb'_append_eq_of_le, Nat.reduceSub,
      BitVec.extractLsb'_eq_self]

theorem fields_encR :
    lengthBits (encR op f3 f7 rd rs1 rs2) = 0b11#2 ∧ major (encR op f3 f7 rd rs1 rs2) = op ∧
      rdField (encR op f3 f7 rd rs1 rs2) = rd ∧ funct3 (encR op f3 f7 rd rs1 rs2) = f3 ∧
      rs1Field (encR op f3 f7 rd rs1 rs2) = rs1 ∧ rs2Field (encR op f3 f7 rd rs1 rs2) = rs2 ∧
      funct7 (encR op f3 f7 rd rs1 rs2) = f7 := by
  simp (disch := omega) only [lengthBits, major, rdField, funct3, rs1Field, rs2Field, funct7, encR,
    BitVec.extractLsb'_append_eq_of_le, BitVec.extractLsb'_append_eq_of_add_le, Nat.reduceSub,
    BitVec.extractLsb'_eq_self, and_self]

theorem fields_encShimm6 :
    lengthBits (encShimm6 op f3 shtype6 rd rs1 shamt) = 0b11#2 ∧
      major (encShimm6 op f3 shtype6 rd rs1 shamt) = op ∧
      rdField (encShimm6 op f3 shtype6 rd rs1 shamt) = rd ∧
      funct3 (encShimm6 op f3 shtype6 rd rs1 shamt) = f3 ∧
      rs1Field (encShimm6 op f3 shtype6 rd rs1 shamt) = rs1 ∧
      shamt6 (encShimm6 op f3 shtype6 rd rs1 shamt) = shamt ∧
      shtype (encShimm6 op f3 shtype6 rd rs1 shamt) = shtype6 := by
  simp (disch := omega) only [lengthBits, major, rdField, funct3, rs1Field, shamt6, shtype,
    encShimm6, BitVec.extractLsb'_append_eq_of_le, BitVec.extractLsb'_append_eq_of_add_le,
    Nat.reduceSub, BitVec.extractLsb'_eq_self, and_self]

end

/-! ## Immediates -/

/-- A sign-extended immediate survives a field that holds it. -/
theorem signExtend_extract_signExtend {n : Nat} (x : BitVec n) (k : Nat) (pos : 0 < n)
    (fits : n ≤ k) : ((x.signExtend 32).extractLsb' 0 k).signExtend 32 = x.signExtend 32 := by
  ext i small
  simp [BitVec.getElem_signExtend, BitVec.getElem_extractLsb', BitVec.getLsbD_signExtend,
    BitVec.msb_eq_getLsbD_last]
  grind

/-- A zero-extended immediate survives a field with room for the sign. -/
theorem signExtend_extract_zeroExtend {n : Nat} (x : BitVec n) (k : Nat) (fits : n < k) :
    ((x.zeroExtend 32).extractLsb' 0 k).signExtend 32 = x.zeroExtend 32 := by
  ext i small
  simp [BitVec.getElem_signExtend, BitVec.getElem_extractLsb', BitVec.msb_eq_getLsbD_last]
  grind

theorem immS_parts (imm : BitVec 32) :
    imm.extractLsb' 5 7 ++ imm.extractLsb' 0 5 = imm.extractLsb' 0 12 := by
  ext i small
  simp only [BitVec.getElem_append, BitVec.getElem_extractLsb']
  grind

/-- An even 9-bit offset survives the B-type fields. -/
theorem immB_parts (y : BitVec 8) :
    let imm : BitVec 32 := (y ++ 0#1).signExtend 32
    (imm.extractLsb' 12 1 ++ imm.extractLsb' 11 1 ++ imm.extractLsb' 5 6
      ++ imm.extractLsb' 1 4 ++ 0#1).signExtend 32 = imm := by
  ext i small
  simp [BitVec.getElem_signExtend, BitVec.msb_eq_getLsbD_last]
  grind

/-- An even 12-bit offset survives the J-type fields. -/
theorem immJ_parts (y : BitVec 11) :
    let imm : BitVec 32 := (y ++ 0#1).signExtend 32
    (imm.extractLsb' 20 1 ++ imm.extractLsb' 12 8 ++ imm.extractLsb' 11 1
      ++ imm.extractLsb' 1 10 ++ 0#1).signExtend 32 = imm := by
  ext i small
  simp [BitVec.getElem_signExtend, BitVec.msb_eq_getLsbD_last]
  grind

theorem immJ_encJ_cj (op : BitVec 5) (rd : RegIdx) (h : BitVec 16) :
    immJ (encJ op rd (decodeCjImm h)) = decodeCjImm h := by
  rw [immJ_encJ]
  exact immJ_parts _

theorem immB_encB_cb (op : BitVec 5) (f3 : BitVec 3) (rs1 rs2 : RegIdx) (h : BitVec 16) :
    immB (encB op f3 rs1 rs2 (decodeCbImm h)) = decodeCbImm h := by
  rw [immB_encB]
  exact immB_parts _

theorem immU_cLui (h : BitVec 16) : cLuiImm h &&& 0xFFFFF000#32 = cLuiImm h := by
  rw [and_upper, cLuiImm]
  ext i small
  simp only [BitVec.getElem_signExtend, BitVec.msb_eq_getLsbD_last]
  grind

/-! ## Expansion -/

/-- What a word stands for, with the facts about its opcode that the dispatcher relies on. -/
def Expands (w : BitVec 32) (inst : Inst) : Prop :=
  lengthBits w = 0b11#2 ∧ decode32 w = inst ∧ major w ≠ opMiscMem ∧ major w ≠ opCustom0

/-- An expansion agrees with the interpreter's decompression: both reject, or both accept. -/
def Agrees (expanded : Option (BitVec 32)) (inst : Inst) : Prop :=
  match expanded with
  | some w => Expands w inst
  | none => inst = .reserved

theorem bv3_cases (f : BitVec 3) :
    f = 0#3 ∨ f = 1#3 ∨ f = 2#3 ∨ f = 3#3 ∨ f = 4#3 ∨ f = 5#3 ∨ f = 6#3 ∨ f = 7#3 := by
  revert f
  decide

theorem agrees_q0 (h : BitVec 16) : Agrees (expandRvcQ0 h) (decompressQ0 h) := by
  unfold expandRvcQ0 decompressQ0
  rcases bv3_cases (cFunct3 h) with f | f | f | f | f | f | f | f <;> simp only [f]
  · split
    · rfl
    · simp [Agrees, Expands, fields_encI, decode32, decodeOpImm, signExtend_extract_zeroExtend]
  · rfl
  · simp [Agrees, Expands, fields_encI, decode32, decodeLoad, signExtend_extract_zeroExtend]
  · simp [Agrees, Expands, fields_encI, decode32, decodeLoad, signExtend_extract_zeroExtend]
  · rfl
  · rfl
  · simp [Agrees, Expands, fields_encS, decode32, decodeStore, immS_parts,
      signExtend_extract_zeroExtend]
  · simp [Agrees, Expands, fields_encS, decode32, decodeStore, immS_parts,
      signExtend_extract_zeroExtend]

theorem bv2_cases (f : BitVec 2) : f = 0#2 ∨ f = 1#2 ∨ f = 2#2 ∨ f = 3#2 := by
  revert f
  decide

theorem agrees_q1MiscAlu (h : BitVec 16) :
    Agrees (expandRvcQ1MiscAlu h) (decompressQ1MiscAlu h) := by
  unfold expandRvcQ1MiscAlu decompressQ1MiscAlu
  have bit : ∀ b : BitVec 1, b = 0#1 ∨ b = 1#1 := by decide
  rcases bv2_cases (h.extractLsb' 10 2) with f | f | f | f <;> simp only [f]
  · simp [Agrees, Expands, fields_encShimm6, decode32, decodeOpImm]
  · simp [Agrees, Expands, fields_encShimm6, decode32, decodeOpImm]
  · simp [Agrees, Expands, fields_encI, decode32, decodeOpImm, decodeCiImm6,
      signExtend_extract_signExtend]
  · rcases bit (h.extractLsb' 12 1) with b | b <;>
      rcases bv2_cases (h.extractLsb' 5 2) with f | f | f | f <;> simp only [b, f] <;>
      simp [Agrees, Expands, fields_encR, decode32, decodeOp, decodeOp32]

theorem agrees_q1 (h : BitVec 16) : Agrees (expandRvcQ1 h) (decompressQ1 h) := by
  unfold expandRvcQ1 decompressQ1
  rcases bv3_cases (cFunct3 h) with f | f | f | f | f | f | f | f <;> simp only [f]
  · split <;> simp [Agrees, Expands, fields_encI, decode32, decodeOpImm, decodeCiImm6,
      signExtend_extract_signExtend]
  · split <;> simp [Agrees, Expands, fields_encI, decode32, decodeOpImm32, decodeCiImm6,
      signExtend_extract_signExtend]
  · split <;> simp [Agrees, Expands, fields_encI, decode32, decodeOpImm, decodeCiImm6,
      signExtend_extract_signExtend]
  · split
    · split <;> simp [Agrees, Expands, fields_encI, decode32, decodeOpImm, cAddi16spImm,
        signExtend_extract_signExtend]
    · split
      · rfl
      · split <;> simp [Agrees, Expands, fields_encU, decode32, immU_cLui]
  · exact agrees_q1MiscAlu h
  · simp [Agrees, Expands, fields_encJ, decode32, immJ_encJ_cj]
  · simp [Agrees, Expands, fields_encB, decode32, decodeBranch, immB_encB_cb]
  · simp [Agrees, Expands, fields_encB, decode32, decodeBranch, immB_encB_cb]

theorem agrees_q2 (h : BitVec 16) : Agrees (expandRvcQ2 h) (decompressQ2 h) := by
  unfold expandRvcQ2 decompressQ2
  rcases bv3_cases (cFunct3 h) with f | f | f | f | f | f | f | f <;> simp only [f]
  · split <;> simp [Agrees, Expands, fields_encShimm6, decode32, decodeOpImm]
  · rfl
  · split <;> simp [Agrees, Expands, fields_encI, decode32, decodeLoad,
      signExtend_extract_zeroExtend]
  · split <;> simp [Agrees, Expands, fields_encI, decode32, decodeLoad,
      signExtend_extract_zeroExtend]
  · by_cases target : h.extractLsb' 7 5 = 0#5 <;> by_cases source : h.extractLsb' 2 5 = 0#5 <;>
      by_cases link : h.extractLsb' 12 1 = 0#1 <;>
      simp [target, source, link, Agrees, Expands, fields_encI, fields_encR, decode32, decodeOp]
  · rfl
  · simp [Agrees, Expands, fields_encS, decode32, decodeStore, immS_parts,
      signExtend_extract_zeroExtend]
  · simp [Agrees, Expands, fields_encS, decode32, decodeStore, immS_parts,
      signExtend_extract_zeroExtend]

/-- The expansion of a compressed instruction decodes to its decompression. -/
theorem agrees_expandRvc (h : BitVec 16) : Agrees (expandRvc h) (decompress h) := by
  unfold expandRvc
  split
  · next zero =>
    subst zero
    rfl
  · unfold decompress
    rcases bv2_cases (h.extractLsb' 0 2) with f | f | f | f <;> simp only [f]
    · exact agrees_q0 h
    · exact agrees_q1 h
    · exact agrees_q2 h
    · rfl

end Jar.Recompiler
