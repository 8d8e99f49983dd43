import Jar.Recompiler.Dispatch

/-! The register fields of raw words, and the check of the word against the check of the decoded
instruction. -/

namespace Jar.Recompiler

open X86 Lower

def opcodeFields (op : BitVec 5) : Fields :=
  match op with
  | 0b01100#5 | 0b01110#5 => ⟨true, true, true⟩
  | 0b00000#5 | 0b00100#5 | 0b00110#5 | 0b11001#5 => ⟨true, true, false⟩
  | 0b01000#5 | 0b11000#5 => ⟨false, true, true⟩
  | 0b01101#5 | 0b00101#5 | 0b11011#5 => ⟨true, false, false⟩
  | _ => ⟨false, false, false⟩

theorem any_regs (fields : Fields) (w : BitVec 32) (pred : RegIdx → Bool) :
    (fields.regs w).any pred =
      (fields.rd && pred (rdField w) || fields.rs1 && pred (rs1Field w)
        || fields.rs2 && pred (rs2Field w)) := by
  obtain ⟨rd, rs1, rs2⟩ := fields
  cases rd <;> cases rs1 <;> cases rs2 <;> simp [Fields.regs, Bool.or_assoc]

theorem wordRegClassHits_eq {w : BitVec 32} (length : lengthBits w = 0b11#2)
    (pred : RegIdx → Bool) :
    wordRegClassHits w pred = ((opcodeFields (major w)).regs w).any pred := by
  have low : w.extractLsb' 0 7 = major w ++ 0b11#2 := by
    rw [← length]
    simp only [major, lengthBits]
    ext i
    grind
  simp only [any_regs, wordRegClassHits, low]
  generalize major w = op
  generalize pred (rdField w) = rd, pred (rs1Field w) = rs1, pred (rs2Field w) = rs2
  revert op rd rs1 rs2
  decide

/-- A decoded instruction names the registers in the fields of its opcode. -/
theorem usesReservedReg_decode32 {w : BitVec 32} (length : lengthBits w = 0b11#2) :
    decode32 w = .reserved ∨
      (decode32 w).usesReservedReg = ((opcodeFields (major w)).regs w).any regIsReserved := by
  rw [any_regs]
  simp only [decode32, length, ne_eq, not_true_eq_false, if_false]
  split
  case h_1 opcode =>
    simp only [opcode, opcodeFields]
    cases decodeLoad (funct3 w) <;> simp [Inst.usesReservedReg]
  case h_2 opcode =>
    simp only [opcode, opcodeFields]
    cases decodeStore (funct3 w) <;> simp [Inst.usesReservedReg]
  case h_3 opcode =>
    simp only [opcode, opcodeFields]
    unfold decodeOpImm
    (repeat' split) <;> simp [Inst.usesReservedReg]
  case h_4 opcode =>
    simp only [opcode, opcodeFields]
    unfold decodeOpImm32
    (repeat' split) <;> simp [Inst.usesReservedReg]
  case h_5 opcode =>
    simp only [opcode, opcodeFields]
    cases decodeOp (funct7 w) (funct3 w) with
    | some op => simp [Inst.usesReservedReg]
    | none =>
      -- The second source field of `zext.h` is `x0`, which is not reserved.
      have zero : regIsReserved 0#5 = false := rfl
      simp only
      split
      · next packed => simp [Inst.usesReservedReg, packed.2.2, zero]
      · simp
  case h_6 opcode =>
    simp only [opcode, opcodeFields]
    cases decodeOp32 (funct7 w) (funct3 w) <;> simp [Inst.usesReservedReg]
  case h_10 opcode =>
    simp only [opcode, opcodeFields]
    split <;> simp [Inst.usesReservedReg]
  case h_11 opcode =>
    simp only [opcode, opcodeFields]
    cases decodeBranch (funct3 w) <;> simp [Inst.usesReservedReg]
  case h_12 opcode =>
    simp only [opcode, opcodeFields]
    unfold decodeMiscMem
    split <;> simp [Inst.usesReservedReg]
  case h_13 opcode =>
    simp only [opcode, opcodeFields]
    unfold decodeCustom0
    split <;> simp [Inst.usesReservedReg]
  case h_14 => exact .inl rfl
  all_goals
    next opcode => simp [opcode, opcodeFields, Inst.usesReservedReg]
/-- The check of the raw word reserves what the check of the decoded instruction does. -/
theorem reserveIfReservedReg_decode32 {w : BitVec 32} (length : lengthBits w = 0b11#2) :
    reserveIfReservedReg (decode32 w) =
      if wordUsesReservedReg w then .reserved else decode32 w := by
  rw [wordUsesReservedReg, wordRegClassHits_eq length, reserveIfReservedReg]
  obtain reserved | same := usesReservedReg_decode32 length
  · simp [reserved]
  · rw [same]

/-! ## Replacing a register field -/

section

variable (w : BitVec 32) (r : RegIdx)

theorem fields_setRdField :
    lengthBits (setRdField w r) = lengthBits w ∧ major (setRdField w r) = major w ∧
      rdField (setRdField w r) = r ∧ funct3 (setRdField w r) = funct3 w ∧
      rs1Field (setRdField w r) = rs1Field w ∧ rs2Field (setRdField w r) = rs2Field w ∧
      funct7 (setRdField w r) = funct7 w := by
  simp only [setRdField, lengthBits, major, rdField, funct3, rs1Field, rs2Field, funct7]
  refine ⟨?_, ?_, ?_, ?_, ?_, ?_, ?_⟩ <;> ext i <;> grind

theorem fields_setRs1Field :
    lengthBits (setRs1Field w r) = lengthBits w ∧ major (setRs1Field w r) = major w ∧
      rdField (setRs1Field w r) = rdField w ∧ funct3 (setRs1Field w r) = funct3 w ∧
      rs1Field (setRs1Field w r) = r ∧ rs2Field (setRs1Field w r) = rs2Field w ∧
      funct7 (setRs1Field w r) = funct7 w := by
  simp only [setRs1Field, lengthBits, major, rdField, funct3, rs1Field, rs2Field, funct7]
  refine ⟨?_, ?_, ?_, ?_, ?_, ?_, ?_⟩ <;> ext i <;> grind

theorem fields_setRs2Field :
    lengthBits (setRs2Field w r) = lengthBits w ∧ major (setRs2Field w r) = major w ∧
      rdField (setRs2Field w r) = rdField w ∧ funct3 (setRs2Field w r) = funct3 w ∧
      rs1Field (setRs2Field w r) = rs1Field w ∧ rs2Field (setRs2Field w r) = r ∧
      funct7 (setRs2Field w r) = funct7 w := by
  simp only [setRs2Field, lengthBits, major, rdField, funct3, rs1Field, rs2Field, funct7]
  refine ⟨?_, ?_, ?_, ?_, ?_, ?_, ?_⟩ <;> ext i <;> grind

end

/-- A rewritten word has the opcode and the function fields of the word, and its used register
fields replaced. -/
theorem fields_rewriteFields (fields : Fields) (donors : List (RegIdx × RegIdx)) (w : BitVec 32) :
    let w' := rewriteFields fields donors w
    lengthBits w' = lengthBits w ∧ major w' = major w ∧ funct3 w' = funct3 w ∧
      funct7 w' = funct7 w ∧
      rdField w' = (if fields.rd then donorOf donors (rdField w) else rdField w) ∧
      rs1Field w' = (if fields.rs1 then donorOf donors (rs1Field w) else rs1Field w) ∧
      rs2Field w' = (if fields.rs2 then donorOf donors (rs2Field w) else rs2Field w) := by
  obtain ⟨rd, rs1, rs2⟩ := fields
  cases rd <;> cases rs1 <;> cases rs2 <;>
    simp [rewriteFields, fields_setRdField, fields_setRs1Field, fields_setRs2Field]

/-! ## Donors -/

/-- A register that can stand in for a spilled one, given those already in use. -/
def Donor (used : List RegIdx) (c : RegIdx) : Prop := c ∈ donorCandidates ∧ c ∉ used

theorem pickDonor_eq_some {used : List RegIdx} {c : RegIdx} (picked : pickDonor used = some c) :
    Donor used c :=
  ⟨List.mem_of_find?_eq_some picked, by simpa using List.find?_some picked⟩

/-- The donors of a word: one for each spilled register it names, all different. -/
theorem pickDonors_eq_some {regs : List RegIdx} {donors : List (RegIdx × RegIdx)}
    (picked : pickDonors regs = some donors) :
    (3 ∉ regs ∧ 4 ∉ regs ∧ donors = []) ∨
      (3 ∈ regs ∧ 4 ∉ regs ∧ ∃ c, donors = [(3, c)] ∧ Donor regs c) ∨
      (3 ∉ regs ∧ 4 ∈ regs ∧ ∃ c, donors = [(4, c)] ∧ Donor regs c) ∨
      (3 ∈ regs ∧ 4 ∈ regs ∧ ∃ c c', donors = [(3, c), (4, c')] ∧ Donor regs c ∧
        Donor regs c' ∧ c ≠ c') := by
  unfold pickDonors at picked
  by_cases three : 3#5 ∈ regs <;> by_cases four : 4#5 ∈ regs <;> simp [three, four] at picked
  · simp only [Option.bind_eq_some_iff, Option.map_eq_some_iff] at picked
    obtain ⟨_, ⟨c, first, rfl⟩, _, ⟨c', second, rfl⟩, result⟩ := picked
    cases result
    have used := pickDonor_eq_some second
    simp only [Donor, List.map_cons, List.map_nil, List.mem_append, List.mem_singleton,
      not_or] at used
    exact .inr (.inr (.inr ⟨three, four, c, c', rfl, pickDonor_eq_some first,
      ⟨used.1, used.2.1⟩, Ne.symm used.2.2⟩))
  · obtain ⟨c, first, rfl⟩ := picked
    exact .inr (.inl ⟨three, four, c, rfl, pickDonor_eq_some first⟩)
  · obtain ⟨c, first, rfl⟩ := picked
    exact .inr (.inr (.inl ⟨three, four, c, rfl, pickDonor_eq_some first⟩))
  · exact .inl ⟨three, four, picked⟩

end Jar.Recompiler
