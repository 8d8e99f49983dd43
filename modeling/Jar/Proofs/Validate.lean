import Jar.Linker.Validate
import Jar.Proofs.Predecode

/-! What the linker accepts against what the executor decodes: the registers of 4-byte instructions
are as checked, but 2-byte instructions and undefined encodings pass. -/

namespace Jar

def Inst.operands : Inst → List RegIdx
  | .opReg _ rd rs1 rs2 => [rd, rs1, rs2]
  | .load _ rd rs1 _ | .opImm _ rd rs1 _ | .shiftImm _ rd rs1 _ | .unary _ rd rs1
  | .jalr rd rs1 _ => [rd, rs1]
  | .store _ rs1 rs2 _ | .branch _ rs1 rs2 _ => [rs1, rs2]
  | .lui rd _ | .auipc rd _ | .jal rd _ => [rd]
  | .fence | .fenceI | .trap | .ecallJar | .ecalli _ | .fallthrough | .reserved => []

@[simp]
theorem Inst.operands_reserved : Inst.operands .reserved = [] := rfl

theorem Inst.usesReservedReg_eq (inst : Inst) :
    inst.usesReservedReg = inst.operands.any regIsReserved := by
  cases inst <;> simp [usesReservedReg, operands, Bool.or_assoc]

namespace Linker

/-- The instructions that a producer may emit: they are defined and name no forbidden register. -/
def clean : Inst → Bool
  | .reserved => false
  | inst => inst.operands.all fun r => !forbiddenReg r

@[simp]
theorem clean_reserved : clean .reserved = false := rfl

theorem clean_eq {inst : Inst} (defined : inst ≠ .reserved) :
    clean inst = inst.operands.all fun r => !forbiddenReg r := by
  cases inst <;> first | rfl | exact absurd rfl defined

theorem clean_one {inst : Inst} {a : RegIdx} (names : inst.operands = [a])
    (defined : inst ≠ .reserved) : clean inst = !forbiddenReg a := by
  simp [clean_eq defined, names]

theorem clean_two {inst : Inst} {a b : RegIdx} (names : inst.operands = [a, b])
    (defined : inst ≠ .reserved) : clean inst = (!forbiddenReg a && !forbiddenReg b) := by
  simp [clean_eq defined, names]

section

variable (rd rs1 rs2 : RegIdx) (imm : BitVec 32)

@[simp]
theorem clean_load (op : LoadOp) :
    clean (.load op rd rs1 imm) = (!forbiddenReg rd && !forbiddenReg rs1) :=
  clean_two rfl (by simp)

@[simp]
theorem clean_store (op : StoreOp) :
    clean (.store op rs1 rs2 imm) = (!forbiddenReg rs1 && !forbiddenReg rs2) :=
  clean_two rfl (by simp)

@[simp]
theorem clean_opImm (op : ImmOp) :
    clean (.opImm op rd rs1 imm) = (!forbiddenReg rd && !forbiddenReg rs1) :=
  clean_two rfl (by simp)

@[simp]
theorem clean_shiftImm (op : ShiftImmOp) (shamt : BitVec 6) :
    clean (.shiftImm op rd rs1 shamt) = (!forbiddenReg rd && !forbiddenReg rs1) :=
  clean_two rfl (by simp)

@[simp]
theorem clean_unary (op : UnaryOp) :
    clean (.unary op rd rs1) = (!forbiddenReg rd && !forbiddenReg rs1) :=
  clean_two rfl (by simp)

@[simp]
theorem clean_opReg (op : RegOp) :
    clean (.opReg op rd rs1 rs2) =
      (!forbiddenReg rd && (!forbiddenReg rs1 && !forbiddenReg rs2)) := by
  rw [clean_eq (by simp)]
  simp [Inst.operands]

@[simp]
theorem clean_lui : clean (.lui rd imm) = !forbiddenReg rd :=
  clean_one rfl (by simp)

@[simp]
theorem clean_auipc : clean (.auipc rd imm) = !forbiddenReg rd :=
  clean_one rfl (by simp)

@[simp]
theorem clean_jal : clean (.jal rd imm) = !forbiddenReg rd :=
  clean_one rfl (by simp)

@[simp]
theorem clean_jalr : clean (.jalr rd rs1 imm) = (!forbiddenReg rd && !forbiddenReg rs1) :=
  clean_two rfl (by simp)

@[simp]
theorem clean_branch (op : BranchOp) :
    clean (.branch op rs1 rs2 imm) = (!forbiddenReg rs1 && !forbiddenReg rs2) :=
  clean_two rfl (by simp)

end

theorem forbiddenReg_of_reserved : ∀ r : RegIdx, regIsReserved r → forbiddenReg r := by decide

/-- An instruction of the executor is in the subset, where only the zero halfword is reserved. -/
def InSubset (inst : Inst) (bytes : List Byte) : Prop :=
  (∀ r ∈ inst.operands, forbiddenReg r = false) ∧ (inst = .reserved → bytes.take 2 = [0, 0])

/-- The check of the executor reserves no clean instruction. -/
theorem inSubset_iff (inst : Inst) (bytes : List Byte) :
    InSubset (reserveIfReservedReg inst) bytes ↔
      clean inst ∨ reserveIfReservedReg inst = .reserved ∧ bytes.take 2 = [0, 0] := by
  rw [InSubset, reserveIfReservedReg]
  split
  next reserved =>
    -- A reserved register is forbidden, so the instruction is not clean.
    obtain ⟨r, member, isReserved⟩ := List.any_eq_true.mp (inst.usesReservedReg_eq ▸ reserved)
    have dirty : clean inst = false := by
      by_cases same : inst = .reserved
      · rw [same, clean_reserved]
      · rw [clean_eq same, List.all_eq_false]
        exact ⟨r, member, by simp [forbiddenReg_of_reserved r isReserved]⟩
    simp [dirty]
  next =>
    by_cases same : inst = .reserved
    · simp [same]
    · simp [same, clean_eq]

/-! ## Halfwords -/

/-- The encodings of quadrant 0 in the subset. -/
def allowedQ0 (h : BitVec 16) : Bool :=
  match cFunct3 h with
  | 0b000#3 => h.extractLsb' 5 8 ≠ 0
  | 0b010#3 | 0b011#3 | 0b110#3 | 0b111#3 => true
  | _ => false

/-- The encodings of quadrant 1 in the subset. -/
def allowedQ1 (h : BitVec 16) : Bool :=
  let rd : RegIdx := h.extractLsb' 7 5
  match cFunct3 h with
  | 0b000#3 => !forbiddenReg rd
  | 0b001#3 | 0b010#3 => rd ≠ 0 ∧ !forbiddenReg rd
  | 0b011#3 => rd ≠ 0 ∧ !forbiddenReg rd ∧ h.extractLsb' 12 1 ++ h.extractLsb' 2 5 ≠ 0
  | 0b100#3 => ¬ (h.extractLsb' 10 3 = 0b111#3 ∧ h.extractLsb' 6 1 = 1#1)
  | _ => true

/-- The encodings of quadrant 2 in the subset. -/
def allowedQ2 (h : BitVec 16) : Bool :=
  let rd : RegIdx := h.extractLsb' 7 5
  let rs2 : RegIdx := h.extractLsb' 2 5
  match cFunct3 h with
  | 0b000#3 | 0b010#3 | 0b011#3 => rd ≠ 0 ∧ !forbiddenReg rd
  | 0b100#3 => rd ≠ 0 ∧ !forbiddenReg rd ∧ !forbiddenReg rs2
  | 0b110#3 | 0b111#3 => !forbiddenReg rs2
  | _ => false

/-- The compressed encodings of the subset: defined, with allowed registers in the 5-bit fields. -/
def allowedHalf (h : BitVec 16) : Bool :=
  match h.extractLsb' 0 2 with
  | 0b00#2 => allowedQ0 h
  | 0b01#2 => allowedQ1 h
  | 0b10#2 => allowedQ2 h
  | _ => false

@[simp]
theorem forbiddenReg_creg : ∀ r : BitVec 3, forbiddenReg (creg r) = false := by decide

theorem cAddi4spnImm_eq_zero_iff (h : BitVec 16) : cAddi4spnImm h = 0#10 ↔ h.extractLsb' 5 8 = 0#8 := by
  have fields : h.extractLsb' 5 8 =
      h.extractLsb' 11 2 ++ h.extractLsb' 7 4 ++ h.extractLsb' 6 1 ++ h.extractLsb' 5 1 := by
    ext i
    grind
  rw [cAddi4spnImm, fields]
  generalize h.extractLsb' 11 2 = a, h.extractLsb' 7 4 = b, h.extractLsb' 6 1 = c,
    h.extractLsb' 5 1 = d
  revert a b c d
  decide

theorem cAddi16spImm_eq_zero_iff (h : BitVec 16) :
    cAddi16spImm h = 0#32 ↔ h.extractLsb' 12 1 ++ h.extractLsb' 2 5 = 0#6 := by
  have fields : h.extractLsb' 2 5 =
      h.extractLsb' 6 1 ++ h.extractLsb' 5 1 ++ h.extractLsb' 3 2 ++ h.extractLsb' 2 1 := by
    ext i
    grind
  rw [cAddi16spImm, fields]
  generalize h.extractLsb' 12 1 = a, h.extractLsb' 6 1 = b, h.extractLsb' 5 1 = c,
    h.extractLsb' 3 2 = d, h.extractLsb' 2 1 = e
  revert a b c d e
  decide

theorem cLuiImm_eq_zero_iff (h : BitVec 16) :
    cLuiImm h = 0#32 ↔ h.extractLsb' 12 1 ++ h.extractLsb' 2 5 = 0#6 := by
  rw [cLuiImm]
  generalize h.extractLsb' 12 1 = a, h.extractLsb' 2 5 = b
  revert a b
  decide

theorem clean_decompressQ0 (h : BitVec 16) : clean (decompressQ0 h) = allowedQ0 h := by
  have sp : forbiddenReg 2#5 = false := rfl
  unfold decompressQ0 allowedQ0
  generalize cFunct3 h = f3
  split
  case h_1 => by_cases zero : h.extractLsb' 5 8 = 0#8 <;> simp [cAddi4spnImm_eq_zero_iff, zero, sp]
  all_goals simp

theorem clean_decompressQ1MiscAlu (h : BitVec 16) :
    clean (decompressQ1MiscAlu h) =
      decide (¬ (h.extractLsb' 10 3 = 0b111#3 ∧ h.extractLsb' 6 1 = 1#1)) := by
  have kind : h.extractLsb' 10 3 = h.extractLsb' 12 1 ++ h.extractLsb' 10 2 := by
    ext i
    grind
  have high : h.extractLsb' 6 1 = (h.extractLsb' 5 2).extractLsb' 1 1 := by
    ext i
    grind
  rw [kind, high]
  unfold decompressQ1MiscAlu
  generalize h.extractLsb' 12 1 = a, h.extractLsb' 10 2 = b, h.extractLsb' 5 2 = c
  split
  iterate 3
    · simp only [clean_shiftImm, clean_opImm, forbiddenReg_creg]
      revert a c
      decide
  next other1 other2 other3 =>
    have last : b = 0b11#2 := by
      revert b
      decide
    rw [last]
    split <;> simp only [clean_opReg, clean_reserved, forbiddenReg_creg]
    case h_7 =>
      simp only [imp_false] at *
      revert a c
      decide
    all_goals rfl

theorem clean_decompressQ1 (h : BitVec 16) : clean (decompressQ1 h) = allowedQ1 h := by
  have zero : forbiddenReg 0#5 = false := rfl
  have sp : forbiddenReg 2#5 = false := rfl
  unfold decompressQ1 allowedQ1
  generalize cFunct3 h = f3
  split
  case h_1 => by_cases x0 : h.extractLsb' 7 5 = 0#5 <;> simp [x0, zero]
  case h_4 =>
    by_cases x0 : h.extractLsb' 7 5 = 0#5 <;>
      by_cases x2 : h.extractLsb' 7 5 = 2#5 <;> 
      by_cases imm : h.extractLsb' 12 1 ++ h.extractLsb' 2 5 = 0#6 <;>
      simp [x0, x2, imm, cAddi16spImm_eq_zero_iff, cLuiImm_eq_zero_iff, sp]
  case h_5 => simp [clean_decompressQ1MiscAlu]
  all_goals by_cases x0 : h.extractLsb' 7 5 = 0#5 <;> simp [x0, zero]

theorem clean_decompressQ2 (h : BitVec 16) : clean (decompressQ2 h) = allowedQ2 h := by
  have zero : forbiddenReg 0#5 = false := rfl
  have ra : forbiddenReg 1#5 = false := rfl
  have sp : forbiddenReg 2#5 = false := rfl
  unfold decompressQ2 allowedQ2
  generalize cFunct3 h = f3
  split
  case h_4 =>
    by_cases x0 : h.extractLsb' 7 5 = 0#5 <;> by_cases s0 : h.extractLsb' 2 5 = 0#5 <;>
      by_cases b : h.extractLsb' 12 1 = 0#1 <;> simp [x0, s0, b, zero, ra]
  all_goals by_cases x0 : h.extractLsb' 7 5 = 0#5 <;> simp [x0, sp]

theorem clean_decompress (h : BitVec 16) : clean (decompress h) = allowedHalf h := by
  unfold decompress allowedHalf
  generalize h.extractLsb' 0 2 = quadrant
  split
  · exact clean_decompressQ0 h
  · exact clean_decompressQ1 h
  · exact clean_decompressQ2 h
  · simp

/-! ## Words -/

/-- The function fields of the defined OP words. -/
def opFunctions : List (BitVec 7 × BitVec 3) :=
  [(0b0000000, 0), (0b0000000, 1), (0b0000000, 2), (0b0000000, 3), (0b0000000, 4), (0b0000000, 5),
    (0b0000000, 6), (0b0000000, 7),
    (0b0000001, 0), (0b0000001, 1), (0b0000001, 2), (0b0000001, 3), (0b0000001, 4), (0b0000001, 5),
    (0b0000001, 6), (0b0000001, 7),
    (0b0100000, 0), (0b0100000, 4), (0b0100000, 5), (0b0100000, 6), (0b0100000, 7),
    (0b0000101, 4), (0b0000101, 5), (0b0000101, 6), (0b0000101, 7),
    (0b0110000, 1), (0b0110000, 5), (0b0010000, 2), (0b0010000, 4), (0b0010000, 6),
    (0b0100100, 1), (0b0100100, 5), (0b0010100, 1), (0b0110100, 1), (0b0000111, 5), (0b0000111, 7)]

/-- The function fields of the defined OP-32 words. -/
def op32Functions : List (BitVec 7 × BitVec 3) :=
  [(0b0000000, 0), (0b0000000, 1), (0b0000000, 5),
    (0b0000001, 0), (0b0000001, 4), (0b0000001, 5), (0b0000001, 6), (0b0000001, 7),
    (0b0100000, 0), (0b0100000, 5), (0b0110000, 1), (0b0110000, 5), (0b0000100, 0),
    (0b0010000, 2), (0b0010000, 4), (0b0010000, 6)]

/-- The defined shifts and unary operations among the OP-IMM words. -/
def definedShift (f3 : BitVec 3) (kind : BitVec 6) (rs2 : RegIdx) : Bool :=
  (f3, kind) ∈ ([(1, 0b000000), (1, 0b010010), (1, 0b001010), (1, 0b011010), (5, 0b000000),
      (5, 0b010000), (5, 0b010010), (5, 0b011000)] : List (BitVec 3 × BitVec 6)) ||
    (f3, kind, rs2) ∈ ([(1, 0b011000, 0), (1, 0b011000, 1), (1, 0b011000, 2), (1, 0b011000, 4),
      (1, 0b011000, 5), (5, 0b001010, 7), (5, 0b011010, 24)] : List (BitVec 3 × BitVec 6 × RegIdx))

/-- The defined shifts and unary operations among the OP-IMM-32 words. -/
def definedShift32 (f3 : BitVec 3) (f7 : BitVec 7) (rs2 : RegIdx) : Bool :=
  (f3, f7) ∈ ([(1, 0b0000000), (1, 0b0000100), (5, 0b0000000), (5, 0b0100000), (5, 0b0110000)] :
      List (BitVec 3 × BitVec 7)) ||
    (f3, f7, rs2) ∈ ([(1, 0b0110000, 0), (1, 0b0110000, 1), (1, 0b0110000, 2)] :
      List (BitVec 3 × BitVec 7 × RegIdx))

/-- The 4-byte encodings that the executor defines. -/
def definedWord (w : BitVec 32) : Bool :=
  match w.extractLsb' 0 7 with
  | 0b0000011#7 => funct3 w != 7
  | 0b0100011#7 => funct3 w < 4
  | 0b0010011#7 => funct3 w != 1 && funct3 w != 5 || definedShift (funct3 w) (shtype w) (rs2Field w)
  | 0b0011011#7 => funct3 w == 0 || definedShift32 (funct3 w) (funct7 w) (rs2Field w)
  | 0b0110011#7 =>
    opFunctions.contains (funct7 w, funct3 w) ||
      funct7 w == 0b0000100 && funct3 w == 4 && rs2Field w == 0
  | 0b0111011#7 => op32Functions.contains (funct7 w, funct3 w)
  | 0b0110111#7 | 0b0010111#7 | 0b1101111#7 => true
  | 0b1100111#7 => funct3 w == 0
  | 0b1100011#7 => funct3 w != 2 && funct3 w != 3
  | 0b0001111#7 => funct3 w < 2
  | 0b0001011#7 => funct3 w < 3 || funct3 w == 4
  | _ => false

theorem seq_eq_ok {ε : Type} {x y : Except ε Unit} :
    (do x; y) = .ok () ↔ x = .ok () ∧ y = .ok () := by
  cases x <;> simp [bind, Except.bind]

theorem checkReg_eq_ok {names : Bool} {i : Nat} {name : String} {r : RegIdx} :
    checkReg names i name r = .ok () ↔ (names → forbiddenReg r = false) := by
  unfold checkReg
  cases names <;> cases forbidden : forbiddenReg r <;>
    simp [pure, Except.pure, throw, throwThe, MonadExceptOf.throw]

theorem regs_of_validateWord {i : Nat} {w : BitVec 32} (accepted : validateWord i w = .ok ()) :
    ((regFieldsFor (w.extractLsb' 0 7)).rd → forbiddenReg (rdField w) = false) ∧
      ((regFieldsFor (w.extractLsb' 0 7)).rs1 → forbiddenReg (rs1Field w) = false) ∧
      ((regFieldsFor (w.extractLsb' 0 7)).rs2 → forbiddenReg (rs2Field w) = false) := by
  obtain ⟨-, rest⟩ := seq_eq_ok.mp accepted
  obtain ⟨rd, rest⟩ := seq_eq_ok.mp rest
  obtain ⟨rs1, rs2⟩ := seq_eq_ok.mp rest
  exact ⟨checkReg_eq_ok.mp rd, checkReg_eq_ok.mp rs1, checkReg_eq_ok.mp rs2⟩

theorem isSome_decodeLoad : ∀ f3, (decodeLoad f3).isSome = (f3 != 7) := by decide

theorem isSome_decodeStore : ∀ f3, (decodeStore f3).isSome = decide (f3 < 4) := by decide

theorem isSome_decodeBranch : ∀ f3, (decodeBranch f3).isSome = (f3 != 2 && f3 != 3) := by decide

theorem isSome_decodeOp : ∀ f7 f3, (decodeOp f7 f3).isSome = opFunctions.contains (f7, f3) := by
  decide +kernel

theorem isSome_decodeOp32 :
    ∀ f7 f3, (decodeOp32 f7 f3).isSome = op32Functions.contains (f7, f3) := by
  decide +kernel

theorem clean_decodeMiscMem : ∀ f3, clean (decodeMiscMem f3) = decide (f3 < 2) := by decide

theorem clean_decodeCustom0 (w : BitVec 32) :
    clean (decodeCustom0 w) = (decide (funct3 w < 3) || funct3 w == 4) := by
  unfold decodeCustom0
  generalize funct3 w = f3, immI w = imm
  split
  case h_5 =>
    simp only [imp_false] at *
    revert f3
    decide
  all_goals rfl

theorem clean_getD {T : Type} (o : Option T) {f : T → Inst} (all : ∀ op, clean (f op) = true) :
    clean ((o.map f).getD .reserved) = o.isSome := by
  cases o with
  | none => rfl
  | some op => exact all op

section

variable {w : BitVec 32}

theorem clean_decodeOpImm (rd : forbiddenReg (rdField w) = false)
    (rs1 : forbiddenReg (rs1Field w) = false) :
    clean (decodeOpImm w) = (funct3 w != 1 && funct3 w != 5 ||
      definedShift (funct3 w) (shtype w) (rs2Field w)) := by
  unfold decodeOpImm
  generalize funct3 w = f3, shtype w = kind, rs2Field w = rs2
  split
  case h_7 => split <;> (try split) <;> simp_all [definedShift]
  case h_8 => split <;> (try split) <;> simp_all [definedShift]
  case h_9 =>
    have total : ∀ f3 : BitVec 3, f3 = 0 ∨ f3 = 1 ∨ f3 = 2 ∨ f3 = 3 ∨ f3 = 4 ∨ f3 = 5 ∨ f3 = 6 ∨
        f3 = 7 := by decide
    rcases total f3 with rfl | rfl | rfl | rfl | rfl | rfl | rfl | rfl <;> contradiction
  all_goals simp [rd, rs1]

theorem clean_decodeOpImm32 (rd : forbiddenReg (rdField w) = false)
    (rs1 : forbiddenReg (rs1Field w) = false) :
    clean (decodeOpImm32 w) =
      (funct3 w == 0 || definedShift32 (funct3 w) (funct7 w) (rs2Field w)) := by
  unfold decodeOpImm32
  generalize funct3 w = f3, funct7 w = f7, rs2Field w = rs2
  split
  case h_1 => simp [rd, rs1]
  case h_2 => split <;> (try split) <;> simp_all [definedShift32]
  case h_3 => split <;> simp_all [definedShift32]
  case h_4 => simp_all [definedShift32]

theorem clean_decode32 {i : Nat} (length : lengthBits w = 0b11#2)
    (accepted : validateWord i w = .ok ()) : clean (decode32 w) = definedWord w := by
  have low : w.extractLsb' 0 7 = major w ++ 0b11#2 := by
    rw [← length]
    simp only [major, lengthBits]
    ext i
    grind
  obtain ⟨rd, rs1, rs2⟩ := regs_of_validateWord accepted
  simp only [decode32, length, ne_eq, not_true_eq_false, if_false]
  unfold definedWord
  rw [low] at rd rs1 rs2 ⊢
  split <;> rename_i opcode
  case h_1 =>
    rw [opcode] at rd rs1 ⊢
    exact (clean_getD _ (by simp [rd rfl, rs1 rfl])).trans (isSome_decodeLoad _)
  case h_2 =>
    rw [opcode] at rs1 rs2 ⊢
    exact (clean_getD _ (by simp [rs1 rfl, rs2 rfl])).trans (isSome_decodeStore _)
  case h_3 =>
    rw [opcode] at rd rs1 ⊢
    exact clean_decodeOpImm (rd rfl) (rs1 rfl)
  case h_4 =>
    rw [opcode] at rd rs1 ⊢
    exact clean_decodeOpImm32 (rd rfl) (rs1 rfl)
  case h_5 =>
    rw [opcode] at rd rs1 rs2 ⊢
    change _ = (opFunctions.contains (funct7 w, funct3 w) ||
      funct7 w == 0b0000100 && funct3 w == 4 && rs2Field w == 0)
    rw [← isSome_decodeOp]
    cases decodeOp (funct7 w) (funct3 w) with
    | some op => simp [rd rfl, rs1 rfl, rs2 rfl]
    | none =>
      simp only [apply_ite clean, clean_unary, rd rfl, rs1 rfl, clean_reserved]
      by_cases packed : funct7 w = 0b0000100#7 ∧ funct3 w = 0b100#3 ∧ rs2Field w = 0
      · simp [packed]
      · rw [if_neg packed, Option.isSome_none, Bool.false_or, eq_comm, ← Bool.not_eq_true]
        simpa [and_assoc] using packed
  case h_6 =>
    rw [opcode] at rd rs1 rs2 ⊢
    exact (clean_getD _ (by simp [rd rfl, rs1 rfl, rs2 rfl])).trans (isSome_decodeOp32 _ _)
  case h_10 =>
    rw [opcode] at rd rs1 ⊢
    simp only [apply_ite clean, clean_jalr, rd rfl, rs1 rfl, clean_reserved]
    change _ = (funct3 w == 0)
    grind
  case h_11 =>
    rw [opcode] at rs1 rs2 ⊢
    exact (clean_getD _ (by simp [rs1 rfl, rs2 rfl])).trans (isSome_decodeBranch _)
  case h_12 =>
    rw [opcode]
    exact clean_decodeMiscMem _
  case h_13 =>
    rw [opcode]
    exact clean_decodeCustom0 w
  case h_14 =>
    -- No defined opcode has another major part.
    have part : ∀ op : BitVec 5, (op ++ 0b11#2).extractLsb' 2 5 = op := by decide
    split
    case h_14 => rfl
    all_goals
      next same =>
        have op := (part _).symm.trans (congrArg (·.extractLsb' 2 5) same)
        simp only [BitVec.reduceExtractLsb'] at op
        contradiction
  all_goals
    rw [opcode] at rd ⊢
    simp [rd rfl]

end

/-! ## Code -/

/-- The encoding at the start of some bytes is in the subset: the zero halfword, an allowed
halfword, or a defined word. -/
def allowedEncoding : List Byte → Bool
  | b0 :: b1 :: rest =>
    let lo16 := b1 ++ b0
    if lo16.extractLsb' 0 2 ≠ 0b11#2 then lo16 = 0 || allowedHalf lo16
    else
      match rest with
      | b2 :: b3 :: _ => definedWord (b3 ++ b2 ++ b1 ++ b0)
      | _ => true
  | _ => true

theorem append_eq_zero_iff (b0 b1 : Byte) : b1 ++ b0 = 0#16 ↔ b0 = 0 ∧ b1 = 0 := by
  constructor
  · intro zero
    have low : (b1 ++ b0).extractLsb' 0 8 = b0 := by
      ext i
      grind
    have high : (b1 ++ b0).extractLsb' 8 8 = b1 := by
      ext i
      grind
    rw [zero] at low high
    exact ⟨low.symm, high.symm⟩
  · rintro ⟨rfl, rfl⟩
    rfl

theorem inSubset_half (b0 b1 : Byte) (rest : List Byte) :
    InSubset (reserveIfReservedReg (decompress (b1 ++ b0))) (b0 :: b1 :: rest) ↔
      b1 ++ b0 = 0#16 ∨ allowedHalf (b1 ++ b0) := by
  rw [inSubset_iff, clean_decompress, append_eq_zero_iff]
  by_cases zero : b0 = 0 ∧ b1 = 0
  · obtain ⟨rfl, rfl⟩ := zero
    exact iff_of_true (.inr ⟨rfl, rfl⟩) (.inl ⟨rfl, rfl⟩)
  · have bytes : (b0 :: b1 :: rest).take 2 ≠ [0, 0] := by simpa using zero
    rw [or_iff_left fun reserved => bytes reserved.2, or_iff_right zero]

theorem inSubset_word {i : Nat} {b0 b1 b2 b3 : Byte} {rest : List Byte}
    (length : b0.extractLsb' 0 2 = 0b11#2)
    (accepted : validateWord i (b3 ++ b2 ++ b1 ++ b0) = .ok ()) :
    InSubset (reserveIfReservedReg (decode32 (b3 ++ b2 ++ b1 ++ b0))) (b0 :: b1 :: rest) ↔
      definedWord (b3 ++ b2 ++ b1 ++ b0) := by
  have full : lengthBits (b3 ++ b2 ++ b1 ++ b0) = 0b11#2 := by
    rw [← length, lengthBits]
    ext i
    grind
  rw [inSubset_iff, clean_decode32 full accepted, or_iff_left]
  rintro ⟨-, zero⟩
  injection zero with first
  rw [first] at length
  exact absurd length (by decide)

theorem validateFrom_step {i : Nat} {bytes : List Byte} {inst : Inst} {len : Nat}
    (accepted : validateFrom i bytes = .ok ()) (decoded : decode bytes = some (inst, len)) :
    (InSubset inst bytes ↔ allowedEncoding bytes) ∧
      validateFrom (i + len) (bytes.drop len) = .ok () := by
  rcases bytes with _ | ⟨b0, _ | ⟨b1, rest⟩⟩
  case nil => simp [decode] at decoded
  case cons.nil => simp [decode] at decoded
  case cons.cons =>
    have low : (b1 ++ b0).extractLsb' 0 2 = b0.extractLsb' 0 2 := by
      ext i
      grind
    unfold decode at decoded
    unfold validateFrom at accepted
    unfold allowedEncoding
    simp only [low] at decoded accepted ⊢
    by_cases half : b0.extractLsb' 0 2 ≠ 0b11#2
    · rw [if_pos half] at decoded accepted ⊢
      cases decoded
      refine ⟨?_, (seq_eq_ok.mp accepted).2⟩
      rw [inSubset_half]
      simp
    · rw [if_neg half] at decoded accepted ⊢
      rcases rest with _ | ⟨b2, _ | ⟨b3, rest⟩⟩
      · cases decoded
      · cases decoded
      · cases decoded
        obtain ⟨word, rest⟩ := seq_eq_ok.mp accepted
        exact ⟨inSubset_word (not_not.mp half) word, rest⟩

/-- The accepted instructions are in the subset exactly if their encodings are. -/
theorem inSubset_iff_allowedEncoding {pc : Nat} {bytes : List Byte}
    (accepted : validateFrom pc bytes = .ok ()) :
    ∀ i ∈ instructions pc bytes,
      (InSubset i.inst (bytes.drop (i.pc - pc)) ↔ allowedEncoding (bytes.drop (i.pc - pc))) := by
  intro i member
  induction length : bytes.length using Nat.strongRecOn generalizing pc bytes with
  | ind n ih =>
    cases decoded : decode bytes with
    | none =>
      rw [instructions_of_decode_none decoded] at member
      exact absurd member List.not_mem_nil
    | some result =>
      obtain ⟨inst, len⟩ := result
      obtain ⟨first, rest⟩ := validateFrom_step accepted decoded
      obtain ⟨lengths, within⟩ := decode_length decoded
      rw [instructions_of_decode decoded] at member
      rcases List.mem_cons.mp member with rfl | later
      · simpa using first
      · have after := le_pc_of_mem_instructions later
        have tail := ih _ (by rw [List.length_drop]; omega) rest later rfl
        rwa [List.drop_drop, show len + (i.pc - (pc + len)) = i.pc - pc by omega] at tail

/-- The executor decodes only instructions of the producer's subset. -/
def ProducerSubset (code : List Byte) : Prop :=
  ∀ i ∈ instructions 0 code, InSubset i.inst (code.drop i.pc)

/-- Accepted code is in the producer's subset exactly if its 2-byte instructions are defined and
name no forbidden register in a 5-bit field, and its 4-byte instructions are defined. -/
theorem producerSubset_iff {code : List Byte} (accepted : validatePvm2 code = .ok ()) :
    ProducerSubset code ↔ ∀ i ∈ instructions 0 code, allowedEncoding (code.drop i.pc) :=
  forall₂_congr fun i member => inSubset_iff_allowedEncoding accepted i member

/-- Code of `c.li x10, 0` and `addi x10, x10, 1`. -/
theorem producerSubset_iff_addi :
    validatePvm2 [0x01, 0x45, 0x13, 0x05, 0x15, 0x00] = .ok () ∧
    ProducerSubset [0x01, 0x45, 0x13, 0x05, 0x15, 0x00] :=
  ⟨rfl, (producerSubset_iff rfl).mpr (by decide)⟩

/-- The check accepts `c.mv x3, x10`, which names `x3`. -/
theorem producerSubset_fails_mv :
    validatePvm2 [0xAA, 0x81] = .ok () ∧ ¬ ProducerSubset [0xAA, 0x81] := by
  refine ⟨rfl, fun subset => ?_⟩
  have registers := (subset _ List.mem_cons_self).1 3 List.mem_cons_self
  exact absurd registers (by decide)

end Linker

end Jar
