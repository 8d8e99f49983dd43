import Jar.Proofs.Fitting
import Jar.Proofs.LookAhead

/-! What each dispatcher selects for the instruction that the interpreter decodes: a lowering
routine and a row of the cost table. -/

namespace Jar

open Recompiler

/-- The register that an arithmetic instruction writes and its value, by the registers before. -/
def Inst.result : Inst → Option (RegIdx × (Regs → Word64))
  | .opImm op rd rs1 imm => some (rd, fun regs => op.eval (regRead regs rs1) imm)
  | .shiftImm op rd rs1 shamt => some (rd, fun regs => op.eval (regRead regs rs1) shamt)
  | .unary op rd rs1 => some (rd, fun regs => op.eval (regRead regs rs1))
  | .opReg op rd rs1 rs2 =>
    some (rd, fun regs => op.eval (regRead regs rs1) (regRead regs rs2))
  | _ => none

/-- An instruction on which the recompiler returns. The exceptions are a pair whose second
instruction names a spilled register, and a jump to an offset far behind the code: the label of
an offset is five more, and the label table starts with 1024 entries more than there are offsets. -/
def Inst.Compilable (codeLen pc : Nat) (rest : List Byte) : Inst → Prop
  | .jal _ imm | .branch _ _ _ imm => 5 + (jumpTarget pc imm).toNat < codeLen + 1024
  | .load .ld rd rs1 _ =>
    -- An instruction that names a spilled register itself is fused with none.
    regIsSpilled rd = true ∨ regIsSpilled rs1 = true ∨ ∀ t ∈ loadTrailer rd rs1 rest,
      ∀ x ∈ [t.rd, t.rs1, t.rs2], regIsSpilled x = false
  | .lui rd _ =>
    regIsSpilled rd = true ∨ ∀ t ∈ luiTrailer rd rest, regIsSpilled t.2 = false
  | _ => True

instance (codeLen pc : Nat) (rest : List Byte) (inst : Inst) :
    Decidable (inst.Compilable codeLen pc rest) := by
  unfold Inst.Compilable
  split <;> infer_instance

namespace Recompiler

open X86 Lower

/-- A MISC-MEM word that is no fence: the interpreter decodes it as reserved. -/
def IsReservedFence (w : BitVec 32) : Prop :=
  major w = opMiscMem ∧ funct3 w ≠ 0b000#3 ∧ funct3 w ≠ 0b001#3

instance (w : BitVec 32) : Decidable (IsReservedFence w) := by
  unfold IsReservedFence
  infer_instance

def opInst (rd rs1 rs2 : RegIdx) (f3 : BitVec 3) (f7 : BitVec 7) : Inst :=
  match decodeOp f7 f3 with
  | some op => .opReg op rd rs1 rs2
  | none =>
    if f7 = 0b0000100#7 ∧ f3 = 0b100#3 ∧ rs2 = 0 then .unary .zextH rd rs1 else .reserved


section

variable (env : CodeEnv) (pc : Nat) (rest : List Byte) (w : BitVec 32)

/-- The routine that lowers an instruction on its own. -/
inductive Lowers : Inst → Lower Unit → Prop where
  | arithmetic {inst : Inst} {rd : RegIdx} {value : Regs → Word64} {body : Lower Unit}
      (result : inst.result = some (rd, value)) (yields : ∀ st, Yields st rd value body) :
      Lowers inst body
  /-- An unsigned comparison may read the carry of the addition before it. -/
  | sltu {rd rs1 rs2 : RegIdx} (operand : IsOperand rd) (operand1 : IsOperand rs1)
      (operand2 : IsOperand rs2) :
      Lowers (.opReg .sltu rd rs1 rs2) (rvSltRr rd rs1 rs2 false pc)
  | divide {rd rs1 rs2 : RegIdx} (operand : IsOperand rd) (operand1 : IsOperand rs1)
      (operand2 : IsOperand rs2) {op : RegOp} {signed remainder is32 : Bool}
      (known : op = divOp signed remainder is32) :
      Lowers (.opReg op rd rs1 rs2) (rvDivRem rd rs1 rs2 signed remainder is32 pc)
  | load (op : LoadOp) {rd rs1 : RegIdx} (operand : IsOperand rd) (operand1 : IsOperand rs1)
      (imm : BitVec 32) :
      Lowers (.load op rd rs1 imm) (rvLoad rd rs1 imm op.width op.signed pc)
  | store (op : StoreOp) {rs1 rs2 : RegIdx} (operand1 : IsOperand rs1) (operand2 : IsOperand rs2)
      (imm : BitVec 32) : Lowers (.store op rs1 rs2 imm) (rvStore rs1 rs2 imm op.width pc)
  | lui {rd : RegIdx} (operand : IsOperand rd) (imm : BitVec 32) :
      Lowers (.lui rd imm) (lowerLui rd imm pc)
  | auipc {rd : RegIdx} (operand : IsOperand rd) (imm : BitVec 32) :
      Lowers (.auipc rd imm) (rvAuipc env rd imm pc)
  | ends {inst : Inst} {body : Lower Unit} (terminator : isTerminator inst = true)
      (fits : ∀ base table low, 5 ≤ low → env.codeLen + 1024 ≤ table →
        inst.Compilable env.codeLen pc rest → Fitting base table low body) : Lowers inst body

def IsMul (rd rs1 rs2 : RegIdx) : Prop :=
  major w = opOp ∧ funct7 w = 0b0000001#7 ∧ funct3 w = 0b000#3 ∧ rdField w = rd ∧
    rs1Field w = rs1 ∧ rs2Field w = rs2

/-- The routine that lowers an instruction together with the one after it. -/
inductive Fuses : Inst → Inst → Lower Unit → Prop where
  | load {rd rs1 : RegIdx} (operand : IsOperand rd) (operand1 : IsOperand rs1) {t : Trailer}
      (found : loadTrailer rd rs1 rest = some t) (imm : BitVec 32) :
      Fuses (.load .ld rd rs1 imm) (.opReg t.op.regOp t.rd t.rs1 t.rs2)
        (fusedLoad rd rs1 imm t pc)
  | product {rd rs1 rs2 hi : RegIdx} {signed : Bool} {lo' hi' a b : HostSlot}
      (mul : IsMul w rd rs1 rs2) (found : mulTrailer rd rs1 rs2 rest = some (signed, hi))
      (slots : mulSlots rd rs1 rs2 hi = some (lo', hi', a, b)) :
      Fuses (.opReg .mul rd rs1 rs2) (.opReg (if signed then .mulh else .mulhu) hi rs1 rs2)
        (fusedMul signed lo' hi' a b)
  | lui {rd other : RegIdx} (operand : IsOperand rd) {t : Trailer}
      (found : luiTrailer rd rest = some (t, other)) (imm : BitVec 32) :
      Fuses (.lui rd imm) (.opReg t.op.regOp t.rd t.rs1 t.rs2) (fusedLui rd other imm pc)

def fenceArm : Dispatch Compiled := do
  let _ ← feedGasRv env .fence 0 0 0
  return ⟨false, false, 0⟩

/-- The dispatcher of a word whose registers live in host registers, against the decoded
instruction. -/
inductive Dispatched : Inst → Dispatch Compiled → Prop where
  | single {inst : Inst} {body : Lower Unit} {kind : RvKind} {a b c : RegIdx}
      (lowers : Lowers env pc rest inst body) (row : rvOpMetadata inst = (kind, a, b, c))
      (preserveCf : Bool) : Dispatched inst (compileArm env preserveCf body kind a b c)
  | pair {inst : Inst} {op : RegOp} {rd rs1 rs2 a b c : RegIdx} {body : Lower Unit}
      {kind kind' : RvKind} {len : Nat}
      (fuses : Fuses pc rest w inst (.opReg op rd rs1 rs2) body)
      (row : rvOpMetadata inst = (kind, a, b, c)) (row' : op.kind = kind')
      (decoded : decode rest = some (.opReg op rd rs1 rs2, len)) (preserveCf : Bool) :
      Dispatched inst (do
        body
        let _ ← feedGasRv env kind a b c
        let _ ← feedGasRv env kind' rs1 rs2 rd
        return ⟨false, preserveCf, len⟩)
  | reserved : Dispatched .reserved (compileReserved env pc)
  | fence {inst : Inst} (fence : inst = .fence ∨ inst = .fenceI) :
      Dispatched inst (fenceArm env)
  /-- Every function field of the opcode is taken for a fence. -/
  | reservedFence (other : IsReservedFence w) : Dispatched .reserved (fenceArm env)

end

section

variable {env : CodeEnv} {pc : Nat} {rest : List Byte} {w w' : BitVec 32} {rd rs1 rs2 : RegIdx}

theorem dispatched_reserved {arm : Dispatch Compiled} (code : arm = compileReserved env pc) :
    Dispatched env pc rest w .reserved arm :=
  code ▸ .reserved

/-! ## Loads and stores -/

theorem dispatched_load (operand : IsOperand rd) (operand1 : IsOperand rs1) (f3 : BitVec 3) :
    Dispatched env pc rest w (((decodeLoad f3).map (.load · rd rs1 (immI w'))).getD .reserved)
      (compileLoad env rd rs1 f3 w' pc rest) := by
  unfold compileLoad
  rw [loadShape_eq]
  cases decodeLoad f3 with
  | none => exact .reserved
  | some op =>
    simp only [Option.map_some, Option.getD_some]
    split
    · next t found =>
      split at found
      · next wide =>
        obtain rfl : op = .ld := by cases op <;> first | rfl | cases wide
        obtain ⟨decoded, kind⟩ := loadTrailer_decode found
        exact .pair (.load operand operand1 found _) rfl kind decoded _
      · cases found
    · exact .single (.load op operand operand1 _) rfl _

theorem dispatched_store (operand1 : IsOperand rs1) (operand2 : IsOperand rs2) (f3 : BitVec 3) :
    Dispatched env pc rest w (((decodeStore f3).map (.store · rs1 rs2 (immS w'))).getD .reserved)
      (compileStore env rs1 rs2 f3 w' pc) := by
  unfold compileStore
  rw [storeShape_eq]
  cases decodeStore f3 with
  | none => exact .reserved
  | some op => exact .single (.store op operand1 operand2 _) rfl _

/-! ## Operations with an immediate -/

section

variable {inst : Inst} {value : Regs → Word64} {body : Lower Unit} {kind : RvKind} {a b c : RegIdx}

theorem dispatched_yields (yields : ∀ st, Yields st rd value body)
    (result : inst.result = some (rd, value)) (row : rvOpMetadata inst = (kind, a, b, c))
    (preserveCf : Bool) :
    Dispatched env pc rest w inst (compileArm env preserveCf body kind a b c) :=
  .single (.arithmetic result yields) row preserveCf

/-- An arm whose routine records nothing. -/
theorem dispatched_computes (operand : IsOperand rd) (computes : ∀ st, Computes st rd value body)
    (result : inst.result = some (rd, value)) (row : rvOpMetadata inst = (kind, a, b, c))
    (preserveCf : Bool) :
    Dispatched env pc rest w inst (compileArm env preserveCf body kind a b c) :=
  dispatched_yields (fun st => (computes st).yields operand) result row preserveCf

end

theorem shamt_mod (shamt : BitVec 6) : shamt.toNat % 64 = shamt.toNat :=
  Nat.mod_eq_of_lt shamt.isLt

section

variable (operand : IsOperand (rdField w)) (operand1 : IsOperand (rs1Field w))

include operand operand1

theorem dispatched_shiftLeft (f : funct3 w = 0b001#3) :
    Dispatched env pc rest w (decodeOpImm w)
      (compileShiftLeft env (rdField w) (rs1Field w) w pc) := by
  have src1 := operand1.isSrc
  unfold decodeOpImm compileShiftLeft unary64
  simp only [f]
  generalize shtype w = s
  generalize rs2Field w = r
  split
  case h_1 =>
    refine dispatched_yields (fun _ => yields_lowerSlli operand operand1 _ pc) ?_ rfl _
    simp [Inst.result, ShiftImmOp.eval, ShiftOp.eval, ShiftOp.is32, ShiftOp.host, Shift.value,
      shamt_mod]
  case h_5 =>
    split
    case h_6 =>
      exact dispatched_reserved (by simp only [*, compileUnary])
    all_goals
      exact dispatched_computes operand (fun _ => computes_rvUnary operand src1 _ pc) rfl rfl _
  case h_6 =>
    exact dispatched_reserved (by simp only [*])
  all_goals
    exact dispatched_computes operand (fun _ => computes_rvBitImm operand src1 _ _ pc) rfl rfl _

theorem dispatched_shiftRight (f : funct3 w = 0b101#3) :
    Dispatched env pc rest w (decodeOpImm w)
      (compileShiftRight env (rdField w) (rs1Field w) w pc) := by
  have src1 := operand1.isSrc
  unfold decodeOpImm compileShiftRight
  simp only [f]
  generalize shtype w = s
  generalize rs2Field w = r
  split
  case h_1 | h_2 | h_4 =>
    refine dispatched_computes operand
      (fun _ => computes_rvShiftImm operand src1 _ (by decide) pc) ?_ rfl _
    simp [Inst.result, ShiftImmOp.eval, ShiftOp.eval, ShiftOp.is32, ShiftOp.host, Shift.value,
      shamt_mod]
  case h_3 =>
    exact dispatched_computes operand (fun _ => computes_rvBitImm operand src1 _ _ pc) rfl rfl _
  case h_5 | h_6 =>
    split
    · exact dispatched_computes operand (fun _ => computes_rvUnary operand src1 _ pc) rfl rfl _
    · exact .reserved
  case h_7 =>
    exact dispatched_reserved (by simp only [*])

theorem dispatched_opImm :
    Dispatched env pc rest w (decodeOpImm w)
      (compileOpImm env (rdField w) (rs1Field w) (funct3 w) w pc) := by
  have src1 := operand1.isSrc
  rcases bv3_cases (funct3 w) with f | f | f | f | f | f | f | f
  case inr.inl =>
    simp only [compileOpImm, f]
    exact dispatched_shiftLeft operand operand1 f
  case inr.inr.inr.inr.inr.inl =>
    simp only [compileOpImm, f]
    exact dispatched_shiftRight operand operand1 f
  all_goals simp only [compileOpImm, decodeOpImm, f]
  case inl => exact dispatched_yields (fun _ => yields_lowerAddi operand operand1 _ pc) rfl rfl _
  case inr.inr.inl | inr.inr.inr.inl =>
    exact dispatched_computes operand (fun _ => computes_rvSltImm operand src1 _ _ pc) rfl rfl _
  all_goals
    exact dispatched_computes operand (fun _ => computes_rvAluImm operand src1 _ _ pc) rfl rfl _

theorem dispatched_opImm32 :
    Dispatched env pc rest w (decodeOpImm32 w)
      (compileOpImm32 env (rdField w) (rs1Field w) (funct3 w) w pc) := by
  have src1 := operand1.isSrc
  unfold decodeOpImm32 compileOpImm32 unary32
  generalize funct7 w = f7
  have field : w.extractLsb' 20 5 = rs2Field w := rfl
  rw [field]
  generalize rs2Field w = r
  rcases bv3_cases (funct3 w) with f | f | f | f | f | f | f | f <;> simp only [f]
  case inl =>
    exact dispatched_computes operand (fun _ => computes_rvAluImm operand src1 _ _ pc) rfl rfl _
  case inr.inl =>
    split
    case h_1 =>
      exact dispatched_computes operand
        (fun _ => computes_rvShiftImm operand src1 _ (by decide) pc) rfl rfl _
    case h_2 =>
      exact dispatched_computes operand (fun _ => computes_rvSlliuw operand src1 _ pc) rfl rfl _
    case h_3 =>
      split
      case h_4 =>
        exact dispatched_reserved (by simp only [*, compileUnary])
      all_goals
        exact dispatched_computes operand (fun _ => computes_rvUnary operand src1 _ pc) rfl rfl _
    case h_4 =>
      exact dispatched_reserved (by simp only [*])
  case inr.inr.inr.inr.inr.inl =>
    split
    case h_4 =>
      exact dispatched_reserved (by simp only [*])
    all_goals
      exact dispatched_computes operand
        (fun _ => computes_rvShiftImm operand src1 _ (by decide) pc) rfl rfl _
  all_goals exact .reserved

end

/-! ## Operations on two registers -/

section

variable (operand : IsOperand rd) (operand1 : IsOperand rs1) (operand2 : IsOperand rs2)
  (f3 : BitVec 3) (f7 : BitVec 7)

include operand operand1 operand2

theorem dispatched_opSingle :
    Dispatched env pc rest w (opInst rd rs1 rs2 f3 f7)
      (compileOpSingle env rd rs1 rs2 f3 f7 pc) := by
  have src1 := operand1.isSrc
  have src2 := operand2.isSrc
  unfold compileOpSingle
  split
  case h_1 =>
    exact dispatched_yields (fun _ => yields_lowerAdd operand operand1 operand2 pc) rfl rfl _
  case h_3 | h_7 | h_8 | h_26 | h_27 =>
    exact dispatched_computes operand (fun _ => computes_rvShiftRr operand src1 src2 _ pc) rfl rfl _
  case h_4 =>
    exact dispatched_computes operand
      (fun _ => computes_rvSltRr operand src1 src2 (.inl rfl) pc) rfl rfl _
  case h_5 => exact .single (.sltu operand operand1 operand2) rfl _
  case h_12 | h_13 | h_14 =>
    exact dispatched_computes operand
      (fun _ => computes_rvMulh operand src1 src2 (by decide) pc) rfl rfl _
  case h_15 | h_16 | h_17 | h_18 =>
    refine .single (.divide operand operand1 operand2 ?_) rfl _
    rfl
  case h_28 | h_29 | h_30 =>
    exact dispatched_yields (fun _ => yields_lowerShadd operand operand1 operand2 _ pc) rfl rfl _
  case h_31 | h_32 | h_33 | h_34 =>
    exact dispatched_computes operand (fun _ => computes_rvBitRr operand src1 src2 _ pc) rfl rfl _
  case h_35 | h_36 =>
    refine dispatched_computes operand (fun _ => computes_rvCzero operand src1 src2 _ pc) ?_ rfl _
    simp [Inst.result, opInst, decodeOp, RegOp.eval]
  case h_37 =>
    by_cases zero : rs2 = 0
    · subst zero
      exact dispatched_computes operand (fun _ => computes_rvUnary operand src1 _ pc) rfl rfl _
    · simp only [opInst, decodeOp, zero, and_false, if_false]
      exact .reserved
  case h_38 =>
    next notPack =>
    unfold opInst decodeOp
    simp only [*]
    rw [if_neg fun pack => notPack pack.1 pack.2.1]
    exact .reserved
  all_goals
    exact dispatched_computes operand (fun _ => computes_rvAluRr operand src1 src2 _ pc) rfl rfl _

theorem dispatched_op32 :
    Dispatched env pc rest w (((decodeOp32 f7 f3).map (.opReg · rd rs1 rs2)).getD .reserved)
      (compileOp32 env rd rs1 rs2 f3 f7 pc) := by
  have src1 := operand1.isSrc
  have src2 := operand2.isSrc
  unfold compileOp32
  split
  case h_3 | h_4 | h_5 | h_11 | h_12 =>
    exact dispatched_computes operand (fun _ => computes_rvShiftRr operand src1 src2 _ pc) rfl rfl _
  case h_7 | h_8 | h_9 | h_10 =>
    refine .single (.divide operand operand1 operand2 ?_) rfl _
    rfl
  case h_13 =>
    exact dispatched_computes operand (fun _ => computes_rvAdduw operand src1 src2 pc) rfl rfl _
  case h_14 | h_15 | h_16 =>
    exact dispatched_computes operand
      (fun _ => computes_rvShadd operand src1 src2 _ true pc) rfl rfl _
  case h_17 =>
    unfold decodeOp32
    simp only [*]
    exact .reserved
  all_goals
    exact dispatched_computes operand (fun _ => computes_rvAluRr operand src1 src2 _ pc) rfl rfl _

end

theorem dispatched_op (opcode : major w = opOp) (operand : IsOperand (rdField w))
    (operand1 : IsOperand (rs1Field w)) (operand2 : IsOperand (rs2Field w)) :
    Dispatched env pc rest w (opInst (rdField w) (rs1Field w) (rs2Field w) (funct3 w) (funct7 w))
      (compileOp env (rdField w) (rs1Field w) (rs2Field w) (funct3 w) (funct7 w) pc rest) := by
  unfold compileOp
  simp only
  split
  · next fused =>
    split at fused
    · next isMul =>
      obtain ⟨⟨signed, hi⟩, found, slots⟩ := Option.bind_eq_some_iff.mp fused
      obtain ⟨quad, slots, result⟩ := Option.bind_eq_some_iff.mp slots
      cases result
      rw [isMul.1, isMul.2]
      exact .pair (.product ⟨opcode, isMul.1, isMul.2, rfl, rfl, rfl⟩ found slots) rfl
        (by cases signed <;> rfl) (mulTrailer_decode found slots).1 _
    · cases fused
  · exact dispatched_opSingle operand operand1 operand2 _ _

/-! ## Constants, jumps and environment calls -/

theorem dispatched_lui (operand : IsOperand rd) :
    Dispatched env pc rest w (.lui rd (immU w')) (compileLui env rd w' pc rest) := by
  unfold compileLui
  split
  · next t other found =>
    obtain ⟨decoded, kind⟩ := luiTrailer_decode found
    exact .pair (.lui operand found _) rfl kind decoded _
  · exact .single (.lui operand _) rfl _

theorem dispatched_branch (operand1 : IsOperand rs1) (operand2 : IsOperand rs2) (f3 : BitVec 3) :
    Dispatched env pc rest w (((decodeBranch f3).map (.branch · rs1 rs2 (immB w'))).getD .reserved)
      (compileBranch env rs1 rs2 f3 w' pc) := by
  have arm (op : BranchOp) (cc : Cc) : Dispatched env pc rest w (.branch op rs1 rs2 (immB w'))
      (compileArm env false (rvBranch env rs1 rs2 (immB w') cc pc) .branch rs1 rs2 0) :=
    .single (.ends rfl fun _ _ _ room code compilable => by
      exact fitting_rvBranch room code operand1 operand2 compilable cc) rfl false
  obtain rfl | rfl | rfl | rfl | rfl | rfl | rfl | rfl := bv3_cases f3
  case inr.inr.inl | inr.inr.inr.inl => exact .reserved
  all_goals exact arm _ _

theorem dispatched_custom0 :
    Dispatched env pc rest w (decodeCustom0 w) (compileCustom0 env (funct3 w) w pc) := by
  unfold decodeCustom0 compileCustom0
  rcases bv3_cases (funct3 w) with f | f | f | f | f | f | f | f <;> simp only [f]
  case inl | inr.inl | inr.inr.inl =>
    exact .single (.ends rfl fun _ _ _ room _ _ => fitting_rvExitAt room _ _ _) rfl _
  case inr.inr.inr.inr.inl => exact .single (.ends rfl fun _ _ _ _ _ _ => fitting_pure ()) rfl _
  all_goals exact .reserved

theorem dispatched_fence (opcode : major w = opMiscMem) :
    Dispatched env pc rest w (decodeMiscMem (funct3 w)) (fenceArm env) := by
  unfold decodeMiscMem
  split
  · exact .fence (.inl rfl)
  · exact .fence (.inr rfl)
  · next zero one => exact .reservedFence ⟨opcode, zero, one⟩

/-! ## Words -/

/-- Every word whose registers live in host registers. -/
theorem dispatched_opcode (length : lengthBits w = 0b11#2) (plain : PlainWord w) (instLen : Nat) :
    Dispatched env pc rest w (decode32 w) (compileOpcode env w pc instLen rest) := by
  have operands : ∀ x ∈ (opcodeFields (major w)).regs w, IsOperand x :=
    fun x member => (plain x member).isOperand
  simp only [decode32, compileOpcode, length, ne_eq, not_true_eq_false, if_false]
  split
  case h_12 opcode =>
    simp only [opcode]
    exact dispatched_fence opcode
  case h_13 opcode =>
    simp only [opcode]
    exact dispatched_custom0
  case h_14 =>
    exact dispatched_reserved (by simp only [*])
  all_goals
    rename_i opcode
    simp only [opcode] at operands ⊢
    simp [opcodeFields, Fields.regs] at operands
  case h_1 => exact dispatched_load operands.1 operands.2 _
  case h_2 => exact dispatched_store operands.1 operands.2 _
  case h_3 => exact dispatched_opImm operands.1 operands.2
  case h_4 => exact dispatched_opImm32 operands.1 operands.2
  case h_5 => exact dispatched_op opcode operands.1 operands.2.1 operands.2.2
  case h_6 => exact dispatched_op32 operands.1 operands.2.1 operands.2.2 _ _
  case h_7 => exact dispatched_lui operands
  case h_8 => exact .single (.auipc operands _) rfl _
  case h_9 =>
    exact .single (.ends rfl fun _ _ _ room code compilable => by
      exact fitting_rvJal room code operands compilable _) rfl _
  case h_10 =>
    split
    · exact .single (.ends rfl fun _ _ _ room _ _ =>
        fitting_rvJalr room operands.1 operands.2 _ pc _) rfl _
    · exact .reserved
  case h_11 => exact dispatched_branch operands.1 operands.2 _

end

end Recompiler

end Jar
