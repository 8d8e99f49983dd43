import Jar.Proofs.AluLowering

/-! The code of the shifts, the rotations and the shifted additions, and the values it computes. -/

namespace Jar.Recompiler

open X86 Lower

/-! ## Host shifts -/

/-- What a host shift leaves in its register. -/
def shiftValue (size : Size) (op : Shift) (a : Word64) (count : Nat) : Word64 :=
  match size with
  | .q64 => op.value a (count % 64)
  | .d32 => (op.value (low32 a) (count % 32)).zeroExtend 64

theorem shift_mk (size : Size) (op : Shift) {d : Reg} (ordinary : d ≠ .rsp) (count : Nat)
    (m : Machine) :
    m.shift size op d count =
      ⟨Function.update m.regs d (shiftValue size op (m.regs d) count), .unknown, m.stack, m.ctx,
        m.mem⟩ := by
  cases size <;> simp [Machine.shift, Machine.setReg32, setReg_mk ordinary, shiftValue]

/-- A shift by a register restores RCX, through which the count goes. -/
theorem exec_emitShiftByReg (env : Env) (size : Size) (op : Shift) {d count : Reg} (host : IsHost d)
    (ordinary : count ≠ .rsp) (m : Machine) :
    ∃ m', execAll env (emitShiftByReg size op d count) m = some m' ∧
      Writes d (shiftValue size op (m.regs d) (m.regs count).toNat) m m' := by
  obtain ⟨notScratch, notRsp, -⟩ := host
  unfold emitShiftByReg
  split
  · next same =>
    subst same
    simp [execAll, exec, shift_mk, notRsp]
    exact writes_mk (fun r other _ => by simp [other]) (by simp)
  · next notRcx =>
    split
    · next same =>
      -- The shifted value comes off the stack into the scratch register.
      subst same
      simp [execAll, exec, shift_mk, Machine.push, Machine.pop, setReg_mk]
      refine writes_mk (fun r other apart => ?_) (by simp [ordinary])
      by_cases isRsp : r = .rsp
      · simp [isRsp]
      · simp [isRsp, other, apart]
    · next notDst =>
      simp [execAll, exec, shift_mk, Machine.push, Machine.pop, setReg_mk, notRsp]
      refine writes_mk (fun r other _ => ?_) (by simp [notDst, notRsp, ordinary])
      by_cases isRsp : r = .rsp
      · simp [isRsp, Ne.symm notRsp]
      · by_cases isRcx : r = .rcx
        · simp [isRcx]
        · simp [isRsp, isRcx, other]

/-! ## Shifts -/

section

variable {st : LowerState} {rd rs1 rs2 : RegIdx} {r1 r2 : Option Reg}

def ShiftOp.eval (op : ShiftOp) (a : Word64) (count : Nat) : Word64 :=
  if op.is32 then sext32 (op.host.value (low32 a) (count % 32)) else op.host.value a (count % 64)

/-- The code of a shift once its operands are loaded. -/
def shiftTail (op : ShiftOp) (d : Reg) (code : Size → List Instr) : List Instr :=
  if op.is32 then narrowCode op d ++ code .d32 ++ [.extend .movsxd d d] else code .q64

theorem low32_movzx (a : Word64) : low32 (Extend.movzx32.value a) = low32 a := low32_zext32 a

/-- Narrowing keeps the low half, all that a 32-bit shift reads. -/
theorem exec_narrowCode (env : Env) (op : ShiftOp) {d : Reg} (host : IsHost d) (m : Machine)
    (code : List Instr) :
    ∃ m', execAll env (narrowCode op d ++ code) m = execAll env code m' ∧
      low32 (m'.regs d) = low32 (m.regs d) ∧ Keeps [d] m m' := by
  unfold narrowCode
  split
  · refine ⟨_, rfl, ?_, (Keeps.refl _ m).setReg host.2.1 (by simp) _ m.flags⟩
    simp [low32_movzx]
  · exact ⟨m, rfl, rfl, .refl _ m⟩

theorem exec_shiftTail (env : Env) (op : ShiftOp) {d : Reg} (host : IsHost d) {count : Nat}
    {code : Size → List Instr} (m : Machine)
    (narrow : ∀ m₁, Keeps [d] m m₁ → low32 (m₁.regs d) = low32 (m.regs d) →
      ∃ m', execAll env (code .d32) m₁ = some m' ∧
        Writes d (shiftValue .d32 op.host (m₁.regs d) count) m₁ m')
    (wide : ∃ m', execAll env (code .q64) m = some m' ∧
      Writes d (shiftValue .q64 op.host (m.regs d) count) m m') :
    ∃ m', execAll env (shiftTail op d code) m = some m' ∧
      Writes d (op.eval (m.regs d) count) m m' := by
  unfold shiftTail ShiftOp.eval
  split
  · obtain ⟨m₁, narrowed, low, kept⟩ := exec_narrowCode env op host m
      (code .d32 ++ [.extend .movsxd d d])
    obtain ⟨m₂, shifted, written⟩ := narrow m₁ kept low
    rw [List.append_assoc, narrowed, execAll_append, shifted]
    refine ⟨_, rfl, ((kept.mono (by simp)).trans written.toKeeps).setReg host.2.1 (by simp) _
      m₂.flags, ?_⟩
    simp [written.value, shiftValue, Extend.value, low, low32_zeroExtend]
  · exact wide

theorem toNat_mod_of_low32 {a b : Word64} (same : low32 a = low32 b) :
    a.toNat % 32 = b.toNat % 32 := by
  have values := congrArg BitVec.toNat same
  simp only [low32, BitVec.extractLsb'_toNat, Nat.shiftRight_zero] at values
  omega

theorem computes_rvShiftImm (operand : IsOperand rd) (src1 : IsSrc rs1 r1) (shamt : BitVec 6)
    {op : ShiftOp} (immediate : op ≠ .rol64 ∧ op ≠ .rol32) (pc : Nat) :
    Computes st rd (fun regs => op.eval (regRead regs rs1) shamt.toNat)
      (rvShiftImm rd rs1 shamt op pc) := by
  let amount (size : Size) : BitVec 6 := if size = .d32 then shamt &&& 31 else shamt
  let code (d : Reg) := shiftTail op d fun size => [.shiftImm size op.host d (amount size)]
  refine computes_routine operand (by simp) (fun d => readCodeOf d r1 ++ code d)
    (fun d => ?_) fun d host env m => ?_
  · rw [rvRead_isSrc src1]
    cases op <;> simp_all [shiftTail, ShiftOp.is32, amount, code, emit_bind_emit]
  · refine Writes.after_read host fun m₁ first _ => ?_
    have amounts : ∀ size (m₂ : Machine), ∃ m',
        execAll env [.shiftImm size op.host d (amount size)] m₂ = some m' ∧
          Writes d (shiftValue size op.host (m₂.regs d) shamt.toNat) m₂ m' := by
      intro size m₂
      refine ⟨_, rfl, ?_⟩
      rw [shift_mk _ _ host.2.1]
      refine writes_mk (fun r other _ => by simp [other]) ?_
      cases size with
      | q64 => simp [shiftValue, amount]
      | d32 =>
        have low : shamt.toNat &&& 31 = shamt.toNat % 32 :=
          Nat.and_two_pow_sub_one_eq_mod shamt.toNat 5
        simp [shiftValue, amount, low]
    rw [← srcVal_isSrc src1, ← first]
    exact exec_shiftTail env op host m₁ (fun m₂ _ _ => amounts .d32 m₂) (amounts .q64 m₁)

theorem computes_rvShiftRr (operand : IsOperand rd) (src1 : IsSrc rs1 r1) (src2 : IsSrc rs2 r2)
    (op : ShiftOp) (pc : Nat) :
    Computes st rd (fun regs => op.eval (regRead regs rs1) (regRead regs rs2).toNat)
      (rvShiftRr rd rs1 rs2 op pc) := by
  let code (d : Reg) := shiftTail op d fun size =>
    emitShiftByReg size op.host d (secondOperand d r1 r2).2
  refine computes_routine operand
    (by simp [isSrc_not_reserved src1, isSrc_not_reserved src2])
    (fun d => (secondOperand d r1 r2).1 ++ (readCodeOf d r1 ++ code d)) (fun d => ?_)
    fun d host env m => ?_
  · simp only [rvSrc_isSrc src1, rvSrc_isSrc src2, pure_bind, rvRead_isSrc src1]
    by_cases half : op.is32 = true <;>
      simp [half, shiftTail, code, emit_bind_emit, List.append_assoc]
  · refine Writes.after_operands host (host_of_isSrc src1) fun m₁ first second => ?_
    rw [← srcVal_isSrc src1, ← srcVal_isSrc src2, ← first, ← second]
    have ordinary := secondOperand_ne_rsp d r1 (host_of_isSrc src2)
    refine exec_shiftTail env op host m₁ (fun m₂ kept low => ?_)
      (exec_emitShiftByReg env .q64 op.host host ordinary m₁)
    -- The count may be the destination itself, whose low bits are kept.
    have same : (m₂.regs (secondOperand d r1 r2).2).toNat % 32 =
        (m₁.regs (secondOperand d r1 r2).2).toNat % 32 := by
      by_cases shared : (secondOperand d r1 r2).2 = d
      · rw [shared]
        exact toNat_mod_of_low32 low
      · rw [kept.regs _ (by simp [shared])]
    have shifted := exec_emitShiftByReg env .d32 op.host host ordinary m₂
    simpa only [shiftValue, same] using shifted

/-! ## Shifted additions -/

theorem computes_rvSlliuw (operand : IsOperand rd) (src1 : IsSrc rs1 r1) (shamt : BitVec 6)
    (pc : Nat) :
    Computes st rd (fun regs => zext32 (regRead regs rs1) <<< shamt.toNat)
      (rvSlliuw rd rs1 shamt pc) := by
  unfold rvSlliuw
  simp only [rvSrc_isSrc src1, pure_bind]
  rcases r1 with _ | a
  · refine computes_routine operand (by simp [isSrc_not_reserved src1]) _ (fun d => rfl)
      fun d host env m => ⟨_, execAll_movRi64 [], ?_⟩
    rw [setReg_mk host.2.1, ← srcVal_isSrc src1]
    exact writes_mk (fun r other _ => by simp [other]) (by simp [srcVal, zext32])
  · refine computes_routine operand (by simp [isSrc_not_reserved src1]) _ (fun d => rfl)
      fun d host env m => ⟨_, rfl, ?_⟩
    rw [setReg_mk host.2.1, shift_mk _ _ host.2.1, ← srcVal_isSrc src1]
    refine writes_mk (fun r other _ => by simp [other]) ?_
    have small : shamt.toNat % 64 = shamt.toNat := Nat.mod_eq_of_lt shamt.isLt
    simp [shiftValue, Shift.value, Extend.value, srcVal, small]

theorem Writes.after_scaled {env : Env} {uw : Bool} {r : Option Reg} {d : Reg} {v : Word64}
    {m : Machine} {code : List Instr}
    (rest : ∀ m₁ : Machine, m₁.regs scratch =
        (if uw then zext32 (srcVal m r) else srcVal m r) → Keeps [scratch] m m₁ →
      ∃ m', execAll env code m₁ = some m' ∧ Writes d v m₁ m') :
    ∃ m', execAll env (scaledCode uw r ++ code) m = some m' ∧ Writes d v m m' := by
  have loaded : ∃ f, execAll env (scaledCode uw r ++ code) m = execAll env code
      ({ m with flags := f }.setReg scratch (if uw then zext32 (srcVal m r) else srcVal m r)) := by
    cases r with
    | none =>
      refine ⟨movFlags 0 m.flags, (execAll_movRi64 code).trans ?_⟩
      cases uw <;> simp [srcVal, zext32]
    | some r =>
      cases uw
      · exact ⟨m.flags, execAll_movRR (by decide) code⟩
      · exact ⟨m.flags, rfl⟩
  obtain ⟨f, loaded⟩ := loaded
  have kept : Keeps [scratch] m ({ m with flags := f }.setReg scratch
      (if uw then zext32 (srcVal m r) else srcVal m r)) :=
    (Keeps.refl _ m).setReg (by decide) (by simp) _ f
  obtain ⟨m', ran, written⟩ := rest _ (by simp) kept
  exact ⟨m', loaded.trans ran, (kept.mono (by simp)).trans written.toKeeps, written.value⟩

theorem exec_addScratch (env : Env) {d : Reg} (host : IsHost d)
    (host2 : ∀ r, r2 = some r → IsHost r) {m m₁ : Machine} (kept : Keeps [scratch] m m₁) :
    ∃ m', execAll env (readCodeOf d r2 ++ [aluRR .add d scratch]) m₁ = some m' ∧
      Writes d (srcVal m r2 + m₁.regs scratch) m₁ m' := by
  have spared : srcVal m₁ r2 = srcVal m r2 := by
    cases r2 with
    | none => rfl
    | some b => exact kept.regs b (by simpa using (host2 b rfl).1)
  refine Writes.after_read host fun m₂ first loaded => ?_
  have scaled : m₂.regs scratch = m₁.regs scratch := loaded.regs _ (by simpa using host.1.symm)
  simp [execAll, exec, Machine.alu, Alu.result, setReg_mk, host.2.1]
  refine writes_mk (fun r other _ => by simp [other]) ?_
  simp [first, scaled, spared]

theorem computes_rvShadd (operand : IsOperand rd) (src1 : IsSrc rs1 r1) (src2 : IsSrc rs2 r2)
    (shift : BitVec 6) (uw : Bool) (pc : Nat) :
    Computes st rd (fun regs =>
        ((if uw then zext32 (regRead regs rs1) else regRead regs rs1) <<< shift.toNat) +
          regRead regs rs2)
      (rvShadd rd rs1 rs2 shift uw pc) := by
  unfold rvShadd
  simp only [rvSrc_isSrc src1, rvSrc_isSrc src2, pure_bind, List.append_assoc]
  refine computes_routine operand
    (by simp [isSrc_not_reserved src1, isSrc_not_reserved src2]) _ (fun d => rfl)
    fun d host env m => ?_
  rw [← srcVal_isSrc src1, ← srcVal_isSrc src2]
  refine Writes.after_scaled fun m₁ scaled kept => ?_
  have small : shift.toNat % 64 = shift.toNat := Nat.mod_eq_of_lt shift.isLt
  -- The shift of the scratch register keeps the rest.
  let m₂ : Machine := m₁.shift .q64 .shl scratch shift.toNat
  have moved : m₂.regs scratch = m₁.regs scratch <<< shift.toNat := by
    simp [m₂, shift_mk, shiftValue, Shift.value, small]
  have kept₂ : Keeps [scratch] m₁ m₂ := by
    rw [show m₂ = _ from shift_mk _ _ (by decide) _ _]
    exact ⟨fun r unlisted => by simp_all, rfl, rfl, rfl⟩
  obtain ⟨m', ran, written⟩ := exec_addScratch env host (host_of_isSrc src2) (kept.trans kept₂)
  refine ⟨m', ran, (kept₂.mono (by simp)).trans written.toKeeps, ?_⟩
  rw [written.value, moved, scaled, BitVec.add_comm]

theorem computes_rvAdduw (operand : IsOperand rd) (src1 : IsSrc rs1 r1) (src2 : IsSrc rs2 r2)
    (pc : Nat) :
    Computes st rd (fun regs => zext32 (regRead regs rs1) + regRead regs rs2)
      (rvAdduw rd rs1 rs2 pc) := by
  unfold rvAdduw
  simp only [rvSrc_isSrc src1, rvSrc_isSrc src2, pure_bind, List.append_assoc]
  refine computes_routine operand
    (by simp [isSrc_not_reserved src1, isSrc_not_reserved src2]) _ (fun d => rfl)
    fun d host env m => ?_
  rw [← srcVal_isSrc src1, ← srcVal_isSrc src2]
  refine Writes.after_scaled fun m₁ scaled kept => ?_
  have sum := exec_addScratch env host (host_of_isSrc src2) kept
  rwa [scaled, if_pos rfl, BitVec.add_comm] at sum

end

end Jar.Recompiler
