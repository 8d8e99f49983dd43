import Jar.Lib.Lanes
import Jar.Proofs.ShiftLowering

/-! The code of the unary, single-bit and conditional-zero operations, and the values it computes. -/

namespace Jar.Recompiler

open X86 Lower

/-! ## Bytes -/

/-- The byte that says of another whether it is nonzero. -/
def orcByte (b : BitVec 8) : BitVec 8 := if b ≠ 0 then 0xFF else 0

/-- The first rounds of the loop set the bits of the nonzero ones among the first bytes. -/
theorem getLsbD_orcRounds (a : Word64) (k j : Nat) :
    ((List.range k).foldl (fun out i =>
      if a.extractLsb' (i * 8) 8 ≠ 0 then out ||| (0xFF#64 <<< (i * 8)) else out) 0#64).getLsbD j
      = (decide (j < 64) && (decide (j / 8 < k) && a.extractLsb' (j / 8 * 8) 8 != 0)) := by
  induction k with
  | zero => simp
  | succ k ih =>
    rw [List.range_succ, List.foldl_append, List.foldl_cons, List.foldl_nil]
    -- The last round sets the bits of its own byte and keeps all others.
    have bit : (0xFF#64 <<< (k * 8)).getLsbD j = (decide (j < 64) && decide (j / 8 = k)) := by
      have low : (0xFF#64).getLsbD (j - k * 8) = decide (j - k * 8 < 8) := by
        rw [show (0xFF#64) = (BitVec.allOnes 8).setWidth 64 by decide]
        rw [BitVec.getLsbD_setWidth, BitVec.getLsbD_allOnes]
        grind
      rw [BitVec.getLsbD_shiftLeft, low]
      grind
    by_cases last : j / 8 = k
    · subst last
      split <;> simp_all
    · split <;> simp_all <;> grind

theorem orcBytes_eq_join (a : Word64) :
    orcBytes a = Lanes.join 8 fun i => orcByte (a.extractLsb' (8 * i) 8) := by
  apply BitVec.eq_of_getLsbD_eq
  intro j within
  have within : j < 64 := within
  have low : j % 8 < 8 := Nat.mod_lt j (by decide)
  rw [Lanes.getLsbD_join, orcBytes, show (0 : Word64) = 0#64 from rfl, getLsbD_orcRounds,
    Nat.mul_comm (j / 8)]
  have byte : j / 8 < 8 := by omega
  simp only [within, byte, orcByte]
  split
  · next nonzero =>
    rw [show (0xFF : BitVec 8) = BitVec.allOnes 8 by decide, BitVec.getLsbD_allOnes]
    simpa [low] using nonzero
  · next zero => simp [not_not.mp zero]

/-- The highest bit of a byte says whether another byte is nonzero. -/
def orcMark (b : BitVec 8) : BitVec 8 := (((b &&& 0x7F) + 0x7F) ||| b) &&& 0x80

theorem orcMark_small (b : BitVec 8) : (b &&& 0x7F).toNat + (0x7F : BitVec 8).toNat < 256 := by
  decide +revert +kernel

theorem orcMark_spec (b : BitVec 8) :
    (orcMark b).toNat % 128 = 0 ∧ (orcMark b >>> 7).toNat ≤ (orcMark b).toNat ∧
      (orcMark b - (orcMark b >>> 7)) ||| orcMark b = orcByte b := by
  decide +revert +kernel

/-- The high bit of each byte of the sum says whether the byte is nonzero. -/
theorem orcBytes_swar (a : Word64) :
    let t := (((a &&& lo7) + lo7) ||| a) &&& hi1
    (t - (t >>> 7)) ||| t = orcBytes a := by
  intro t
  have lows : lo7 = Lanes.join 8 fun _ => 0x7F := by decide +kernel
  have highs : hi1 = Lanes.join 8 fun _ => 0x80 := by decide +kernel
  have marks : t = Lanes.join 8 fun i => orcMark (a.extractLsb' (8 * i) 8) := by
    change (((a &&& lo7) + lo7) ||| a) &&& hi1 = _
    nth_rewrite 1 2 [← Lanes.join_bytes (n := 8) a]
    rw [lows, highs, Lanes.join_and, Lanes.join_add 8 fun i => orcMark_small _, Lanes.join_or,
      Lanes.join_and]
    rfl
  rw [marks, Lanes.join_shiftRight 8 fun i => (orcMark_spec _).1,
    Lanes.join_sub 8 fun i => (orcMark_spec _).2.1, Lanes.join_or, orcBytes_eq_join]
  congr 1
  funext i
  exact (orcMark_spec _).2.2

/-! ## Unary operations -/

section

variable {st : LowerState} {rd rs1 rs2 : RegIdx} {r1 r2 : Option Reg}

/-- The operation that a unary one is lowered from. -/
def UnaryOp.source : Recompiler.UnaryOp → Jar.UnaryOp
  | .clz64 => .clz
  | .clz32 => .clzw
  | .ctz64 => .ctz
  | .ctz32 => .ctzw
  | .popcnt64 => .cpop
  | .popcnt32 => .cpopw
  | .sextB => .sextB
  | .sextH => .sextH
  | .zextH => .zextH
  | .rev8 => .rev8
  | .orcB => .orcB

theorem setWidth_extract16 (a : Word64) :
    (a.extractLsb' 0 16).setWidth 64 = a &&& 0xFFFF#64 := by
  apply BitVec.eq_of_getLsbD_eq
  intro j within
  rw [show (0xFFFF#64) = (BitVec.allOnes 16).setWidth 64 by decide]
  simp only [BitVec.getLsbD_setWidth, BitVec.getLsbD_extractLsb', BitVec.getLsbD_and,
    BitVec.getLsbD_allOnes, Nat.zero_add]
  grind

theorem exec_orcMarks (env : Env) {d : Reg} (host : IsHost d) (src : Reg) (m : Machine)
    (low high : Word64) :
    ∃ m', execAll env (movRR scratch src ++ [.push scratch, movRi64 d low, aluRR .and d scratch,
        movRi64 scratch low, aluRR .add d scratch, .pop scratch, aluRR .or d scratch,
        movRi64 scratch high, aluRR .and d scratch]) m = some m' ∧
      Writes d ((((m.regs src &&& low) + low) ||| m.regs src) &&& high) m m' := by
  obtain ⟨notScratch, notRsp, -⟩ := host
  simp [execAll, execAll_movRR, ↓exec_movRi64, exec, setReg_mk, notRsp, notScratch,
    notRsp.symm, notScratch.symm, Machine.alu, Alu.result, Machine.push, Machine.pop]
  refine writes_mk (fun r other ordinary => ?_) ?_
  · by_cases stack : r = .rsp <;> simp [other, ordinary, stack, notRsp.symm]
  · simp [BitVec.and_comm]

theorem exec_orcFill (env : Env) {d : Reg} (host : IsHost d) (m : Machine) :
    ∃ m', execAll env ([.push d] ++ movRR scratch d ++ [.shiftImm .q64 .shr scratch 7,
        aluRR .sub d scratch, .pop scratch, aluRR .or d scratch]) m = some m' ∧
      Writes d ((m.regs d - (m.regs d >>> 7)) ||| m.regs d) m m' := by
  obtain ⟨notScratch, notRsp, -⟩ := host
  simp [execAll, execAll_movRR, exec, setReg_mk, notRsp, notScratch, notRsp.symm, Machine.alu,
    Alu.result, Machine.push, Machine.pop, shift_mk]
  refine writes_mk (fun r other ordinary => ?_) ?_
  · by_cases stack : r = .rsp <;> simp [other, ordinary, stack, notRsp.symm]
  · simp [shiftValue, Shift.value]

theorem exec_orcCode (env : Env) {d src : Reg} (host : IsHost d) (m : Machine) :
    ∃ m', execAll env (unaryCode .orcB d src) m = some m' ∧
      Writes d (orcBytes (m.regs src)) m m' := by
  obtain ⟨m₁, first, marks⟩ := exec_orcMarks env host src m lo7 hi1
  obtain ⟨m₂, second, fills⟩ := exec_orcFill env host m₁
  refine ⟨m₂, ?_, marks.toKeeps.trans fills.toKeeps, ?_⟩
  · simpa [unaryCode] using execAll_trans first second
  · rw [fills.value, marks.value]
    exact orcBytes_swar _

theorem exec_unaryCode (env : Env) (op : Recompiler.UnaryOp) {d : Reg} (host : IsHost d)
    (src : Reg) (m : Machine) :
    ∃ m', execAll env (unaryCode op d src) m = some m' ∧
      Writes d ((UnaryOp.source op).eval (m.regs src)) m m' := by
  cases op with
  | orcB => exact exec_orcCode env host m
  | _ =>
    obtain ⟨notScratch, notRsp, -⟩ := host
    simp [unaryCode, execAll, exec, Machine.setReg32, setReg_mk, notRsp]
    refine writes_mk (fun r other _ => by simp [other]) ?_
    simp [UnaryOp.source, UnaryOp.eval, Count.value, Extend.value, apply_ite (BitVec.setWidth 64),
      setWidth_extract16]

theorem computes_rvUnary (operand : IsOperand rd) (src1 : IsSrc rs1 r1) (op : Recompiler.UnaryOp)
    (pc : Nat) :
    Computes st rd (fun regs => (UnaryOp.source op).eval (regRead regs rs1))
      (rvUnary rd rs1 op pc) := by
  unfold rvUnary
  simp only [rvSrc_isSrc src1, pure_bind]
  rcases r1 with _ | a
  · refine computes_routine operand (by simp [isSrc_not_reserved src1]) _ (fun d => rfl)
      fun d host env m => ?_
    rw [← srcVal_isSrc src1, List.singleton_append, execAll_movRi64]
    obtain ⟨m', ran, written⟩ := exec_unaryCode env op host scratch
      ({ m with flags := movFlags 0 m.flags }.setReg scratch 0)
    have start : Keeps [d, scratch] m ({ m with flags := movFlags 0 m.flags }.setReg scratch 0) :=
      (Keeps.refl _ m).setReg (by decide) (by simp) _ _
    refine ⟨m', ran, start.trans written.toKeeps, ?_⟩
    rw [written.value]
    simp [srcVal]
  · refine computes_routine operand (by simp [isSrc_not_reserved src1]) _ (fun d => rfl)
      fun d host env m => ?_
    rw [← srcVal_isSrc src1]
    exact exec_unaryCode env op host a m

/-! ## Single bits -/

/-- The value of a single-bit operation at a position. -/
def BitOp.eval (op : BitOp) (a : Word64) (n : Nat) : Word64 :=
  match op with
  | .clear => a &&& ~~~(1#64 <<< n)
  | .set => a ||| (1#64 <<< n)
  | .invert => a ^^^ (1#64 <<< n)
  | .extract => (a >>> n) &&& 1

theorem boolWord_mask (a : Word64) {n : Nat} (within : n < 64) :
    boolWord (a &&& (1#64 <<< n) != 0#64) = (a >>> n) &&& 1#64 := by
  have nonzero : BitVec.twoPow 64 n ≠ 0#64 := by
    intro zero
    have bit := congrArg (·.getLsbD n) zero
    simp [within] at bit
  rw [← BitVec.twoPow_eq, BitVec.and_twoPow, BitVec.and_one_eq_setWidth_ofBool_getLsbD,
    BitVec.getLsbD_ushiftRight, Nat.add_zero]
  cases a.getLsbD n
  · rfl
  · simp [nonzero, boolWord]

theorem exec_bitMaskCode (env : Env) (op : BitOp) {d : Reg} (host : IsHost d) {m : Machine}
    {n : Nat} (within : n < 64) (mask : m.regs scratch = 1#64 <<< n) :
    ∃ m', execAll env (bitMaskCode op d) m = some m' ∧ Writes d (op.eval (m.regs d) n) m m' := by
  obtain ⟨notScratch, notRsp, -⟩ := host
  cases op <;> simp [bitMaskCode, execAll, exec, Machine.alu, Alu.result, Alu.flags, setReg_mk,
    Machine.setReg32, notRsp, notScratch, mask]
  case extract =>
    refine writes_mk (fun r other ordinary => by simp [other]) ?_
    simp [BitOp.eval, ← boolWord_mask _ within]
  all_goals
    refine writes_mk (fun r other ordinary => by simp [other, ordinary]) ?_
    simp [BitOp.eval]

theorem exec_maskShiftCode (env : Env) {r2 : Option Reg} (host2 : ∀ r, r2 = some r → IsHost r)
    {m : Machine} (one : m.regs scratch = 1) :
    ∃ m', execAll env (maskShiftCode r2) m = some m' ∧
      m'.regs scratch = 1#64 <<< ((srcVal m r2).toNat % 64) ∧ Keeps [scratch] m m' := by
  rcases r2 with _ | b
  · exact ⟨m, rfl, by simp [one, srcVal], .refl _ m⟩
  obtain ⟨notScratch, notRsp, -⟩ := host2 b rfl
  unfold maskShiftCode
  dsimp only
  split
  · next same =>
    subst same
    simp [execAll, exec, shift_mk, one]
    exact ⟨by simp [shiftValue, Shift.value, srcVal], keeps_mk fun r other => by simp_all⟩
  · next other =>
    simp [execAll, exec, shift_mk, Machine.push, Machine.pop, setReg_mk, one]
    refine ⟨by simp [shiftValue, Shift.value, srcVal, notRsp], keeps_mk fun r other => ?_⟩
    by_cases isRsp : r = .rsp
    · simp [isRsp]
    · by_cases isRcx : r = .rcx <;> simp_all

theorem srcVal_keeps {m m' : Machine} {r : Option Reg} (kept : Keeps [scratch] m m')
    (host : ∀ h, r = some h → IsHost h) : srcVal m' r = srcVal m r := by
  cases r with
  | none => rfl
  | some h => exact kept.regs h (by simp [(host h rfl).1])

theorem computes_rvBitRr (operand : IsOperand rd) (src1 : IsSrc rs1 r1) (src2 : IsSrc rs2 r2)
    (op : BitOp) (pc : Nat) :
    Computes st rd (fun regs => op.eval (regRead regs rs1) ((regRead regs rs2).toNat % 64))
      (rvBitRr rd rs1 rs2 op pc) := by
  unfold rvBitRr
  simp only [rvSrc_isSrc src2, pure_bind, rvRead_isSrc src1, emit_bind_emit]
  refine computes_routine operand
    (by simp [isSrc_not_reserved src1, isSrc_not_reserved src2]) _ (fun d => rfl)
    fun d host env m => ?_
  -- The scratch register holds the mask before the destination is written.
  let m₁ := { m with flags := movFlags 1 m.flags }.setReg scratch 1
  have start : Keeps [scratch] m m₁ := (Keeps.refl _ m).setReg (by decide) (by simp) _ _
  obtain ⟨m₂, shifted, mask, kept⟩ := exec_maskShiftCode env (host_of_isSrc src2) (m := m₁) rfl
  have spared := start.trans kept
  have loads : ∃ m', execAll env (readCodeOf d r1 ++ bitMaskCode op d) m₂ = some m' ∧
      Writes d (op.eval (srcVal m₂ r1) ((srcVal m₁ r2).toNat % 64)) m₂ m' := by
    refine Writes.after_read host fun m₃ first kept => ?_
    rw [← first]
    refine exec_bitMaskCode env op host (Nat.mod_lt _ (by decide)) ?_
    rw [kept.regs scratch (by simp [host.1.symm]), mask]
  obtain ⟨m', ran, written⟩ := loads
  refine ⟨m', ?_, (spared.mono (by simp)).trans written.toKeeps, ?_⟩
  · rw [List.append_assoc, List.singleton_append, execAll_movRi64]
    exact execAll_trans shifted ran
  · rw [written.value, srcVal_keeps spared (host_of_isSrc src1),
      srcVal_keeps start (host_of_isSrc src2), srcVal_isSrc src1, srcVal_isSrc src2]

theorem sext32_mask : ∀ shamt : BitVec 6, shamt.toNat < 31 →
    sext32 (1#32 <<< shamt.toNat) = 1#64 <<< shamt.toNat ∧
      sext32 (~~~(1#32 <<< shamt.toNat)) = ~~~(1#64 <<< shamt.toNat) := by
  decide +kernel

theorem exec_bitImmCode (env : Env) (op : BitOp) {d : Reg} (host : IsHost d) (shamt : BitVec 6)
    {m : Machine} (mask : 31 ≤ shamt.toNat → m.regs scratch = 1#64 <<< shamt.toNat) :
    ∃ m', execAll env (bitImmCode op d shamt) m = some m' ∧
      Writes d (op.eval (m.regs d) shamt.toNat) m m' := by
  have within : shamt.toNat < 64 := shamt.isLt
  have whole : shamt.toNat % 64 = shamt.toNat := Nat.mod_eq_of_lt within
  have notRsp := host.2.1
  by_cases extract : op = .extract
  · subst extract
    simp [bitImmCode, execAll, exec, shift_mk, Machine.alu, Alu.result, setReg_mk, notRsp]
    refine writes_mk (fun r other _ => by simp [other]) ?_
    simp [BitOp.eval, shiftValue, Shift.value, whole, sext32]
  by_cases small : shamt.toNat < 31
  · obtain ⟨plain, negated⟩ := sext32_mask shamt small
    cases op <;> simp [bitImmCode, small, execAll, exec, Machine.alu, Alu.result, setReg_mk,
      notRsp, plain, negated] at extract ⊢
    all_goals exact writes_mk (fun r other _ => by simp [other]) (by simp [BitOp.eval])
  · have code : bitImmCode op d shamt = bitMaskCode op d := by
      cases op <;> simp [bitImmCode, small] at extract ⊢
    rw [code]
    exact exec_bitMaskCode env op host within (mask (by omega))

theorem computes_rvBitImm (operand : IsOperand rd) (src1 : IsSrc rs1 r1) (op : BitOp)
    (shamt : BitVec 6) (pc : Nat) :
    Computes st rd (fun regs => op.eval (regRead regs rs1) shamt.toNat)
      (rvBitImm rd rs1 shamt op pc) := by
  unfold rvBitImm
  simp only [rvRead_isSrc src1, emit_bind_emit]
  refine computes_routine operand (by simp [isSrc_not_reserved src1]) _ (fun d => rfl)
    fun d host env m => ?_
  -- A wide mask is made in the scratch register first.
  obtain ⟨m₁, made, mask, kept⟩ : ∃ m₁,
      execAll env (onlyIf (31 ≤ shamt.toNat) [movRi64 scratch (1#64 <<< shamt.toNat)]) m = some m₁ ∧
        (31 ≤ shamt.toNat → m₁.regs scratch = 1#64 <<< shamt.toNat) ∧ Keeps [scratch] m m₁ := by
    by_cases wide : 31 ≤ shamt.toNat
    · refine ⟨_, by simp [onlyIf, wide]; rfl, fun _ => by simp, ?_⟩
      exact (Keeps.refl _ m).setReg (by decide) (by simp) _ _
    · exact ⟨m, by simp [onlyIf, wide], fun h => absurd h wide, .refl _ m⟩
  have loads : ∃ m', execAll env (readCodeOf d r1 ++ bitImmCode op d shamt) m₁ = some m' ∧
      Writes d (op.eval (srcVal m₁ r1) shamt.toNat) m₁ m' := by
    refine Writes.after_read host fun m₃ first kept => ?_
    rw [← first]
    refine exec_bitImmCode env op host shamt fun wide => ?_
    rw [kept.regs scratch (by simp [host.1.symm]), mask wide]
  obtain ⟨m', ran, written⟩ := loads
  refine ⟨m', execAll_trans made ran, (kept.mono (by simp)).trans written.toKeeps, ?_⟩
  rw [written.value, srcVal_keeps kept (host_of_isSrc src1), srcVal_isSrc src1]

/-! ## Conditional zero -/

theorem writes_read (env : Env) {d : Reg} (host : IsHost d) {rs : RegIdx} {r : Option Reg}
    (src : IsSrc rs r) (m : Machine) :
    ∃ m', execAll env (readCodeOf d r) m = some m' ∧ Writes d (regRead (guestRegs m) rs) m m' := by
  rw [← List.append_nil (readCodeOf d r), ← srcVal_isSrc src]
  exact Writes.after_read host fun m₁ first _ => ⟨m₁, rfl, .refl _ m₁, first⟩

theorem writes_zero (env : Env) {d : Reg} (host : IsHost d) (m : Machine) :
    ∃ m', execAll env [movRi64 d 0] m = some m' ∧ Writes d 0 m m' := by
  refine ⟨_, execAll_movRi64 [], ?_⟩
  rw [setReg_mk host.2.1]
  exact writes_mk (fun r other _ => by simp [other]) (by simp)

theorem computes_rvCzero (operand : IsOperand rd) (src1 : IsSrc rs1 r1) (src2 : IsSrc rs2 r2)
    (eqz : Bool) (pc : Nat) :
    Computes st rd (fun regs =>
        if (regRead regs rs2 == 0) = eqz then 0 else regRead regs rs1)
      (rvCzero rd rs1 rs2 eqz pc) := by
  have ordinary : ∀ rs ∈ [rs1, rs2], regIsReserved rs = false := by
    simp [isSrc_not_reserved src1, isSrc_not_reserved src2]
  unfold rvCzero
  simp only [rvRead_isSrc src1]
  split
  · next zero =>
    subst zero
    cases eqz
    · refine computes_routine operand ordinary _ (fun d => rfl) fun d host env m => ?_
      simpa using writes_read env host src1 m
    · refine computes_routine operand ordinary _ (fun d => rfl) fun d host env m => ?_
      simpa using writes_zero env host m
  · next nonzero2 =>
  split
  · next zero =>
    subst zero
    refine computes_routine operand ordinary _ (fun d => rfl) fun d host env m => ?_
    simpa using writes_zero env host m
  · next nonzero1 =>
  split
  · next same =>
    subst same
    cases eqz
    · refine computes_routine operand ordinary _ (fun d => rfl) fun d host env m => ?_
      have value : (if (regRead (guestRegs m) rs1 == 0) = false then 0
          else regRead (guestRegs m) rs1) = 0 := by
        split <;> simp_all
      rw [value]
      exact writes_zero env host m
    · refine computes_routine operand ordinary _ (fun d => rfl) fun d host env m => ?_
      have value : (if (regRead (guestRegs m) rs1 == 0) = true then 0
          else regRead (guestRegs m) rs1) = regRead (guestRegs m) rs1 := by
        split <;> simp_all
      rw [value]
      exact writes_read env host src1 m
  · next different =>
    obtain ⟨slot1, mapped1, rfl⟩ := (isSrc_cases src1).resolve_left fun zero => nonzero1 zero.1
    obtain ⟨slot2, mapped2, rfl⟩ := (isSrc_cases src2).resolve_left fun zero => nonzero2 zero.1
    have apart : regMap slot2 ≠ regMap slot1 := by
      intro alike
      exact different (rvSlot_inj mapped1 (regMap_injective alike ▸ mapped2))
    refine computes_routine operand ordinary (fun d => if d = regMap slot1 then
        [aluRR .test (regMap slot2) (regMap slot2), .movImm32 scratch 0,
          .cmovcc (if eqz then .e else .ne) d scratch]
      else [aluRR .test (regMap slot2) (regMap slot2), .movImm32 d 0,
        .cmovcc (if eqz then .ne else .e) d (regMap slot1)]) (fun d => ?_) fun d host env m => ?_
    · simp only [hostReg, mapped1, mapped2, Option.map_some, unwrap_some, pure_bind]
      exact (apply_ite emit _ _ _).symm
    · rw [← srcVal_isSrc src1, ← srcVal_isSrc src2]
      obtain ⟨notScratch, notRsp, -⟩ := host
      split
      · next same =>
        subst same
        cases eqz <;> simp [execAll, exec, Machine.alu, Alu.flags, Alu.result, Machine.setReg32,
          setReg_mk, notRsp, srcVal]
        all_goals
          split <;> exact writes_mk (fun r other ordinary => by simp [other, ordinary])
            (by simp [notScratch])
      · next other =>
        cases eqz <;> simp [execAll, exec, Machine.alu, Alu.flags, Alu.result, Machine.setReg32,
          setReg_mk, notRsp, srcVal]
        all_goals
          split <;> exact writes_mk (fun r changed _ => by simp [changed]) (by simp [Ne.symm other])

end

end Jar.Recompiler
