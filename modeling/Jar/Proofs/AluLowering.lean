import Jar.Proofs.Straight

/-! The code of the two-register and immediate operations, and the values it computes. -/

namespace Jar.Recompiler

open X86 Lower

/-! ## Conditions -/

section

variable {n : Nat} (a b : BitVec (n + 1))

@[simp]
theorem eval_g_sub : Cc.eval .g (subFlags a b) = some (b.slt a) := by
  have order : ((a - b).msb == BitVec.ssubOverflow a b) = !a.slt b := by
    rw [← Word.slt_eq_sign_ne_overflow a b]
    simp [bne]
  have same : (a == b) = decide (a.toInt = b.toInt) := by
    rw [Bool.eq_iff_iff]
    simp [BitVec.toInt_inj]
  simp only [Cc.eval, subFlags, Option.bind_eq_bind, Option.bind_some, Option.pure_def,
    Word.sub_beq_zero, order, same, BitVec.slt, Option.some.injEq]
  rw [Bool.eq_iff_iff]
  simp only [Bool.and_eq_true, Bool.not_eq_true', decide_eq_false_iff_not, decide_eq_true_eq]
  omega

@[simp]
theorem eval_a_sub : Cc.eval .a (subFlags a b) = some (b.ult a) := by
  have same : (a == b) = decide (a.toNat = b.toNat) := by
    rw [Bool.eq_iff_iff]
    simp [BitVec.toNat_inj]
  simp only [Cc.eval, subFlags, Option.bind_eq_bind, Option.bind_some, Option.pure_def,
    Word.sub_beq_zero, Word.usubOverflow_eq_ult, same, BitVec.ult, Option.some.injEq]
  rw [Bool.eq_iff_iff]
  simp only [Bool.not_eq_true', Bool.or_eq_false_iff, decide_eq_false_iff_not, decide_eq_true_eq]
  omega

/-- After a self-test the conditions compare with zero. -/
theorem logicFlags_eq_subFlags : logicFlags a = subFlags a 0#(n + 1) := by
  have low := a.le_toInt
  have high := a.toInt_lt
  have signed : BitVec.ssubOverflow a 0#(n + 1) = false := by
    simp only [BitVec.ssubOverflow, BitVec.toInt_zero, Bool.or_eq_false_iff,
      decide_eq_false_iff_not]
    omega
  have unsigned : BitVec.usubOverflow a 0#(n + 1) = false := by
    simp [BitVec.usubOverflow]
  simp [logicFlags, subFlags, signed, unsigned]

@[simp]
theorem eval_g_logic : Cc.eval .g (logicFlags a) = some ((0#(n + 1)).slt a) := by
  rw [logicFlags_eq_subFlags, eval_g_sub]

@[simp]
theorem eval_a_logic : Cc.eval .a (logicFlags a) = some ((0#(n + 1)).ult a) := by
  rw [logicFlags_eq_subFlags, eval_a_sub]

@[simp]
theorem eval_e_logic : Cc.eval .e (logicFlags a) = some (a == 0) := rfl

@[simp]
theorem eval_ne_logic : Cc.eval .ne (logicFlags a) = some (a != 0) := rfl

end

/-- The smaller of two words, whichever way they are compared. -/
theorem ite_slt_swap {n : Nat} (a b : BitVec n) :
    (if b.slt a then b else a) = if a.slt b then a else b := by
  simp only [BitVec.slt, decide_eq_true_eq]
  split <;> split <;> first | rfl | omega | exact BitVec.toInt_inj.mp (by omega)

theorem ite_ult_swap {n : Nat} (a b : BitVec n) :
    (if b.ult a then b else a) = if a.ult b then a else b := by
  simp only [BitVec.ult, decide_eq_true_eq]
  split <;> split <;> first | rfl | omega | exact BitVec.toNat_inj.mp (by omega)

/-! ## Operands -/

/-- The instruction of a two-register operation. -/
def AluOp.regOp : AluOp → RegOp
  | .add => .add
  | .sub => .sub
  | .and => .and
  | .or => .or
  | .xor => .xor
  | .mul => .mul
  | .addw => .addw
  | .subw => .subw
  | .mulw => .mulw
  | .min => .min
  | .max => .max
  | .minu => .minu
  | .maxu => .maxu
  | .andn => .andn
  | .orn => .orn
  | .xnor => .xnor

section

variable {env : Env} {d : Reg} {r1 r2 : Option Reg}

/-- Loading an operand writes the register and perhaps the flags. -/
theorem execAll_readCodeOf (env : Env) (ordinary : d ≠ .rsp) (r : Option Reg) (m : Machine)
    (code : List Instr) :
    ∃ f, execAll env (readCodeOf d r ++ code) m =
      execAll env code ({ m with flags := f }.setReg d (srcVal m r)) := by
  cases r with
  | none => exact ⟨_, execAll_movRi64 code⟩
  | some r => exact ⟨m.flags, execAll_movRR ordinary code⟩

/-- The destination holds the first operand, and the second one is in its register. -/
theorem exec_operands (host : IsHost d) (host1 : ∀ r, r1 = some r → IsHost r)
    (r2 : Option Reg) (m : Machine) (code : List Instr) :
    ∃ m', execAll env ((secondOperand d r1 r2).1 ++ (readCodeOf d r1 ++ code)) m =
        execAll env code m' ∧
      m'.regs d = srcVal m r1 ∧ m'.regs (secondOperand d r1 r2).2 = srcVal m r2 ∧
      Keeps [d, scratch] m m' := by
  obtain ⟨notScratch, notRsp, -⟩ := host
  have spared : ∀ (m' : Machine), (∀ r, r ≠ scratch → m'.regs r = m.regs r) →
      srcVal m' r1 = srcVal m r1 := by
    intro m' same
    cases r1 with
    | none => rfl
    | some a => exact same a (host1 a rfl).1
  have start := Keeps.refl [d, scratch] m
  rcases r2 with _ | b
  · -- The scratch register is cleared.
    obtain ⟨f, loaded⟩ := execAll_readCodeOf env notRsp r1
      ({ m with flags := movFlags 0 m.flags }.setReg scratch 0) code
    refine ⟨_, (execAll_movRi64 _).trans loaded, ?_, ?_, ?_⟩
    · simpa using spared _ fun r other => by simp [other]
    · simp [secondOperand, srcVal, notScratch.symm]
    · exact (start.setReg (by decide) (by simp) _ _).setReg notRsp (by simp) _ _
  · by_cases moved : d = b ∧ r1 ≠ some b
    · -- The second operand is saved from the destination.
      have second : secondOperand d r1 (some b) = (movRR scratch b, scratch) := by
        simp [secondOperand, moved]
      obtain ⟨f, loaded⟩ := execAll_readCodeOf env notRsp r1 (m.setReg scratch (m.regs b)) code
      rw [second]
      refine ⟨_, (execAll_movRR (by decide) _).trans loaded, ?_, ?_, ?_⟩
      · simpa using spared _ fun r other => by simp [other]
      · simp [srcVal, notScratch.symm]
      · exact (start.setReg (by decide) (by simp) _ m.flags).setReg notRsp (by simp) _ _
    · have second : secondOperand d r1 (some b) = ([], b) := by
        simp only [secondOperand, moved, if_false]
      obtain ⟨f, loaded⟩ := execAll_readCodeOf env notRsp r1 m code
      rw [second]
      refine ⟨_, loaded, by simp, ?_, start.setReg notRsp (by simp) _ _⟩
      by_cases same : b = d
      · subst same
        have both : r1 = some b := by simpa using moved
        simp [both]
      · simp [same, srcVal]

theorem secondOperand_ne_rsp (d : Reg) (r1 : Option Reg) (host2 : ∀ r, r2 = some r → IsHost r) :
    (secondOperand d r1 r2).2 ≠ .rsp := by
  cases r2 with
  | none => exact (by decide : scratch ≠ .rsp)
  | some b =>
    unfold secondOperand
    dsimp only
    split
    · exact (by decide : scratch ≠ .rsp)
    · exact (host2 b rfl).2.1

variable {m : Machine} {v : Word64} {code : List Instr}

theorem Writes.after_read {r : Option Reg} (host : IsHost d)
    (rest : ∀ m₁ : Machine, m₁.regs d = srcVal m r → Keeps [d] m m₁ →
      ∃ m', execAll env code m₁ = some m' ∧ Writes d v m₁ m') :
    ∃ m', execAll env (readCodeOf d r ++ code) m = some m' ∧ Writes d v m m' := by
  obtain ⟨f, loaded⟩ := execAll_readCodeOf env host.2.1 r m code
  have kept : Keeps [d] m ({ m with flags := f }.setReg d (srcVal m r)) :=
    (Keeps.refl _ m).setReg host.2.1 (by simp) _ f
  obtain ⟨m', ran, written⟩ := rest _ (by simp) kept
  exact ⟨m', loaded.trans ran, (kept.mono (by simp)).trans written.toKeeps, written.value⟩

theorem Writes.after_operands (host : IsHost d) (host1 : ∀ r, r1 = some r → IsHost r)
    (rest : ∀ m₁ : Machine, m₁.regs d = srcVal m r1 →
      m₁.regs (secondOperand d r1 r2).2 = srcVal m r2 →
      ∃ m', execAll env code m₁ = some m' ∧ Writes d v m₁ m') :
    ∃ m', execAll env ((secondOperand d r1 r2).1 ++ (readCodeOf d r1 ++ code)) m = some m' ∧
      Writes d v m m' := by
  obtain ⟨m₁, loaded, first, second, kept⟩ := exec_operands host host1 r2 m code
  obtain ⟨m', ran, written⟩ := rest m₁ first second
  exact ⟨m', loaded.trans ran, kept.trans written.toKeeps, written.value⟩

theorem exec_applyAluOp (op : AluOp) {b : Reg} (host : IsHost d) (m : Machine) :
    ∃ m', execAll env (applyAluOp op d b) m = some m' ∧
      Writes d (op.regOp.eval (m.regs d) (m.regs b)) m m' := by
  obtain ⟨notScratch, notRsp, -⟩ := host
  cases op <;> simp [applyAluOp, execAll, exec, Machine.alu, Alu.result, Alu.flags, setReg_mk,
    Machine.setReg32, notRsp, notScratch]
  case min | max | minu | maxu =>
    simp only [AluOp.regOp, RegOp.eval, ← ite_slt_swap (m.regs d), ← ite_ult_swap (m.regs d)]
    split <;> exact writes_mk (fun r other _ => by simp [other]) (by simp)
  all_goals
    refine writes_mk (fun r other ordinary => by simp [other, ordinary]) ?_
    simp [AluOp.regOp, RegOp.eval, Extend.value]

end

/-! ## Two-register operations -/

section

variable {st : LowerState} {rd rs1 rs2 : RegIdx} {r1 r2 : Option Reg}

theorem host_of_isSrc {rs : RegIdx} {r : Option Reg} (src : IsSrc rs r) :
    ∀ h, r = some h → IsHost h := fun _ same => isSrc_isHost (same ▸ src)

theorem computes_rvAluRr (operand : IsOperand rd) (src1 : IsSrc rs1 r1) (src2 : IsSrc rs2 r2)
    (op : AluOp) (pc : Nat) :
    Computes st rd (fun regs => op.regOp.eval (regRead regs rs1) (regRead regs rs2))
      (rvAluRr rd rs1 rs2 op pc) := by
  rcases operand with rfl | mapped
  · exact computes_zero _
  obtain ⟨slot, mapped⟩ := Option.isSome_iff_exists.mp mapped
  have host := isHost_regMap slot
  simp only [rvAluRr, rvDst_mapped mapped, pure_bind, isSrc_not_reserved src1,
    isSrc_not_reserved src2, Bool.or_self, Bool.false_eq_true, if_false,
    invalidateRd_mapped mapped, rvSrc_isSrc src1, rvSrc_isSrc src2, rvRead_isSrc src1]
  by_cases move : op = .add ∧ (rs1 = 0 ∨ rs2 = 0)
  · -- The sum with `x0` is a move of the other operand.
    rw [if_pos move]
    obtain ⟨rfl, zero⟩ := move
    have reads : ∃ r, IsSrc (if rs1 = 0 then rs2 else rs1) r := by
      split
      · exact ⟨r2, src2⟩
      · exact ⟨r1, src1⟩
    obtain ⟨r, src⟩ := reads
    rw [rvRead_isSrc src]
    refine computes_of_code mapped _ ⟨_, rfl⟩ fun env m => ?_
    obtain ⟨f, loaded⟩ := execAll_readCodeOf env host.2.1 r m []
    rw [List.append_nil] at loaded
    refine ⟨_, loaded, ?_⟩
    rw [srcVal_isSrc src, setReg_mk host.2.1]
    refine writes_mk (fun r other _ => by simp [other]) ?_
    rcases zero with rfl | rfl
    · simp [AluOp.regOp, RegOp.eval]
    · split <;> simp_all [AluOp.regOp, RegOp.eval]
  rw [if_neg move]
  by_cases negate : op = .sub ∧ rs1 ≠ 0 ∧ rs2 ≠ 0 ∧ rs1 ≠ rs2 ∧ some (regMap slot) = r2
  · -- The destination holds the subtrahend, which is negated in place.
    rw [if_pos negate]
    obtain ⟨rfl, nonzero, -, different, rfl⟩ := negate
    obtain ⟨slot1, mapped1, rfl⟩ := (isSrc_cases src1).resolve_left fun zero => nonzero zero.1
    obtain ⟨slot2, mapped2, same⟩ := (isSrc_cases src2).resolve_left fun zero => by cases zero.2
    have apart : regMap slot1 ≠ regMap slot := by
      intro alike
      rw [Option.some.inj same] at alike
      exact different (rvSlot_inj mapped1 (regMap_injective alike ▸ mapped2))
    refine computes_of_code mapped _ ⟨_, rfl⟩ fun env m => ?_
    simp only [← srcVal_isSrc src1, ← srcVal_isSrc src2]
    simp [execAll, exec, Machine.alu, Alu.result, setReg_mk, host.2.1, apart]
    refine writes_mk (fun r other _ => by simp [other]) ?_
    simp [AluOp.regOp, RegOp.eval, srcVal]
    ring
  rw [if_neg negate]
  refine computes_of_code mapped ((secondOperand (regMap slot) r1 r2).1 ++
    (readCodeOf (regMap slot) r1 ++
      applyAluOp op (regMap slot) (secondOperand (regMap slot) r1 r2).2)) ?_ fun env m => ?_
  · -- Only the record of the carry depends on the operation.
    simp only [List.map_append, ← List.append_assoc]
    rcases rvSlot rs1 with _ | a <;> rcases rvSlot rs2 with _ | b <;>
      simp only [mapped] <;> try exact ⟨_, rfl⟩
    by_cases add : op = .add
    · simp only [add, if_true]
      exact ⟨_, rfl⟩
    · simp only [add, if_false]
      exact ⟨_, rfl⟩
  · simp only [← srcVal_isSrc src1, ← srcVal_isSrc src2]
    refine Writes.after_operands host (host_of_isSrc src1) fun m₁ first second => ?_
    rw [← first, ← second]
    exact exec_applyAluOp op host m₁

/-! ## Operations with an immediate -/

def AluImmOp.immOp : AluImmOp → ImmOp
  | .add => .addi
  | .and => .andi
  | .or => .ori
  | .xor => .xori
  | .addw => .addiw

theorem exec_aluImmCode (env : Env) (op : AluImmOp) {d : Reg} (host : IsHost d) (imm : BitVec 32)
    (m : Machine) :
    ∃ m', execAll env (aluImmCode op d imm) m = some m' ∧
      Writes d (op.immOp.eval (m.regs d) imm) m m' := by
  obtain ⟨notScratch, notRsp, -⟩ := host
  cases op <;> simp [aluImmCode, execAll, exec, Machine.alu, Alu.result, setReg_mk,
    Machine.setReg32, notRsp]
  all_goals
    refine writes_mk (fun r other _ => by simp [other]) ?_
    simp [AluImmOp.immOp, ImmOp.eval, Extend.value]

theorem computes_constant (operand : IsOperand rd) (v : Word64) (pc : Nat) :
    Computes st rd (fun _ => v) (rvRoutine rd [] pc fun d => emit [movRi64 d v]) := by
  refine computes_routine operand (by simp) _ (fun d => rfl) fun d host env m => ?_
  refine ⟨_, execAll_movRi64 [], ?_⟩
  rw [setReg_mk host.2.1]
  exact writes_mk (fun r other _ => by simp [other]) (by simp)

theorem computes_rvAluImm (operand : IsOperand rd) (src1 : IsSrc rs1 r1) (imm : BitVec 32)
    (op : AluImmOp) (pc : Nat) :
    Computes st rd (fun regs => op.immOp.eval (regRead regs rs1) imm)
      (rvAluImm rd rs1 imm op pc) := by
  unfold rvAluImm
  by_cases constant : rs1 = 0 ∧ op = .add
  · obtain ⟨rfl, rfl⟩ := constant
    have plain : Computes st rd _ _ := computes_constant operand (sext32 imm) pc
    simpa [AluImmOp.immOp, ImmOp.eval] using plain
  · simp only [constant, if_false, rvRead_isSrc src1, emit_bind_emit]
    refine computes_routine operand (by simp) _ (fun d => rfl) fun d host env m => ?_
    refine Writes.after_read host fun m₁ first _ => ?_
    rw [← srcVal_isSrc src1, ← first]
    exact exec_aluImmCode env op host imm m₁

/-! ## Comparisons -/

/-- The value of a set condition over a cleared register. -/
theorem boolWord_merge (b : Bool) : (0#64 &&& ~~~0xFF#64) ||| boolWord b = boolWord b := by
  cases b <;> rfl

def ltOp (signed : Bool) (a b : Word64) : Bool := if signed then a.slt b else a.ult b

theorem eval_ltCc_sub (signed : Bool) (a b : Word64) :
    Cc.eval (ltCc signed) (subFlags a b) = some (ltOp signed a b) := by
  cases signed
  · exact eval_b_sub a b
  · exact eval_l_sub a b

theorem eval_zeroLt_logic (signed : Bool) (b : Word64) :
    Cc.eval (if signed then .g else .a) (logicFlags b) = some (ltOp signed 0 b) := by
  cases signed
  · exact eval_a_logic b
  · exact eval_g_logic b

theorem exec_setcc (env : Env) {d : Reg} (host : IsHost d) {compare : Instr} {cc : Cc} {c : Bool}
    {m : Machine} {flags : Flags}
    (compares : ∀ f, exec env ⟨Function.update m.regs d 0, f, m.stack, m.ctx, m.mem⟩ compare =
      .next ⟨Function.update m.regs d 0, flags, m.stack, m.ctx, m.mem⟩)
    (known : cc.eval flags = some c) :
    ∃ m', execAll env [movRi64 d 0, compare, .setcc cc d] m = some m' ∧
      Writes d (boolWord c) m m' := by
  rw [execAll_movRi64, setReg_mk host.2.1, execAll_cons (compares _)]
  simp only [execAll, exec, known, setReg_mk host.2.1]
  refine ⟨_, rfl, writes_mk (fun r other _ => by simp [other]) ?_⟩
  simp only [Function.update_self]
  exact boolWord_merge c

section

variable (env : Env) (signed : Bool) {d a b : Reg} (host : IsHost d) (m : Machine)

include host in
theorem exec_less (apart : a ≠ d) (apart' : b ≠ d) :
    ∃ m', execAll env [movRi64 d 0, aluRR .cmp a b, .setcc (ltCc signed) d] m = some m' ∧
      Writes d (boolWord (ltOp signed (m.regs a) (m.regs b))) m m' :=
  exec_setcc env host (fun _ => by simp [exec, Machine.alu, Alu.result, Alu.flags, apart, apart'])
    (eval_ltCc_sub signed (m.regs a) (m.regs b))

include host in
theorem exec_lessImm (apart : a ≠ d) (imm : BitVec 32) :
    ∃ m', execAll env [movRi64 d 0, aluRi .cmp a imm, .setcc (ltCc signed) d] m = some m' ∧
      Writes d (boolWord (ltOp signed (m.regs a) (sext32 imm))) m m' :=
  exec_setcc env host (fun _ => by simp [exec, Machine.alu, Alu.result, Alu.flags, apart])
    (eval_ltCc_sub signed (m.regs a) (sext32 imm))

include host in
theorem exec_zeroLess (apart : b ≠ d) :
    ∃ m', execAll env [movRi64 d 0, aluRR .test b b, .setcc (if signed then .g else .a) d] m =
        some m' ∧
      Writes d (boolWord (ltOp signed 0 (m.regs b))) m m' :=
  exec_setcc env host (fun _ => by simp [exec, Machine.alu, Alu.result, Alu.flags, apart])
    (eval_zeroLt_logic signed (m.regs b))

end

theorem Writes.after_scratch {env : Env} {d a : Reg} {v : Word64} {m : Machine}
    {code : List Instr}
    (rest : ∃ m', execAll env code (m.setReg scratch (m.regs a)) = some m' ∧
      Writes d v (m.setReg scratch (m.regs a)) m') :
    ∃ m', execAll env (movRR scratch a ++ code) m = some m' ∧ Writes d v m m' := by
  obtain ⟨m', ran, written⟩ := rest
  exact ⟨m', (execAll_movRR (by decide) code).trans ran,
    ((Keeps.refl _ m).setReg (by decide) (by simp) _ m.flags).trans written.toKeeps,
    written.value⟩

theorem exec_sltCode (env : Env) (signed : Bool) {d : Reg} (host : IsHost d)
    (host1 : ∀ r, r1 = some r → IsHost r) (host2 : ∀ r, r2 = some r → IsHost r) (m : Machine) :
    ∃ m', execAll env (sltCode signed d r1 r2) m = some m' ∧
      Writes d (boolWord (ltOp signed (srcVal m r1) (srcVal m r2))) m m' := by
  have free : scratch ≠ d := host.1.symm
  rcases r1 with _ | a <;> rcases r2 with _ | b
  · refine ⟨_, execAll_movRi64 [], ?_⟩
    rw [setReg_mk host.2.1]
    refine writes_mk (fun r other _ => by simp [other]) ?_
    cases signed <;> simp [srcVal, ltOp, boolWord]
  · by_cases same : d = b
    · have less := exec_zeroLess env signed host (m.setReg scratch (m.regs b)) free
      simp only [sltCode, if_pos same]
      refine Writes.after_scratch ?_
      simpa [srcVal] using less
    · simp only [sltCode, if_neg same]
      exact exec_zeroLess env signed host m (Ne.symm same)
  · by_cases same : d = a
    · have less := exec_lessImm env signed host (m.setReg scratch (m.regs a)) free 0
      simp only [sltCode, if_pos same]
      refine Writes.after_scratch ?_
      simpa [srcVal, sext32] using less
    · simp only [sltCode, if_neg same]
      exact exec_lessImm env signed host m (Ne.symm same) 0
  · have first := (host1 a rfl).1
    have second := (host2 b rfl).1
    by_cases same : d = a
    · by_cases same' : d = b
      · -- Both operands are the destination, and nothing is below itself.
        subst same
        subst same'
        simp only [sltCode, and_self, if_true, List.nil_append]
        have never : Cc.eval (ltCc signed) (subFlags 0#64 0#64) =
            some (ltOp signed (srcVal m (some d)) (srcVal m (some d))) := by
          rw [eval_ltCc_sub]
          cases signed <;> simp [ltOp, BitVec.slt, BitVec.ult]
        exact exec_setcc env host
          (fun f => by simp [exec, Machine.alu, Alu.result, Alu.flags]) never
      · have less := exec_less env signed host (m.setReg scratch (m.regs a)) free (Ne.symm same')
        simp only [sltCode, same', and_false, if_false, if_pos same]
        refine Writes.after_scratch ?_
        simpa [srcVal, second] using less
    · by_cases same' : d = b
      · have less := exec_less env signed host (m.setReg scratch (m.regs b)) (Ne.symm same) free
        simp only [sltCode, same, false_and, if_false, if_pos same']
        refine Writes.after_scratch ?_
        simpa [srcVal, first] using less
      · simp only [sltCode, same, same', and_self, if_false]
        exact exec_less env signed host m (Ne.symm same) (Ne.symm same')

theorem computes_rvSltImm (operand : IsOperand rd) (src1 : IsSrc rs1 r1) (imm : BitVec 32)
    (signed : Bool) (pc : Nat) :
    Computes st rd (fun regs => boolWord (ltOp signed (regRead regs rs1) (sext32 imm)))
      (rvSltImm rd rs1 imm signed pc) := by
  unfold rvSltImm
  simp only [rvSrc_isSrc src1, pure_bind]
  refine computes_routine operand (by simp [isSrc_not_reserved src1]) _ (fun d => rfl)
    fun d host env m => ?_
  rw [← srcVal_isSrc src1]
  rcases r1 with _ | a
  · -- The scratch register is cleared and compared.
    obtain ⟨m', ran, written⟩ := exec_lessImm env signed host
      ({ m with flags := movFlags 0 m.flags }.setReg scratch 0) host.1.symm imm
    refine ⟨m', (execAll_movRi64 _).trans ran,
      ((Keeps.refl _ m).setReg (by decide) (by simp) _ _).trans written.toKeeps, ?_⟩
    rw [written.value]
    simp [srcVal]
  · by_cases same : d = a
    · have less := exec_lessImm env signed host (m.setReg scratch (m.regs a)) host.1.symm imm
      simp only [if_pos same]
      refine Writes.after_scratch ?_
      simpa [srcVal] using less
    · simp only [if_neg same]
      exact exec_lessImm env signed host m (Ne.symm same) imm

/-- The comparison of two registers, where the carry of an addition is not used again. -/
theorem computes_rvSltRr (operand : IsOperand rd) (src1 : IsSrc rs1 r1) (src2 : IsSrc rs2 r2)
    {signed : Bool} (compares : signed = true ∨ fusesCarry st.lastAddCf rd rs1 rs2 = false)
    (pc : Nat) :
    Computes st rd (fun regs => boolWord (ltOp signed (regRead regs rs1) (regRead regs rs2)))
      (rvSltRr rd rs1 rs2 signed pc) := by
  rcases operand with rfl | mapped
  · exact computes_zero _
  obtain ⟨slot, mapped⟩ := Option.isSome_iff_exists.mp mapped
  have ordinary : ∀ rs ∈ [rs1, rs2], regIsReserved rs = false := by
    simp [isSrc_not_reserved src1, isSrc_not_reserved src2]
  have apart : ¬(signed = false ∧ fusesCarry st.lastAddCf rd rs1 rs2 = true) := by
    rintro ⟨rfl, fuses⟩
    rcases compares with signed | unused
    · cases signed
    · rw [fuses] at unused
      cases unused
  refine computes_of_code mapped (sltCode signed (regMap slot) r1 r2) ⟨none, ?_⟩ fun env m => ?_
  · rw [rvSltRr, rvRoutine_mapped mapped ordinary]
    simp [apart, rvSrc_isSrc src1, rvSrc_isSrc src2]
  · rw [← srcVal_isSrc src1, ← srcVal_isSrc src2]
    exact exec_sltCode env signed (isHost_regMap slot) (host_of_isSrc src1) (host_of_isSrc src2) m

end

end Jar.Recompiler
