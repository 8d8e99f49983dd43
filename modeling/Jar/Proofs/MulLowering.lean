import Jar.Proofs.AluLowering

/-! The code of the high products, and the values it computes. -/

namespace Jar.Recompiler

open X86 Lower

/-! ## Values -/

/-- The high word of a mixed product is that of the unsigned one, less the second factor when the
first is negative. -/
theorem highWord_mixed (a b : Word64) :
    highWord (a.signExtend 128) (b.zeroExtend 128) =
      highWord (a.zeroExtend 128) (b.zeroExtend 128) - if a.msb then b else 0 := by
  have boundA := a.isLt
  have boundB := b.isLt
  apply BitVec.eq_of_toNat_eq
  cases negative : a.msb with
  | false => simp [highWord, BitVec.signExtend_eq_setWidth_of_msb_false negative]
  | true =>
    have product : a.toNat * b.toNat < 2 ^ 64 * 2 ^ 64 := Nat.mul_lt_mul'' boundA boundB
    have extended : (a.signExtend 128).toNat = a.toNat + (2 ^ 128 - 2 ^ 64) := by
      rw [BitVec.toNat_signExtend, negative, if_pos rfl, BitVec.toNat_setWidth,
        Nat.mod_eq_of_lt (by omega)]
    simp only [highWord, BitVec.extractLsb'_toNat, BitVec.toNat_mul, extended,
      BitVec.truncate_eq_setWidth, BitVec.toNat_setWidth, if_true, BitVec.toNat_sub,
      Nat.mod_eq_of_lt (show a.toNat < 2 ^ 128 by omega),
      Nat.mod_eq_of_lt (show b.toNat < 2 ^ 128 by omega), Nat.add_mul, Nat.shiftRight_eq_div_pow]
    omega

/-! ## Runs -/

section

variable {env : Env} {d : Reg} {r1 r2 : Option Reg}

/-- A second factor in RAX is saved in the scratch register, and a RAX to be restored pushed. -/
def mulSaved (m : Machine) (d : Reg) (r2 : Option Reg) : Machine :=
  let saved := if r2 = some .rax then m.setReg scratch (m.regs .rax) else m
  if d ≠ .rax then saved.push (m.regs .rax) else saved

theorem exec_mulSaves (d : Reg) (r2 : Option Reg) (m : Machine) (code : List Instr) :
    execAll env (onlyIf (r2 = some .rax) (movRR scratch .rax) ++
      (onlyIf (d ≠ .rax) [.push .rax] ++ code)) m = execAll env code (mulSaved m d r2) := by
  by_cases factor : r2 = some .rax <;> by_cases dest : d = .rax <;>
    simp [onlyIf, mulSaved, factor, dest, execAll, exec]

theorem regs_mulSaved {r : Reg} (notScratch : r ≠ scratch) (notRsp : r ≠ .rsp) (m : Machine)
    (d : Reg) (r2 : Option Reg) : (mulSaved m d r2).regs r = m.regs r := by
  by_cases factor : r2 = some .rax <;> by_cases dest : d = .rax <;>
    simp [mulSaved, factor, dest, Machine.push, notScratch, notRsp]

variable (env) in
/-- The first factor goes to RAX, where it may have been before the push. -/
theorem exec_loadRax (host1 : ∀ r, r1 = some r → IsHost r) (m : Machine) (d : Reg)
    (r2 : Option Reg) (code : List Instr) :
    ∃ f, execAll env (loadRax r1 (if d ≠ .rax then some 0 else none) ++ code) (mulSaved m d r2) =
      execAll env code ({ mulSaved m d r2 with flags := f }.setReg .rax (srcVal m r1)) := by
  rcases r1 with _ | a
  · exact ⟨_, execAll_movRi64 code⟩
  · by_cases held : a = .rax
    · subst held
      have same : (mulSaved m d r2).setReg .rax (m.regs .rax) = mulSaved m d r2 := by
        rw [← regs_mulSaved (by decide) (by decide) m d r2]
        exact Machine.setReg_self (by decide)
      refine ⟨(mulSaved m d r2).flags, ?_⟩
      by_cases dest : d = .rax
      · simpa [loadRax, dest, srcVal] using congrArg (execAll env code) same.symm
      · have top : (mulSaved m d r2).stack[0]? = some (m.regs .rax) := by
          simp [mulSaved, dest, Machine.push]
        simp [loadRax, dest, execAll, exec, top, srcVal]
    · refine ⟨(mulSaved m d r2).flags, ?_⟩
      simp [loadRax, held, srcVal, regs_mulSaved (host1 a rfl).1 (host1 a rfl).2.1]

/-- A state around the product: RAX and the scratch register are taken. -/
structure MulFrame (d : Reg) (m m' : Machine) : Prop where
  regs : ∀ r, r ≠ .rax → r ≠ scratch → r ≠ .rsp → m'.regs r = m.regs r
  rsp : m'.regs .rsp = m.regs .rsp - if d ≠ .rax then 8 else 0
  stack : m'.stack = (if d ≠ .rax then [m.regs .rax] else []) ++ m.stack
  ctx : m'.ctx = m.ctx
  mem : m'.mem = m.mem

theorem mulFrame_mulSaved (m : Machine) (d : Reg) (r2 : Option Reg) :
    MulFrame d m (mulSaved m d r2) := by
  refine ⟨fun r _ notScratch notRsp => regs_mulSaved notScratch notRsp m d r2, ?_, ?_, ?_, ?_⟩ <;>
    by_cases factor : r2 = some .rax <;> by_cases dest : d = .rax <;>
    simp [mulSaved, factor, dest, Machine.push]

/-- Writing RAX or the scratch register, and the flags, stays in the frame. -/
theorem MulFrame.setReg {m m' : Machine} (frame : MulFrame d m m') {r : Reg}
    (taken : r = .rax ∨ r = scratch) (v : Word64) (f : Flags) :
    MulFrame d m ({ m' with flags := f }.setReg r v) := by
  have notRsp : r ≠ .rsp := by rcases taken with rfl | rfl <;> decide
  refine ⟨fun q notRax notScratch isRsp => ?_, ?_, ?_, frame.ctx, frame.mem⟩
  · have distinct : q ≠ r := by
      rcases taken with rfl | rfl
      · exact notRax
      · exact notScratch
    simpa [distinct] using frame.regs q notRax notScratch isRsp
  · simpa [notRsp.symm] using frame.rsp
  · simpa [notRsp] using frame.stack

variable (env) in
theorem exec_mulPrologue (host1 : ∀ r, r1 = some r → IsHost r)
    (host2 : ∀ r, r2 = some r → IsHost r) (m : Machine) :
    ∃ m', execAll env (mulPrologue d r1 r2) m = some m' ∧ MulFrame d m m' ∧
      m'.regs .rax = srcVal m r1 ∧ m'.regs (factorReg r2) = srcVal m r2 := by
  obtain ⟨f, loaded⟩ := exec_loadRax env host1 m d r2
    (onlyIf (r2 = none) [movRi64 scratch 0])
  rw [mulPrologue, List.append_assoc, List.append_assoc, exec_mulSaves, loaded]
  have frame := (mulFrame_mulSaved m d r2).setReg (.inl rfl) (srcVal m r1) f
  rcases r2 with _ | b
  · refine ⟨_, execAll_movRi64 [], frame.setReg (.inr rfl) _ _, ?_, ?_⟩
    · simp
    · simp [factorReg, srcVal]
  · refine ⟨_, rfl, frame, by simp, ?_⟩
    by_cases held : b = .rax
    · by_cases dest : d = .rax <;>
        simp [factorReg, held, mulSaved, dest, Machine.push, srcVal]
    · have kept := frame.regs b held (host2 b rfl).1 (host2 b rfl).2.1
      simpa [factorReg, held, srcVal] using kept

variable (env) in
/-- The high word moves to the destination and RAX is restored. -/
theorem exec_mulEpilogue {m m' : Machine} (host : IsHost d) (frame : MulFrame d m m') :
    ∃ m'', execAll env (if d ≠ .rax then movRR d scratch ++ [.pop .rax] else movRR .rax scratch)
        m' = some m'' ∧ Writes d (m'.regs scratch) m m'' := by
  obtain ⟨notScratch, notRsp, -⟩ := host
  obtain ⟨regs, rsp, stack, ctx, mem⟩ := frame
  by_cases dest : d = .rax
  · subst dest
    simp [setReg_mk, ctx, mem]
    rw [stack]
    refine writes_mk (fun r other apart => ?_) (by simp)
    by_cases isRsp : r = .rsp
    · simp [isRsp, rsp]
    · simp [other, regs r other apart isRsp]
  · simp [dest, setReg_mk, notRsp, execAll, exec, Machine.pop, stack, ctx, mem]
    refine writes_mk (fun r other apart => ?_) (by simp [dest, notRsp])
    by_cases isRsp : r = .rsp
    · simp [isRsp, rsp, dest, Ne.symm notRsp]
    · by_cases isRax : r = .rax
      · simp [isRax]
      · simp [isRsp, isRax, other, regs r isRax apart isRsp]

/-! ## Products -/

def mulMixedItems (b : Reg) (l : Label) : List Item :=
  [.ins (.push b), .ins (.push .rax), .ins (.mulWide false b), .ins (.pop .rax), .newLabel,
    .ins (aluRR .test .rax .rax), .jcc .ns l, .ins (.pop .rax), .ins (aluRR .sub scratch .rax),
    .newLabel, .jmp (l + 1), .bind l, .ins (aluRi .add .rsp 8), .bind (l + 1)]

/-- The items of a high product between prologue and epilogue. -/
def mulItems (aSigned bSigned : Bool) (b : Reg) (l : Label) : List Item :=
  if aSigned = bSigned then [.ins (.mulWide aSigned b)] else mulMixedItems b l

theorem fits_mulItems (aSigned bSigned : Bool) (b : Reg) {base l : Nat} (above : base ≤ l)
    (table : Nat) : Fits base table l (mulItems aSigned bSigned b l) := by
  unfold mulItems
  split
  · exact ⟨trivial, trivial⟩
  · simp [mulMixedItems, Fits, Item.Placed, Item.newLabels]
    omega

theorem steps_mulWide (signed : Bool) {b : Reg} {m m' : Machine} (frame : MulFrame d m m') :
    ∃ m'', Steps env [.ins (.mulWide signed b)] m' m'' ∧ MulFrame d m m'' ∧
      m''.regs scratch = highWord
        (if signed then (m'.regs .rax).signExtend 128 else (m'.regs .rax).zeroExtend 128)
        (if signed then (m'.regs b).signExtend 128 else (m'.regs b).zeroExtend 128) := by
  refine ⟨_, fun rest => run_ins rfl, ?_, ?_⟩
  · exact (frame.setReg (.inl rfl) _ _).setReg (.inr rfl) _ _
  · simp [Machine.mulWide, highWord]

theorem steps_mulMixed {b : Reg} (notRsp : b ≠ .rsp) (l : Label) {m m' : Machine}
    (frame : MulFrame d m m') :
    ∃ m'', Steps env (mulMixedItems b l) m' m'' ∧ MulFrame d m m'' ∧
      m''.regs scratch = highWord ((m'.regs .rax).signExtend 128)
        ((m'.regs b).zeroExtend 128) := by
  rw [highWord_mixed]
  -- Behind the test, the second factor is on the stack and the first one in RAX.
  let hi := highWord ((m'.regs .rax).zeroExtend 128) ((m'.regs b).zeroExtend 128)
  let tested : Machine := ⟨Function.update (Function.update m'.regs .rsp (m'.regs .rsp - 8))
    scratch hi, logicFlags (m'.regs .rax), m'.regs b :: m'.stack, m'.ctx, m'.mem⟩
  have multiplied : execAll env [.push b, .push .rax, .mulWide false b, .pop .rax] m' =
      some { tested with flags := .unknown } := by
    simp [execAll, exec, Machine.push, Machine.pop, Machine.mulWide, setReg_mk, tested, notRsp]
    funext r
    by_cases isRsp : r = .rsp
    · simp [isRsp]
    · by_cases isRax : r = .rax
      · simp [isRax]
      · simp [isRsp, isRax, hi, highWord, Function.update_apply]
  have start : ∀ rest, run env (mulMixedItems b l ++ rest) m' =
      run env (.jcc .ns l :: ((mulMixedItems b l).drop 7 ++ rest)) tested := by
    intro rest
    have first := steps_of_execAll multiplied
      (.newLabel :: .ins (aluRR .test .rax .rax) :: .jcc .ns l ::
        ((mulMixedItems b l).drop 7 ++ rest))
    refine first.trans ?_
    rw [run_newLabel]
    refine run_ins ?_
    simp [exec, Machine.alu, Alu.result, Alu.flags, tested]
  have sign : Cc.eval .ns tested.flags = some (!(m'.regs .rax).msb) := rfl
  cases negative : (m'.regs .rax).msb with
  | false =>
    -- The saved factor is dropped.
    refine ⟨{ m' with flags := addFlags (m'.regs .rsp - 8) 8 }.setReg scratch hi, fun rest => ?_,
      frame.setReg (.inr rfl) _ _, by simp [hi]⟩
    have dropped : exec env tested (aluRi .add .rsp 8) =
        .next ({ m' with flags := addFlags (m'.regs .rsp - 8) 8 }.setReg scratch hi) := by
      have eight : sext32 8#32 = 8#64 := by decide
      simp [exec, Machine.alu, Alu.result, Alu.flags, Machine.setReg, tested, eight]
      funext r
      by_cases isRsp : r = .rsp
      · simp [isRsp]
      · simp [isRsp, Function.update_apply]
    rw [start, run_jcc sign]
    simp only [negative, Bool.not_false, if_true, mulMixedItems, List.drop_succ_cons, List.drop_zero,
      List.cons_append, List.nil_append, skipTo_ins, skipTo_newLabel, skipTo_jmp, skipTo_bind]
    exact run_ins dropped
  | true =>
    refine ⟨({ m' with flags := subFlags hi (m'.regs b) }.setReg .rax (m'.regs b)).setReg scratch
      (hi - m'.regs b), fun rest => ?_, (frame.setReg (.inl rfl) _ _).setReg (.inr rfl) _ _,
      by simp [hi]⟩
    have corrected : execAll env [.pop .rax, aluRR .sub scratch .rax] tested =
        some (({ m' with flags := subFlags hi (m'.regs b) }.setReg .rax (m'.regs b)).setReg scratch
          (hi - m'.regs b)) := by
      simp [execAll, exec, Machine.alu, Alu.result, Alu.flags, Machine.pop, setReg_mk, tested]
      funext r
      by_cases isRsp : r = .rsp
      · simp [isRsp]
      · by_cases isScratch : r = scratch
        · simp [isScratch]
        · simp [isRsp, isScratch, Function.update_apply]
    rw [start, run_jcc sign]
    simp only [negative, Bool.not_true, Bool.false_eq_true, if_false, mulMixedItems,
      List.drop_succ_cons, List.drop_zero, List.cons_append, List.nil_append]
    refine (steps_of_execAll corrected _).trans ?_
    simp

/-- The factors of a high product, extended by their signs. -/
def extendBy (signed : Bool) (v : Word64) : BitVec 128 :=
  if signed then v.signExtend 128 else v.zeroExtend 128

variable (env) in
theorem steps_mulItems {aSigned bSigned : Bool} (mixed : bSigned = true → aSigned = true) {b : Reg}
    (notRsp : b ≠ .rsp) (l : Label) {m m' : Machine} (frame : MulFrame d m m') :
    ∃ m'', Steps env (mulItems aSigned bSigned b l) m' m'' ∧ MulFrame d m m'' ∧
      m''.regs scratch =
        highWord (extendBy aSigned (m'.regs .rax)) (extendBy bSigned (m'.regs b)) := by
  cases aSigned <;> cases bSigned
  · exact steps_mulWide false frame
  · cases mixed rfl
  · exact steps_mulMixed notRsp l frame
  · exact steps_mulWide true frame

end

section

variable {st : LowerState} {rd rs1 rs2 : RegIdx} {r1 r2 : Option Reg}

theorem factorReg_ne_rsp (host2 : ∀ r, r2 = some r → IsHost r) : factorReg r2 ≠ .rsp := by
  cases r2 with
  | none => exact (by decide : scratch ≠ .rsp)
  | some b =>
    unfold factorReg
    dsimp only
    split
    · exact (by decide : scratch ≠ .rsp)
    · exact (host2 b rfl).2.1

theorem computes_rvMulh (operand : IsOperand rd) (src1 : IsSrc rs1 r1) (src2 : IsSrc rs2 r2)
    {aSigned bSigned : Bool} (mixed : bSigned = true → aSigned = true) (pc : Nat) :
    Computes st rd (fun regs => highWord (extendBy aSigned (regRead regs rs1))
      (extendBy bSigned (regRead regs rs2))) (rvMulh rd rs1 rs2 aSigned bSigned pc) := by
  rcases operand with rfl | mapped
  · exact computes_zero _
  obtain ⟨slot, mapped⟩ := Option.isSome_iff_exists.mp mapped
  have host := isHost_regMap slot
  have ordinary : ∀ rs ∈ [rs1, rs2], regIsReserved rs = false := by
    simp [isSrc_not_reserved src1, isSrc_not_reserved src2]
  let items := (mulPrologue (regMap slot) r1 r2).map Item.ins ++
    (mulItems aSigned bSigned (factorReg r2) st.labelsLen ++
      (if regMap slot ≠ .rax then movRR (regMap slot) scratch ++ [.pop .rax]
        else movRR .rax scratch).map .ins)
  have emitted : rvMulh rd rs1 rs2 aSigned bSigned pc st = some ((), { st with
      items := st.items ++ items
      labelsLen := st.labelsLen + newLabels items
      regDefs := setDef st.regDefs slot .unknown }) := by
    rw [rvMulh, rvRoutine_mapped mapped ordinary]
    simp only [rvSrc_isSrc src1, rvSrc_isSrc src2, pure_bind]
    cases aSigned <;> cases bSigned
    case false.true => cases mixed rfl
    all_goals simp [items, mulItems, mulMixed, mulMixedItems, Item.newLabels]
  refine ⟨_, items, emitted, ⟨rfl, rfl, fun base table above => ?_⟩,
    by simp only [forget, mapped], fun env m => ?_⟩
  · simpa [items] using (fits_mulItems aSigned bSigned _ above table).append (fits_code _)
  obtain ⟨m₁, prepared, frame, first, second⟩ := exec_mulPrologue env (d := regMap slot)
    (host_of_isSrc src1) (host_of_isSrc src2) m
  obtain ⟨m₂, multiplied, frame₂, high⟩ := steps_mulItems env mixed
    (factorReg_ne_rsp (host_of_isSrc src2)) st.labelsLen frame
  obtain ⟨m₃, restored, written⟩ := exec_mulEpilogue env host frame₂
  refine ⟨m₃, (steps_of_execAll prepared).append (multiplied.append (steps_of_execAll restored)),
    ?_⟩
  rw [high, first, second, srcVal_isSrc src1, srcVal_isSrc src2] at written
  exact written.sets mapped

end

end Jar.Recompiler
