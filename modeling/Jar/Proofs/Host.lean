import Jar.Lib.Word
import Jar.Proofs.Halves
import Jar.Recompiler.Run

/-! Rules for running emitted items, and what a straight-line lowering does to the machine. -/

namespace Jar.X86.Machine

/-! ## Registers and frames -/

@[simp]
theorem setReg_regs (m : Machine) (r : Reg) (v : Word64) :
    (m.setReg r v).regs = Function.update m.regs r v := rfl

@[simp]
theorem setReg_flags (m : Machine) (r : Reg) (v : Word64) : (m.setReg r v).flags = m.flags := rfl

@[simp]
theorem setReg_ctx (m : Machine) (r : Reg) (v : Word64) : (m.setReg r v).ctx = m.ctx := rfl

@[simp]
theorem setReg_mem (m : Machine) (r : Reg) (v : Word64) : (m.setReg r v).mem = m.mem := rfl

/-- Writing a register other than RSP leaves the stack alone. -/
@[simp]
theorem setReg_stack {m : Machine} {r : Reg} {v : Word64} (ordinary : r ≠ .rsp) :
    (m.setReg r v).stack = m.stack := by
  simp [setReg, ordinary]

/-- Writing back a register's own value changes nothing. -/
theorem setReg_self {m : Machine} {r : Reg} (ordinary : r ≠ .rsp) :
    m.setReg r (m.regs r) = m := by
  simp [setReg, ordinary]

end Jar.X86.Machine

namespace Jar.Recompiler

open X86

/-! ## Host registers -/

/-- A register that holds guest values: not the scratch, stack or gas register. -/
def IsHost (r : Reg) : Prop := r ≠ scratch ∧ r ≠ .rsp ∧ r ≠ gasReg

theorem isHost_regMap (slot : HostSlot) : IsHost (regMap slot) := by
  revert slot
  unfold IsHost
  decide

theorem regMap_injective : Function.Injective regMap := by
  intro a b
  revert a b
  decide

/-- A resolved source: `x0` without a register, or a mapped register. -/
def IsSrc (rs : RegIdx) (r : Option Reg) : Prop :=
  (rs = 0 ∧ r = none) ∨ (rs ≠ 0 ∧ ∃ h, hostReg rs = some h ∧ r = some h)

/-- A state that differs from another only in given registers and the flags. -/
structure Keeps (clobbered : List Reg) (m m' : Machine) : Prop where
  regs : ∀ r, r ∉ clobbered → m'.regs r = m.regs r
  stack : m'.stack = m.stack
  ctx : m'.ctx = m.ctx
  mem : m'.mem = m.mem

/-- Writing a clobbered register, and the flags, keeps the rest. -/
theorem Keeps.setReg {clobbered : List Reg} {m m' : Machine} (keeps : Keeps clobbered m m')
    {r : Reg} (ordinary : r ≠ .rsp) (listed : r ∈ clobbered) (v : Word64) (flags : Flags) :
    Keeps clobbered m ({ m' with flags := flags }.setReg r v) where
  regs q unlisted := by
    have distinct : q ≠ r := by
      rintro rfl
      exact unlisted listed
    simpa [distinct] using keeps.regs q unlisted
  stack := by simpa [ordinary] using keeps.stack
  ctx := keeps.ctx
  mem := keeps.mem

theorem Keeps.refl (clobbered : List Reg) (m : Machine) : Keeps clobbered m m :=
  ⟨fun _ _ => rfl, rfl, rfl, rfl⟩

/-! ## Running items -/

section

variable {env : Env} {items rest : List Item} {m m' : Machine}

@[simp]
theorem run_nil : run env [] m = .fall m := rfl

theorem run_ins {i : Instr} (next : exec env m i = .next m') :
    run env (.ins i :: rest) m = run env rest m' := by
  simp only [run, runFrom, next]

@[simp]
theorem run_newLabel : run env (.newLabel :: rest) m = run env rest m := rfl

@[simp]
theorem run_bind {l : Label} : run env (.bind l :: rest) m = run env rest m := rfl

@[simp]
theorem run_trapEntry {pc width : Nat} :
    run env (.trapEntry pc width :: rest) m = run env rest m := rfl

@[simp]
theorem run_jmp {l : Label} : run env (.jmp l :: rest) m = skipTo env l rest m := rfl

theorem run_jcc {cc : Cc} {l : Label} {taken : Bool} (known : cc.eval m.flags = some taken) :
    run env (.jcc cc l :: rest) m = if taken then skipTo env l rest m else run env rest m := by
  simp only [run, skipTo, runFrom, known]
  split <;> rfl

theorem run_jne {l : Label} {p : Prop} [Decidable p] (zero : m.flags.zero = some (decide p)) :
    run env (.jcc .ne l :: rest) m = if p then run env rest m else skipTo env l rest m := by
  rw [run_jcc (show Cc.eval .ne m.flags = some (!decide p) by simp [Cc.eval, zero])]
  by_cases holds : p <;> simp [holds]

@[simp]
theorem skipTo_nil {l : Label} : skipTo env l [] m = .label l m := rfl

@[simp]
theorem skipTo_bind {l l' : Label} :
    skipTo env l (.bind l' :: rest) m =
      if l = l' then run env rest m else skipTo env l rest m := by
  simp only [run, skipTo, runFrom]
  split <;> rfl

@[simp]
theorem skipTo_ins {l : Label} {i : Instr} :
    skipTo env l (.ins i :: rest) m = skipTo env l rest m := rfl

@[simp]
theorem skipTo_newLabel {l : Label} :
    skipTo env l (.newLabel :: rest) m = skipTo env l rest m := rfl

@[simp]
theorem skipTo_jmp {l l' : Label} :
    skipTo env l (.jmp l' :: rest) m = skipTo env l rest m := rfl

@[simp]
theorem skipTo_jcc {l l' : Label} {cc : Cc} :
    skipTo env l (.jcc cc l' :: rest) m = skipTo env l rest m := rfl

@[simp]
theorem skipTo_code {l : Label} (code : List Instr) :
    skipTo env l (code.map .ins ++ rest) m = skipTo env l rest m := by
  induction code with
  | nil => rfl
  | cons i code ih => simpa using ih

/-- `mov r64, r64` writes the register even where it emits nothing. -/
theorem run_movRR {dst src : Reg} (ordinary : dst ≠ .rsp) :
    run env ((movRR dst src).map .ins ++ rest) m = run env rest (m.setReg dst (m.regs src)) := by
  unfold movRR
  split
  · next same =>
    subst same
    simp [Machine.setReg_self ordinary]
  · exact run_ins rfl

/-- The flags after a constant move, whose zeroing form writes them. -/
def movFlags (imm : Word64) (flags : Flags) : Flags := if imm = 0 then logicFlags 0#32 else flags

/-- A constant move loads the constant in each of its forms. -/
theorem exec_movRi64 {dst : Reg} {imm : Word64} :
    exec env m (movRi64 dst imm) =
      .next ({ m with flags := movFlags imm m.flags }.setReg dst imm) := by
  unfold movRi64 movFlags
  split
  · next zero => subst zero; rfl
  · split
    · next small =>
      have value : (low32 imm).zeroExtend 64 = imm := Word.zeroExtend_low imm (by omega)
      simp [exec, Machine.setReg32, value]
    · split
      · next range =>
        have value : sext32 (low32 imm) = imm := Word.signExtend_low imm range.1 range.2
        simp [exec, value]
      · rfl

theorem run_movRi64 {dst : Reg} {imm : Word64} :
    run env (.ins (movRi64 dst imm) :: rest) m =
      run env rest ({ m with flags := movFlags imm m.flags }.setReg dst imm) :=
  run_ins exec_movRi64

end

/-! ## Conditions after a comparison -/

section

variable {n : Nat} (a b : BitVec (n + 1))

@[simp]
theorem eval_b_sub : Cc.eval .b (subFlags a b) = some (a.ult b) := rfl

@[simp]
theorem eval_ae_sub : Cc.eval .ae (subFlags a b) = some (!a.ult b) := rfl

@[simp]
theorem eval_l_sub : Cc.eval .l (subFlags a b) = some (a.slt b) := by
  simp [Cc.eval, subFlags, Word.slt_eq_sign_ne_overflow]

end

end Jar.Recompiler
