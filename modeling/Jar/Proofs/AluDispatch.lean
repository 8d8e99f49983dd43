import Jar.Proofs.DispatchGas

/-! The code of each arithmetic instruction writes what the interpreter writes. -/

namespace Jar

theorem execInst_result {Host : Type} {prog : Program} {handler : EcallHandler Host}
    {idx : prog.Idx} {rd : RegIdx} {value : Regs → Word64}
    (result : (prog.fetch idx).inst.result = some (rd, value)) (s : ExecState Host) :
    execInst prog handler idx s =
      advance prog idx { s with gpr := regWrite s.gpr rd (value s.gpr) } := by
  unfold execInst
  generalize (prog.fetch idx).inst = inst at result
  cases inst <;> cases result <;> rfl

/-- The operations that the division routine lowers. -/
def RegOp.divides : RegOp → Bool
  | .div | .divu | .rem | .remu | .divw | .divuw | .remw | .remuw => true
  | _ => false

def Inst.divides : Inst → Bool
  | .opReg op _ _ _ => op.divides
  | _ => false

namespace Recompiler

open X86 Lower

/-- A product is fused with the high product after it. -/
def FusesProduct (w : BitVec 32) (rest : List Byte) : Prop :=
  major w = opOp ∧ funct7 w = 0b0000001#7 ∧ funct3 w = 0b000#3 ∧ ∃ signed hi,
    mulTrailer (rdField w) (rs1Field w) (rs2Field w) rest = some (signed, hi) ∧
      (mulSlots (rdField w) (rs1Field w) (rs2Field w) hi).isSome

/-- An unsigned comparison reads the carry of the addition before it. -/
def ReusesCarry (w : BitVec 32) (lastAddCf : Option (HostSlot × HostSlot × HostSlot)) : Prop :=
  ∃ rd rs1 rs2, decode32 w = .opReg .sltu rd rs1 rs2 ∧ fusesCarry lastAddCf rd rs1 rs2 = true

section

variable {env : CodeEnv} {g : GasState} {st : LowerState} {w : BitVec 32}

/-- Between two states of the machine the interpreter executes an instruction that is not a jump:
its registers are the guest registers of the machine, and the machine's own state is unchanged. -/
structure Performs (inst : Inst) (m m' : Machine) : Prop where
  /-- The interpreter goes on with the registers that the machine holds. -/
  interp : ∀ {Host : Type} (prog : Program) (handler : EcallHandler Host) (idx : prog.Idx)
    (s : ExecState Host), (prog.fetch idx).inst = inst → s.gpr = guestRegs m →
      execInst prog handler idx s = advance prog idx { s with gpr := guestRegs m' }
  rsp : m'.regs .rsp = m.regs .rsp
  gas : m'.regs gasReg = m.regs gasReg
  stack : m'.stack = m.stack
  ctx : m'.ctx = m.ctx
  mem : m'.mem = m.mem

theorem Sets.performs {inst : Inst} {rd : RegIdx} {value : Regs → Word64} {m m' : Machine}
    (result : inst.result = some (rd, value)) (sets : Sets rd (value (guestRegs m)) m m') :
    Performs inst m m' where
  interp prog handler idx s fetched same := by
    rw [execInst_result (fetched ▸ result), sets.guest, same]
  rsp := sets.rsp
  gas := sets.gas
  stack := sets.stack
  ctx := sets.ctx
  mem := sets.mem

/-- The routine of an arithmetic instruction that is lowered on its own, apart from the divisions
and from a comparison that reads a carry. -/
theorem Lowers.yields {inst : Inst} {body : Lower Unit} {pc : Nat} {rest : List Byte} {rd : RegIdx}
    {value : Regs → Word64} (lowers : Lowers env pc rest inst body)
    (result : inst.result = some (rd, value)) (undivided : inst.divides = false)
    (compares : ∀ rd rs1 rs2, inst = .opReg .sltu rd rs1 rs2 →
      fusesCarry st.lastAddCf rd rs1 rs2 = false) : Yields st rd value body := by
  cases lowers with
  | arithmetic known yields =>
    obtain ⟨rfl, rfl⟩ := Prod.mk.inj (Option.some.inj (known.symm.trans result))
    exact yields st
  | sltu operand operand1 operand2 =>
    cases result
    exact (computes_rvSltRr operand operand1.isSrc operand2.isSrc
      (.inr (compares _ _ _ rfl)) pc).yields operand
  | divide operand operand1 operand2 known =>
    subst known
    rename_i signed remainder is32
    revert undivided
    cases signed <;> cases remainder <;> cases is32 <;> simp [Inst.divides, RegOp.divides, divOp]
  | ends terminator => cases inst <;> cases result <;> cases terminator
  | _ => cases result

/-- The code of an arithmetic instruction whose registers live in host registers runs from every
state to one where the interpreter's result is written. -/
theorem compileRv4_performs (length : lengthBits w = 0b11#2)
    (ordinary : wordUsesReservedReg w = false) (unspilled : wordUsesSpilledReg w = false)
    (arithmetic : (decode32 w).result.isSome = true) (undivided : (decode32 w).divides = false)
    {rest : List Byte} (unfused : ¬FusesProduct w rest) (compares : ¬ReusesCarry w st.lastAddCf)
    (pc instLen : Nat) :
    ∃ r g' st' items, compileRv4 env w pc instLen rest g st = some ((r, g'), st') ∧
      st'.items = st.items ++ items ∧
      ∀ hostEnv m, ∃ m', Steps hostEnv items m m' ∧ Performs (decode32 w) m m' := by
  obtain ⟨⟨rd, value⟩, result⟩ := Option.isSome_iff_exists.mp arithmetic
  have dispatched : Dispatched env pc rest w (decode32 w) (compileOpcode env w pc instLen rest) :=
    dispatched_opcode length ((plainWord_iff length).mpr ⟨ordinary, unspilled⟩) instLen
  have same : compileRv4 env w pc instLen rest = compileOpcode env w pc instLen rest := by
    simp [compileRv4, compileWord, ordinary, unspilled]
  rw [same]
  generalize compileOpcode env w pc instLen rest = d at dispatched
  generalize known : decode32 w = inst at *
  cases dispatched with
  | single lowers row preserveCf =>
    obtain ⟨st', items, emitted, appends, runs⟩ := lowers.yields result undivided
      fun rd rs1 rs2 is => by
        by_contra reused
        exact compares ⟨rd, rs1, rs2, known.trans is, by simpa using reused⟩
    refine ⟨_, _, st', items, by rw [compileArm_apply, emitted]; rfl, appends.appended,
      fun hostEnv m => ?_⟩
    obtain ⟨m', steps, sets, -⟩ := runs hostEnv m
    exact ⟨m', steps, sets.performs result⟩
  | pair fuses =>
    cases fuses with
    | product mul found slots =>
      obtain ⟨opcode, f7, f3, rfl, rfl, rfl⟩ := mul
      exact absurd ⟨opcode, f7, f3, _, _, found, by rw [slots]; rfl⟩ unfused
    | _ => cases result
  | reserved | reservedFence => cases result
  | fence known => obtain rfl | rfl := known <;> cases result

/-- `sra x15, x10, x15`: the count is in RCX, which is also the destination. -/
theorem compileRv4_performs_sra : ∃ r g' st' items,
    compileRv4 ⟨25, 0, 0, fun _ => false⟩ 0x40F557B3#32 0 4 [] ⟨.new, 0, false⟩
        ⟨fun _ => .unknown, none, 0, []⟩ = some ((r, g'), st') ∧
      st'.items = [] ++ items ∧ ∀ hostEnv m, ∃ m', Steps hostEnv items m m' ∧
        Performs (.opReg .sra 15 10 15) m m' :=
  compileRv4_performs (by decide) (by decide) (by decide) (by decide) (by decide)
    (fun fused => absurd fused.2.1 (by decide))
    (fun ⟨_, _, _, _, reused⟩ => absurd reused (by simp [fusesCarry])) 0 4

end

end Recompiler

end Jar
