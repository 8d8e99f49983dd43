import Jar.Recompiler.Lower

/-! Lowering of memory accesses, jumps and environment calls, and the value tracking. -/

namespace Jar.Recompiler

open X86 Lower

/-! ## Loads and stores -/

/-- Build the guest address in the scratch register, folding what is known about the base. -/
def rvAddrToScratch (rs1 : RegIdx) (imm : BitVec 32) (pc : Nat) : Lower Unit := do
  if rs1 = 0 then emit [.movImm32 scratch imm]
  else if regIsReserved rs1 then rvEmitPanicAt pc
  else
    let slot ← unwrap (rvSlot rs1)
    let plain : List Instr :=
      if imm ≠ 0 then [.lea32 scratch (regMap slot) imm]
      else [.extend .movzx32 scratch (regMap slot)]
    match (← get).regDefs slot with
    | .const addr => emit [.movImm32 scratch (addr + imm)]
    | .scaledAdd base idx shift =>
      if imm = 0 then emit [.leaSib32 scratch (regMap base) (regMap idx) shift]
      else emit plain
    | _ => emit plain

def widthOf (bytes : Nat) : Width :=
  match bytes with
  | 1 => .w8
  | 2 => .w16
  | 4 => .w32
  | _ => .w64

/-- Load from the address in the scratch register. -/
def emitMemReadSized (dst : Reg) (bytes pc : Nat) : Lower Unit :=
  emitItems [.trapEntry pc bytes, .ins (.loadIndex (widthOf bytes) dst scratch)]

/-- Store to the address in the scratch register. -/
def emitMemWrite (val : Reg) (bytes pc : Nat) : Lower Unit :=
  emitItems [.trapEntry pc bytes, .ins (.storeIndex (widthOf bytes) scratch val)]

def signExtendCode (bytes : Nat) (dst : Reg) : List Instr :=
  match bytes with
  | 1 => [.extend .movsx8 dst dst]
  | 2 => [.extend .movsx16 dst dst]
  | 4 => [.extend .movsxd dst dst]
  | _ => []

def rvLoad (rd rs1 : RegIdx) (imm : BitVec 32) (bytes : Nat) (signed : Bool) (pc : Nat) :
    Lower Unit := do
  if regIsReserved rd || regIsReserved rs1 then rvEmitPanicAt pc
  else
    rvAddrToScratch rs1 imm pc
    -- A load to `x0` still faults on a bad address.
    let dst := (← rvDst rd pc).getD scratch
    emitMemReadSized dst bytes pc
    emit (onlyIf (signed ∧ rd ≠ 0) (signExtendCode bytes dst))
    invalidateRd rd

def rvStore (rs1 rs2 : RegIdx) (imm : BitVec 32) (bytes pc : Nat) : Lower Unit := do
  if regIsReserved rs1 || regIsReserved rs2 then rvEmitPanicAt pc
  else if rs2 = 0 then
    -- The address comes first, since the base may be in RAX.
    rvAddrToScratch rs1 imm pc
    emit [.push .rax, movRi64 .rax 0]
    emitMemWrite .rax bytes pc
    emit [.pop .rax]
  else
    let val ← unwrap (hostReg rs2)
    rvAddrToScratch rs1 imm pc
    emitMemWrite val bytes pc

/-! ## Jumps -/

section

variable (env : CodeEnv)

/-- Whether a block start is known at a guest offset. -/
def CodeEnv.isBasicBlockStart (target : BitVec 32) : Bool :=
  decide (target.toNat < env.codeLen) && env.validPc target.toNat

def jumpTarget (pc : Nat) (imm : BitVec 32) : BitVec 32 := BitVec.ofNat 32 pc + imm

def linkVa (nextPc : Nat) : BitVec 32 := env.codeBase + BitVec.ofNat 32 nextPc

def emitExit (reason arg : BitVec 32) : Lower Unit :=
  emitItems [.ins (.storeCtx32Imm .exitReason reason), .ins (.storeCtx32Imm .exitArg arg),
    .jmp exitLabel]

/-- Jump to a guest offset: a later one is left pending, an earlier one must start a block. -/
def emitStaticBranch (target : BitVec 32) (pc : Nat) : Lower Unit := do
  if pc < target.toNat then emitItems [.guest .forward none target pc]
  else if !env.isBasicBlockStart target then
    emit [.storeCtx32Imm .pc (BitVec.ofNat 32 pc)]
    emitExit exitPanic 0
  else emitItems [.guest .backward none target pc]

/-- Compare two registers and jump to a guest offset under a condition. -/
def emitBranchReg (a b : Reg) (cc : Cc) (target : BitVec 32) (pc : Nat) : Lower Unit := do
  if pc < target.toNat then
    emit [aluRR .cmp a b]
    emitItems [.guest .forward (some cc) target pc]
  else if !env.isBasicBlockStart target then
    emit [.storeCtx32Imm .pc (BitVec.ofNat 32 pc), aluRR .cmp a b]
    emitItems [.guest .invalid (some cc) target pc]
  else
    emit [aluRR .cmp a b]
    emitItems [.guest .backward (some cc) target pc]

/-- Jump to a guest offset under a condition on flags that are already set. -/
def emitCondBranchTo (cc : Cc) (target : BitVec 32) (pc : Nat) : Lower Unit := do
  if pc < target.toNat then emitItems [.guest .forward (some cc) target pc]
  else if !env.isBasicBlockStart target then
    emit [.storeCtx32Imm .pc (BitVec.ofNat 32 pc)]
    emitItems [.guest .invalid (some cc) target pc]
  else emitItems [.guest .backward (some cc) target pc]

def writeLink (rd : RegIdx) (nextPc : Nat) : Lower Unit := do
  if rd = 0 then return
  else
    let slot ← unwrap (rvSlot rd)
    emit [movRi64 (regMap slot) ((linkVa env nextPc).zeroExtend 64)]
    invalidateReg slot

/-- `jal`. -/
def rvJal (rd : RegIdx) (imm : BitVec 32) (pc nextPc : Nat) : Lower Unit := do
  if regIsReserved rd then rvEmitPanicAt pc
  else
    writeLink env rd nextPc
    emitStaticBranch env (jumpTarget pc imm) pc

/-- The tail of an indirect jump, with the guest address in the scratch register. -/
def jumpIndirect : List Item :=
  (if env.codeBase ≠ 0 then [.ins (aluRi .sub scratch env.codeBase)] else [])
    -- The offset is recorded as the paused position and checked against the code length.
    ++ [.ins (.storeCtx32 .pc scratch),
      .ins (.aluImm .d32 .cmp scratch (BitVec.ofNat 32 env.codeLen)), .jcc .ae panicLabel,
      .ins (.push .rax), .ins (.loadCtx64 .rax .dispatchTable),
      .ins (.loadTable .rax .rax scratch), .ins (.addCtx64 .rax .codeBase),
      .ins (.movRR scratch .rax), .ins (.pop .rax), .ins (.jmpReg scratch)]

/-- Compute the guest address of an indirect jump in the scratch register. -/
def jumpAddress (rs1 : RegIdx) (imm : BitVec 32) (pc : Nat) : Lower Unit := do
  rvRead rs1 scratch pc
  emit (onlyIf (imm ≠ 0) [aluRi .add scratch imm])
  emit [.shiftImm .q64 .shl scratch 32, .shiftImm .q64 .shr scratch 32]

/-- `jalr`. -/
def rvJalr (rd rs1 : RegIdx) (imm : BitVec 32) (pc nextPc : Nat) : Lower Unit := do
  if regIsReserved rs1 then rvEmitPanicAt pc
  else
    jumpAddress rs1 imm pc
    writeLink env rd nextPc
    emitItems (jumpIndirect env)

def rvBranch (rs1 rs2 : RegIdx) (imm : BitVec 32) (cc : Cc) (pc : Nat) : Lower Unit := do
  if regIsReserved rs1 || regIsReserved rs2 then rvEmitPanicAt pc
  else
    let a ← rvReadInto rs1 scratch pc
    if rs2 = 0 then
      emit (onlyIf (a ≠ scratch) [movRi64 scratch 0])
      emitBranchReg env a scratch cc (jumpTarget pc imm) pc
    else
      let b ← unwrap (hostReg rs2)
      emitBranchReg env a b cc (jumpTarget pc imm) pc

/-! ## Jumps that name a spilled register -/

/-- Store a 32-bit value to the home of a spilled register, zero-extended. -/
def storeHome (rd : RegIdx) (value : BitVec 32) : List Instr :=
  [.storeCtx32Imm (.regLow (spillSlot rd)) value, .storeCtx32Imm (.regHigh (spillSlot rd)) 0]

def rvJalSpilled (rd : RegIdx) (imm : BitVec 32) (pc nextPc : Nat) : Lower Unit := do
  emit (storeHome rd (linkVa env nextPc))
  emitStaticBranch env (jumpTarget pc imm) pc

def rvJalrSpilled (rd rs1 : RegIdx) (imm : BitVec 32) (pc nextPc : Nat) : Lower Unit := do
  jumpAddress rs1 imm pc
  (if regIsSpilled rd then emit (storeHome rd (linkVa env nextPc)) else writeLink env rd nextPc)
  emitItems (jumpIndirect env)

/-- The host condition of a branch, by its function field. -/
def branchCc (f3 : BitVec 3) : Option Cc :=
  match f3 with
  | 0b000#3 => some .e
  | 0b001#3 => some .ne
  | 0b100#3 => some .l
  | 0b101#3 => some .ge
  | 0b110#3 => some .b
  | 0b111#3 => some .ae
  | _ => none

def compareSpilled (a : Reg) (rs2 : RegIdx) : Lower Unit := do
  if regIsSpilled rs2 then emit [.cmpCtx64 a (.reg (spillSlot rs2))]
  -- The comparison with `x0` is a 32-bit one.
  else if rs2 = 0 then emit [.aluImm .d32 .cmp a 0]
  else emit [aluRR .cmp a (← unwrap (hostReg rs2))]

def rvBranchSpilled (rs1 rs2 : RegIdx) (f3 : BitVec 3) (imm : BitVec 32) (pc : Nat) :
    Lower Unit := do
  match branchCc f3 with
  | none => rvEmitPanicAt pc
  | some cc =>
    let a ← rvReadInto rs1 scratch pc
    compareSpilled a rs2
    emitCondBranchTo env cc (jumpTarget pc imm) pc

end

/-! ## Traps and environment calls -/

/-- Exit with a reason and an argument, reporting a guest offset. -/
def rvExitAt (pc : Nat) (reason arg : BitVec 32) : Lower Unit := do
  emit [.storeCtx32Imm .pc (BitVec.ofNat 32 pc)]
  emitExit reason arg

/-- `trap`. -/
def rvTrap (pc : Nat) : Lower Unit := rvExitAt pc exitTrap 0

/-- `ecall.jar`. -/
def rvEcallJar (nextPc : Nat) : Lower Unit := rvExitAt nextPc exitEcall 0

/-- `ecalli`. -/
def rvEcalli (imm : BitVec 32) (nextPc : Nat) : Lower Unit := rvExitAt nextPc exitHostCall imm

/-! ## Value tracking -/

def trackConst (rd : RegIdx) (imm : BitVec 32) : Lower Unit :=
  match rvSlot rd with
  | some slot => installDef slot (.const imm)
  | none => pure ()

/-- Record a left shift by one to three. -/
def trackShifted (rd rs1 : RegIdx) (shamt : Nat) : Lower Unit :=
  match rvSlot rd, rvSlot rs1 with
  | some d, some s => installDef d (.shifted s shamt)
  | _, _ => pure ()

/-- Record the addition of a register and a tracked shift. -/
def trackAddScaledadd (rd rs1 rs2 : RegIdx) : Lower Unit := do
  match rvSlot rd, rvSlot rs1, rvSlot rs2 with
  | some d, some a, some b =>
    let defs := (← get).regDefs
    match defs b, defs a with
    | .shifted src shift, _ => installDef d (.scaledAdd a src shift)
    | _, .shifted src shift => installDef d (.scaledAdd b src shift)
    | _, _ => pure ()
  | _, _, _ => pure ()

/-- Record a shift-and-add, unless it overwrites one of its operands. -/
def recordScaledadd (rd rs1 rs2 : RegIdx) (shift : Nat) : Lower Unit :=
  if rd = rs1 ∨ rd = rs2 then pure ()
  else
    match rvSlot rd, rvSlot rs1, rvSlot rs2 with
    | some d, some idx, some base => installDef d (.scaledAdd base idx shift)
    | _, _, _ => pure ()

end Jar.Recompiler
