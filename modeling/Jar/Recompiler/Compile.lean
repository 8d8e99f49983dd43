import Jar.Recompiler.Dispatch

/-! The single pass over the code, the stubs behind it and the finished native code. -/

namespace Jar.Recompiler

open X86 Lower

/-! ## The compiler state -/

/-- The gate of the current block, patched once the block's cost is known. -/
structure PendingGas where
  /-- The label that a refused gate jumps to. -/
  stubLabel : Label
  blockPc : Nat
  /-- The offset of the comparison's immediate. -/
  cmpOffset : Nat
  /-- The offset of the subtraction's immediate. -/
  subOffset : Nat
  deriving DecidableEq, Repr

/-- A forward jump whose target may turn out to start no block. -/
structure PendingBranch where
  target : BitVec 32
  branchPc : Nat
  /-- The index that the fixup of the jump was expected to get. -/
  fixupIdx : Nat
  deriving DecidableEq, Repr

/-- What a refused gate jumps to. -/
structure OogStub where
  label : Label
  pc : Nat
  cost : Nat
  deriving DecidableEq, Repr

/-- The state of the compiler. -/
structure Compiler where
  asm : Asm
  /-- The cycles of a load or store in the memory tier. -/
  memCycles : Nat
  /-- The guest address of the code. -/
  codeBase : BitVec 32
  codeLen : Nat
  /-- What is known about each host register. -/
  regDefs : HostSlot → RegDef
  /-- The addition whose carry the flags still hold. -/
  lastAddCf : Option (HostSlot × HostSlot × HostSlot)
  gas : GasState
  /-- The gate of the current block. -/
  pendingGas : Option PendingGas
  /-- The block starts in order. -/
  gasBlockPcs : List Nat
  /-- Whether a block starts at a guest offset. -/
  validPc : Nat → Bool
  /-- The forward jumps so far. -/
  pendingFwdBranches : List PendingBranch
  oogStubs : List OogStub
  /-- The guest accesses: native offset, guest offset and width. -/
  trapEntries : List (Nat × Nat × Nat)

/-- The result of a compilation. -/
structure CompileResult where
  nativeCode : List Instr
  /-- The native offset of each block start. -/
  dispatchEntries : List (Nat × Nat)
  trapTable : List (Nat × Nat × Nat)
  exitLabelOffset : Nat
  panicOffset : Nat

namespace Compiler

/-- The facts that the lowering routines see. -/
def codeEnv (c : Compiler) : CodeEnv := ⟨c.memCycles, c.codeBase, c.codeLen, c.validPc⟩

/-- A compiler for a code length, with the fixed labels and one label per guest offset. -/
def new (codeLen memCycles : Nat) (codeBase : BitVec 32) : Compiler where
  -- Label zero is reserved, the next four are the fixed labels.
  asm := ((Asm.withCapacity (codeLen + 1024)).bulkCreateLabels labelBase).bulkCreateLabels
    (codeLen + 1)
  memCycles
  codeBase
  codeLen
  regDefs _ := .unknown
  lastAddCf := none
  gas := ⟨.new, 0, false⟩
  pendingGas := none
  gasBlockPcs := []
  validPc _ := false
  pendingFwdBranches := []
  oogStubs := []
  trapEntries := []

def emit (c : Compiler) (code : List Instr) : Compiler :=
  { c with asm := code.foldl Asm.emit c.asm }

/-! ## Assembling the items of an instruction -/

def jumpTo (asm : Asm) (cc : Option Cc) (l : Label) : Option Asm :=
  match cc with
  | none => asm.jmpLabel l
  | some cc => asm.jccLabel cc l

def assembleItem (c : Compiler) : Item → Option Compiler
  | .ins i => some { c with asm := c.asm.emit i }
  | .newLabel => some { c with asm := c.asm.newLabel.2 }
  | .bind l => do return { c with asm := ← c.asm.bindLabel l }
  | .jmp l => do return { c with asm := ← jumpTo c.asm none l }
  | .jcc cc l => do return { c with asm := ← jumpTo c.asm (some cc) l }
  | .guest kind cc target pc => do
    -- The fixup is expected to come next, which holds only if the label is still unbound.
    let fixupIdx := c.asm.fixupsLen
    let asm ← jumpTo c.asm cc (kind.label target)
    return { c with
      asm
      pendingFwdBranches :=
        if kind = .forward then c.pendingFwdBranches ++ [⟨target, pc, fixupIdx⟩]
        else c.pendingFwdBranches }
  | .trapEntry pc width =>
    some { c with trapEntries := c.trapEntries ++ [(c.asm.offset, pc, width)] }

def assemble (c : Compiler) (items : List Item) : Option Compiler := items.foldlM assembleItem c

/-- Run a dispatcher and assemble what it emits. -/
def dispatch {α : Type} (c : Compiler) (d : Dispatch α) : Option (α × Compiler) := do
  let ((result, gas), st) ← d c.gas ⟨c.regDefs, c.lastAddCf, c.asm.labelsLen, []⟩
  let c ← { c with gas, regDefs := st.regDefs, lastAddCf := st.lastAddCf }.assemble st.items
  return (result, c)

/-! ## Gas blocks -/

/-- Patch the pending gate with the cost and the reserve of its block, and record its stub. -/
def flushPendingGas (c : Compiler) : Compiler :=
  match c.pendingGas with
  | none => c
  | some p =>
    let cost := c.gas.sim.flushAndGetCost
    let gate := min (cost + c.gas.reserve) u32Max
    { c with
      asm := (c.asm.patchI32 p.cmpOffset (BitVec.ofNat 32 gate)).patchI32 p.subOffset
        (BitVec.ofNat 32 cost)
      pendingGas := none
      oogStubs := c.oogStubs ++ [⟨p.stubLabel, p.blockPc, cost⟩] }

/-- Emit a gate: compare the balance, leave when it is too small, deduct. -/
def emitGate (c : Compiler) (pc : Nat) : Option Compiler := do
  let (stubLabel, asm) := c.asm.newLabel
  let asm := asm.emit (.aluPatch .cmp gasReg 0)
  let cmpOffset := asm.offset - 4
  let asm ← asm.jccLabel .l stubLabel
  let asm := asm.emit (.aluPatch .sub gasReg 0)
  return { c with asm, pendingGas := some ⟨stubLabel, pc, cmpOffset, asm.offset - 4⟩ }

/-- Start a gas block; the block of an environment call has no gate. -/
def bindRvGasBlockStart (c : Compiler) (pc : Nat) (isEcall : Bool) : Option Compiler := do
  let asm ← c.asm.bindLabel (labelBase + pc)
  let c := flushPendingGas
    { c with
      asm
      gasBlockPcs := c.gasBlockPcs ++ [pc]
      validPc := if pc < c.codeLen then Function.update c.validPc pc true else c.validPc
      regDefs := fun _ => .unknown
      lastAddCf := none }
  let c := { c with gas := { c.gas with sim := .new, reserve := 0 } }
  if isEcall then return c else c.emitGate pc

end Compiler

/-! ## The pass -/

/-- An instruction as the pass fetches it. -/
inductive Fetched where
  | word (w : BitVec 32)
  | half (h : BitVec 16)
  deriving DecidableEq, Repr

namespace Fetched

/-- Fetch the instruction at the head of a byte string, absent when it is cut off. -/
def fetch (bytes : List Byte) : Option Fetched :=
  match bytes with
  | b0 :: b1 :: _ =>
    if b0.extractLsb' 0 2 = 0b11#2 then (word? bytes).map .word else some (.half (b1 ++ b0))
  | _ => none

def len : Fetched → Nat
  | .word _ => 4
  | .half _ => 2

/-- Whether an instruction is an environment call. -/
def isEcall : Fetched → Bool
  | .word w => isCustom0Ecall w
  | .half _ => false

def compile (env : CodeEnv) (pc : Nat) (rest : List Byte) : Fetched → Dispatch Compiled
  | .word w => compileRv4 env w pc 4 rest
  | .half h => compileRvc env h pc rest

end Fetched

namespace Compiler

/-- Start a block where one begins: after the end of another, or at an environment call. -/
def startBlock (c : Compiler) (pc : Nat) (start isEcall : Bool) : Option Compiler :=
  if start || isEcall then c.bindRvGasBlockStart pc isEcall else some c

/-- Compile one instruction, starting a block first where one begins. -/
def compileInst (c : Compiler) (f : Fetched) (pc : Nat) (start : Bool) (rest : List Byte) :
    Option (Compiled × Compiler) := do
  let c ← c.startBlock pc start f.isEcall
  let (r, c) ← c.dispatch (f.compile c.codeEnv pc rest)
  return (r, { c with lastAddCf := if r.preserveCf then c.lastAddCf else none })

/-- The pass over the code from a guest offset on, within a bounded number of steps. -/
def compileFrom (c : Compiler) : Nat → Nat → Bool → List Byte → Option Compiler
  | 0, _, _, _ => some c
  | _ + 1, _, _, [] => some c
  | fuel + 1, pc, start, b :: bytes =>
    match Fetched.fetch (b :: bytes) with
    | none => do
      -- A cut-off instruction panics.
      let (_, c) ← c.dispatch (rvEmitPanicAt pc : Lower Unit)
      return c
    | some f => do
      let (r, c) ← c.compileInst f pc start ((b :: bytes).drop f.len)
      compileFrom c fuel (pc + f.len + r.extra) r.term ((b :: bytes).drop (f.len + r.extra))

/-- The prologue: save the host state, load the guest state and enter at the requested offset. -/
def prologueCode : List Instr :=
  [.push .rbx, .push .rbp, .push .r12, .push .r13, .push .r14, .push .r15, .push scratch,
    .storeCtx64 .hostRspBase .rsp, .loadCtx64 gasReg .gas, .storeCtx32Imm .exitReason 0,
    .loadCtx32 scratch .entryPc, .loadCtx64 .rax .dispatchTable, .loadTable .rax .rax scratch,
    .loadCtx64 scratch .codeBase, aluRR .add .rax scratch, .push .rax]
    ++ (List.finRange 13).map (fun slot =>
      .loadCtx64 (regMap slot) (.reg ⟨slot.val, by omega⟩))
    ++ [.pop scratch, .jmpReg scratch]

/-- The pass over the whole code, up to the last block's gate. -/
def compileMain (code : List Byte) (memCycles : Nat) (codeBase : BitVec 32) :
    Option Compiler := do
  let c := (new code.length memCycles codeBase).emit prologueCode
  let c ← c.compileFrom code.length 0 true code
  return c.flushPendingGas

/-! ## Stubs and exits -/

/-- Send a forward jump whose target starts no block to a panic stub of its own. -/
def resolveBranch (c : Compiler) (b : PendingBranch) : Option Compiler := do
  if c.codeEnv.isBasicBlockStart b.target then return c
  else
    let (stub, asm) := c.asm.newLabel
    let asm ← asm.bindLabel stub
    let asm := asm.emit (.storeCtx32Imm .pc (BitVec.ofNat 32 b.branchPc))
    let asm ← asm.jmpLabel panicLabel
    return { c with asm := ← asm.redirectFixup b.fixupIdx stub }

/-- Emit the stub of a gate: load the guest offset and go to the shared exit. -/
def emitOogStub (asm : Asm) (stub : OogStub) : Option Asm := do
  let asm ← asm.bindLabel stub.label
  (asm.emit (.movImm32 scratch (BitVec.ofNat 32 stub.pc))).jmpLabel oogPcLabel

/-- The common exit: store the guest state and restore the host state. -/
def exitCode : List Instr :=
  [.storeCtx64 .gas gasReg]
    ++ (List.finRange 13).map (fun slot =>
      .storeCtx64 (.reg ⟨slot.val, by omega⟩) (regMap slot))
    ++ [.loadCtx64 .rsp .hostRspBase, .pop scratch, .pop .r15, .pop .r14, .pop .r13, .pop .r12,
      .pop .rbp, .pop .rbx, .ret]

/-- Emit the out-of-gas exit, the stubs of the gates, the panic exit and the common exit. -/
def emitExitSequences (asm : Asm) (stubs : List OogStub) : Option Asm := do
  let asm ← asm.bindLabel oogPcLabel
  let asm ← (asm.emit (.storeCtx32 .pc scratch)).bindLabel oogLabel
  let asm ← (asm.emit (.storeCtx32Imm .exitReason exitOog)).jmpLabel exitLabel
  let asm ← stubs.foldlM emitOogStub asm
  let asm ← asm.bindLabel panicLabel
  let asm ← (asm.emit (.storeCtx32Imm .exitReason exitPanic)).bindLabel exitLabel
  return exitCode.foldl Asm.emit asm

/-- The native offsets of the block starts. -/
def dispatchEntries (asm : Asm) (pcs : List Nat) : Option (List (Nat × Nat)) := do
  let found ← pcs.mapM fun pc => do
    return (← asm.labelOffset (labelBase + pc)).map fun off => (pc, off)
  return found.filterMap id

/-- Everything behind the pass. -/
def finish (c : Compiler) : Option CompileResult := do
  let c ← c.pendingFwdBranches.foldlM resolveBranch c
  let asm ← emitExitSequences c.asm c.oogStubs
  let dispatchEntries ← dispatchEntries asm c.gasBlockPcs
  let exitLabelOffset := (← asm.labelOffset exitLabel).getD 0
  let panicOffset ← (← asm.labelOffset panicLabel)
  return ⟨← asm.finalize, dispatchEntries, c.trapEntries, exitLabelOffset, panicOffset⟩

def compile (code : List Byte) (memCycles : Nat) (codeBase : BitVec 32) :
    Option CompileResult := do
  (← compileMain code memCycles codeBase).finish

end Compiler

end Jar.Recompiler
