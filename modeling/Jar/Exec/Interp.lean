import Jar.Exec.Alu
import Jar.Exec.Memory
import Jar.Exec.Predecode
import Jar.Lib.Transition

/-! The interpreter as a step function over predecoded instructions. -/

namespace Jar

/-- Why an execution ended. -/
inductive ExitReason where
  | halt | trap | panic | outOfGas
  | pageFault (page : BitVec 32)
  | hostCall (imm : BitVec 32)
  | ecall
  deriving DecidableEq, Repr

/-- The two environment calls. -/
inductive EcallKind where
  | ecall
  | ecalli (imm : BitVec 32)
  deriving DecidableEq, Repr

/-- What a handler asks for after an environment call. -/
inductive EcallResult where
  | resume
  | exit (reason : ExitReason)
  deriving DecidableEq, Repr

/-- The state that an execution reads and writes, over an arbitrary host state. -/
structure ExecState (Host : Type) where
  gpr : Regs
  /-- The code offset recorded at exits and environment calls. -/
  pc : Nat
  gas : Nat
  mem : CopyingMemory
  host : Host

/-- The embedder's handler, which may change registers, memory and its own state but not gas. -/
abbrev EcallHandler (Host : Type) :=
  EcallKind → Regs → Nat → CopyingMemory → Host → EcallResult × Regs × Nat × CopyingMemory × Host

/-- What a program is run with: its predecoded form, its bytes and where they are mapped. -/
structure Program where
  predecode : Predecode
  code : List Byte
  /-- The guest address of the code. -/
  codeBase : BitVec 32

/-- The program of a code section for a memory tier. -/
def Program.new (code : List Byte) (codeBase : BitVec 32) (memCycles : Nat) : Program :=
  ⟨predecodeRvWithMemCycles code memCycles, code, codeBase⟩

/-- The index of an instruction of a program. -/
abbrev Program.Idx (prog : Program) := Fin prog.predecode.insts.length

def Program.fetch (prog : Program) (idx : prog.Idx) : RvPreDecodedInst :=
  prog.predecode.insts.get idx

/-- The outcome of one interpreter step. -/
inductive Outcome (Idx : Type) (Host : Type) where
  /-- Execution goes on at an instruction. -/
  | next (idx : Idx) (state : ExecState Host)
  | exit (reason : ExitReason) (state : ExecState Host)
  /-- A failed expectation aborts the process. -/
  | abort

def LoadOp.width : LoadOp → Nat
  | .lb | .lbu => 1
  | .lh | .lhu => 2
  | .lw | .lwu => 4
  | .ld => 8

def LoadOp.extend (op : LoadOp) (value : Word64) : Word64 :=
  match op with
  | .lb => (value.extractLsb' 0 8).signExtend 64
  | .lh => (value.extractLsb' 0 16).signExtend 64
  | .lw => (value.extractLsb' 0 32).signExtend 64
  | .ld | .lbu | .lhu | .lwu => value

def StoreOp.width : StoreOp → Nat
  | .sb => 1
  | .sh => 2
  | .sw => 4
  | .sd => 8

/-- The 32-bit effective address of a load or store. -/
def computeAddr (regs : Regs) (rs1 : RegIdx) (imm : BitVec 32) : BitVec 32 :=
  low32 (regRead regs rs1) + imm

/-- Read from the code region, whose last page has a zero-filled tail. -/
def readCode (code : List Byte) (codeBase addr : BitVec 32) (width : Nat) : Option Word64 :=
  if codeBase ≤ addr then
    let off := (addr - codeBase).toNat
    let rounded := (code.length + 4095) / 4096 * 4096
    if off + width ≤ rounded then
      some (CopyingMemory.leValue (fun o => code.getD o 0) off width)
    else none
  else none

/-- Load a value from the data buffer, or from the code region where the buffer misses. -/
def loadValue (prog : Program) (mem : CopyingMemory) (addr : BitVec 32) (width : Nat) :
    Option Word64 :=
  (mem.readLe addr width).orElse fun _ => readCode prog.code prog.codeBase addr width

def storeWritable (mem : CopyingMemory) (addr : BitVec 32) (width : Nat) : Bool :=
  mem.permOf addr == .rw && mem.permOf (addr + BitVec.ofNat 32 (width - 1)) == .rw

def faultPage (addr : BitVec 32) : BitVec 32 := addr &&& ~~~0xFFF#32

/-- Deduct gas, absent when the balance does not cover the charge. -/
def ExecState.charge {Host : Type} (s : ExecState Host) (cost : Nat) : Option (ExecState Host) :=
  if cost ≤ s.gas then some { s with gas := s.gas - cost } else none

section

variable {Host : Type} (prog : Program) (handler : EcallHandler Host)

/-- Go on at the instruction after the current one, or panic at the end of the program. -/
def advance (idx : prog.Idx) (s : ExecState Host) : Outcome prog.Idx Host :=
  if within : idx.val + 1 < prog.predecode.insts.length then .next ⟨idx.val + 1, within⟩ s
  else .exit .panic { s with pc := (prog.fetch idx).nextPc }

/-- Go on at a target that starts a block, or panic at the jumping instruction. -/
def jumpTo (idx : prog.Idx) (s : ExecState Host) (target : BitVec 32) :
    Outcome prog.Idx Host :=
  let panicked := Outcome.exit .panic { s with pc := (prog.fetch idx).pc }
  match findIdxForPc prog.predecode.insts target.toNat with
  | some i => if (prog.fetch i).isGasBlockStart then .next i s else panicked
  | none => panicked

/-- The target of a relative jump, in wrapping 32-bit arithmetic. -/
def relativeTarget (idx : prog.Idx) (imm : BitVec 32) : BitVec 32 :=
  BitVec.ofNat 32 (prog.fetch idx).pc + imm

/-- The return address of a jump, a guest address. -/
def linkValue (idx : prog.Idx) : Word64 :=
  (prog.codeBase + BitVec.ofNat 32 (prog.fetch idx).nextPc).zeroExtend 64

def pageFault (idx : prog.Idx) (s : ExecState Host) (addr : BitVec 32) :
    Outcome prog.Idx Host :=
  .exit (.pageFault (faultPage addr)) { s with pc := (prog.fetch idx).pc }

def execLoad (idx : prog.Idx) (s : ExecState Host) (op : LoadOp) (rd rs1 : RegIdx)
    (imm : BitVec 32) : Outcome prog.Idx Host :=
  let addr := computeAddr s.gpr rs1 imm
  match s.mem.touch addr op.width false with
  | none => pageFault prog idx s addr
  | some (mem, total) =>
    match { s with mem }.charge total with
    | none => .abort
    | some s =>
      match loadValue prog s.mem addr op.width with
      | some value => advance prog idx { s with gpr := regWrite s.gpr rd (op.extend value) }
      | none => pageFault prog idx s addr

def execStore (idx : prog.Idx) (s : ExecState Host) (op : StoreOp) (rs1 rs2 : RegIdx)
    (imm : BitVec 32) : Outcome prog.Idx Host :=
  let addr := computeAddr s.gpr rs1 imm
  match s.mem.touch addr op.width true with
  | none => pageFault prog idx s addr
  | some (mem, total) =>
    match { s with mem }.charge total with
    | none => .abort
    | some s =>
      if storeWritable s.mem addr op.width then
        match s.mem.writeLe addr op.width (regRead s.gpr rs2) with
        | some mem => advance prog idx { s with mem }
        | none => pageFault prog idx s addr
      else pageFault prog idx s addr

/-- Execute an environment call: charge it, run the handler and resume after it. -/
def execEcall (idx : prog.Idx) (s : ExecState Host) (kind : EcallKind) (cost : Nat) :
    Outcome prog.Idx Host :=
  let inst := prog.fetch idx
  if s.gas < cost then .exit .outOfGas { s with pc := inst.pc } else
  match s.charge cost with
  | none => .abort
  | some s =>
    let (result, gpr, pc, mem, host) := handler kind s.gpr inst.nextPc s.mem s.host
    let s := { s with gpr, pc, mem, host }
    match result with
    | .resume =>
      match findIdxForPc prog.predecode.insts inst.nextPc with
      | some i => .next i s
      | none => .exit .panic s
    | .exit reason => .exit reason s

def execInst (idx : prog.Idx) (s : ExecState Host) : Outcome prog.Idx Host :=
  let here := (prog.fetch idx).pc
  let write (rd : RegIdx) (value : Word64) : Outcome prog.Idx Host :=
    advance prog idx { s with gpr := regWrite s.gpr rd value }
  match (prog.fetch idx).inst with
  | .load op rd rs1 imm => execLoad prog idx s op rd rs1 imm
  | .store op rs1 rs2 imm => execStore prog idx s op rs1 rs2 imm
  | .opImm op rd rs1 imm => write rd (op.eval (regRead s.gpr rs1) imm)
  | .shiftImm op rd rs1 shamt => write rd (op.eval (regRead s.gpr rs1) shamt)
  | .unary op rd rs1 => write rd (op.eval (regRead s.gpr rs1))
  | .opReg op rd rs1 rs2 => write rd (op.eval (regRead s.gpr rs1) (regRead s.gpr rs2))
  | .lui rd imm => write rd (sext32 imm)
  | .auipc rd imm => write rd (sext32 (prog.codeBase + BitVec.ofNat 32 here + imm))
  | .jal rd imm =>
    jumpTo prog idx { s with gpr := regWrite s.gpr rd (linkValue prog idx) }
      (relativeTarget prog idx imm)
  | .jalr rd rs1 imm =>
    -- The target is read before the link register is written.
    let target := low32 (regRead s.gpr rs1) + imm - prog.codeBase
    jumpTo prog idx { s with gpr := regWrite s.gpr rd (linkValue prog idx) } target
  | .branch op rs1 rs2 imm =>
    if op.taken (regRead s.gpr rs1) (regRead s.gpr rs2) then
      jumpTo prog idx s (relativeTarget prog idx imm)
    else advance prog idx s
  | .fence | .fenceI | .fallthrough => advance prog idx s
  | .trap => .exit .trap { s with pc := here }
  | .ecallJar => execEcall prog handler idx s .ecall (ecallDynamicCost false)
  | .ecalli imm => execEcall prog handler idx s (.ecalli imm) (ecallDynamicCost true)
  | .reserved => .exit .panic { s with pc := here }

/-- The gas gate of a block start: enter only if the gas covers cost and reserve, charge the cost. -/
def gate (idx : prog.Idx) (s : ExecState Host) : Outcome Unit Host :=
  let inst := prog.fetch idx
  let cost := prog.predecode.blockCosts idx
  let reserve := prog.predecode.blockReserves idx
  -- A zero cost marks an environment call, which is charged when it executes.
  if inst.isGasBlockStart ∧ cost ≠ 0 then
    if s.gas < cost + reserve then .exit .outOfGas { s with pc := inst.pc }
    else
      match s.charge cost with
      | none => .abort
      | some s => .next () s
  else .next () s

/-- One iteration of the interpreter loop: the gas gate, then the instruction. -/
def step (idx : prog.Idx) (s : ExecState Host) : Outcome prog.Idx Host :=
  match gate prog idx s with
  | .next _ s => execInst prog handler idx s
  | .exit reason s => .exit reason s
  | .abort => .abort

/-- Enter a program at the recorded offset, which must start a block. -/
def enter (s : ExecState Host) : Outcome prog.Idx Host :=
  match findIdxForPc prog.predecode.insts (s.pc % 2 ^ 32) with
  | some i => if (prog.fetch i).isGasBlockStart then .next i s else .exit .panic s
  | none => .exit .panic s

/-- A point of an execution: the next instruction and the state before it. -/
abbrev Config (Host : Type) := prog.Idx × ExecState Host

/-- Where an outcome leaves an execution that goes on. -/
def Outcome.config? {Idx Host : Type} : Outcome Idx Host → Option (Idx × ExecState Host)
  | .next idx s => some (idx, s)
  | _ => none

/-- The point reached after a number of interpreter steps from a fresh entry. -/
def runConfig (s : ExecState Host) (n : Nat) : Option (Config prog Host) :=
  (enter prog s).config?.bind
    (Transition.runFor (fun c => (step prog handler c.1 c.2).config?) n)

def Outcome.isFinal {Idx Host : Type} : Outcome Idx Host → Bool
  | .next .. => false
  | _ => true

/-- Continue an execution for a bounded number of interpreter steps. -/
def follow : Nat → Outcome prog.Idx Host → Outcome prog.Idx Host
  | fuel + 1, .next idx s => follow fuel (step prog handler idx s)
  | _, o => o

def EndsIn (o final : Outcome prog.Idx Host) : Prop :=
  final.isFinal = true ∧ ∃ fuel, follow prog handler fuel o = final

/-- The run from a state ends in a certain way. -/
def Finishes (s : ExecState Host) (final : Outcome prog.Idx Host) : Prop :=
  EndsIn prog handler (enter prog s) final

def ExecState.topUp (s : ExecState Host) (more : Nat) : ExecState Host :=
  { s with gas := s.gas + more }

end

end Jar
