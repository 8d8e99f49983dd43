import Jar.Exec.Interp
import Jar.Lib.BinarySearch

/-! The interpreter's loop over a bare index: a wrapping walk, a searched target, an unchecked read. -/

namespace Jar

/-- Pass 1 as the source walks the code, with 32-bit offsets, absent while the walk goes on. -/
def decodeWalk (code : List Byte) : (fuel pc : Nat) → Option (List RvPreDecodedInst)
  | 0, _ => none
  | fuel + 1, pc =>
    if pc < code.length then
      match decode (code.drop pc) with
      | none => some []
      | some (inst, len) =>
        let nextPc := (pc + len) % 2 ^ 32
        (decodeWalk code fuel nextPc).map fun insts =>
          { inst
            pc := pc % 2 ^ 32
            nextPc
            isGasBlockStart := false
            gasMeta := rvGasMeta inst } :: insts
    else some []

/-- The program that the walked instructions give. -/
def Program.ofWalk (insts : List RvPreDecodedInst) (code : List Byte) (codeBase : BitVec 32)
    (memCycles : Nat) : Program :=
  ⟨computeBlockCosts (markBlockStarts true insts) memCycles, code, codeBase⟩

/-- The index of the instruction at an offset, by binary search over the sorted offsets. -/
def searchIdxForPc (insts : List RvPreDecodedInst) (pc : Nat) : Option Nat :=
  BinarySearch.search (insts.map (·.pc)) pc

def blockStartForPc (insts : List RvPreDecodedInst) (pc : Nat) : Option Nat :=
  (searchIdxForPc insts pc).filter fun i => insts[i]?.any (·.isGasBlockStart)

/-- What an instruction leaves to the end of an iteration. -/
inductive Action (Host : Type) where
  /-- Go on, at the index that overrides the sequential one if there is one. -/
  | goOn (nextIdxOverride : Option Nat) (state : ExecState Host)
  | exit (reason : ExitReason) (state : ExecState Host)
  /-- A failed expectation aborts the process. -/
  | abort

section

variable {Host : Type} (prog : Program) (handler : EcallHandler Host)

def faultAction (inst : RvPreDecodedInst) (s : ExecState Host) (addr : BitVec 32) : Action Host :=
  .exit (.pageFault (faultPage addr)) { s with pc := inst.pc }

def loadAction (inst : RvPreDecodedInst) (s : ExecState Host) (op : LoadOp) (rd rs1 : RegIdx)
    (imm : BitVec 32) : Action Host :=
  let addr := computeAddr s.gpr rs1 imm
  match s.mem.touch addr op.width false with
  | none => faultAction inst s addr
  | some (mem, total) =>
    match { s with mem }.charge total with
    | none => .abort
    | some s =>
      match loadValue prog s.mem addr op.width with
      | some value => .goOn none { s with gpr := regWrite s.gpr rd (op.extend value) }
      | none => faultAction inst s addr

def storeAction (inst : RvPreDecodedInst) (s : ExecState Host) (op : StoreOp) (rs1 rs2 : RegIdx)
    (imm : BitVec 32) : Action Host :=
  let addr := computeAddr s.gpr rs1 imm
  match s.mem.touch addr op.width true with
  | none => faultAction inst s addr
  | some (mem, total) =>
    match { s with mem }.charge total with
    | none => .abort
    | some s =>
      if storeWritable s.mem addr op.width then
        match s.mem.writeLe addr op.width (regRead s.gpr rs2) with
        | some mem => .goOn none { s with mem }
        | none => faultAction inst s addr
      else faultAction inst s addr

/-- A jump, which panics at the jumping instruction unless its target starts a block. -/
def jumpAction (inst : RvPreDecodedInst) (s : ExecState Host) (target : BitVec 32) : Action Host :=
  match blockStartForPc prog.predecode.insts target.toNat with
  | some i => .goOn (some i) s
  | none => .exit .panic { s with pc := inst.pc }

/-- An environment call, which resumes wherever the search finds the next offset. -/
def ecallAction (inst : RvPreDecodedInst) (s : ExecState Host) (kind : EcallKind) (cost : Nat) :
    Action Host :=
  if s.gas < cost then .exit .outOfGas { s with pc := inst.pc } else
  match s.charge cost with
  | none => .abort
  | some s =>
    let (result, gpr, pc, mem, host) := handler kind s.gpr inst.nextPc s.mem s.host
    let s := { s with gpr, pc, mem, host }
    match result with
    | .resume =>
      match searchIdxForPc prog.predecode.insts inst.nextPc with
      | some i => .goOn (some i) s
      | none => .exit .panic s
    | .exit reason => .exit reason s

/-- The arms of the interpreter's match. -/
def instAction (inst : RvPreDecodedInst) (s : ExecState Host) : Action Host :=
  let write (rd : RegIdx) (value : Word64) : Action Host :=
    .goOn none { s with gpr := regWrite s.gpr rd value }
  let link : Word64 := (prog.codeBase + BitVec.ofNat 32 inst.nextPc).zeroExtend 64
  let relative (imm : BitVec 32) : BitVec 32 := BitVec.ofNat 32 inst.pc + imm
  match inst.inst with
  | .load op rd rs1 imm => loadAction prog inst s op rd rs1 imm
  | .store op rs1 rs2 imm => storeAction inst s op rs1 rs2 imm
  | .opImm op rd rs1 imm => write rd (op.eval (regRead s.gpr rs1) imm)
  | .shiftImm op rd rs1 shamt => write rd (op.eval (regRead s.gpr rs1) shamt)
  | .unary op rd rs1 => write rd (op.eval (regRead s.gpr rs1))
  | .opReg op rd rs1 rs2 => write rd (op.eval (regRead s.gpr rs1) (regRead s.gpr rs2))
  | .lui rd imm => write rd (sext32 imm)
  | .auipc rd imm => write rd (sext32 (prog.codeBase + BitVec.ofNat 32 inst.pc + imm))
  | .jal rd imm => jumpAction prog inst { s with gpr := regWrite s.gpr rd link } (relative imm)
  | .jalr rd rs1 imm =>
    let target := low32 (regRead s.gpr rs1) + imm - prog.codeBase
    jumpAction prog inst { s with gpr := regWrite s.gpr rd link } target
  | .branch op rs1 rs2 imm =>
    if op.taken (regRead s.gpr rs1) (regRead s.gpr rs2) then
      jumpAction prog inst s (relative imm)
    else .goOn none s
  | .fence | .fenceI | .fallthrough => .goOn none s
  | .trap => .exit .trap { s with pc := inst.pc }
  | .ecallJar => ecallAction prog handler inst s .ecall (ecallDynamicCost false)
  | .ecalli imm => ecallAction prog handler inst s (.ecalli imm) (ecallDynamicCost true)
  | .reserved => .exit .panic { s with pc := inst.pc }

def gateAction (idx : Nat) (inst : RvPreDecodedInst) (s : ExecState Host) : Action Host :=
  let cost := prog.predecode.blockCosts idx
  if inst.isGasBlockStart ∧ cost ≠ 0 then
    if s.gas < cost + prog.predecode.blockReserves idx then
      .exit .outOfGas { s with pc := inst.pc }
    else
      match s.charge cost with
      | none => .abort
      | some s => .goOn none s
  else .goOn none s

/-- The read, the gate and the match of an iteration, absent when the read is out of bounds. -/
def loopAction (idx : Nat) (s : ExecState Host) : Option (Action Host) :=
  (prog.predecode.insts[idx]?).map fun inst =>
    match gateAction prog idx inst s with
    | .goOn _ s => instAction prog handler inst s
    | action => action

/-- The end of an iteration, where the index moves on. -/
def Action.moveOn (idx : Nat) : Action Host → Outcome Nat Host
  | .goOn (some i) s => .next i s
  | .goOn none s =>
    if prog.predecode.insts.length ≤ idx + 1 then
      .exit .panic
        { s with pc := (prog.predecode.insts[idx]?).elim s.pc (·.nextPc) }
    else .next (idx + 1) s
  | .exit reason s => .exit reason s
  | .abort => .abort

def loopStep (idx : Nat) (s : ExecState Host) : Option (Outcome Nat Host) :=
  (loopAction prog handler idx s).map (Action.moveOn prog idx)

def loopEnter (s : ExecState Host) : Outcome Nat Host :=
  match blockStartForPc prog.predecode.insts (s.pc % 2 ^ 32) with
  | some i => .next i s
  | none => .exit .panic s

/-- The head of the loop after a number of iterations from an entry. -/
def loopConfig (s : ExecState Host) (n : Nat) : Option (Nat × ExecState Host) :=
  (loopEnter prog s).config?.bind
    (Transition.runFor (fun c => (loopStep prog handler c.1 c.2).bind Outcome.config?) n)

end

end Jar
