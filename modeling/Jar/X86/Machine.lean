import Jar.Exec.Interp
import Jar.X86.Instr

/-! The effect of each emitted instruction on the machine state. -/

namespace Jar.X86

/-- The arithmetic flags; one that is undefined, or that no emitted sequence reads, is absent. -/
structure Flags where
  carry : Option Bool
  zero : Option Bool
  sign : Option Bool
  overflow : Option Bool
  deriving DecidableEq, Repr

/-- Flags that may hold anything. -/
def Flags.unknown : Flags := ⟨none, none, none, none⟩

/-- The truth of a condition, absent when it depends on an absent flag. -/
def Cc.eval (cc : Cc) (f : Flags) : Option Bool :=
  match cc with
  | .o => f.overflow
  | .no => f.overflow.map (!·)
  | .b => f.carry
  | .ae => f.carry.map (!·)
  | .e => f.zero
  | .ne => f.zero.map (!·)
  | .be => do return (← f.carry) || (← f.zero)
  | .a => do return !((← f.carry) || (← f.zero))
  | .s => f.sign
  | .ns => f.sign.map (!·)
  | .p | .np => none
  | .l => do return (← f.sign) != (← f.overflow)
  | .ge => do return (← f.sign) == (← f.overflow)
  | .le => do return (← f.zero) || ((← f.sign) != (← f.overflow))
  | .g => do return !(← f.zero) && ((← f.sign) == (← f.overflow))

/-- The execution context shared with the driver. -/
structure Context where
  /-- The homes of the guest registers. -/
  regs : Regs
  gas : Word64
  dispatchTable : Word64
  codeBase : Word64
  /-- The stack pointer after the prologue's saves. -/
  hostRspBase : Word64
  exitReason : BitVec 32
  exitArg : BitVec 32
  /-- The guest offset at which to enter. -/
  entryPc : BitVec 32
  /-- The guest offset recorded at exit. -/
  pc : BitVec 32

/-- Read a 64-bit cell. -/
def Context.get64 (c : Context) : Cell64 → Word64
  | .reg slot => c.regs slot
  | .gas => c.gas
  | .dispatchTable => c.dispatchTable
  | .codeBase => c.codeBase
  | .hostRspBase => c.hostRspBase

def Context.set64 (c : Context) (cell : Cell64) (v : Word64) : Context :=
  match cell with
  | .reg slot => { c with regs := Function.update c.regs slot v }
  | .gas => { c with gas := v }
  | .dispatchTable => { c with dispatchTable := v }
  | .codeBase => { c with codeBase := v }
  | .hostRspBase => { c with hostRspBase := v }

def Context.get32 (c : Context) : Cell32 → BitVec 32
  | .exitReason => c.exitReason
  | .exitArg => c.exitArg
  | .entryPc => c.entryPc
  | .pc => c.pc
  | .regLow slot => (c.regs slot).extractLsb' 0 32
  | .regHigh slot => (c.regs slot).extractLsb' 32 32

def Context.set32 (c : Context) (cell : Cell32) (v : BitVec 32) : Context :=
  match cell with
  | .exitReason => { c with exitReason := v }
  | .exitArg => { c with exitArg := v }
  | .entryPc => { c with entryPc := v }
  | .pc => { c with pc := v }
  | .regLow slot =>
    { c with regs := Function.update c.regs slot ((c.regs slot).extractLsb' 32 32 ++ v) }
  | .regHigh slot =>
    { c with regs := Function.update c.regs slot (v ++ (c.regs slot).extractLsb' 0 32) }

/-- What the emitted code runs against and never changes. -/
structure Env where
  /-- The guest program, whose code region is readable. -/
  prog : Program
  /-- The doubleword at an address of the dispatch region. -/
  dispatch : Word64 → BitVec 32

/-- The machine state; the stack is the list of quadwords from RSP upward. -/
structure Machine where
  regs : Reg → Word64
  flags : Flags
  /-- The quadwords from RSP upward. -/
  stack : List Word64
  ctx : Context
  mem : CopyingMemory

/-- Write a register; moving RSP upward discards the quadwords below it. -/
def Machine.setReg (m : Machine) (r : Reg) (v : Word64) : Machine :=
  { m with
    regs := Function.update m.regs r v
    stack := if r = .rsp then m.stack.drop ((v - m.regs .rsp).toNat / 8) else m.stack }

/-- Write the low half of a register, which clears the high half. -/
def Machine.setReg32 (m : Machine) (r : Reg) (v : BitVec 32) : Machine :=
  m.setReg r (v.zeroExtend 64)

/-- The outcome of one instruction. -/
inductive Result where
  /-- Execution goes on after the instruction. -/
  | next (m : Machine)
  /-- Execution goes on at a displacement from the end of the instruction. -/
  | jump (m : Machine) (rel : BitVec 32)
  /-- Execution goes on at an address. -/
  | jumpVa (m : Machine) (va : Word64)
  /-- Control returns to the driver. -/
  | ret (m : Machine)
  /-- A guest access faults. -/
  | pageFault (m : Machine) (addr : BitVec 32)
  | divideError
  /-- The outcome depends on something the model leaves open. -/
  | undefined

/-! ## Arithmetic -/

def logicFlags {n : Nat} (v : BitVec n) : Flags := ⟨some false, some (v == 0), some v.msb, some false⟩

def addFlags {n : Nat} (a b : BitVec n) : Flags :=
  ⟨some (BitVec.uaddOverflow a b), some (a + b == 0), some (a + b).msb,
    some (BitVec.saddOverflow a b)⟩

def subFlags {n : Nat} (a b : BitVec n) : Flags :=
  ⟨some (BitVec.usubOverflow a b), some (a - b == 0), some (a - b).msb,
    some (BitVec.ssubOverflow a b)⟩

/-- The result of a two-operand instruction, absent for those that write flags only. -/
def Alu.result {n : Nat} (op : Alu) (a b : BitVec n) : Option (BitVec n) :=
  match op with
  | .add => some (a + b)
  | .or => some (a ||| b)
  | .and => some (a &&& b)
  | .sub => some (a - b)
  | .xor => some (a ^^^ b)
  | .cmp | .test => none

def Alu.flags {n : Nat} (op : Alu) (a b : BitVec n) : Flags :=
  match op with
  | .add => addFlags a b
  | .sub | .cmp => subFlags a b
  | .or => logicFlags (a ||| b)
  | .and | .test => logicFlags (a &&& b)
  | .xor => logicFlags (a ^^^ b)

/-- Execute a two-operand instruction on a destination and a source value. -/
def Machine.alu (m : Machine) (size : Size) (op : Alu) (dst : Reg) (src : Word64) : Machine :=
  match size with
  | .q64 =>
    let a := m.regs dst
    let m' := { m with flags := op.flags a src }
    (op.result a src).elim m' (m'.setReg dst)
  | .d32 =>
    let a := low32 (m.regs dst)
    let m' := { m with flags := op.flags a (low32 src) }
    (op.result a (low32 src)).elim m' (m'.setReg32 dst)

def Shift.value {n : Nat} (op : Shift) (a : BitVec n) (count : Nat) : BitVec n :=
  match op with
  | .rol => a.rotateLeft count
  | .ror => a.rotateRight count
  | .shl => a <<< count
  | .shr => a >>> count
  | .sar => a.sshiftRight count

/-- Execute a shift, whose count the processor reduces to the operand size. -/
def Machine.shift (m : Machine) (size : Size) (op : Shift) (dst : Reg) (count : Nat) : Machine :=
  let m' := { m with flags := .unknown }
  match size with
  | .q64 => m'.setReg dst (op.value (m.regs dst) (count % 64))
  | .d32 => m'.setReg32 dst (op.value (low32 (m.regs dst)) (count % 32))

def Count.value {n : Nat} (op : Count) (a : BitVec n) : BitVec n :=
  match op with
  | .popcnt => a.cpop
  | .lzcnt => a.clz
  | .tzcnt => if a = 0 then BitVec.ofNat n n else a.ctz

def Extend.value (op : Extend) (a : Word64) : Word64 :=
  match op with
  | .movsxd => sext32 (low32 a)
  | .movsx8 => (a.extractLsb' 0 8).signExtend 64
  | .movsx16 => (a.extractLsb' 0 16).signExtend 64
  | .movzx16 => (a.extractLsb' 0 16).zeroExtend 64
  | .movzx32 => zext32 a

/-- Quotient and remainder of a double-width dividend, absent where the processor faults. -/
def divide {n : Nat} (signed : Bool) (hi lo divisor : BitVec n) : Option (BitVec n × BitVec n) :=
  if signed then
    let a := (hi ++ lo).toInt
    let b := divisor.toInt
    let q := a.tdiv b
    if b = 0 ∨ q < -2 ^ (n - 1) ∨ 2 ^ (n - 1) ≤ q then none
    else some (BitVec.ofInt n q, BitVec.ofInt n (a.tmod b))
  else
    let a := (hi ++ lo).toNat
    let b := divisor.toNat
    if b = 0 ∨ 2 ^ n ≤ a / b then none
    else some (BitVec.ofNat n (a / b), BitVec.ofNat n (a % b))

def Machine.div (m : Machine) (size : Size) (signed : Bool) (src : Reg) : Result :=
  let m' := { m with flags := .unknown }
  match size with
  | .q64 =>
    match divide signed (m.regs .rdx) (m.regs .rax) (m.regs src) with
    | some (q, r) => .next ((m'.setReg .rax q).setReg .rdx r)
    | none => .divideError
  | .d32 =>
    match divide signed (low32 (m.regs .rdx)) (low32 (m.regs .rax)) (low32 (m.regs src)) with
    | some (q, r) => .next ((m'.setReg32 .rax q).setReg32 .rdx r)
    | none => .divideError

def Machine.mulWide (m : Machine) (signed : Bool) (src : Reg) : Machine :=
  let extend (v : Word64) : BitVec 128 := if signed then v.signExtend 128 else v.zeroExtend 128
  let product := extend (m.regs .rax) * extend (m.regs src)
  let m' := { m with flags := .unknown }
  (m'.setReg .rax (product.extractLsb' 0 64)).setReg .rdx (product.extractLsb' 64 64)

/-! ## Guest memory -/

def Width.bytes : Width → Nat
  | .w8 => 1
  | .w16 => 2
  | .w32 => 4
  | .w64 => 8

/-- First touch of an access: the page-fault handler takes the charge from the gas register. -/
def Machine.touch (m : Machine) (addr : BitVec 32) (width : Nat) (isWrite : Bool) :
    Option Machine :=
  (m.mem.touch addr width isWrite).map fun (mem, total) =>
    { m with
      mem
      regs := Function.update m.regs .r15 (m.regs .r15 - BitVec.ofNat 64 total) }

def Machine.loadGuest (env : Env) (m : Machine) (width : Width) (dst idx : Reg) : Result :=
  let va := m.regs idx
  -- Guest addresses are the host addresses below four gibibytes.
  if 2 ^ 32 ≤ va.toNat then .undefined else
  match m.touch (low32 va) width.bytes false with
  | none => .pageFault m (low32 va)
  | some m =>
    match loadValue env.prog m.mem (low32 va) width.bytes with
    | some value => .next (m.setReg dst value)
    | none => .pageFault m (low32 va)

def Machine.storeGuest (m : Machine) (width : Width) (idx src : Reg) : Result :=
  let va := m.regs idx
  if 2 ^ 32 ≤ va.toNat then .undefined else
  match m.touch (low32 va) width.bytes true with
  | none => .pageFault m (low32 va)
  | some m =>
    if storeWritable m.mem (low32 va) width.bytes then
      match m.mem.writeLe (low32 va) width.bytes (m.regs src) with
      | some mem => .next { m with mem }
      | none => .pageFault m (low32 va)
    else .pageFault m (low32 va)

/-! ## Execution -/

def Machine.push (m : Machine) (v : Word64) : Machine :=
  { m with regs := Function.update m.regs .rsp (m.regs .rsp - 8), stack := v :: m.stack }

/-- Pop a quadword into a register, absent when the stack below is not known. -/
def Machine.pop (m : Machine) (r : Reg) : Option Machine :=
  match m.stack with
  | v :: rest =>
    some { m with
      regs := Function.update (Function.update m.regs .rsp (m.regs .rsp + 8)) r v
      stack := rest }
  | [] => none

def exec (env : Env) (m : Machine) : Instr → Result
  | .movRR dst src => .next (m.setReg dst (m.regs src))
  | .movImm32 dst imm => .next (m.setReg32 dst imm)
  | .movImmSx dst imm => .next (m.setReg dst (sext32 imm))
  | .movImm64 dst imm => .next (m.setReg dst imm)
  | .xorZero dst => .next ({ m with flags := logicFlags 0#32 }.setReg dst 0)
  | .load64 dst base disp =>
    -- Only the stack is addressed this way.
    if base = .rsp then
      match m.stack[disp.toNat / 8]? with
      | some v => .next (m.setReg dst v)
      | none => .undefined
    else .undefined
  | .loadIndex width dst idx => m.loadGuest env width dst idx
  | .storeIndex width idx src => m.storeGuest width idx src
  | .loadCtx64 dst cell => .next (m.setReg dst (m.ctx.get64 cell))
  | .loadCtx32 dst cell => .next (m.setReg32 dst (m.ctx.get32 cell))
  | .storeCtx64 cell src => .next { m with ctx := m.ctx.set64 cell (m.regs src) }
  | .storeCtx32 cell src => .next { m with ctx := m.ctx.set32 cell (low32 (m.regs src)) }
  | .storeCtx32Imm cell imm => .next { m with ctx := m.ctx.set32 cell imm }
  | .addCtx64 dst cell => .next (m.alu .q64 .add dst (m.ctx.get64 cell))
  | .cmpCtx64 dst cell => .next (m.alu .q64 .cmp dst (m.ctx.get64 cell))
  | .loadTable dst base idx =>
    .next (m.setReg dst (sext32 (env.dispatch (m.regs base + m.regs idx * 4))))
  | .alu size op dst src => .next (m.alu size op dst (m.regs src))
  | .aluImm size op dst imm => .next (m.alu size op dst (sext32 imm))
  | .aluPatch op dst imm => .next (m.alu .q64 op dst (sext32 imm))
  | .imul size dst src =>
    let m' := { m with flags := .unknown }
    match size with
    | .q64 => .next (m'.setReg dst (m.regs dst * m.regs src))
    | .d32 => .next (m'.setReg32 dst (low32 (m.regs dst) * low32 (m.regs src)))
  | .mulWide signed src => .next (m.mulWide signed src)
  | .div size signed src => m.div size signed src
  | .cqo => .next (m.setReg .rdx ((m.regs .rax).sshiftRight 63))
  | .cdq => .next (m.setReg32 .rdx ((low32 (m.regs .rax)).sshiftRight 31))
  | .neg64 dst => .next ({ m with flags := .unknown }.setReg dst (-m.regs dst))
  | .not64 dst => .next (m.setReg dst (~~~m.regs dst))
  | .shiftImm size op dst imm => .next (m.shift size op dst imm.toNat)
  | .shiftCl size op dst => .next (m.shift size op dst (m.regs .rcx).toNat)
  | .extend op dst src => .next (m.setReg dst (op.value (m.regs src)))
  | .setcc cc dst =>
    match cc.eval m.flags with
    | some b => .next (m.setReg dst ((m.regs dst &&& ~~~0xFF#64) ||| boolWord b))
    | none => .undefined
  | .cmovcc cc dst src =>
    match cc.eval m.flags with
    | some b => .next (if b then m.setReg dst (m.regs src) else m)
    | none => .undefined
  | .count size op dst src =>
    let m' := { m with flags := .unknown }
    match size with
    | .q64 => .next (m'.setReg dst (op.value (m.regs src)))
    | .d32 => .next (m'.setReg32 dst (op.value (low32 (m.regs src))))
  | .bswap64 dst => .next (m.setReg dst (swapBytes (m.regs dst)))
  | .push reg => .next (m.push (m.regs reg))
  | .pop reg => (m.pop reg).elim .undefined .next
  | .lea dst base disp => .next (m.setReg dst (m.regs base + sext32 disp))
  | .lea32 dst base disp => .next (m.setReg32 dst (low32 (m.regs base) + disp))
  | .leaSib32 dst base idx scale =>
    .next (m.setReg32 dst (low32 (m.regs base) + low32 (m.regs idx) <<< scale))
  | .jmp _ rel => .jump m rel
  | .jcc _ cc rel =>
    match cc.eval m.flags with
    | some b => if b then .jump m rel else .next m
    | none => .undefined
  | .jmpReg reg => .jumpVa m (m.regs reg)
  | .ret => .ret m

/-! ## Starting states -/

/-- A machine with given registers, an empty stack and no mapped page. -/
def Machine.ofRegs (regs : Reg → Word64) : Machine where
  regs := regs
  flags := .unknown
  stack := []
  ctx := ⟨fun _ => 0, 0, 0, 0, 0, 0, 0, 0, 0⟩
  mem := ⟨0, 0, fun _ => 0, fun _ => .none, fun _ => .notPresent, 0, 0⟩

/-- The environment of a code section, with an empty dispatch region. -/
def Env.ofCode (code : List Byte) : Env := ⟨Program.new code 0 25, fun _ => 0⟩

end Jar.X86
