import Jar.X86.Asm
import Jar.X86.Machine

/-! What a lowering routine emits, and the state it reads and changes while it does. -/

namespace Jar.Recompiler

open X86

/-! ## Registers -/

/-- The number of guest registers that live in host registers. -/
abbrev HostSlot := Fin 13

def regMap (slot : HostSlot) : Reg :=
  match slot with
  | 0 => .rbp | 1 => .rbx | 2 => .r12 | 3 => .r13 | 4 => .r14 | 5 => .rsi | 6 => .rdi
  | 7 => .r8 | 8 => .r9 | 9 => .r10 | 10 => .r11 | 11 => .rax | 12 => .rcx

/-- The scratch register, which holds no guest register. -/
abbrev scratch : Reg := .rdx

/-- The gas register. -/
abbrev gasReg : Reg := .r15

/-- The host slot of a register field, absent for `x0`, spilled and reserved registers. -/
def rvSlot (x : RegIdx) : Option HostSlot :=
  match regSlotOrFf x with
  | some slot => if small : slot.val < 13 then some ⟨slot.val, small⟩ else none
  | none => none

/-- The host register of a register field, where it has one. -/
def hostReg (x : RegIdx) : Option Reg := (rvSlot x).map regMap

def spillSlot (x : RegIdx) : Slot := (regSlotOrFf x).getD 0

/-! ## Exit reasons and fixed labels -/

/-- The exit reasons stored in the context. -/
def exitPanic : BitVec 32 := 1
/-- The exit reason of a refused gas gate. -/
def exitOog : BitVec 32 := 2
def exitHostCall : BitVec 32 := 4
def exitEcall : BitVec 32 := 6
def exitTrap : BitVec 32 := 7

/-- The label of the common exit, the first one handed out after the reserved label zero. -/
def exitLabel : Label := 1
def oogLabel : Label := 2
def panicLabel : Label := 3
/-- The label of the out-of-gas exit that reads the guest offset from the scratch register. -/
def oogPcLabel : Label := 4
/-- The label of guest offset zero. -/
def labelBase : Label := 5

/-- The label of a guest offset, in wrapping 32-bit arithmetic. -/
def labelForPc (pc : BitVec 32) : Label := (BitVec.ofNat 32 labelBase + pc).toNat

/-! ## Emitted items -/

/-- How a jump to a guest offset is emitted. -/
inductive JumpKind where
  /-- To a later offset, left pending until the code is complete. -/
  | forward
  /-- To a block start that is already bound. -/
  | backward
  /-- To the panic exit, since the offset starts no block. -/
  | invalid
  deriving DecidableEq, Repr

/-- The label that a jump to a guest offset is emitted with. -/
def JumpKind.label (kind : JumpKind) (target : BitVec 32) : Label :=
  match kind with
  | .forward | .backward => labelForPc target
  | .invalid => panicLabel

/-- One call of the assembler, or one record made next to a call. -/
inductive Item where
  | ins (i : Instr)
  | newLabel
  | bind (l : Label)
  | jmp (l : Label)
  | jcc (cc : Cc) (l : Label)
  /-- The jump of a guest instruction to a guest offset, conditional or not. -/
  | guest (kind : JumpKind) (cc : Option Cc) (target : BitVec 32) (pc : Nat)
  /-- Record that the next instruction is a guest access. -/
  | trapEntry (pc : Nat) (width : Nat)
  deriving DecidableEq, Repr

/-- What is known about the value of a host register at compile time. -/
inductive RegDef where
  | unknown
  | const (value : BitVec 32)
  | shifted (src : HostSlot) (shift : Nat)
  | scaledAdd (base idx : HostSlot) (shift : Nat)
  deriving DecidableEq, Repr

/-- The state of a lowering routine. -/
structure LowerState where
  /-- What is known about each host register. -/
  regDefs : HostSlot → RegDef
  /-- The destination and sources of the addition whose carry the flags still hold. -/
  lastAddCf : Option (HostSlot × HostSlot × HostSlot)
  /-- The number of labels handed out. -/
  labelsLen : Nat
  items : List Item

/-- A lowering routine; `none` is a panic of the compiler. -/
abbrev Lower := StateT LowerState Option

/-- The compile-time facts that jumps, address constants and gas costs depend on. -/
structure CodeEnv where
  /-- The cycles of a load or store in the memory tier. -/
  memCycles : Nat
  /-- The guest address of the code. -/
  codeBase : BitVec 32
  codeLen : Nat
  /-- Whether a block start has been bound at a guest offset. -/
  validPc : Nat → Bool

namespace Lower

def emitItems (items : List Item) : Lower Unit :=
  modify fun st => { st with items := st.items ++ items }

def emit (code : List Instr) : Lower Unit := emitItems (code.map .ins)

def newLabel : Lower Label := do
  let l := (← get).labelsLen
  emitItems [.newLabel]
  modify fun st => { st with labelsLen := l + 1 }
  return l

/-- Take the value of an option that the source unwraps. -/
def unwrap {α : Type} (o : Option α) : Lower α := StateT.lift o

end Lower

/-! ## Tracking of register values -/

/-- Whether a definition reads a register. -/
def RegDef.reads (reg : HostSlot) : RegDef → Bool
  | .shifted src _ => src == reg
  | .scaledAdd base idx _ => base == reg || idx == reg
  | _ => false

/-- Forget the definitions of the other registers that read a register. -/
def invalidateDependents (defs : HostSlot → RegDef) (reg : HostSlot) : HostSlot → RegDef :=
  fun i => if i ≠ reg ∧ (defs i).reads reg then .unknown else defs i

/-- Give a register a definition and forget those that read its old value. -/
def setDef (defs : HostSlot → RegDef) (reg : HostSlot) (d : RegDef) : HostSlot → RegDef :=
  invalidateDependents (Function.update defs reg d) reg

/-- Forget what is known about a register. -/
def invalidateReg (reg : HostSlot) : Lower Unit :=
  modify fun st => { st with regDefs := setDef st.regDefs reg .unknown }

def installDef (reg : HostSlot) (d : RegDef) : Lower Unit :=
  modify fun st => { st with regDefs := setDef st.regDefs reg d }

/-- Forget which addition the carry flag belongs to. -/
def clearAddCf : Lower Unit := modify fun st => { st with lastAddCf := none }

end Jar.Recompiler
