import Jar.Exec.Regs

/-! The x86-64 instructions that the assembler emits, with the length of each encoding. -/

namespace Jar.X86

/-- The general-purpose registers. -/
inductive Reg where
  | rax | rcx | rdx | rbx | rsp | rbp | rsi | rdi
  | r8 | r9 | r10 | r11 | r12 | r13 | r14 | r15
  deriving DecidableEq, Repr

def Reg.code : Reg → Nat
  | .rax => 0 | .rcx => 1 | .rdx => 2 | .rbx => 3 | .rsp => 4 | .rbp => 5 | .rsi => 6 | .rdi => 7
  | .r8 => 8 | .r9 => 9 | .r10 => 10 | .r11 => 11 | .r12 => 12 | .r13 => 13 | .r14 => 14
  | .r15 => 15

/-- The three bits of a register number that fit in an operand byte. -/
def Reg.lo (r : Reg) : Nat := r.code % 8

/-- Whether a register number needs the extension bit of a REX byte. -/
def Reg.needsRex (r : Reg) : Bool := 8 ≤ r.code

/-- The condition codes. -/
inductive Cc where
  | o | no | b | ae | e | ne | be | a | s | ns | p | np | l | ge | le | g
  deriving DecidableEq, Repr

/-- The operand sizes of the arithmetic instructions. -/
inductive Size where
  | d32 | q64
  deriving DecidableEq, Repr

/-- The two-operand arithmetic instructions; the last two write flags only. -/
inductive Alu where
  | add | or | and | sub | xor | cmp | test
  deriving DecidableEq, Repr

/-- The shift and rotate instructions. -/
inductive Shift where
  | rol | ror | shl | shr | sar
  deriving DecidableEq, Repr

/-- The bit counting instructions. -/
inductive Count where
  | popcnt | lzcnt | tzcnt
  deriving DecidableEq, Repr

/-- The register-to-register extensions. -/
inductive Extend where
  | movsxd | movsx8 | movsx16 | movzx16 | movzx32
  deriving DecidableEq, Repr

/-- The widths of guest memory accesses. -/
inductive Width where
  | w8 | w16 | w32 | w64
  deriving DecidableEq, Repr

/-- The 64-bit cells of the execution context. -/
inductive Cell64 where
  | reg (slot : Slot)
  | gas | dispatchTable | codeBase | hostRspBase
  deriving DecidableEq, Repr

/-- The 32-bit cells of the execution context, with the halves of the register homes. -/
inductive Cell32 where
  | exitReason | exitArg | entryPc | pc
  | regLow (slot : Slot)
  | regHigh (slot : Slot)
  deriving DecidableEq, Repr

/-- The emitted instructions. -/
inductive Instr where
  | movRR (dst src : Reg)
  /-- `mov r32, imm32`, which clears the upper half and leaves the flags. -/
  | movImm32 (dst : Reg) (imm : BitVec 32)
  /-- `mov r64, imm32` with sign extension. -/
  | movImmSx (dst : Reg) (imm : BitVec 32)
  | movImm64 (dst : Reg) (imm : Word64)
  /-- `xor r32, r32`, the short zeroing form. -/
  | xorZero (dst : Reg)
  | load64 (dst base : Reg) (disp : BitVec 32)
  /-- Guest access at the address in `idx`. -/
  | loadIndex (width : Width) (dst idx : Reg)
  | storeIndex (width : Width) (idx src : Reg)
  | loadCtx64 (dst : Reg) (cell : Cell64)
  | loadCtx32 (dst : Reg) (cell : Cell32)
  | storeCtx64 (cell : Cell64) (src : Reg)
  | storeCtx32 (cell : Cell32) (src : Reg)
  | storeCtx32Imm (cell : Cell32) (imm : BitVec 32)
  | addCtx64 (dst : Reg) (cell : Cell64)
  | cmpCtx64 (dst : Reg) (cell : Cell64)
  /-- `movsxd dst, dword [base + idx * 4]`, the dispatch table lookup. -/
  | loadTable (dst base idx : Reg)
  | alu (size : Size) (op : Alu) (dst src : Reg)
  | aluImm (size : Size) (op : Alu) (dst : Reg) (imm : BitVec 32)
  /-- The seven-byte immediate form whose immediate is patched later. -/
  | aluPatch (op : Alu) (dst : Reg) (imm : BitVec 32)
  | imul (size : Size) (dst src : Reg)
  /-- The widening product of RAX into RDX and RAX. -/
  | mulWide (signed : Bool) (src : Reg)
  /-- The division of RDX and RAX. -/
  | div (size : Size) (signed : Bool) (src : Reg)
  | cqo
  | cdq
  | neg64 (dst : Reg)
  | not64 (dst : Reg)
  | shiftImm (size : Size) (op : Shift) (dst : Reg) (imm : BitVec 6)
  | shiftCl (size : Size) (op : Shift) (dst : Reg)
  | extend (op : Extend) (dst src : Reg)
  | setcc (cc : Cc) (dst : Reg)
  | cmovcc (cc : Cc) (dst src : Reg)
  | count (size : Size) (op : Count) (dst src : Reg)
  | bswap64 (dst : Reg)
  | push (reg : Reg)
  | pop (reg : Reg)
  | lea (dst base : Reg) (disp : BitVec 32)
  | lea32 (dst base : Reg) (disp : BitVec 32)
  /-- `lea r32, [base + idx << scale]`. -/
  | leaSib32 (dst base idx : Reg) (scale : Nat)
  /-- A direct jump, with an 8-bit or a 32-bit displacement field. -/
  | jmp (short : Bool) (rel : BitVec 32)
  | jcc (short : Bool) (cc : Cc) (rel : BitVec 32)
  | jmpReg (reg : Reg)
  | ret
  deriving DecidableEq, Repr

/-- Whether an immediate fits a sign-extended byte. -/
def fitsByte (imm : BitVec 32) : Bool := -128 ≤ imm.toInt && imm.toInt ≤ 127

/-- The optional REX byte of an instruction without a 64-bit operand. -/
def rexLen (regs : List Reg) : Nat := if regs.any Reg.needsRex then 1 else 0

/-- The operand bytes of `[base + disp]`. -/
def modrmDispLen (base : Reg) (disp : BitVec 32) : Nat :=
  -- RSP and R12 need a scale byte; RBP and R13 have no form without a displacement.
  let sib := if base.lo = 4 then 1 else 0
  let dispLen := if disp = 0 ∧ base.lo ≠ 5 then 0 else if fitsByte disp then 1 else 4
  1 + sib + dispLen

/-- The operand bytes of `[idx]` without a base. -/
def modrmBaselessLen (idx : Reg) : Nat := if idx.lo = 4 ∨ idx.lo = 5 then 2 else 1

/-- Whether a register names a byte operand only under a REX byte. -/
def byteNeedsRex (r : Reg) : Bool := 4 ≤ r.lo

def Instr.len : Instr → Nat
  | .movRR _ _ => 3
  | .movImm32 dst _ => 5 + rexLen [dst]
  | .movImmSx _ _ => 7
  | .movImm64 _ _ => 10
  | .xorZero dst => 2 + rexLen [dst]
  | .load64 _ base disp => 2 + modrmDispLen base disp
  | .loadIndex .w8 _ idx => 3 + modrmBaselessLen idx
  | .loadIndex .w16 dst idx => 2 + rexLen [dst, idx] + modrmBaselessLen idx
  | .loadIndex .w32 dst idx => 1 + rexLen [dst, idx] + modrmBaselessLen idx
  | .loadIndex .w64 _ idx => 2 + modrmBaselessLen idx
  | .storeIndex .w8 idx src =>
    1 + (if src.needsRex || idx.needsRex || byteNeedsRex src then 1 else 0) + modrmBaselessLen idx
  | .storeIndex .w16 idx src => 2 + rexLen [src, idx] + modrmBaselessLen idx
  | .storeIndex .w32 idx src => 1 + rexLen [src, idx] + modrmBaselessLen idx
  | .storeIndex .w64 idx _ => 2 + modrmBaselessLen idx
  | .loadCtx64 _ _ | .storeCtx64 _ _ | .addCtx64 _ _ | .cmpCtx64 _ _ => 7
  | .loadCtx32 dst _ => 6 + rexLen [dst]
  | .storeCtx32 _ src => 6 + rexLen [src]
  | .storeCtx32Imm _ _ => 10
  | .loadTable _ _ _ => 4
  | .alu .q64 _ _ _ => 3
  | .alu .d32 _ dst src => 2 + rexLen [dst, src]
  | .aluImm .q64 _ _ imm => if fitsByte imm then 4 else 7
  | .aluImm .d32 _ dst imm => (if fitsByte imm then 3 else 6) + rexLen [dst]
  | .aluPatch _ _ _ => 7
  | .imul .q64 _ _ => 4
  | .imul .d32 dst src => 3 + rexLen [dst, src]
  | .mulWide _ _ => 3
  | .div .q64 _ _ => 3
  | .div .d32 _ src => 2 + rexLen [src]
  | .cqo => 2
  | .cdq => 1
  | .neg64 _ | .not64 _ => 3
  | .shiftImm .q64 _ _ _ => 4
  | .shiftImm .d32 _ dst _ => 3 + rexLen [dst]
  | .shiftCl .q64 _ _ => 3
  | .shiftCl .d32 _ dst => 2 + rexLen [dst]
  | .extend .movsxd _ _ => 3
  | .extend .movsx8 _ _ | .extend .movsx16 _ _ => 4
  | .extend .movzx16 dst src => 3 + rexLen [dst, src]
  | .extend .movzx32 dst src => 2 + rexLen [dst, src]
  | .setcc _ dst => 3 + (if dst.needsRex || byteNeedsRex dst then 1 else 0)
  | .cmovcc _ _ _ => 4
  | .count .q64 _ _ _ => 5
  | .count .d32 _ dst src => 4 + rexLen [dst, src]
  | .bswap64 _ => 3
  | .push reg | .pop reg => 1 + rexLen [reg]
  | .lea _ base disp => 2 + modrmDispLen base disp
  | .lea32 dst base disp => 1 + rexLen [dst, base] + modrmDispLen base disp
  | .leaSib32 dst base idx _ =>
    3 + rexLen [dst, base, idx] + (if base.lo = 5 then 1 else 0)
  | .jmp short _ => if short then 2 else 5
  | .jcc short _ _ => if short then 2 else 6
  | .jmpReg reg => 2 + rexLen [reg]
  | .ret => 1

end Jar.X86
