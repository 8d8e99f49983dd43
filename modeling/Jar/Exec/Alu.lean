import Jar.Exec.Instruction

/-! Values computed by the arithmetic instructions, as the interpreter computes them. -/

namespace Jar

/-- A truth value as a 64-bit word. -/
def boolWord (b : Bool) : Word64 := if b then 1 else 0

def low32 (a : Word64) : BitVec 32 := a.extractLsb' 0 32

def sext32 (a : BitVec 32) : Word64 := a.signExtend 64

/-- Zero extension of the low 32 bits of a register. -/
def zext32 (a : Word64) : Word64 := (low32 a).zeroExtend 64

def swapBytes (a : Word64) : Word64 :=
  a.extractLsb' 0 8 ++ a.extractLsb' 8 8 ++ a.extractLsb' 16 8 ++ a.extractLsb' 24 8
    ++ a.extractLsb' 32 8 ++ a.extractLsb' 40 8 ++ a.extractLsb' 48 8 ++ a.extractLsb' 56 8

/-- Every nonzero byte becomes `0xFF`, one loop iteration per byte. -/
def orcBytes (a : Word64) : Word64 :=
  (List.range 8).foldl (fun out i =>
    if a.extractLsb' (i * 8) 8 ≠ 0 then out ||| (0xFF#64 <<< (i * 8)) else out) 0

/-- Signed division of a machine word, with its two exceptional cases. -/
def divSigned {n : Nat} (a b : BitVec n) : BitVec n :=
  if b = 0 then -1 else if a = BitVec.intMin n ∧ b = -1 then a else a.sdiv b

/-- Unsigned division of a machine word, all ones for a zero divisor. -/
def divUnsigned {n : Nat} (a b : BitVec n) : BitVec n :=
  if b = 0 then -1 else a / b

/-- Signed remainder of a machine word, with its two exceptional cases. -/
def remSigned {n : Nat} (a b : BitVec n) : BitVec n :=
  if b = 0 then a else if a = BitVec.intMin n ∧ b = -1 then 0 else a.srem b

/-- Unsigned remainder of a machine word, the dividend for a zero divisor. -/
def remUnsigned {n : Nat} (a b : BitVec n) : BitVec n :=
  if b = 0 then a else a % b

def highWord (a b : BitVec 128) : Word64 := (a * b).extractLsb' 64 64

/-- The value of an operation on a register and an immediate. -/
def ImmOp.eval (op : ImmOp) (a : Word64) (imm : BitVec 32) : Word64 :=
  let value := sext32 imm
  match op with
  | .addi => a + value
  | .slti => boolWord (a.slt value)
  | .sltiu => boolWord (a.ult value)
  | .xori => a ^^^ value
  | .ori => a ||| value
  | .andi => a &&& value
  | .addiw => sext32 (low32 a + imm)

def ShiftImmOp.eval (op : ShiftImmOp) (a : Word64) (shamt : BitVec 6) : Word64 :=
  let n := shamt.toNat
  match op with
  | .slli => a <<< n
  | .srli => a >>> n
  | .srai => a.sshiftRight n
  | .slliw => sext32 (low32 a <<< (n % 32))
  | .srliw => sext32 (low32 a >>> (n % 32))
  | .sraiw => sext32 ((low32 a).sshiftRight (n % 32))
  | .rori => a.rotateRight n
  | .roriw => sext32 ((low32 a).rotateRight (n % 32))
  | .slliuw => zext32 a <<< n
  | .bclri => a &&& ~~~(1#64 <<< n)
  | .bseti => a ||| (1#64 <<< n)
  | .binvi => a ^^^ (1#64 <<< n)
  | .bexti => (a >>> n) &&& 1

def UnaryOp.eval (op : UnaryOp) (a : Word64) : Word64 :=
  match op with
  | .clz => a.clz
  | .clzw => (low32 a).clz.zeroExtend 64
  | .ctz => if a = 0 then 64 else a.ctz
  | .ctzw => if low32 a = 0 then 32 else (low32 a).ctz.zeroExtend 64
  | .cpop => a.cpop
  | .cpopw => (low32 a).cpop.zeroExtend 64
  | .sextB => (a.extractLsb' 0 8).signExtend 64
  | .sextH => (a.extractLsb' 0 16).signExtend 64
  | .zextH => a &&& 0xFFFF
  | .rev8 => swapBytes a
  | .orcB => orcBytes a

/-- The value of a two-register operation. -/
def RegOp.eval (op : RegOp) (a b : Word64) : Word64 :=
  let shift := b.toNat % 64
  let shiftw := b.toNat % 32
  match op with
  | .add => a + b
  | .sub => a - b
  | .sll => a <<< shift
  | .srl => a >>> shift
  | .sra => a.sshiftRight shift
  | .slt => boolWord (a.slt b)
  | .sltu => boolWord (a.ult b)
  | .xor => a ^^^ b
  | .or => a ||| b
  | .and => a &&& b
  | .addw => sext32 (low32 a + low32 b)
  | .subw => sext32 (low32 a - low32 b)
  | .sllw => sext32 (low32 a <<< shiftw)
  | .srlw => sext32 (low32 a >>> shiftw)
  | .sraw => sext32 ((low32 a).sshiftRight shiftw)
  | .mul => a * b
  | .mulh => highWord (a.signExtend 128) (b.signExtend 128)
  | .mulhsu => highWord (a.signExtend 128) (b.zeroExtend 128)
  | .mulhu => highWord (a.zeroExtend 128) (b.zeroExtend 128)
  | .div => divSigned a b
  | .divu => divUnsigned a b
  | .rem => remSigned a b
  | .remu => remUnsigned a b
  | .mulw => sext32 (low32 a * low32 b)
  | .divw => sext32 (divSigned (low32 a) (low32 b))
  | .divuw => sext32 (divUnsigned (low32 a) (low32 b))
  | .remw => sext32 (remSigned (low32 a) (low32 b))
  | .remuw => sext32 (remUnsigned (low32 a) (low32 b))
  | .min => if a.slt b then a else b
  | .minu => if a.ult b then a else b
  | .max => if a.slt b then b else a
  | .maxu => if a.ult b then b else a
  | .andn => a &&& ~~~b
  | .orn => a ||| ~~~b
  | .xnor => ~~~(a ^^^ b)
  | .rol => a.rotateLeft shift
  | .ror => a.rotateRight shift
  | .rolw => sext32 ((low32 a).rotateLeft shiftw)
  | .rorw => sext32 ((low32 a).rotateRight shiftw)
  | .sh1add => (a <<< 1) + b
  | .sh2add => (a <<< 2) + b
  | .sh3add => (a <<< 3) + b
  | .sh1adduw => (zext32 a <<< 1) + b
  | .sh2adduw => (zext32 a <<< 2) + b
  | .sh3adduw => (zext32 a <<< 3) + b
  | .adduw => zext32 a + b
  | .bclr => a &&& ~~~(1#64 <<< shift)
  | .bset => a ||| (1#64 <<< shift)
  | .binv => a ^^^ (1#64 <<< shift)
  | .bext => (a >>> shift) &&& 1
  | .czeroEqz => if b = 0 then 0 else a
  | .czeroNez => if b ≠ 0 then 0 else a

def BranchOp.taken (op : BranchOp) (a b : Word64) : Bool :=
  match op with
  | .beq => a == b
  | .bne => a != b
  | .blt => a.slt b
  | .bge => !a.slt b
  | .bltu => a.ult b
  | .bgeu => !a.ult b

end Jar
