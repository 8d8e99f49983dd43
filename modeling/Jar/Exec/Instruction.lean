import Jar.Exec.Regs

/-! Instructions of the RV64E guest and the decoder of 32-bit instruction words. -/

namespace Jar

/-- The loads, named by width and extension. -/
inductive LoadOp where
  | lb | lh | lw | ld | lbu | lhu | lwu
  deriving DecidableEq, Repr

/-- The stores, named by width. -/
inductive StoreOp where
  | sb | sh | sw | sd
  deriving DecidableEq, Repr

/-- Operations on a register and a sign-extended immediate. -/
inductive ImmOp where
  | addi | slti | sltiu | xori | ori | andi | addiw
  deriving DecidableEq, Repr

/-- Operations on a register and a shift amount. -/
inductive ShiftImmOp where
  | slli | srli | srai | slliw | srliw | sraiw | rori | roriw | slliuw
  | bclri | bseti | binvi | bexti
  deriving DecidableEq, Repr

/-- Operations on one register. -/
inductive UnaryOp where
  | clz | clzw | ctz | ctzw | cpop | cpopw | sextB | sextH | zextH | rev8 | orcB
  deriving DecidableEq, Repr

/-- Operations on two registers. -/
inductive RegOp where
  | add | sub | sll | srl | sra | slt | sltu | xor | or | and
  | addw | subw | sllw | srlw | sraw
  | mul | mulh | mulhsu | mulhu | div | divu | rem | remu
  | mulw | divw | divuw | remw | remuw
  | min | minu | max | maxu | andn | orn | xnor | rol | ror | rolw | rorw
  | sh1add | sh2add | sh3add | sh1adduw | sh2adduw | sh3adduw | adduw
  | bclr | bset | binv | bext | czeroEqz | czeroNez
  deriving DecidableEq, Repr

/-- The conditions of the conditional branches. -/
inductive BranchOp where
  | beq | bne | blt | bge | bltu | bgeu
  deriving DecidableEq, Repr

/-- A decoded instruction, with immediates as 32-bit two's complement values. -/
inductive Inst where
  | load (op : LoadOp) (rd rs1 : RegIdx) (imm : BitVec 32)
  | store (op : StoreOp) (rs1 rs2 : RegIdx) (imm : BitVec 32)
  | opImm (op : ImmOp) (rd rs1 : RegIdx) (imm : BitVec 32)
  | shiftImm (op : ShiftImmOp) (rd rs1 : RegIdx) (shamt : BitVec 6)
  | unary (op : UnaryOp) (rd rs1 : RegIdx)
  | opReg (op : RegOp) (rd rs1 rs2 : RegIdx)
  | lui (rd : RegIdx) (imm : BitVec 32)
  | auipc (rd : RegIdx) (imm : BitVec 32)
  | jal (rd : RegIdx) (imm : BitVec 32)
  | jalr (rd rs1 : RegIdx) (imm : BitVec 32)
  | branch (op : BranchOp) (rs1 rs2 : RegIdx) (imm : BitVec 32)
  | fence
  | fenceI
  | trap
  | ecallJar
  | ecalli (imm : BitVec 32)
  | fallthrough
  | reserved
  deriving DecidableEq, Repr

/-- Whether an instruction names a register outside the RV64E file. -/
def Inst.usesReservedReg : Inst → Bool
  | .opReg _ rd rs1 rs2 => regIsReserved rd || regIsReserved rs1 || regIsReserved rs2
  | .load _ rd rs1 _ | .opImm _ rd rs1 _ | .shiftImm _ rd rs1 _ | .unary _ rd rs1
  | .jalr rd rs1 _ => regIsReserved rd || regIsReserved rs1
  | .store _ rs1 rs2 _ | .branch _ rs1 rs2 _ => regIsReserved rs1 || regIsReserved rs2
  | .lui rd _ | .auipc rd _ | .jal rd _ => regIsReserved rd
  | .fence | .fenceI | .trap | .ecallJar | .ecalli _ | .fallthrough | .reserved => false

/-! ## Fields of a 32-bit word -/

/-- The low two bits, which are both set in every 32-bit instruction. -/
def lengthBits (w : BitVec 32) : BitVec 2 := w.extractLsb' 0 2

def major (w : BitVec 32) : BitVec 5 := w.extractLsb' 2 5

def rdField (w : BitVec 32) : RegIdx := w.extractLsb' 7 5

def funct3 (w : BitVec 32) : BitVec 3 := w.extractLsb' 12 3

def rs1Field (w : BitVec 32) : RegIdx := w.extractLsb' 15 5

def rs2Field (w : BitVec 32) : RegIdx := w.extractLsb' 20 5

def funct7 (w : BitVec 32) : BitVec 7 := w.extractLsb' 25 7

def shamt6 (w : BitVec 32) : BitVec 6 := w.extractLsb' 20 6

/-- The upper six bits, which select the kind of a 64-bit shift. -/
def shtype (w : BitVec 32) : BitVec 6 := w.extractLsb' 26 6

def immI (w : BitVec 32) : BitVec 32 := (w.extractLsb' 20 12).signExtend 32

def immS (w : BitVec 32) : BitVec 32 := (w.extractLsb' 25 7 ++ w.extractLsb' 7 5).signExtend 32

def immB (w : BitVec 32) : BitVec 32 :=
  (w.extractLsb' 31 1 ++ w.extractLsb' 7 1 ++ w.extractLsb' 25 6 ++ w.extractLsb' 8 4
    ++ 0#1).signExtend 32

def immJ (w : BitVec 32) : BitVec 32 :=
  (w.extractLsb' 31 1 ++ w.extractLsb' 12 8 ++ w.extractLsb' 20 1 ++ w.extractLsb' 21 10
    ++ 0#1).signExtend 32

def immU (w : BitVec 32) : BitVec 32 := w &&& 0xFFFFF000#32

/-! ## Decoding -/

def decodeLoad (f3 : BitVec 3) : Option LoadOp :=
  match f3 with
  | 0b000#3 => some .lb
  | 0b001#3 => some .lh
  | 0b010#3 => some .lw
  | 0b011#3 => some .ld
  | 0b100#3 => some .lbu
  | 0b101#3 => some .lhu
  | 0b110#3 => some .lwu
  | _ => none

def decodeStore (f3 : BitVec 3) : Option StoreOp :=
  match f3 with
  | 0b000#3 => some .sb
  | 0b001#3 => some .sh
  | 0b010#3 => some .sw
  | 0b011#3 => some .sd
  | _ => none

def decodeOpImm (w : BitVec 32) : Inst :=
  let rd := rdField w
  let rs1 := rs1Field w
  match funct3 w with
  | 0b000#3 => .opImm .addi rd rs1 (immI w)
  | 0b010#3 => .opImm .slti rd rs1 (immI w)
  | 0b011#3 => .opImm .sltiu rd rs1 (immI w)
  | 0b100#3 => .opImm .xori rd rs1 (immI w)
  | 0b110#3 => .opImm .ori rd rs1 (immI w)
  | 0b111#3 => .opImm .andi rd rs1 (immI w)
  | 0b001#3 =>
    match shtype w with
    | 0b000000#6 => .shiftImm .slli rd rs1 (shamt6 w)
    | 0b010010#6 => .shiftImm .bclri rd rs1 (shamt6 w)
    | 0b001010#6 => .shiftImm .bseti rd rs1 (shamt6 w)
    | 0b011010#6 => .shiftImm .binvi rd rs1 (shamt6 w)
    | 0b011000#6 =>
      -- The count and extension operations are told apart by the rs2 field alone.
      match rs2Field w with
      | 0b00000#5 => .unary .clz rd rs1
      | 0b00001#5 => .unary .ctz rd rs1
      | 0b00010#5 => .unary .cpop rd rs1
      | 0b00100#5 => .unary .sextB rd rs1
      | 0b00101#5 => .unary .sextH rd rs1
      | _ => .reserved
    | _ => .reserved
  | 0b101#3 =>
    match shtype w with
    | 0b000000#6 => .shiftImm .srli rd rs1 (shamt6 w)
    | 0b010000#6 => .shiftImm .srai rd rs1 (shamt6 w)
    | 0b010010#6 => .shiftImm .bexti rd rs1 (shamt6 w)
    | 0b011000#6 => .shiftImm .rori rd rs1 (shamt6 w)
    | 0b001010#6 => if rs2Field w = 0b00111#5 then .unary .orcB rd rs1 else .reserved
    | 0b011010#6 => if rs2Field w = 0b11000#5 then .unary .rev8 rd rs1 else .reserved
    | _ => .reserved
  | _ => .reserved

def decodeOpImm32 (w : BitVec 32) : Inst :=
  let rd := rdField w
  let rs1 := rs1Field w
  let shamt5 : BitVec 6 := (w.extractLsb' 20 5).zeroExtend 6
  match funct3 w with
  | 0b000#3 => .opImm .addiw rd rs1 (immI w)
  | 0b001#3 =>
    match funct7 w with
    | 0b0000000#7 => .shiftImm .slliw rd rs1 shamt5
    | 0b0000100#7 => .shiftImm .slliuw rd rs1 (shamt6 w)
    | 0b0110000#7 =>
      match rs2Field w with
      | 0b00000#5 => .unary .clzw rd rs1
      | 0b00001#5 => .unary .ctzw rd rs1
      | 0b00010#5 => .unary .cpopw rd rs1
      | _ => .reserved
    | _ => .reserved
  | 0b101#3 =>
    match funct7 w with
    | 0b0000000#7 => .shiftImm .srliw rd rs1 shamt5
    | 0b0100000#7 => .shiftImm .sraiw rd rs1 shamt5
    | 0b0110000#7 => .shiftImm .roriw rd rs1 shamt5
    | _ => .reserved
  | _ => .reserved

/-- The two-register operation of an OP word, by its function fields. -/
def decodeOp (f7 : BitVec 7) (f3 : BitVec 3) : Option RegOp :=
  match f7, f3 with
  | 0b0000000#7, 0b000#3 => some .add
  | 0b0100000#7, 0b000#3 => some .sub
  | 0b0000000#7, 0b001#3 => some .sll
  | 0b0000000#7, 0b010#3 => some .slt
  | 0b0000000#7, 0b011#3 => some .sltu
  | 0b0000000#7, 0b100#3 => some .xor
  | 0b0000000#7, 0b101#3 => some .srl
  | 0b0100000#7, 0b101#3 => some .sra
  | 0b0000000#7, 0b110#3 => some .or
  | 0b0000000#7, 0b111#3 => some .and
  | 0b0000001#7, 0b000#3 => some .mul
  | 0b0000001#7, 0b001#3 => some .mulh
  | 0b0000001#7, 0b010#3 => some .mulhsu
  | 0b0000001#7, 0b011#3 => some .mulhu
  | 0b0000001#7, 0b100#3 => some .div
  | 0b0000001#7, 0b101#3 => some .divu
  | 0b0000001#7, 0b110#3 => some .rem
  | 0b0000001#7, 0b111#3 => some .remu
  | 0b0100000#7, 0b111#3 => some .andn
  | 0b0100000#7, 0b110#3 => some .orn
  | 0b0100000#7, 0b100#3 => some .xnor
  | 0b0000101#7, 0b100#3 => some .min
  | 0b0000101#7, 0b101#3 => some .minu
  | 0b0000101#7, 0b110#3 => some .max
  | 0b0000101#7, 0b111#3 => some .maxu
  | 0b0110000#7, 0b001#3 => some .rol
  | 0b0110000#7, 0b101#3 => some .ror
  | 0b0010000#7, 0b010#3 => some .sh1add
  | 0b0010000#7, 0b100#3 => some .sh2add
  | 0b0010000#7, 0b110#3 => some .sh3add
  | 0b0100100#7, 0b001#3 => some .bclr
  | 0b0010100#7, 0b001#3 => some .bset
  | 0b0110100#7, 0b001#3 => some .binv
  | 0b0100100#7, 0b101#3 => some .bext
  | 0b0000111#7, 0b101#3 => some .czeroEqz
  | 0b0000111#7, 0b111#3 => some .czeroNez
  | _, _ => none

/-- The two-register operation of an OP-32 word, by its function fields. -/
def decodeOp32 (f7 : BitVec 7) (f3 : BitVec 3) : Option RegOp :=
  match f7, f3 with
  | 0b0000000#7, 0b000#3 => some .addw
  | 0b0100000#7, 0b000#3 => some .subw
  | 0b0000000#7, 0b001#3 => some .sllw
  | 0b0000000#7, 0b101#3 => some .srlw
  | 0b0100000#7, 0b101#3 => some .sraw
  | 0b0000001#7, 0b000#3 => some .mulw
  | 0b0000001#7, 0b100#3 => some .divw
  | 0b0000001#7, 0b101#3 => some .divuw
  | 0b0000001#7, 0b110#3 => some .remw
  | 0b0000001#7, 0b111#3 => some .remuw
  | 0b0110000#7, 0b001#3 => some .rolw
  | 0b0110000#7, 0b101#3 => some .rorw
  | 0b0000100#7, 0b000#3 => some .adduw
  | 0b0010000#7, 0b010#3 => some .sh1adduw
  | 0b0010000#7, 0b100#3 => some .sh2adduw
  | 0b0010000#7, 0b110#3 => some .sh3adduw
  | _, _ => none

/-- The branch condition selected by the function field. -/
def decodeBranch (f3 : BitVec 3) : Option BranchOp :=
  match f3 with
  | 0b000#3 => some .beq
  | 0b001#3 => some .bne
  | 0b100#3 => some .blt
  | 0b101#3 => some .bge
  | 0b110#3 => some .bltu
  | 0b111#3 => some .bgeu
  | _ => none

def decodeMiscMem (f3 : BitVec 3) : Inst :=
  match f3 with
  | 0b000#3 => .fence
  | 0b001#3 => .fenceI
  | _ => .reserved

def decodeCustom0 (w : BitVec 32) : Inst :=
  match funct3 w with
  | 0b000#3 => .trap
  | 0b001#3 => .ecallJar
  | 0b010#3 => .ecalli (immI w)
  | 0b100#3 => .fallthrough
  | _ => .reserved

/-- Decode a 32-bit instruction word, before the register fields are checked. -/
def decode32 (w : BitVec 32) : Inst :=
  if lengthBits w ≠ 0b11#2 then .reserved else
  let rd := rdField w
  let rs1 := rs1Field w
  let rs2 := rs2Field w
  match major w with
  | 0b00000#5 => ((decodeLoad (funct3 w)).map (.load · rd rs1 (immI w))).getD .reserved
  | 0b01000#5 => ((decodeStore (funct3 w)).map (.store · rs1 rs2 (immS w))).getD .reserved
  | 0b00100#5 => decodeOpImm w
  | 0b00110#5 => decodeOpImm32 w
  | 0b01100#5 =>
    match decodeOp (funct7 w) (funct3 w) with
    | some op => .opReg op rd rs1 rs2
    | none =>
      -- `zext.h` is `pack rd, rs1, x0`.
      if funct7 w = 0b0000100#7 ∧ funct3 w = 0b100#3 ∧ rs2 = 0 then .unary .zextH rd rs1
      else .reserved
  | 0b01110#5 => ((decodeOp32 (funct7 w) (funct3 w)).map (.opReg · rd rs1 rs2)).getD .reserved
  | 0b01101#5 => .lui rd (immU w)
  | 0b00101#5 => .auipc rd (immU w)
  | 0b11011#5 => .jal rd (immJ w)
  | 0b11001#5 => if funct3 w = 0b000#3 then .jalr rd rs1 (immI w) else .reserved
  | 0b11000#5 => ((decodeBranch (funct3 w)).map (.branch · rs1 rs2 (immB w))).getD .reserved
  | 0b00011#5 => decodeMiscMem (funct3 w)
  | 0b00010#5 => decodeCustom0 w
  | _ => .reserved

/-- An instruction that names a reserved register is itself reserved. -/
def reserveIfReservedReg (inst : Inst) : Inst :=
  if inst.usesReservedReg then .reserved else inst

/-- The register fields of a raw word satisfy a predicate, by the word's format. -/
def wordRegClassHits (w : BitVec 32) (pred : RegIdx → Bool) : Bool :=
  let rd := rdField w
  let rs1 := rs1Field w
  let rs2 := rs2Field w
  match w.extractLsb' 0 7 with
  | 0b0110011#7 | 0b0111011#7 => pred rd || pred rs1 || pred rs2
  | 0b0000011#7 | 0b0010011#7 | 0b0011011#7 | 0b1100111#7 => pred rd || pred rs1
  | 0b0100011#7 | 0b1100011#7 => pred rs1 || pred rs2
  | 0b0110111#7 | 0b0010111#7 | 0b1101111#7 => pred rd
  | _ => false

/-- Whether a raw word names a register outside the RV64E file. -/
def wordUsesReservedReg (w : BitVec 32) : Bool := wordRegClassHits w regIsReserved

/-- Whether a raw word names a register without a host register. -/
def wordUsesSpilledReg (w : BitVec 32) : Bool := wordRegClassHits w regIsSpilled

end Jar
