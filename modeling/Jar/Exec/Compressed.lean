import Jar.Exec.Instruction

/-! Decompression of 16-bit instructions and the decoder of one instruction from bytes. -/

namespace Jar

/-- A byte of guest code. -/
abbrev Byte := BitVec 8

/-- A 3-bit compressed register field names one of `x8` to `x15`. -/
def creg (r : BitVec 3) : RegIdx := 0b01#2 ++ r

def cFunct3 (h : BitVec 16) : BitVec 3 := h.extractLsb' 13 3

/-- The signed 6-bit immediate of the CI format. -/
def decodeCiImm6 (h : BitVec 16) : BitVec 32 :=
  (h.extractLsb' 12 1 ++ h.extractLsb' 2 5).signExtend 32

/-- The signed byte offset of the CJ format. -/
def decodeCjImm (h : BitVec 16) : BitVec 32 :=
  (h.extractLsb' 12 1 ++ h.extractLsb' 8 1 ++ h.extractLsb' 9 2 ++ h.extractLsb' 6 1
    ++ h.extractLsb' 7 1 ++ h.extractLsb' 2 1 ++ h.extractLsb' 11 1 ++ h.extractLsb' 3 3
    ++ 0#1).signExtend 32

/-- The signed byte offset of the CB format. -/
def decodeCbImm (h : BitVec 16) : BitVec 32 :=
  (h.extractLsb' 12 1 ++ h.extractLsb' 5 2 ++ h.extractLsb' 2 1 ++ h.extractLsb' 10 2
    ++ h.extractLsb' 3 2 ++ 0#1).signExtend 32

def cAddi4spnImm (h : BitVec 16) : BitVec 10 :=
  h.extractLsb' 7 4 ++ h.extractLsb' 11 2 ++ h.extractLsb' 5 1 ++ h.extractLsb' 6 1 ++ 0#2

/-- The unsigned offset of `c.lw` and `c.sw`. -/
def cWordImm (h : BitVec 16) : BitVec 7 :=
  h.extractLsb' 5 1 ++ h.extractLsb' 10 3 ++ h.extractLsb' 6 1 ++ 0#2

/-- The unsigned offset of `c.ld` and `c.sd`. -/
def cDoubleImm (h : BitVec 16) : BitVec 8 :=
  h.extractLsb' 5 2 ++ h.extractLsb' 10 3 ++ 0#3

def cAddi16spImm (h : BitVec 16) : BitVec 32 :=
  (h.extractLsb' 12 1 ++ h.extractLsb' 3 2 ++ h.extractLsb' 5 1 ++ h.extractLsb' 2 1
    ++ h.extractLsb' 6 1 ++ 0#4).signExtend 32

def cLuiImm (h : BitVec 16) : BitVec 32 :=
  (h.extractLsb' 12 1 ++ h.extractLsb' 2 5 ++ 0#12).signExtend 32

/-- The 6-bit shift amount of the compressed shifts. -/
def cShamt (h : BitVec 16) : BitVec 6 := h.extractLsb' 12 1 ++ h.extractLsb' 2 5

def cLwspImm (h : BitVec 16) : BitVec 8 :=
  h.extractLsb' 2 2 ++ h.extractLsb' 12 1 ++ h.extractLsb' 4 3 ++ 0#2

def cLdspImm (h : BitVec 16) : BitVec 9 :=
  h.extractLsb' 2 3 ++ h.extractLsb' 12 1 ++ h.extractLsb' 5 2 ++ 0#3

def cSwspImm (h : BitVec 16) : BitVec 8 := h.extractLsb' 7 2 ++ h.extractLsb' 9 4 ++ 0#2

def cSdspImm (h : BitVec 16) : BitVec 9 := h.extractLsb' 7 3 ++ h.extractLsb' 10 3 ++ 0#3

def decompressQ0 (h : BitVec 16) : Inst :=
  let rs1c := creg (h.extractLsb' 7 3)
  let rdrs2c := creg (h.extractLsb' 2 3)
  match cFunct3 h with
  | 0b000#3 =>
    if cAddi4spnImm h = 0 then .reserved
    else .opImm .addi rdrs2c 2 ((cAddi4spnImm h).zeroExtend 32)
  | 0b010#3 => .load .lw rdrs2c rs1c ((cWordImm h).zeroExtend 32)
  | 0b011#3 => .load .ld rdrs2c rs1c ((cDoubleImm h).zeroExtend 32)
  | 0b110#3 => .store .sw rs1c rdrs2c ((cWordImm h).zeroExtend 32)
  | 0b111#3 => .store .sd rs1c rdrs2c ((cDoubleImm h).zeroExtend 32)
  | _ => .reserved

/-- Decompress the shift and logic group of quadrant 1. -/
def decompressQ1MiscAlu (h : BitVec 16) : Inst :=
  let rdrs1c := creg (h.extractLsb' 7 3)
  let rs2c := creg (h.extractLsb' 2 3)
  match h.extractLsb' 10 2 with
  | 0b00#2 => .shiftImm .srli rdrs1c rdrs1c (cShamt h)
  | 0b01#2 => .shiftImm .srai rdrs1c rdrs1c (cShamt h)
  | 0b10#2 => .opImm .andi rdrs1c rdrs1c (decodeCiImm6 h)
  | _ =>
    match h.extractLsb' 12 1, h.extractLsb' 5 2 with
    | 0#1, 0b00#2 => .opReg .sub rdrs1c rdrs1c rs2c
    | 0#1, 0b01#2 => .opReg .xor rdrs1c rdrs1c rs2c
    | 0#1, 0b10#2 => .opReg .or rdrs1c rdrs1c rs2c
    | 0#1, 0b11#2 => .opReg .and rdrs1c rdrs1c rs2c
    | 1#1, 0b00#2 => .opReg .subw rdrs1c rdrs1c rs2c
    | 1#1, 0b01#2 => .opReg .addw rdrs1c rdrs1c rs2c
    | _, _ => .reserved

def decompressQ1 (h : BitVec 16) : Inst :=
  let rd : RegIdx := h.extractLsb' 7 5
  let rs1c := creg (h.extractLsb' 7 3)
  match cFunct3 h with
  | 0b000#3 =>
    -- A zero destination is `c.nop`, whatever its immediate.
    if rd = 0 then .opImm .addi 0 0 0 else .opImm .addi rd rd (decodeCiImm6 h)
  | 0b001#3 => if rd = 0 then .reserved else .opImm .addiw rd rd (decodeCiImm6 h)
  | 0b010#3 => if rd = 0 then .reserved else .opImm .addi rd 0 (decodeCiImm6 h)
  | 0b011#3 =>
    if rd = 2 then
      if cAddi16spImm h = 0 then .reserved else .opImm .addi 2 2 (cAddi16spImm h)
    else if rd = 0 then .reserved
    else if cLuiImm h = 0 then .reserved
    else .lui rd (cLuiImm h)
  | 0b100#3 => decompressQ1MiscAlu h
  | 0b101#3 => .jal 0 (decodeCjImm h)
  | 0b110#3 => .branch .beq rs1c 0 (decodeCbImm h)
  | _ => .branch .bne rs1c 0 (decodeCbImm h)

def decompressQ2 (h : BitVec 16) : Inst :=
  let rdrs1 : RegIdx := h.extractLsb' 7 5
  let rs2 : RegIdx := h.extractLsb' 2 5
  match cFunct3 h with
  | 0b000#3 => if rdrs1 = 0 then .reserved else .shiftImm .slli rdrs1 rdrs1 (cShamt h)
  | 0b010#3 =>
    if rdrs1 = 0 then .reserved else .load .lw rdrs1 2 ((cLwspImm h).zeroExtend 32)
  | 0b011#3 =>
    if rdrs1 = 0 then .reserved else .load .ld rdrs1 2 ((cLdspImm h).zeroExtend 32)
  | 0b100#3 =>
    if rdrs1 = 0 then .reserved
    else if h.extractLsb' 12 1 = 0#1 then
      if rs2 = 0 then .jalr 0 rdrs1 0 else .opReg .add rdrs1 0 rs2
    else
      if rs2 = 0 then .jalr 1 rdrs1 0 else .opReg .add rdrs1 rdrs1 rs2
  | 0b110#3 => .store .sw 2 rs2 ((cSwspImm h).zeroExtend 32)
  | 0b111#3 => .store .sd 2 rs2 ((cSdspImm h).zeroExtend 32)
  | _ => .reserved

def decompress (h : BitVec 16) : Inst :=
  match h.extractLsb' 0 2 with
  | 0b00#2 => decompressQ0 h
  | 0b01#2 => decompressQ1 h
  | 0b10#2 => decompressQ2 h
  | _ => .reserved

/-- The instruction at the head of a byte string and its length, absent past a truncated end. -/
def decode (bytes : List Byte) : Option (Inst × Nat) :=
  match bytes with
  | b0 :: b1 :: rest =>
    if b0.extractLsb' 0 2 ≠ 0b11#2 then
      some (reserveIfReservedReg (decompress (b1 ++ b0)), 2)
    else
      match rest with
      | b2 :: b3 :: _ =>
        some (reserveIfReservedReg (decode32 (b3 ++ b2 ++ b1 ++ b0)), 4)
      | _ => none
  | _ => none

/-- A decoded instruction is two or four bytes long and lies within the code. -/
theorem decode_length {bytes : List Byte} {inst : Inst} {len : Nat}
    (decoded : decode bytes = some (inst, len)) :
    (len = 2 ∨ len = 4) ∧ len ≤ bytes.length := by
  unfold decode at decoded
  split at decoded
  · split at decoded
    · simp only [Option.some.injEq, Prod.mk.injEq] at decoded
      simp [← decoded.2]
    · split at decoded
      · simp only [Option.some.injEq, Prod.mk.injEq] at decoded
        simp [← decoded.2]
      · simp at decoded
  · simp at decoded

end Jar
