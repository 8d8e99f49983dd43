import Jar.Exec.Compressed
import Jar.Recompiler.Lower

/-! The recompiler's own view of instruction words: expansion of the compressed ones, the forced
block starts and the look-ahead of the fusions. -/

namespace Jar.Recompiler

/-! ## Major opcodes -/

abbrev opLoad : BitVec 5 := 0b00000
abbrev opMiscMem : BitVec 5 := 0b00011
abbrev opImm : BitVec 5 := 0b00100
abbrev opOpImm32 : BitVec 5 := 0b00110
abbrev opStore : BitVec 5 := 0b01000
abbrev opOp : BitVec 5 := 0b01100
abbrev opLui : BitVec 5 := 0b01101
abbrev opOp32 : BitVec 5 := 0b01110
abbrev opBranch : BitVec 5 := 0b11000
abbrev opJal : BitVec 5 := 0b11011
abbrev opJalr : BitVec 5 := 0b11001
abbrev opCustom0 : BitVec 5 := 0b00010

/-- Whether a word is an environment call, which forms a gas block of its own. -/
def isCustom0Ecall (w : BitVec 32) : Bool :=
  major w == opCustom0 && (funct3 w == 0b001#3 || funct3 w == 0b010#3)

/-! ## Encoders -/

def encI (op : BitVec 5) (f3 : BitVec 3) (rd rs1 : RegIdx) (imm : BitVec 32) : BitVec 32 :=
  imm.extractLsb' 0 12 ++ rs1 ++ f3 ++ rd ++ op ++ 0b11#2

def encS (op : BitVec 5) (f3 : BitVec 3) (rs1 rs2 : RegIdx) (imm : BitVec 32) : BitVec 32 :=
  imm.extractLsb' 5 7 ++ rs2 ++ rs1 ++ f3 ++ imm.extractLsb' 0 5 ++ op ++ 0b11#2

def encB (op : BitVec 5) (f3 : BitVec 3) (rs1 rs2 : RegIdx) (imm : BitVec 32) : BitVec 32 :=
  imm.extractLsb' 12 1 ++ imm.extractLsb' 5 6 ++ rs2 ++ rs1 ++ f3 ++ imm.extractLsb' 1 4
    ++ imm.extractLsb' 11 1 ++ op ++ 0b11#2

def encJ (op : BitVec 5) (rd : RegIdx) (imm : BitVec 32) : BitVec 32 :=
  imm.extractLsb' 20 1 ++ imm.extractLsb' 1 10 ++ imm.extractLsb' 11 1 ++ imm.extractLsb' 12 8
    ++ rd ++ op ++ 0b11#2

def encU (op : BitVec 5) (rd : RegIdx) (imm : BitVec 32) : BitVec 32 :=
  imm.extractLsb' 12 20 ++ rd ++ op ++ 0b11#2

def encR (op : BitVec 5) (f3 : BitVec 3) (f7 : BitVec 7) (rd rs1 rs2 : RegIdx) : BitVec 32 :=
  f7 ++ rs2 ++ rs1 ++ f3 ++ rd ++ op ++ 0b11#2

/-- Encode a 64-bit shift by an immediate. -/
def encShimm6 (op : BitVec 5) (f3 : BitVec 3) (shtype6 : BitVec 6) (rd rs1 : RegIdx)
    (shamt : BitVec 6) : BitVec 32 :=
  shtype6 ++ shamt ++ rs1 ++ f3 ++ rd ++ op ++ 0b11#2

/-! ## Expansion of compressed instructions -/

def expandRvcQ0 (h : BitVec 16) : Option (BitVec 32) :=
  let rs1c := creg (h.extractLsb' 7 3)
  let rdrs2c := creg (h.extractLsb' 2 3)
  match cFunct3 h with
  | 0b000#3 =>
    if cAddi4spnImm h = 0 then none
    else some (encI opImm 0b000 rdrs2c 2 ((cAddi4spnImm h).zeroExtend 32))
  | 0b010#3 => some (encI opLoad 0b010 rdrs2c rs1c ((cWordImm h).zeroExtend 32))
  | 0b011#3 => some (encI opLoad 0b011 rdrs2c rs1c ((cDoubleImm h).zeroExtend 32))
  | 0b110#3 => some (encS opStore 0b010 rs1c rdrs2c ((cWordImm h).zeroExtend 32))
  | 0b111#3 => some (encS opStore 0b011 rs1c rdrs2c ((cDoubleImm h).zeroExtend 32))
  | _ => none

/-- Expand the shift and logic group of quadrant 1. -/
def expandRvcQ1MiscAlu (h : BitVec 16) : Option (BitVec 32) :=
  let rdrs1c := creg (h.extractLsb' 7 3)
  let rs2c := creg (h.extractLsb' 2 3)
  match h.extractLsb' 10 2 with
  | 0b00#2 => some (encShimm6 opImm 0b101 0b000000 rdrs1c rdrs1c (cShamt h))
  | 0b01#2 => some (encShimm6 opImm 0b101 0b010000 rdrs1c rdrs1c (cShamt h))
  | 0b10#2 => some (encI opImm 0b111 rdrs1c rdrs1c (decodeCiImm6 h))
  | _ =>
    match h.extractLsb' 12 1, h.extractLsb' 5 2 with
    | 0#1, 0b00#2 => some (encR opOp 0b000 0b0100000 rdrs1c rdrs1c rs2c)
    | 0#1, 0b01#2 => some (encR opOp 0b100 0b0000000 rdrs1c rdrs1c rs2c)
    | 0#1, 0b10#2 => some (encR opOp 0b110 0b0000000 rdrs1c rdrs1c rs2c)
    | 0#1, 0b11#2 => some (encR opOp 0b111 0b0000000 rdrs1c rdrs1c rs2c)
    | 1#1, 0b00#2 => some (encR opOp32 0b000 0b0100000 rdrs1c rdrs1c rs2c)
    | 1#1, 0b01#2 => some (encR opOp32 0b000 0b0000000 rdrs1c rdrs1c rs2c)
    | _, _ => none

def expandRvcQ1 (h : BitVec 16) : Option (BitVec 32) :=
  let rd : RegIdx := h.extractLsb' 7 5
  let rs1c := creg (h.extractLsb' 7 3)
  match cFunct3 h with
  | 0b000#3 =>
    if rd = 0 then some (encI opImm 0b000 0 0 0)
    else some (encI opImm 0b000 rd rd (decodeCiImm6 h))
  | 0b001#3 => if rd = 0 then none else some (encI opOpImm32 0b000 rd rd (decodeCiImm6 h))
  | 0b010#3 => if rd = 0 then none else some (encI opImm 0b000 rd 0 (decodeCiImm6 h))
  | 0b011#3 =>
    if rd = 2 then
      if cAddi16spImm h = 0 then none else some (encI opImm 0b000 2 2 (cAddi16spImm h))
    else if rd = 0 then none
    else if cLuiImm h = 0 then none
    else some (encU opLui rd (cLuiImm h))
  | 0b100#3 => expandRvcQ1MiscAlu h
  | 0b101#3 => some (encJ opJal 0 (decodeCjImm h))
  | 0b110#3 => some (encB opBranch 0b000 rs1c 0 (decodeCbImm h))
  | _ => some (encB opBranch 0b001 rs1c 0 (decodeCbImm h))

def expandRvcQ2 (h : BitVec 16) : Option (BitVec 32) :=
  let rdrs1 : RegIdx := h.extractLsb' 7 5
  let rs2 : RegIdx := h.extractLsb' 2 5
  match cFunct3 h with
  | 0b000#3 =>
    if rdrs1 = 0 then none else some (encShimm6 opImm 0b001 0b000000 rdrs1 rdrs1 (cShamt h))
  | 0b010#3 =>
    if rdrs1 = 0 then none
    else some (encI opLoad 0b010 rdrs1 2 ((cLwspImm h).zeroExtend 32))
  | 0b011#3 =>
    if rdrs1 = 0 then none
    else some (encI opLoad 0b011 rdrs1 2 ((cLdspImm h).zeroExtend 32))
  | 0b100#3 =>
    if rs2 = 0 then
      if rdrs1 = 0 then none
      else some (encI opJalr 0b000 (if h.extractLsb' 12 1 = 0#1 then 0 else 1) rdrs1 0)
    else if rdrs1 = 0 then none
    else
      some (encR opOp 0b000 0b0000000 rdrs1 (if h.extractLsb' 12 1 = 0#1 then 0 else rdrs1) rs2)
  | 0b110#3 => some (encS opStore 0b010 2 rs2 ((cSwspImm h).zeroExtend 32))
  | 0b111#3 => some (encS opStore 0b011 2 rs2 ((cSdspImm h).zeroExtend 32))
  | _ => none

/-- Expand a compressed instruction to the word that it stands for, absent for the forbidden and
the reserved encodings. -/
def expandRvc (h : BitVec 16) : Option (BitVec 32) :=
  if h = 0 then none
  else
    match h.extractLsb' 0 2 with
    | 0b00#2 => expandRvcQ0 h
    | 0b01#2 => expandRvcQ1 h
    | 0b10#2 => expandRvcQ2 h
    | _ => none

/-! ## Look-ahead -/

/-- An operation that a fusion consumes together with the instruction before it. -/
structure Trailer where
  op : AluOp
  rd : RegIdx
  rs1 : RegIdx
  rs2 : RegIdx
  consumed : Nat
  deriving DecidableEq, Repr

/-- The word at the head of a byte string. -/
def word? : List Byte → Option (BitVec 32)
  | b0 :: b1 :: b2 :: b3 :: _ => some (b3 ++ b2 ++ b1 ++ b0)
  | _ => none

/-- Recognise an addition or a bitwise operation in a 32-bit word. -/
def peekWord (w : BitVec 32) : Option Trailer :=
  let found (op : AluOp) := some ⟨op, rdField w, rs1Field w, rs2Field w, 4⟩
  match w &&& 0xFE00707F#32 with
  | 0x00000033#32 => found .add
  | 0x00004033#32 => found .xor
  | 0x00006033#32 => found .or
  | 0x00007033#32 => found .and
  | _ => none

/-- Recognise an addition or a bitwise operation in a compressed instruction. -/
def peekHalf (h : BitVec 16) : Option Trailer :=
  if h &&& 0xF003#16 = 0x9002#16 then
    let rd : RegIdx := h.extractLsb' 7 5
    let rs2 : RegIdx := h.extractLsb' 2 5
    if rd ≠ 0 ∧ rs2 ≠ 0 then some ⟨.add, rd, rd, rs2, 2⟩ else none
  else if h &&& 0xFC03#16 = 0x8C01#16 then
    let rd := creg (h.extractLsb' 7 3)
    let rs2 := creg (h.extractLsb' 2 3)
    match h.extractLsb' 5 2 with
    | 0b01#2 => some ⟨.xor, rd, rd, rs2, 2⟩
    | 0b10#2 => some ⟨.or, rd, rd, rs2, 2⟩
    | 0b11#2 => some ⟨.and, rd, rd, rs2, 2⟩
    -- Subtraction is not fused.
    | _ => none
  else none

/-- Recognise an addition or a bitwise operation at the head of a byte string. -/
def peekAluRrTrailer (rest : List Byte) : Option Trailer :=
  match rest with
  | b0 :: b1 :: _ =>
    if b0.extractLsb' 0 2 = 0b11#2 then (word? rest).bind peekWord else peekHalf (b1 ++ b0)
  | _ => none

end Jar.Recompiler
