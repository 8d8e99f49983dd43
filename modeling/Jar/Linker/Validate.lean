import Jar.Exec.Compressed

/-! The linker's check that code contains only what a producer may emit. -/

namespace Jar.Linker

/-- The errors of the linker's code passes. -/
inductive LinkError where
  | invalidSection (message : String)
  deriving DecidableEq, Repr

/-- A number in hexadecimal, as error messages show offsets. -/
def hex (n : Nat) : String := "0x" ++ String.ofList (Nat.toDigits 16 n)

/-- The fields of a 4-byte instruction that name registers. -/
structure RegFields where
  rd : Bool
  rs1 : Bool
  rs2 : Bool
  deriving DecidableEq, Repr

def regNone : RegFields := ⟨false, false, false⟩

def regFieldsFor (opcode : BitVec 7) : RegFields :=
  match opcode with
  | 0b0110011#7 | 0b0111011#7 => ⟨true, true, true⟩
  | 0b0000011#7 => ⟨true, true, false⟩
  | 0b0010011#7 | 0b0011011#7 | 0b1100111#7 => ⟨true, true, false⟩
  | 0b0100011#7 => ⟨false, true, true⟩
  | 0b1100011#7 => ⟨false, true, true⟩
  | 0b0110111#7 | 0b0010111#7 => ⟨true, false, false⟩
  | 0b1101111#7 => ⟨true, false, false⟩
  | 0b0001111#7 => regNone
  | 0b0001011#7 => ⟨true, true, false⟩
  | _ => regNone

/-- The registers that a producer must not use: `x3`, `x4` and those that do not exist. -/
def forbiddenReg (r : RegIdx) : Bool := r == 3 || r == 4 || 16 ≤ r.toNat

/-- Refuse a forbidden register in a field, where the field names a register. -/
def checkReg (names : Bool) (i : Nat) (name : String) (r : RegIdx) : Except LinkError Unit :=
  if names && forbiddenReg r then
    throw (.invalidSection ("link_elf: forbidden register x" ++ toString r.toNat ++ " (" ++ name
      ++ ") at offset " ++ hex i))
  else pure ()

/-- Refuse the opcodes outside the subset. -/
def checkOpcode (i : Nat) (w : BitVec 32) : Except LinkError Unit :=
  match w.extractLsb' 0 7 with
  | 0b0101011#7 =>
    throw (.invalidSection ("link_elf: custom-1 opcode at offset " ++ hex i
      ++ " is reserved in PVM2"))
  | 0b1110011#7 =>
    if funct3 w = 0 then
      throw (.invalidSection ("link_elf: standard ECALL/EBREAK at offset " ++ hex i ++ " (imm="
        ++ hex (w.extractLsb' 20 12).toNat ++ ")"))
    else
      throw (.invalidSection ("link_elf: CSR op at offset " ++ hex i ++ " (funct3="
        ++ toString (funct3 w).toNat ++ ")"))
  | 0b0101111#7 => throw (.invalidSection ("link_elf: atomic op at offset " ++ hex i))
  | 0b0000111#7 | 0b0100111#7 =>
    throw (.invalidSection ("link_elf: FP load/store at offset " ++ hex i))
  | 0b1010011#7 => throw (.invalidSection ("link_elf: FP arithmetic at offset " ++ hex i))
  | _ => pure ()

/-- Check one 4-byte instruction: its opcode, then the registers of its format. -/
def validateWord (i : Nat) (w : BitVec 32) : Except LinkError Unit := do
  checkOpcode i w
  let rf := regFieldsFor (w.extractLsb' 0 7)
  checkReg rf.rd i "rd" (rdField w)
  checkReg rf.rs1 i "rs1" (rs1Field w)
  checkReg rf.rs2 i "rs2" (rs2Field w)

/-- Check one 2-byte instruction: only `c.ebreak` is refused. -/
def validateHalf (i : Nat) (lo16 : BitVec 16) : Except LinkError Unit :=
  if lo16 = 0x9002 then
    throw (.invalidSection ("link_elf: c.ebreak at offset " ++ hex i ++ " (forbidden)"))
  else pure ()

/-- Check the instructions from an offset on. -/
def validateFrom : Nat → List Byte → Except LinkError Unit
  | i, b0 :: b1 :: rest =>
    let lo16 := b1 ++ b0
    if lo16.extractLsb' 0 2 ≠ 0b11#2 then do
      validateHalf i lo16
      validateFrom (i + 2) rest
    else
      match rest with
      | b2 :: b3 :: rest => do
        validateWord i (b3 ++ b2 ++ b1 ++ b0)
        validateFrom (i + 4) rest
      -- A cut-off instruction ends the check.
      | _ => pure ()
  | _, _ => pure ()

/-- Check that the code contains only the producer's subset. -/
def validatePvm2 (code : List Byte) : Except LinkError Unit := validateFrom 0 code

end Jar.Linker
