import Jar.Linker.Align

/-! The linker's rewriting of address pairs: an `auipc` for the upper bits and an instruction for
the lower ones. -/

namespace Jar.Linker

def opAuipc : BitVec 32 := 0b0010111

def opLui : BitVec 32 := 0b0110111

/-- The upper bits of an address, rounded so that the sign-extended lower ones add up to it. -/
def upperBits (eff : BitVec 32) : BitVec 32 := (eff + 0x800) &&& 0xFFFFF000

/-- The lower bits of an address, sign-extended. -/
def lowerBits (eff : BitVec 32) : BitVec 32 := (eff <<< 20).sshiftRight 20

/-- Give a word an opcode and upper bits; only its destination register is kept. -/
def patchUpper (opcode w eff : BitVec 32) : BitVec 32 :=
  let rd := (w >>> 7) &&& 0x1F
  upperBits eff ||| (rd <<< 7) ||| opcode

/-- Put an immediate of 12 bits into an I-type word. -/
def patchImmI (w imm : BitVec 32) : BitVec 32 :=
  let cleared := w &&& 0x000FFFFF
  let imm12 := imm &&& 0xFFF
  cleared ||| (imm12 <<< 20)

/-- Put an immediate of 12 bits into an S-type word. -/
def patchImmS (w imm : BitVec 32) : BitVec 32 :=
  let cleared := w &&& 0x01FFF07F
  let imm12 := imm &&& 0xFFF
  let hi7 := (imm12 >>> 5) &&& 0x7F
  let lo5 := imm12 &&& 0x1F
  cleared ||| (hi7 <<< 25) ||| (lo5 <<< 7)

/-- Rewrite the four bytes at an offset; a slice out of bounds panics. -/
def patchSlot (patch : BitVec 32 → BitVec 32) (code : List Byte) (off : Nat) : Pass (List Byte) := do
  let w ← readWord code off
  return splice code off (wordBytes (patch w))

/-- Put the lower bits of an address into the instruction at an offset, by its opcode; other
opcodes are left alone. -/
def patchLo12 (code : List Byte) (off : Nat) (eff : BitVec 32) : Pass (List Byte) :=
  match code[off]? with
  | none => Attempt.crash
  | some byte =>
    match byte.extractLsb' 0 7 with
    | 0b0000011#7 | 0b0010011#7 | 0b1100111#7 =>
      patchSlot (patchImmI · (lowerBits eff)) code off
    | 0b0100011#7 => patchSlot (patchImmS · (lowerBits eff)) code off
    | _ => pure code

/-! ## Data: absolute addresses -/

/-- Fold an AUIPC into a LUI of the upper bits of an absolute address. -/
def foldAuipcToLui (code : List Byte) (off v : Nat) (eff : BitVec 32) : Pass (List Byte) :=
  if code.length < off + 4 then
    throw (.invalidSection ("link_elf: AUIPC reloc at vaddr " ++ hex v
      ++ " truncated by section end"))
  else do
    let word ← readWord code off
    if word &&& 0x7F ≠ opAuipc then
      throw (.invalidSection ("link_elf: reloc at vaddr " ++ hex v ++ " not an AUIPC (opcode "
        ++ hex (word &&& 0x7F).toNat ++ ")"))
    else return splice code off (wordBytes (patchUpper opLui word eff))

def patchLo12Abs (code : List Byte) (off : Nat) (eff : BitVec 32) : Pass (List Byte) :=
  patchLo12 code off eff

/-! ## Code: relative addresses -/

def remap (offsetMap : SortedMap Nat Nat) (o : Nat) : Pass Nat :=
  match offsetMap.lookup o with
  | some n => pure n
  | none => throw (.invalidSection ("fixup_code_pcrel: offset " ++ hex o ++ " not in offset_map"))

/-- The distance between two offsets, in 32 bits. -/
def displacement (na nt : Nat) : BitVec 32 := BitVec.ofInt 32 (nt - na)

/-- Rewrite a recorded AUIPC, from its offset and the one of its target. -/
def fixupAuipc (offsetMap : SortedMap Nat Nat) (code : List Byte) (entry : Nat × Nat) :
    Pass (List Byte) := do
  let na ← remap offsetMap entry.1
  let nt ← remap offsetMap entry.2
  if code.length < na + 4 then return code
  else
    let word ← readWord code na
    if word &&& 0x7F ≠ opAuipc then
      throw (.invalidSection ("fixup_code_pcrel: expected AUIPC at offset " ++ hex na
        ++ " (opcode " ++ hex (word &&& 0x7F).toNat ++ ")"))
    else return splice code na (wordBytes (patchUpper opAuipc word (displacement na nt)))

/-- Rewrite a recorded instruction with lower bits, from its offset, the one of its AUIPC and the
one of the target. -/
def fixupLo12 (offsetMap : SortedMap Nat Nat) (code : List Byte) (entry : Nat × Nat × Nat) :
    Pass (List Byte) := do
  let nl ← remap offsetMap entry.1
  let na ← remap offsetMap entry.2.1
  let nt ← remap offsetMap entry.2.2
  if code.length < nl + 4 then return code else patchLo12 code nl (displacement na nt)

/-- Rewrite the recorded pairs for the offsets after the injection. -/
def fixupCodePcrel (offsetMap : SortedMap Nat Nat) (codeAuipc : SortedMap Nat Nat)
    (codeLo12 : List (Nat × Nat × Nat)) (code : List Byte) : Pass (List Byte) := do
  let code ← codeAuipc.entries.foldlM (fixupAuipc offsetMap) code
  codeLo12.foldlM (fixupLo12 offsetMap) code

end Jar.Linker
