import Jar.Lib.Layout
import Jar.X86.Instr

/-! The assembler: a buffer of instructions, labels, and fixups for jumps to unbound labels. -/

namespace Jar.X86

/-- A label is its index into the label table. -/
abbrev Label := Nat

/-- A jump field to fill in once its label is bound. -/
structure Fixup where
  /-- The offset of the 32-bit field. -/
  offset : Nat
  label : Label
  deriving DecidableEq, Repr

/-- The assembler state. -/
structure Asm where
  code : List Instr
  /-- The offset of each bound label. -/
  labels : Label → Option Nat
  labelsLen : Nat
  /-- The length of the label table, which bounds every index into it. -/
  tableLen : Nat
  /-- The fixups recorded so far. -/
  fixups : List Fixup

/-- Overwrite the 32-bit field at the end of an instruction. -/
def Instr.setField (value : BitVec 32) : Instr → Instr
  | .aluPatch op dst _ => .aluPatch op dst value
  | .jmp false _ => .jmp false value
  | .jcc false cc _ => .jcc false cc value
  | i => i

namespace Asm

/-- An empty assembler with a label table of a given length. -/
def withCapacity (labelCapacity : Nat) : Asm := ⟨[], fun _ => none, 0, labelCapacity, []⟩

def offset (asm : Asm) : Nat := Layout.size Instr.len asm.code

def emit (asm : Asm) (i : Instr) : Asm := { asm with code := asm.code ++ [i] }

/-- Hand out the next label, growing the table when it is full. -/
def newLabel (asm : Asm) : Label × Asm :=
  (asm.labelsLen,
    { asm with
      labelsLen := asm.labelsLen + 1
      tableLen := max asm.tableLen (asm.labelsLen + 1) })

/-- Hand out a number of labels at once. -/
def bulkCreateLabels (asm : Asm) (count : Nat) : Asm :=
  { asm with
    labelsLen := asm.labelsLen + count
    tableLen := max asm.tableLen (asm.labelsLen + count) }

/-- The stored form of an offset: one more, as an unsigned 32-bit number with zero for unbound. -/
def stored (offset : Nat) : Option Nat :=
  let value := (offset + 1) % 2 ^ 32
  if value = 0 then none else some (value - 1)

/-- Bind a label to the write position; an index past the table panics. -/
def bindLabel (asm : Asm) (l : Label) : Option Asm :=
  if l < asm.tableLen then some { asm with labels := Function.update asm.labels l (stored asm.offset) }
  else none

/-- The table entry of a label; an index past the table panics. -/
def lookup (asm : Asm) (l : Label) : Option (Option Nat) :=
  if l < asm.tableLen then some (asm.labels l) else none

def displacement (source target : Nat) : BitVec 32 :=
  BitVec.ofInt 32 ((target : Int) - (source : Int))

/-- Emit a jump to a label: short if the label is bound nearby, resolved if it is bound, and
otherwise with a placeholder and a fixup. -/
def jumpLabel (asm : Asm) (make : Bool → BitVec 32 → Instr) (l : Label) : Option Asm := do
  let bound ← asm.lookup l
  let longEnd := asm.offset + (make false 0).len
  match bound with
  | some target =>
    let rel : Int := (target : Int) - ((asm.offset : Int) + 2)
    if -128 ≤ rel ∧ rel ≤ 127 then
      return asm.emit (make true (BitVec.ofInt 32 rel))
    else
      return asm.emit (make false (displacement longEnd target))
  | none =>
    let asm := asm.emit (make false 0)
    return { asm with fixups := asm.fixups ++ [⟨longEnd - 4, l⟩] }

def jmpLabel (asm : Asm) (l : Label) : Option Asm := asm.jumpLabel .jmp l

def jccLabel (asm : Asm) (cc : Cc) (l : Label) : Option Asm :=
  asm.jumpLabel (fun short rel => .jcc short cc rel) l

/-- The number of fixups recorded so far. -/
def fixupsLen (asm : Asm) : Nat := asm.fixups.length

/-- Change the label of a fixup; an index past the list panics. -/
def redirectFixup (asm : Asm) (idx : Nat) (l : Label) : Option Asm :=
  if idx < asm.fixups.length then
    some { asm with fixups := asm.fixups.modify idx (fun f => { f with label := l }) }
  else none

def patchI32 (asm : Asm) (offset : Nat) (value : BitVec 32) : Asm :=
  { asm with code := Layout.modifyEnding Instr.len (Instr.setField value) (offset + 4) 0 asm.code }

/-- Fill in one fixup; an unbound label panics. -/
def resolveFixup (asm : Asm) (f : Fixup) : Option Asm := do
  let target ← (← asm.lookup f.label)
  return asm.patchI32 f.offset (displacement (f.offset + 4) target)

def resolveFixups (asm : Asm) : Option Asm := asm.fixups.foldlM resolveFixup asm

def finalize (asm : Asm) : Option (List Instr) := asm.resolveFixups.map Asm.code

/-- The native offset of a label, absent while it is unbound. -/
def labelOffset (asm : Asm) (l : Label) : Option (Option Nat) := asm.lookup l

end Asm

end Jar.X86
