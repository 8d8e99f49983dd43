import Jar.Exec.GasCost
import Jar.Recompiler.Access
import Jar.Recompiler.Expand

/-! Dispatch of one instruction word to its lowering routine and its gas feed. -/

namespace Jar.Recompiler

open X86 Lower

/-! ## The gas feed -/

/-- The gas accounting of the block being compiled. -/
structure GasState where
  sim : GasSimulator
  /-- The copy-on-write reserve so far, saturated at 32 bits. -/
  reserve : Nat
  /-- Whether feeds are suppressed, since the instruction was already charged. -/
  suppress : Bool

/-- A dispatcher: a lowering routine that also feeds the gas simulator. -/
abbrev Dispatch := StateT GasState Lower

/-- What the compile loop learns from a dispatcher. -/
structure Compiled where
  term : Bool
  /-- Whether the record of the last addition stays valid. -/
  preserveCf : Bool
  /-- The number of bytes consumed beyond the instruction itself. -/
  extra : Nat
  deriving DecidableEq, Repr

section

variable (env : CodeEnv)

/-- Feed one instruction to the simulator, returning whether it ends its block. -/
def feedGasRv (kind : RvKind) (rs1 rs2 rd : RegIdx) : Dispatch Bool := do
  let g ← get
  let feed (sim : GasSimulator) :=
    rvFeedGasKind kind (regSlotOrFf rs1) (regSlotOrFf rs2) (regSlotOrFf rd) sim env.memCycles
  if g.suppress then return (feed .new).2
  else
    set { g with
      sim := (feed g.sim).1
      reserve := min (g.reserve + rvKindReserve kind) u32Max }
    return (feed g.sim).2

/-- The shape of most arms: lower, feed, and go on after the instruction. -/
def compileArm (preserveCf : Bool) (body : Lower Unit) (kind : RvKind) (rs1 rs2 rd : RegIdx) :
    Dispatch Compiled := do
  body
  return ⟨← feedGasRv env kind rs1 rs2 rd, preserveCf, 0⟩

/-- A reserved encoding panics and ends its block. -/
def compileReserved (pc : Nat) : Dispatch Compiled := do
  rvEmitPanicAt pc
  let _ ← feedGasRv env .reserved 0 0 0
  return ⟨true, false, 0⟩

/-! ## Loads and stores -/

def loadShape (f3 : BitVec 3) : Option (Nat × Bool) :=
  match f3 with
  | 0b000#3 => some (1, true)
  | 0b001#3 => some (2, true)
  | 0b010#3 => some (4, true)
  | 0b011#3 => some (8, false)
  | 0b100#3 => some (1, false)
  | 0b101#3 => some (2, false)
  | 0b110#3 => some (4, false)
  | _ => none

/-- The operation after a 64-bit load that is fused with it: it reads the loaded register. -/
def loadTrailer (rd rs1 : RegIdx) (rest : List Byte) : Option Trailer :=
  if rd ≠ 0 ∧ !regIsReserved rd ∧ !regIsReserved rs1 then
    (peekAluRrTrailer rest).filter fun t =>
      t.rd ≠ 0 ∧ !regIsReserved t.rd ∧ (t.rs1 = rd ∨ t.rs2 = rd)
        ∧ (t.rs1 = 0 ∨ !regIsReserved t.rs1) ∧ (t.rs2 = 0 ∨ !regIsReserved t.rs2)
  else none

def fusedLoad (rd rs1 : RegIdx) (imm : BitVec 32) (t : Trailer) (pc : Nat) : Lower Unit := do
  rvLoad rd rs1 imm 8 false pc
  rvAluRr t.rd t.rs1 t.rs2 t.op (pc + 4)
  (if t.op = .add ∧ t.rd ≠ t.rs1 ∧ t.rd ≠ t.rs2 then trackAddScaledadd t.rd t.rs1 t.rs2
    else pure ())

/-- Compile a load, with the operation after it where the two are fused. -/
def compileLoad (rd rs1 : RegIdx) (f3 : BitVec 3) (w : BitVec 32) (pc : Nat)
    (rest : List Byte) : Dispatch Compiled := do
  match loadShape f3 with
  | none => compileReserved env pc
  | some (width, signed) =>
    match if width = 8 then loadTrailer rd rs1 rest else none with
    | some t =>
      fusedLoad rd rs1 (immI w) t pc
      let _ ← feedGasRv env .load rs1 0 rd
      let _ ← feedGasRv env .add t.rs1 t.rs2 t.rd
      return ⟨false, t.op = .add, t.consumed⟩
    | none => compileArm env false (rvLoad rd rs1 (immI w) width signed pc) .load rs1 0 rd

def storeShape (f3 : BitVec 3) : Option Nat :=
  match f3 with
  | 0b000#3 => some 1
  | 0b001#3 => some 2
  | 0b010#3 => some 4
  | 0b011#3 => some 8
  | _ => none

def compileStore (rs1 rs2 : RegIdx) (f3 : BitVec 3) (w : BitVec 32) (pc : Nat) :
    Dispatch Compiled :=
  match storeShape f3 with
  | none => compileReserved env pc
  | some width => compileArm env false (rvStore rs1 rs2 (immS w) width pc) .store rs1 rs2 0

/-! ## Operations with an immediate -/

/-- Compile a unary operation selected by the second source field. -/
def compileUnary (rd rs1 : RegIdx) (pc : Nat) (selected : Option (UnaryOp × RvKind)) :
    Dispatch Compiled :=
  match selected with
  | none => compileReserved env pc
  | some (op, kind) => compileArm env false (rvUnary rd rs1 op pc) kind rs1 0 rd

/-- The 64-bit counts and sign extensions, by the second source field. -/
def unary64 (field : RegIdx) : Option (UnaryOp × RvKind) :=
  match field with
  | 0b00000#5 => some (.clz64, .zbbU1)
  | 0b00001#5 => some (.ctz64, .zbbCtz)
  | 0b00010#5 => some (.popcnt64, .zbbU1)
  | 0b00100#5 => some (.sextB, .zbbU1)
  | 0b00101#5 => some (.sextH, .zbbU1)
  | _ => none

/-- The 32-bit counts, by the second source field. -/
def unary32 (field : RegIdx) : Option (UnaryOp × RvKind) :=
  match field with
  | 0b00000#5 => some (.clz32, .zbbU1)
  | 0b00001#5 => some (.ctz32, .zbbCtz)
  | 0b00010#5 => some (.popcnt32, .zbbU1)
  | _ => none

/-- `addi`, with a constant tracked where it loads one. -/
def lowerAddi (rd rs1 : RegIdx) (imm : BitVec 32) (pc : Nat) : Lower Unit := do
  rvAluImm rd rs1 imm .add pc
  (if rs1 = 0 then trackConst rd imm else pure ())

/-- `slli`, with a small shift into another register tracked. -/
def lowerSlli (rd rs1 : RegIdx) (shamt : BitVec 6) (pc : Nat) : Lower Unit := do
  rvShiftImm rd rs1 shamt .shl64 pc
  (if 1 ≤ shamt.toNat ∧ shamt.toNat ≤ 3 ∧ rs1 ≠ rd then trackShifted rd rs1 shamt.toNat
    else pure ())

/-- Compile a left shift, a single-bit operation or a unary one. -/
def compileShiftLeft (rd rs1 : RegIdx) (w : BitVec 32) (pc : Nat) : Dispatch Compiled :=
  match shtype w with
  | 0b000000#6 => compileArm env false (lowerSlli rd rs1 (shamt6 w) pc) .addi rs1 0 rd
  | 0b010010#6 => compileArm env false (rvBitImm rd rs1 (shamt6 w) .clear pc) .zbsImm rs1 0 rd
  | 0b001010#6 => compileArm env false (rvBitImm rd rs1 (shamt6 w) .set pc) .zbsImm rs1 0 rd
  | 0b011010#6 => compileArm env false (rvBitImm rd rs1 (shamt6 w) .invert pc) .zbsImm rs1 0 rd
  | 0b011000#6 => compileUnary env rd rs1 pc (unary64 (rs2Field w))
  | _ => compileReserved env pc

/-- Compile a right shift, a rotation, a bit extraction or a byte operation. -/
def compileShiftRight (rd rs1 : RegIdx) (w : BitVec 32) (pc : Nat) : Dispatch Compiled :=
  match shtype w with
  | 0b000000#6 => compileArm env false (rvShiftImm rd rs1 (shamt6 w) .shr64 pc) .addi rs1 0 rd
  | 0b010000#6 => compileArm env false (rvShiftImm rd rs1 (shamt6 w) .sar64 pc) .addi rs1 0 rd
  | 0b010010#6 => compileArm env false (rvBitImm rd rs1 (shamt6 w) .extract pc) .zbsImm rs1 0 rd
  | 0b011000#6 => compileArm env false (rvShiftImm rd rs1 (shamt6 w) .ror64 pc) .zbbRori rs1 0 rd
  | 0b001010#6 =>
    compileUnary env rd rs1 pc (if rs2Field w = 0b00111#5 then some (.orcB, .zbbU1) else none)
  | 0b011010#6 =>
    compileUnary env rd rs1 pc (if rs2Field w = 0b11000#5 then some (.rev8, .zbbU1) else none)
  | _ => compileReserved env pc

def compileOpImm (rd rs1 : RegIdx) (f3 : BitVec 3) (w : BitVec 32) (pc : Nat) :
    Dispatch Compiled :=
  let arm (body : Lower Unit) := compileArm env false body .addi rs1 0 rd
  match f3 with
  | 0b000#3 => arm (lowerAddi rd rs1 (immI w) pc)
  | 0b010#3 => arm (rvSltImm rd rs1 (immI w) true pc)
  | 0b011#3 => arm (rvSltImm rd rs1 (immI w) false pc)
  | 0b100#3 => arm (rvAluImm rd rs1 (immI w) .xor pc)
  | 0b110#3 => arm (rvAluImm rd rs1 (immI w) .or pc)
  | 0b111#3 => arm (rvAluImm rd rs1 (immI w) .and pc)
  | 0b001#3 => compileShiftLeft env rd rs1 w pc
  | _ => compileShiftRight env rd rs1 w pc

def compileOpImm32 (rd rs1 : RegIdx) (f3 : BitVec 3) (w : BitVec 32) (pc : Nat) :
    Dispatch Compiled :=
  let shamt5 : BitVec 6 := (rs2Field w).zeroExtend 6
  let shift (op : ShiftOp) (kind : RvKind) :=
    compileArm env false (rvShiftImm rd rs1 shamt5 op pc) kind rs1 0 rd
  match f3 with
  | 0b000#3 => compileArm env false (rvAluImm rd rs1 (immI w) .addw pc) .addiw rs1 0 rd
  | 0b001#3 =>
    match funct7 w with
    | 0b0000000#7 => shift .shl32 .addiw
    -- The only one with a 6-bit shift amount.
    | 0b0000100#7 => compileArm env false (rvSlliuw rd rs1 (shamt6 w) pc) .zbaImm rs1 0 rd
    | 0b0110000#7 => compileUnary env rd rs1 pc (unary32 (rs2Field w))
    | _ => compileReserved env pc
  | 0b101#3 =>
    match funct7 w with
    | 0b0000000#7 => shift .shr32 .addiw
    | 0b0100000#7 => shift .sar32 .addiw
    | 0b0110000#7 => shift .ror32 .zbbRoriw
    | _ => compileReserved env pc
  | _ => compileReserved env pc

/-! ## Operations on two registers -/

/-- Recognise `mulh` and `mulhu`, by their signedness. -/
def peekMulHigh (w : BitVec 32) : Option Bool :=
  match w &&& 0xFE00707F#32 with
  | 0x02001033#32 => some true
  | 0x02003033#32 => some false
  | _ => none

/-- The `mulh` or `mulhu` after a `mul` that is fused with it, by its signedness and destination:
it has the same sources and another destination. -/
def mulTrailer (rd rs1 rs2 : RegIdx) (rest : List Byte) : Option (Bool × RegIdx) := do
  let w ← word? rest
  let signed ← peekMulHigh w
  if rs1Field w ≠ rs1 ∨ rs2Field w ≠ rs2 ∨ rdField w = rd then none
  else return (signed, rdField w)

/-- The slots of the fused product: destinations and sources, all of which need host registers. -/
def mulSlots (rd rs1 rs2 hi : RegIdx) : Option (HostSlot × HostSlot × HostSlot × HostSlot) := do
  return (← rvSlot rd, ← rvSlot hi, ← rvSlot rs1, ← rvSlot rs2)

/-- The code of a product whose two halves are both wanted. -/
def fusedMulCode (signed : Bool) (lo hi a b : Reg) : List Instr :=
  let save : Bool := lo ≠ .rax ∧ hi ≠ .rax
  let (load, src) : List Instr × Reg :=
    if b = .rax then (if save then [.load64 scratch .rsp 0] else movRR scratch b, scratch)
    else ([], b)
  onlyIf save [.push .rax] ++ load ++ movRR .rax a ++ [.mulWide signed src]
    ++ movRR lo .rax ++ movRR hi scratch ++ onlyIf save [.pop .rax]

/-- Emit a product whose two halves are both wanted. -/
def fusedMul (signed : Bool) (lo hi a b : HostSlot) : Lower Unit := do
  emit (fusedMulCode signed (regMap lo) (regMap hi) (regMap a) (regMap b))
  invalidateReg lo
  invalidateReg hi
  clearAddCf

/-- `add`, with the sum of a register and a tracked shift tracked. -/
def lowerAdd (rd rs1 rs2 : RegIdx) (pc : Nat) : Lower Unit := do
  rvAluRr rd rs1 rs2 .add pc
  (if rd ≠ rs1 ∧ rd ≠ rs2 then trackAddScaledadd rd rs1 rs2 else pure ())

/-- `sh1add` to `sh3add`, tracked. -/
def lowerShadd (rd rs1 rs2 : RegIdx) (shift : BitVec 6) (pc : Nat) : Lower Unit := do
  rvShadd rd rs1 rs2 shift false pc
  recordScaledadd rd rs1 rs2 shift.toNat

def compileOpSingle (rd rs1 rs2 : RegIdx) (f3 : BitVec 3) (f7 : BitVec 7) (pc : Nat) :
    Dispatch Compiled :=
  let arm (body : Lower Unit) (kind : RvKind) := compileArm env false body kind rs1 rs2 rd
  let alu (op : AluOp) := arm (rvAluRr rd rs1 rs2 op pc)
  let shift (op : ShiftOp) := arm (rvShiftRr rd rs1 rs2 op pc)
  let divide (signed remainder : Bool) :=
    arm (rvDivRem rd rs1 rs2 signed remainder false pc) .div
  match f7, f3 with
  | 0b0000000#7, 0b000#3 => compileArm env true (lowerAdd rd rs1 rs2 pc) .add rs1 rs2 rd
  | 0b0100000#7, 0b000#3 => alu .sub .add
  | 0b0000000#7, 0b001#3 => shift .shl64 .sll
  | 0b0000000#7, 0b010#3 => arm (rvSltRr rd rs1 rs2 true pc) .slt
  | 0b0000000#7, 0b011#3 =>
    -- The record of the addition survives, so that further comparisons can use it.
    compileArm env true (rvSltRr rd rs1 rs2 false pc) .slt rs1 rs2 rd
  | 0b0000000#7, 0b100#3 => alu .xor .add
  | 0b0000000#7, 0b101#3 => shift .shr64 .sll
  | 0b0100000#7, 0b101#3 => shift .sar64 .sll
  | 0b0000000#7, 0b110#3 => alu .or .add
  | 0b0000000#7, 0b111#3 => alu .and .add
  | 0b0000001#7, 0b000#3 => alu .mul .mul
  | 0b0000001#7, 0b001#3 => arm (rvMulh rd rs1 rs2 true true pc) .mulh
  | 0b0000001#7, 0b010#3 => arm (rvMulh rd rs1 rs2 true false pc) .mulhsu
  | 0b0000001#7, 0b011#3 => arm (rvMulh rd rs1 rs2 false false pc) .mulh
  | 0b0000001#7, 0b100#3 => divide true false
  | 0b0000001#7, 0b101#3 => divide false false
  | 0b0000001#7, 0b110#3 => divide true true
  | 0b0000001#7, 0b111#3 => divide false true
  | 0b0100000#7, 0b111#3 => alu .andn .zbbInv
  | 0b0100000#7, 0b110#3 => alu .orn .zbbInv
  | 0b0100000#7, 0b100#3 => alu .xnor .zbbXnor
  | 0b0000101#7, 0b100#3 => alu .min .zbbMinmax
  | 0b0000101#7, 0b101#3 => alu .minu .zbbMinmax
  | 0b0000101#7, 0b110#3 => alu .max .zbbMinmax
  | 0b0000101#7, 0b111#3 => alu .maxu .zbbMinmax
  | 0b0110000#7, 0b001#3 => shift .rol64 .zbbRot
  | 0b0110000#7, 0b101#3 => shift .ror64 .zbbRot
  | 0b0010000#7, 0b010#3 => arm (lowerShadd rd rs1 rs2 1 pc) .zba
  | 0b0010000#7, 0b100#3 => arm (lowerShadd rd rs1 rs2 2 pc) .zba
  | 0b0010000#7, 0b110#3 => arm (lowerShadd rd rs1 rs2 3 pc) .zba
  | 0b0100100#7, 0b001#3 => arm (rvBitRr rd rs1 rs2 .clear pc) .zbs
  | 0b0010100#7, 0b001#3 => arm (rvBitRr rd rs1 rs2 .set pc) .zbs
  | 0b0110100#7, 0b001#3 => arm (rvBitRr rd rs1 rs2 .invert pc) .zbs
  | 0b0100100#7, 0b101#3 => arm (rvBitRr rd rs1 rs2 .extract pc) .zbs
  | 0b0000111#7, 0b101#3 => arm (rvCzero rd rs1 rs2 true pc) .zicond
  | 0b0000111#7, 0b111#3 => arm (rvCzero rd rs1 rs2 false pc) .zicond
  | 0b0000100#7, 0b100#3 =>
    compileUnary env rd rs1 pc (if rs2 = 0 then some (.zextH, .zbbU1) else none)
  | _, _ => compileReserved env pc

/-- Compile a 64-bit operation, with the high product after it where the two are fused. -/
def compileOp (rd rs1 rs2 : RegIdx) (f3 : BitVec 3) (f7 : BitVec 7) (pc : Nat)
    (rest : List Byte) : Dispatch Compiled := do
  let fused : Option (Bool × RegIdx × HostSlot × HostSlot × HostSlot × HostSlot) :=
    if f7 = 0b0000001#7 ∧ f3 = 0b000#3 then do
      let (signed, hi) ← mulTrailer rd rs1 rs2 rest
      return (signed, hi, ← mulSlots rd rs1 rs2 hi)
    else none
  match fused with
  | some (signed, hi, loSlot, hiSlot, aSlot, bSlot) =>
    fusedMul signed loSlot hiSlot aSlot bSlot
    let _ ← feedGasRv env .mul rs1 rs2 rd
    let _ ← feedGasRv env .mulh rs1 rs2 hi
    return ⟨false, false, 4⟩
  | none => compileOpSingle env rd rs1 rs2 f3 f7 pc

/-- Compile a 32-bit operation on two registers. -/
def compileOp32 (rd rs1 rs2 : RegIdx) (f3 : BitVec 3) (f7 : BitVec 7) (pc : Nat) :
    Dispatch Compiled :=
  let arm (body : Lower Unit) (kind : RvKind) := compileArm env false body kind rs1 rs2 rd
  let alu (op : AluOp) := arm (rvAluRr rd rs1 rs2 op pc)
  let shift (op : ShiftOp) := arm (rvShiftRr rd rs1 rs2 op pc)
  let divide (signed remainder : Bool) :=
    arm (rvDivRem rd rs1 rs2 signed remainder true pc) .div
  match f7, f3 with
  | 0b0000000#7, 0b000#3 => alu .addw .addw
  | 0b0100000#7, 0b000#3 => alu .subw .addw
  | 0b0000000#7, 0b001#3 => shift .shl32 .sllw
  | 0b0000000#7, 0b101#3 => shift .shr32 .sllw
  | 0b0100000#7, 0b101#3 => shift .sar32 .sllw
  | 0b0000001#7, 0b000#3 => alu .mulw .mulw
  | 0b0000001#7, 0b100#3 => divide true false
  | 0b0000001#7, 0b101#3 => divide false false
  | 0b0000001#7, 0b110#3 => divide true true
  | 0b0000001#7, 0b111#3 => divide false true
  | 0b0110000#7, 0b001#3 => shift .rol32 .zbbRotw
  | 0b0110000#7, 0b101#3 => shift .ror32 .zbbRotw
  | 0b0000100#7, 0b000#3 => arm (rvAdduw rd rs1 rs2 pc) .zba
  | 0b0010000#7, 0b010#3 => arm (rvShadd rd rs1 rs2 1 true pc) .zba
  | 0b0010000#7, 0b100#3 => arm (rvShadd rd rs1 rs2 2 true pc) .zba
  | 0b0010000#7, 0b110#3 => arm (rvShadd rd rs1 rs2 3 true pc) .zba
  | _, _ => compileReserved env pc

/-! ## Constants, jumps and environment calls -/

/-- The operand of an operation other than a given register. -/
def Trailer.other (t : Trailer) (rd : RegIdx) : Option RegIdx :=
  if t.rs1 = rd then some t.rs2 else if t.rs2 = rd then some t.rs1 else none

/-- The addition after a `lui` that is fused with it, and its other operand: it adds to the same
register. -/
def luiTrailer (rd : RegIdx) (rest : List Byte) : Option (Trailer × RegIdx) := do
  let t ← peekAluRrTrailer rest
  let other ← t.other rd
  if rd ≠ 0 ∧ !regIsReserved rd ∧ t.op = .add ∧ t.rd = rd ∧ (other = 0 ∨ !regIsReserved other) then
    return (t, other)
  else none

/-- The code of a `lui` fused with the addition of another operand. -/
def fusedLui (rd other : RegIdx) (imm : BitVec 32) (pc : Nat) : Lower Unit := do
  match ← rvDst rd pc with
  | none => return
  | some d =>
    if other = 0 then
      emit [movRi64 d (sext32 imm)]
      trackConst rd imm
    else
      let base ← unwrap (hostReg other)
      emit [.lea d base imm]
      invalidateReg (← unwrap (rvSlot rd))

/-- `lui`, tracked. -/
def lowerLui (rd : RegIdx) (imm : BitVec 32) (pc : Nat) : Lower Unit := do
  rvLui rd imm pc
  trackConst rd imm

/-- Compile a `lui`, with the addition after it where the two are fused. -/
def compileLui (rd : RegIdx) (w : BitVec 32) (pc : Nat) (rest : List Byte) :
    Dispatch Compiled := do
  match luiTrailer rd rest with
  | some (t, other) =>
    fusedLui rd other (immU w) pc
    let _ ← feedGasRv env .lui 0 0 rd
    let _ ← feedGasRv env .add t.rs1 t.rs2 t.rd
    return ⟨false, false, t.consumed⟩
  | none => compileArm env false (lowerLui rd (immU w) pc) .lui 0 0 rd

def compileBranch (rs1 rs2 : RegIdx) (f3 : BitVec 3) (w : BitVec 32) (pc : Nat) :
    Dispatch Compiled :=
  match branchCc f3 with
  | none => compileReserved env pc
  | some cc => compileArm env false (rvBranch env rs1 rs2 (immB w) cc pc) .branch rs1 rs2 0

def compileCustom0 (f3 : BitVec 3) (w : BitVec 32) (pc : Nat) : Dispatch Compiled :=
  match f3 with
  | 0b000#3 => compileArm env false (rvTrap pc) .trap 0 0 0
  | 0b001#3 => compileArm env false (rvEcallJar (pc + 4)) .ecallJar 0 0 0
  | 0b010#3 => compileArm env false (rvEcalli (immI w) (pc + 4)) .ecalli 0 0 0
  | 0b100#3 => compileArm env false (pure ()) .fallthrough 0 0 0
  | _ => compileReserved env pc

/-- Dispatch on the major opcode, for words that name no reserved or spilled register. -/
def compileOpcode (w : BitVec 32) (pc instLen : Nat) (rest : List Byte) : Dispatch Compiled :=
  let rd := rdField w
  let rs1 := rs1Field w
  let rs2 := rs2Field w
  let f3 := funct3 w
  match major w with
  | 0b00000#5 => compileLoad env rd rs1 f3 w pc rest
  | 0b01000#5 => compileStore env rs1 rs2 f3 w pc
  | 0b00100#5 => compileOpImm env rd rs1 f3 w pc
  | 0b00110#5 => compileOpImm32 env rd rs1 f3 w pc
  | 0b01100#5 => compileOp env rd rs1 rs2 f3 (funct7 w) pc rest
  | 0b01110#5 => compileOp32 env rd rs1 rs2 f3 (funct7 w) pc
  | 0b01101#5 => compileLui env rd w pc rest
  | 0b00101#5 => compileArm env false (rvAuipc env rd (immU w) pc) .lui 0 0 rd
  | 0b11011#5 => compileArm env false (rvJal env rd (immJ w) pc (pc + instLen)) .jal 0 0 rd
  | 0b11001#5 =>
    if f3 = 0b000#3 then
      compileArm env false (rvJalr env rd rs1 (immI w) pc (pc + instLen)) .jalr rs1 0 0
    else compileReserved env pc
  | 0b11000#5 => compileBranch env rs1 rs2 f3 w pc
  | 0b00010#5 => compileCustom0 env f3 w pc
  -- Every function field of this opcode is taken for a fence.
  | 0b00011#5 => do
    let _ ← feedGasRv env .fence 0 0 0
    return ⟨false, false, 0⟩
  | _ => compileReserved env pc

/-! ## Words that name a spilled register -/

/-- Which register fields a word uses. -/
structure Fields where
  rd : Bool
  rs1 : Bool
  rs2 : Bool
  deriving DecidableEq, Repr

/-- The register fields of the opcodes that are compiled with donors. -/
def donorFields (op : BitVec 5) : Option Fields :=
  match op with
  | 0b00000#5 | 0b00100#5 | 0b00110#5 => some ⟨true, true, false⟩
  | 0b01100#5 | 0b01110#5 => some ⟨true, true, true⟩
  | 0b01000#5 => some ⟨false, true, true⟩
  | 0b01101#5 | 0b00101#5 => some ⟨true, false, false⟩
  | _ => none

def Fields.regs (fields : Fields) (w : BitVec 32) : List RegIdx :=
  (if fields.rd then [rdField w] else []) ++ (if fields.rs1 then [rs1Field w] else [])
    ++ (if fields.rs2 then [rs2Field w] else [])

def Fields.sources (fields : Fields) (w : BitVec 32) : List RegIdx :=
  (if fields.rs1 then [rs1Field w] else []) ++ (if fields.rs2 then [rs2Field w] else [])

/-- The registers that can stand in for a spilled one. -/
def donorCandidates : List RegIdx := [1, 2, 5, 6, 7, 8, 9, 10, 11, 12, 13, 14, 15]

/-- The first candidate that is not blocked. -/
def pickDonor (blocked : List RegIdx) : Option RegIdx :=
  donorCandidates.find? (fun c => c ∉ blocked)

/-- The donors of the spilled registers in the used fields: each with its spilled register. -/
def pickDonors (regs : List RegIdx) : Option (List (RegIdx × RegIdx)) := do
  let first ← if 3 ∈ regs then (pickDonor regs).map fun c => [(3, c)] else some []
  let second ←
    if 4 ∈ regs then (pickDonor (regs ++ first.map (·.2))).map fun c => [(4, c)] else some []
  return first ++ second

/-- The register that stands in for a register. -/
def donorOf (donors : List (RegIdx × RegIdx)) (x : RegIdx) : RegIdx :=
  (donors.lookup x).getD x

def setRdField (w : BitVec 32) (r : RegIdx) : BitVec 32 :=
  w.extractLsb' 12 20 ++ r ++ w.extractLsb' 0 7

def setRs1Field (w : BitVec 32) (r : RegIdx) : BitVec 32 :=
  w.extractLsb' 20 12 ++ r ++ w.extractLsb' 0 15

def setRs2Field (w : BitVec 32) (r : RegIdx) : BitVec 32 :=
  w.extractLsb' 25 7 ++ r ++ w.extractLsb' 0 20

/-- Replace the spilled registers in the used fields by their donors. -/
def rewriteFields (fields : Fields) (donors : List (RegIdx × RegIdx)) (w : BitVec 32) :
    BitVec 32 :=
  let repl := donorOf donors
  let w1 := if fields.rd then setRdField w (repl (rdField w)) else w
  let w2 := if fields.rs1 then setRs1Field w1 (repl (rs1Field w)) else w1
  if fields.rs2 then setRs2Field w2 (repl (rs2Field w)) else w2

/-- Save the donors, load the spilled sources into them and forget what was known about them. -/
def donorPrologue (sources : List RegIdx) (donors : List (RegIdx × RegIdx)) : Lower Unit := do
  let slots ← unwrap (donors.mapM fun d => (rvSlot d.2).map fun slot => (d.1, slot))
  emit (slots.map fun d => .push (regMap d.2))
  emit ((slots.filter (·.1 ∈ sources)).map fun d =>
    .loadCtx64 (regMap d.2) (.reg (spillSlot d.1)))
  slots.forM fun d => invalidateReg d.2

/-- Store a spilled destination to its home and restore the donors. -/
def donorEpilogue (rd : Option RegIdx) (donors : List (RegIdx × RegIdx)) : Lower Unit := do
  let slots ← unwrap (donors.mapM fun d => (rvSlot d.2).map fun slot => (d.1, slot))
  emit ((slots.filter (some ·.1 = rd)).map fun d =>
    .storeCtx64 (.reg (spillSlot d.1)) (regMap d.2))
  slots.forM fun d => invalidateReg d.2
  emit (slots.reverse.map fun d => .pop (regMap d.2))

/-- Compile a word with donors in place of its spilled registers. -/
def emitSpilledViaDonors (redispatch : BitVec 32 → Dispatch Compiled) (w : BitVec 32)
    (pc : Nat) : Dispatch Unit := do
  match donorFields (major w) with
  | none => rvEmitPanicAt pc
  | some fields =>
    let donors ← (unwrap (pickDonors (fields.regs w)) : Lower _)
    donorPrologue (fields.sources w) donors
    let _ ← redispatch (rewriteFields fields donors w)
    donorEpilogue (if fields.rd then some (rdField w) else none) donors

def wordBytes (w : BitVec 32) : List Byte :=
  [w.extractLsb' 0 8, w.extractLsb' 8 8, w.extractLsb' 16 8, w.extractLsb' 24 8]

/-- Emit the code of a word that names a spilled register. -/
def emitSpilled (redispatch : BitVec 32 → Dispatch Compiled) (w : BitVec 32)
    (pc instLen : Nat) : Dispatch Unit :=
  let rd := rdField w
  let rs1 := rs1Field w
  let rs2 := rs2Field w
  match major w with
  | 0b11011#5 => (rvJalSpilled env rd (immJ w) pc (pc + instLen) : Lower Unit)
  | 0b11001#5 =>
    if funct3 w = 0b000#3 then
      (rvJalrSpilled env rd rs1 (immI w) pc (pc + instLen) : Lower Unit)
    else (rvEmitPanicAt pc : Lower Unit)
  | 0b11000#5 => (rvBranchSpilled env rs1 rs2 (funct3 w) (immB w) pc : Lower Unit)
  | _ => emitSpilledViaDonors redispatch w pc

/-- Compile a word that names a spilled register: it is fed to the simulator once, with its own
registers, and every feed of the code emitted for it is suppressed. -/
def compileRvSpilled (redispatch : BitVec 32 → Dispatch Compiled) (w : BitVec 32)
    (pc instLen : Nat) : Dispatch Compiled := do
  let (inst, _) ← (unwrap (decode (wordBytes w)) : Lower _)
  let gasMeta := rvGasMeta inst
  let g ← get
  let (sim, term) := rvFeedGasDirect gasMeta g.sim env.memCycles
  set (GasState.mk sim (min (g.reserve + rvKindReserve gasMeta.kind) u32Max) true)
  emitSpilled env redispatch w pc instLen
  modify fun g => { g with suppress := false }
  return ⟨term, false, 0⟩

/-! ## Dispatch -/

/-- Dispatch a word, given what to do with one that names a spilled register. -/
def compileWord (spilled : Dispatch Compiled) (w : BitVec 32) (pc instLen : Nat)
    (rest : List Byte) : Dispatch Compiled :=
  if wordUsesReservedReg w then compileReserved env pc
  else if wordUsesSpilledReg w then spilled
  else compileOpcode env w pc instLen rest

/-- Dispatch the word of an instruction of a given length. A word with its spilled registers
replaced names none, so its own dispatch never comes back to the spilled path. -/
def compileRv4 (w : BitVec 32) (pc instLen : Nat) (rest : List Byte) : Dispatch Compiled :=
  let redispatch (wr : BitVec 32) :=
    compileWord env (unwrap none : Lower Compiled) wr pc instLen []
  compileWord env (compileRvSpilled env redispatch w pc instLen) w pc instLen rest

def compileRvc (h : BitVec 16) (pc : Nat) (rest : List Byte) : Dispatch Compiled :=
  match expandRvc h with
  | some w => compileRv4 env w pc 2 rest
  | none => compileReserved env pc

end

end Jar.Recompiler
