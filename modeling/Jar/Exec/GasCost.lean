import Jar.Exec.Compressed

/-! The per-block gas model: cost table, pipeline simulator and copy-on-write reserve. -/

namespace Jar

/-- Reduction to an unsigned 32-bit value, as release arithmetic wraps. -/
def u32 (n : Nat) : Nat := n % 2 ^ 32

/-- The largest unsigned 32-bit value. -/
def u32Max : Nat := 2 ^ 32 - 1

/-- The rows of the gas cost table. -/
inductive RvKind where
  | reserved | trap | fallthrough | ecallJar | ecalli | jalr | fence | jal | branch
  | load | store | lui | addi | addiw | add | sll | slt | addw | sllw
  | mul | mulw | mulh | mulhsu | div
  | zbbU1 | zbbCtz | zbbMinmax | zbbInv | zbbXnor | zbbRot | zbbRori | zbbRotw | zbbRoriw
  | zba | zbaImm | zbs | zbsImm | zicond
  deriving DecidableEq, Repr

/-- The execution unit class of a row. -/
inductive ExecUnit where
  | none | alu | load | store | mul | div
  deriving DecidableEq, Repr

/-- The decode slots of a row, which may depend on register overlap. -/
inductive DecodeSlots where
  | fixed (slots : Nat)
  /-- Slots by whether the destination equals an active source. -/
  | overlapDstSrc (overlap disjoint : Nat)
  /-- Slots by whether the destination equals the first source. -/
  | overlapRs1Rd (overlap disjoint : Nat)
  deriving DecidableEq, Repr

/-- One row of the gas cost table. -/
structure RvGasCostEntry where
  /-- The latency, which the memory tier overrides for loads and stores. -/
  cycles : Nat
  decodeSlots : DecodeSlots
  execUnit : ExecUnit
  /-- The number of source registers. -/
  srcPat : Nat
  /-- Whether a destination register is tracked. -/
  dstPat : Bool
  /-- Whether the row ends its block. -/
  term : Bool
  deriving DecidableEq, Repr

/-- A row with a fixed number of decode slots. -/
def rgc (cycles slots : Nat) (unit : ExecUnit) (srcPat : Nat) (dstPat term : Bool) :
    RvGasCostEntry :=
  ⟨cycles, .fixed slots, unit, srcPat, dstPat, term⟩

/-- A row whose slots depend on whether the destination overlaps a source. -/
def rgcDstSrc (cycles overlap disjoint : Nat) (unit : ExecUnit) (srcPat : Nat) :
    RvGasCostEntry :=
  ⟨cycles, .overlapDstSrc overlap disjoint, unit, srcPat, true, false⟩

/-- A row whose slots depend on whether the destination is the first source. -/
def rgcRs1Rd (cycles overlap disjoint : Nat) (unit : ExecUnit) : RvGasCostEntry :=
  ⟨cycles, .overlapRs1Rd overlap disjoint, unit, 2, true, false⟩

def rvGasCostLut : RvKind → RvGasCostEntry
  | .reserved => rgc 2 1 .none 0 false true
  | .trap => rgc 2 1 .none 0 false true
  | .fallthrough => rgc 2 1 .none 0 false true
  | .ecallJar => rgc 100 4 .alu 0 false true
  | .ecalli => rgc 100 4 .alu 0 false true
  | .jalr => rgc 22 1 .alu 1 false true
  | .fence => rgc 1 1 .none 0 false false
  | .jal => rgc 15 1 .alu 0 true true
  | .branch => rgc 20 1 .alu 2 false true
  | .load => rgc 25 1 .load 1 true false
  | .store => rgc 25 1 .store 2 false false
  | .lui => rgc 1 2 .none 0 true false
  | .addi => rgcDstSrc 1 1 2 .alu 1
  | .addiw => rgcDstSrc 2 2 3 .alu 1
  | .add => rgcDstSrc 1 1 2 .alu 2
  | .sll => rgcRs1Rd 1 2 3 .alu
  | .slt => rgc 3 3 .alu 2 true false
  | .addw => rgcDstSrc 2 2 3 .alu 2
  | .sllw => rgcRs1Rd 2 3 4 .alu
  | .mul => rgcDstSrc 3 1 2 .mul 2
  | .mulw => rgcDstSrc 4 2 3 .mul 2
  | .mulh => rgc 4 4 .mul 2 true false
  | .mulhsu => rgc 6 4 .mul 2 true false
  | .div => rgc 60 4 .div 2 true false
  | .zbbU1 => rgc 1 1 .alu 1 true false
  | .zbbCtz => rgc 2 1 .alu 1 true false
  | .zbbMinmax => rgcDstSrc 3 2 3 .alu 2
  | .zbbInv => rgc 2 3 .alu 2 true false
  | .zbbXnor => rgcDstSrc 2 2 3 .alu 2
  | .zbbRot => rgcRs1Rd 1 2 3 .alu
  | .zbbRori => rgcDstSrc 1 1 2 .alu 1
  | .zbbRotw => rgcRs1Rd 2 3 4 .alu
  | .zbbRoriw => rgcDstSrc 2 2 3 .alu 1
  | .zba => rgcDstSrc 1 1 2 .alu 2
  | .zbaImm => rgcDstSrc 1 1 2 .alu 1
  | .zbs => rgcDstSrc 1 1 2 .alu 2
  | .zbsImm => rgcDstSrc 1 1 2 .alu 1
  | .zicond => rgc 2 2 .alu 2 true false

/-! ## The kind and the registers of an instruction -/

/-- The row of an operation on a register and an immediate. -/
def ImmOp.kind : ImmOp → RvKind
  | .addiw => .addiw
  | _ => .addi

/-- The row of a shift or bit operation by an immediate. -/
def ShiftImmOp.kind : ShiftImmOp → RvKind
  | .slli | .srli | .srai => .addi
  | .slliw | .srliw | .sraiw => .addiw
  | .rori => .zbbRori
  | .roriw => .zbbRoriw
  | .slliuw => .zbaImm
  | .bclri | .bseti | .binvi | .bexti => .zbsImm

def UnaryOp.kind : UnaryOp → RvKind
  | .ctz | .ctzw => .zbbCtz
  | _ => .zbbU1

/-- The row of a two-register operation. -/
def RegOp.kind : RegOp → RvKind
  | .add | .sub | .and | .or | .xor => .add
  | .sll | .srl | .sra => .sll
  | .slt | .sltu => .slt
  | .addw | .subw => .addw
  | .sllw | .srlw | .sraw => .sllw
  | .mul => .mul
  | .mulw => .mulw
  | .mulh | .mulhu => .mulh
  | .mulhsu => .mulhsu
  | .div | .divu | .rem | .remu | .divw | .divuw | .remw | .remuw => .div
  | .min | .minu | .max | .maxu => .zbbMinmax
  | .andn | .orn => .zbbInv
  | .xnor => .zbbXnor
  | .rol | .ror => .zbbRot
  | .rolw | .rorw => .zbbRotw
  | .sh1add | .sh2add | .sh3add | .sh1adduw | .sh2adduw | .sh3adduw | .adduw => .zba
  | .bclr | .bset | .binv | .bext => .zbs
  | .czeroEqz | .czeroNez => .zicond

/-- The row of an instruction with the register fields that it reads and writes. -/
def rvOpMetadata : Inst → RvKind × RegIdx × RegIdx × RegIdx
  | .trap => (.trap, 0, 0, 0)
  | .fallthrough => (.fallthrough, 0, 0, 0)
  | .ecallJar => (.ecallJar, 0, 0, 0)
  | .ecalli _ => (.ecalli, 0, 0, 0)
  | .fence | .fenceI => (.fence, 0, 0, 0)
  | .reserved => (.reserved, 0, 0, 0)
  | .jal rd _ => (.jal, 0, 0, rd)
  | .jalr _ rs1 _ => (.jalr, rs1, 0, 0)
  | .branch _ rs1 rs2 _ => (.branch, rs1, rs2, 0)
  | .load _ rd rs1 _ => (.load, rs1, 0, rd)
  | .store _ rs1 rs2 _ => (.store, rs1, rs2, 0)
  | .lui rd _ => (.lui, 0, 0, rd)
  | .auipc rd _ => (.lui, 0, 0, rd)
  | .opImm op rd rs1 _ => (op.kind, rs1, 0, rd)
  | .shiftImm op rd rs1 _ => (op.kind, rs1, 0, rd)
  | .unary op rd rs1 => (op.kind, rs1, 0, rd)
  | .opReg op rd rs1 rs2 => (op.kind, rs1, rs2, rd)

/-- The gas metadata of an instruction, resolved once at decode time. -/
structure RvGasMeta where
  /-- The row of the cost table. -/
  kind : RvKind
  src1 : Option Slot
  src2 : Option Slot
  dst : Option Slot
  deriving DecidableEq, Repr

/-- Resolve the metadata of an instruction, masked by its row's register pattern. -/
def rvGasMeta (inst : Inst) : RvGasMeta :=
  let (kind, rs1, rs2, rd) := rvOpMetadata inst
  let entry := rvGasCostLut kind
  { kind
    src1 := if 1 ≤ entry.srcPat then regSlotOrFf rs1 else none
    src2 := if entry.srcPat = 2 then regSlotOrFf rs2 else none
    dst := if entry.dstPat then regSlotOrFf rd else none }

/-! ## The pipeline simulator -/

/-- The state of the single-pass pipeline simulator. -/
structure GasSimulator where
  /-- The cycle at which each register is ready. -/
  regDone : Slot → Nat
  cycle : Nat
  decodeUsed : Nat
  /-- The last completion cycle so far. -/
  maxDone : Nat

namespace GasSimulator

def new : GasSimulator := ⟨fun _ => 0, 0, 0, 0⟩

/-- The cycle at which a source is ready, zero for an absent source. -/
def ready (sim : GasSimulator) (src : Option Slot) : Nat :=
  match src with
  | some slot => sim.regDone slot
  | none => 0

def feedDirect (sim : GasSimulator) (cycles decodeSlots : Nat)
    (src1 src2 dst : Option Slot) : GasSimulator :=
  -- The decode cycle advances only once all four slots are taken.
  let cycle := if 4 ≤ sim.decodeUsed then u32 (sim.cycle + 1) else sim.cycle
  let decodeUsed := if 4 ≤ sim.decodeUsed then decodeSlots else sim.decodeUsed + decodeSlots
  let start := max (max cycle (sim.ready src1)) (sim.ready src2)
  let done := u32 (start + cycles)
  { regDone :=
      match dst with
      | some slot => Function.update sim.regDone slot done
      | none => sim.regDone
    cycle
    decodeUsed
    maxDone := max sim.maxDone done }

/-- The gas cost of the block fed so far. -/
def flushAndGetCost (sim : GasSimulator) : Nat :=
  if 3 < sim.maxDone then sim.maxDone - 3 else 1

theorem flushAndGetCost_pos (sim : GasSimulator) : 0 < sim.flushAndGetCost := by
  unfold flushAndGetCost
  split <;> omega

end GasSimulator

def isSpilledSlot (slot : Option Slot) : Bool :=
  slot == some 13 || slot == some 14

/-- The largest unsigned 8-bit value. -/
def u8Max : Nat := 255

/-- The latency of a row: the memory tier's for loads and stores, plus one per spilled operand. -/
def rvCycles (kind : RvKind) (src1 src2 dst : Option Slot) (memCycles : Nat) : Nat :=
  let entry := rvGasCostLut kind
  let base :=
    if entry.execUnit = .load ∨ entry.execUnit = .store then memCycles else entry.cycles
  let spillOps := (isSpilledSlot src1).toNat + (isSpilledSlot src2).toNat
    + (isSpilledSlot dst).toNat
  -- Both operations saturate at the top of a byte.
  min u8Max (base + min u8Max (memCycles * spillOps))

def rvDecodeSlots (kind : RvKind) (src1 src2 dst : Option Slot) : Nat :=
  match (rvGasCostLut kind).decodeSlots with
  | .fixed slots => slots
  | .overlapDstSrc overlap disjoint =>
    if dst ≠ none ∧ (dst = src1 ∨ dst = src2) then overlap else disjoint
  | .overlapRs1Rd overlap disjoint =>
    if dst ≠ none ∧ src1 ≠ none ∧ dst = src1 then overlap else disjoint

/-- Feed an instruction of a given row, returning whether it ends its block. -/
def rvFeedGasKind (kind : RvKind) (src1 src2 dst : Option Slot) (sim : GasSimulator)
    (memCycles : Nat) : GasSimulator × Bool :=
  (sim.feedDirect (rvCycles kind src1 src2 dst memCycles) (rvDecodeSlots kind src1 src2 dst)
      src1 src2 dst,
    (rvGasCostLut kind).term)

/-- Feed an instruction by its resolved metadata. -/
def rvFeedGasDirect (gasMeta : RvGasMeta) (sim : GasSimulator) (memCycles : Nat) :
    GasSimulator × Bool :=
  rvFeedGasKind gasMeta.kind gasMeta.src1 gasMeta.src2 gasMeta.dst sim memCycles

/-! ## The memory tier -/

/-- The latency of a load or store in the lowest tier. -/
def memCyclesBase : Nat := 25

/-- The factor of the memory tier, by the number of accessible pages. -/
def computeScale (accessiblePages : Nat) : Nat :=
  if accessiblePages ≤ 2048 then 1
  else if accessiblePages ≤ 8192 then 2
  else if accessiblePages ≤ 65536 then 3
  else 4

/-- The latency of a load or store for a number of accessible pages, saturated at a byte. -/
def memCyclesFor (accessiblePages : Nat) : Nat :=
  min u8Max (memCyclesBase * computeScale accessiblePages)

/-! ## The copy-on-write reserve and the fixed costs -/

/-- The charge for the first write to a page. -/
def cowCost : Nat := 256

def maxPagesPerAccess : Nat := 2

/-- The worst-case materialization charge of one instruction of a row. -/
def rvKindReserve (kind : RvKind) : Nat :=
  if (rvGasCostLut kind).execUnit = .store then cowCost * maxPagesPerAccess else 0

def hostCallFloor : Nat := 100

def mgmtOpCost : Nat := 100

def ecallDynamicCost (isEcalli : Bool) : Nat :=
  if isEcalli then hostCallFloor else mgmtOpCost

theorem rvKindReserve_eq (kind : RvKind) :
    rvKindReserve kind = if kind = .store then 512 else 0 := by
  cases kind <;> decide

end Jar
