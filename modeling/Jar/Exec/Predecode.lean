import Jar.Exec.GasCost

/-! The predecode pass: instruction boundaries, gas-block starts and per-block costs. -/

namespace Jar

/-- The largest code region, from its base to the base of the data region. -/
def maxCodeSize : Nat := 264241152

/-- One decoded instruction with its offsets, block-start flag and gas metadata. -/
structure RvPreDecodedInst where
  inst : Inst
  pc : Nat
  /-- The byte offset just after it. -/
  nextPc : Nat
  /-- Whether it starts a gas block. -/
  isGasBlockStart : Bool
  gasMeta : RvGasMeta
  deriving DecidableEq, Repr

/-- Whether an instruction can leave the fall-through path. -/
def isTerminator : Inst → Bool
  | .jal .. | .jalr .. | .branch .. | .trap | .ecallJar | .ecalli _ | .fallthrough
  | .reserved => true
  | _ => false

/-- Whether an instruction forms a gas block of its own. -/
def isEcallBlock : Inst → Bool
  | .ecallJar | .ecalli _ => true
  | _ => false

/-- Pass 1: decode every instruction from an offset on, within a bounded number of steps. -/
def decodeAll : Nat → Nat → List Byte → List RvPreDecodedInst
  | 0, _, _ => []
  | fuel + 1, pc, bytes =>
    match decode bytes with
    | none => []
    | some (inst, len) =>
      { inst
        pc
        nextPc := pc + len
        isGasBlockStart := false
        gasMeta := rvGasMeta inst } :: decodeAll fuel (pc + len) (bytes.drop len)

/-- Pass 2: mark the block starts, given whether the previous instruction ended a block. -/
def markBlockStarts : Bool → List RvPreDecodedInst → List RvPreDecodedInst
  | _, [] => []
  | afterTerm, i :: rest =>
    { i with isGasBlockStart := afterTerm || isEcallBlock i.inst }
      :: markBlockStarts (isTerminator i.inst) rest

/-- The block that begins a list of instructions: up to the next block start. -/
def headBlock : List RvPreDecodedInst → List RvPreDecodedInst
  | [] => []
  | i :: rest => i :: rest.takeWhile (fun j => !j.isGasBlockStart)

def feedAll (sim : GasSimulator) (insts : List RvPreDecodedInst) (memCycles : Nat) :
    GasSimulator :=
  insts.foldl (fun s i => (rvFeedGasDirect i.gasMeta s memCycles).1) sim

def rvGasCostForBlock (insts : List RvPreDecodedInst) (start memCycles : Nat) : Nat :=
  (feedAll .new (headBlock (insts.drop start)) memCycles).flushAndGetCost

/-- The exact worst-case materialization charge of a sequence of instructions. -/
def reserveSum (insts : List RvPreDecodedInst) : Nat :=
  (insts.map (fun i => rvKindReserve i.gasMeta.kind)).sum

/-- The reserve of the block that begins at an index, saturated at 32 bits. -/
def rvBlockReserveForBlock (insts : List RvPreDecodedInst) (start : Nat) : Nat :=
  min (reserveSum (headBlock (insts.drop start))) u32Max

/-- The result of the predecode pass. -/
structure Predecode where
  insts : List RvPreDecodedInst
  /-- The cost of the block that starts at each index, zero elsewhere. -/
  blockCosts : Nat → Nat
  /-- The reserve of the block that starts at each index, zero elsewhere. -/
  blockReserves : Nat → Nat

/-- Whether the instruction at an index starts a block that is charged statically. -/
def isStaticBlockStart (insts : List RvPreDecodedInst) (idx : Nat) : Bool :=
  (insts[idx]?).any (fun i => i.isGasBlockStart && !isEcallBlock i.inst)

/-- Pass 3: the cost and reserve of every block, with environment calls left at zero. -/
def computeBlockCosts (insts : List RvPreDecodedInst) (memCycles : Nat) : Predecode where
  insts
  blockCosts idx := if isStaticBlockStart insts idx then rvGasCostForBlock insts idx memCycles else 0
  blockReserves idx := if isStaticBlockStart insts idx then rvBlockReserveForBlock insts idx else 0

def predecodeRvWithMemCycles (code : List Byte) (memCycles : Nat) : Predecode :=
  computeBlockCosts (markBlockStarts true (decodeAll code.length 0 code)) memCycles

def findIdxForPc (insts : List RvPreDecodedInst) (pc : Nat) : Option (Fin insts.length) :=
  insts.findFinIdx? (fun i => i.pc == pc)

end Jar
