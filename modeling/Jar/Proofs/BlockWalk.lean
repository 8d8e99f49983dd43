import Jar.Exec.Predecode

/-! Block accounting in a single pass over the instructions, and its agreement with the separate
passes of the predecoder. -/

namespace Jar

/-- A block that is charged when it is entered, with its cost and reserve. -/
structure BlockGate where
  pc : Nat
  cost : Nat
  reserve : Nat
  deriving DecidableEq, Repr

namespace Predecode

def boundaries (p : Predecode) : List Nat := p.insts.map (·.pc)

def blockStarts (p : Predecode) : List Nat := (p.insts.filter (·.isGasBlockStart)).map (·.pc)

/-- The blocks that are charged when they are entered. -/
def blockGates (p : Predecode) : List BlockGate :=
  (List.range p.insts.length).filterMap fun idx =>
    if isStaticBlockStart p.insts idx then
      p.insts[idx]?.map fun i => ⟨i.pc, p.blockCosts idx, p.blockReserves idx⟩
    else none

end Predecode

/-! ## The single pass -/

/-- The state of a single pass that closes each block at the start of the next. -/
structure BlockWalk where
  /-- The block whose cost is still growing. -/
  block : Option Nat
  sim : GasSimulator
  /-- The reserve of that block, saturated at 32 bits. -/
  reserve : Nat
  starts : List Nat
  gates : List BlockGate

namespace BlockWalk

/-- The state before the first instruction. -/
def init : BlockWalk := ⟨none, .new, 0, [], []⟩

def close (w : BlockWalk) : BlockWalk :=
  match w.block with
  | none => w
  | some pc =>
    { w with block := none, gates := w.gates ++ [⟨pc, w.sim.flushAndGetCost, w.reserve⟩] }

/-- Close the open block and start one, which stays unopened for an environment call. -/
def start (w : BlockWalk) (pc : Nat) (isEcall : Bool) : BlockWalk :=
  { w.close with
    block := if isEcall then none else some pc
    sim := .new
    reserve := 0
    starts := w.starts ++ [pc] }

def feed (memCycles : Nat) (w : BlockWalk) (gasMeta : RvGasMeta) : BlockWalk :=
  { w with
    sim := (rvFeedGasDirect gasMeta w.sim memCycles).1
    reserve := min (w.reserve + rvKindReserve gasMeta.kind) u32Max }

def step (memCycles : Nat) (w : BlockWalk) (i : RvPreDecodedInst) : BlockWalk :=
  (if i.isGasBlockStart then w.start i.pc (isEcallBlock i.inst) else w).feed memCycles
    i.gasMeta

def run (memCycles : Nat) (w : BlockWalk) (insts : List RvPreDecodedInst) : BlockWalk :=
  insts.foldl (step memCycles) w

@[simp]
theorem run_nil (memCycles : Nat) (w : BlockWalk) : run memCycles w [] = w := rfl

@[simp]
theorem run_cons (memCycles : Nat) (w : BlockWalk) (i : RvPreDecodedInst)
    (rest : List RvPreDecodedInst) :
    run memCycles w (i :: rest) = run memCycles (w.step memCycles i) rest := rfl

theorem run_append (memCycles : Nat) (w : BlockWalk) (insts rest : List RvPreDecodedInst) :
    run memCycles w (insts ++ rest) = run memCycles (run memCycles w insts) rest :=
  List.foldl_append

/-! ## What a pass records -/

/-- The open block closed after further instructions. -/
def closing (memCycles : Nat) (w : BlockWalk) (insts : List RvPreDecodedInst) : List BlockGate :=
  w.block.toList.map fun pc =>
    ⟨pc, (feedAll w.sim insts memCycles).flushAndGetCost,
      min (w.reserve + reserveSum insts) u32Max⟩

/-- The charged blocks of a marked list, each with the instructions up to the next start. -/
def gatesOf (memCycles : Nat) : List RvPreDecodedInst → List BlockGate
  | [] => []
  | i :: rest =>
    (if i.isGasBlockStart && !isEcallBlock i.inst then
      [⟨i.pc, rvGasCostForBlock (i :: rest) 0 memCycles, rvBlockReserveForBlock (i :: rest) 0⟩]
      else []) ++ gatesOf memCycles rest

section

variable (memCycles : Nat) (w : BlockWalk)

theorem close_withStarts (starts : List Nat) :
    ({ w with starts } : BlockWalk).close = { w.close with starts } := by
  obtain ⟨block, _⟩ := w
  cases block <;> rfl

@[simp]
theorem close_starts : w.close.starts = w.starts := by
  unfold close
  split <;> rfl

@[simp]
theorem feed_gates (gasMeta : RvGasMeta) : (w.feed memCycles gasMeta).gates = w.gates := rfl

@[simp]
theorem start_gates (pc : Nat) (isEcall : Bool) :
    (w.start pc isEcall).gates = w.close.gates := rfl

theorem close_gates (bounded : w.reserve ≤ u32Max) :
    w.close.gates = w.gates ++ closing memCycles w [] := by
  unfold close closing
  cases w.block with
  | none => simp
  | some pc => simp [feedAll, reserveSum, bounded]

theorem closing_feed (i : RvPreDecodedInst) (rest : List RvPreDecodedInst) :
    closing memCycles (w.feed memCycles i.gasMeta) rest = closing memCycles w (i :: rest) := by
  have saturated : ∀ a b c : Nat, min (min (a + b) u32Max + c) u32Max =
      min (a + (b + c)) u32Max := by omega
  simp [closing, feed, feedAll, reserveSum, saturated]

theorem closing_start {i : RvPreDecodedInst} (started : i.isGasBlockStart = true)
    (rest : List RvPreDecodedInst) :
    closing memCycles (w.start i.pc (isEcallBlock i.inst))
        (i :: rest.takeWhile (fun j => !j.isGasBlockStart)) ++ gatesOf memCycles rest =
      gatesOf memCycles (i :: rest) := by
  cases called : isEcallBlock i.inst <;>
    simp [closing, start, gatesOf, started, called, rvGasCostForBlock, rvBlockReserveForBlock,
      headBlock]

/-- What a pass records: each start, and each block with everything up to the next start. -/
theorem run_close (insts : List RvPreDecodedInst) (bounded : w.reserve ≤ u32Max) :
    let w' := (run memCycles w insts).close
    w'.starts = w.starts ++ (insts.filter (·.isGasBlockStart)).map (·.pc) ∧
      w'.gates = w.gates ++ closing memCycles w (insts.takeWhile (fun j => !j.isGasBlockStart))
        ++ gatesOf memCycles insts := by
  induction insts generalizing w with
  | nil =>
    exact ⟨by simp, by simp [close_gates memCycles w bounded, gatesOf]⟩
  | cons i rest ih =>
    have fed : (w.step memCycles i).reserve ≤ u32Max := by
      simp only [step, feed]
      omega
    obtain ⟨starts, gates⟩ := ih (w.step memCycles i) fed
    simp only [run_cons, starts, gates]
    unfold step
    cases started : i.isGasBlockStart with
    | false =>
      -- The instruction joins the open block.
      refine ⟨by simp [feed, started], ?_⟩
      simp [closing_feed, started, gatesOf]
    | true =>
      -- The open block ends before the instruction, whose own block begins with it.
      refine ⟨by simp [feed, start, started], ?_⟩
      have opened := closing_start memCycles w started rest
      have closed := close_gates memCycles w bounded
      simp [closing_feed, started, ← opened, closed]

end

/-- The charged blocks of a marked list are those of the predecoder. -/
theorem gatesOf_eq (memCycles : Nat) (insts : List RvPreDecodedInst) :
    gatesOf memCycles insts = (computeBlockCosts insts memCycles).blockGates := by
  induction insts with
  | nil => rfl
  | cons i rest ih =>
    rw [gatesOf, ih]
    simp only [Predecode.blockGates, computeBlockCosts, List.length_cons, List.range_succ_eq_map,
      List.filterMap_cons, List.filterMap_map]
    -- Past the first index, every index of the list is one of its tail.
    cases static : (i.isGasBlockStart && !isEcallBlock i.inst) with
    | false =>
      simp only [isStaticBlockStart, List.getElem?_cons_zero, Option.any_some, static]
      rfl
    | true =>
      simp only [isStaticBlockStart, List.getElem?_cons_zero, Option.any_some, static]
      rfl

/-- A single pass over the code records what the predecoder computes. -/
theorem run_predecode (code : List Byte) (memCycles : Nat) :
    let p := predecodeRvWithMemCycles code memCycles
    let w := (run memCycles init p.insts).close
    w.starts = p.blockStarts ∧ w.gates = p.blockGates := by
  obtain ⟨starts, gates⟩ := run_close memCycles init
    (predecodeRvWithMemCycles code memCycles).insts (Nat.zero_le _)
  refine ⟨starts, gates.trans ?_⟩
  rw [gatesOf_eq]
  rfl

end BlockWalk

end Jar
