import Jar.Lib.Pipeline
import Jar.Proofs.Predecode
import Mathlib.Data.List.TakeWhile

/-! The gas simulator as a pipeline over the natural numbers: when its 32-bit counters are exact,
and how the cost of a block grows. -/

namespace Jar

/-! ## The simulator as a pipeline -/

def RvGasMeta.op (m : RvGasMeta) (memCycles : Nat) : Pipeline.Op Slot where
  latency := rvCycles m.kind m.src1 m.src2 m.dst memCycles
  slots := rvDecodeSlots m.kind m.src1 m.src2 m.dst
  sources := m.src1.toList ++ m.src2.toList
  target := m.dst

def blockOps (insts : List RvPreDecodedInst) (memCycles : Nat) : List (Pipeline.Op Slot) :=
  insts.map fun i => i.gasMeta.op memCycles

/-- The cost of a block whose last instruction is done at a cycle. -/
def costOf (done : Nat) : Nat := if 3 < done then done - 3 else 1

/-- The cost of a sequence of instructions, with counters that never overflow. -/
def exactCost (insts : List RvPreDecodedInst) (memCycles : Nat) : Nat :=
  costOf (Pipeline.State.init.feeds 4 (blockOps insts memCycles)).last

theorem costOf_mono {done done' : Nat} (le : done ≤ done') : costOf done ≤ costOf done' := by
  unfold costOf
  split <;> split <;> omega

namespace GasSimulator

def toState (sim : GasSimulator) : Pipeline.State Slot :=
  ⟨sim.regDone, sim.cycle, sim.decodeUsed, sim.maxDone⟩

/-- The decode cycle of the next instruction, as the code computes it. -/
def nextCycle (sim : GasSimulator) : Nat :=
  if 4 ≤ sim.decodeUsed then u32 (sim.cycle + 1) else sim.cycle

/-- No addition overflows while an instruction is fed. -/
def Fits (sim : GasSimulator) (m : RvGasMeta) (memCycles : Nat) : Prop :=
  (4 ≤ sim.decodeUsed → sim.cycle + 1 < 2 ^ 32) ∧
    max (max sim.nextCycle (sim.ready m.src1)) (sim.ready m.src2)
      + rvCycles m.kind m.src1 m.src2 m.dst memCycles < 2 ^ 32

/-- No addition overflows while a sequence of instructions is fed. -/
def FeedsFit (memCycles : Nat) : GasSimulator → List RvPreDecodedInst → Prop
  | _, [] => True
  | sim, i :: rest =>
    sim.Fits i.gasMeta memCycles ∧
      FeedsFit memCycles (rvFeedGasDirect i.gasMeta sim memCycles).1 rest

instance decidableFeedsFit (memCycles : Nat) :
    (sim : GasSimulator) → (insts : List RvPreDecodedInst) → Decidable (FeedsFit memCycles sim insts)
  | _, [] => isTrue trivial
  | _, _ :: rest => @instDecidableAnd _ _ (inferInstanceAs (Decidable (_ ∧ _)))
      (decidableFeedsFit memCycles _ rest)

variable {sim : GasSimulator} {m : RvGasMeta} {memCycles : Nat}

theorem start_eq (sim : GasSimulator) (m : RvGasMeta) (memCycles issue : Nat) :
    ((m.op memCycles).sources.map sim.toState.ready).foldl max issue =
      max (max issue (sim.ready m.src1)) (sim.ready m.src2) := by
  simp only [RvGasMeta.op, toState]
  cases m.src1 <;> cases m.src2 <;> simp [ready]

theorem issue_toState (sim : GasSimulator) :
    sim.toState.issue 4 = if 4 ≤ sim.decodeUsed then sim.cycle + 1 else sim.cycle := rfl

theorem issue_eq (fits : 4 ≤ sim.decodeUsed → sim.cycle + 1 < 2 ^ 32) :
    sim.nextCycle = sim.toState.issue 4 := by
  rw [nextCycle, issue_toState]
  by_cases full : 4 ≤ sim.decodeUsed
  · rw [if_pos full, if_pos full]
    exact Nat.mod_eq_of_lt (fits full)
  · rw [if_neg full, if_neg full]

/-- An instruction fits when the pipeline stays below the bound. -/
theorem fits_iff (bounded : sim.cycle < 2 ^ 32) :
    sim.Fits m memCycles ↔
      sim.toState.issue 4 < 2 ^ 32 ∧ sim.toState.done 4 (m.op memCycles) < 2 ^ 32 := by
  have issued : (4 ≤ sim.decodeUsed → sim.cycle + 1 < 2 ^ 32) ↔ sim.toState.issue 4 < 2 ^ 32 := by
    rw [issue_toState]
    by_cases full : 4 ≤ sim.decodeUsed
    · simp [full]
    · simpa [full] using bounded
  unfold Fits
  rw [← issued]
  refine and_congr_right fun fits => ?_
  rw [Pipeline.State.done, Pipeline.State.start, start_eq, issue_eq fits]
  rfl

/-- Without an overflow the simulator takes a step of the pipeline. -/
theorem toState_feed (fits : sim.Fits m memCycles) :
    (rvFeedGasDirect m sim memCycles).1.toState = sim.toState.feed 4 (m.op memCycles) := by
  obtain ⟨cycleFits, doneFits⟩ := fits
  have issued := issue_eq cycleFits
  have done : u32 (max (max sim.nextCycle (sim.ready m.src1)) (sim.ready m.src2)
      + rvCycles m.kind m.src1 m.src2 m.dst memCycles) =
        sim.toState.done 4 (m.op memCycles) := by
    rw [u32, Nat.mod_eq_of_lt doneFits, Pipeline.State.done, Pipeline.State.start, start_eq,
      issued]
    rfl
  unfold rvFeedGasDirect rvFeedGasKind feedDirect Pipeline.State.feed
  rw [← done, ← issued]
  obtain ⟨kind, src1, src2, dst⟩ := m
  cases dst <;> rfl

/-- Without an overflow the simulator runs as the pipeline. -/
theorem toState_feedAll {insts : List RvPreDecodedInst} (fit : FeedsFit memCycles sim insts) :
    (feedAll sim insts memCycles).toState = sim.toState.feeds 4 (blockOps insts memCycles) := by
  induction insts generalizing sim with
  | nil => rfl
  | cons i rest ih =>
    obtain ⟨first, later⟩ := fit
    have rest := ih later
    rw [toState_feed first] at rest
    exact rest

end GasSimulator

section

open GasSimulator

variable {sim : GasSimulator} {memCycles : Nat} {insts : List RvPreDecodedInst}

/-- The decode cycle never goes back, and goes on by at most one for each instruction. -/
theorem cycle_feeds (s : Pipeline.State Slot) (ops : List (Pipeline.Op Slot)) :
    s.cycle ≤ (s.feeds 4 ops).cycle ∧ (s.feeds 4 ops).cycle ≤ s.cycle + ops.length := by
  induction ops generalizing s with
  | nil => exact ⟨Nat.le_refl _, Nat.le_refl _⟩
  | cons op rest ih =>
    obtain ⟨least, most⟩ := ih (s.feed 4 op)
    have issued : s.cycle ≤ (s.feed 4 op).cycle ∧ (s.feed 4 op).cycle ≤ s.cycle + 1 := by
      unfold Pipeline.State.feed Pipeline.State.issue
      dsimp only
      split <;> omega
    have folded : s.feeds 4 (op :: rest) = (s.feed 4 op).feeds 4 rest := rfl
    rw [folded, List.length_cons]
    omega

/-- The counters are exact as long as the pipeline stays below the bound. -/
theorem feedsFit_iff (bounded : sim.cycle < 2 ^ 32) (small : sim.maxDone < 2 ^ 32) :
    FeedsFit memCycles sim insts ↔
      (sim.toState.feeds 4 (blockOps insts memCycles)).cycle < 2 ^ 32 ∧
        (sim.toState.feeds 4 (blockOps insts memCycles)).last < 2 ^ 32 := by
  induction insts generalizing sim with
  | nil => exact ⟨fun _ => ⟨bounded, small⟩, fun _ => trivial⟩
  | cons i rest ih =>
    let next := sim.toState.feed 4 (i.gasMeta.op memCycles)
    have folded : sim.toState.feeds 4 (blockOps (i :: rest) memCycles) =
        next.feeds 4 (blockOps rest memCycles) := rfl
    have done : sim.toState.done 4 (i.gasMeta.op memCycles) ≤ next.last := Nat.le_max_right _ _
    rw [folded, FeedsFit, fits_iff bounded]
    constructor
    · rintro ⟨first, later⟩
      have same := toState_feed ((fits_iff bounded).mpr first)
      have cycle : (rvFeedGasDirect i.gasMeta sim memCycles).1.cycle < 2 ^ 32 :=
        (congrArg Pipeline.State.cycle same).trans_lt first.1
      have last : (rvFeedGasDirect i.gasMeta sim memCycles).1.maxDone < 2 ^ 32 :=
        (congrArg Pipeline.State.last same).trans_lt (Nat.max_lt.mpr ⟨small, first.2⟩)
      rw [ih cycle last, same] at later
      exact later
    · rintro ⟨cycleFits, lastFits⟩
      -- What is bounded at the end was bounded at this instruction.
      have cycle : next.cycle < 2 ^ 32 := (cycle_feeds next _).1.trans_lt cycleFits
      have last : next.last < 2 ^ 32 := (next.last_le_feeds _).trans_lt lastFits
      have first : sim.toState.issue 4 < 2 ^ 32 ∧
          sim.toState.done 4 (i.gasMeta.op memCycles) < 2 ^ 32 := ⟨cycle, done.trans_lt last⟩
      refine ⟨first, ?_⟩
      have same := toState_feed ((fits_iff bounded).mpr first)
      rw [ih ((congrArg Pipeline.State.cycle same).trans_lt cycle)
        ((congrArg Pipeline.State.last same).trans_lt last), same]
      exact ⟨cycleFits, lastFits⟩

theorem toState_new : GasSimulator.new.toState = Pipeline.State.init := rfl

/-- In a block that is not longer than the counters reach, only the chains of dependent
instructions matter. -/
theorem feedsFit_new_iff (short : insts.length < 2 ^ 32) :
    FeedsFit memCycles .new insts ↔
      ∀ i t, Pipeline.Chain 4 (blockOps insts memCycles) i t → t < 2 ^ 32 := by
  have start : (0 : Nat) < 2 ^ 32 := by decide
  rw [feedsFit_iff start start, toState_new, Pipeline.last_feeds_lt start]
  refine and_iff_right ?_
  have most := (cycle_feeds Pipeline.State.init (blockOps insts memCycles)).2
  rw [blockOps, List.length_map] at most
  have zero : (Pipeline.State.init : Pipeline.State Slot).cycle = 0 := rfl
  rw [zero, Nat.zero_add] at most
  exact most.trans_lt short

theorem cost_eq_exactCost (fit : FeedsFit memCycles .new insts) :
    (feedAll .new insts memCycles).flushAndGetCost = exactCost insts memCycles := by
  have same := congrArg Pipeline.State.last (toState_feedAll fit)
  exact congrArg costOf same

end

/-! ## Costs grow -/

section

open GasSimulator

variable {insts : List RvPreDecodedInst} {memCycles memCycles' : Nat}

theorem rvCycles_mono (kind : RvKind) (src1 src2 dst : Option Slot)
    (le : memCycles ≤ memCycles') :
    rvCycles kind src1 src2 dst memCycles ≤ rvCycles kind src1 src2 dst memCycles' := by
  unfold rvCycles
  refine min_le_min_left _ (Nat.add_le_add ?_ (min_le_min_left _ (Nat.mul_le_mul_right _ le)))
  split
  · exact le
  · exact Nat.le_refl _

/-- A higher memory tier makes no instruction faster. -/
theorem blockOps_slower (le : memCycles ≤ memCycles') :
    List.Forall₂ Pipeline.Slower (blockOps insts memCycles) (blockOps insts memCycles') := by
  refine List.forall₂_map_left_iff.mpr (List.forall₂_map_right_iff.mpr ?_)
  exact List.forall₂_same.mpr fun i _ => ⟨rvCycles_mono _ _ _ _ le, rfl, rfl, rfl⟩

theorem exactCost_mono (le : memCycles ≤ memCycles') :
    exactCost insts memCycles ≤ exactCost insts memCycles' :=
  costOf_mono ((Pipeline.Behind.refl _).feeds (blockOps_slower le)).last

theorem GasSimulator.FeedsFit.lower (le : memCycles ≤ memCycles') (fit : FeedsFit memCycles' .new insts) :
    FeedsFit memCycles .new insts := by
  have start : (0 : Nat) < 2 ^ 32 := by decide
  rw [feedsFit_iff start start] at fit ⊢
  have behind : Pipeline.Behind (GasSimulator.new.toState.feeds 4 (blockOps insts memCycles))
      (GasSimulator.new.toState.feeds 4 (blockOps insts memCycles')) :=
    (Pipeline.Behind.refl _).feeds (blockOps_slower le)
  exact ⟨behind.cycle ▸ fit.1, behind.last.trans_lt fit.2⟩

/-- An instruction more never makes a sequence cheaper, and a higher memory tier never makes a
block cheaper while no counter overflows. -/
theorem gasCost_mono {memCycles memCycles' : Nat} (le : memCycles ≤ memCycles') :
    (∀ insts next, (feedAll .new insts memCycles).flushAndGetCost ≤
        (feedAll .new (insts ++ [next]) memCycles).flushAndGetCost) ∧
      ∀ insts start, FeedsFit memCycles' .new (headBlock (insts.drop start)) →
        rvGasCostForBlock insts start memCycles ≤ rvGasCostForBlock insts start memCycles' := by
  refine ⟨fun insts next => ?_, fun insts start fit => ?_⟩
  · -- The last completion only grows, overflow or not.
    have grows : (feedAll .new insts memCycles).maxDone ≤
        (feedAll .new (insts ++ [next]) memCycles).maxDone := by
      rw [feedAll, feedAll, List.foldl_append]
      exact Nat.le_max_left _ _
    exact costOf_mono grows
  · unfold rvGasCostForBlock
    rw [cost_eq_exactCost fit, cost_eq_exactCost (fit.lower le)]
    exact exactCost_mono le

/-- The instruction `c.ld x8, 0(x8)`, some number of times. -/
def loadChain (n : Nat) : List Byte := (List.replicate n [0x00#8, 0x60#8]).flatten

/-- Three loads, each of which reads what the one before it wrote. -/
theorem gasCost_mono_loads : 25 ≤ 50 ∧
    FeedsFit 50 .new (headBlock ((predecodeRvWithMemCycles (loadChain 3) 25).insts.drop 0)) ∧
    rvGasCostForBlock (predecodeRvWithMemCycles (loadChain 3) 25).insts 0 25 ≤
      rvGasCostForBlock (predecodeRvWithMemCycles (loadChain 3) 25).insts 0 50 := by
  have fit : FeedsFit 50 .new
      (headBlock ((predecodeRvWithMemCycles (loadChain 3) 25).insts.drop 0)) := by decide
  exact ⟨by decide, fit, (gasCost_mono (by decide)).2 _ 0 fit⟩

end

/-! ## Overflow -/

section

open GasSimulator

theorem length_decodeAll_le (fuel pc : Nat) (bytes : List Byte) :
    (decodeAll fuel pc bytes).length ≤ fuel := by
  induction fuel generalizing pc bytes with
  | zero => exact Nat.le_refl _
  | succ fuel ih =>
    unfold decodeAll
    split
    · exact Nat.zero_le _
    · exact Nat.succ_le_succ (ih _ _)

theorem length_markBlockStarts (afterTerm : Bool) (insts : List RvPreDecodedInst) :
    (markBlockStarts afterTerm insts).length = insts.length := by
  have same := congrArg List.length (map_pc_markBlockStarts afterTerm insts)
  simpa using same

theorem length_headBlock_le (insts : List RvPreDecodedInst) :
    (headBlock insts).length ≤ insts.length := by
  cases insts with
  | nil => exact Nat.le_refl _
  | cons i rest => exact Nat.succ_le_succ (List.takeWhile_sublist _).length_le

/-- No block of a code region is longer than the counters reach. -/
theorem length_block_lt {code : List Byte} (small : code.length ≤ maxCodeSize)
    (memCycles start : Nat) :
    (headBlock ((predecodeRvWithMemCycles code memCycles).insts.drop start)).length < 2 ^ 32 := by
  have block := length_headBlock_le ((predecodeRvWithMemCycles code memCycles).insts.drop start)
  have dropped : ((predecodeRvWithMemCycles code memCycles).insts.drop start).length ≤
      (predecodeRvWithMemCycles code memCycles).insts.length := (List.drop_sublist start _).length_le
  have decoded : (predecodeRvWithMemCycles code memCycles).insts.length ≤ code.length :=
    (length_markBlockStarts true _).trans_le (length_decodeAll_le code.length 0 code)
  have reach : maxCodeSize < 2 ^ 32 := by decide
  exact (((block.trans dropped).trans decoded).trans small).trans_lt reach

/-- The counters of a block are exact, and with them its cost, precisely when every chain of
dependent instructions in it is over before the counters end. -/
theorem blockCost_exact_iff {code : List Byte} (small : code.length ≤ maxCodeSize)
    (accessiblePages start : Nat) :
    (FeedsFit (memCyclesFor accessiblePages) .new
        (headBlock ((predecodeRvWithMemCycles code (memCyclesFor accessiblePages)).insts.drop start)) ∧
      rvGasCostForBlock (predecodeRvWithMemCycles code (memCyclesFor accessiblePages)).insts start
          (memCyclesFor accessiblePages) =
        exactCost (headBlock
          ((predecodeRvWithMemCycles code (memCyclesFor accessiblePages)).insts.drop start))
          (memCyclesFor accessiblePages)) ↔
      ∀ i t, Pipeline.Chain 4 (blockOps (headBlock
        ((predecodeRvWithMemCycles code (memCyclesFor accessiblePages)).insts.drop start))
        (memCyclesFor accessiblePages)) i t → t < 2 ^ 32 := by
  rw [← feedsFit_new_iff (length_block_lt small _ start)]
  exact and_iff_left_of_imp cost_eq_exactCost

/-- Three dependent loads are charged what they cost. -/
theorem blockCost_exact_iff_loads :
    rvGasCostForBlock (predecodeRvWithMemCycles (loadChain 3) (memCyclesFor 0)).insts 0
        (memCyclesFor 0) =
      exactCost (headBlock
        ((predecodeRvWithMemCycles (loadChain 3) (memCyclesFor 0)).insts.drop 0))
        (memCyclesFor 0) := by
  have small : (loadChain 3).length ≤ maxCodeSize := by decide
  refine ((blockCost_exact_iff small 0 0).mpr ?_).2
  exact (feedsFit_new_iff (length_block_lt small _ 0)).mp (by decide)

/-! ### A chain of loads -/

theorem decode_loadChain (n : Nat) :
    decode (loadChain (n + 1)) = some (.load .ld 8 8 0, 2) ∧
      (loadChain (n + 1)).drop 2 = loadChain n := by
  have parts : loadChain (n + 1) = 0x00#8 :: 0x60#8 :: loadChain n := by
    simp [loadChain, List.replicate_succ]
  rw [parts]
  exact ⟨by simp [decode]; decide, rfl⟩

theorem length_loadChain (n : Nat) : (loadChain n).length = 2 * n := by
  simp [loadChain, Nat.mul_comm]

theorem decodeAll_loadChain {n fuel : Nat} (enough : n ≤ fuel) (pc : Nat) :
    (decodeAll fuel pc (loadChain n)).length = n ∧
      ∀ i ∈ decodeAll fuel pc (loadChain n), i.inst = .load .ld 8 8 0 ∧
        i.gasMeta = rvGasMeta (.load .ld 8 8 0) := by
  induction n generalizing fuel pc with
  | zero =>
    have nothing : decodeAll fuel pc (loadChain 0) = [] := by
      cases fuel <;> rfl
    simp [nothing]
  | succ n ih =>
    obtain ⟨fuel, rfl⟩ : ∃ more, fuel = more + 1 := ⟨fuel - 1, by omega⟩
    obtain ⟨decoded, rest⟩ := decode_loadChain n
    obtain ⟨length, all⟩ := ih (Nat.le_of_succ_le_succ enough) (pc + 2)
    rw [decodeAll, decoded]
    simp only [rest, List.length_cons, length, true_and]
    intro i member
    rcases List.mem_cons.mp member with rfl | later
    · exact ⟨rfl, rfl⟩
    · exact all i later

theorem map_gasMeta_markBlockStarts (afterTerm : Bool) (insts : List RvPreDecodedInst) :
    (markBlockStarts afterTerm insts).map (·.gasMeta) = insts.map (·.gasMeta) := by
  induction insts generalizing afterTerm with
  | nil => rfl
  | cons i rest ih => simp [markBlockStarts, ih]

/-- Instructions that end no block are all in the block of the first one. -/
theorem headBlock_markBlockStarts {insts : List RvPreDecodedInst}
    (straight : ∀ i ∈ insts, isTerminator i.inst = false ∧ isEcallBlock i.inst = false) :
    headBlock (markBlockStarts true insts) = markBlockStarts true insts := by
  have inside : ∀ insts : List RvPreDecodedInst,
      (∀ i ∈ insts, isTerminator i.inst = false ∧ isEcallBlock i.inst = false) →
      ∀ i ∈ markBlockStarts false insts, (!i.isGasBlockStart) = true := by
    intro insts straight
    induction insts with
    | nil => exact fun i none => absurd none List.not_mem_nil
    | cons first rest ih =>
      obtain ⟨noTerm, noEcall⟩ := straight first List.mem_cons_self
      intro i member
      rw [markBlockStarts, noTerm] at member
      rcases List.mem_cons.mp member with rfl | later
      · simp [noEcall]
      · exact ih (fun j there => straight j (List.mem_cons_of_mem first there)) i later
  cases insts with
  | nil => rfl
  | cons first rest =>
    obtain ⟨noTerm, -⟩ := straight first List.mem_cons_self
    rw [markBlockStarts, noTerm, headBlock, List.takeWhile_eq_self_iff.mpr]
    exact inside rest fun j there => straight j (List.mem_cons_of_mem first there)

theorem blockOps_loadChain (n memCycles memCycles' : Nat) :
    blockOps (headBlock ((predecodeRvWithMemCycles (loadChain n) memCycles).insts.drop 0))
        memCycles' =
      List.replicate n ((rvGasMeta (.load .ld 8 8 0)).op memCycles') := by
  have enough : n ≤ (loadChain n).length := by
    rw [length_loadChain]
    omega
  obtain ⟨length, all⟩ := decodeAll_loadChain enough 0
  have insts : (predecodeRvWithMemCycles (loadChain n) memCycles).insts =
      markBlockStarts true (decodeAll (loadChain n).length 0 (loadChain n)) := rfl
  have straight : ∀ i ∈ decodeAll (loadChain n).length 0 (loadChain n),
      isTerminator i.inst = false ∧ isEcallBlock i.inst = false := by
    intro i member
    rw [(all i member).1]
    exact ⟨rfl, rfl⟩
  have metas : (decodeAll (loadChain n).length 0 (loadChain n)).map (·.gasMeta) =
      List.replicate n (rvGasMeta (.load .ld 8 8 0)) := by
    refine List.eq_replicate_iff.mpr ⟨by rw [List.length_map, length], fun m member => ?_⟩
    obtain ⟨i, there, rfl⟩ := List.mem_map.mp member
    exact (all i there).2
  have split : blockOps (markBlockStarts true
      (decodeAll (loadChain n).length 0 (loadChain n))) memCycles' =
        ((markBlockStarts true (decodeAll (loadChain n).length 0 (loadChain n))).map
          (·.gasMeta)).map (·.op memCycles') := by
    simp [blockOps]
  rw [List.drop_zero, insts, headBlock_markBlockStarts straight, split,
    map_gasMeta_markBlockStarts, metas, List.map_replicate]

theorem maxDone_lt (insts : List RvPreDecodedInst) (memCycles : Nat) {sim : GasSimulator}
    (small : sim.maxDone < 2 ^ 32) : (feedAll sim insts memCycles).maxDone < 2 ^ 32 := by
  induction insts generalizing sim with
  | nil => exact small
  | cons i rest ih => exact ih (Nat.max_lt.mpr ⟨small, Nat.mod_lt _ (by decide)⟩)

/-- A block whose last instruction is done too late overflows, and is charged too little. -/
theorem charged_less {insts : List RvPreDecodedInst} {memCycles : Nat}
    (late : 2 ^ 32 ≤ (Pipeline.State.init.feeds 4 (blockOps insts memCycles)).last) :
    ¬ FeedsFit memCycles .new insts ∧
      (feedAll .new insts memCycles).flushAndGetCost < exactCost insts memCycles := by
  have start : (0 : Nat) < 2 ^ 32 := by decide
  constructor
  · intro fit
    have bounded := ((feedsFit_iff start start).mp fit).2
    rw [toState_new] at bounded
    omega
  · have charged : (feedAll .new insts memCycles).maxDone < 2 ^ 32 := maxDone_lt insts memCycles start
    unfold exactCost costOf flushAndGetCost
    split <;> split <;> omega

/-- Each load of a chain reads what the one before it wrote. -/
theorem le_last_loadChain {n : Nat} (some : 0 < n) (memCycles : Nat) :
    n * ((rvGasMeta (.load .ld 8 8 0)).op memCycles).latency ≤
      (Pipeline.State.init.feeds 4 (blockOps (headBlock
        ((predecodeRvWithMemCycles (loadChain n) memCycles).insts.drop 0)) memCycles)).last := by
  obtain ⟨n, rfl⟩ : ∃ m, n = m + 1 := ⟨n - 1, by omega⟩
  have writes : ((rvGasMeta (.load .ld 8 8 0)).op memCycles).target = Option.some 5 := rfl
  have reads : 5 ∈ ((rvGasMeta (.load .ld 8 8 0)).op memCycles).sources := List.mem_singleton.mpr rfl
  rw [blockOps_loadChain]
  exact (Nat.le_add_left _ _).trans (Pipeline.State.init.le_last_replicate writes reads n)

/-- A full code region of dependent loads in the second memory tier: the counters overflow, and
the block is charged less than it costs. -/
theorem blockCost_overflows_loadChain : (loadChain 132120576).length ≤ maxCodeSize ∧
    ¬ FeedsFit (memCyclesFor 2049) .new (headBlock ((predecodeRvWithMemCycles
      (loadChain 132120576) (memCyclesFor 2049)).insts.drop 0)) ∧
    rvGasCostForBlock (predecodeRvWithMemCycles (loadChain 132120576)
        (memCyclesFor 2049)).insts 0 (memCyclesFor 2049) <
      exactCost (headBlock ((predecodeRvWithMemCycles (loadChain 132120576)
        (memCyclesFor 2049)).insts.drop 0)) (memCyclesFor 2049) := by
  have tier : memCyclesFor 2049 = 50 := by decide
  have latency : ((rvGasMeta (.load .ld 8 8 0)).op 50).latency = 50 := by decide
  have late := le_last_loadChain (n := 132120576) (by decide) 50
  rw [latency] at late
  rw [tier, rvGasCostForBlock]
  refine ⟨?_, charged_less (le_trans (by decide) late)⟩
  rw [length_loadChain]
  decide

end

end Jar
