import Jar.Proofs.Gates

/-! The streaming walk of the recompiler returns and accounts for the blocks as the single pass
does, and so agrees with the predecoder. -/

namespace Jar.Recompiler

open X86 Lower

theorem Fetched.returns_compile {f : Fetched} {env : CodeEnv} {base low pc : Nat}
    {rest : List Byte} (formed : f.WellFormed)
    (compilable : f.inst.Compilable env.codeLen pc rest) (room : 5 ≤ low) (above : base ≤ low) :
    Returns base (env.codeLen + 1024) low (f.compile env pc rest) := by
  cases f with
  | word w => exact returns_rv4 room above (Nat.le_refl _) formed compilable 4
  | half h => exact returns_rvc room above (Nat.le_refl _) compilable

/-! ## What the compiler has accounted for -/

namespace Compiler

/-- The accounting in the state of the compiler is that of the single pass. Every block so far
starts below the limit, and there is a label for every offset of the code. -/
structure Accounts (codeLen memCycles limit : Nat) (c : Compiler) (w : BlockWalk) : Prop where
  sameCode : c.codeLen = codeLen
  sameCycles : c.memCycles = memCycles
  fed : c.gas.suppress = false
  handed : labelBase + codeLen + 1 ≤ c.asm.labelsLen
  sized : c.asm.labelsLen ≤ c.asm.tableLen
  table : codeLen + 1024 ≤ c.asm.tableLen
  inside : limit ≤ codeLen
  block : w.block = c.pendingGas.map (·.blockPc)
  sim : w.sim = c.gas.sim
  reserve : w.reserve = c.gas.reserve
  starts : w.starts = c.gasBlockPcs
  stubs : c.oogStubs.map (fun s => (s.pc, s.cost)) = w.gates.map (fun g => (g.pc, g.cost))
  gated : Gated limit c.asm c.pendingGas w.gates

section

variable {codeLen memCycles limit pc : Nat} {c : Compiler} {w : BlockWalk}

theorem Accounts.mono (accounts : Accounts codeLen memCycles limit c w) {limit' : Nat}
    (more : limit ≤ limit') (inside : limit' ≤ codeLen) :
    Accounts codeLen memCycles limit' c w :=
  { accounts with inside, gated := accounts.gated.mono more }

/-! ## Blocks -/

/-- Closing a block keeps its place in the code. -/
theorem flushPendingGas_offset (c : Compiler) : c.flushPendingGas.asm.offset = c.asm.offset := by
  have keeps (v : BitVec 32) (i : Instr) : (i.setField v).len = i.len := by
    cases i <;> first
      | rfl
      | (rename_i short _; cases short <;> rfl)
      | (rename_i short _ _; cases short <;> rfl)
  unfold flushPendingGas
  split
  · rfl
  · simp only [Asm.offset, Asm.patchI32, Layout.size_modifyEnding _ (keeps _)]

theorem flushPendingGas_labels (c : Compiler) :
    c.flushPendingGas.asm.labels = c.asm.labels := by
  unfold flushPendingGas
  split <;> rfl

theorem Accounts.flush (accounts : Accounts codeLen memCycles limit c w) :
    Accounts codeLen memCycles limit c.flushPendingGas w.close := by
  have gated := accounts.gated.flush
  have block := accounts.block
  unfold BlockWalk.close
  unfold flushPendingGas at gated ⊢
  cases pending : c.pendingGas with
  | none =>
    rw [pending] at block
    rw [block]
    exact { accounts with }
  | some p =>
    rw [pending] at block gated
    rw [block]
    simp only [Option.toList_some, List.map_cons, List.map_nil, ← accounts.sim,
      ← accounts.reserve] at gated ⊢
    exact { accounts with block := rfl, stubs := by simp [accounts.stubs], gated }

/-- A block starts where its label is bound, with the gate of the block before filled in. -/
theorem Accounts.start (accounts : Accounts codeLen memCycles pc c w) (inside : pc < codeLen)
    (isEcall : Bool) : ∃ c', c.bindRvGasBlockStart pc isEcall = some c' ∧
      Accounts codeLen memCycles (pc + 1) c' (w.start pc isEcall) := by
  have known : labelBase + pc < c.asm.tableLen :=
    Nat.lt_of_lt_of_le (Nat.add_lt_add_left (Nat.lt_succ_of_lt inside) labelBase)
      (accounts.handed.trans accounts.sized)
  obtain ⟨asm, bound, grown, -⟩ := Asm.extends_bindLabel (Nat.le_refl (labelBase + pc)) known
  have opened : asm = { c.asm with
      labels := Function.update c.asm.labels (labelBase + pc) (Asm.stored c.asm.offset) } :=
    Option.some.inj (bound.symm.trans (Asm.bindLabel_of_lt known))
  generalize bound' : ({ c with
      asm
      gasBlockPcs := c.gasBlockPcs ++ [pc]
      validPc := if pc < c.codeLen then Function.update c.validPc pc true else c.validPc
      regDefs := fun _ => .unknown
      lastAddCf := none } : Compiler) = b
  have accounts₁ : Accounts codeLen memCycles pc b { w with starts := w.starts ++ [pc] } := by
    subst bound' opened
    exact { accounts with
      starts := by rw [accounts.starts]
      gated := accounts.gated.extends (Nat.le_refl _) grown }
  have accounts₂ := accounts₁.flush
  rw [BlockWalk.close_withStarts] at accounts₂
  have place : b.flushPendingGas.asm.labels (labelBase + pc) =
      Asm.stored b.flushPendingGas.asm.offset := by
    rw [flushPendingGas_offset, flushPendingGas_labels]
    subst bound' opened
    exact Function.update_self ..
  have closed : b.flushPendingGas.pendingGas = none := by
    unfold flushPendingGas
    split
    · assumption
    · rfl
  unfold bindRvGasBlockStart
  rw [bound]
  simp only [Option.bind_eq_bind, Option.bind_some, bound']
  cases isEcall with
  | true =>
    refine ⟨_, rfl, ?_⟩
    exact { accounts₂.mono (Nat.le_succ pc) inside with
      block := by simp [BlockWalk.start, closed], sim := rfl, reserve := rfl }
  | false =>
    have gated := accounts₂.gated.mono (Nat.le_succ pc)
    rw [closed] at gated
    obtain ⟨asm', gate, emitted, gateOf, gated', grown'⟩ := @Gated.emitGate _ _
      { b.flushPendingGas with gas := { b.flushPendingGas.gas with sim := .new, reserve := 0 } }
      gated pc 0 (Nat.lt_succ_self pc) place
    refine ⟨_, emitted, ?_⟩
    exact { accounts₂ with
      handed := accounts₂.handed.trans grown'.handed
      sized := grown'.sized accounts₂.sized
      table := accounts₂.table.trans grown'.table
      inside := inside
      block := by simp [BlockWalk.start, gateOf]
      sim := rfl
      reserve := rfl
      gated := gated' }

/-- Before an instruction a block starts where one begins. -/
theorem Accounts.startBlock (accounts : Accounts codeLen memCycles pc c w) (inside : pc < codeLen)
    (start isEcall : Bool) : ∃ c', c.startBlock pc start isEcall = some c' ∧
      Accounts codeLen memCycles (pc + 1) c'
        (if start || isEcall then w.start pc isEcall else w) := by
  unfold Compiler.startBlock
  split
  · exact accounts.start inside isEcall
  · exact ⟨c, rfl, accounts.mono (Nat.le_succ pc) inside⟩

/-! ## Instructions -/

/-- A dispatcher that returns changes the cost and the reserve of the open block only. -/
theorem Accounts.dispatch (accounts : Accounts codeLen memCycles limit c w) {α : Type}
    {d : Dispatch α}
    (returns : Returns (labelBase + codeLen + 1) (codeLen + 1024) (labelBase + codeLen + 1) d) :
    ∃ r gas st c', c.dispatch d = some (r, c') ∧
      d c.gas ⟨c.regDefs, c.lastAddCf, c.asm.labelsLen, []⟩ = some ((r, gas), st) ∧
      (gas.suppress = false → Accounts codeLen memCycles limit c'
        { w with sim := gas.sim, reserve := gas.reserve }) := by
  obtain ⟨r, c', ran, grown⟩ := dispatch_returns returns accounts.handed accounts.sized
    accounts.table
  obtain ⟨gas, st, dispatched, assembled⟩ := dispatch_eq_some ran
  have frame : Assembled _ c' := assembled_items assembled
  refine ⟨r, gas, st, c', ran, dispatched, fun fed => ?_⟩
  have gated := accounts.gated.extends (Nat.add_le_add_left
    (accounts.inside.trans (Nat.le_succ codeLen)) labelBase) grown
  have handed := accounts.handed.trans grown.handed
  have sized := grown.sized accounts.sized
  have table := accounts.table.trans grown.table
  rw [Assembled] at frame
  generalize c'.asm = asm, c'.pendingFwdBranches = jumps, c'.trapEntries = traps at *
  subst frame
  exact { accounts with fed, sim := rfl, reserve := rfl, gated, handed, sized, table }

/-- A fed instruction joins the open block. -/
theorem feed_eq {g : GasState} (fed : g.suppress = false) (sim : w.sim = g.sim)
    (reserve : w.reserve = g.reserve) (memCycles : Nat) (gasMeta : RvGasMeta) :
    { w with
      sim := (feedMeta memCycles g gasMeta).sim
      reserve := (feedMeta memCycles g gasMeta).reserve } = w.feed memCycles gasMeta := by
  simp [feedMeta, fed, BlockWalk.feed, sim, reserve]

/-- The offsets that are passed with an instruction: its own, and that of the one it is fused
with. -/
def passed (f : Fetched) (pc : Nat) (r : Compiled) : List Nat :=
  pc :: if r.extra = 0 then [] else [pc + f.len]

variable {f : Fetched} {bytes : List Byte}

/-- Compiling an instruction passes it, and the one after it where the two are fused. -/
theorem Accounts.compileInst (accounts : Accounts codeLen memCycles pc c w)
    (extent : pc + bytes.length = codeLen) (fetched : Fetched.fetch bytes = some f)
    (fence : ¬ f.IsReservedFence)
    (compilable : f.inst.Compilable codeLen pc (bytes.drop f.len)) (start : Bool) :
    ∃ r c' insts, c.compileInst f pc start (bytes.drop f.len) = some (r, c') ∧
      Accounts codeLen memCycles (pc + f.len + r.extra) c' (w.run memCycles insts) ∧
      insts.map (·.pc) = passed f pc r ∧
      markBlockStarts start (instructions pc bytes) = insts ++
        markBlockStarts r.term
          (instructions (pc + f.len + r.extra) (bytes.drop (f.len + r.extra))) := by
  have formed := Fetched.wellFormed_of_fetch fetched
  have decoded : decode bytes = some (f.inst, f.len) := by
    rw [Fetched.decode_eq_fetch, fetched]
    rfl
  obtain ⟨lengths, fits⟩ := decode_length decoded
  obtain ⟨c₁, started, accounts₁⟩ := accounts.startBlock (by omega) start f.isEcall
  have returns : Returns (labelBase + codeLen + 1) (codeLen + 1024) (labelBase + codeLen + 1)
      (f.compile c₁.codeEnv pc (bytes.drop f.len)) := by
    have sameCode : c₁.codeEnv.codeLen = codeLen := accounts₁.sameCode
    rw [← sameCode] at compilable ⊢
    exact Fetched.returns_compile formed compilable
      (Nat.le_trans (Nat.le_add_right 5 _) (Nat.le_succ _)) (Nat.le_refl _)
  obtain ⟨r, gas, st, c₂, dispatched, compiled, accounts₂⟩ := accounts₁.dispatch returns
  have sound := Fetched.gasSound_compile formed accounts₁.fed fence pc _ _ _ _ compiled
  rw [show c₁.codeEnv.memCycles = memCycles from accounts₁.sameCycles] at sound
  -- The first instruction is fed to the block that has been started, or to the open one.
  have fed := feed_eq accounts₁.fed accounts₁.sim accounts₁.reserve memCycles (rvGasMeta f.inst)
  have begun : ∀ rest, w.run memCycles
      (⟨f.inst, pc, pc + f.len, start || isEcallBlock f.inst, rvGasMeta f.inst⟩ :: rest) =
        BlockWalk.run memCycles ((if start || f.isEcall then w.start pc f.isEcall else w).feed
          memCycles (rvGasMeta f.inst)) rest := by
    intro rest
    rw [BlockWalk.run_cons, BlockWalk.step, Fetched.isEcall_eq formed]
  rw [instructions_of_decode decoded, markBlockStarts]
  have ran : c.compileInst f pc start (bytes.drop f.len) =
      some (r, { c₂ with lastAddCf := if r.preserveCf then c₂.lastAddCf else none }) := by
    simp only [Compiler.compileInst, started, Option.bind_eq_bind, Option.bind_some, dispatched]
    rfl
  cases sound with
  | single preserveCf =>
    have accounts₃ := (accounts₂ ((feedMeta_suppress _ _ _).trans accounts₁.fed)).mono
      (show pc + 1 ≤ pc + f.len by omega) (by omega)
    rw [fed] at accounts₃
    refine ⟨_, _, [_], ran, ?_, rfl, rfl⟩
    rw [begun, BlockWalk.run_nil]
    exact { accounts₃ with }
  | fused preserveCf second len decoded2 inner inner2 plain2 =>
    obtain ⟨lengths2, fits2⟩ := decode_length decoded2
    have accounts₃ := (accounts₂ ((feedMeta_suppress _ _ _).trans
      ((feedMeta_suppress _ _ _).trans accounts₁.fed))).mono
      (show pc + 1 ≤ pc + f.len + len by omega) (by rw [List.length_drop] at fits2; omega)
    have fedTwice := feed_eq ((feedMeta_suppress _ _ _).trans accounts₁.fed)
      (congrArg BlockWalk.sim fed).symm (congrArg BlockWalk.reserve fed).symm memCycles
      (rvGasMeta second)
    refine ⟨_, _, [⟨f.inst, pc, pc + f.len, start || isEcallBlock f.inst, rvGasMeta f.inst⟩,
      ⟨second, pc + f.len, pc + f.len + len, false, rvGasMeta second⟩], ran, ?_, ?_, ?_⟩
    · rw [begun, BlockWalk.run_cons, BlockWalk.run_nil, BlockWalk.step, if_neg Bool.false_ne_true,
        ← fedTwice]
      exact { accounts₃ with }
    · have positive : len ≠ 0 := by omega
      simp [passed, positive]
    · rw [instructions_of_decode decoded2, markBlockStarts, inner, inner2, plain2, List.drop_drop]
      rfl

/-! ## The walk -/

/-- The offsets at which the pass finds an instruction. -/
def boundariesFrom (c : Compiler) : Nat → Nat → Bool → List Byte → List Nat
  | 0, _, _, _ => []
  | fuel + 1, pc, start, bytes =>
    match Fetched.fetch bytes with
    | none => []
    | some f =>
      match c.compileInst f pc start (bytes.drop f.len) with
      | none => []
      | some (r, c) => passed f pc r ++
        boundariesFrom c fuel (pc + f.len + r.extra) r.term (bytes.drop (f.len + r.extra))

/-- The pass from an offset on returns, and passes the instructions from that offset on. -/
theorem Accounts.compileFrom {code : List Byte} {fuel : Nat} {start : Bool}
    (accounts : Accounts code.length memCycles pc c w) (enough : (code.drop pc).length ≤ fuel)
    (fences : ∀ q ∈ (instructions pc (code.drop pc)).map (·.pc),
      ∀ f ∈ Fetched.fetch (code.drop q), ¬ f.IsReservedFence)
    (compilable : ∀ q ∈ (instructions pc (code.drop pc)).map (·.pc),
      ∀ f ∈ Fetched.fetch (code.drop q), f.inst.Compilable code.length q (code.drop (q + f.len))) :
    ∃ c' limit, c.compileFrom fuel pc start (code.drop pc) = some c' ∧
      Accounts code.length memCycles limit c'
        (w.run memCycles (markBlockStarts start (instructions pc (code.drop pc)))) ∧
      c.boundariesFrom fuel pc start (code.drop pc) =
        (instructions pc (code.drop pc)).map (·.pc) := by
  induction fuel generalizing c pc start w with
  | zero =>
    have empty := List.eq_nil_of_length_eq_zero (Nat.le_zero.mp enough)
    rw [empty]
    exact ⟨c, pc, rfl, accounts, rfl⟩
  | succ fuel ih =>
    have decoded := Fetched.decode_eq_fetch (code.drop pc)
    cases bytes : code.drop pc with
    | nil => exact ⟨c, pc, rfl, accounts, rfl⟩
    | cons b rest =>
      unfold Compiler.compileFrom boundariesFrom
      rw [← bytes]
      cases fetched : Fetched.fetch (code.drop pc) with
      | none =>
        -- A cut-off instruction is no instruction, and its panic leaves the accounting alone.
        rw [fetched] at decoded
        rw [instructions_of_decode_none decoded]
        obtain ⟨_, gas, st, c', ran, emitted, accounts'⟩ := accounts.dispatch
          (returns_lift (fitting_rvEmitPanicAt
            (Nat.le_trans (Nat.le_add_right 5 _) (Nat.le_succ _)) pc))
        rw [lift_apply] at emitted
        obtain ⟨_, _, same⟩ := Option.map_eq_some_iff.mp emitted
        cases same
        refine ⟨c', pc, by simp only [ran]; rfl, ?_, rfl⟩
        have kept := accounts' accounts.fed
        rwa [← accounts.sim, ← accounts.reserve] at kept
      | some f =>
        rw [fetched] at decoded
        have first := instructions_of_decode decoded pc
        have extent : pc + (code.drop pc).length = code.length := by
          rw [List.length_drop, Nat.add_sub_cancel' accounts.inside]
        have fetchedHere : pc ∈ (instructions pc (code.drop pc)).map (·.pc) := by simp [first]
        have compilableHere := compilable pc fetchedHere f fetched
        rw [← List.drop_drop] at compilableHere
        obtain ⟨r, c₁, insts, compiled, accounts₁, offsets, split⟩ := accounts.compileInst extent
          fetched (fences pc fetchedHere f fetched) compilableHere start
        rw [List.drop_drop, ← Nat.add_assoc] at split
        -- The instructions that are left are among those from here on.
        have left : (instructions pc (code.drop pc)).map (·.pc) = passed f pc r ++
            (instructions (pc + f.len + r.extra) (code.drop (pc + f.len + r.extra))).map (·.pc) := by
          rw [← offsets, ← map_pc_markBlockStarts start, split, List.map_append,
            map_pc_markBlockStarts]
        have shorter : (code.drop (pc + f.len + r.extra)).length ≤ fuel := by
          have positive := (decode_length decoded).1
          simp only [List.length_drop] at enough ⊢
          omega
        obtain ⟨c₂, limit, ran, accounts₂, boundaries⟩ := @ih _ _ _ r.term accounts₁ shorter
          (fun q member => fences q (by rw [left]; exact List.mem_append_right _ member))
          (fun q member => compilable q (by rw [left]; exact List.mem_append_right _ member))
        refine ⟨c₂, limit, ?_, ?_, ?_⟩
        · simp only [compiled, Option.bind_eq_bind, Option.bind_some]
          rw [List.drop_drop, ← Nat.add_assoc]
          exact ran
        · rw [split, BlockWalk.run_append]
          exact accounts₂
        · simp only [compiled]
          rw [left, ← boundaries, List.drop_drop, ← Nat.add_assoc]

end

theorem foldl_emit (code : List Instr) (asm : Asm) :
    code.foldl Asm.emit asm = { asm with code := asm.code ++ code } := by
  induction code generalizing asm with
  | nil => simp
  | cons i code ih => simp [ih, Asm.emit]

/-- Before the first instruction nothing is accounted for. -/
theorem accounts_new (codeLen memCycles : Nat) (codeBase : BitVec 32) :
    Accounts codeLen memCycles 0 ((new codeLen memCycles codeBase).emit prologueCode) .init := by
  unfold Compiler.emit
  rw [foldl_emit]
  exact
    { sameCode := rfl
      sameCycles := rfl
      fed := rfl
      handed := by simp [new, Asm.bulkCreateLabels, Asm.withCapacity]
      sized := by simp [new, Asm.bulkCreateLabels, Asm.withCapacity]
      table := by simp [new, Asm.bulkCreateLabels, Asm.withCapacity]
      inside := Nat.zero_le _
      block := rfl
      sim := rfl
      reserve := rfl
      starts := rfl
      stubs := rfl
      gated := ⟨_, [], (List.append_nil _).symm, by simp [BlockWalk.init], by simp [new]⟩ }

end Compiler

/-! ## Agreement of the two engines -/

/-- The code has no reserved encoding that the recompiler takes for a fence. -/
def NoReservedFence (code : List Byte) : Prop :=
  ∀ pc ∈ (instructions 0 code).map (·.pc), ∀ f ∈ Fetched.fetch (code.drop pc),
    ¬ f.IsReservedFence

instance (code : List Byte) : Decidable (NoReservedFence code) := by
  unfold NoReservedFence
  infer_instance

/-- The recompiler returns on every instruction of the code. -/
def Compilable (code : List Byte) : Prop :=
  ∀ pc ∈ (instructions 0 code).map (·.pc), ∀ f ∈ Fetched.fetch (code.drop pc),
    f.inst.Compilable code.length pc (code.drop (pc + f.len))

instance (code : List Byte) : Decidable (Compilable code) := by
  unfold Compilable
  infer_instance

/-- The offsets at which the pass over the whole code finds an instruction. -/
def passBoundaries (code : List Byte) (memCycles : Nat) (codeBase : BitVec 32) : List Nat :=
  ((Compiler.new code.length memCycles codeBase).emit Compiler.prologueCode).boundariesFrom
    code.length 0 true code

/-- The two engines agree on the instructions, the block starts, and the cost and reserve of
every block: at the label of each block that is charged when it is entered, the emitted code
compares the balance with the cost and the reserve and deducts the cost. -/
def BlocksAgree (boundaries : List Nat) (c : Compiler) (p : Predecode) : Prop :=
  boundaries = p.boundaries ∧ c.gasBlockPcs = p.blockStarts ∧
    c.oogStubs.map (fun s => (s.pc, s.cost)) = p.blockGates.map (fun g => (g.pc, g.cost)) ∧
    ∀ g ∈ p.blockGates, ∃ e ∈ gatesIn 0 c.asm.code,
      c.asm.labels (labelBase + g.pc) = Asm.stored e.1 ∧ e.2 = (compared g, deducted g)

instance (boundaries : List Nat) (c : Compiler) (p : Predecode) :
    Decidable (BlocksAgree boundaries c p) := by
  unfold BlocksAgree
  infer_instance

/-- The streaming walk returns and agrees with the predecoder on every code without such an
encoding that it can compile. -/
theorem compileMain_blocksAgree {code : List Byte} (memCycles : Nat) (codeBase : BitVec 32)
    (fences : NoReservedFence code) (compilable : Compilable code) :
    ∃ c, Compiler.compileMain code memCycles codeBase = some c ∧
      BlocksAgree (passBoundaries code memCycles codeBase) c
        (predecodeRvWithMemCycles code memCycles) := by
  obtain ⟨c, limit, walked, accounts, boundaries⟩ :=
    @Compiler.Accounts.compileFrom memCycles 0 _ _ code code.length true
      (Compiler.accounts_new code.length memCycles codeBase) (Nat.le_refl _) fences compilable
  have closed := accounts.flush
  obtain ⟨starts, gates⟩ := BlockWalk.run_predecode code memCycles
  refine ⟨c.flushPendingGas, ?_, ?_, closed.starts.symm.trans starts, ?_, fun g member => ?_⟩
  · rw [List.drop_zero] at walked
    rw [Compiler.compileMain, walked]
    rfl
  · refine boundaries.trans ?_
    rw [List.drop_zero, ← map_pc_markBlockStarts true]
    rfl
  · rw [← gates]
    exact closed.stubs
  · obtain ⟨left, right, code', gated, -⟩ := closed.gated
    rw [code']
    exact ((gated g (gates ▸ member)).2.append right rfl).mem

/-- A jump over a fused load and addition, a load into a spilled register, an environment call, a
division and a compressed store: the code is compiled and agrees. -/
theorem compileMain_blocksAgree_fusedSpilled :
    let code : List Byte := [0x63, 0x06, 0x05, 0x00, 0x03, 0xB5, 0x05, 0x00, 0x33, 0x05, 0xC5, 0x00,
      0x83, 0x31, 0x05, 0x00, 0x0B, 0x10, 0x00, 0x00, 0x33, 0x45, 0xB5, 0x02, 0x88, 0xE1]
    NoReservedFence code ∧ Compilable code ∧ ∃ c, Compiler.compileMain code 25 0 = some c ∧
      BlocksAgree (passBoundaries code 25 0) c (predecodeRvWithMemCycles code 25) := by
  intro code
  have fences : NoReservedFence code := by decide +kernel
  have compilable : Compilable code := by decide +kernel
  exact ⟨fences, compilable, compileMain_blocksAgree 25 0 fences compilable⟩

/-- A MISC-MEM word with function field 2 before an addition: the interpreter ends the block at
the reserved word, and the recompiler goes on as after a fence. -/
theorem compileMain_reservedFence_disagrees :
    let code : List Byte := [0x0F, 0x20, 0x00, 0x00, 0x13, 0x05, 0x15, 0x00]
    ∃ c, Compiler.compileMain code 25 0 = some c ∧
      ¬ BlocksAgree (passBoundaries code 25 0) c (predecodeRvWithMemCycles code 25) := by
  intro code
  have disagrees : (Compiler.compileMain code 25 0).any (fun c =>
      !decide (BlocksAgree (passBoundaries code 25 0) c (predecodeRvWithMemCycles code 25))) =
        true := by
    decide +kernel
  obtain ⟨c, compiled, different⟩ := (Option.any_eq_true _ _).mp disagrees
  exact ⟨c, compiled, by simpa using different⟩

end Jar.Recompiler
