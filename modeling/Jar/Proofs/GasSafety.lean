import Jar.Exec.Interp
import Jar.Proofs.Memory
import Jar.Proofs.Predecode

/-! Every charge of the interpreter is covered by the gas reserved at the entry of its block. -/

namespace Jar

section

variable {Host : Type} (prog : Program) (handler : EcallHandler Host)

/-- The instructions from an index up to the end of its block. -/
def restOfBlock (idx : Nat) : List RvPreDecodedInst :=
  headBlock (prog.predecode.insts.drop idx)

/-- The gas covers every copy that the given instructions can still be charged. -/
def Reserved (insts : List RvPreDecodedInst) (s : ExecState Host) : Prop :=
  -- Either bound suffices: two pages per store, or every page not yet written.
  min (reserveSum insts) (cowCost * unwritten s.mem) ≤ s.gas

/-- Between steps, an execution is at a block start or within a reserved block. -/
def Ready (idx : prog.Idx) (s : ExecState Host) : Prop :=
  (prog.fetch idx).isGasBlockStart = true ∨ Reserved (restOfBlock prog idx) s

/-- An outcome of an instruction that does not abort, does not gain gas, and goes on either at a
block start or at the next instruction of a reserved block. -/
def Outcome.Safe (idx : prog.Idx) (gas : Nat) : Outcome prog.Idx Host → Prop
  | .next after s => s.gas ≤ gas ∧ ((prog.fetch after).isGasBlockStart = true
      ∨ after.val = idx.val + 1 ∧ Reserved (restOfBlock prog after) s)
  | .exit _ s => s.gas ≤ gas
  | .abort => False

/-- Safety against a balance is safety against any larger one. -/
theorem Outcome.Safe.mono {prog : Program} {idx : prog.Idx} {gas gas' : Nat}
    {outcome : Outcome prog.Idx Host} (safe : outcome.Safe prog idx gas) (more : gas ≤ gas') :
    outcome.Safe prog idx gas' := by
  cases outcome with
  | next after s => exact ⟨safe.1.trans more, safe.2⟩
  | exit reason s => exact Nat.le_trans safe more
  | abort => exact safe

/-- A program as the interpreter gets it, with the costs of its own predecode pass. -/
structure Predecoded (prog : Program) : Prop where
  marked : WellMarked prog.predecode.insts
  /-- The block costs and reserves are those of the instructions. -/
  costed : ∃ memCycles, prog.predecode = computeBlockCosts prog.predecode.insts memCycles

theorem Program.new_predecoded (code : List Byte) (codeBase : BitVec 32) (memCycles : Nat) :
    Predecoded (Program.new code codeBase memCycles) :=
  ⟨predecode_wellMarked code memCycles, memCycles, rfl⟩

variable {prog} {handler}

theorem restOfBlock_eq_cons (idx : prog.Idx) :
    restOfBlock prog idx = prog.fetch idx ::
      (prog.predecode.insts.drop (idx.val + 1)).takeWhile (fun j => !j.isGasBlockStart) := by
  unfold restOfBlock
  rw [List.drop_eq_getElem_cons idx.isLt]
  rfl

theorem restOfBlock_tail {idx : prog.Idx} (within : idx.val + 1 < prog.predecode.insts.length)
    (inside : (prog.fetch ⟨idx.val + 1, within⟩).isGasBlockStart = false) :
    (restOfBlock prog idx).tail = restOfBlock prog (idx.val + 1) := by
  rw [restOfBlock_eq_cons, restOfBlock_eq_cons ⟨idx.val + 1, within⟩, List.tail_cons,
    List.drop_eq_getElem_cons within]
  exact List.takeWhile_cons_of_pos (by simpa [Program.fetch] using inside)

theorem reserveSum_restOfBlock (idx : prog.Idx) :
    reserveSum (restOfBlock prog idx) =
      rvKindReserve (prog.fetch idx).gasMeta.kind
        + reserveSum (restOfBlock prog idx).tail := by
  rw [restOfBlock_eq_cons]
  simp [reserveSum]

/-- Dropping the current instruction keeps the rest of the block reserved. -/
theorem Reserved.tail {idx : prog.Idx} {s : ExecState Host}
    (reserved : Reserved (restOfBlock prog idx) s) :
    Reserved (restOfBlock prog idx).tail s := by
  have split := reserveSum_restOfBlock idx
  unfold Reserved at *
  omega

/-- Advancing leaves the execution ready when the instructions that follow are reserved. -/
theorem advance_safe {idx : prog.Idx} {s : ExecState Host} {gas : Nat} (spent : s.gas ≤ gas)
    (reserved : Reserved (restOfBlock prog idx).tail s) :
    (advance prog idx s).Safe prog idx gas := by
  unfold advance
  split
  · rename_i within
    refine ⟨spent, ?_⟩
    cases started : (prog.fetch ⟨idx.val + 1, within⟩).isGasBlockStart with
    | true => exact Or.inl rfl
    | false =>
      right
      rw [restOfBlock_tail within started] at reserved
      exact ⟨rfl, reserved⟩
  · exact spent

theorem jumpTo_safe {idx : prog.Idx} {s : ExecState Host} {gas : Nat} (target : BitVec 32)
    (spent : s.gas ≤ gas) : (jumpTo prog idx s target).Safe prog idx gas := by
  unfold jumpTo
  dsimp only
  split
  · split
    · rename_i started
      exact ⟨spent, Or.inl started⟩
    · exact spent
  · exact spent

/-- A store reserves two copies and every other instruction none. -/
theorem Predecoded.reserve_eq (predecoded : Predecoded prog) (idx : prog.Idx) :
    rvKindReserve (prog.fetch idx).gasMeta.kind =
      match (prog.fetch idx).inst with
      | .store .. => 512
      | _ => 0 := by
  have resolved : (prog.fetch idx).gasMeta = rvGasMeta (prog.fetch idx).inst :=
    predecoded.marked.resolved _ (List.get_mem _ _)
  rw [resolved, rvKindReserve_eq]
  cases (prog.fetch idx).inst <;> simp [rvGasMeta, rvOpMetadata]
  case opImm op _ _ _ => cases op <;> simp [ImmOp.kind]
  case shiftImm op _ _ _ => cases op <;> simp [ShiftImmOp.kind]
  case unary op _ _ => cases op <;> simp [UnaryOp.kind]
  case opReg op _ _ _ => cases op <;> simp [RegOp.kind]

/-- A first touch is paid from the reserve: it neither aborts nor leaves the rest unreserved. -/
theorem touch_reserved {idx : prog.Idx} {s : ExecState Host} {mem : CopyingMemory}
    {addr : BitVec 32} {width total : Nat} {isWrite : Bool}
    (touched : s.mem.touch addr width isWrite = some (mem, total))
    (reserved : Reserved (restOfBlock prog idx) s)
    (covered : isWrite = true → rvKindReserve (prog.fetch idx).gasMeta.kind = 512) :
    ∃ after, { s with mem }.charge total = some after ∧ after.gas ≤ s.gas ∧ after.mem = mem
      ∧ Reserved (restOfBlock prog idx).tail after := by
  have paid := CopyingMemory.touch_charge touched
  have parts := reserveSum_restOfBlock idx
  unfold Reserved at reserved
  -- The charge lies below both bounds of the reserve, so the balance covers it.
  have bounded : total ≤ rvKindReserve (prog.fetch idx).gasMeta.kind := by
    cases isWrite with
    | false => exact paid.2.trans (Nat.zero_le _)
    | true => simpa [covered rfl, cowCost, maxPagesPerAccess] using paid.2
  have affordable : total ≤ s.gas := by omega
  refine ⟨{ s with mem, gas := s.gas - total }, by simp [ExecState.charge, affordable], ?_, rfl, ?_⟩
  · exact Nat.sub_le _ _
  · unfold Reserved
    simp only
    omega

theorem execLoad_safe {idx : prog.Idx} {s : ExecState Host} (op : LoadOp) (rd rs1 : RegIdx)
    (imm : BitVec 32) (reserved : Reserved (restOfBlock prog idx) s) :
    (execLoad prog idx s op rd rs1 imm).Safe prog idx s.gas := by
  unfold execLoad
  dsimp only
  split
  · exact Nat.le_refl _
  · rename_i mem total touched
    obtain ⟨after, charged, spent, _, rest⟩ := touch_reserved touched reserved (by simp)
    rw [charged]
    dsimp only
    split
    · exact advance_safe spent rest
    · exact spent

theorem execStore_safe {idx : prog.Idx} {s : ExecState Host} (op : StoreOp) (rs1 rs2 : RegIdx)
    (imm : BitVec 32) (reserved : Reserved (restOfBlock prog idx) s)
    (covered : rvKindReserve (prog.fetch idx).gasMeta.kind = 512) :
    (execStore prog idx s op rs1 rs2 imm).Safe prog idx s.gas := by
  unfold execStore
  dsimp only
  split
  · exact Nat.le_refl _
  · rename_i mem total touched
    obtain ⟨after, charged, spent, _, rest⟩ := touch_reserved touched reserved fun _ => covered
    rw [charged]
    dsimp only
    split
    · split
      · rename_i written wrote
        -- Writing the bytes keeps the materialization state.
        refine advance_safe spent ?_
        have same : unwritten written = unwritten after.mem := by
          unfold CopyingMemory.writeLe at wrote
          dsimp only at wrote
          split at wrote
          · simp only [Option.some.injEq] at wrote
            rw [← wrote]
            rfl
          · simp at wrote
        unfold Reserved at rest ⊢
        rwa [same]
      · exact spent
    · exact spent

theorem ecall_resumes_at_start (marked : WellMarked prog.predecode.insts) {idx next : prog.Idx}
    (ends : isTerminator (prog.fetch idx).inst = true)
    (found : findIdxForPc prog.predecode.insts (prog.fetch idx).nextPc = some next) :
    (prog.fetch next).isGasBlockStart = true := by
  by_cases within : idx.val + 1 < prog.predecode.insts.length
  · have located : some _ = some next := (marked.findIdxForPc_nextPc within).symm.trans found
    cases located
    have rule : (prog.fetch ⟨idx.val + 1, within⟩).isGasBlockStart =
        (isTerminator (prog.fetch idx).inst || _) := (marked.follows within).2
    rw [rule, ends, Bool.true_or]
  · have absent : none = some next := (marked.findIdxForPc_end within).symm.trans found
    cases absent

/-- An environment call checks its charge and resumes at a block start. -/
theorem execEcall_safe (marked : WellMarked prog.predecode.insts) {idx : prog.Idx}
    {s : ExecState Host} (kind : EcallKind) (cost : Nat)
    (ends : isTerminator (prog.fetch idx).inst = true) :
    (execEcall prog handler idx s kind cost).Safe prog idx s.gas := by
  unfold execEcall
  dsimp only
  split
  · exact Nat.le_refl _
  · rename_i affordable
    have charged : s.charge cost = some { s with gas := s.gas - cost } := by
      simp [ExecState.charge, Nat.le_of_not_lt affordable]
    rw [charged]
    dsimp only
    split
    · split
      · rename_i next found
        exact ⟨Nat.sub_le _ _, Or.inl (ecall_resumes_at_start marked ends found)⟩
      · exact Nat.sub_le _ _
    · exact Nat.sub_le _ _

theorem execInst_safe (predecoded : Predecoded prog) {idx : prog.Idx} {s : ExecState Host}
    (reserved : Reserved (restOfBlock prog idx) s) :
    (execInst prog handler idx s).Safe prog idx s.gas := by
  have moved : ∀ gpr : Regs, (advance prog idx { s with gpr }).Safe prog idx s.gas :=
    fun gpr => advance_safe (Nat.le_refl _) reserved.tail
  have stays : (advance prog idx s).Safe prog idx s.gas := moved s.gpr
  have jumps : ∀ (gpr : Regs) target, (jumpTo prog idx { s with gpr } target).Safe prog idx s.gas :=
    fun gpr target => jumpTo_safe target (Nat.le_refl _)
  have stores := predecoded.reserve_eq idx
  unfold execInst
  dsimp only
  cases shape : (prog.fetch idx).inst with
  | load op rd rs1 imm => exact execLoad_safe op rd rs1 imm reserved
  | store op rs1 rs2 imm => exact execStore_safe op rs1 rs2 imm reserved (by simp [stores, shape])
  | branch op rs1 rs2 imm =>
    dsimp only
    split
    · exact jumps s.gpr _
    · exact stays
  | jal rd imm => exact jumps _ _
  | jalr rd rs1 imm => exact jumps _ _
  | ecallJar => exact execEcall_safe predecoded.marked _ _ (by rw [shape]; rfl)
  | ecalli imm => exact execEcall_safe predecoded.marked _ _ (by rw [shape]; rfl)
  | trap => exact Nat.le_refl _
  | reserved => exact Nat.le_refl _
  | fence => exact stays
  | fenceI => exact stays
  | fallthrough => exact stays
  | opImm op rd rs1 imm => exact moved _
  | shiftImm op rd rs1 shamt => exact moved _
  | unary op rd rs1 => exact moved _
  | opReg op rd rs1 rs2 => exact moved _
  | lui rd imm => exact moved _
  | auipc rd imm => exact moved _

/-- Whether an instruction starts a statically charged block, by its own flags. -/
theorem isStaticBlockStart_fetch (idx : prog.Idx) :
    isStaticBlockStart prog.predecode.insts idx =
      ((prog.fetch idx).isGasBlockStart && !isEcallBlock (prog.fetch idx).inst) := by
  unfold isStaticBlockStart
  rw [List.getElem?_eq_getElem idx.isLt]
  rfl

/-- Statically charged blocks have a positive cost and a reserve saturated at 32 bits. -/
theorem Predecoded.static_costs (predecoded : Predecoded prog) {idx : prog.Idx}
    (started : (prog.fetch idx).isGasBlockStart = true)
    (static : isEcallBlock (prog.fetch idx).inst = false) :
    0 < prog.predecode.blockCosts idx ∧
      prog.predecode.blockReserves idx = min (reserveSum (restOfBlock prog idx)) u32Max := by
  obtain ⟨memCycles, costed⟩ := predecoded.costed
  have charged : isStaticBlockStart prog.predecode.insts idx = true := by
    simp [isStaticBlockStart_fetch, started, static]
  have costs : prog.predecode.blockCosts = (computeBlockCosts _ memCycles).blockCosts :=
    congrArg Predecode.blockCosts costed
  have reserves : prog.predecode.blockReserves = (computeBlockCosts _ memCycles).blockReserves :=
    congrArg Predecode.blockReserves costed
  rw [costs, reserves]
  simp only [computeBlockCosts, charged, if_true]
  exact ⟨GasSimulator.flushAndGetCost_pos _, rfl⟩

theorem Predecoded.no_static_cost (predecoded : Predecoded prog) {idx : prog.Idx}
    (unstarted : (prog.fetch idx).isGasBlockStart = false
      ∨ isEcallBlock (prog.fetch idx).inst = true) :
    prog.predecode.blockCosts idx = 0 := by
  obtain ⟨memCycles, costed⟩ := predecoded.costed
  have free : isStaticBlockStart prog.predecode.insts idx = false := by
    rcases unstarted with outside | called
    · simp [isStaticBlockStart_fetch, outside]
    · simp [isStaticBlockStart_fetch, called]
  have costs : prog.predecode.blockCosts = (computeBlockCosts _ memCycles).blockCosts :=
    congrArg Predecode.blockCosts costed
  rw [costs]
  simp [computeBlockCosts, free]

theorem restOfBlock_ecall (marked : WellMarked prog.predecode.insts) {idx : prog.Idx}
    (ends : isTerminator (prog.fetch idx).inst = true) :
    (restOfBlock prog idx).tail = [] := by
  rw [restOfBlock_eq_cons, List.tail_cons]
  by_cases within : idx.val + 1 < prog.predecode.insts.length
  · have rule : (prog.predecode.insts[idx.val + 1]).isGasBlockStart =
        (isTerminator (prog.fetch idx).inst || _) := (marked.follows within).2
    rw [List.drop_eq_getElem_cons within]
    exact List.takeWhile_cons_of_neg (by simp [rule, ends])
  · rw [List.drop_eq_nil_of_le (Nat.le_of_not_lt within), List.takeWhile_nil]

theorem isTerminator_of_isEcallBlock {inst : Inst} (called : isEcallBlock inst = true) :
    isTerminator inst = true := by
  cases inst <;> first | rfl | cases called

theorem Predecoded.ecall_reserved (predecoded : Predecoded prog) {idx : prog.Idx}
    (called : isEcallBlock (prog.fetch idx).inst = true) (s : ExecState Host) :
    Reserved (restOfBlock prog idx) s := by
  have alone := restOfBlock_ecall predecoded.marked (isTerminator_of_isEcallBlock called)
  have parts := reserveSum_restOfBlock idx
  have own : rvKindReserve (prog.fetch idx).gasMeta.kind = 0 := by
    rw [predecoded.reserve_eq idx]
    cases shape : (prog.fetch idx).inst <;> simp [shape, isEcallBlock] at called ⊢
  have total : reserveSum (restOfBlock prog idx) = 0 := by
    rw [parts, own, alone]
    rfl
  unfold Reserved
  omega

/-- The gate deducts exactly the static cost and reserves the block, or reports out of gas. -/
theorem gate_spec (predecoded : Predecoded prog) {idx : prog.Idx} {s : ExecState Host}
    (ready : Ready prog idx s) :
    (∃ after, gate prog idx s = .next () after
        ∧ after.gas + prog.predecode.blockCosts idx = s.gas
        ∧ Reserved (restOfBlock prog idx) after)
      ∨ gate prog idx s = .exit .outOfGas { s with pc := (prog.fetch idx).pc } := by
  unfold gate
  dsimp only
  cases started : (prog.fetch idx).isGasBlockStart with
  | false =>
    -- Within a block nothing is charged and the reserve carries over.
    left
    have free := predecoded.no_static_cost (Or.inl started)
    refine ⟨s, by simp, by omega, ?_⟩
    rcases ready with start | reserved
    · simp [started] at start
    · exact reserved
  | true =>
    cases called : isEcallBlock (prog.fetch idx).inst with
    | true =>
      left
      have free := predecoded.no_static_cost (Or.inr called)
      exact ⟨s, by simp [free], by omega, predecoded.ecall_reserved called s⟩
    | false =>
      obtain ⟨positive, reserve_eq⟩ := predecoded.static_costs started called
      by_cases short : s.gas < prog.predecode.blockCosts idx + prog.predecode.blockReserves idx
      · right
        simp [short, Nat.ne_of_gt positive]
      · left
        refine ⟨{ s with gas := s.gas - prog.predecode.blockCosts idx }, ?_, ?_, ?_⟩
        · have affordable : prog.predecode.blockCosts idx ≤ s.gas := by omega
          simp [short, Nat.ne_of_gt positive, ExecState.charge, affordable]
        · simp only
          omega
        · -- All pages together cost less than a saturated reserve.
          have pages := unwritten_le s.mem
          unfold Reserved
          simp only [cowCost, pageCount, u32Max] at *
          omega

theorem gate_frame {idx : prog.Idx} {s after : ExecState Host}
    (passed : gate prog idx s = .next () after) : after = { s with gas := after.gas } := by
  unfold gate at passed
  dsimp only at passed
  split at passed
  · split at passed
    · cases passed
    · unfold ExecState.charge at passed
      split at passed
      · cases passed
      · next charged =>
        split at charged
        · cases charged
          cases passed
          rfl
        · cases charged
  · cases passed
    rfl

theorem step_safe (predecoded : Predecoded prog) {idx : prog.Idx} {s : ExecState Host}
    (ready : Ready prog idx s) : (step prog handler idx s).Safe prog idx s.gas := by
  unfold step
  rcases gate_spec predecoded ready with ⟨after, passed, paid, reserved⟩ | refused
  · rw [passed]
    exact (execInst_safe predecoded reserved).mono (by omega)
  · rw [refused]
    exact Nat.le_refl _

/-- A step that goes on passed its gate, and went to a block start or to the next instruction. -/
theorem step_next (predecoded : Predecoded prog) {idx target : prog.Idx}
    {s s' : ExecState Host} (ready : Ready prog idx s)
    (stepped : step prog handler idx s = .next target s') :
    s'.gas ≤ s.gas ∧ Ready prog target s' ∧ (∃ after, gate prog idx s = .next () after)
      ∧ ((prog.fetch target).isGasBlockStart = true ∨ target.val = idx.val + 1) := by
  have safe : (step prog handler idx s).Safe prog idx s.gas := step_safe predecoded ready
  rw [stepped] at safe
  refine ⟨safe.1, safe.2.imp_right And.right, ?_, safe.2.imp_right And.left⟩
  unfold step at stepped
  cases passed : gate prog idx s with
  | next _ after => exact ⟨after, rfl⟩
  | exit reason after => simp [passed] at stepped
  | abort => simp [passed] at stepped

/-- A fresh entry is at a block start with the state it was given. -/
theorem enter_config {s s' : ExecState Host} {idx : prog.Idx}
    (entered : (enter prog s).config? = some (idx, s')) :
    s' = s ∧ (prog.fetch idx).isGasBlockStart = true := by
  unfold enter at entered
  split at entered
  · split at entered
    · rename_i started
      simp only [Outcome.config?, Option.some.injEq, Prod.mk.injEq] at entered
      obtain ⟨rfl, rfl⟩ := entered
      exact ⟨rfl, started⟩
    · simp [Outcome.config?] at entered
  · simp [Outcome.config?] at entered

theorem Outcome.config?_eq_some {Idx : Type} {outcome : Outcome Idx Host} {idx : Idx}
    {s : ExecState Host} (goes : outcome.config? = some (idx, s)) : outcome = .next idx s := by
  cases outcome with
  | next target after =>
    simp only [Outcome.config?, Option.some.injEq, Prod.mk.injEq] at goes
    rw [goes.1, goes.2]
  | exit reason after => simp [Outcome.config?] at goes
  | abort => simp [Outcome.config?] at goes

/-- Every point of a run is ready, and the gas never grows along it. -/
theorem runConfig_ready (predecoded : Predecoded prog) {s0 : ExecState Host} {n : Nat}
    {c : Config prog Host} (reached : runConfig prog handler s0 n = some c) :
    Ready prog c.1 c.2 ∧ ∀ m, m ≤ n → ∀ d, runConfig prog handler s0 m = some d →
      c.2.gas ≤ d.2.gas := by
  unfold runConfig at *
  obtain ⟨⟨start, s⟩, entered, ran⟩ := Option.bind_eq_some_iff.mp reached
  obtain ⟨rfl, started⟩ := enter_config entered
  let I (c : Config prog Host) : Prop := Ready prog c.1 c.2
  have initial : I (start, s) := Or.inl started
  have preserved : ∀ u t : Config prog Host, I u →
      (step prog handler u.1 u.2).config? = some t → I t := by
    intro u t ready goes
    exact (step_next predecoded ready (Outcome.config?_eq_some goes)).2.1
  refine ⟨Transition.runFor_invariant initial preserved ran, fun m ordered d before => ?_⟩
  rw [entered] at before
  refine Transition.runFor_antitone (f := fun c : Config prog Host => c.2.gas) initial
    preserved ?_ before ran ordered
  intro u t ready goes
  exact (step_next predecoded ready (Outcome.config?_eq_some goes)).1

/-- Every executed instruction lies in a block that was entered through its gate, whose static
cost was deducted there, with only sequential steps in between. -/
theorem executed_in_paid_block (predecoded : Predecoded prog) {s0 : ExecState Host} {n : Nat}
    {idx : prog.Idx} {s after : ExecState Host}
    (reached : runConfig prog handler s0 n = some (idx, s))
    (passed : gate prog idx s = .next () after) :
    ∃ m ≤ n, ∃ first sb paid, runConfig prog handler s0 m = some (first, sb)
      ∧ (prog.fetch first).isGasBlockStart = true
      ∧ gate prog first sb = .next () paid
      ∧ paid.gas + prog.predecode.blockCosts first = sb.gas
      ∧ idx.val = first.val + (n - m)
      ∧ ∀ j : prog.Idx, first < j → j ≤ idx → (prog.fetch j).isGasBlockStart = false := by
  induction n generalizing idx s after with
  | zero =>
    have ready := (runConfig_ready predecoded reached).1
    obtain ⟨⟨start, s1⟩, entered, ran⟩ := Option.bind_eq_some_iff.mp reached
    obtain ⟨rfl, started⟩ := enter_config entered
    cases ran
    refine ⟨0, Nat.le_refl 0, idx, s, after, reached, started, passed, ?_, by simp, ?_⟩
    · rcases gate_spec predecoded ready with ⟨paid, opened, deducted, _⟩ | refused
      · cases passed.symm.trans opened
        exact deducted
      · cases passed.symm.trans refused
    · intro j above below
      exact absurd (lt_of_lt_of_le above below) (lt_irrefl _)
  | succ n ih =>
    have ready := (runConfig_ready predecoded reached).1
    cases started : (prog.fetch idx).isGasBlockStart with
    | true =>
      refine ⟨n + 1, Nat.le_refl _, idx, s, after, reached, started, passed, ?_, by simp, ?_⟩
      · rcases gate_spec predecoded ready with ⟨paid, opened, deducted, _⟩ | refused
        · cases passed.symm.trans opened
          exact deducted
        · cases passed.symm.trans refused
      · intro j above below
        exact absurd (lt_of_lt_of_le above below) (lt_irrefl _)
    | false =>
      -- The instruction before it was executed in the same block.
      obtain ⟨⟨start, s1⟩, entered, ran⟩ := Option.bind_eq_some_iff.mp reached
      obtain ⟨⟨before, sb⟩, ranBefore, goes⟩ := Transition.runFor_succ_eq_some.mp ran
      have reachedBefore : runConfig prog handler s0 n = some (before, sb) :=
        Option.bind_eq_some_iff.mpr ⟨_, entered, ranBefore⟩
      have readyBefore := (runConfig_ready predecoded reachedBefore).1
      obtain ⟨_, _, ⟨opened, gateBefore⟩, place⟩ :=
        step_next predecoded readyBefore (Outcome.config?_eq_some goes)
      have sequential : idx.val = before.val + 1 := by
        rcases place with start | sequential
        · exact absurd (started.symm.trans start) (by simp)
        · exact sequential
      obtain ⟨m, earlier, first, entry, paid, atEntry, entryStart, entryGate, deducted, distance,
        inside⟩ := ih reachedBefore gateBefore
      refine ⟨m, by omega, first, entry, paid, atEntry, entryStart, entryGate, deducted,
        by omega, ?_⟩
      intro j above below
      rcases Nat.lt_or_ge before.val j.val with last | within
      · have same : j = idx := Fin.ext (by have : j.val ≤ idx.val := below; omega)
        rw [same, started]
      · exact inside j above within

/-- The gas left by an outcome that reports a state. -/
def Outcome.gas? {Idx : Type} : Outcome Idx Host → Option Nat
  | .next _ s => some s.gas
  | .exit _ s => some s.gas
  | .abort => none

/-- The dynamic cost of an environment call. -/
def ecallCost : Inst → Nat
  | .ecalli _ => ecallDynamicCost true
  | _ => ecallDynamicCost false

/-- An environment call is refused untouched, or deducts its full cost before the handler runs. -/
theorem execInst_ecall {idx : prog.Idx} {s : ExecState Host}
    (called : isEcallBlock (prog.fetch idx).inst = true) :
    execInst prog handler idx s = .exit .outOfGas { s with pc := (prog.fetch idx).pc }
      ∨ ecallCost (prog.fetch idx).inst ≤ s.gas
        ∧ (execInst prog handler idx s).gas? = some (s.gas - ecallCost (prog.fetch idx).inst) := by
  have charged : ∀ kind cost,
      execEcall prog handler idx s kind cost = .exit .outOfGas { s with pc := (prog.fetch idx).pc }
      ∨ cost ≤ s.gas ∧ (execEcall prog handler idx s kind cost).gas? = some (s.gas - cost) := by
    intro kind cost
    unfold execEcall
    dsimp only
    by_cases short : s.gas < cost
    · left
      simp [short]
    · right
      refine ⟨Nat.le_of_not_lt short, ?_⟩
      simp only [short, if_false, ExecState.charge, Nat.le_of_not_lt short, if_true]
      split
      · split <;> rfl
      · rfl
  unfold execInst
  dsimp only
  cases shape : (prog.fetch idx).inst <;> simp only [shape, isEcallBlock] at called ⊢
  case ecallJar => exact charged _ _
  case ecalli imm => exact charged _ _
  all_goals cases called

end

/-- Gas safety of the interpreter: at every point of every run the step does not abort, the gas
has not grown, a store's copies are covered by the balance after the gate, and the instruction
lies in a block whose cost was deducted when the block was entered. -/
theorem interpreter_gas_safety {Host : Type} (code : List Byte) (codeBase : BitVec 32)
    (memCycles : Nat) (handler : EcallHandler Host) (s0 : ExecState Host) (n : Nat)
    (idx : (Program.new code codeBase memCycles).Idx) (s : ExecState Host)
    (reached : runConfig (Program.new code codeBase memCycles) handler s0 n = some (idx, s)) :
    let prog := Program.new code codeBase memCycles
    step prog handler idx s ≠ .abort
      ∧ (∀ m ≤ n, ∀ c, runConfig prog handler s0 m = some c → s.gas ≤ c.2.gas)
      ∧ (∀ reason s', step prog handler idx s = .exit reason s' → s'.gas ≤ s.gas)
      ∧ ∀ after, gate prog idx s = .next () after →
        (∀ op rs1 rs2 imm mem total, (prog.fetch idx).inst = .store op rs1 rs2 imm →
          after.mem.touch (computeAddr after.gpr rs1 imm) op.width true = some (mem, total) →
          total ≤ after.gas)
        ∧ (isEcallBlock (prog.fetch idx).inst = true →
          execInst prog handler idx after
              = .exit .outOfGas { after with pc := (prog.fetch idx).pc }
            ∨ ecallCost (prog.fetch idx).inst ≤ after.gas
              ∧ (execInst prog handler idx after).gas?
                = some (after.gas - ecallCost (prog.fetch idx).inst))
        ∧ ∃ m ≤ n, ∃ first sb paid, runConfig prog handler s0 m = some (first, sb)
          ∧ (prog.fetch first).isGasBlockStart = true
          ∧ gate prog first sb = .next () paid
          ∧ paid.gas + prog.predecode.blockCosts first = sb.gas
          ∧ idx.val = first.val + (n - m)
          ∧ ∀ j : prog.Idx, first < j → j ≤ idx → (prog.fetch j).isGasBlockStart = false := by
  intro prog
  have predecoded : Predecoded prog := Program.new_predecoded code codeBase memCycles
  obtain ⟨ready, shrinking⟩ := runConfig_ready predecoded reached
  have safe : (step prog handler idx s).Safe prog idx s.gas := step_safe predecoded ready
  refine ⟨?_, shrinking, ?_, ?_⟩
  · intro aborted
    rw [aborted] at safe
    exact safe
  · intro reason s' exited
    rw [exited] at safe
    exact safe
  · intro after passed
    refine ⟨?_, execInst_ecall, executed_in_paid_block predecoded reached passed⟩
    intro op rs1 rs2 imm mem total shape touched
    rcases gate_spec predecoded ready with ⟨opened, opens, _, reserved⟩ | refused
    · cases passed.symm.trans opens
      have own := predecoded.reserve_eq idx
      rw [shape] at own
      obtain ⟨paid, charged, _⟩ := touch_reserved touched reserved fun _ => own
      unfold ExecState.charge at charged
      split at charged
      · assumption
      · cases charged
    · cases passed.symm.trans refused

/-- The program `sd x0, 0(x5)` followed by a trap. -/
def storeThenTrap : List Byte := [0x23, 0xB0, 0x02, 0x00, 0x0B, 0x00, 0x00, 0x00]

/-- A memory of one writable page that nothing has touched. -/
def oneRwPage : CopyingMemory where
  base := 0
  flatLen := 4096
  flatMem _ := 0
  perms i := if i = 0 then .rw else .none
  matState _ := .notPresent
  codeBase := 0
  codeTop := 0

def idleHandler : EcallHandler Unit := fun _ gpr pc mem host => (.resume, gpr, pc, mem, host)

/-- The state of a fresh invocation with zero registers and a given balance. -/
def freshState (gas : Nat) : ExecState Unit := ⟨fun _ => 0, 0, gas, oneRwPage, ()⟩

/-- The first store of a program pays its copy from the balance that its gate left. -/
theorem interpreter_gas_safety_store :
    ∃ after mem, gate (Program.new storeThenTrap 0 25) ⟨0, by decide⟩ (freshState 1000)
        = .next () after
      ∧ after.mem.touch 0 8 true = some (mem, 256) ∧ 256 ≤ after.gas := by
  refine ⟨{ freshState 1000 with gas := 978 }, _, rfl, rfl, ?_⟩
  have safety := interpreter_gas_safety storeThenTrap 0 25 idleHandler (freshState 1000) 0
    ⟨0, by decide⟩ (freshState 1000) rfl
  exact (safety.2.2.2 _ rfl).1 .sd 5 0 0 _ 256 rfl rfl

end Jar
