import Jar.Exec.Loop
import Jar.Proofs.GasSafety

/-! The interpreter's loop stays within the program and only transfers control to block starts. -/

namespace Jar

/-! ## The wrapping walk -/

theorem exists_decode {bytes : List Byte} (enough : 4 ≤ bytes.length) :
    ∃ inst len, decode bytes = some (inst, len) := by
  match bytes, enough with
  | b0 :: b1 :: b2 :: b3 :: rest, _ =>
    by_cases short : b0.extractLsb' 0 2 ≠ 0b11#2
    · exact ⟨_, _, if_pos short⟩
    · exact ⟨_, _, if_neg short⟩

def walkNext (code : List Byte) (pc : Nat) : Option Nat :=
  (decode (code.drop pc)).map fun decoded => (pc + decoded.2) % 2 ^ 32

section

variable {code : List Byte}

/-- One round of the walk; past the code there is nothing to decode. -/
theorem decodeWalk_succ (fuel pc : Nat) :
    decodeWalk code (fuel + 1) pc =
      match decode (code.drop pc) with
      | none => some []
      | some (inst, len) =>
        (decodeWalk code fuel ((pc + len) % 2 ^ 32)).map
          (⟨inst, pc % 2 ^ 32, (pc + len) % 2 ^ 32, false, rvGasMeta inst⟩ :: ·) := by
  rw [decodeWalk]
  split
  · rfl
  next past =>
    rw [List.drop_eq_nil_of_le (Nat.le_of_not_lt past)]
    rfl

theorem decodeWalk_next {fuel pc pc' : Nat} (returned : (decodeWalk code fuel pc).isSome = true)
    (next : walkNext code pc = some pc') :
    ∃ rest, fuel = rest + 1 ∧ (decodeWalk code rest pc').isSome = true := by
  obtain ⟨⟨inst, len⟩, decoded, rfl⟩ := Option.map_eq_some_iff.mp next
  cases fuel with
  | zero => cases returned
  | succ rest =>
    refine ⟨rest, rfl, ?_⟩
    simpa [decodeWalk_succ, decoded] using returned

/-- A walk that returns has spent one round on each offset before a later one. -/
theorem decodeWalk_later {fuel pc pc' k : Nat} (returned : (decodeWalk code fuel pc).isSome = true)
    (ran : Transition.runFor (walkNext code) k pc = some pc') :
    ∃ rest, fuel = rest + k ∧ (decodeWalk code rest pc').isSome = true := by
  induction k generalizing pc' with
  | zero =>
    cases ran
    exact ⟨fuel, rfl, returned⟩
  | succ k ih =>
    obtain ⟨mid, before, next⟩ := Transition.runFor_succ_eq_some.mp ran
    obtain ⟨rest, rfl, here⟩ := ih before
    obtain ⟨rest', rfl, there⟩ := decodeWalk_next here next
    exact ⟨rest', by omega, there⟩

/-- A walk that comes back to its start never returns. -/
theorem decodeWalk_back {pc k : Nat} (again : Transition.runFor (walkNext code) (k + 1) pc = some pc)
    (fuel : Nat) : ¬ (decodeWalk code fuel pc).isSome = true := by
  induction fuel using Nat.strongRecOn with
  | ind fuel ih =>
    intro returned
    obtain ⟨rest, rfl, there⟩ := decodeWalk_later returned again
    exact ih rest (by omega) there

/-- The walk of a code section that exceeds the 32-bit offsets by an instruction never returns. -/
theorem decodeWalk_long (long : 2 ^ 32 + 2 ≤ code.length) (fuel : Nat) {pc : Nat}
    (even : pc % 2 = 0) (small : pc < 2 ^ 32) : ¬ (decodeWalk code fuel pc).isSome = true := by
  induction fuel generalizing pc with
  | zero => simp [decodeWalk]
  | succ fuel ih =>
    have whole : 4 ≤ (code.drop pc).length := by
      rw [List.length_drop]
      omega
    obtain ⟨inst, len, decoded⟩ := exists_decode whole
    have lengths := (decode_length decoded).1
    have later := @ih ((pc + len) % 2 ^ 32) (by omega) (by omega)
    rw [decodeWalk_succ, decoded]
    rwa [Option.isSome_map]

theorem walk_even {pc k : Nat} (ran : Transition.runFor (walkNext code) k 0 = some pc) :
    pc % 2 = 0 ∧ pc < 2 ^ 32 := by
  refine Transition.runFor_invariant (I := fun pc => pc % 2 = 0 ∧ pc < 2 ^ 32) (by decide) ?_ ran
  rintro pc pc' ⟨even, small⟩ next
  obtain ⟨⟨inst, len⟩, decoded, rfl⟩ := Option.map_eq_some_iff.mp next
  have lengths := (decode_length decoded).1
  dsimp only
  omega

theorem walk_fits {fuel pc k len : Nat} {inst : Inst}
    (returned : (decodeWalk code fuel 0).isSome = true)
    (ran : Transition.runFor (walkNext code) k 0 = some pc)
    (decoded : decode (code.drop pc) = some (inst, len)) : pc + len < 2 ^ 32 := by
  obtain ⟨even, small⟩ := walk_even ran
  obtain ⟨lengths, within⟩ := decode_length decoded
  rw [List.length_drop] at within
  by_contra wraps
  by_cases long : 2 ^ 32 + 2 ≤ code.length
  · exact decodeWalk_long long fuel (by decide) (by decide) returned
  · -- A shorter code section wraps to offset zero exactly, and the walk starts over.
    have wrapped : (pc + len) % 2 ^ 32 = 0 := by omega
    have back : Transition.runFor (walkNext code) (k + 1) 0 = some 0 := by
      refine Transition.runFor_succ_eq_some.mpr ⟨pc, ran, ?_⟩
      rw [walkNext, decoded, Option.map_some, wrapped]
    exact decodeWalk_back back fuel returned

/-- A walk that returns yields the instructions at their true offsets. -/
theorem decodeWalk_eq {fuel rest pc k : Nat} {insts : List RvPreDecodedInst}
    (returned : (decodeWalk code fuel 0).isSome = true)
    (ran : Transition.runFor (walkNext code) k 0 = some pc)
    (walked : decodeWalk code rest pc = some insts) :
    insts = instructions pc (code.drop pc) := by
  induction rest generalizing pc k insts with
  | zero => cases walked
  | succ rest ih =>
    rw [decodeWalk_succ] at walked
    cases decoded : decode (code.drop pc) with
    | none =>
      rw [decoded] at walked
      cases walked
      exact (instructions_of_decode_none decoded pc).symm
    | some result =>
      obtain ⟨inst, len⟩ := result
      rw [decoded] at walked
      obtain ⟨later, walkedLater, rfl⟩ := Option.map_eq_some_iff.mp walked
      have fits := walk_fits returned ran decoded
      have unwrapped : (pc + len) % 2 ^ 32 = pc + len := Nat.mod_eq_of_lt fits
      have here : pc % 2 ^ 32 = pc := Nat.mod_eq_of_lt (walk_even ran).2
      have ranLater : Transition.runFor (walkNext code) (k + 1) 0 = some (pc + len) := by
        refine Transition.runFor_succ_eq_some.mpr ⟨pc, ran, ?_⟩
        rw [walkNext, decoded, Option.map_some, unwrapped]
      rw [unwrapped] at walkedLater ⊢
      rw [instructions_of_decode decoded, List.drop_drop, here, ih ranLater walkedLater]

/-- Where the walk returns, the program is that of the unbounded offsets. -/
theorem ofWalk_eq_new {fuel : Nat} {insts : List RvPreDecodedInst}
    (walked : decodeWalk code fuel 0 = some insts) (codeBase : BitVec 32) (memCycles : Nat) :
    Program.ofWalk insts code codeBase memCycles = Program.new code codeBase memCycles := by
  have returned : (decodeWalk code fuel 0).isSome = true := Option.isSome_of_eq_some walked
  rw [decodeWalk_eq returned (Transition.runFor_zero 0) walked]
  rfl

end

/-! ## The search -/

section

variable {insts : List RvPreDecodedInst} (marked : WellMarked insts)
include marked

theorem WellMarked.sorted : (insts.map (·.pc)).Pairwise (· < ·) := by
  rw [List.pairwise_map]
  exact List.pairwise_iff_getElem.mpr fun i j _ inside ordered => marked.pc_lt ordered inside

theorem WellMarked.searchIdxForPc_eq_some_iff {pc i : Nat} :
    searchIdxForPc insts pc = some i ↔ (insts[i]?).map (·.pc) = some pc := by
  rw [searchIdxForPc, BinarySearch.search_eq_some_iff marked.sorted, List.getElem?_map]

/-- The search finds what the linear lookup finds. -/
theorem WellMarked.searchIdxForPc_eq (pc : Nat) :
    searchIdxForPc insts pc = (findIdxForPc insts pc).map Fin.val := by
  cases found : findIdxForPc insts pc with
  | some i =>
    refine marked.searchIdxForPc_eq_some_iff.mpr ?_
    rw [List.getElem?_eq_getElem i.isLt, Option.map_some]
    exact congrArg some (findIdxForPc_pc found)
  | none =>
    refine Option.eq_none_iff_forall_ne_some.mpr fun i searched => ?_
    obtain ⟨inst, read, offset⟩ :=
      Option.map_eq_some_iff.mp (marked.searchIdxForPc_eq_some_iff.mp searched)
    obtain ⟨inside, rfl⟩ := List.getElem?_eq_some_iff.mp read
    have located := marked.findIdxForPc_eq ⟨i, inside⟩
    rw [List.get_eq_getElem, offset, found] at located
    cases located

theorem WellMarked.blockStartForPc_eq (pc : Nat) :
    blockStartForPc insts pc =
      ((findIdxForPc insts pc).filter fun i => (insts.get i).isGasBlockStart).map Fin.val := by
  rw [blockStartForPc, marked.searchIdxForPc_eq]
  cases findIdxForPc insts pc with
  | none => rfl
  | some i =>
    rw [Option.map_some, Option.filter_some, Option.filter_some,
      List.getElem?_eq_getElem i.isLt, Option.any_some, ← List.get_eq_getElem]
    split <;> rfl

end

/-! ## The loop refines the step function -/

section

variable {Host : Type} {prog : Program} {handler : EcallHandler Host}

def Outcome.bare : Outcome prog.Idx Host → Outcome Nat Host
  | .next i s => .next i.val s
  | .exit reason s => .exit reason s
  | .abort => .abort

theorem getElem?_idx (idx : prog.Idx) : prog.predecode.insts[idx.val]? = some (prog.fetch idx) :=
  List.getElem?_eq_getElem idx.isLt

/-- An iteration without a transfer ends as the step function advances. -/
theorem moveOn_goOn (idx : prog.Idx) (s : ExecState Host) :
    (Action.goOn none s).moveOn prog idx = (advance prog idx s).bare := by
  unfold advance
  by_cases more : idx.val + 1 < prog.predecode.insts.length
  · rw [dif_pos more]
    exact if_neg (Nat.not_le_of_lt more)
  · rw [dif_neg more]
    refine (if_pos (Nat.le_of_not_lt more)).trans ?_
    rw [getElem?_idx]
    rfl

theorem moveOn_load (idx : prog.Idx) (s : ExecState Host) (op : LoadOp) (rd rs1 : RegIdx)
    (imm : BitVec 32) :
    (loadAction prog (prog.fetch idx) s op rd rs1 imm).moveOn prog idx =
      (execLoad prog idx s op rd rs1 imm).bare := by
  unfold loadAction execLoad
  dsimp only
  cases s.mem.touch (computeAddr s.gpr rs1 imm) op.width false with
  | none => rfl
  | some touched =>
    dsimp only
    cases ExecState.charge { s with mem := touched.1 } touched.2 with
    | none => rfl
    | some paid =>
      dsimp only
      cases loadValue prog paid.mem (computeAddr s.gpr rs1 imm) op.width with
      | none => rfl
      | some value => exact moveOn_goOn idx _

theorem moveOn_store (idx : prog.Idx) (s : ExecState Host) (op : StoreOp) (rs1 rs2 : RegIdx)
    (imm : BitVec 32) :
    (storeAction (prog.fetch idx) s op rs1 rs2 imm).moveOn prog idx =
      (execStore prog idx s op rs1 rs2 imm).bare := by
  unfold storeAction execStore
  dsimp only
  cases s.mem.touch (computeAddr s.gpr rs1 imm) op.width true with
  | none => rfl
  | some touched =>
    dsimp only
    cases ExecState.charge { s with mem := touched.1 } touched.2 with
    | none => rfl
    | some paid =>
      dsimp only
      by_cases writable : storeWritable paid.mem (computeAddr s.gpr rs1 imm) op.width = true
      · rw [if_pos writable, if_pos writable]
        cases paid.mem.writeLe (computeAddr s.gpr rs1 imm) op.width (regRead paid.gpr rs2) with
        | none => rfl
        | some mem => exact moveOn_goOn idx _
      · rw [if_neg writable, if_neg writable]
        rfl

variable (marked : WellMarked prog.predecode.insts)
include marked

theorem moveOn_jump (idx : prog.Idx) (s : ExecState Host) (target : BitVec 32) :
    (jumpAction prog (prog.fetch idx) s target).moveOn prog idx =
      (jumpTo prog idx s target).bare := by
  unfold jumpAction jumpTo
  rw [marked.blockStartForPc_eq]
  cases findIdxForPc prog.predecode.insts target.toNat with
  | none => rfl
  | some i =>
    rw [Option.filter_some]
    by_cases started : (prog.fetch i).isGasBlockStart = true
    · have read : (prog.predecode.insts.get i).isGasBlockStart = true := started
      simp only [read, started, if_true, Option.map_some]
      rfl
    · have read : ¬ (prog.predecode.insts.get i).isGasBlockStart = true := started
      simp only [read, started]
      rfl

/-- An environment call ends an iteration as the step function does. -/
theorem moveOn_ecall (idx : prog.Idx) (s : ExecState Host) (kind : EcallKind) (cost : Nat) :
    (ecallAction prog handler (prog.fetch idx) s kind cost).moveOn prog idx =
      (execEcall prog handler idx s kind cost).bare := by
  unfold ecallAction execEcall
  rw [marked.searchIdxForPc_eq]
  dsimp only
  by_cases short : s.gas < cost
  · rw [if_pos short, if_pos short]
    rfl
  · rw [if_neg short, if_neg short]
    cases s.charge cost with
    | none => rfl
    | some paid =>
      dsimp only
      cases (handler kind paid.gpr (prog.fetch idx).nextPc paid.mem paid.host).1 with
      | exit reason => rfl
      | resume => cases findIdxForPc prog.predecode.insts (prog.fetch idx).nextPc <;> rfl

/-- Every arm ends an iteration as the step function does. -/
theorem moveOn_inst (idx : prog.Idx) (s : ExecState Host) :
    (instAction prog handler (prog.fetch idx) s).moveOn prog idx =
      (execInst prog handler idx s).bare := by
  unfold instAction execInst
  dsimp only
  cases (prog.fetch idx).inst with
  | load op rd rs1 imm => exact moveOn_load idx s op rd rs1 imm
  | store op rs1 rs2 imm => exact moveOn_store idx s op rs1 rs2 imm
  | jal rd imm => exact moveOn_jump marked idx _ _
  | jalr rd rs1 imm => exact moveOn_jump marked idx _ _
  | branch op rs1 rs2 imm =>
    dsimp only
    by_cases taken : op.taken (regRead s.gpr rs1) (regRead s.gpr rs2) = true
    · rw [if_pos taken, if_pos taken]
      exact moveOn_jump marked idx _ _
    · rw [if_neg taken, if_neg taken]
      exact moveOn_goOn idx _
  | ecallJar => exact moveOn_ecall marked idx s _ _
  | ecalli imm => exact moveOn_ecall marked idx s _ _
  | trap => rfl
  | reserved => rfl
  | _ => exact moveOn_goOn idx _

theorem loopStep_eq (idx : prog.Idx) (s : ExecState Host) :
    loopStep prog handler idx s = some (step prog handler idx s).bare := by
  unfold loopStep loopAction step gateAction gate
  rw [getElem?_idx, Option.map_some, Option.map_some]
  congr 1
  dsimp only
  by_cases gated : (prog.fetch idx).isGasBlockStart = true ∧ prog.predecode.blockCosts idx ≠ 0
  · rw [if_pos gated, if_pos gated]
    by_cases short : s.gas < prog.predecode.blockCosts idx + prog.predecode.blockReserves idx
    · rw [if_pos short, if_pos short]
      rfl
    · rw [if_neg short, if_neg short]
      cases s.charge (prog.predecode.blockCosts idx) with
      | none => rfl
      | some paid => exact moveOn_inst marked idx paid
  · rw [if_neg gated, if_neg gated]
    exact moveOn_inst marked idx s

theorem loopEnter_eq (s : ExecState Host) : loopEnter prog s = (enter prog s).bare := by
  unfold loopEnter enter
  rw [marked.blockStartForPc_eq]
  cases findIdxForPc prog.predecode.insts (s.pc % 2 ^ 32) with
  | none => rfl
  | some i =>
    rw [Option.filter_some]
    by_cases started : (prog.fetch i).isGasBlockStart = true
    · have read : (prog.predecode.insts.get i).isGasBlockStart = true := started
      simp only [read, started, if_true, Option.map_some]
      rfl
    · have read : ¬ (prog.predecode.insts.get i).isGasBlockStart = true := started
      simp only [read, started]
      rfl

omit marked in
theorem config?_bare (o : Outcome prog.Idx Host) :
    o.bare.config? = o.config?.map fun c => (c.1.val, c.2) := by
  cases o <;> rfl

/-- The loop reaches what the step function reaches. -/
theorem loopConfig_eq (s : ExecState Host) (n : Nat) :
    loopConfig prog handler s n =
      (runConfig prog handler s n).map fun c => (c.1.val, c.2) := by
  have steps (c : Config prog Host) :
      (loopStep prog handler c.1 c.2).bind Outcome.config? =
        (step prog handler c.1 c.2).config?.map fun c => (c.1.val, c.2) := by
    rw [loopStep_eq marked, Option.bind_some, config?_bare]
  unfold loopConfig runConfig
  rw [loopEnter_eq marked, config?_bare, Option.bind_map, Option.map_bind]
  exact congrArg _ (funext (Transition.runFor_map (fun c : Config prog Host => (c.1.val, c.2)) steps n))

/-! ## Transfers of control -/

omit marked in
theorem started_of_blockStartForPc {insts : List RvPreDecodedInst} {pc i : Nat}
    (found : blockStartForPc insts pc = some i) :
    insts[i]?.any (·.isGasBlockStart) = true :=
  (Option.filter_eq_some_iff.mp found).2

/-- The instruction after an environment call starts a block, which the loop does not check. -/
theorem ecallAction_started {idx : prog.Idx} {s s' : ExecState Host} {kind : EcallKind} {cost i : Nat}
    (ends : isTerminator (prog.fetch idx).inst = true)
    (acts : ecallAction prog handler (prog.fetch idx) s kind cost = .goOn (some i) s') :
    prog.predecode.insts[i]?.any (·.isGasBlockStart) = true := by
  unfold ecallAction at acts
  split at acts
  · cases acts
  · cases charged : s.charge cost with
    | none => simp [charged] at acts
    | some paid =>
      simp only [charged] at acts
      split at acts
      · cases found : findIdxForPc prog.predecode.insts (prog.fetch idx).nextPc with
        | none => simp [marked.searchIdxForPc_eq, found] at acts
        | some next =>
          simp only [marked.searchIdxForPc_eq, found, Option.map_some, Action.goOn.injEq,
            Option.some.injEq] at acts
          rw [← acts.1, getElem?_idx]
          exact ecall_resumes_at_start marked ends found
      · cases acts

omit marked in
theorem jumpAction_started {inst : RvPreDecodedInst} {s s' : ExecState Host} {target : BitVec 32}
    {i : Nat} (acts : jumpAction prog inst s target = .goOn (some i) s') :
    prog.predecode.insts[i]?.any (·.isGasBlockStart) = true := by
  unfold jumpAction at acts
  split at acts
  next found =>
    cases acts
    exact started_of_blockStartForPc found
  · cases acts

omit marked in
theorem loadAction_stays {inst : RvPreDecodedInst} {s s' : ExecState Host} {op : LoadOp}
    {rd rs1 : RegIdx} {imm : BitVec 32} {i : Nat} :
    loadAction prog inst s op rd rs1 imm ≠ .goOn (some i) s' := by
  unfold loadAction faultAction
  dsimp only
  split
  · simp
  · split
    · simp
    · split <;> simp

omit marked in
theorem storeAction_stays {inst : RvPreDecodedInst} {s s' : ExecState Host} {op : StoreOp}
    {rs1 rs2 : RegIdx} {imm : BitVec 32} {i : Nat} :
    storeAction inst s op rs1 rs2 imm ≠ .goOn (some i) s' := by
  unfold storeAction faultAction
  dsimp only
  split
  · simp
  · split
    · simp
    · split
      · split <;> simp
      · simp

/-- Every transfer of control goes on at a block start. -/
theorem instAction_started {idx : prog.Idx} {s s' : ExecState Host} {i : Nat}
    (acts : instAction prog handler (prog.fetch idx) s = .goOn (some i) s') :
    prog.predecode.insts[i]?.any (·.isGasBlockStart) = true := by
  unfold instAction at acts
  dsimp only at acts
  cases read : (prog.fetch idx).inst with
  | load op rd rs1 imm => exact absurd (by simpa only [read] using acts) loadAction_stays
  | store op rs1 rs2 imm => exact absurd (by simpa only [read] using acts) storeAction_stays
  | jal rd imm => exact jumpAction_started (by simpa only [read] using acts)
  | jalr rd rs1 imm => exact jumpAction_started (by simpa only [read] using acts)
  | branch op rs1 rs2 imm =>
    simp only [read] at acts
    split at acts
    · exact jumpAction_started acts
    · cases acts
  | ecallJar =>
    exact ecallAction_started marked (by rw [read]; rfl) (by simpa only [read] using acts)
  | ecalli imm =>
    exact ecallAction_started marked (by rw [read]; rfl) (by simpa only [read] using acts)
  | _ => simp [read] at acts

/-- An iteration that transfers control goes on at a block start. -/
theorem loopAction_started {idx i : Nat} {s s' : ExecState Host}
    (acts : loopAction prog handler idx s = some (.goOn (some i) s')) :
    prog.predecode.insts[i]?.any (·.isGasBlockStart) = true := by
  obtain ⟨inst, read, ran⟩ := Option.map_eq_some_iff.mp acts
  obtain ⟨inside, rfl⟩ := List.getElem?_eq_some_iff.mp read
  split at ran
  · exact @instAction_started _ _ _ marked ⟨idx, inside⟩ _ _ _ ran
  next other =>
    exact absurd ran (other _ _)

end

section

variable {Host : Type}

theorem loopEnter_started {prog : Program} {s s' : ExecState Host} {idx : Nat}
    (entered : loopEnter prog s = .next idx s') :
    prog.predecode.insts[idx]?.any (·.isGasBlockStart) = true := by
  unfold loopEnter at entered
  split at entered
  next found =>
    cases entered
    exact started_of_blockStartForPc found
  · cases entered

/-- Whatever code the predecode walk returns for, and from whatever entry, every index that the
loop reads is in bounds, every transfer of control goes on at a block start, and the search finds
exactly the instruction at an offset. -/
theorem loop_controlSafe {code : List Byte} {fuel : Nat} {insts : List RvPreDecodedInst}
    (walked : decodeWalk code fuel 0 = some insts) (codeBase : BitVec 32) (memCycles : Nat)
    (handler : EcallHandler Host) (s0 : ExecState Host) :
    let prog := Program.ofWalk insts code codeBase memCycles
    (∀ n idx s, loopConfig prog handler s0 n = some (idx, s) →
      idx < prog.predecode.insts.length ∧
        ∀ i s', loopAction prog handler idx s = some (.goOn (some i) s') →
          prog.predecode.insts[i]?.any (·.isGasBlockStart) = true) ∧
      (∀ idx s, loopEnter prog s0 = .next idx s →
        prog.predecode.insts[idx]?.any (·.isGasBlockStart) = true) ∧
      ∀ pc i, searchIdxForPc prog.predecode.insts pc = some i ↔
        (prog.predecode.insts[i]?).map (·.pc) = some pc := by
  intro prog
  have marked : WellMarked prog.predecode.insts := by
    rw [show prog = Program.new code codeBase memCycles from ofWalk_eq_new walked codeBase memCycles]
    exact predecode_wellMarked code memCycles
  refine ⟨fun n idx s reached => ⟨?_, fun i s' acts => loopAction_started marked acts⟩,
    fun idx s => loopEnter_started, fun pc i => marked.searchIdxForPc_eq_some_iff⟩
  -- The step function of the same program has indices that carry their bound.
  rw [loopConfig_eq marked] at reached
  obtain ⟨c, _, same⟩ := Option.map_eq_some_iff.mp reached
  cases same
  exact c.1.isLt

/-- The program `jal x0, 0`, a jump to itself. -/
def selfJump : List Byte := [0x6F, 0x00, 0x00, 0x00]

/-- The one instruction of the jump to itself, as the walk leaves it. -/
def selfJumpInsts : List RvPreDecodedInst := [⟨.jal 0 0, 0, 4, false, rvGasMeta (.jal 0 0)⟩]

/-- The jump to itself goes on at the start of its own block. -/
theorem loop_controlSafe_selfJump :
    decodeWalk selfJump 2 0 = some selfJumpInsts ∧
      ∃ idx s s', loopConfig (Program.ofWalk selfJumpInsts selfJump 0 25) idleHandler
          (freshState 1000) 1 = some (idx, s) ∧
        loopAction (Program.ofWalk selfJumpInsts selfJump 0 25) idleHandler idx s =
          some (.goOn (some 0) s') ∧
        idx < 1 ∧ (Program.ofWalk selfJumpInsts selfJump 0 25).predecode.insts[0]?.any
          (·.isGasBlockStart) = true := by
  have walked : decodeWalk selfJump 2 0 = some selfJumpInsts := by decide
  have safe := (loop_controlSafe walked 0 25 idleHandler (freshState 1000)).1 1 0 _ rfl
  exact ⟨walked, 0, _, _, rfl, rfl, safe.1, safe.2 0 _ rfl⟩

end

end Jar
