import Jar.Proofs.Dispatched

/-! What a dispatcher feeds to the gas simulator, compared with the decoded instruction. -/

namespace Jar.Recompiler

open X86 Lower

/-! ## Evaluation of dispatchers -/

section

variable {α β : Type} (env : CodeEnv) (g : GasState) (st : LowerState)

/-- A lowering routine inside a dispatcher leaves the gas accounting alone. -/
theorem lift_bind_apply (body : Lower α) (f : α → Dispatch β) :
    ((liftM body : Dispatch α) >>= f) g st = (body st).bind fun r => f r.1 g r.2 := by
  show ((body >>= fun a => pure (a, g)) >>= fun r => f r.1 r.2) st = _
  simp only [bind, StateT.bind, pure, StateT.pure, Option.bind_assoc]
  rfl

theorem lift_apply (body : Lower α) :
    (liftM body : Dispatch α) g st = (body st).map fun r => ((r.1, g), r.2) := by
  rw [← bind_pure (liftM body : Dispatch α), lift_bind_apply, Option.map_eq_bind]
  rfl

/-- The gas accounting after one instruction. -/
def feedMeta (memCycles : Nat) (g : GasState) (gasMeta : RvGasMeta) : GasState :=
  if g.suppress then g
  else
    { g with
      sim := (rvFeedGasDirect gasMeta g.sim memCycles).1
      reserve := min (g.reserve + rvKindReserve gasMeta.kind) u32Max }

@[simp]
theorem feedMeta_suppress (memCycles : Nat) (gasMeta : RvGasMeta) :
    (feedMeta memCycles g gasMeta).suppress = g.suppress := by
  unfold feedMeta
  split <;> rfl

def rawMeta (kind : RvKind) (rs1 rs2 rd : RegIdx) : RvGasMeta :=
  ⟨kind, regSlotOrFf rs1, regSlotOrFf rs2, regSlotOrFf rd⟩

theorem feedGasRv_apply (kind : RvKind) (rs1 rs2 rd : RegIdx) :
    feedGasRv env kind rs1 rs2 rd g st =
      some (((rvGasCostLut kind).term, feedMeta env.memCycles g (rawMeta kind rs1 rs2 rd)),
        st) := by
  unfold feedGasRv feedMeta rawMeta
  cases suppressed : g.suppress <;>
    simp [suppressed, bind, StateT.bind, get, getThe, MonadStateOf.get, StateT.get, set,
      StateT.set, pure, StateT.pure, rvFeedGasDirect, rvFeedGasKind]

theorem feedGasRv_bind_apply (kind : RvKind) (rs1 rs2 rd : RegIdx) (f : Bool → Dispatch β) :
    (feedGasRv env kind rs1 rs2 rd >>= f) g st =
      f (rvGasCostLut kind).term (feedMeta env.memCycles g (rawMeta kind rs1 rs2 rd)) st := by
  simp only [bind, StateT.bind, feedGasRv_apply, Option.bind_some]

theorem compileArm_apply (preserveCf : Bool) (body : Lower Unit) (kind : RvKind)
    (rs1 rs2 rd : RegIdx) :
    compileArm env preserveCf body kind rs1 rs2 rd g st = (body st).map fun r =>
      ((⟨(rvGasCostLut kind).term, preserveCf, 0⟩,
        feedMeta env.memCycles g (rawMeta kind rs1 rs2 rd)), r.2) := by
  unfold compileArm
  simp only [lift_bind_apply, feedGasRv_bind_apply]
  cases body st <;> rfl

theorem compileReserved_apply (pc : Nat) :
    compileReserved env pc g st = (rvEmitPanicAt pc st).map fun r =>
      ((⟨true, false, 0⟩, feedMeta env.memCycles g (rawMeta .reserved 0 0 0)), r.2) := by
  unfold compileReserved
  simp only [lift_bind_apply, feedGasRv_bind_apply]
  cases rvEmitPanicAt pc st <;> rfl

end

/-! ## Agreement with the decoded instruction -/

/-- The masks of the cost table hide no operand. -/
theorem rvGasMeta_eq (inst : Inst) :
    rvGasMeta inst = rawMeta (rvOpMetadata inst).1 (rvOpMetadata inst).2.1
      (rvOpMetadata inst).2.2.1 (rvOpMetadata inst).2.2.2 := by
  cases inst with
  | opImm op | shiftImm op | unary op | opReg op => cases op <;> rfl
  | _ => rfl

/-- The cost table and the block builder agree on the terminators. -/
theorem term_rvGasCostLut (inst : Inst) :
    (rvGasCostLut (rvOpMetadata inst).1).term = isTerminator inst := by
  cases inst with
  | opImm op | shiftImm op | unary op | opReg op => cases op <;> rfl
  | _ => rfl

/-- What a dispatcher may return and feed for an instruction: the instruction alone, or together
with the one after it, neither of which then bounds a block. -/
inductive Fed (memCycles : Nat) (inst : Inst) (rest : List Byte) (g : GasState) :
    Compiled → GasState → Prop where
  | single (preserveCf : Bool) :
      Fed memCycles inst rest g ⟨isTerminator inst, preserveCf, 0⟩
        (feedMeta memCycles g (rvGasMeta inst))
  | fused (preserveCf : Bool) (second : Inst) (len : Nat)
      (decoded : decode rest = some (second, len)) (inner : isTerminator inst = false)
      (inner2 : isTerminator second = false) (plain2 : isEcallBlock second = false) :
      Fed memCycles inst rest g ⟨false, preserveCf, len⟩
        (feedMeta memCycles (feedMeta memCycles g (rvGasMeta inst)) (rvGasMeta second))

/-- A dispatcher feeds what the decoded instruction calls for. -/
def GasSound (env : CodeEnv) (g : GasState) (inst : Inst) (rest : List Byte)
    (d : Dispatch Compiled) : Prop :=
  ∀ st r g' st', d g st = some ((r, g'), st') → Fed env.memCycles inst rest g r g'

section

variable {env : CodeEnv} {g : GasState} {inst : Inst} {rest : List Byte}

theorem gasSound_arm {kind : RvKind} {rs1 rs2 rd : RegIdx}
    (row : rvOpMetadata inst = (kind, rs1, rs2, rd)) (preserveCf : Bool) (body : Lower Unit) :
    GasSound env g inst rest (compileArm env preserveCf body kind rs1 rs2 rd) := by
  intro st r g' st' ran
  rw [compileArm_apply] at ran
  obtain ⟨_, _, result⟩ := Option.map_eq_some_iff.mp ran
  cases result
  have fed : Fed env.memCycles inst rest g _ _ := .single preserveCf
  rwa [rvGasMeta_eq, ← term_rvGasCostLut, row] at fed

theorem gasSound_reserved (pc : Nat) : GasSound env g .reserved rest (compileReserved env pc) := by
  intro st r g' st' ran
  rw [compileReserved_apply] at ran
  obtain ⟨_, _, result⟩ := Option.map_eq_some_iff.mp ran
  cases result
  exact Fed.single false

/-- A dispatcher that feeds an instruction together with the one after it. -/
theorem gasSound_pair {kind kind2 : RvKind} {rs1 rs2 rd rs1' rs2' rd' : RegIdx} {second : Inst}
    {len : Nat} (row : rvOpMetadata inst = (kind, rs1, rs2, rd))
    (row2 : rvOpMetadata second = (kind2, rs1', rs2', rd'))
    (decoded : decode rest = some (second, len)) (inner : isTerminator inst = false)
    (inner2 : isTerminator second = false) (plain2 : isEcallBlock second = false)
    (preserveCf : Bool) (body : Lower Unit) :
    GasSound env g inst rest (do
      body
      let _ ← feedGasRv env kind rs1 rs2 rd
      let _ ← feedGasRv env kind2 rs1' rs2' rd'
      return ⟨false, preserveCf, len⟩) := by
  intro st r g' st' ran
  simp only [lift_bind_apply, feedGasRv_bind_apply] at ran
  obtain ⟨_, _, result⟩ := Option.bind_eq_some_iff.mp ran
  cases result
  have fed : Fed env.memCycles inst rest g _ _ :=
    .fused preserveCf second len decoded inner inner2 plain2
  rwa [rvGasMeta_eq, rvGasMeta_eq, row, row2] at fed

/-- Every dispatcher feeds the rows of what it compiles, but for a reserved word that it takes for a
fence. -/
theorem Dispatched.gasSound {w : BitVec 32} {pc : Nat} {d : Dispatch Compiled}
    (dispatched : Dispatched env pc rest w inst d) (fence : ¬ IsReservedFence w) :
    GasSound env g inst rest d := by
  cases dispatched with
  | single lowers row preserveCf => exact gasSound_arm row preserveCf _
  | pair fuses row row' decoded preserveCf =>
    have inner : isTerminator inst = false := by cases fuses <;> rfl
    exact gasSound_pair row (by rw [rvOpMetadata, row']) decoded inner rfl rfl preserveCf _
  | reserved => exact gasSound_reserved pc
  | fence known =>
    intro st r g' st' ran
    rw [fenceArm, feedGasRv_bind_apply] at ran
    cases ran
    obtain rfl | rfl := known <;> exact Fed.single false
  | reservedFence other => exact absurd other fence

/-! ## Words -/

theorem gasSound_word {w : BitVec 32} {spilled : Dispatch Compiled}
    (length : lengthBits w = 0b11#2) (fence : ¬ IsReservedFence w)
    (sound : GasSound env g (reserveIfReservedReg (decode32 w)) rest spilled) (pc instLen : Nat) :
    GasSound env g (reserveIfReservedReg (decode32 w)) rest
      (compileWord env spilled w pc instLen rest) := by
  rw [reserveIfReservedReg_decode32 length] at sound ⊢
  unfold compileWord
  split
  · exact gasSound_reserved _
  · next ordinary =>
    split
    · rwa [if_neg ordinary] at sound
    · next unspilled =>
      have plain := (plainWord_iff length).mpr (by simpa using And.intro ordinary unspilled)
      exact (dispatched_opcode length plain instLen).gasSound fence

/-! ## Words that name a spilled register -/

/-- A dispatcher leaves the gas accounting alone while feeds are suppressed. -/
def KeepsGas {α : Type} (d : Dispatch α) : Prop :=
  ∀ g st r g' st', g.suppress = true → d g st = some ((r, g'), st') → g' = g

theorem KeepsGas.lift {α : Type} (body : Lower α) : KeepsGas (liftM body : Dispatch α) := by
  intro g st r g' st' _ ran
  rw [lift_apply] at ran
  obtain ⟨_, _, result⟩ := Option.map_eq_some_iff.mp ran
  cases result
  rfl

theorem KeepsGas.bind {α β : Type} {d : Dispatch α} {f : α → Dispatch β} (first : KeepsGas d)
    (second : ∀ a, KeepsGas (f a)) : KeepsGas (d >>= f) := by
  intro g st r g' st' suppressed ran
  obtain ⟨⟨⟨a, g1⟩, st1⟩, ran1, ran2⟩ := Option.bind_eq_some_iff.mp ran
  obtain rfl := first g st a g1 st1 suppressed ran1
  exact second a g1 st1 r g' st' suppressed ran2

theorem feedMeta_of_suppress {g : GasState} (suppressed : g.suppress = true) (memCycles : Nat)
    (gasMeta : RvGasMeta) : feedMeta memCycles g gasMeta = g := by
  simp [feedMeta, suppressed]

/-- A dispatcher that feeds what it should feeds nothing while feeds are suppressed. -/
theorem GasSound.keepsGas {d : Dispatch Compiled}
    (sound : ∀ g, GasSound env g inst rest d) : KeepsGas d := by
  intro g st r g' st' suppressed ran
  cases sound g st r g' st' ran with
  | single => exact feedMeta_of_suppress suppressed _ _
  | fused =>
    rw [feedMeta_of_suppress suppressed, feedMeta_of_suppress suppressed]

/-- The code of a word with a spilled register feeds nothing. -/
theorem keepsGas_emitSpilled {redispatch : BitVec 32 → Dispatch Compiled} {w : BitVec 32}
    (keeps : ∀ fields donors, donorFields (major w) = some fields →
      KeepsGas (redispatch (rewriteFields fields donors w))) (pc instLen : Nat) :
    KeepsGas (emitSpilled env redispatch w pc instLen) := by
  unfold emitSpilled
  split
  · exact .lift _
  · split
    · exact .lift _
    · exact .lift _
  · exact .lift _
  · unfold emitSpilledViaDonors
    split
    · exact .lift _
    · next fields known =>
      refine .bind (.lift _) fun donors => .bind (.lift _) fun _ => ?_
      exact .bind (keeps fields donors known) fun _ => .lift _

theorem not_isReservedFence_of_donorFields {w w' : BitVec 32} {fields : Fields}
    (known : donorFields (major w) = some fields) (same : major w' = major w) :
    ¬ IsReservedFence w' := by
  rintro ⟨fence, -⟩
  rw [same] at fence
  simp [fence, donorFields] at known

theorem decode_wordBytes {w : BitVec 32} (length : lengthBits w = 0b11#2) :
    decode (wordBytes w) = some (reserveIfReservedReg (decode32 w), 4) := by
  refine decode_word ?_ length
  simp only [wordBytes, word?, Option.some.injEq]
  ext i
  grind

/-- A word that names a spilled register is fed once, before its code is emitted with feeds
suppressed. -/
theorem compileRvSpilled_apply {w : BitVec 32} (fed : g.suppress = false)
    (length : lengthBits w = 0b11#2) (redispatch : BitVec 32 → Dispatch Compiled)
    (pc instLen : Nat) (st : LowerState) :
    let inst := reserveIfReservedReg (decode32 w)
    compileRvSpilled env redispatch w pc instLen g st =
      (emitSpilled env redispatch w pc instLen
        { feedMeta env.memCycles g (rvGasMeta inst) with suppress := true } st).map
      fun r => ((⟨isTerminator inst, false, 0⟩, { r.1.2 with suppress := false }), r.2) := by
  have row := term_rvGasCostLut (reserveIfReservedReg (decode32 w))
  simp only [compileRvSpilled, decode_wordBytes length, unwrap_some, lift_bind_apply]
  simp only [feedMeta, fed, Bool.false_eq_true, if_false, ← row, Option.map_eq_bind]
  rfl

theorem gasSound_spilled {w : BitVec 32} (fed : g.suppress = false)
    (length : lengthBits w = 0b11#2) (pc instLen : Nat)
    {redispatch : BitVec 32 → Dispatch Compiled}
    (keeps : ∀ fields donors, donorFields (major w) = some fields →
      KeepsGas (redispatch (rewriteFields fields donors w))) :
    GasSound env g (reserveIfReservedReg (decode32 w)) rest
      (compileRvSpilled env redispatch w pc instLen) := by
  intro st r g' st' ran
  rw [compileRvSpilled_apply fed length] at ran
  obtain ⟨⟨⟨_, g1⟩, st1⟩, ran1, result⟩ := Option.map_eq_some_iff.mp ran
  obtain rfl := keepsGas_emitSpilled keeps pc instLen _ _ _ _ _ rfl ran1
  cases result
  have kept := feedMeta_suppress g env.memCycles (rvGasMeta (reserveIfReservedReg (decode32 w)))
  simp only [← fed, ← kept]
  exact .single _

/-! ## Instructions -/

theorem gasSound_rv4 {w : BitVec 32} (fed : g.suppress = false) (length : lengthBits w = 0b11#2)
    (fence : ¬ IsReservedFence w) (pc instLen : Nat) :
    GasSound env g (reserveIfReservedReg (decode32 w)) rest
      (compileRv4 env w pc instLen rest) := by
  refine gasSound_word length fence ?_ pc instLen
  refine gasSound_spilled fed length pc instLen fun fields donors known => ?_
  obtain ⟨length', opcode, -⟩ := fields_rewriteFields fields donors w
  refine GasSound.keepsGas fun g => gasSound_word (length'.trans length)
    (not_isReservedFence_of_donorFields known opcode) ?_ pc instLen
  -- A word that still named a spilled register would end the compilation.
  intro st r g' st' ran
  cases ran

theorem gasSound_rvc (h : BitVec 16) (fed : g.suppress = false) (pc : Nat) :
    GasSound env g (reserveIfReservedReg (decompress h)) rest (compileRvc env h pc rest) := by
  have agrees := agrees_expandRvc h
  unfold compileRvc
  cases expanded : expandRvc h with
  | none =>
    rw [expanded] at agrees
    have reserved : decompress h = .reserved := agrees
    rw [reserved]
    exact gasSound_reserved _
  | some w =>
    rw [expanded] at agrees
    obtain ⟨length, decoded, ordinary, -⟩ := agrees
    rw [← decoded]
    exact gasSound_rv4 fed length (fun fence => ordinary fence.1) pc 2

end

end Jar.Recompiler
