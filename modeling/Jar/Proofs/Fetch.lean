import Jar.Proofs.DispatchGas
import Jar.Proofs.Predecode
import Jar.Recompiler.Compile

/-! The pass fetches the instructions that the interpreter decodes, and assembles what it emits for
each of them. -/

namespace Jar.Recompiler

open X86 Lower

/-! ## Fetching -/

namespace Fetched

def inst : Fetched → Inst
  | .word w => reserveIfReservedReg (decode32 w)
  | .half h => reserveIfReservedReg (decompress h)

/-- Whether the instruction is a reserved encoding that is compiled as a fence. -/
def IsReservedFence : Fetched → Prop
  | .word w => Recompiler.IsReservedFence w
  | .half _ => False

instance (f : Fetched) : Decidable f.IsReservedFence := by
  cases f <;> unfold IsReservedFence <;> infer_instance

/-- A fetched word is a full one. -/
def WellFormed : Fetched → Prop
  | .word w => lengthBits w = 0b11#2
  | .half _ => True

theorem lengthBits_of_word? {b0 b1 : Byte} {tail : List Byte} {w : BitVec 32}
    (fetched : word? (b0 :: b1 :: tail) = some w) :
    lengthBits w = b0.extractLsb' 0 2 := by
  unfold word? at fetched
  split at fetched
  · next same =>
    cases same
    cases fetched
    simp (disch := omega) only [lengthBits, BitVec.extractLsb'_append_eq_of_add_le]
  · cases fetched

theorem wellFormed_of_fetch {bytes : List Byte} {f : Fetched} (fetched : fetch bytes = some f) :
    f.WellFormed := by
  unfold fetch at fetched
  split at fetched
  · split at fetched
    · next low =>
      obtain ⟨w, found, rfl⟩ := Option.map_eq_some_iff.mp fetched
      exact (lengthBits_of_word? found).trans low
    · cases fetched
      trivial
  · cases fetched

theorem decode_eq_fetch (bytes : List Byte) :
    decode bytes = (fetch bytes).map fun f => (f.inst, f.len) := by
  unfold fetch
  split
  · next b0 b1 tail =>
    split
    · next low =>
      cases found : word? (b0 :: b1 :: tail) with
      | some w => exact decode_word found ((lengthBits_of_word? found).trans low)
      | none =>
        unfold word? at found
        unfold decode
        split at found
        · cases found
        · next short =>
          rcases tail with _ | ⟨b2, _ | ⟨b3, tail⟩⟩
          · simp [low]
          · simp [low]
          · exact absurd rfl (short _ _ _ _ _)
    · next low => simp [decode, low, inst, len]
  · next short =>
    rcases bytes with _ | ⟨b0, _ | ⟨b1, tail⟩⟩
    · rfl
    · rfl
    · exact absurd rfl (short _ _ _)

/-- The check of the registers concerns no environment call. -/
theorem isEcallBlock_reserve (inst : Inst) :
    isEcallBlock (reserveIfReservedReg inst) = isEcallBlock inst := by
  unfold reserveIfReservedReg
  split
  · next named => cases inst <;> simp_all [isEcallBlock, Inst.usesReservedReg]
  · rfl

/-- The environment calls are custom-0 words. -/
theorem isEcallBlock_decode32 {w : BitVec 32} (length : lengthBits w = 0b11#2) :
    isEcallBlock (decode32 w) = isCustom0Ecall w := by
  simp only [decode32, length, ne_eq, not_true_eq_false, if_false]
  split
  case h_1 opcode => cases decodeLoad (funct3 w) <;> simp [isEcallBlock, isCustom0Ecall, opcode]
  case h_2 opcode => cases decodeStore (funct3 w) <;> simp [isEcallBlock, isCustom0Ecall, opcode]
  case h_3 opcode =>
    simp only [isCustom0Ecall, opcode]
    unfold decodeOpImm
    repeat' split
    all_goals rfl
  case h_4 opcode =>
    simp only [isCustom0Ecall, opcode]
    unfold decodeOpImm32
    repeat' split
    all_goals rfl
  case h_5 opcode =>
    simp only [isCustom0Ecall, opcode]
    repeat' split
    all_goals rfl
  case h_6 opcode =>
    cases decodeOp32 (funct7 w) (funct3 w) <;> simp [isEcallBlock, isCustom0Ecall, opcode]
  case h_10 opcode =>
    simp only [isCustom0Ecall, opcode]
    split <;> rfl
  case h_11 opcode => cases decodeBranch (funct3 w) <;> simp [isEcallBlock, isCustom0Ecall, opcode]
  case h_12 opcode =>
    simp only [isCustom0Ecall, opcode]
    unfold decodeMiscMem
    split <;> rfl
  case h_13 opcode =>
    simp only [isCustom0Ecall, opcode]
    unfold decodeCustom0
    rcases bv3_cases (funct3 w) with f | f | f | f | f | f | f | f <;> simp only [f] <;> rfl
  case h_14 =>
    simp_all [isEcallBlock, isCustom0Ecall]
  all_goals
    next opcode => simp [isEcallBlock, isCustom0Ecall, opcode]

theorem isEcall_eq {f : Fetched} (formed : f.WellFormed) : f.isEcall = isEcallBlock f.inst := by
  cases f with
  | word w => exact ((isEcallBlock_reserve _).trans (isEcallBlock_decode32 formed)).symm
  | half h =>
    -- A compressed instruction expands to no custom-0 word.
    have agrees := agrees_expandRvc h
    cases expanded : expandRvc h with
    | none =>
      rw [expanded] at agrees
      have reserved : decompress h = .reserved := agrees
      rw [inst, reserved]
      rfl
    | some w =>
      rw [expanded] at agrees
      obtain ⟨length, decoded, -, other⟩ := agrees
      rw [inst, ← decoded, isEcallBlock_reserve, isEcallBlock_decode32 length]
      simp only [isEcall, isCustom0Ecall, beq_false_of_ne other, Bool.false_and]

theorem gasSound_compile {f : Fetched} {env : CodeEnv} {g : GasState} {rest : List Byte}
    (formed : f.WellFormed) (fed : g.suppress = false) (fence : ¬ f.IsReservedFence) (pc : Nat) :
    GasSound env g f.inst rest (f.compile env pc rest) := by
  cases f with
  | word w => exact gasSound_rv4 fed formed fence pc 4
  | half h => exact gasSound_rvc h fed pc

end Fetched

/-! ## Assembling -/

namespace Compiler

/-- The effect of assembling: code, jumps and guest accesses, and nothing else. -/
def Assembled (c c' : Compiler) : Prop :=
  c' = { c with
    asm := c'.asm
    pendingFwdBranches := c'.pendingFwdBranches
    trapEntries := c'.trapEntries }

theorem assembled_item {c c' : Compiler} {item : Item} (ran : c.assembleItem item = some c') :
    Assembled c c' := by
  cases item with
  | ins i | newLabel | trapEntry pc width =>
    cases ran
    rfl
  | bind l | jmp l | jcc cc l | guest kind cc target pc =>
    obtain ⟨asm, _, result⟩ := Option.bind_eq_some_iff.mp ran
    cases result
    rfl

theorem assembled_items {c c' : Compiler} {items : List Item}
    (ran : c.assemble items = some c') : Assembled c c' := by
  unfold assemble at ran
  induction items generalizing c with
  | nil =>
    cases ran
    rfl
  | cons item rest ih =>
    rw [List.foldlM_cons] at ran
    obtain ⟨mid, first, ran⟩ := Option.bind_eq_some_iff.mp ran
    have later : Assembled mid c' := ih ran
    rw [Assembled, later, assembled_item first]

/-- Running a dispatcher: its own effect, and then only assembling. -/
theorem dispatch_eq_some {α : Type} {c c' : Compiler} {d : Dispatch α} {r : α}
    (ran : c.dispatch d = some (r, c')) :
    ∃ gas st, d c.gas ⟨c.regDefs, c.lastAddCf, c.asm.labelsLen, []⟩ = some ((r, gas), st) ∧
      { c with gas, regDefs := st.regDefs, lastAddCf := st.lastAddCf }.assemble st.items =
        some c' := by
  obtain ⟨⟨⟨r', gas⟩, st⟩, dispatched, ran⟩ := Option.bind_eq_some_iff.mp ran
  obtain ⟨c1, assembled, result⟩ := Option.bind_eq_some_iff.mp ran
  cases result
  exact ⟨gas, st, dispatched, assembled⟩

theorem emitGate_eq_some {c c' : Compiler} {pc : Nat} (ran : c.emitGate pc = some c') :
    ∃ asm gate, gate.blockPc = pc ∧ c' = { c with asm, pendingGas := some gate } := by
  unfold emitGate at ran
  simp only at ran
  obtain ⟨asm, _, result⟩ := Option.bind_eq_some_iff.mp ran
  cases result
  exact ⟨_, _, rfl, rfl⟩

end Compiler

end Jar.Recompiler
