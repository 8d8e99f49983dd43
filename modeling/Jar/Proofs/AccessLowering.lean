import Jar.Proofs.Tracking

/-! What the routines for loads and stores emit. -/

namespace Jar

/-- The loads that extend the sign of what they read. -/
def LoadOp.signed : LoadOp → Bool
  | .lb | .lh | .lw => true
  | _ => false

namespace Recompiler

open X86 Lower

theorem loadShape_eq (f3 : BitVec 3) :
    loadShape f3 = (decodeLoad f3).map fun op => (op.width, op.signed) := by
  revert f3
  decide

theorem storeShape_eq (f3 : BitVec 3) : storeShape f3 = (decodeStore f3).map StoreOp.width := by
  revert f3
  decide

theorem lower_bind_apply {α β : Type} (body : Lower α) (f : α → Lower β) (st : LowerState) :
    (body >>= f) st = (body st).bind fun r => f r.1 r.2 := rfl

theorem IsOperand.ordinary {x : RegIdx} (operand : IsOperand x) : regIsReserved x = false := by
  revert x
  decide

/-! ## Addresses -/

/-- The code that forms an address, by what is recorded about the registers. -/
def addrCode (defs : HostSlot → RegDef) (rs1 : RegIdx) (imm : BitVec 32) : List Instr :=
  match rvSlot rs1 with
  | none => [.movImm32 scratch imm]
  | some slot =>
    let plain : List Instr :=
      if imm ≠ 0 then [.lea32 scratch (regMap slot) imm]
      else [.extend .movzx32 scratch (regMap slot)]
    match defs slot with
    | .const addr => [.movImm32 scratch (addr + imm)]
    | .scaledAdd base idx shift =>
      if imm = 0 then [.leaSib32 scratch (regMap base) (regMap idx) shift] else plain
    | _ => plain

theorem rvAddrToScratch_apply {rs1 : RegIdx} (operand : IsOperand rs1) (imm : BitVec 32) (pc : Nat)
    (st : LowerState) :
    rvAddrToScratch rs1 imm pc st =
      some ((), { st with items := st.items ++ (addrCode st.regDefs rs1 imm).map .ins }) := by
  unfold rvAddrToScratch
  rcases operand with rfl | mapped
  · rfl
  · obtain ⟨slot, mapped⟩ := Option.isSome_iff_exists.mp mapped
    obtain ⟨nonzero, ordinary, -⟩ := of_rvSlot mapped
    rw [if_neg nonzero, if_neg (by simp [ordinary]), mapped]
    simp only [addrCode, mapped, unwrap_some, pure_bind_apply, get_bind_apply]
    cases st.regDefs slot with
    | scaledAdd base idx shift =>
      dsimp only
      split <;> rfl
    | _ => rfl

/-! ## Accesses -/

theorem rvSlot_zero : rvSlot 0#5 = none := rfl

theorem invalidateRd_zero : invalidateRd 0#5 = pure () := rfl

def loadItems (defs : HostSlot → RegDef) (rd rs1 : RegIdx) (imm : BitVec 32) (bytes : Nat)
    (signed : Bool) (pc : Nat) : List Item :=
  let dst := (hostReg rd).getD scratch
  (addrCode defs rs1 imm).map .ins
    ++ [.trapEntry pc bytes, .ins (.loadIndex (widthOf bytes) dst scratch)]
    ++ (onlyIf (signed ∧ rd ≠ 0) (signExtendCode bytes dst)).map .ins

theorem rvLoad_apply {rd rs1 : RegIdx} (operand : IsOperand rd) (operand1 : IsOperand rs1)
    (imm : BitVec 32) (bytes : Nat) (signed : Bool) (pc : Nat) (st : LowerState) :
    rvLoad rd rs1 imm bytes signed pc st = some ((), { st with
      items := st.items ++ loadItems st.regDefs rd rs1 imm bytes signed pc
      regDefs := forget st.regDefs rd }) := by
  have reserved : (regIsReserved rd || regIsReserved rs1) = false := by
    rw [operand.ordinary, operand1.ordinary]
    rfl
  unfold rvLoad
  rw [if_neg (by simp [reserved]), lower_bind_apply, rvAddrToScratch_apply operand1]
  simp only [Option.bind_some]
  rcases operand with rfl | mapped
  · rw [show rvDst 0 pc = pure none from rfl]
    simp [emitMemReadSized, invalidateRd_zero, loadItems, forget, hostReg, rvSlot_zero]
  · obtain ⟨slot, mapped⟩ := Option.isSome_iff_exists.mp mapped
    simp [emitMemReadSized, rvDst_mapped mapped, invalidateRd_mapped mapped, loadItems, forget,
      hostReg, mapped]

def storeItems (defs : HostSlot → RegDef) (rs1 rs2 : RegIdx) (imm : BitVec 32) (bytes pc : Nat) :
    List Item :=
  let addr := (addrCode defs rs1 imm).map Item.ins
  let access (val : Reg) : List Item :=
    [.trapEntry pc bytes, .ins (.storeIndex (widthOf bytes) scratch val)]
  match hostReg rs2 with
  | some val => addr ++ access val
  | none => addr ++ [.ins (.push .rax), .ins (movRi64 .rax 0)] ++ access .rax ++ [.ins (.pop .rax)]

theorem rvStore_apply {rs1 rs2 : RegIdx} (operand1 : IsOperand rs1) (operand2 : IsOperand rs2)
    (imm : BitVec 32) (bytes pc : Nat) (st : LowerState) :
    rvStore rs1 rs2 imm bytes pc st = some ((), { st with
      items := st.items ++ storeItems st.regDefs rs1 rs2 imm bytes pc }) := by
  have reserved : (regIsReserved rs1 || regIsReserved rs2) = false := by
    rw [operand1.ordinary, operand2.ordinary]
    rfl
  unfold rvStore
  rw [if_neg (by simp [reserved])]
  rcases operand2 with rfl | mapped
  · rw [if_pos rfl, lower_bind_apply, rvAddrToScratch_apply operand1]
    simp [emitMemWrite, storeItems, hostReg, rvSlot_zero]
  · obtain ⟨slot, mapped⟩ := Option.isSome_iff_exists.mp mapped
    rw [if_neg (of_rvSlot mapped).1, hostReg, mapped]
    simp only [Option.map_some, unwrap_some, pure_bind_apply]
    rw [lower_bind_apply, rvAddrToScratch_apply operand1]
    simp [emitMemWrite, storeItems, hostReg, mapped]

end Recompiler

end Jar
