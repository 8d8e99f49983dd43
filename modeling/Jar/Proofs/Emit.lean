import Jar.Proofs.Host

/-! How the lowering combinators evaluate on operands that have host registers. -/

namespace Jar.Recompiler

open X86 Lower

/-! ## Primitive steps -/

section

variable {α β : Type} (st : LowerState)

@[simp]
theorem pure_bind_apply (a : α) (f : α → Lower β) : ((pure a : Lower α) >>= f) st = f a st := (rfl)

@[simp]
theorem emitItems_apply (items : List Item) :
    emitItems items st = some ((), { st with items := st.items ++ items }) := (rfl)

@[simp]
theorem emitItems_bind_apply (items : List Item) (f : Unit → Lower β) :
    (emitItems items >>= f) st = f () { st with items := st.items ++ items } := (rfl)

@[simp]
theorem emit_apply (code : List Instr) :
    emit code st = some ((), { st with items := st.items ++ code.map .ins }) := (rfl)

@[simp]
theorem emit_bind_apply (code : List Instr) (f : Unit → Lower β) :
    (emit code >>= f) st = f () { st with items := st.items ++ code.map .ins } := (rfl)

@[simp]
theorem newLabel_bind_apply (f : Label → Lower β) :
    (newLabel >>= f) st =
      f st.labelsLen { st with items := st.items ++ [.newLabel], labelsLen := st.labelsLen + 1 } := (rfl)

@[simp]
theorem get_bind_apply (f : LowerState → Lower β) : ((get : Lower LowerState) >>= f) st = f st st := (rfl)

@[simp]
theorem unwrap_some (a : α) : unwrap (some a) = pure a := (rfl)

@[simp]
theorem invalidateReg_apply (slot : HostSlot) :
    invalidateReg slot st = some ((), { st with regDefs := setDef st.regDefs slot .unknown }) := (rfl)

@[simp]
theorem clearAddCf_bind_apply (f : Unit → Lower β) :
    (clearAddCf >>= f) st = f () { st with lastAddCf := none } := (rfl)

end

/-! ## Operands -/

/-- A field with a host slot is neither zero nor spilled nor reserved. -/
theorem of_rvSlot {x : RegIdx} {slot : HostSlot} (mapped : rvSlot x = some slot) :
    x ≠ 0 ∧ regIsReserved x = false ∧ regIsSpilled x = false := by
  revert x slot
  decide

/-- The fields that the fast path accepts: `x0` and those with a host slot. -/
theorem isSrc_cases {rs : RegIdx} {r : Option Reg} (src : IsSrc rs r) :
    (rs = 0 ∧ r = none) ∨ ∃ slot, rvSlot rs = some slot ∧ r = some (regMap slot) := by
  rcases src with zero | ⟨_, h, host, rfl⟩
  · exact .inl zero
  · obtain ⟨slot, mapped, rfl⟩ := Option.map_eq_some_iff.mp host
    exact .inr ⟨slot, mapped, rfl⟩

theorem isSrc_not_reserved {rs : RegIdx} {r : Option Reg} (src : IsSrc rs r) :
    regIsReserved rs = false := by
  rcases isSrc_cases src with ⟨rfl, _⟩ | ⟨slot, mapped, _⟩
  · decide
  · exact (of_rvSlot mapped).2.1

/-- A resolved source is a register that holds guest values. -/
theorem isSrc_isHost {rs : RegIdx} {r : Reg} (src : IsSrc rs (some r)) : IsHost r := by
  rcases isSrc_cases src with ⟨_, absurd⟩ | ⟨slot, _, same⟩
  · cases absurd
  · cases same
    exact isHost_regMap slot

section

variable {rd rs : RegIdx} {slot : HostSlot} {r : Option Reg}

theorem rvDst_mapped (mapped : rvSlot rd = some slot) (pc : Nat) :
    rvDst rd pc = pure (some (regMap slot)) := by
  obtain ⟨nonzero, ordinary, _⟩ := of_rvSlot mapped
  simp only [rvDst, hostReg, mapped, ordinary]
  rw [if_neg nonzero]
  rfl

theorem rvSrc_isSrc (src : IsSrc rs r) : rvSrc rs = pure r := by
  rcases isSrc_cases src with ⟨rfl, rfl⟩ | ⟨slot, mapped, rfl⟩
  · rfl
  · simp only [rvSrc, hostReg, mapped]
    rw [if_neg (of_rvSlot mapped).1]
    rfl

theorem rvRead_isSrc (src : IsSrc rs r) (d : Reg) (pc : Nat) :
    rvRead rs d pc = emit (readCodeOf d r) := by
  rcases isSrc_cases src with ⟨rfl, rfl⟩ | ⟨slot, mapped, rfl⟩
  · rfl
  · obtain ⟨nonzero, ordinary, unspilled⟩ := of_rvSlot mapped
    simp only [rvRead, hostReg, mapped, ordinary, unspilled]
    rw [if_neg nonzero]
    rfl

theorem invalidateRd_mapped (mapped : rvSlot rd = some slot) :
    invalidateRd rd = invalidateReg slot := by
  simp only [invalidateRd, mapped]
  rw [if_neg (of_rvSlot mapped).1]
  rfl

/-- A routine on resolved operands runs its body and forgets the destination. -/
theorem rvRoutine_mapped (mapped : rvSlot rd = some slot) {sources : List RegIdx}
    (ordinary : ∀ rs ∈ sources, regIsReserved rs = false) (pc : Nat) (body : Reg → Lower Unit) :
    rvRoutine rd sources pc body = (do body (regMap slot); invalidateReg slot) := by
  have accepted : sources.any regIsReserved = false := by
    simpa using ordinary
  simp only [rvRoutine, rvDst_mapped mapped, invalidateRd_mapped mapped, accepted]
  rfl

/-- A routine with destination `x0` does nothing. -/
theorem rvRoutine_zero (sources : List RegIdx) (pc : Nat) (body : Reg → Lower Unit) :
    rvRoutine 0 sources pc body = pure () := rfl

end

/-! ## Guest registers -/

theorem regSlotOrFf_of_rvSlot {x : RegIdx} {slot : HostSlot} (mapped : rvSlot x = some slot) :
    regSlotOrFf x = some ⟨slot.val, by omega⟩ := by
  revert x slot
  decide

theorem srcVal_isSrc {rs : RegIdx} {r : Option Reg} (src : IsSrc rs r) (m : Machine) :
    srcVal m r = regRead (guestRegs m) rs := by
  rcases isSrc_cases src with ⟨rfl, rfl⟩ | ⟨slot, mapped, rfl⟩
  · rfl
  · simp [srcVal, regRead, regSlotOrFf_of_rvSlot mapped, guestRegs]

/-- A state that differs from another in one guest register and in what the guest cannot see. -/
structure Sets (x : RegIdx) (v : Word64) (m m' : Machine) : Prop where
  guest : guestRegs m' = regWrite (guestRegs m) x v
  rsp : m'.regs .rsp = m.regs .rsp
  gas : m'.regs gasReg = m.regs gasReg
  stack : m'.stack = m.stack
  ctx : m'.ctx = m.ctx
  mem : m'.mem = m.mem

theorem guestRegs_update {x : RegIdx} {slot : HostSlot} {v : Word64} {m m' : Machine}
    (mapped : rvSlot x = some slot)
    (regs : ∀ r, IsHost r → m'.regs r = if r = regMap slot then v else m.regs r)
    (homes : m'.ctx.regs = m.ctx.regs) :
    guestRegs m' = regWrite (guestRegs m) x v := by
  funext other
  simp only [regWrite, regSlotOrFf_of_rvSlot mapped, Function.update_apply]
  unfold guestRegs
  split
  · next small =>
    rw [regs _ (isHost_regMap _)]
    have same : regMap ⟨other.val, small⟩ = regMap slot ↔ other = ⟨slot.val, by omega⟩ := by
      rw [regMap_injective.eq_iff, Fin.ext_iff, Fin.ext_iff]
    simp only [same]
  · next large =>
    have distinct : other ≠ ⟨slot.val, by omega⟩ := by
      intro same
      exact large (same ▸ slot.isLt)
    rw [if_neg distinct, homes]

theorem Sets.value {x : RegIdx} {slot : HostSlot} {v : Word64} {m m' : Machine}
    (sets : Sets x v m m') (mapped : rvSlot x = some slot) : m'.regs (regMap slot) = v := by
  have written := congrFun sets.guest ⟨slot.val, by omega⟩
  simpa [regWrite, regSlotOrFf_of_rvSlot mapped, guestRegs] using written

theorem Sets.zero (v : Word64) (m : Machine) : Sets 0 v m m :=
  ⟨rfl, rfl, rfl, rfl, rfl, rfl⟩

end Jar.Recompiler
