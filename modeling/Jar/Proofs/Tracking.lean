import Jar.Proofs.BitLowering
import Jar.Proofs.MulLowering
import Jar.Proofs.PlainWords

/-! What the value tracking records about a register holds in the machine. -/

namespace Jar.Recompiler

open X86 Lower

/-! ## Definitions that hold -/

/-- A definition of a register holds in a machine. Of a constant the low half matters. -/
def RegDef.Holds (m : Machine) (slot : HostSlot) : RegDef → Prop
  | .unknown => True
  | .const value => low32 (m.regs (regMap slot)) = value
  | .shifted src shift => m.regs (regMap slot) = m.regs (regMap src) <<< shift
  | .scaledAdd base idx shift =>
    m.regs (regMap slot) = m.regs (regMap base) + (m.regs (regMap idx) <<< shift)

def DefsHold (defs : HostSlot → RegDef) (m : Machine) : Prop := ∀ slot, (defs slot).Holds m slot

/-- A machine whose guest registers are those of another, but for one. -/
def AgreesBut (slot : HostSlot) (m m' : Machine) : Prop :=
  ∀ other, other ≠ slot → m'.regs (regMap other) = m.regs (regMap other)

section

variable {defs : HostSlot → RegDef} {m m' : Machine} {slot : HostSlot}

theorem DefsHold.none (m : Machine) : DefsHold (fun _ => .unknown) m := fun _ => trivial

/-- A definition depends on its register and those that it reads. -/
theorem RegDef.Holds.congr {d : RegDef} (holds : d.Holds m slot)
    (same : m'.regs (regMap slot) = m.regs (regMap slot))
    (reads : ∀ src, d.reads src = true → m'.regs (regMap src) = m.regs (regMap src)) :
    d.Holds m' slot := by
  cases d with
  | unknown => trivial
  | const value => simpa only [RegDef.Holds, same] using holds
  | shifted src shift =>
    have read := reads src (by simp [RegDef.reads])
    simpa only [RegDef.Holds, same, read] using holds
  | scaledAdd base idx shift =>
    have readBase := reads base (by simp [RegDef.reads])
    have readIdx := reads idx (by simp [RegDef.reads])
    simpa only [RegDef.Holds, same, readBase, readIdx] using holds

theorem DefsHold.congr (holds : DefsHold defs m)
    (same : ∀ slot, m'.regs (regMap slot) = m.regs (regMap slot)) : DefsHold defs m' :=
  fun slot => (holds slot).congr (same slot) fun src _ => same src

/-- A changed register gets a definition that holds; those that read it are forgotten. -/
theorem DefsHold.setDef (holds : DefsHold defs m) (agrees : AgreesBut slot m m') {d : RegDef}
    (defined : d.Holds m' slot) : DefsHold (setDef defs slot d) m' := by
  intro other
  unfold Recompiler.setDef invalidateDependents
  by_cases same : other = slot
  · subst same
    simpa using defined
  · rw [Function.update_of_ne same]
    split
    · trivial
    · next kept =>
      refine (holds other).congr (agrees other same) fun src reads => agrees src ?_
      rintro rfl
      exact kept ⟨same, reads⟩

theorem DefsHold.forgetAll (holds : DefsHold defs m) (slots : List HostSlot)
    (agrees : ∀ other, other ∉ slots → m'.regs (regMap other) = m.regs (regMap other)) :
    DefsHold (slots.foldl (fun defs slot => Recompiler.setDef defs slot .unknown) defs) m' := by
  induction slots generalizing defs m with
  | nil => exact holds.congr fun slot => agrees slot List.not_mem_nil
  | cons slot slots ih =>
    let between : Machine := { m with
      regs := Function.update m.regs (regMap slot) (m'.regs (regMap slot)) }
    have first : AgreesBut slot m between := fun other different =>
      Function.update_of_ne (regMap_injective.ne different) _ _
    refine ih (holds.setDef first trivial) fun other unlisted => ?_
    by_cases same : other = slot
    · subst same
      simp [between]
    · rw [first other same]
      exact agrees other (by simp [same, unlisted])

theorem DefsHold.install (holds : DefsHold defs m) {d : RegDef} (defined : d.Holds m slot) :
    DefsHold (Recompiler.setDef defs slot d) m :=
  holds.setDef (fun _ _ => rfl) defined

/-- The other host registers keep their values when a guest register is written. -/
theorem agreesBut_of_write {rd : RegIdx} {v : Word64}
    (written : guestRegs m' = regWrite (guestRegs m) rd v) (mapped : rvSlot rd = some slot) :
    AgreesBut slot m m' := by
  intro other different
  have read := congrFun written ⟨other.val, by omega⟩
  have apart : (⟨other.val, by omega⟩ : Slot) ≠ ⟨slot.val, by omega⟩ := by
    intro same
    exact different (Fin.ext (Fin.mk.inj same))
  simpa [regWrite, regSlotOrFf_of_rvSlot mapped, guestRegs, Function.update_of_ne apart] using read

theorem Sets.agreesBut {rd : RegIdx} {v : Word64} (sets : Sets rd v m m')
    (mapped : rvSlot rd = some slot) : AgreesBut slot m m' :=
  agreesBut_of_write sets.guest mapped

/-- Machines with the same guest registers agree on the host registers that hold them. -/
theorem regs_of_guest (same : guestRegs m' = guestRegs m) (slot : HostSlot) :
    m'.regs (regMap slot) = m.regs (regMap slot) := by
  have read := congrFun same ⟨slot.val, by omega⟩
  simpa [guestRegs] using read

theorem DefsHold.forget {rd : RegIdx} {v : Word64} (holds : DefsHold defs m)
    (operand : IsOperand rd) (written : guestRegs m' = regWrite (guestRegs m) rd v) :
    DefsHold (forget defs rd) m' := by
  unfold Recompiler.forget
  rcases operand with rfl | mapped
  · exact holds.congr (regs_of_guest written)
  · obtain ⟨slot, mapped⟩ := Option.isSome_iff_exists.mp mapped
    rw [mapped]
    exact holds.setDef (agreesBut_of_write written mapped) trivial

end

/-! ## Routines that compute a register and track it -/

/-- A routine computes a value into a register, and what is recorded goes on to hold. -/
def Yields (st : LowerState) (rd : RegIdx) (value : Regs → Word64) (body : Lower Unit) : Prop :=
  ∃ st' items, body st = some ((), st') ∧ Appends st st' items ∧
    ∀ env m, ∃ m', Steps env items m m' ∧ Sets rd (value (guestRegs m)) m m' ∧
      (DefsHold st.regDefs m → DefsHold st'.regDefs m')

section

variable {st : LowerState} {rd rs1 rs2 : RegIdx} {value : Regs → Word64} {body : Lower Unit}

theorem Computes.yields (computes : Computes st rd value body) (operand : IsOperand rd) :
    Yields st rd value body := by
  obtain ⟨st', items, emitted, appended, forgotten, runs⟩ := computes
  refine ⟨st', items, emitted, appended, fun env m => ?_⟩
  obtain ⟨m', steps, sets⟩ := runs env m
  refine ⟨m', steps, sets, fun holds => ?_⟩
  rw [forgotten]
  exact holds.forget operand sets.guest

/-- A routine that computes a register and then records nothing, or something that holds of it. -/
theorem Computes.yields_track (computes : Computes st rd value body) (operand : IsOperand rd)
    {track : Lower Unit} (records : ∀ st' : LowerState, st'.regDefs = forget st.regDefs rd →
      track st' = some ((), st') ∨ ∃ slot d, rvSlot rd = some slot ∧
        track st' = some ((), { st' with regDefs := setDef st'.regDefs slot d }) ∧
        ∀ m m', Sets rd (value (guestRegs m)) m m' → DefsHold st'.regDefs m' → d.Holds m' slot) :
    Yields st rd value (do body; track) := by
  obtain ⟨st', items, emitted, appended, forgotten, runs⟩ := computes
  have tracked : (do body; track : Lower Unit) st = track st' := by
    show (body st).bind (fun r => track r.2) = _
    rw [emitted]
    rfl
  have sound (env : Env) (m : Machine) : ∃ m', Steps env items m m' ∧
      Sets rd (value (guestRegs m)) m m' ∧ (DefsHold st.regDefs m → DefsHold st'.regDefs m') := by
    obtain ⟨m', steps, sets⟩ := runs env m
    refine ⟨m', steps, sets, fun holds => ?_⟩
    rw [forgotten]
    exact holds.forget operand sets.guest
  rcases records st' forgotten with nothing | ⟨slot, d, mapped, recorded, defined⟩
  · exact ⟨st', items, tracked.trans nothing, appended, sound⟩
  · refine ⟨_, items, tracked.trans recorded, ⟨appended.1, appended.2, appended.3⟩, fun env m => ?_⟩
    obtain ⟨m', steps, sets, kept⟩ := sound env m
    exact ⟨m', steps, sets, fun holds => (kept holds).install (defined m m' sets (kept holds))⟩

theorem regRead_guestRegs {x : RegIdx} {slot : HostSlot} (mapped : rvSlot x = some slot)
    (m : Machine) : regRead (guestRegs m) x = m.regs (regMap slot) := by
  simp [regRead, regSlotOrFf_of_rvSlot mapped, guestRegs]

theorem Computes.yields_const (computes : Computes st rd value body) (operand : IsOperand rd)
    {imm : BitVec 32} (constant : ∀ regs, low32 (value regs) = imm) :
    Yields st rd value (do body; trackConst rd imm) := by
  refine computes.yields_track operand fun st' _ => ?_
  unfold trackConst
  cases mapped : rvSlot rd with
  | none => exact .inl rfl
  | some slot =>
    refine .inr ⟨slot, _, rfl, rfl, fun m m' sets _ => ?_⟩
    rw [RegDef.Holds, sets.value mapped]
    exact constant _

theorem Computes.yields_pure (computes : Computes st rd value body) (operand : IsOperand rd) :
    Yields st rd value (do body; pure ()) :=
  computes.yields_track operand fun _ _ => .inl rfl

theorem yields_lowerAddi (operand : IsOperand rd) (operand1 : IsOperand rs1) (imm : BitVec 32)
    (pc : Nat) :
    Yields st rd (fun regs => ImmOp.addi.eval (regRead regs rs1) imm)
      (lowerAddi rd rs1 imm pc) := by
  have computes : Computes st rd _ _ := computes_rvAluImm operand operand1.isSrc imm .add pc
  unfold lowerAddi
  split
  · next zero =>
    subst zero
    refine computes.yields_const operand fun regs => ?_
    simp [AluImmOp.immOp, ImmOp.eval, low32_sext32]
  · exact computes.yields_pure operand

theorem yields_lowerLui (operand : IsOperand rd) (imm : BitVec 32) (pc : Nat) :
    Yields st rd (fun _ => sext32 imm) (lowerLui rd imm pc) := by
  have computes : Computes st rd _ _ := computes_constant operand (sext32 imm) pc
  exact computes.yields_const operand fun regs => low32_sext32 imm

theorem yields_lowerSlli (operand : IsOperand rd) (operand1 : IsOperand rs1) (shamt : BitVec 6)
    (pc : Nat) :
    Yields st rd (fun regs => ShiftOp.shl64.eval (regRead regs rs1) shamt.toNat)
      (lowerSlli rd rs1 shamt pc) := by
  have computes : Computes st rd (fun regs => ShiftOp.shl64.eval (regRead regs rs1) shamt.toNat)
      (rvShiftImm rd rs1 shamt .shl64 pc) :=
    computes_rvShiftImm operand operand1.isSrc shamt (by decide) pc
  unfold lowerSlli
  split
  · next tracked =>
    refine computes.yields_track operand fun st' _ => ?_
    unfold trackShifted
    cases mapped : rvSlot rd with
    | none => exact .inl rfl
    | some slot =>
    cases mapped1 : rvSlot rs1 with
    | none => exact .inl rfl
    | some src =>
      refine .inr ⟨slot, _, rfl, rfl, fun m m' sets _ => ?_⟩
      -- The source is another register, which keeps its value.
      have other : src ≠ slot := by
        rintro rfl
        exact tracked.2.2 (rvSlot_inj mapped1 mapped)
      have small : shamt.toNat % 64 = shamt.toNat := Nat.mod_eq_of_lt shamt.isLt
      rw [RegDef.Holds, sets.value mapped, sets.agreesBut mapped src other,
        ← regRead_guestRegs mapped1]
      simp [ShiftOp.eval, ShiftOp.is32, ShiftOp.host, Shift.value, small]
  · exact computes.yields_pure operand

/-- A sum whose operands keep their values. -/
theorem holds_scaledAdd {slot base other src : HostSlot} {shift : Nat} {m m' : Machine}
    (sets : Sets rd (m.regs (regMap base) + m.regs (regMap other)) m m')
    (mapped : rvSlot rd = some slot) (base_ne : base ≠ slot) (other_ne : other ≠ slot)
    (shifted : RegDef.Holds m' other (.shifted src shift)) :
    RegDef.Holds m' slot (.scaledAdd base src shift) := by
  have product : m'.regs (regMap other) = m'.regs (regMap src) <<< shift := shifted
  rw [RegDef.Holds, sets.value mapped, ← product, sets.agreesBut mapped base base_ne,
    sets.agreesBut mapped other other_ne]

theorem trackAddScaledadd_apply {slot a b : HostSlot} (mapped : rvSlot rd = some slot)
    (mapped1 : rvSlot rs1 = some a) (mapped2 : rvSlot rs2 = some b) (st : LowerState) :
    trackAddScaledadd rd rs1 rs2 st =
      match st.regDefs b, st.regDefs a with
      | .shifted src shift, _ =>
        some ((), { st with regDefs := setDef st.regDefs slot (.scaledAdd a src shift) })
      | _, .shifted src shift =>
        some ((), { st with regDefs := setDef st.regDefs slot (.scaledAdd b src shift) })
      | _, _ => some ((), st) := by
  unfold trackAddScaledadd
  rw [mapped, mapped1, mapped2]
  change (match st.regDefs b, st.regDefs a with
    | .shifted src shift, _ => installDef slot (.scaledAdd a src shift)
    | _, .shifted src shift => installDef slot (.scaledAdd b src shift)
    | _, _ => pure ()) st = _
  cases st.regDefs b <;> cases st.regDefs a <;> rfl

theorem yields_lowerAdd (operand : IsOperand rd) (operand1 : IsOperand rs1)
    (operand2 : IsOperand rs2) (pc : Nat) :
    Yields st rd (fun regs => RegOp.add.eval (regRead regs rs1) (regRead regs rs2))
      (lowerAdd rd rs1 rs2 pc) := by
  have computes : Computes st rd _ _ :=
    computes_rvAluRr operand operand1.isSrc operand2.isSrc .add pc
  unfold lowerAdd
  split
  · next tracked =>
    refine computes.yields_track operand fun st' _ => ?_
    cases mapped : rvSlot rd with
    | none =>
      unfold trackAddScaledadd
      rw [mapped]
      exact .inl rfl
    | some slot =>
    cases mapped1 : rvSlot rs1 with
    | none =>
      unfold trackAddScaledadd
      rw [mapped, mapped1]
      exact .inl rfl
    | some a =>
    cases mapped2 : rvSlot rs2 with
    | none =>
      unfold trackAddScaledadd
      rw [mapped, mapped1, mapped2]
      exact .inl rfl
    | some b =>
      have a_ne : a ≠ slot := by
        rintro rfl
        exact tracked.1 (rvSlot_inj mapped mapped1)
      have b_ne : b ≠ slot := by
        rintro rfl
        exact tracked.2 (rvSlot_inj mapped mapped2)
      simp only [AluOp.regOp, RegOp.eval, regRead_guestRegs mapped1, regRead_guestRegs mapped2,
        trackAddScaledadd_apply mapped mapped1 mapped2]
      split
      · next src shift known =>
        refine .inr ⟨slot, _, rfl, rfl, fun m m' sets holds => ?_⟩
        exact holds_scaledAdd sets mapped a_ne b_ne (known ▸ holds b)
      · next src shift known _ =>
        refine .inr ⟨slot, _, rfl, rfl, fun m m' sets holds => ?_⟩
        rw [BitVec.add_comm] at sets
        exact holds_scaledAdd sets mapped b_ne a_ne (known ▸ holds a)
      · exact .inl rfl
  · exact computes.yields_pure operand

/-- The operation after a load that is fused with it. -/
theorem yields_trailer {t : Trailer} (operand : IsOperand t.rd) (operand1 : IsOperand t.rs1)
    (operand2 : IsOperand t.rs2) (pc : Nat) :
    Yields st t.rd (fun regs => t.op.regOp.eval (regRead regs t.rs1) (regRead regs t.rs2)) (do
      rvAluRr t.rd t.rs1 t.rs2 t.op pc
      (if t.op = .add ∧ t.rd ≠ t.rs1 ∧ t.rd ≠ t.rs2 then trackAddScaledadd t.rd t.rs1 t.rs2
        else pure ())) := by
  by_cases add : t.op = .add
  · simpa [lowerAdd, add, AluOp.regOp] using yields_lowerAdd operand operand1 operand2 pc
  · have computes : Computes st t.rd _ (rvAluRr t.rd t.rs1 t.rs2 t.op pc) :=
      computes_rvAluRr operand operand1.isSrc operand2.isSrc t.op pc
    simpa [add] using computes.yields operand

theorem yields_lowerShadd (operand : IsOperand rd) (operand1 : IsOperand rs1)
    (operand2 : IsOperand rs2) (shift : BitVec 6) (pc : Nat) :
    Yields st rd (fun regs => (regRead regs rs1 <<< shift.toNat) + regRead regs rs2)
      (lowerShadd rd rs1 rs2 shift pc) := by
  have computes : Computes st rd (fun regs => (regRead regs rs1 <<< shift.toNat) + regRead regs rs2)
      (rvShadd rd rs1 rs2 shift false pc) :=
    computes_rvShadd operand operand1.isSrc operand2.isSrc shift false pc
  refine computes.yields_track operand fun st' _ => ?_
  unfold recordScaledadd
  by_cases overwrites : rd = rs1 ∨ rd = rs2
  · rw [if_pos overwrites]
    exact .inl rfl
  · rw [if_neg overwrites]
    cases mapped : rvSlot rd with
    | none => exact .inl rfl
    | some slot =>
    cases mapped1 : rvSlot rs1 with
    | none => exact .inl rfl
    | some a =>
    cases mapped2 : rvSlot rs2 with
    | none => exact .inl rfl
    | some b =>
      have a_ne : a ≠ slot := by
        rintro rfl
        exact overwrites (.inl (rvSlot_inj mapped mapped1))
      have b_ne : b ≠ slot := by
        rintro rfl
        exact overwrites (.inr (rvSlot_inj mapped mapped2))
      refine .inr ⟨slot, _, rfl, rfl, fun m m' sets _ => ?_⟩
      rw [RegDef.Holds, sets.value mapped, sets.agreesBut mapped a a_ne,
        sets.agreesBut mapped b b_ne, regRead_guestRegs mapped1, regRead_guestRegs mapped2,
        BitVec.add_comm]

end

end Jar.Recompiler
