import Jar.Proofs.DispatchGas

/-! What the routines around a word with spilled registers emit. -/

namespace Jar.Recompiler

open X86 Lower

/-! ## The code around a word with donors -/

/-- The slots of the donors, each with the spilled register it stands in for. -/
def donorSlots (donors : List (RegIdx × RegIdx)) : Option (List (RegIdx × HostSlot)) :=
  donors.mapM fun d => (rvSlot d.2).map fun slot => (d.1, slot)

/-- The code that saves the donors and loads the spilled sources into them. -/
def donorLoads (sources : List RegIdx) (slots : List (RegIdx × HostSlot)) : List Instr :=
  slots.map (fun d => .push (regMap d.2))
    ++ (slots.filter (·.1 ∈ sources)).map fun d =>
      .loadCtx64 (regMap d.2) (.reg (spillSlot d.1))

/-- The code that stores a spilled destination and restores the donors. -/
def donorStores (rd : Option RegIdx) (slots : List (RegIdx × HostSlot)) : List Instr :=
  ((slots.filter (some ·.1 = rd)).map fun d => .storeCtx64 (.reg (spillSlot d.1)) (regMap d.2))
    ++ slots.reverse.map fun d => .pop (regMap d.2)

section

variable {st : LowerState} {donors : List (RegIdx × RegIdx)} {slots : List (RegIdx × HostSlot)}

theorem forM_invalidateReg (slots : List (RegIdx × HostSlot)) (st : LowerState) :
    slots.forM (fun d => invalidateReg d.2) st = some ((), { st with
      regDefs := (slots.map (·.2)).foldl (fun defs slot => setDef defs slot .unknown)
        st.regDefs }) := by
  induction slots generalizing st with
  | nil => rfl
  | cons d slots ih => exact ih _

theorem donorPrologue_apply (mapped : donorSlots donors = some slots) (sources : List RegIdx) :
    donorPrologue sources donors st = some ((), { st with
      items := st.items ++ (donorLoads sources slots).map .ins
      regDefs := (slots.map (·.2)).foldl (fun defs slot => setDef defs slot .unknown)
        st.regDefs }) := by
  unfold donorSlots at mapped
  unfold donorPrologue donorLoads
  rw [mapped]
  refine (forM_invalidateReg slots _).trans ?_
  simp

theorem donorEpilogue_apply (mapped : donorSlots donors = some slots) (rd : Option RegIdx) :
    donorEpilogue rd donors st = some ((), { st with
      items := st.items ++ (donorStores rd slots).map .ins
      regDefs := (slots.map (·.2)).foldl (fun defs slot => setDef defs slot .unknown)
        st.regDefs }) := by
  unfold donorSlots at mapped
  unfold donorEpilogue donorStores
  rw [mapped]
  refine (congrArg (Option.bind · fun r => Lower.emit _ r.2) (forM_invalidateReg slots _)).trans ?_
  simp [Lower.emit, Lower.emitItems, modify, modifyGet, MonadStateOf.modifyGet, StateT.modifyGet,
    pure]

end

/-! ## Which donors are picked -/

theorem slot_of_donor {regs : List RegIdx} {c : RegIdx} (donor : Donor regs c) :
    ∃ slot, rvSlot c = some slot ∧ ∀ x ∈ 0 :: regs, rvSlot x ≠ some slot := by
  obtain ⟨plain, nonzero⟩ := plain_of_candidate donor.1
  obtain ⟨slot, mapped⟩ := Option.isSome_iff_exists.mp (plain.isSome_rvSlot nonzero)
  refine ⟨slot, mapped, fun x used same => ?_⟩
  rcases List.mem_cons.mp used with rfl | used
  · cases same
  · exact donor.2 (rvSlot_inj mapped same ▸ used)

/-- What stands in for a register: a spilled one has a donor of its own, and no donor is used by
the word itself. -/
def StandsIn (regs : List RegIdx) (donors : List (RegIdx × RegIdx))
    (slots : List (RegIdx × HostSlot)) : Prop :=
  ∀ x ∈ regs,
    (∃ slot, (x, slot) ∈ slots ∧ rvSlot (donorOf donors x) = some slot ∧ (x = 3 ∨ x = 4)) ∨
      (donorOf donors x = x ∧ x ∉ slots.map (·.1) ∧
        ∀ slot, rvSlot x = some slot → slot ∉ slots.map (·.2))

theorem standsIn_single {regs : List RegIdx} {y c : RegIdx} (spilled : y = 3 ∨ y = 4)
    (donor : Donor regs c) : ∃ slots, donorSlots [(y, c)] = some slots ∧
      (slots.map (·.1)).Nodup ∧ (slots.map (·.2)).Nodup ∧
      StandsIn (0 :: regs) [(y, c)] slots := by
  obtain ⟨slot, mapped, unused⟩ := slot_of_donor donor
  refine ⟨[(y, slot)], by simp [donorSlots, mapped], by simp, by simp, fun x used => ?_⟩
  by_cases same : x = y
  · subst same
    exact .inl ⟨slot, by simp, by simpa [donorOf] using mapped, spilled⟩
  · refine .inr ⟨by simp [donorOf, List.lookup_cons, beq_false_of_ne same], by simpa using same,
      fun other own listed => ?_⟩
    obtain rfl : other = slot := by simpa using listed
    exact unused x used own

theorem standsIn_pickDonors {regs : List RegIdx} {donors : List (RegIdx × RegIdx)}
    (picked : pickDonors regs = some donors) : ∃ slots, donorSlots donors = some slots ∧
      (slots.map (·.1)).Nodup ∧ (slots.map (·.2)).Nodup ∧ StandsIn (0 :: regs) donors slots := by
  rcases pickDonors_eq_some picked with ⟨_, _, rfl⟩ | ⟨_, _, c, rfl, donor⟩ |
    ⟨_, _, c, rfl, donor⟩ | ⟨_, _, c, c', rfl, donor, donor', apart⟩
  · exact ⟨[], rfl, .nil, .nil, fun x _ => .inr ⟨rfl, by simp, by simp⟩⟩
  · exact standsIn_single (.inl rfl) donor
  · exact standsIn_single (.inr rfl) donor
  · obtain ⟨slot, mapped, unused⟩ := slot_of_donor donor
    obtain ⟨slot', mapped', unused'⟩ := slot_of_donor donor'
    have different : slot ≠ slot' := fun same => apart (rvSlot_inj mapped (same ▸ mapped'))
    refine ⟨[(3, slot), (4, slot')], by simp [donorSlots, mapped, mapped'], by simp,
      by simp [different], fun x used => ?_⟩
    by_cases three : x = 3#5
    · subst three
      exact .inl ⟨slot, by simp, mapped, .inl rfl⟩
    by_cases four : x = 4#5
    · subst four
      exact .inl ⟨slot', by simp, mapped', .inr rfl⟩
    refine .inr ⟨by simp [donorOf, List.lookup_cons, beq_false_of_ne three, beq_false_of_ne four],
      by simp [three, four], fun other own listed => ?_⟩
    have either : other = slot ∨ other = slot' := by simpa using listed
    rcases either with rfl | rfl
    · exact unused x used own
    · exact unused' x used own

theorem Fields.length_regs (fields : Fields) (w : BitVec 32) : (fields.regs w).length ≤ 3 := by
  obtain ⟨rd, rs1, rs2⟩ := fields
  cases rd <;> cases rs1 <;> cases rs2 <;> simp [Fields.regs]

/-! ## Words that name a spilled register -/

section

variable {env : CodeEnv} {g : GasState} {st : LowerState} {w : BitVec 32}

/-- What a word that names a spilled register compiles to, apart from the accounting of its gas. -/
theorem compileRvSpilled_eq (length : lengthBits w = 0b11#2)
    (redispatch : BitVec 32 → Dispatch Compiled) (pc instLen : Nat) :
    ∃ g₁ term, compileRvSpilled env redispatch w pc instLen g st =
      (emitSpilled env redispatch w pc instLen g₁ st).map fun r =>
        ((⟨term, false, 0⟩, { r.1.2 with suppress := false }), r.2) := by
  simp only [compileRvSpilled, decode_wordBytes length, unwrap_some, lift_bind_apply,
    Option.map_eq_bind]
  exact ⟨_, _, rfl⟩

end

end Jar.Recompiler
