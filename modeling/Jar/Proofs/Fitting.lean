import Jar.Proofs.AccessLowering

/-! Every lowering routine returns on registers that live in host registers, and what it emits
refers to labels of the label table only. -/

namespace Jar.Recompiler

open X86 Lower

/-! ## Routines that return -/

/-- A routine that returns whatever it starts from, with labels of its own only. -/
def Emits (body : Lower Unit) : Prop :=
  ∀ st, ∃ st' items, body st = some ((), st') ∧ Appends st st' items

section

variable {rd rs1 rs2 : RegIdx}

theorem Yields.emits {value : Regs → Word64} {body : Lower Unit}
    (yields : ∀ st, Yields st rd value body) : Emits body := fun st =>
  let ⟨st', items, emitted, appends, _⟩ := yields st
  ⟨st', items, emitted, appends⟩

/-- An unsigned comparison returns also where it reads the carry of an addition. -/
theorem emits_rvSltRr (operand : IsOperand rd) (operand1 : IsOperand rs1)
    (operand2 : IsOperand rs2) (pc : Nat) : Emits (rvSltRr rd rs1 rs2 false pc) := by
  intro st
  cases fuses : fusesCarry st.lastAddCf rd rs1 rs2 with
  | false =>
    obtain ⟨st', items, emitted, appends, -⟩ :=
      computes_rvSltRr operand operand1.isSrc operand2.isSrc (.inr fuses) pc
    exact ⟨st', items, emitted, appends⟩
  | true =>
    rcases operand with rfl | mapped
    · exact ⟨st, [].map .ins, rfl, .code (by simp) rfl⟩
    · obtain ⟨slot, mapped⟩ := Option.isSome_iff_exists.mp mapped
      rw [rvSltRr, rvRoutine_mapped mapped (by simp [operand1.ordinary, operand2.ordinary])]
      refine ⟨{ st with
        items := st.items ++ [.movImm32 (regMap slot) 0, .setcc .b (regMap slot)].map .ins
        regDefs := setDef st.regDefs slot .unknown }, _, by simp [fuses], .code rfl rfl⟩

theorem fits_divCoreItems (signed remainder is32 : Bool) (d b : Reg) {base l : Nat}
    (above : base ≤ l) (table : Nat) :
    newLabels (divCoreItems signed remainder is32 d b l) = (if signed then 3 else 2) ∧
      Fits base table l (divCoreItems signed remainder is32 d b l) := by
  cases signed <;> simp [divCoreItems, negOneItems, Item.newLabels, Fits, Item.Placed] <;> omega

theorem emits_rvDivRem (operand : IsOperand rd) (operand1 : IsOperand rs1)
    (operand2 : IsOperand rs2) (signed remainder is32 : Bool) (pc : Nat) :
    Emits (rvDivRem rd rs1 rs2 signed remainder is32 pc) := by
  intro st
  rcases operand with rfl | mapped
  · exact ⟨st, [].map .ins, rfl, .code (by simp) rfl⟩
  · obtain ⟨slot, mapped⟩ := Option.isSome_iff_exists.mp mapped
    have core := @fits_divCoreItems signed remainder is32 (regMap slot) (divisorReg (hostReg rs2))
      st.labelsLen st.labelsLen (Nat.le_refl _) 0
    refine ⟨_, _, rvDivRem_apply mapped operand1.isSrc operand2.isSrc signed remainder is32 pc st,
      rfl, by simp [divItems, core.1], fun base table above => ?_⟩
    simpa [divItems] using
      (fits_divCoreItems signed remainder is32 _ _ above table).2.append (fits_code _)

theorem emits_rvLoad (operand : IsOperand rd) (operand1 : IsOperand rs1) (imm : BitVec 32)
    (bytes : Nat) (signed : Bool) (pc : Nat) : Emits (rvLoad rd rs1 imm bytes signed pc) :=
  fun st => ⟨_, _, rvLoad_apply operand operand1 imm bytes signed pc st, rfl,
    by simp [loadItems, Item.newLabels],
    fun _ _ _ => by simp [loadItems, Fits, Item.Placed]⟩

theorem emits_rvStore (operand1 : IsOperand rs1) (operand2 : IsOperand rs2) (imm : BitVec 32)
    (bytes pc : Nat) : Emits (rvStore rs1 rs2 imm bytes pc) := by
  refine fun st => ⟨_, _, rvStore_apply operand1 operand2 imm bytes pc st, rfl, ?_, fun _ _ _ => ?_⟩
  all_goals
    unfold storeItems
    cases hostReg rs2 <;> simp [Item.newLabels, Fits, Item.Placed]

theorem emits_fusedMul (signed : Bool) (lo hi a b : HostSlot) :
    Emits (fusedMul signed lo hi a b) := fun _ => ⟨_, _, rfl, .code rfl rfl⟩

end

/-! ## Composition -/

/-- A routine that returns whenever `low` labels have been handed out, and what it emits fits. -/
def Fitting (base table low : Nat) {α : Type} (body : Lower α) : Prop :=
  ∀ st, low ≤ st.labelsLen → ∃ a st' items, body st = some (a, st') ∧
    st'.items = st.items ++ items ∧ st'.labelsLen = st.labelsLen + newLabels items ∧
    Fits base table st.labelsLen items

section

variable {base table low : Nat} {α β : Type}

theorem fitting_pure (a : α) : Fitting base table low (pure a : Lower α) :=
  fun st _ => ⟨a, st, [], rfl, by simp, rfl, trivial⟩

theorem Fitting.bind {body : Lower α} {f : α → Lower β} (first : Fitting base table low body)
    (second : ∀ a, Fitting base table low (f a)) : Fitting base table low (body >>= f) := by
  intro st enough
  obtain ⟨a, st₁, items₁, ran₁, appended₁, labels₁, fits₁⟩ := first st enough
  obtain ⟨b, st₂, items₂, ran₂, appended₂, labels₂, fits₂⟩ :=
    second a st₁ (by rw [labels₁]; omega)
  refine ⟨b, st₂, items₁ ++ items₂, ?_, ?_, ?_, fits₁.append (labels₁ ▸ fits₂)⟩
  · rw [lower_bind_apply, ran₁, Option.bind_some, ran₂]
  · rw [appended₂, appended₁, List.append_assoc]
  · rw [labels₂, labels₁, newLabels_append, Nat.add_assoc]

theorem fitting_emitItems {items : List Item}
    (placed : ∀ item ∈ items, item.newLabels = 0 ∧ item.Placed base table low) :
    Fitting base table low (emitItems items) := by
  intro st enough
  obtain ⟨none, fits⟩ := fits_of_forall fun item member =>
    ⟨(placed item member).1, (placed item member).2.mono enough⟩
  exact ⟨(), _, items, rfl, rfl, by simp [none], fits⟩

theorem fitting_emit (code : List Instr) : Fitting base table low (emit code) := fun st _ =>
  ⟨(), _, code.map .ins, rfl, rfl, by simp, fits_code code⟩

theorem Emits.fitting {body : Lower Unit} (emits : Emits body) (above : base ≤ low) :
    Fitting base table low body := by
  intro st enough
  obtain ⟨st', items, emitted, appends⟩ := emits st
  exact ⟨(), st', items, emitted, appends.appended, appends.labels,
    appends.fits base table (Nat.le_trans above enough)⟩

theorem fitting_invalidateReg (slot : HostSlot) : Fitting base table low (invalidateReg slot) :=
  fun st _ => ⟨(), _, [], rfl, by simp, rfl, trivial⟩

theorem fitting_trackConst (rd : RegIdx) (imm : BitVec 32) :
    Fitting base table low (trackConst rd imm) := by
  unfold trackConst
  split
  · exact fun st _ => ⟨(), _, [], rfl, by simp, rfl, trivial⟩
  · exact fitting_pure _

theorem fitting_fusedLoad (above : base ≤ low) {rd rs1 : RegIdx} (operand : IsOperand rd)
    (operand1 : IsOperand rs1) (imm : BitVec 32) {t : Trailer} (operandT : IsOperand t.rd)
    (operandT1 : IsOperand t.rs1) (operandT2 : IsOperand t.rs2) (pc : Nat) :
    Fitting base table low (fusedLoad rd rs1 imm t pc) :=
  ((emits_rvLoad operand operand1 imm 8 false pc).fitting above).bind fun _ =>
    (Yields.emits fun _ => yields_trailer operandT operandT1 operandT2 (pc + 4)).fitting above

theorem fitting_fusedLui {rd other : RegIdx} (operand : IsOperand rd) (operand1 : IsOperand other)
    (imm : BitVec 32) (pc : Nat) : Fitting base table low (fusedLui rd other imm pc) := by
  rcases operand with rfl | mapped
  · exact fitting_pure _
  · obtain ⟨slot, mapped⟩ := Option.isSome_iff_exists.mp mapped
    unfold fusedLui
    rw [rvDst_mapped mapped, pure_bind]
    dsimp only
    split
    · exact (fitting_emit _).bind fun _ => fitting_trackConst _ _
    · next nonzero =>
      obtain ⟨slot', mapped'⟩ := Option.isSome_iff_exists.mp (operand1.resolve_left nonzero)
      rw [hostReg, mapped', mapped]
      exact (fitting_emit _).bind fun _ => fitting_invalidateReg _

end

/-! ## Jumps and exits -/

theorem label_of_start {env : CodeEnv} {target : BitVec 32}
    (start : ¬(!env.isBasicBlockStart target) = true) {table : Nat}
    (code : env.codeLen + 1024 ≤ table) : 5 + target.toNat < table := by
  simp only [CodeEnv.isBasicBlockStart, Bool.not_eq_true', Bool.not_eq_false, Bool.and_eq_true,
    decide_eq_true_eq] at start
  omega

section

variable {base table low : Nat} {rd rs1 rs2 : RegIdx} {env : CodeEnv} (room : 5 ≤ low)

include room

theorem fitting_rvEmitPanicAt (pc : Nat) : Fitting base table low (rvEmitPanicAt pc) := by
  have exit : exitLabel < low := Nat.lt_of_lt_of_le (by decide) room
  exact fitting_emitItems (by simp [Item.newLabels, Item.Placed, exit])

theorem fitting_emitExit (reason arg : BitVec 32) : Fitting base table low (emitExit reason arg) := by
  have exit : exitLabel < low := Nat.lt_of_lt_of_le (by decide) room
  exact fitting_emitItems (by simp [Item.newLabels, Item.Placed, exit])

theorem fitting_rvExitAt (pc : Nat) (reason arg : BitVec 32) :
    Fitting base table low (rvExitAt pc reason arg) :=
  (fitting_emit _).bind fun _ => fitting_emitExit room reason arg

/-- A jump to an offset of the code refers to the label of the offset. -/
theorem fitting_guest {kind : JumpKind} {target : BitVec 32}
    (inside : kind ≠ .invalid → 5 + target.toNat < table) (cc : Option Cc) (pc : Nat) :
    Fitting base table low (emitItems [.guest kind cc target pc]) := by
  have label : labelForPc target ≤ 5 + target.toNat := by
    rw [labelForPc, BitVec.toNat_add]
    exact Nat.mod_le _ _
  refine fitting_emitItems ?_
  simp only [List.mem_singleton, forall_eq, Item.newLabels, Item.Placed, true_and]
  cases kind with
  | forward | backward => exact lt_max_of_lt_right (Nat.lt_of_le_of_lt label (inside (by simp)))
  | invalid => exact lt_max_of_lt_left (Nat.lt_of_lt_of_le (by decide : panicLabel < 5) room)

variable {target : BitVec 32} (code : env.codeLen + 1024 ≤ table)
  (inside : 5 + target.toNat < env.codeLen + 1024)

include code inside

theorem fitting_emitStaticBranch (pc : Nat) :
    Fitting base table low (emitStaticBranch env target pc) := by
  unfold emitStaticBranch
  split
  · exact fitting_guest room (fun _ => by omega) none pc
  · split
    · exact (fitting_emit _).bind fun _ => fitting_emitExit room _ _
    · next start =>
      exact fitting_guest room (fun _ => label_of_start start code) none pc

theorem fitting_emitBranchReg (a b : Reg) (cc : Cc) (pc : Nat) :
    Fitting base table low (emitBranchReg env a b cc target pc) := by
  unfold emitBranchReg
  split
  · exact (fitting_emit _).bind fun _ => fitting_guest room (fun _ => by omega) _ pc
  · split
    · exact (fitting_emit _).bind fun _ => fitting_guest room (fun valid => absurd rfl valid) _ pc
    · next start =>
      exact (fitting_emit _).bind fun _ =>
        fitting_guest room (fun _ => label_of_start start code) _ pc

theorem fitting_emitCondBranchTo (cc : Cc) (pc : Nat) :
    Fitting base table low (emitCondBranchTo env cc target pc) := by
  unfold emitCondBranchTo
  split
  · exact fitting_guest room (fun _ => by omega) _ pc
  · split
    · exact (fitting_emit _).bind fun _ => fitting_guest room (fun valid => absurd rfl valid) _ pc
    · next start =>
      exact fitting_guest room (fun _ => label_of_start start code) _ pc

end

section

variable {base table low : Nat} {rd rs1 rs2 : RegIdx} {env : CodeEnv} (room : 5 ≤ low)
  (code : env.codeLen + 1024 ≤ table)

theorem fitting_writeLink (operand : IsOperand rd) (nextPc : Nat) :
    Fitting base table low (writeLink env rd nextPc) := by
  unfold writeLink
  split
  · exact fitting_pure _
  · next nonzero =>
    obtain ⟨slot, mapped⟩ := Option.isSome_iff_exists.mp (operand.resolve_left nonzero)
    rw [mapped]
    exact (fitting_emit _).bind fun _ => fitting_invalidateReg _

/-- A source of a spilled word is an operand, or spilled itself. -/
theorem fitting_rvRead_spilled (operand : IsOperand rs1 ∨ regIsSpilled rs1 = true) (d : Reg)
    (pc : Nat) : Fitting base table low (rvRead rs1 d pc) := by
  rcases operand with operand | spilled
  · rw [rvRead_isSrc operand.isSrc]
    exact fitting_emit _
  · unfold rvRead
    rw [if_pos spilled]
    split <;> exact fitting_emit _

theorem fitting_rvReadInto (operand : IsOperand rs1 ∨ regIsSpilled rs1 = true) (tmp : Reg)
    (pc : Nat) : Fitting base table low (rvReadInto rs1 tmp pc) := by
  unfold rvReadInto
  split
  · exact (fitting_emit _).bind fun _ => fitting_pure _
  · next nonzero =>
    rcases operand with operand | spilled
    · obtain ⟨slot, mapped⟩ := Option.isSome_iff_exists.mp (operand.resolve_left nonzero)
      obtain ⟨-, ordinary, unspilled⟩ := of_rvSlot mapped
      simp only [ordinary, unspilled, Bool.false_eq_true, if_false]
      rw [hostReg, mapped]
      exact fitting_pure _
    · rw [if_pos spilled]
      exact (fitting_emit _).bind fun _ => fitting_pure _

theorem fitting_jumpAddress (operand : IsOperand rs1 ∨ regIsSpilled rs1 = true) (imm : BitVec 32)
    (pc : Nat) : Fitting base table low (jumpAddress rs1 imm pc) :=
  (fitting_rvRead_spilled operand _ pc).bind fun _ => (fitting_emit _).bind fun _ =>
    fitting_emit _

include room

theorem fitting_jumpIndirect : Fitting base table low (emitItems (jumpIndirect env)) := by
  have panic : panicLabel < low := Nat.lt_of_lt_of_le (by decide) room
  refine fitting_emitItems ?_
  unfold jumpIndirect
  split <;> simp [Item.newLabels, Item.Placed, panic]

theorem fitting_rvJalr (operand : IsOperand rd) (operand1 : IsOperand rs1) (imm : BitVec 32)
    (pc nextPc : Nat) : Fitting base table low (rvJalr env rd rs1 imm pc nextPc) := by
  unfold rvJalr
  simp only [operand1.ordinary, Bool.false_eq_true, if_false]
  exact (fitting_jumpAddress (.inl operand1) imm pc).bind fun _ =>
    (fitting_writeLink operand nextPc).bind fun _ => fitting_jumpIndirect room

theorem fitting_rvJalrSpilled (operand : IsOperand rd ∨ regIsSpilled rd = true)
    (operand1 : IsOperand rs1 ∨ regIsSpilled rs1 = true) (imm : BitVec 32) (pc nextPc : Nat) :
    Fitting base table low (rvJalrSpilled env rd rs1 imm pc nextPc) := by
  refine (fitting_jumpAddress operand1 imm pc).bind fun _ => ?_
  refine Fitting.bind ?_ fun _ => fitting_jumpIndirect room
  split
  · exact fitting_emit _
  · next unspilled => exact fitting_writeLink (operand.resolve_right unspilled) nextPc

include code

theorem fitting_rvJal (operand : IsOperand rd) {imm : BitVec 32} {pc : Nat}
    (inside : 5 + (jumpTarget pc imm).toNat < env.codeLen + 1024) (nextPc : Nat) :
    Fitting base table low (rvJal env rd imm pc nextPc) := by
  unfold rvJal
  simp only [operand.ordinary, Bool.false_eq_true, if_false]
  exact (fitting_writeLink operand nextPc).bind fun _ =>
    fitting_emitStaticBranch room code inside pc

theorem fitting_rvJalSpilled {imm : BitVec 32} {pc : Nat}
    (inside : 5 + (jumpTarget pc imm).toNat < env.codeLen + 1024) (rd : RegIdx) (nextPc : Nat) :
    Fitting base table low (rvJalSpilled env rd imm pc nextPc) :=
  (fitting_emit _).bind fun _ => fitting_emitStaticBranch room code inside pc

theorem fitting_rvBranch (operand1 : IsOperand rs1) (operand2 : IsOperand rs2) {imm : BitVec 32}
    {pc : Nat} (inside : 5 + (jumpTarget pc imm).toNat < env.codeLen + 1024) (cc : Cc) :
    Fitting base table low (rvBranch env rs1 rs2 imm cc pc) := by
  unfold rvBranch
  simp only [operand1.ordinary, operand2.ordinary, Bool.or_self, Bool.false_eq_true, if_false]
  refine (fitting_rvReadInto (.inl operand1) scratch pc).bind fun a => ?_
  split
  · exact (fitting_emit _).bind fun _ => fitting_emitBranchReg room code inside _ _ cc pc
  · next nonzero =>
    obtain ⟨slot, mapped⟩ := Option.isSome_iff_exists.mp (operand2.resolve_left nonzero)
    rw [hostReg, mapped]
    exact fitting_emitBranchReg room code inside _ _ cc pc

theorem fitting_rvBranchSpilled (operand1 : IsOperand rs1 ∨ regIsSpilled rs1 = true)
    (operand2 : IsOperand rs2 ∨ regIsSpilled rs2 = true) {imm : BitVec 32} {pc : Nat}
    (f3 : BitVec 3) (inside : branchCc f3 ≠ none → 5 + (jumpTarget pc imm).toNat < env.codeLen + 1024) :
    Fitting base table low (rvBranchSpilled env rs1 rs2 f3 imm pc) := by
  unfold rvBranchSpilled
  split
  · exact fitting_rvEmitPanicAt room pc
  · next cc known =>
    refine (fitting_rvReadInto operand1 scratch pc).bind fun a => ?_
    refine Fitting.bind ?_ fun _ =>
      fitting_emitCondBranchTo room code (inside (by simp [known])) cc pc
    unfold compareSpilled
    split
    · exact fitting_emit _
    · next unspilled =>
      split
      · exact fitting_emit _
      · next nonzero =>
        have operand := operand2.resolve_right unspilled
        obtain ⟨slot, mapped⟩ := Option.isSome_iff_exists.mp (operand.resolve_left nonzero)
        rw [hostReg, mapped]
        exact fitting_emit _

end

end Jar.Recompiler
