import Jar.Proofs.Division

/-! For which operands the code of a division computes what the interpreter computes. -/

namespace Jar.Recompiler

open X86

/-- A register field that the lowering routines accept: `x0` or one with a host register. -/
def IsOperand (x : RegIdx) : Prop := x = 0 ∨ (rvSlot x).isSome

instance (x : RegIdx) : Decidable (IsOperand x) := inferInstanceAs (Decidable (_ ∨ _))

theorem IsOperand.isSrc {x : RegIdx} (operand : IsOperand x) : IsSrc x (hostReg x) := by
  revert x
  unfold IsSrc
  decide

/-- The routine emits code that, from every state, falls through with the interpreter's result in
the destination and nothing else of the guest changed. -/
def DivisionCorrect (signed remainder is32 : Bool) (rd rs1 rs2 : RegIdx) : Prop :=
  ∀ (env : Env) (pc : Nat) (st : LowerState) (m : Machine),
    ∃ st' items m', rvDivRem rd rs1 rs2 signed remainder is32 pc st = some ((), st') ∧
      st'.items = st.items ++ items ∧ run env items m = .fall m' ∧
      Sets rd ((divOp signed remainder is32).eval (regRead (guestRegs m) rs1)
        (regRead (guestRegs m) rs2)) m m'

section

variable {signed remainder is32 : Bool} {rd rs1 rs2 : RegIdx} {slot : HostSlot}
  {r1 r2 : Option Reg}

theorem divisionCorrect_iff (mapped : rvSlot rd = some slot) (src1 : IsSrc rs1 r1)
    (src2 : IsSrc rs2 r2) :
    DivisionCorrect signed remainder is32 rd rs1 rs2 ↔ ∀ m : Machine,
      (if regMap slot = .rcx ∧ spillsRcx r2 = true then m.regs .rcx
        else (divOp signed remainder is32).eval (divDividend m r1 r2) (srcVal m r2)) =
          (divOp signed remainder is32).eval (srcVal m r1) (srcVal m r2) := by
  have host := isHost_regMap slot
  have host1 : ∀ r, r1 = some r → IsHost r := fun r same => isSrc_isHost (same ▸ src1)
  have host2 : ∀ r, r2 = some r → IsHost r := fun r same => isSrc_isHost (same ▸ src2)
  have spec (env : Env) (m : Machine) := run_divItems env [] (m := m)
    signed remainder is32 (l := 0) host host1 host2
  constructor
  · intro correct m
    obtain ⟨st', items, m', emitted, items_eq, ran, sets⟩ := correct (.ofCode []) 0
      ⟨fun _ => .unknown, none, 0, []⟩ m
    rw [rvDivRem_apply mapped src1 src2] at emitted
    cases emitted
    obtain ⟨reached, ran', regs, -⟩ := spec (.ofCode []) m
    have same : m' = reached := by
      simp only [List.nil_append] at items_eq
      rw [List.append_nil, items_eq, ran] at ran'
      exact Leave.fall.inj ran'
    have written := sets.value mapped
    rw [← srcVal_isSrc src1, ← srcVal_isSrc src2, same, regs _ host.1] at written
    rw [← written]
    by_cases lost : regMap slot = .rcx ∧ spillsRcx r2 = true
    · simp [lost]
    · simp [lost]
  · intro value env pc st m
    obtain ⟨m', ran, regs, stack, ctx, mem⟩ := run_divItems env [] (m := m)
      signed remainder is32 (l := st.labelsLen) host host1 host2
    refine ⟨_, _, m', rvDivRem_apply mapped src1 src2 signed remainder is32 pc st, rfl, ?_, ?_, ?_,
      ?_, stack, ctx, mem⟩
    · simpa using ran
    · rw [← srcVal_isSrc src1, ← srcVal_isSrc src2, ← value m]
      refine guestRegs_update mapped (fun r isHost => ?_) (by rw [ctx])
      rw [regs r isHost.1]
      by_cases lost : regMap slot = .rcx ∧ spillsRcx r2 = true
      · rw [if_neg (by simp [lost]), if_pos lost]
        split <;> simp_all
      · simp [lost]
    · simpa [host.2.1.symm] using regs .rsp (by decide)
    · simpa [host.2.2.symm] using regs gasReg (by decide)

/-- Registers with given values in RAX and RCX. -/
def raxRcx (a c : Word64) : Reg → Word64
  | .rax => a
  | .rcx => c
  | _ => 0

/-- A source other than RCX reads as RAX or zero. -/
theorem srcVal_raxRcx (r : Option Reg) (a c : Word64) :
    r = some .rcx ∨ srcVal (.ofRegs (raxRcx a c)) r ∈ [a, 0] := by
  rcases r with _ | r
  · simp [srcVal]
  · cases r <;> simp [srcVal, Machine.ofRegs, raxRcx]

theorem spillsRcx_iff : spillsRcx r2 = true ↔ r2 = none ∨ r2 = some .rax := by
  rcases r2 with _ | r <;> simp [spillsRcx]

/-- A result in RCX is lost with RCX saved, which is right only where it equals the old value. -/
theorem rcx_eq_eval_iff (moved : r2 = none ∨ r2 = some .rax) :
    (∀ m : Machine, m.regs .rcx =
      (divOp signed remainder is32).eval (srcVal m r1) (srcVal m r2)) ↔
        r2 = none ∧ r1 = some .rcx ∧ remainder = true ∧ is32 = false := by
  constructor
  · intro value
    have zero := value (.ofRegs (raxRcx 0 0))
    rw [divOp_eval_zero (by rcases moved with rfl | rfl <;> cases is32 <;> rfl)] at zero
    cases remainder
    · -- The quotient is minus one, whatever RCX holds.
      cases zero
    · rcases moved with rfl | rfl
      · have one := value (.ofRegs (raxRcx 0 1))
        have wide := value (.ofRegs (raxRcx 0 (2 ^ 32)))
        rw [divOp_eval_zero (by cases is32 <;> rfl)] at one wide
        have inRcx : r1 = some .rcx := by
          rcases srcVal_raxRcx r1 0 1 with other | absent
          · exact other
          · have read : srcVal (.ofRegs (raxRcx 0 1)) r1 = 0 := by simpa using absent
            rw [read] at one
            exact absurd one (by cases is32 <;> decide)
        subst inRcx
        refine ⟨rfl, rfl, rfl, ?_⟩
        clear zero one value
        revert is32
        decide
      · -- The remainder by one is zero, whatever the dividend is.
        have one := value (.ofRegs (raxRcx 1 1))
        have read : srcVal (.ofRegs (raxRcx 1 1)) r1 = 1 ∨ srcVal (.ofRegs (raxRcx 1 1)) r1 = 0 := by
          rcases srcVal_raxRcx r1 1 1 with rfl | other
          · exact .inl rfl
          · simpa using other
        rcases read with read | read <;> rw [read] at one <;>
          exact absurd one (by cases signed <;> cases is32 <;> decide)
  · rintro ⟨rfl, rfl, rfl, rfl⟩ m
    rw [divOp_eval_zero (by rfl)]
    rfl

/-- A dividend in RCX is read after the divisor went there, which shows unless the quotient is the
one of a zero divisor. -/
theorem eval_divisor_iff (moved : r2 = none ∨ r2 = some .rax) :
    (∀ m : Machine, (divOp signed remainder is32).eval (srcVal m r2) (srcVal m r2) =
      (divOp signed remainder is32).eval (m.regs .rcx) (srcVal m r2)) ↔
        r2 = none ∧ remainder = false := by
  constructor
  · intro value
    rcases moved with rfl | rfl
    · refine ⟨rfl, ?_⟩
      have one := value (.ofRegs (raxRcx 0 1))
      clear value
      revert signed remainder is32
      decide
    · have quotient := value (.ofRegs (raxRcx 1 0))
      have rest := value (.ofRegs (raxRcx 2 1))
      clear value
      revert signed remainder is32
      decide
  · rintro ⟨rfl, rfl⟩ m
    rw [divOp_eval_zero (by cases is32 <;> rfl), divOp_eval_zero (by cases is32 <;> rfl)]
    rfl

end

/-- The operands for which a division is lowered correctly. A zero or RAX divisor is moved to RCX,
which holds `x15`: a result there is lost, and a dividend there is overwritten. -/
def DivisionSafe (remainder is32 : Bool) (rd rs1 rs2 : RegIdx) : Prop :=
  rd = 0 ∨ (rs2 ≠ 0 ∧ rs2 ≠ 14) ∨ (rd ≠ 15 ∧ rs1 ≠ 15) ∨
    (rs2 = 0 ∧ rd ≠ 15 ∧ rs1 = 15 ∧ remainder = false) ∨
    (rs2 = 0 ∧ rd = 15 ∧ rs1 = 15 ∧ remainder = true ∧ is32 = false)

instance (remainder is32 : Bool) (rd rs1 rs2 : RegIdx) :
    Decidable (DivisionSafe remainder is32 rd rs1 rs2) := inferInstanceAs (Decidable (_ ∨ _))

theorem regMap_eq_rcx {x : RegIdx} {slot : HostSlot} (mapped : rvSlot x = some slot) :
    regMap slot = .rcx ↔ x = 15 := by
  revert x slot
  decide

/-- The fields held in RCX, in RAX and in no register. -/
theorem hostReg_special {x : RegIdx} (operand : IsOperand x) :
    (hostReg x = some .rcx ↔ x = 15) ∧ (hostReg x = some .rax ↔ x = 14) ∧
      (hostReg x = none ↔ x = 0) := by
  revert x
  decide

/-- The value that the division code leaves is the interpreter's for exactly the safe operands. -/
theorem divisionSafe_iff {signed remainder is32 : Bool} {rd rs1 rs2 : RegIdx} {slot : HostSlot}
    (mapped : rvSlot rd = some slot) (operand1 : IsOperand rs1) (operand2 : IsOperand rs2) :
    DivisionCorrect signed remainder is32 rd rs1 rs2 ↔ DivisionSafe remainder is32 rd rs1 rs2 := by
  rw [divisionCorrect_iff mapped operand1.isSrc operand2.isSrc]
  obtain ⟨nonzero, -⟩ := of_rvSlot mapped
  have inRcx : regMap slot = .rcx ↔ rd = 15 := regMap_eq_rcx mapped
  obtain ⟨inRcx1, -⟩ := hostReg_special operand1
  obtain ⟨-, inRax2, zero2⟩ := hostReg_special operand2
  by_cases moved : hostReg rs2 = none ∨ hostReg rs2 = some .rax
  · have spill := spillsRcx_iff.mpr moved
    by_cases lost : rd = 15
    · simp only [inRcx.mpr lost, spill, and_self, if_true]
      rw [rcx_eq_eval_iff moved, zero2, inRcx1]
      rw [zero2, inRax2] at moved
      simp only [DivisionSafe, lost]
      tauto
    · by_cases overwritten : rs1 = 15
      · simp only [inRcx, lost, false_and, if_false, divDividend, spill,
          inRcx1.mpr overwritten, and_self, if_true]
        refine (eval_divisor_iff moved).trans ?_
        rw [zero2, inRax2] at moved
        rw [zero2]
        simp only [DivisionSafe, nonzero, lost, overwritten]
        tauto
      · refine iff_of_true (fun m => ?_) (.inr (.inr (.inl ⟨lost, overwritten⟩)))
        simp only [inRcx, lost, false_and, if_false, divDividend, inRcx1, overwritten, and_false]
  · have spill : spillsRcx (hostReg rs2) = false := by
      rwa [← Bool.not_eq_true, spillsRcx_iff]
    rw [not_or, zero2, inRax2] at moved
    exact iff_of_true (fun m => by simp [spill, divDividend]) (.inr (.inl moved))

/-- The division code is correct for exactly the safe operands. -/
theorem rvDivRem_correct_iff (signed remainder is32 : Bool) {rd rs1 rs2 : RegIdx}
    (operands : ∀ x ∈ [rd, rs1, rs2], IsOperand x) :
    DivisionCorrect signed remainder is32 rd rs1 rs2 ↔ DivisionSafe remainder is32 rd rs1 rs2 := by
  simp only [List.mem_cons, List.not_mem_nil, or_false, forall_eq_or_imp, forall_eq] at operands
  obtain ⟨operand, operand1, operand2⟩ := operands
  rcases operand with rfl | mapped
  · refine iff_of_true (fun env pc st m => ⟨st, [], m, ?_, by simp, rfl, Sets.zero _ m⟩) (.inl rfl)
    rw [rvDivRem, rvRoutine_zero]
    rfl
  · obtain ⟨slot, mapped⟩ := Option.isSome_iff_exists.mp mapped
    exact divisionSafe_iff mapped operand1 operand2

/-- A lost result: `div x15, x10, x0` leaves `x15` unchanged,
where the interpreter writes minus one. -/
theorem rvDivRem_x15_by_zero : ¬DivisionCorrect true false false 15 10 0 := by
  intro correct
  have value := (divisionCorrect_iff (show rvSlot 15 = some 12 from rfl)
    (IsOperand.isSrc (x := 10) (by decide)) (IsOperand.isSrc (x := 0) (by decide))).mp correct
  exact absurd (value (.ofRegs (raxRcx 0 0))) (by decide)

/-- A division of `x15` by `x5` into `x15` is safe, and correct. -/
theorem rvDivRem_x15_by_x5 : DivisionCorrect true false false 15 15 5 :=
  (rvDivRem_correct_iff true false false (by decide)).mpr (by decide)

end Jar.Recompiler
