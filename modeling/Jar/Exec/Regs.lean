import Mathlib.Data.BitVec

/-! The RV64E register file: classification of register fields and the 15 guest slots. -/

namespace Jar

/-- A 5-bit register field of an instruction word. -/
abbrev RegIdx := BitVec 5

/-- A 64-bit register value. -/
abbrev Word64 := BitVec 64

/-- A slot of the guest register file. -/
abbrev Slot := Fin 15

instance neZero_slots : NeZero 15 := ⟨by decide⟩

-- The host holds the slots below the two spilled ones.
instance neZero_hostSlots : NeZero 13 := ⟨by decide⟩

instance lawfulBEq_regIdx : LawfulBEq RegIdx := inferInstance

/-- The classification of a 5-bit register field. -/
inductive RegClass where
  /-- The hardwired zero register, which has no slot. -/
  | zero
  /-- A general-purpose register and its slot. -/
  | gpr (slot : Slot)
  /-- A register that does not exist in the 16-register base. -/
  | reserved
  deriving DecidableEq, Repr

/-- Classify a register field, with the two spilled registers in the high slots. -/
def regClass (x : RegIdx) : RegClass :=
  match x.toNat with
  | 0 => .zero
  | 1 => .gpr 0
  | 2 => .gpr 1
  | 3 => .gpr 13
  | 4 => .gpr 14
  | n => if n ≤ 15 then .gpr (Fin.ofNat 15 (n - 3)) else .reserved

/-- The slot of a register, absent (`0xFF` in the source) for `x0` and reserved registers. -/
def regSlotOrFf (x : RegIdx) : Option Slot :=
  match regClass x with
  | .gpr slot => some slot
  | _ => none

/-- Whether a field names a register outside the RV64E file. -/
def regIsReserved (x : RegIdx) : Bool :=
  regClass x == .reserved

/-- Whether a field names one of the two registers without a host register. -/
def regIsSpilled (x : RegIdx) : Bool :=
  regClass x == .gpr 13 || regClass x == .gpr 14

/-- The values of the 15 general-purpose registers. -/
abbrev Regs := Slot → Word64

/-- Read a register field, where `x0` and reserved fields read as zero. -/
def regRead (regs : Regs) (x : RegIdx) : Word64 :=
  match regSlotOrFf x with
  | some slot => regs slot
  | none => 0

/-- Write a register field, where writes to `x0` and reserved fields are dropped. -/
def regWrite (regs : Regs) (x : RegIdx) (value : Word64) : Regs :=
  match regSlotOrFf x with
  | some slot => Function.update regs slot value
  | none => regs

theorem regIsSpilled_iff (x : RegIdx) : regIsSpilled x = true ↔ x = 3 ∨ x = 4 := by
  revert x
  decide

theorem regSlotOrFf_injective {x y : RegIdx} {slot : Slot}
    (left : regSlotOrFf x = some slot) (right : regSlotOrFf y = some slot) : x = y := by
  revert x y slot
  decide

theorem regRead_regWrite (regs : Regs) (x y : RegIdx) (value : Word64) :
    regRead (regWrite regs x value) y =
      if y = x ∧ (regSlotOrFf x).isSome then value else regRead regs y := by
  unfold regRead regWrite
  cases written : regSlotOrFf x with
  | none =>
    cases regSlotOrFf y <;> simp
  | some slot =>
    cases read : regSlotOrFf y with
    | none =>
      have distinct : y ≠ x := by
        rintro rfl
        simp [written] at read
      simp [distinct]
    | some other =>
      by_cases same : y = x
      · subst same
        have slots : slot = other := Option.some.inj (written.symm.trans read)
        simp [slots]
      · -- Two fields that share a slot would be the same field.
        have slots : other ≠ slot := by
          rintro rfl
          exact same (regSlotOrFf_injective read written)
        simp [same, slots]

end Jar
