import Jar.Proofs.DivisionLowering
import Jar.Proofs.WordFields

/-! Words whose registers all have host registers, and the words that donors turn into such. -/

namespace Jar.Recompiler

open X86 Lower

/-- A register that a dispatched instruction may name: neither reserved nor spilled. -/
def Plain (x : RegIdx) : Prop := regIsReserved x = false ∧ regIsSpilled x = false

theorem Plain.isSome_rvSlot {x : RegIdx} (plain : Plain x) (nonzero : x ≠ 0) :
    (rvSlot x).isSome = true := by
  obtain ⟨ordinary, unspilled⟩ := plain
  revert x
  decide

theorem Plain.isOperand {x : RegIdx} (plain : Plain x) : IsOperand x := by
  by_cases zero : x = 0
  · exact .inl zero
  · exact .inr (plain.isSome_rvSlot zero)

/-- The registers in the fields of a word are neither reserved nor spilled. -/
def PlainWord (w : BitVec 32) : Prop := ∀ x ∈ (opcodeFields (major w)).regs w, Plain x

theorem plain_of_candidate {c : RegIdx} (member : c ∈ donorCandidates) : Plain c ∧ c ≠ 0 := by
  unfold Plain
  revert c
  decide

section

variable {regs : List RegIdx} {donors : List (RegIdx × RegIdx)}

/-- The stand-in of a register that exists is neither reserved nor spilled. -/
theorem plain_donorOf (picked : pickDonors regs = some donors) {x : RegIdx} (used : x ∈ regs)
    (ordinary : regIsReserved x = false) : Plain (donorOf donors x) := by
  have candidate {c : RegIdx} (donor : Donor regs c) : Plain c := (plain_of_candidate donor.1).1
  have kept (three : x ≠ 3) (four : x ≠ 4) : Plain x := by
    refine ⟨ordinary, ?_⟩
    have := (regIsSpilled_iff x).not.mpr (not_or.mpr ⟨three, four⟩)
    simpa using this
  unfold donorOf
  rcases pickDonors_eq_some picked with ⟨no3, no4, rfl⟩ | ⟨_, no4, c, rfl, donor⟩ |
    ⟨no3, _, c, rfl, donor⟩ | ⟨_, _, c, c', rfl, donor, donor', _⟩
  · exact kept (fun same => no3 (same ▸ used)) (fun same => no4 (same ▸ used))
  · by_cases three : x = 3#5
    · subst three
      exact candidate donor
    · simpa [List.lookup_cons, beq_false_of_ne three] using
        kept three (fun same => no4 (same ▸ used))
  · by_cases four : x = 4#5
    · subst four
      exact candidate donor
    · simpa [List.lookup_cons, beq_false_of_ne four] using
        kept (fun same => no3 (same ▸ used)) four
  · by_cases three : x = 3#5
    · subst three
      exact candidate donor
    · by_cases four : x = 4#5
      · subst four
        exact candidate donor'
      · simpa [List.lookup_cons, beq_false_of_ne three, beq_false_of_ne four] using kept three four

end

def OrdinaryWord (w : BitVec 32) : Prop :=
  ∀ x ∈ (opcodeFields (major w)).regs w, regIsReserved x = false

theorem ordinaryWord_iff {w : BitVec 32} (length : lengthBits w = 0b11#2) :
    wordUsesReservedReg w = false ↔ OrdinaryWord w := by
  simp [wordUsesReservedReg, wordRegClassHits_eq length, OrdinaryWord]

theorem plainWord_iff {w : BitVec 32} (length : lengthBits w = 0b11#2) :
    PlainWord w ↔ wordUsesReservedReg w = false ∧ wordUsesSpilledReg w = false := by
  simp only [wordUsesReservedReg, wordUsesSpilledReg, wordRegClassHits_eq length, PlainWord, Plain,
    List.any_eq_false, Bool.not_eq_true]
  exact ⟨fun all => ⟨fun x member => (all x member).1, fun x member => (all x member).2⟩,
    fun both x member => ⟨both.1 x member, both.2 x member⟩⟩

/-- An opcode that is compiled with donors is no jump, and its fields are those of the opcode. -/
theorem of_donorFields {op : BitVec 5} {fields : Fields} (found : donorFields op = some fields) :
    opcodeFields op = fields ∧ op ≠ opJal ∧ op ≠ opBranch := by
  revert op
  obtain ⟨rd, rs1, rs2⟩ := fields
  revert rd rs1 rs2
  decide

/-- The word with donors in place of its spilled registers names neither kind of register. -/
theorem plainWord_rewriteFields {w : BitVec 32} {fields : Fields}
    {donors : List (RegIdx × RegIdx)} (found : donorFields (major w) = some fields)
    (picked : pickDonors (fields.regs w) = some donors) (ordinary : OrdinaryWord w) :
    PlainWord (rewriteFields fields donors w) := by
  obtain ⟨same, -⟩ := of_donorFields found
  obtain ⟨-, major', -, -, rd', rs1', rs2'⟩ := fields_rewriteFields fields donors w
  unfold OrdinaryWord at ordinary
  rw [same] at ordinary
  have donated (x : RegIdx) (member : x ∈ fields.regs w) : Plain (donorOf donors x) :=
    plain_donorOf picked member (ordinary x member)
  unfold PlainWord
  rw [major', same]
  unfold Fields.regs at donated ⊢
  rw [rd', rs1', rs2']
  obtain ⟨rd, rs1, rs2⟩ := fields
  cases rd <;> cases rs1 <;> cases rs2 <;> simp_all

end Jar.Recompiler
