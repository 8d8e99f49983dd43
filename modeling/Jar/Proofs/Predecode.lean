import Mathlib.Data.List.Chain
import Jar.Exec.Predecode

/-! The predecoded program is contiguous, and its blocks start where the source says. -/

namespace Jar

/-- One instruction directly follows another and starts a block exactly by the marking rule. -/
def Follows (a b : RvPreDecodedInst) : Prop :=
  b.pc = a.nextPc ∧ b.isGasBlockStart = (isTerminator a.inst || isEcallBlock b.inst)

/-- The invariants of a predecoded instruction list. -/
structure WellMarked (insts : List RvPreDecodedInst) : Prop where
  /-- Adjacent instructions are contiguous, with the marking rule between them. -/
  adjacent : insts.IsChain Follows
  /-- Every instruction has a positive length. -/
  forward : ∀ i ∈ insts, i.pc < i.nextPc
  /-- The gas metadata is that of the instruction. -/
  resolved : ∀ i ∈ insts, i.gasMeta = rvGasMeta i.inst
  /-- Environment calls start their own block. -/
  ecallStart : ∀ i ∈ insts, isEcallBlock i.inst = true → i.isGasBlockStart = true

/-! ## Decoding from an offset -/

def instructions (pc : Nat) (bytes : List Byte) : List RvPreDecodedInst :=
  decodeAll bytes.length pc bytes

/-- Decoding needs no more steps than there are bytes. -/
theorem decodeAll_eq_of_le {fuel fuel' : Nat} {bytes : List Byte} (enough : bytes.length ≤ fuel)
    (enough' : bytes.length ≤ fuel') (pc : Nat) :
    decodeAll fuel pc bytes = decodeAll fuel' pc bytes := by
  induction fuel generalizing fuel' bytes pc with
  | zero =>
    obtain rfl := List.eq_nil_of_length_eq_zero (Nat.le_zero.mp enough)
    cases fuel' <;> rfl
  | succ fuel ih =>
    cases fuel' with
    | zero =>
      obtain rfl := List.eq_nil_of_length_eq_zero (Nat.le_zero.mp enough')
      rfl
    | succ fuel' =>
      unfold decodeAll
      split
      · rfl
      · next inst len decoded =>
        have positive : 2 ≤ len := by
          rcases (decode_length decoded).1 with rfl | rfl <;> omega
        have shorter : (bytes.drop len).length ≤ fuel ∧ (bytes.drop len).length ≤ fuel' := by
          rw [List.length_drop]
          omega
        rw [ih shorter.1 shorter.2]

theorem instructions_of_decode {bytes : List Byte} {inst : Inst} {len : Nat}
    (decoded : decode bytes = some (inst, len)) (pc : Nat) :
    instructions pc bytes =
      ⟨inst, pc, pc + len, false, rvGasMeta inst⟩ :: instructions (pc + len) (bytes.drop len) := by
  unfold instructions
  cases bytes with
  | nil => cases decoded
  | cons b rest =>
    obtain ⟨lengths, within⟩ := decode_length decoded
    simp only [List.length_cons, decodeAll, decoded]
    congr 1
    refine decodeAll_eq_of_le ?_ (Nat.le_refl _) _
    simp only [List.length_drop, List.length_cons]
    omega

theorem instructions_of_decode_none {bytes : List Byte} (cut : decode bytes = none) (pc : Nat) :
    instructions pc bytes = [] := by
  unfold instructions
  cases bytes with
  | nil => rfl
  | cons b rest => simp [decodeAll, cut]

theorem le_pc_of_mem_instructions {pc : Nat} {bytes : List Byte} {i : RvPreDecodedInst}
    (member : i ∈ instructions pc bytes) : pc ≤ i.pc := by
  induction length : bytes.length using Nat.strongRecOn generalizing pc bytes with
  | ind n ih =>
    cases decoded : decode bytes with
    | none =>
      rw [instructions_of_decode_none decoded] at member
      exact absurd member List.not_mem_nil
    | some result =>
      obtain ⟨lengths, within⟩ := decode_length decoded
      rw [instructions_of_decode decoded] at member
      rcases List.mem_cons.mp member with rfl | later
      · exact Nat.le_refl pc
      · have after := ih _ (by rw [List.length_drop]; omega) later rfl
        omega

theorem map_pc_markBlockStarts (afterTerm : Bool) (insts : List RvPreDecodedInst) :
    (markBlockStarts afterTerm insts).map (·.pc) = insts.map (·.pc) := by
  induction insts generalizing afterTerm with
  | nil => rfl
  | cons i rest ih => simp [markBlockStarts, ih]

theorem pc_lt_of_mem_decodeAll {fuel pc : Nat} {bytes : List Byte} {i : RvPreDecodedInst}
    (member : i ∈ decodeAll fuel pc bytes) : i.pc < pc + bytes.length := by
  induction fuel generalizing pc bytes with
  | zero => cases member
  | succ fuel ih =>
    unfold decodeAll at member
    split at member
    · cases member
    · next inst len decoded =>
      obtain ⟨lengths, within⟩ := decode_length decoded
      rcases List.mem_cons.mp member with rfl | later
      · simp only
        omega
      · have := ih later
        rw [List.length_drop] at this
        omega

theorem pc_lt_of_mem_predecode {code : List Byte} {memCycles : Nat} {i : RvPreDecodedInst}
    (member : i ∈ (predecodeRvWithMemCycles code memCycles).insts) : i.pc < code.length := by
  have marked : i.pc ∈ (markBlockStarts true (decodeAll code.length 0 code)).map (·.pc) :=
    List.mem_map_of_mem member
  rw [map_pc_markBlockStarts] at marked
  obtain ⟨j, decoded, same⟩ := List.mem_map.mp marked
  have := pc_lt_of_mem_decodeAll decoded
  omega

/-! ## Adjacent instructions -/

theorem decodeAll_head {fuel pc : Nat} {bytes : List Byte} {i : RvPreDecodedInst}
    (first : i ∈ (decodeAll fuel pc bytes).head?) : i.pc = pc := by
  cases fuel with
  | zero => simp [decodeAll] at first
  | succ fuel =>
    unfold decodeAll at first
    split at first
    · simp at first
    · simp only [List.head?_cons, Option.mem_def, Option.some.injEq] at first
      rw [← first]

theorem markBlockStarts_head {afterTerm : Bool} {insts : List RvPreDecodedInst}
    {i : RvPreDecodedInst} (first : i ∈ (markBlockStarts afterTerm insts).head?) :
    ∃ j ∈ insts.head?, i.pc = j.pc ∧
      i.isGasBlockStart = (afterTerm || isEcallBlock i.inst) := by
  cases insts with
  | nil => simp [markBlockStarts] at first
  | cons j rest =>
    simp only [markBlockStarts, List.head?_cons, Option.mem_def, Option.some.injEq] at first
    refine ⟨j, by simp, ?_⟩
    rw [← first]
    simp

theorem wellMarked_decodeAll (fuel pc : Nat) (afterTerm : Bool) (bytes : List Byte) :
    WellMarked (markBlockStarts afterTerm (decodeAll fuel pc bytes)) := by
  induction fuel generalizing pc afterTerm bytes with
  | zero => exact ⟨by simp [decodeAll, markBlockStarts], by simp [decodeAll, markBlockStarts],
      by simp [decodeAll, markBlockStarts], by simp [decodeAll, markBlockStarts]⟩
  | succ fuel ih =>
    unfold decodeAll
    split
    · exact ⟨by simp [markBlockStarts], by simp [markBlockStarts], by simp [markBlockStarts],
        by simp [markBlockStarts]⟩
    · rename_i inst len decoded
      have tail := ih (pc + len) (isTerminator inst) (bytes.drop len)
      have positive : 0 < len := by
        rcases (decode_length decoded).1 with rfl | rfl <;> omega
      refine ⟨?_, ?_, ?_, ?_⟩ <;> simp only [markBlockStarts]
      · refine tail.adjacent.cons fun b first => ?_
        obtain ⟨j, member, offset, started⟩ := markBlockStarts_head first
        exact ⟨offset.trans (decodeAll_head member), started⟩
      · simpa using ⟨positive, tail.forward⟩
      · simpa using tail.resolved
      · simpa using ⟨fun called => Or.inr called, tail.ecallStart⟩

section

variable {insts : List RvPreDecodedInst} (marked : WellMarked insts)
include marked

/-- The instruction after a given one lies at its next offset and obeys the marking rule. -/
theorem WellMarked.follows {i : Nat} (within : i + 1 < insts.length) :
    Follows insts[i] insts[i + 1] :=
  List.isChain_iff_getElem.mp marked.adjacent i within

theorem WellMarked.pc_lt {i j : Nat} (ordered : i < j) (within : j < insts.length) :
    insts[i].pc < insts[j].pc := by
  induction j, ordered using Nat.le_induction with
  | base =>
    rw [(marked.follows within).1]
    exact marked.forward insts[i] (List.getElem_mem _)
  | succ j _ ih =>
    have next := (marked.follows within).1
    have grows := marked.forward insts[j] (List.getElem_mem _)
    have before := ih (by omega)
    omega

theorem WellMarked.findIdxForPc_eq (i : Fin insts.length) :
    findIdxForPc insts (insts.get i).pc = some i := by
  unfold findIdxForPc
  rw [List.findFinIdx?_eq_some_iff]
  refine ⟨by simp, fun j earlier => ?_⟩
  have smaller := marked.pc_lt (i := j) (j := i) earlier i.isLt
  simp only [beq_iff_eq, List.get_eq_getElem, Fin.getElem_fin] at smaller ⊢
  omega

omit marked in
theorem findIdxForPc_pc {pc : Nat} {i : Fin insts.length}
    (found : findIdxForPc insts pc = some i) : (insts.get i).pc = pc := by
  have located := (List.findFinIdx?_eq_some_iff.mp found).1
  simpa using located

/-- The offset just after an instruction is that of the next instruction of the program. -/
theorem WellMarked.findIdxForPc_nextPc {i : Fin insts.length} (within : i.val + 1 < insts.length) :
    findIdxForPc insts (insts.get i).nextPc = some ⟨i.val + 1, within⟩ := by
  have next := (marked.follows within).1
  have found := marked.findIdxForPc_eq ⟨i.val + 1, within⟩
  simp only [List.get_eq_getElem] at found ⊢
  rwa [next] at found

theorem WellMarked.findIdxForPc_end {i : Fin insts.length} (last : ¬ i.val + 1 < insts.length) :
    findIdxForPc insts (insts.get i).nextPc = none := by
  cases found : findIdxForPc insts (insts.get i).nextPc with
  | none => rfl
  | some j =>
    -- Any other instruction lies before the last one, whose own offset is smaller.
    exfalso
    have offset := findIdxForPc_pc found
    have grows := marked.forward (insts.get i) (List.get_mem _ _)
    rcases Nat.lt_trichotomy j.val i.val with before | same | after
    · have smaller := marked.pc_lt before i.isLt
      simp only [List.get_eq_getElem] at offset grows
      omega
    · have : j = i := Fin.ext same
      subst this
      omega
    · have := j.isLt
      omega

end

theorem predecode_wellMarked (code : List Byte) (memCycles : Nat) :
    WellMarked (predecodeRvWithMemCycles code memCycles).insts :=
  wellMarked_decodeAll code.length 0 true code

end Jar
