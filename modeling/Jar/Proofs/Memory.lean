import Mathlib.Algebra.BigOperators.Group.Finset.Piecewise
import Mathlib.Algebra.Order.BigOperators.Group.Finset
import Jar.Exec.Memory

/-! Materialization charges are bounded per access and, over all accesses, by the pages. -/

namespace Jar

/-- The number of pages of a 32-bit address space. -/
def pageCount : Nat := 2 ^ 20

/-- The number of pages that a write has not yet materialized. -/
def unwritten (mem : CopyingMemory) : Nat :=
  ∑ i ∈ Finset.range pageCount, if mem.matState i = .presentRw then 0 else 1

theorem unwritten_le (mem : CopyingMemory) : unwritten mem ≤ pageCount := by
  unfold unwritten
  calc
    _ ≤ ∑ _i ∈ Finset.range pageCount, 1 := by
      refine Finset.sum_le_sum fun i _ => ?_
      split <;> omega
    _ = pageCount := by simp

theorem unwritten_update (mem : CopyingMemory) {i : Nat} (within : i < pageCount)
    (next : PageState) :
    unwritten { mem with matState := Function.update mem.matState i next }
        + (if mem.matState i = .presentRw then 0 else 1)
      = unwritten mem + (if next = .presentRw then 0 else 1) := by
  have member : i ∈ Finset.range pageCount := Finset.mem_range.mpr within
  unfold unwritten
  rw [← Finset.add_sum_erase _ _ member, ← Finset.add_sum_erase _ _ member]
  -- Away from the updated page both counts range over the same states.
  have elsewhere : ∀ j ∈ (Finset.range pageCount).erase i,
      (if Function.update mem.matState i next j = .presentRw then 0 else 1)
        = (if mem.matState j = .presentRw then 0 else 1) := by
    intro j other
    rw [Function.update_of_ne (Finset.ne_of_mem_erase other)]
  simp only [Finset.sum_congr rfl elsewhere, Function.update_self]
  omega

theorem CopyingMemory.pageIndex_lt {mem : CopyingMemory} {page : BitVec 32} {i : Nat}
    (found : mem.pageIndex page = some i) : i < pageCount := by
  unfold CopyingMemory.pageIndex at found
  split at found
  · have bounded : mem.off page < 2 ^ 32 := BitVec.isLt _
    simp only [Option.some.injEq] at found
    simp only [pageSize] at found
    simp only [pageCount]
    omega
  · simp at found

/-- Materializing a page charges at most one copy, paid for by the page becoming written. -/
theorem CopyingMemory.materialize_charge (mem : CopyingMemory) (isWrite : Bool)
    (page : BitVec 32) :
    (mem.materialize isWrite page).2 + cowCost * unwritten (mem.materialize isWrite page).1
        ≤ cowCost * unwritten mem
      ∧ (mem.materialize isWrite page).2 ≤ if isWrite then cowCost else 0 := by
  unfold CopyingMemory.materialize
  split
  · rename_i i found
    split
    · simp
    · split
      · rename_i charge next charged
        have counted := unwritten_update mem (CopyingMemory.pageIndex_lt found) next
        -- The copy is charged exactly when the page enters the written state.
        have rule : charge = (if mem.matState i = .presentRw then 0 else cowCost)
              - (if next = .presentRw then 0 else cowCost)
            ∧ (mem.matState i = .presentRw → next = .presentRw)
            ∧ charge ≤ if isWrite then cowCost else 0 := by
          unfold chargeFor at charged
          cases isWrite <;> cases state : mem.matState i <;>
            simp [state, cowCost] at charged <;> simp [← charged, cowCost]
        obtain ⟨charge_eq, kept, bounded⟩ := rule
        refine ⟨?_, bounded⟩
        simp only [cowCost] at *
        split at counted <;> split at counted <;> simp_all
        omega
      · simp
  · simp

/-- Materializing pages in turn charges at most one copy each, within the unwritten pages. -/
theorem CopyingMemory.materializeAll_charge (mem : CopyingMemory) (isWrite : Bool)
    (pages : List (BitVec 32)) :
    (mem.materializeAll isWrite pages).2 + cowCost * unwritten (mem.materializeAll isWrite pages).1
        ≤ cowCost * unwritten mem
      ∧ (mem.materializeAll isWrite pages).2 ≤ if isWrite then cowCost * pages.length else 0 := by
  induction pages generalizing mem with
  | nil => simp [CopyingMemory.materializeAll]
  | cons page rest ih =>
    simp only [CopyingMemory.materializeAll, List.length_cons]
    have first := mem.materialize_charge isWrite page
    have others := ih (mem.materialize isWrite page).1
    cases isWrite <;> simp [cowCost] at first others ⊢ <;> omega

theorem accessPages_length (addr : BitVec 32) (width : Nat) :
    (accessPages addr width).length ≤ maxPagesPerAccess := by
  unfold accessPages maxPagesPerAccess
  dsimp only
  split <;> simp

/-- A touch charges reads nothing and writes at most two copies, within the unwritten pages. -/
theorem CopyingMemory.touch_charge {mem after : CopyingMemory} {addr : BitVec 32} {width : Nat}
    {isWrite : Bool} {total : Nat} (touched : mem.touch addr width isWrite = some (after, total)) :
    total + cowCost * unwritten after ≤ cowCost * unwritten mem
      ∧ total ≤ if isWrite then cowCost * maxPagesPerAccess else 0 := by
  unfold CopyingMemory.touch at touched
  dsimp only at touched
  split at touched
  · unfold CopyingMemory.touchData at touched
    split at touched
    · have charged := mem.materializeAll_charge isWrite (accessPages addr width)
      have few := accessPages_length addr width
      simp only [Option.some.injEq] at touched
      rw [touched] at charged
      refine ⟨charged.1, charged.2.trans ?_⟩
      split
      · exact Nat.mul_le_mul_left cowCost few
      · exact Nat.le_refl 0
    · simp at touched
  · split at touched
    · split at touched
      · simp only [Option.some.injEq, Prod.mk.injEq] at touched
        simp [← touched.1, ← touched.2]
      · simp at touched
    · simp only [Option.some.injEq, Prod.mk.injEq] at touched
      simp [← touched.1, ← touched.2]

end Jar
