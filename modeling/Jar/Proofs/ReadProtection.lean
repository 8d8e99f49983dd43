import Jar.Proofs.MemoryAccess

/-! Which loads are protected: the bytes that a sequence of mappings makes readable, and when a
load stays within them. -/

namespace Jar

/-! ## Building a memory -/

/-- A call that sets up a memory. -/
inductive MemCall where
  | mapRegion (start size : Nat) (access : Access) (init : Option (List Byte))
  | setCodeRegion (codeBase : BitVec 32) (codeLen : Nat)

namespace MemCall

/-- The memory after a call; a mapping that is refused changes nothing. -/
def apply (mem : CopyingMemory) : MemCall → Option CopyingMemory
  | mapRegion start size access init =>
    match mem.mapRegion start size access init with
    | .ok mapped => some mapped
    | .error _ => some mem
  | setCodeRegion codeBase codeLen => mem.setCodeRegion codeBase codeLen

/-- Whether a call maps the byte at an address. -/
def covers (base addr : BitVec 32) : MemCall → Prop
  | mapRegion start size _ _ =>
    start % pageSize = 0 ∧ size % pageSize = 0 ∧ base.toNat ≤ start ∧
      start - base.toNat + size < 2 ^ 64 ∧ start ≤ base.toNat + (addr - base).toNat ∧
      base.toNat + (addr - base).toNat < start + size
  | setCodeRegion _ _ => False

/-- Whether a call maps the page with an index. -/
def coversPage (base : BitVec 32) (p : Nat) : MemCall → Prop
  | mapRegion start size _ _ =>
    start % pageSize = 0 ∧ size % pageSize = 0 ∧ base.toNat ≤ start ∧
      start - base.toNat + size < 2 ^ 64 ∧ start ≤ base.toNat + p * pageSize ∧
      base.toNat + p * pageSize < start + size
  | setCodeRegion _ _ => False

end MemCall

/-- The code region after a call, as the offsets of its first byte and of its end: the declared
bytes, rounded up to whole pages. -/
def MemCall.codeRegion (region : Nat × Nat) : MemCall → Nat × Nat
  | .setCodeRegion codeBase codeLen =>
    (codeBase.toNat, codeBase.toNat + (codeLen + (pageSize - 1)) / pageSize * pageSize)
  | .mapRegion .. => region

/-- The code region that a sequence of calls declares; the last declaration counts. -/
def codeRegion (calls : List MemCall) : Nat × Nat := calls.foldl MemCall.codeRegion (0, 0)

theorem codeRegion_append (calls : List MemCall) (call : MemCall) :
    codeRegion (calls ++ [call]) = call.codeRegion (codeRegion calls) := by
  simp [codeRegion]

/-- Exactly the pages that a call maps have a permission, and all of them lie in the buffer; the
code region is the declared one, cut off at the last address. -/
structure Laid (base : BitVec 32) (calls : List MemCall) (mem : CopyingMemory) : Prop where
  base_eq : mem.base = base
  covered : ∀ p, mem.perms p ≠ .none ↔ ∃ call ∈ calls, call.coversPage base p
  within : ∀ p, mem.perms p ≠ .none → p * pageSize < mem.flatLen
  codeBase : mem.codeBase.toNat = (codeRegion calls).1
  codeTop : mem.codeTop.toNat = min (codeRegion calls).2 (2 ^ 32 - 1)
  wholePages : ∃ pages, (codeRegion calls).2 = (codeRegion calls).1 + pages * pageSize

variable {base : BitVec 32} {calls : List MemCall} {mem mem' : CopyingMemory}

theorem Laid.new (base : BitVec 32) : Laid base [] (CopyingMemory.new base) where
  base_eq := rfl
  covered p := by simp [CopyingMemory.new]
  within p some := absurd rfl some
  codeBase := rfl
  codeTop := rfl
  wholePages := ⟨0, rfl⟩

/-- Declaring the code region maps nothing. -/
theorem Laid.setCodeRegion (laid : Laid base calls mem) {codeBase : BitVec 32} {codeLen : Nat}
    (declared : mem.setCodeRegion codeBase codeLen = some mem') :
    Laid base (calls ++ [.setCodeRegion codeBase codeLen]) mem' := by
  simp only [CopyingMemory.setCodeRegion] at declared
  split at declared
  · cases declared
  · cases declared
    refine ⟨laid.base_eq, fun p => ?_, laid.within, ?_, ?_, ?_⟩
    · rw [laid.covered p]
      simp [MemCall.coversPage]
    all_goals rw [codeRegion_append]
    · rfl
    · simp only [MemCall.codeRegion, BitVec.toNat_ofNat]
      omega
    · exact ⟨_, rfl⟩

/-- A region that is refused covers no page. -/
theorem Laid.refused (laid : Laid base calls mem) {start size : Nat} {access : Access}
    {init : Option (List Byte)}
    (none : ∀ p, ¬ (MemCall.mapRegion start size access init).coversPage base p) :
    Laid base (calls ++ [.mapRegion start size access init]) mem where
  base_eq := laid.base_eq
  covered p := by
    rw [laid.covered p]
    simp [none p]
  within := laid.within
  codeBase := by rw [codeRegion_append]; exact laid.codeBase
  codeTop := by rw [codeRegion_append]; exact laid.codeTop
  wholePages := by rw [codeRegion_append]; exact laid.wholePages

theorem Laid.apply (laid : Laid base calls mem) (aligned : base.toNat % pageSize = 0)
    {call : MemCall} (applied : call.apply mem = some mem') :
    Laid base (calls ++ [call]) mem' := by
  cases call with
  | setCodeRegion codeBase codeLen => exact laid.setCodeRegion applied
  | mapRegion start size access init =>
    have sameBase := laid.base_eq
    simp only [MemCall.apply, CopyingMemory.mapRegion] at applied
    split at applied
    · next mapped accepted =>
      -- The mapping passed all checks.
      split at accepted
      · cases accepted
      · next startAligned =>
        split at accepted
        · cases accepted
        · next sizeAligned =>
          split at accepted
          · cases accepted
          · next above =>
            split at accepted
            · cases accepted
            · next short =>
              cases accepted
              cases applied
              rw [sameBase] at above short
              have permitted : access.perm ≠ .none := by cases access <;> decide
              -- A page has a permission if this region contains it or an earlier one did.
              have inside : ∀ p, (0 < size ∧ (start - base.toNat) / pageSize ≤ p ∧
                  p ≤ (start - base.toNat + size) / pageSize - 1) ↔
                  (MemCall.mapRegion start size access init).coversPage base p := by
                intro p
                simp only [MemCall.coversPage, pageSize] at *
                omega
              refine ⟨sameBase, fun p => ?_, fun p some => ?_,
                by rw [codeRegion_append]; exact laid.codeBase,
                by rw [codeRegion_append]; exact laid.codeTop,
                by rw [codeRegion_append]; exact laid.wholePages⟩
              · dsimp only
                rw [sameBase]
                by_cases here : (MemCall.mapRegion start size access init).coversPage base p
                · rw [if_pos ((inside p).mpr here)]
                  exact iff_of_true permitted
                    ⟨_, List.mem_append_right _ (List.mem_singleton_self _), here⟩
                · rw [if_neg fun is => here ((inside p).mp is), laid.covered p]
                  simp [here]
              · dsimp only at some ⊢
                rw [sameBase] at some ⊢
                split at some
                · next here =>
                  have := ((inside p).mp here).2.2.2.2.2
                  simp only [pageSize] at *
                  omega
                · have := laid.within p some
                  omega
    · next refused =>
      cases applied
      refine laid.refused fun p covers => ?_
      -- A region that covers a page passes all checks.
      obtain ⟨startAligned, sizeAligned, above, short, -⟩ := covers
      rw [if_neg (not_not.mpr startAligned), if_neg (not_not.mpr sizeAligned), sameBase,
        if_neg (Nat.not_lt.mpr above), if_neg (Nat.not_le.mpr short)] at refused
      cases refused

end Jar
