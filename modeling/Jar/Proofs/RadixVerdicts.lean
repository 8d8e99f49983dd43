import Jar.Cap.Hash
import Jar.Proofs.Radix

/-! Accepted proofs of a key agree, whatever the root is. -/

namespace Jar.Ssz.Radix

open Javm (CapHash)

variable {keyBytes : Nat} {V : Type} [HashTreeRoot V]

/-- No accepted proof of a key ends above another one: the longer path has a branch where the
shorter one ends, and no terminal is a branch. -/
theorem termDepth_not_lt_of_verify {d : Digest} {root : ByteVector 32}
    {key : ByteVector keyBytes} {proof proof' : RadixProof V keyBytes}
    {verdict verdict' : RadixVerdict}
    (free : RadixTree.CollisionFree (nodeHash d) empty
      (proofNodes d key proof ++ proofNodes d key proof'))
    (accepted : verify d root key proof = some verdict)
    (accepted' : verify d root key proof' = some verdict') :
    ¬ proof.termDepth.toNat < proof'.termDepth.toNat := by
  intro shorter
  obtain ⟨-, reaches, -⟩ := verify_eq_some accepted
  obtain ⟨-, reaches', -⟩ := verify_eq_some accepted'
  obtain ⟨low, high, isClimb, part⟩ := RadixTree.exists_branch_of_climb key
    (siblingAt proof'.siblings) shorter
    (RadixTree.hash (nodeHash d) empty (terminalTop d key proof'.terminal))
  have inside := List.Subset.trans part (List.subset_append_left _
    (terminalTop d key proof'.terminal).toList)
  -- Both paths reach the root from the depth of the shorter one, so they start at one node there.
  have isBranch := RadixTree.start_eq_of_climb_eq _ (some _)
    (free.mono (List.append_subset.mpr ⟨List.subset_append_left _ _,
      List.subset_append_of_subset_right _ inside⟩))
    (reaches.trans (reaches'.symm.trans isClimb))
  cases terminal : proof.terminal <;> simp [terminalTop, terminal] at isBranch

/-- Accepted proofs of a key that end at one depth end on one node. -/
theorem terminalTop_eq_of_verify {d : Digest} {root : ByteVector 32} {key : ByteVector keyBytes}
    {proof proof' : RadixProof V keyBytes} {verdict verdict' : RadixVerdict}
    (free : RadixTree.CollisionFree (nodeHash d) empty
      (proofNodes d key proof ++ proofNodes d key proof'))
    (accepted : verify d root key proof = some verdict)
    (accepted' : verify d root key proof' = some verdict')
    (depth : proof.termDepth = proof'.termDepth) :
    terminalTop d key proof.terminal = terminalTop d key proof'.terminal := by
  obtain ⟨-, reaches, -⟩ := verify_eq_some accepted
  obtain ⟨-, reaches', -⟩ := verify_eq_some accepted'
  rw [proofNodes, proofNodes, ← depth] at free
  rw [← depth, ← reaches] at reaches'
  exact RadixTree.start_eq_of_climb_eq _ _ free reaches'.symm

/-- Two accepted proofs for a key against one root, be it the root of a map or not, end at the same
depth with the same verdict, and with the same value if the key is present. -/
theorem verdicts_agree {d : Digest} {root : ByteVector 32} {key : ByteVector keyBytes}
    {proof proof' : RadixProof V keyBytes} {verdict verdict' : RadixVerdict}
    (resistant : CollisionResistant d (proofNodes d key proof ++ proofNodes d key proof'))
    (accepted : verify d root key proof = some verdict)
    (accepted' : verify d root key proof' = some verdict') :
    verdict = verdict' ∧ proof.termDepth = proof'.termDepth ∧
      ∀ value value', proof.terminal = .leaf value → proof'.terminal = .leaf value' →
        hashTreeRoot d value = hashTreeRoot d value' := by
  have swapped := resistant.free.mono (List.append_subset.mpr
    ⟨List.subset_append_right _ _, List.subset_append_left (proofNodes d key proof) _⟩)
  have depth : proof.termDepth = proof'.termDepth := BitVec.eq_of_toNat_eq (Nat.le_antisymm
    (Nat.not_lt.mp (termDepth_not_lt_of_verify swapped accepted' accepted))
    (Nat.not_lt.mp (termDepth_not_lt_of_verify resistant.free accepted accepted')))
  have top := terminalTop_eq_of_verify resistant.free accepted accepted' depth
  have shows := (verify_eq_some accepted).2.2
  have shows' := (verify_eq_some accepted').2.2
  cases terminal : proof.terminal <;> cases terminal' : proof'.terminal <;>
    simp_all [terminalTop, Shows]

/-- A key of one byte. -/
def byteKey (b : Byte) : ByteVector 1 := ⟨[b], List.length_singleton⟩

theorem length_sevens : (List.replicate 32 (7 : Byte)).length = 32 := rfl

/-- A hash that is not zero. -/
def sevens : CapHash := ⟨List.replicate 32 7, length_sevens⟩

/-- Two keys that share their first bit, with nothing on the other side of it. -/
def nearKeys : List (Op CapHash 1) :=
  [.insert (byteKey 0x00) (.materialized sevens), .insert (byteKey 0x40) (.missing empty)]

/-- The proof that the first key is there, with its value. -/
def fullProof : RadixProof CapHash 1 := prove keepDigest (run nearKeys) (byteKey 0x00)

/-- Another proof of the same key, with the hash of the value only and the empty sibling spelled
out. -/
def hashedProof : RadixProof CapHash 1 where
  termDepth := 2
  siblings := [(0, empty), (1, leafHash keepDigest (byteKey 0x40) empty)]
  terminal := .leaf (.missing sevens)

theorem verdicts_agree_nearKeys :
    let root := hashTreeRoot keepDigest (run nearKeys)
    verify keepDigest root (byteKey 0x00) fullProof = some .present ∧
      verify keepDigest root (byteKey 0x00) hashedProof = some .present ∧
      fullProof.siblings ≠ hashedProof.siblings ∧
      fullProof.termDepth = hashedProof.termDepth ∧
      ∀ value value', fullProof.terminal = .leaf value → hashedProof.terminal = .leaf value' →
        hashTreeRoot keepDigest value = hashTreeRoot keepDigest value' := by
  intro root
  have accepted : verify keepDigest root (byteKey 0x00) fullProof = some .present := by
    decide +kernel
  have accepted' : verify keepDigest root (byteKey 0x00) hashedProof = some .present := by
    decide +kernel
  obtain ⟨-, depth, values⟩ :=
    verdicts_agree ⟨by decide +kernel, by decide +kernel⟩ accepted accepted'
  exact ⟨accepted, accepted', by decide +kernel, depth, values⟩

end Jar.Ssz.Radix
