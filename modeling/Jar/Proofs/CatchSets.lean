import Jar.Cap.Yield
import Jar.Proofs.DataIdentity
import Mathlib.Data.List.Sort
import Mathlib.Data.Finset.Card

/-! The set algebra of yield receivers: a catch-set survives the memory of its receiver as long as
the sixteen bits of its count hold its size. -/

namespace Jar.Javm

open Ssz
open scoped Word

/-! ## Sets of keys -/

theorem foldl_insertEntry (keys : List Key) {set : List (Key × Unit)}
    (sorted : set.Pairwise fun a b => a.1 < b.1) :
    (keys.foldl (fun set key => SortedMap.insertEntry key () set) set).Pairwise
        (fun a b => a.1 < b.1) ∧
      ∀ k, (k, ()) ∈ keys.foldl (fun set key => SortedMap.insertEntry key () set) set ↔
        k ∈ keys ∨ (k, ()) ∈ set := by
  induction keys generalizing set with
  | nil => exact ⟨sorted, fun k => by simp⟩
  | cons key keys ih =>
    obtain ⟨ordered, members⟩ := ih (SortedMap.sorted_insertEntry key () sorted)
    refine ⟨ordered, fun k => ?_⟩
    rw [List.foldl_cons, members, SortedMap.mem_insertEntry sorted, List.mem_cons]
    by_cases same : k = key <;> simp [same]

theorem sorted_normalizeKeys (keys : List Key) : (normalizeKeys keys).SortedLT :=
  (List.pairwise_map.mpr (foldl_insertEntry keys .nil).1).sortedLT

theorem mem_normalizeKeys {keys : List Key} {k : Key} : k ∈ normalizeKeys keys ↔ k ∈ keys := by
  rw [normalizeKeys, List.mem_map]
  constructor
  · rintro ⟨⟨key, ⟨⟩⟩, member, rfl⟩
    simpa using ((foldl_insertEntry keys .nil).2 key).mp member
  · exact fun member => ⟨(k, ()), ((foldl_insertEntry keys .nil).2 k).mpr (.inl member), rfl⟩

/-- Two lists have one normal form exactly when they have the same elements. -/
theorem normalizeKeys_eq_iff {keys keys' : List Key} :
    normalizeKeys keys = normalizeKeys keys' ↔ ∀ k, k ∈ keys ↔ k ∈ keys' := by
  constructor
  · intro same k
    rw [← mem_normalizeKeys, same, mem_normalizeKeys]
  · intro same
    exact (sorted_normalizeKeys keys).eq_of_mem_iff (sorted_normalizeKeys keys')
      fun k => by rw [mem_normalizeKeys, mem_normalizeKeys, same]

theorem length_normalizeKeys (keys : List Key) :
    (normalizeKeys keys).length = keys.toFinset.card := by
  rw [← List.toFinset_card_of_nodup (sorted_normalizeKeys keys).nodup]
  exact congrArg Finset.card (by ext k; simp [mem_normalizeKeys])

/-! ## Keys in memory -/

def Short (keys : List Key) : Prop := ∀ k ∈ keys, k.length ≤ maxKeyLen

theorem Short.normalizeKeys {keys : List Key} (short : Short keys) : Short (normalizeKeys keys) :=
  fun k member => short k (mem_normalizeKeys.mp member)

/-- The keys of a set, each behind its length. -/
def keyBytes (keys : List Key) : List Byte := keys.flatMap fun k => BitVec.ofNat 8 k.length :: k

/-- The keys read are the first ones written, whatever stands behind them. -/
theorem readKeys_keyBytes {keys : List Key} (short : Short keys) {count : Nat}
    (enough : count ≤ keys.length) (rest : List Byte) :
    readKeys count (keyBytes keys ++ rest) = keys.take count := by
  induction keys generalizing count with
  | nil =>
    obtain rfl : count = 0 := by simpa using enough
    rfl
  | cons key keys ih =>
    cases count with
    | zero => rfl
    | succ count =>
      -- A length of at most eight survives its byte.
      have fits : (BitVec.ofNat 8 key.length).toNat = key.length := by
        have := short key List.mem_cons_self
        simp only [maxKeyLen] at this
        rw [BitVec.toNat_ofNat, Nat.mod_eq_of_lt (by omega)]
      have later := ih (fun k member => short k (List.mem_cons_of_mem _ member))
        (by simpa using enough)
      rw [show keyBytes (key :: keys) ++ rest =
        BitVec.ofNat 8 key.length :: (key ++ (keyBytes keys ++ rest)) by simp [keyBytes]]
      rw [readKeys, fits, if_neg (by simp), List.take_left, List.drop_left, later,
        List.take_succ_cons]

theorem eq_nil_of_keyBytes_zero {keys : List Key} (short : Short keys)
    (zero : ∀ b ∈ keyBytes keys, b = 0) {k : Key} (member : k ∈ keys) : k = [] := by
  have head := zero (BitVec.ofNat 8 k.length)
    (List.mem_flatMap.mpr ⟨k, member, List.mem_cons_self⟩)
  have small := short k member
  have := congrArg BitVec.toNat head
  simp only [maxKeyLen] at small
  rw [BitVec.toNat_ofNat, Nat.mod_eq_of_lt (by omega)] at this
  exact List.length_eq_zero_iff.mp this

/-- Zeros behind the keys hide no further key, apart from the one empty key alone. -/
theorem eq_of_keyBytes_zeros {keys keys' : List Key} (short : Short keys) (short' : Short keys')
    (sorted' : keys'.SortedLT) (fewer : keys.length ≤ keys'.length)
    (count : keys.length % 2 ^ 16 = keys'.length % 2 ^ 16) {pad pad' : Nat}
    (same : keyBytes keys ++ List.replicate pad 0 = keyBytes keys' ++ List.replicate pad' 0) :
    keys = keys' := by
  -- The shorter list is read back from both sides, so it starts the longer one.
  have start : keys'.take keys.length = keys := by
    rw [← readKeys_keyBytes short' fewer (List.replicate pad' 0), ← same,
      readKeys_keyBytes short le_rfl, List.take_length]
  obtain ⟨more, rfl⟩ : ∃ more, keys' = keys ++ more :=
    ⟨keys'.drop keys.length, by rw [← List.take_append_drop keys.length keys', start]; simp⟩
  have rest : List.replicate pad (0 : Byte) = keyBytes more ++ List.replicate pad' 0 := by
    rw [keyBytes, keyBytes, List.flatMap_append, List.append_assoc] at same
    exact List.append_cancel_left same
  have empty : ∀ k ∈ more, k = [] := fun k member =>
    eq_nil_of_keyBytes_zero (fun k member => short' k (List.mem_append_right _ member))
      (fun b inside => List.eq_of_mem_replicate
        (n := pad) (rest ▸ List.mem_append_left _ inside)) member
  cases more with
  | nil => simp
  | cons first later =>
    obtain rfl := empty first List.mem_cons_self
    have ordered := List.pairwise_append.mp sorted'.pairwise
    -- No key is below the empty one, so it is the only key of its list.
    have none : keys = [] := List.eq_nil_iff_forall_not_mem.mpr fun k member =>
      absurd (ordered.2.2 k member [] List.mem_cons_self) (List.not_lt_nil k)
    have last : later = [] := List.eq_nil_iff_forall_not_mem.mpr fun k member => by
      have above := (List.pairwise_cons.mp ordered.2.1).1 k member
      rw [empty k (List.mem_cons_of_mem _ member)] at above
      exact lt_irrefl _ above
    subst none last
    simp at count

/-! ## Receivers -/

theorem length_le_contentLen (hash : List Byte → CapHash) (content : List Byte) :
    content.length ≤ (DataCap.fromBytes hash content).contentLen := by
  simp only [DataCap.fromBytes, DataCap.fromBytesSized, DataCap.contentLen,
    PageSlab.fromBytesSized, pageSize]
  omega

theorem copyInto_fromBytes (hash : List Byte → CapHash) (content : List Byte) :
    (DataCap.fromBytes hash content).copyInto 0 (DataCap.fromBytes hash content).contentLen =
      some (content ++ List.replicate
        ((DataCap.fromBytes hash content).contentLen - content.length) 0) := by
  have present : (DataCap.fromBytes hash content).Present := fun i elided missing => by
    have := DataCap.byteAt_fromBytesSized hash content content.length (i * pageSize)
    rw [DataCap.byteAt, Nat.mul_div_cancel _ pageSize_pos] at this
    rw [DataCap.fromBytes] at missing
    rw [missing] at this
    exact absurd this (by simp [PageSlot.byteAt])
  obtain ⟨bytes, read, length, same⟩ := DataCap.exists_copyFrom present 0
    (DataCap.fromBytes hash content).contentLen le_rfl
  have room := length_le_contentLen hash content
  rw [DataCap.copyInto, read]
  congr 1
  refine List.ext_getElem? fun k => ?_
  by_cases inside : k < (DataCap.fromBytes hash content).contentLen
  · have byte := same k inside
    rw [DataCap.fromBytes, DataCap.byteAt_fromBytesSized, Nat.zero_add, Option.some_inj] at byte
    rw [List.getElem?_eq_getElem (by omega),
      List.getElem?_eq_getElem (by rw [List.length_append, List.length_replicate]; omega),
      ← List.getD_eq_getElem _ 0, ← byte, List.getElem_append]
    split
    · rw [List.getD_eq_getElem]
    · rw [List.getD_eq_default _ _ (by omega), List.getElem_replicate]
  · rw [List.getElem?_eq_none (by omega), List.getElem?_eq_none
      (by rw [List.length_append, List.length_replicate]; omega)]

section

variable {hashes : Hashes} {keys keys' : List Key}

def receiverBytes (keys : List Key) : List Byte :=
  LittleEndian.encode 2 ((normalizeKeys keys).length % 2 ^ 16) ++ keyBytes (normalizeKeys keys)

theorem decode_count (n : Nat) : LittleEndian.decode (LittleEndian.encode 2 (n % 2 ^ 16)) =
    n % 2 ^ 16 :=
  LittleEndian.decode_encode_of_lt (Nat.mod_lt n (by decide))

theorem mem_yieldReceiver (hashes : Hashes) (keys : List Key) :
    (yieldReceiver hashes keys).mem =
      DataCap.fromBytes hashes.pageContentHash (receiverBytes keys) := rfl

/-- A receiver gives back the first keys of its set, as many as its count says. -/
theorem yieldReceiverKeys_yieldReceiver
    (known : recognizeKernelImage hashes (kernelImageHash hashes .yieldReceiver) =
      some .yieldReceiver) (short : Short keys) :
    yieldReceiverKeys hashes (yieldReceiver hashes keys) =
      some (some ((normalizeKeys keys).take (keys.toFinset.card % 2 ^ 16))) := by
  have room := length_le_contentLen hashes.pageContentHash (receiverBytes keys)
  have header : 2 ≤ (receiverBytes keys).length := by
    rw [receiverBytes, List.length_append, LittleEndian.length_encode]
    omega
  have image : recognizeKernelImage hashes (yieldReceiver hashes keys).imageHashChain =
      some .yieldReceiver := known
  rw [yieldReceiverKeys, if_neg (fun other => other image), mem_yieldReceiver]
  simp only
  rw [if_neg (by omega), copyInto_fromBytes, Option.map_some, receiverBytes, List.append_assoc,
    List.take_left' (LittleEndian.length_encode _ _),
    List.drop_left' (LittleEndian.length_encode _ _),
    decode_count, readKeys_keyBytes short.normalizeKeys (Nat.mod_le _ _), length_normalizeKeys]

theorem mergeYieldReceivers_yieldReceiver
    (known : recognizeKernelImage hashes (kernelImageHash hashes .yieldReceiver) =
      some .yieldReceiver) (short : Short keys) (short' : Short keys') :
    mergeYieldReceivers hashes (yieldReceiver hashes keys) (yieldReceiver hashes keys') =
      some (some (yieldReceiver hashes
        ((normalizeKeys keys).take (keys.toFinset.card % 2 ^ 16) ++
          (normalizeKeys keys').take (keys'.toFinset.card % 2 ^ 16)))) := by
  simp only [mergeYieldReceivers, yieldReceiverKeys_yieldReceiver known short,
    yieldReceiverKeys_yieldReceiver known short']
  rfl

theorem normalizeKeys_eq_of_yieldReceiver (short : Short keys) (short' : Short keys')
    (same : yieldReceiver hashes keys = yieldReceiver hashes keys') :
    normalizeKeys keys = normalizeKeys keys' := by
  have memory : DataCap.fromBytes hashes.pageContentHash (receiverBytes keys) =
      DataCap.fromBytes hashes.pageContentHash (receiverBytes keys') :=
    congrArg InstanceCap.mem same
  have content := copyInto_fromBytes hashes.pageContentHash (receiverBytes keys)
  rw [memory, copyInto_fromBytes, Option.some_inj, receiverBytes, receiverBytes, List.append_assoc,
    List.append_assoc] at content
  obtain ⟨header, body⟩ := List.append_inj content
    (by rw [LittleEndian.length_encode, LittleEndian.length_encode])
  have count := congrArg LittleEndian.decode header
  rw [decode_count, decode_count] at count
  rcases le_total (normalizeKeys keys).length (normalizeKeys keys').length with fewer | fewer
  · exact eq_of_keyBytes_zeros short.normalizeKeys short'.normalizeKeys
      (sorted_normalizeKeys keys') fewer count.symm body.symm
  · exact (eq_of_keyBytes_zeros short'.normalizeKeys short.normalizeKeys
      (sorted_normalizeKeys keys) fewer count body).symm

theorem yieldReceiver_eq_iff (short : Short keys) (short' : Short keys') :
    yieldReceiver hashes keys = yieldReceiver hashes keys' ↔ ∀ k, k ∈ keys ↔ k ∈ keys' := by
  rw [← normalizeKeys_eq_iff]
  exact ⟨normalizeKeys_eq_of_yieldReceiver short short', fun same => by
    simp only [yieldReceiver, same]⟩

/-- A receiver gives back its set: the elements in ascending order, each once. -/
def GivesBack (hashes : Hashes) (keys : List Key) : Prop :=
  ∃ set : List Key, yieldReceiverKeys hashes (yieldReceiver hashes keys) = some (some set) ∧
    set.Pairwise (· < ·) ∧ ∀ k, k ∈ set ↔ k ∈ keys

theorem givesBack_iff
    (known : recognizeKernelImage hashes (kernelImageHash hashes .yieldReceiver) =
      some .yieldReceiver) (short : Short keys) :
    GivesBack hashes keys ↔ keys.toFinset.card < 2 ^ 16 := by
  rw [GivesBack, yieldReceiverKeys_yieldReceiver known short]
  constructor
  · rintro ⟨set, read, sorted, members⟩
    -- What is read has as many keys as the set, so the count has lost nothing.
    obtain rfl := Option.some.inj (Option.some.inj read)
    have all := sorted.sortedLT.eq_of_mem_iff (sorted_normalizeKeys keys)
      fun k => by rw [members, mem_normalizeKeys]
    have length := congrArg List.length all
    rw [List.length_take, length_normalizeKeys] at length
    have := Nat.mod_lt keys.toFinset.card (show 2 ^ 16 > 0 by decide)
    omega
  · intro small
    refine ⟨_, rfl, ?_⟩
    rw [Nat.mod_eq_of_lt small, ← length_normalizeKeys, List.take_length]
    exact ⟨(sorted_normalizeKeys keys).pairwise, fun k => mem_normalizeKeys⟩

/-- The set algebra of receivers holds exactly for sets whose size the count can hold. -/
theorem receiver_algebra_iff
    (known : recognizeKernelImage hashes (kernelImageHash hashes .yieldReceiver) =
      some .yieldReceiver) (short : Short keys) (short' : Short keys') :
    (GivesBack hashes keys ∧ GivesBack hashes keys' ∧
      mergeYieldReceivers hashes (yieldReceiver hashes keys) (yieldReceiver hashes keys') =
        some (some (yieldReceiver hashes (keys ++ keys'))) ∧
      (yieldReceiver hashes keys = yieldReceiver hashes keys' ↔ ∀ k, k ∈ keys ↔ k ∈ keys')) ↔
      keys.toFinset.card < 2 ^ 16 ∧ keys'.toFinset.card < 2 ^ 16 := by
  rw [givesBack_iff known short, givesBack_iff known short']
  constructor
  · exact fun ⟨small, small', _⟩ => ⟨small, small'⟩
  · rintro ⟨small, small'⟩
    refine ⟨small, small', ?_, yieldReceiver_eq_iff short short'⟩
    rw [mergeYieldReceivers_yieldReceiver known short short', Nat.mod_eq_of_lt small,
      Nat.mod_eq_of_lt small', ← length_normalizeKeys, ← length_normalizeKeys, List.take_length,
      List.take_length]
    -- The elements are the same with and without the order.
    have same : normalizeKeys (normalizeKeys keys ++ normalizeKeys keys') =
        normalizeKeys (keys ++ keys') := normalizeKeys_eq_iff.mpr fun k => by
      rw [List.mem_append, List.mem_append, mem_normalizeKeys, mem_normalizeKeys]
    simp only [yieldReceiver, same]

end

/-- Digests that keep the first bytes; enough to tell the labels of the kernel images apart. -/
def labelHashes : Hashes where
  pageContentHash _ := zeroHash
  blake2b256 bytes := ⟨(bytes ++ List.replicate 32 0).take 32, by simp⟩
  capHash _ := zeroHash

theorem labelHashes_known :
    recognizeKernelImage labelHashes (kernelImageHash labelHashes .yieldReceiver) =
      some .yieldReceiver := by
  decide

theorem receiver_algebra_small :
    Short [[2, 1], [], [2, 1]] ∧ Short [[7]] ∧ GivesBack labelHashes [[2, 1], [], [2, 1]] ∧
      mergeYieldReceivers labelHashes (yieldReceiver labelHashes [[2, 1], [], [2, 1]])
        (yieldReceiver labelHashes [[7]]) =
        some (some (yieldReceiver labelHashes [[2, 1], [], [2, 1], [7]])) :=
  have short : Short [[2, 1], [], [2, 1]] := by simp [Short, maxKeyLen]
  have short' : Short [[7]] := by simp [Short, maxKeyLen]
  have algebra := (receiver_algebra_iff labelHashes_known short short').mpr
    ⟨by decide, by decide⟩
  ⟨short, short', algebra.1, algebra.2.2.1⟩

def twoByteKeys : List Key := (List.range (2 ^ 16)).map (LittleEndian.encode 2)

theorem card_twoByteKeys : twoByteKeys.toFinset.card = 2 ^ 16 := by
  have distinct : twoByteKeys.Nodup := by
    have decoded : ∀ a ∈ List.range (2 ^ 16), LittleEndian.decode (LittleEndian.encode 2 a) = a :=
      fun a small => LittleEndian.decode_encode_of_lt (List.mem_range.mp small)
    refine List.Nodup.map_on (fun a small b small' same => ?_) List.nodup_range
    rw [← decoded a small, same, decoded b small']
  rw [List.toFinset_card_of_nodup distinct, twoByteKeys, List.length_map, List.length_range]

/-- A receiver of 65536 keys catches none, since its count is zero, and a merge loses them all. -/
theorem receiver_algebra_fails :
    Short twoByteKeys ∧ ¬ GivesBack labelHashes twoByteKeys ∧
      yieldReceiverKeys labelHashes (yieldReceiver labelHashes twoByteKeys) = some (some []) ∧
      mergeYieldReceivers labelHashes (yieldReceiver labelHashes twoByteKeys)
        (yieldReceiver labelHashes []) = some (some (yieldReceiver labelHashes [])) := by
  have short : Short twoByteKeys := fun k member => by
    obtain ⟨n, -, rfl⟩ := List.mem_map.mp member
    rw [LittleEndian.length_encode]
    decide
  have none : Short [] := fun k member => absurd member List.not_mem_nil
  refine ⟨short, ?_, ?_, ?_⟩
  · rw [givesBack_iff labelHashes_known short, card_twoByteKeys]
    exact lt_irrefl _
  · rw [yieldReceiverKeys_yieldReceiver labelHashes_known short, card_twoByteKeys, Nat.mod_self,
      List.take_zero]
  · rw [mergeYieldReceivers_yieldReceiver labelHashes_known short none, card_twoByteKeys,
      Nat.mod_self, List.take_zero, List.nil_append]
    rfl

end Jar.Javm
