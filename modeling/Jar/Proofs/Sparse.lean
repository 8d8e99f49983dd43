import Jar.Ssz.Sparse
import Jar.Proofs.Merkleize
import Jar.Proofs.Radix

/-! The root of a sparse list is that of the full tree as long as no cached root is outdated. -/

namespace Jar.Ssz.CachedSparseList

open scoped Word

variable {T : Type} [HashTreeRoot T]

def leafRoot (d : Digest) (list : CachedSparseList T) (i : Nat) : ByteVector 32 :=
  ((list.entries.lookup (BitVec.ofNat 64 i)).map (hashTreeRoot d)).getD zeroChunk

/-- The root of the full subtree of some levels at an index. -/
def subtreeRoot (d : Digest) (list : CachedSparseList T) (levels idx : Nat) : ByteVector 32 :=
  Merkle.root (hashPair d) levels fun j => list.leafRoot d (idx * 2 ^ levels + j)

/-- Every cached root of a tree of some height is that of the full subtree. -/
def Fresh (d : Digest) (list : CachedSparseList T) (height : Nat) : Prop :=
  ∀ depth ≤ height, ∀ idx < 2 ^ depth, ∀ root,
    list.cachedSubtreeRoots.lookup (coordToKey depth (BitVec.ofNat 64 idx)) = some root →
      root = list.subtreeRoot d (height - depth) idx

/-! ## The walk -/

theorem subtreeRoot_succ (d : Digest) (list : CachedSparseList T) (levels idx : Nat) :
    list.subtreeRoot d (levels + 1) idx =
      hashPair d (list.subtreeRoot d levels (idx * 2)) (list.subtreeRoot d levels (idx * 2 + 1)) := by
  have left (j : Nat) : idx * 2 ^ (levels + 1) + j = idx * 2 * 2 ^ levels + j := by
    rw [Nat.pow_succ, Nat.mul_assoc, Nat.mul_comm 2]
  have right (j : Nat) :
      idx * 2 ^ (levels + 1) + (j + 2 ^ levels) = (idx * 2 + 1) * 2 ^ levels + j := by
    rw [left, Nat.add_mul, Nat.one_mul, Nat.add_assoc, Nat.add_comm j]
  unfold subtreeRoot
  rw [Merkle.root]
  simp only [right]
  simp only [left]

omit [HashTreeRoot T] in
/-- The search for a first entry in a range finds one exactly if there is one. -/
theorem any_partitionPoint (entries : SortedMap (BitVec 64) (MissingOr T)) (lo hi : BitVec 64) :
    (entries.entries[Radix.partitionPoint entries.entries fun e => e.1 < lo]?).any
        (fun e => e.1 < hi) = true ↔ ∃ e ∈ entries.entries, lo ≤ e.1 ∧ e.1 < hi := by
  have ordered : entries.entries.Pairwise
      fun a b => decide (b.1 < lo) = true → decide (a.1 < lo) = true :=
    entries.sorted.imp fun less below =>
      decide_eq_true (lt_trans less (of_decide_eq_true below))
  have rest := (Radix.split_partitionPoint ordered).2
  rw [← List.head?_drop, rest]
  have member (e : BitVec 64 × MissingOr T) :
      e ∈ (entries.entries.filter fun e => !decide (e.1 < lo)) ↔ e ∈ entries.entries ∧ lo ≤ e.1 := by
    simp [List.mem_filter]
  have sorted := entries.sorted.filter fun e => !decide (e.1 < lo)
  generalize (entries.entries.filter fun e => !decide (e.1 < lo)) = later at member sorted
  cases later with
  | nil =>
    refine iff_of_false (by simp) ?_
    rintro ⟨e, is, above, -⟩
    exact List.not_mem_nil ((member e).mpr ⟨is, above⟩)
  | cons first rest =>
    rw [List.head?_cons, Option.any_some, decide_eq_true_eq]
    constructor
    · intro below
      obtain ⟨is, above⟩ := (member first).mp List.mem_cons_self
      exact ⟨first, is, above, below⟩
    · rintro ⟨e, is, above, below⟩
      -- The first entry of the range is not above this one.
      rcases List.mem_cons.mp ((member e).mpr ⟨is, above⟩) with rfl | after
      · exact below
      · exact lt_trans ((List.pairwise_cons.mp sorted).1 e after) below

theorem subtreeRoot_of_none (d : Digest) (list : CachedSparseList T) {levels idx : Nat}
    (none : ∀ j < 2 ^ levels, list.entries.lookup (BitVec.ofNat 64 (idx * 2 ^ levels + j)) = none) :
    list.subtreeRoot d levels idx = zeroHash d.hasher levels := by
  unfold subtreeRoot zeroHash
  rw [← Merkle.root_const]
  refine Merkle.root_congr _ fun j below => ?_
  rw [leafRoot, none j below]
  rfl

theorem toNat_mul_shiftLeft {idx k : Nat} (small : k < 64) (fits : idx * 2 ^ k < 2 ^ 64) :
    (BitVec.ofNat 64 idx * (1#64 <<< k)).toNat = idx * 2 ^ k := by
  have width : 2 ^ k < 2 ^ 64 := Nat.pow_lt_pow_right (by decide) small
  rw [BitVec.toNat_mul, BitVec.toNat_shiftLeft, BitVec.toNat_ofNat, BitVec.toNat_ofNat,
    Nat.shiftLeft_eq, Nat.mod_eq_of_lt (by decide : 1 < 2 ^ 64), Nat.one_mul,
    Nat.mod_eq_of_lt width, Nat.mod_mul_mod, Nat.mod_eq_of_lt fits]

theorem computeSubtreeRoot_eq {d : Digest} {list : CachedSparseList T} {height : Nat}
    (fresh : list.Fresh d height) (small : height ≤ 63) {levels nodeDepth idx : Nat}
    (depths : nodeDepth + levels = height) (inside : idx < 2 ^ nodeDepth) :
    list.computeSubtreeRoot d levels nodeDepth (BitVec.ofNat 64 idx) =
      list.subtreeRoot d levels idx := by
  induction levels generalizing nodeDepth idx with
  | zero =>
    rw [computeSubtreeRoot]
    cases cached : list.cachedSubtreeRoots.lookup (coordToKey nodeDepth (BitVec.ofNat 64 idx)) with
    | some root => exact (fresh nodeDepth (by omega) idx inside root cached).trans (by congr 1; omega)
    | none => simp [subtreeRoot, Merkle.root, leafRoot]
  | succ levels ih =>
    rw [computeSubtreeRoot]
    cases cached : list.cachedSubtreeRoots.lookup (coordToKey nodeDepth (BitVec.ofNat 64 idx)) with
    | some root => exact (fresh nodeDepth (by omega) idx inside root cached).trans (by congr 1; omega)
    | none =>
      dsimp only
      have width : (idx + 1) * 2 ^ (levels + 1) ≤ 2 ^ 63 := calc
        (idx + 1) * 2 ^ (levels + 1) ≤ 2 ^ nodeDepth * 2 ^ (levels + 1) := Nat.mul_le_mul_right _ inside
        _ = 2 ^ height := by rw [← Nat.pow_add, depths]
        _ ≤ 2 ^ 63 := Nat.pow_le_pow_right (by decide) small
      rw [Nat.add_mul, Nat.one_mul] at width
      have positive := Nat.two_pow_pos (levels + 1)
      have lo := @toNat_mul_shiftLeft idx (levels + 1) (by omega) (by omega)
      have hi : (BitVec.ofNat 64 idx * (1#64 <<< (levels + 1)) + 1#64 <<< (levels + 1)).toNat =
          idx * 2 ^ (levels + 1) + 2 ^ (levels + 1) := by
        have one := @toNat_mul_shiftLeft 1 (levels + 1) (by omega) (by omega)
        rw [BitVec.one_mul, Nat.one_mul] at one
        rw [BitVec.toNat_add, lo, one, Nat.mod_eq_of_lt (by omega)]
      split
      next nothing =>
        -- No entry lies in the range, so every leaf of the subtree is zero.
        symm
        refine subtreeRoot_of_none d list fun j below => ?_
        rw [Bool.not_eq_true', ← Bool.not_eq_true, any_partitionPoint] at nothing
        cases found : list.entries.lookup (BitVec.ofNat 64 (idx * 2 ^ (levels + 1) + j)) with
        | none => rfl
        | some value =>
          have position : (BitVec.ofNat 64 (idx * 2 ^ (levels + 1) + j)).toNat =
              idx * 2 ^ (levels + 1) + j := by
            rw [BitVec.toNat_ofNat, Nat.mod_eq_of_lt (by omega)]
          refine absurd ⟨_, SortedMap.lookup_eq_some.mp found, ?_, ?_⟩ nothing
          · rw [BitVec.le_def, position, lo]
            omega
          · rw [BitVec.lt_def, position, hi]
            omega
      next something =>
        have left := @ih (nodeDepth + 1) (idx * 2) (by omega) (by rw [Nat.pow_succ]; omega)
        have right := @ih (nodeDepth + 1) (idx * 2 + 1) (by omega) (by rw [Nat.pow_succ]; omega)
        rw [BitVec.ofNat_mul] at left
        rw [BitVec.ofNat_add, BitVec.ofNat_mul] at right
        rw [subtreeRoot_succ, ← left, ← right]
        rfl

/-! ## Calls -/

/-- A cached root is correct when it is cached: it is that of a subtree of the current tree. -/
def CachesCorrectly (capacity : Nat) (d : Digest) (list : CachedSparseList T) : Call T → Prop
  | .cacheSubtreeRoot depth idx root =>
    depth ≤ ceilLog2 capacity ∧ idx.toNat < 2 ^ depth ∧
      root = list.subtreeRoot d (ceilLog2 capacity - depth) idx.toNat
  | _ => True

omit [HashTreeRoot T] in
/-- An index lies below a node whose root is cached. -/
def Covered (height : Nat) (list : CachedSparseList T) (i : Nat) : Prop :=
  ∃ depth ≤ height, (list.cachedSubtreeRoots.lookup
    (coordToKey depth (BitVec.ofNat 64 (i / 2 ^ (height - depth))))).isSome = true

/-- A call changes no leaf below a node whose root is cached. -/
def KeepsCovered (capacity : Nat) (d : Digest) (list : CachedSparseList T) : Call T → Prop
  | .insert idx value =>
    idx.toNat < capacity → list.Covered (ceilLog2 capacity) idx.toNat →
      hashTreeRoot d value = list.leafRoot d idx.toNat
  | .remove idx =>
    idx.toNat < capacity → list.Covered (ceilLog2 capacity) idx.toNat →
      zeroChunk = list.leafRoot d idx.toNat
  | _ => True

omit [HashTreeRoot T] in
theorem toNat_coordToKey {depth idx : Nat} (small : depth ≤ 63) (inside : idx < 2 ^ depth) :
    (coordToKey depth (BitVec.ofNat 64 idx)).toNat = 2 ^ depth + idx := by
  have width : 2 ^ depth < 2 ^ 64 := Nat.pow_lt_pow_right (by decide) (by omega)
  have disjoint := Nat.two_pow_add_eq_or_of_lt inside 1
  rw [Nat.mul_one] at disjoint
  rw [coordToKey, BitVec.toNat_or, BitVec.toNat_shiftLeft, BitVec.toNat_ofNat, BitVec.toNat_ofNat,
    Nat.mod_eq_of_lt (by omega : depth < 64), Nat.mod_eq_of_lt (by decide : 1 < 2 ^ 64),
    Nat.shiftLeft_eq, Nat.one_mul, Nat.mod_eq_of_lt width, Nat.mod_eq_of_lt (by omega : idx < 2 ^ 64),
    disjoint]

omit [HashTreeRoot T] in
/-- Different nodes of the tree have different heap indices. -/
theorem coordToKey_inj {depth depth' idx idx' : Nat} (small : depth ≤ 63) (small' : depth' ≤ 63)
    (inside : idx < 2 ^ depth) (inside' : idx' < 2 ^ depth')
    (same : coordToKey depth (BitVec.ofNat 64 idx) = coordToKey depth' (BitVec.ofNat 64 idx')) :
    depth = depth' ∧ idx = idx' := by
  have values := congrArg BitVec.toNat same
  rw [toNat_coordToKey small inside, toNat_coordToKey small' inside'] at values
  -- A heap index lies between the powers of two of its own depth and of the next one.
  have depths : depth = depth' := by
    rcases Nat.lt_trichotomy depth depth' with less | equal | greater
    · have := Nat.pow_le_pow_right (by decide : 0 < 2) (Nat.succ_le_of_lt less)
      rw [Nat.succ_eq_add_one, Nat.pow_succ] at this
      omega
    · exact equal
    · have := Nat.pow_le_pow_right (by decide : 0 < 2) (Nat.succ_le_of_lt greater)
      rw [Nat.succ_eq_add_one, Nat.pow_succ] at this
      omega
  subst depths
  exact ⟨rfl, by omega⟩

/-- Cached roots stay correct while no leaf below their nodes changes. -/
theorem Fresh.of_leaves {d : Digest} {list list' : CachedSparseList T} {height : Nat}
    (fresh : list.Fresh d height)
    (caches : list'.cachedSubtreeRoots = list.cachedSubtreeRoots)
    (kept : ∀ i < 2 ^ height, list.Covered height i → list'.leafRoot d i = list.leafRoot d i) :
    list'.Fresh d height := by
  intro depth within idx inside root cached
  rw [caches] at cached
  rw [fresh depth within idx inside root cached]
  refine Merkle.root_congr _ fun j below => (kept _ ?_ ⟨depth, within, ?_⟩).symm
  · calc
      idx * 2 ^ (height - depth) + j < idx * 2 ^ (height - depth) + 2 ^ (height - depth) := by omega
      _ = (idx + 1) * 2 ^ (height - depth) := by rw [Nat.add_mul, Nat.one_mul]
      _ ≤ 2 ^ depth * 2 ^ (height - depth) := Nat.mul_le_mul_right _ inside
      _ = 2 ^ height := by rw [← Nat.pow_add, Nat.add_sub_cancel' within]
  · have node : (idx * 2 ^ (height - depth) + j) / 2 ^ (height - depth) = idx := by
      rw [Nat.mul_comm, Nat.mul_add_div (Nat.two_pow_pos _), Nat.div_eq_of_lt below, Nat.add_zero]
    rw [node, cached]
    rfl

/-- What every list reached by calls satisfies. -/
structure Sound (capacity : Nat) (d : Digest) (list : CachedSparseList T) : Prop where
  /-- The cached roots are those of the full subtrees. -/
  fresh : list.Fresh d (ceilLog2 capacity)
  /-- The entries lie below the capacity. -/
  bounded : ∀ i value, list.entries.lookup i = some value → i.toNat < capacity

theorem sound_new (capacity : Nat) (d : Digest) : (new : CachedSparseList T).Sound capacity d where
  fresh := fun _ _ _ _ _ cached => nomatch cached
  bounded := fun _ _ found => nomatch found

variable {capacity : Nat} {d : Digest} {list : CachedSparseList T}

theorem leafRoot_insert {idx : BitVec 64} {value : MissingOr T} {len : BitVec 64}
    {caches : SortedMap (BitVec 64) (ByteVector 32)} {i : Nat} (small : i < 2 ^ 64) :
    leafRoot d ⟨⟨len, list.entries.insert idx value⟩, caches⟩ i =
      if i = idx.toNat then hashTreeRoot d value else list.leafRoot d i := by
  unfold leafRoot
  split
  next same => rw [same, BitVec.ofNat_toNat, BitVec.setWidth_eq, SortedMap.lookup_insert_self]; rfl
  next other =>
    rw [SortedMap.lookup_insert_ne]
    rintro rfl
    exact other (by rw [BitVec.toNat_ofNat, Nat.mod_eq_of_lt small])

theorem leafRoot_remove {idx : BitVec 64} {len : BitVec 64}
    {caches : SortedMap (BitVec 64) (ByteVector 32)} {i : Nat} (small : i < 2 ^ 64) :
    leafRoot d ⟨⟨len, list.entries.remove idx⟩, caches⟩ i =
      if i = idx.toNat then zeroChunk else list.leafRoot d i := by
  unfold leafRoot
  split
  next same => rw [same, BitVec.ofNat_toNat, BitVec.setWidth_eq, SortedMap.lookup_remove_self]; rfl
  next other =>
    rw [SortedMap.lookup_remove_ne]
    rintro rfl
    exact other (by rw [BitVec.toNat_ofNat, Nat.mod_eq_of_lt small])

theorem Sound.insert (sound : list.Sound capacity d) (small : capacity ≤ 2 ^ 63)
    {idx : BitVec 64} {value : MissingOr T}
    (keeps : list.KeepsCovered capacity d (.insert idx value)) :
    (list.after capacity (.insert idx value)).Sound capacity d := by
  rw [CachedSparseList.after, CachedSparseList.insert]
  split
  · exact sound
  next within =>
    have height : 2 ^ ceilLog2 capacity ≤ 2 ^ 63 :=
      Nat.pow_le_pow_right (by decide) (ceilLog2_le small)
    refine ⟨sound.fresh.of_leaves rfl fun i below covered => ?_, fun i other found => ?_⟩
    · refine (leafRoot_insert (by omega)).trans ?_
      split
      next same =>
        subst same
        exact keeps (by omega) covered
      · rfl
    · rcases eq_or_ne i idx with rfl | different
      · omega
      · exact sound.bounded i other ((SortedMap.lookup_insert_ne _ _ different).symm.trans found)

theorem Sound.remove (sound : list.Sound capacity d) (small : capacity ≤ 2 ^ 63) {idx : BitVec 64}
    (keeps : list.KeepsCovered capacity d (.remove idx)) :
    (list.after capacity (.remove idx)).Sound capacity d := by
  have height : 2 ^ ceilLog2 capacity ≤ 2 ^ 63 :=
    Nat.pow_le_pow_right (by decide) (ceilLog2_le small)
  refine ⟨sound.fresh.of_leaves rfl fun i below covered => ?_, fun i other found => ?_⟩
  · refine (leafRoot_remove (by omega)).trans ?_
    split
    next same =>
      subst same
      by_cases within : idx.toNat < capacity
      · exact keeps within covered
      · -- There is no entry above the capacity to remove.
        rw [leafRoot, BitVec.ofNat_toNat, BitVec.setWidth_eq]
        cases held : list.entries.lookup idx with
        | none => rfl
        | some value => exact absurd (sound.bounded idx value held) within
    · rfl
  · rcases eq_or_ne i idx with rfl | different
    · exact nomatch (SortedMap.lookup_remove_self _ _).symm.trans found
    · exact sound.bounded i other ((SortedMap.lookup_remove_ne _ different).symm.trans found)

theorem Sound.cache (sound : list.Sound capacity d) (small : capacity ≤ 2 ^ 63) {depth : Nat}
    {idx : BitVec 64} {root : ByteVector 32}
    (correct : list.CachesCorrectly capacity d (.cacheSubtreeRoot depth idx root)) :
    (list.after capacity (.cacheSubtreeRoot depth idx root)).Sound capacity d := by
  obtain ⟨within, inside, rightRoot⟩ := correct
  have height : ceilLog2 capacity ≤ 63 := ceilLog2_le small
  refine ⟨fun depth' within' idx' inside' root' cached => ?_, sound.bounded⟩
  have key : coordToKey depth idx = coordToKey depth (BitVec.ofNat 64 idx.toNat) := by
    rw [BitVec.ofNat_toNat, BitVec.setWidth_eq]
  by_cases same : coordToKey depth' (BitVec.ofNat 64 idx') = coordToKey depth idx
  · -- The key is that of the cached node itself.
    obtain ⟨rfl, rfl⟩ := coordToKey_inj (by omega) (by omega) inside' inside (same.trans key)
    have stored : some root = some root' := by
      rw [← cached, same]
      exact (SortedMap.lookup_insert_self _ _ _).symm
    cases stored
    exact rightRoot
  · exact sound.fresh depth' within' idx' inside' root'
      ((SortedMap.lookup_insert_ne _ _ same).symm.trans cached)

/-- A call with a correct root that changes no covered leaf. -/
theorem Sound.after (sound : list.Sound capacity d) (small : capacity ≤ 2 ^ 63) {call : Call T}
    (correct : list.CachesCorrectly capacity d call) (keeps : list.KeepsCovered capacity d call) :
    (list.after capacity call).Sound capacity d := by
  cases call with
  | insert idx value => exact sound.insert small keeps
  | remove idx => exact sound.remove small keeps
  | setLen len =>
    rw [CachedSparseList.after, CachedSparseList.setLen]
    split
    · exact sound
    · exact ⟨sound.fresh, sound.bounded⟩
  | cacheSubtreeRoot depth idx root => exact sound.cache small correct

/-- The root of a list with correct cached roots is that of the full tree. -/
theorem Sound.rootOf_eq (sound : list.Sound capacity d) (small : capacity ≤ 2 ^ 63) :
    list.rootOf capacity d =
      mixInLength d.hasher
        (merkleize d.hasher ((List.range capacity).map (list.leafRoot d)) capacity)
        list.len.toNat := by
  have walked := computeSubtreeRoot_eq sound.fresh (ceilLog2_le small) (Nat.zero_add _)
    (by decide : 0 < 2 ^ 0)
  have leaves : max (max capacity ((List.range capacity).map (list.leafRoot d)).length) 1 =
      max capacity 1 := by simp
  have heights : ceilLog2 (max capacity 1) = ceilLog2 capacity := by
    rcases Nat.le_total capacity 1 with tiny | large
    · rw [Nat.max_eq_right tiny, ceilLog2, ceilLog2, if_pos (Nat.le_refl 1), if_pos tiny]
    · rw [Nat.max_eq_left large]
  rw [rootOf, merkleize_eq_root, leaves, heights]
  congr 1
  refine walked.trans (Merkle.root_congr _ fun i below => ?_)
  rw [Nat.zero_mul, Nat.zero_add, List.getD_eq_getElem?_getD, List.getElem?_map]
  by_cases within : i < capacity
  · rw [List.getElem?_range within]
    rfl
  · -- Past the capacity there are no entries.
    have height : 2 ^ ceilLog2 capacity ≤ 2 ^ 63 :=
      Nat.pow_le_pow_right (by decide) (ceilLog2_le small)
    rw [List.getElem?_eq_none (by simpa using within), leafRoot]
    cases held : list.entries.lookup (BitVec.ofNat 64 i) with
    | none => rfl
    | some value =>
      have bounded := sound.bounded _ value held
      rw [BitVec.toNat_ofNat, Nat.mod_eq_of_lt (by omega)] at bounded
      exact absurd bounded within

/-- Along calls that cache correct roots and change no covered leaf, the root is that of the full
tree over the current entries. -/
theorem rootOf_calls (small : capacity ≤ 2 ^ 63) (calls : List (Call T))
    (correct : ∀ before call rest, calls = before ++ call :: rest →
      (before.foldl (CachedSparseList.after capacity) new).CachesCorrectly capacity d call)
    (keeps : ∀ before call rest, calls = before ++ call :: rest →
      (before.foldl (CachedSparseList.after capacity) new).KeepsCovered capacity d call) :
    (calls.foldl (CachedSparseList.after capacity) new).rootOf capacity d =
      mixInLength d.hasher
        (merkleize d.hasher ((List.range capacity).map
          ((calls.foldl (CachedSparseList.after capacity) new).leafRoot d)) capacity)
        (calls.foldl (CachedSparseList.after capacity) new).len.toNat := by
  have sound : (calls.foldl (CachedSparseList.after capacity) new).Sound capacity d := by
    -- One call after the other keeps the cached roots correct.
    induction calls using List.reverseRecOn with
    | nil => exact sound_new capacity d
    | append_singleton before call ih =>
      have earlier := ih
        (fun b c r same => correct b c (r ++ [call]) (by rw [same]; simp))
        (fun b c r same => keeps b c (r ++ [call]) (by rw [same]; simp))
      rw [List.foldl_append]
      exact earlier.after small (correct before call [] rfl) (keeps before call [] rfl)
  exact sound.rootOf_eq small

/-- The root of an array of four bytes. -/
instance : HashTreeRoot (ByteVector 4) := ⟨fun d bytes => bytesRoot d.hasher bytes.1⟩

/-- An entry that is there. -/
def fourOnes : MissingOr (ByteVector 4) := .materialized ⟨[1, 1, 1, 1], rfl⟩

/-- A digest that keeps the first 32 bytes of what is hashed. -/
def firstBytes : Digest := fun bytes => padChunk bytes

/-- Entries before and beside a cached node keep the root that of the full tree. -/
theorem rootOf_calls_beside :
    ([.insert 0 fourOnes, .cacheSubtreeRoot 1 1 (zeroHash firstBytes.hasher 1),
        .insert 1 fourOnes].foldl (CachedSparseList.after 4) new).rootOf 4 firstBytes =
      mixInLength firstBytes.hasher (merkleize firstBytes.hasher
        ((List.range 4).map (leafRoot firstBytes ([.insert 0 fourOnes,
          .cacheSubtreeRoot 1 1 (zeroHash firstBytes.hasher 1),
          .insert 1 fourOnes].foldl (CachedSparseList.after 4) new))) 4) 2 := by
  refine rootOf_calls (by decide) _ (fun before call rest same => ?_)
    (fun before call rest same => ?_)
  · match before, call, rest, same with
    | [], _, _, rfl => trivial
    | [_], _, _, rfl => exact ⟨by decide, by decide, by decide⟩
    | [_, _], _, _, rfl => trivial
    | _ :: _ :: _ :: _, _, _, same => simp at same
  · match before, call, rest, same with
    | [], _, _, rfl =>
      rintro - ⟨depth, -, covered⟩
      exact nomatch covered
    | [_], _, _, rfl => trivial
    | [_, _], _, _, rfl =>
      -- Only the root of the right half is cached, and the entry goes to the left half.
      rintro - ⟨depth, within, covered⟩
      obtain rfl | rfl | rfl : depth = 0 ∨ depth = 1 ∨ depth = 2 := by
        have : ceilLog2 4 = 2 := by decide
        omega
      all_goals exact absurd covered (by decide)
    | _ :: _ :: _ :: _, _, _, same => simp at same

/-- A root that was correct when it was cached is not when an entry has been added below it. -/
theorem rootOf_outdated :
    (new : CachedSparseList (ByteVector 4)).CachesCorrectly 1 firstBytes
        (.cacheSubtreeRoot 0 0 zeroChunk) ∧
      ([.cacheSubtreeRoot 0 0 zeroChunk, .insert 0 fourOnes].foldl (CachedSparseList.after 1)
          new).rootOf 1 firstBytes ≠
        mixInLength firstBytes.hasher (merkleize firstBytes.hasher
          ((List.range 1).map (leafRoot firstBytes ([.cacheSubtreeRoot 0 0 zeroChunk,
            .insert 0 fourOnes].foldl (CachedSparseList.after 1) new))) 1) 1 :=
  ⟨⟨by decide, by decide, by decide⟩, by decide⟩

end Jar.Ssz.CachedSparseList
