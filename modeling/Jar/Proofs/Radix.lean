import Jar.Ssz.Radix
import Mathlib.Data.List.Sort

/-! The root of a radix map binds its entries, and accepted proofs tell the truth about them. -/

namespace Jar.Ssz.Radix

open scoped Word

/-! ## Bits of keys -/

theorem bit_cons_of_lt (x : Byte) (xs : List Byte) {i : Nat} (first : i < 8) :
    bit (x :: xs) i = (x >>> (7 - i)) &&& 1 := by
  have byte : i >>> 3 = 0 := by rw [Nat.shiftRight_eq_div_pow]; omega
  have offset : i &&& 7 = i := by
    rw [show (7 : Nat) = 2 ^ 3 - 1 from rfl, Nat.and_two_pow_sub_one_eq_mod]
    omega
  rw [bit, byte, offset]
  rfl

theorem bit_cons_add (x : Byte) (xs : List Byte) (i : Nat) : bit (x :: xs) (i + 8) = bit xs i := by
  have byte : (i + 8) >>> 3 = i >>> 3 + 1 := by simp only [Nat.shiftRight_eq_div_pow]; omega
  have offset : (i + 8) &&& 7 = i &&& 7 := by
    rw [show (7 : Nat) = 2 ^ 3 - 1 from rfl, Nat.and_two_pow_sub_one_eq_mod,
      Nat.and_two_pow_sub_one_eq_mod]
    omega
  rw [bit, byte, offset, List.getD_cons_succ]
  rfl

theorem toNat_bit (x : Byte) (i : Nat) : (x >>> i &&& 1).toNat = x.toNat / 2 ^ i % 2 := by
  rw [BitVec.toNat_and, BitVec.toNat_ushiftRight, Nat.shiftRight_eq_div_pow]
  exact Nat.and_one_is_mod _

/-- Bytes that agree on their first bits agree on the number that these make up. -/
theorem high_eq {x y : Byte} {n : Nat} (within : n ≤ 8)
    (agree : ∀ i < n, x >>> (7 - i) &&& 1 = y >>> (7 - i) &&& 1) :
    x.toNat / 2 ^ (8 - n) = y.toNat / 2 ^ (8 - n) := by
  induction n with
  | zero => rw [Nat.div_eq_of_lt x.isLt, Nat.div_eq_of_lt y.isLt]
  | succ n ih =>
    have above := ih (by omega) fun i below => agree i (by omega)
    have digit := congrArg BitVec.toNat (agree n (Nat.lt_succ_self n))
    rw [toNat_bit, toNat_bit] at digit
    rw [show 8 - n = (7 - n) + 1 by omega, Nat.pow_succ, ← Nat.div_div_eq_div_mul,
      ← Nat.div_div_eq_div_mul] at above
    rw [show 8 - (n + 1) = 7 - n by omega]
    omega

theorem byte_ext {x y : Byte} (agree : ∀ i < 8, x >>> (7 - i) &&& 1 = y >>> (7 - i) &&& 1) :
    x = y := by
  apply BitVec.eq_of_toNat_eq
  have same := high_eq (Nat.le_refl 8) agree
  rwa [Nat.sub_self, Nat.pow_zero, Nat.div_one, Nat.div_one] at same

/-- The first bit in which two bytes differ decides their order. -/
theorem byte_lt {x y : Byte} {n : Nat} (within : n < 8)
    (agree : ∀ i < n, x >>> (7 - i) &&& 1 = y >>> (7 - i) &&& 1)
    (low : x >>> (7 - n) &&& 1 = 0) (high : y >>> (7 - n) &&& 1 ≠ 0) : x < y := by
  have above := high_eq (Nat.le_of_lt within) agree
  have lowDigit : x.toNat / 2 ^ (7 - n) % 2 = 0 := by rw [← toNat_bit, low]; rfl
  have highDigit : y.toNat / 2 ^ (7 - n) % 2 ≠ 0 := by
    rw [← toNat_bit]
    exact fun zero => high (BitVec.eq_of_toNat_eq zero)
  rw [show 8 - n = (7 - n) + 1 by omega, Nat.pow_succ, ← Nat.div_div_eq_div_mul,
    ← Nat.div_div_eq_div_mul] at above
  have less : x.toNat / 2 ^ (7 - n) < y.toNat / 2 ^ (7 - n) := by omega
  rw [BitVec.lt_def]
  exact Nat.lt_of_not_le fun le => Nat.not_le_of_lt less (Nat.div_le_div_right le)

theorem eq_of_bits : ∀ {xs ys : List Byte}, xs.length = ys.length →
    (∀ i < xs.length * 8, bit xs i = bit ys i) → xs = ys
  | [], [], _, _ => rfl
  | x :: xs, y :: ys, same, agree => by
    have head : x = y := byte_ext fun i first => by
      rw [← bit_cons_of_lt x xs first, ← bit_cons_of_lt y ys first]
      exact agree i (by simp only [List.length_cons]; omega)
    have tail : xs = ys := eq_of_bits (Nat.succ.inj same) fun i below => by
      rw [← bit_cons_add x xs, ← bit_cons_add y ys]
      exact agree (i + 8) (by simp only [List.length_cons]; omega)
    rw [head, tail]

/-- The first bit in which two keys differ decides their order. -/
theorem lt_of_bits : ∀ {xs ys : List Byte} {depth : Nat}, xs.length = ys.length →
    depth < xs.length * 8 → (∀ i < depth, bit xs i = bit ys i) → bit xs depth = 0 →
    bit ys depth ≠ 0 → xs < ys
  | x :: xs, y :: ys, depth, same, within, agree, low, high => by
    rcases Nat.lt_or_ge depth 8 with first | later
    · rw [bit_cons_of_lt _ _ first] at low high
      refine List.Lex.rel (byte_lt first (fun i below => ?_) low high)
      rw [← bit_cons_of_lt x xs (by omega), ← bit_cons_of_lt y ys (by omega)]
      exact agree i below
    · -- The first bytes agree, so the rest decides.
      obtain ⟨depth, rfl⟩ := Nat.exists_eq_add_of_le' later
      rw [bit_cons_add] at low high
      have head : x = y := byte_ext fun i first => by
        rw [← bit_cons_of_lt x xs first, ← bit_cons_of_lt y ys first]
        exact agree i (by omega)
      rw [head]
      refine List.Lex.cons (lt_of_bits (Nat.succ.inj same) ?_ (fun i below => ?_) low high)
      · simp only [List.length_cons] at within
        omega
      · rw [← bit_cons_add x xs, ← bit_cons_add y ys]
        exact agree (i + 8) (by omega)

/-! ## Maps as trees -/

variable {keyBytes : Nat} {V : Type} [HashTreeRoot V]

def bitAt (key : ByteVector keyBytes) (i : Nat) : Bool := bit key.1 i ≠ 0

/-- The nodes of a map's tree. -/
abbrev Node (keyBytes : Nat) :=
  RadixTree.Node (ByteVector keyBytes) (ByteVector 32) (ByteVector 32)

def preimage : Node keyBytes → List Byte
  | .leaf key root => leafTag :: (key.1 ++ root.1)
  | .branch left right => branchTag :: (left.1 ++ right.1)

def nodeHash (d : Digest) (node : Node keyBytes) : ByteVector 32 := d (preimage node)

def entryRoot (d : Digest) (e : ByteVector keyBytes × MissingOr V) :
    ByteVector keyBytes × ByteVector 32 :=
  (e.1, hashTreeRoot d e.2)

theorem bit_eq_zero_or_one (key : List Byte) (i : Nat) : bit key i = 0 ∨ bit key i = 1 := by
  have bits : ∀ x : Byte, x &&& 1 = 0 ∨ x &&& 1 = 1 := by decide +kernel
  exact bits _

theorem bit_eq_of_bitAt {key key' : ByteVector keyBytes} {i : Nat}
    (same : bitAt key i = bitAt key' i) : bit key.1 i = bit key'.1 i := by
  simp only [bitAt] at same
  rcases bit_eq_zero_or_one key.1 i with is | is <;>
    rcases bit_eq_zero_or_one key'.1 i with is' | is' <;> rw [is, is'] at same ⊢ <;>
    exact nomatch same

theorem separates_bitAt : RadixTree.Separates (@bitAt keyBytes) (keyBytes * 8) := by
  intro k k' agree
  refine Subtype.ext (eq_of_bits (by rw [k.2, k'.2]) fun i below => ?_)
  exact bit_eq_of_bitAt (agree i (by rwa [k.2] at below))

/-- A slice in which the predicate holds first and fails from some point on is split there. -/
theorem split_partitionPoint {T : Type} {p : T → Bool} : ∀ {s : List T},
    s.Pairwise (fun a b => p b → p a) →
    s.take (partitionPoint s p) = s.filter p ∧
      s.drop (partitionPoint s p) = s.filter fun e => !p e
  | [], _ => ⟨rfl, rfl⟩
  | a :: rest, ordered => by
    obtain ⟨first, ordered⟩ := List.pairwise_cons.mp ordered
    cases holds : p a with
    | true =>
      obtain ⟨low, high⟩ := split_partitionPoint ordered
      simp only [partitionPoint, List.takeWhile_cons, holds, if_true, List.length_cons,
        List.take_succ_cons, List.drop_succ_cons, List.filter_cons, Bool.not_true,
        Bool.false_eq_true, if_false] at low high ⊢
      rw [low, high]
      exact ⟨rfl, rfl⟩
    | false =>
      have later : ∀ b ∈ rest, p b = false := fun b member => by
        cases holds' : p b with
        | false => rfl
        | true => rw [first b member holds'] at holds; exact nomatch holds
      have none : rest.filter p = [] :=
        List.filter_eq_nil_iff.mpr fun b member => by simp [later b member]
      have all : (rest.filter fun e => !p e) = rest :=
        List.filter_eq_self.mpr fun b member => by simp [later b member]
      simp [partitionPoint, holds, none, all]

theorem radixNode_of_two (d : Digest) (levels : Nat) (e e' : ByteVector keyBytes × MissingOr V)
    (rest : List (ByteVector keyBytes × MissingOr V)) (depth : Nat) :
    radixNode d (levels + 1) (e :: e' :: rest) depth =
      branchHash d
        (radixNode d levels ((e :: e' :: rest).take
          (partitionPoint (e :: e' :: rest) fun e => bit e.1.1 depth = 0)) (depth + 1))
        (radixNode d levels ((e :: e' :: rest).drop
          (partitionPoint (e :: e' :: rest) fun e => bit e.1.1 depth = 0)) (depth + 1)) :=
  rfl

theorem side_map_entryRoot (d : Digest) (depth : Nat) {b : Bool}
    (s : List (ByteVector keyBytes × MissingOr V)) {p : ByteVector keyBytes × MissingOr V → Bool}
    (is : ∀ e, p e ↔ bitAt e.1 depth = b) :
    RadixTree.side bitAt depth b (s.map (entryRoot d)) = (s.filter p).map (entryRoot d) := by
  rw [RadixTree.side, List.filter_map]
  congr 2
  funext e
  rw [Bool.eq_iff_iff, is]
  exact decide_eq_true_iff

omit [HashTreeRoot V] in
/-- In order, entries that agree on their first bits come with the next bit clear first. -/
theorem ordered_bits {s : List (ByteVector keyBytes × MissingOr V)} {depth : Nat}
    (within : depth < keyBytes * 8) (sorted : s.Pairwise fun a b => a.1 < b.1)
    (agree : ∀ a ∈ s, ∀ b ∈ s, ∀ i < depth, bit b.1.1 i = bit a.1.1 i) :
    s.Pairwise fun a b => decide (bit b.1.1 depth = 0) → decide (bit a.1.1 depth = 0) := by
  refine List.Pairwise.imp_of_mem (fun {a b} ha hb less => ?_) sorted
  simp only [decide_eq_true_iff]
  intro clear
  by_contra set
  refine lt_asymm less (lt_of_bits (by rw [a.1.2, b.1.2]) ?_ (agree a ha b hb) clear set)
  rw [b.1.2]
  exact within

theorem radixNode_eq_root (d : Digest) {levels depth : Nat} (total : depth + levels = keyBytes * 8)
    {s : List (ByteVector keyBytes × MissingOr V)} (sorted : s.Pairwise fun a b => a.1 < b.1)
    (shared : RadixTree.Shared bitAt depth (s.map (entryRoot d))) :
    radixNode d levels s depth =
      RadixTree.root bitAt (nodeHash d) empty levels depth (s.map (entryRoot d)) := by
  induction levels generalizing s depth with
  | zero =>
    match s with
    | [] | [_] | _ :: _ :: _ => rfl
  | succ levels ih =>
    match s with
    | [] | [_] => rfl
    | e :: e' :: rest =>
      obtain ⟨low, high⟩ := split_partitionPoint (ordered_bits (by omega) sorted
        fun a ha b hb i below => bit_eq_of_bitAt
          (shared.agree _ (List.mem_map_of_mem hb) _ (List.mem_map_of_mem ha) i below))
      have left := side_map_entryRoot d depth (e :: e' :: rest)
        (p := fun e => decide (bit e.1.1 depth = 0)) (b := false) (by simp [bitAt])
      have right := side_map_entryRoot d depth (e :: e' :: rest)
        (p := fun e => !decide (bit e.1.1 depth = 0)) (b := true) (by simp [bitAt])
      have sharedLeft := left ▸ shared.side false
      have sharedRight := right ▸ shared.side true
      rw [radixNode_of_two, low, high, ih (by omega) (sorted.filter _) sharedLeft,
        ih (by omega) (sorted.filter _) sharedRight, ← left, ← right]
      rfl

/-- The entries of a map with the roots of their values, as their tree sees them. -/
def entryRoots (d : Digest) (m : RadixMap V keyBytes) :
    List (ByteVector keyBytes × ByteVector 32) :=
  m.entries.map (entryRoot d)

theorem shared_entryRoots (d : Digest) (m : RadixMap V keyBytes) :
    RadixTree.Shared bitAt 0 (entryRoots d m) := by
  refine ⟨?_, fun _ _ _ _ _ none => absurd none (Nat.not_lt_zero _)⟩
  rw [entryRoots, List.map_map, List.Nodup, List.pairwise_map]
  exact m.sorted.imp fun less => ne_of_lt less

theorem hashTreeRoot_eq_root (d : Digest) (m : RadixMap V keyBytes) :
    hashTreeRoot d m =
      RadixTree.root bitAt (nodeHash d) empty (keyBytes * 8) 0 (entryRoots d m) :=
  radixNode_eq_root d (Nat.zero_add _) m.sorted (shared_entryRoots d m)

/-- A map holds a value with some root at a key. -/
def Holds (d : Digest) (m : RadixMap V keyBytes) (key : ByteVector keyBytes)
    (root : ByteVector 32) : Prop :=
  ∃ value, get m key = some value ∧ hashTreeRoot d value = root

theorem mem_entryRoots {d : Digest} {m : RadixMap V keyBytes} {key : ByteVector keyBytes}
    {root : ByteVector 32} : (key, root) ∈ entryRoots d m ↔ Holds d m key root := by
  rw [entryRoots, List.mem_map]
  constructor
  · rintro ⟨e, member, same⟩
    cases same
    exact ⟨e.2, SortedMap.lookup_eq_some.mpr member, rfl⟩
  · rintro ⟨value, found, rfl⟩
    exact ⟨(key, value), SortedMap.lookup_eq_some.mp found, rfl⟩

theorem entryRoots_eq {d : Digest} {m m' : RadixMap V keyBytes}
    (same : ∀ key root, Holds d m key root ↔ Holds d m' key root) :
    entryRoots d m = entryRoots d m' := by
  let less (a b : ByteVector keyBytes × ByteVector 32) : Prop := a.1 < b.1
  have sorted : ∀ m : RadixMap V keyBytes, (entryRoots d m).Pairwise less := fun m => by
    rw [entryRoots, List.pairwise_map]
    exact m.sorted
  have irrefl : Std.Irrefl less := ⟨fun _ => lt_irrefl _⟩
  have antisymm : Std.Antisymm less := ⟨fun _ _ lt gt => absurd gt (lt_asymm lt)⟩
  refine List.Pairwise.eq_of_mem_iff (sorted m) (sorted m') fun e => ?_
  rw [mem_entryRoots, mem_entryRoots, same]

/-! ## Collisions -/

def mapNodes (d : Digest) (m : RadixMap V keyBytes) : List (Node keyBytes) :=
  RadixTree.nodes bitAt (nodeHash d) empty (keyBytes * 8) 0 (entryRoots d m)

/-- The node that a terminal claims to be. -/
def terminalTop (d : Digest) (key : ByteVector keyBytes) :
    RadixTerminal V keyBytes → Option (Node keyBytes)
  | .leaf value => some (.leaf key (hashTreeRoot d value))
  | .empty => none
  | .divergingLeaf otherKey otherValueRoot => some (.leaf otherKey otherValueRoot)

def proofNodes (d : Digest) (key : ByteVector keyBytes) (proof : RadixProof V keyBytes) :
    List (Node keyBytes) :=
  RadixTree.climbNodes bitAt (nodeHash d) key (siblingAt proof.siblings) proof.termDepth.toNat
      (RadixTree.hash (nodeHash d) empty (terminalTop d key proof.terminal)) ++
    (terminalTop d key proof.terminal).toList

/-- The digest is injective on the preimages of some nodes, and never gives the zero chunk. -/
structure CollisionResistant (d : Digest) (nodes : List (Node keyBytes)) : Prop where
  injective : ∀ a ∈ nodes.map preimage, ∀ b ∈ nodes.map preimage, d a = d b → a = b
  nonzero : ∀ a ∈ nodes.map preimage, d a ≠ empty

/-- The tag tells leaves from branches, and the parts have fixed widths. -/
theorem preimage_injective {a b : Node keyBytes} (same : preimage a = preimage b) : a = b := by
  match a, b with
  | .leaf key root, .leaf key' root' =>
    obtain ⟨sameKey, sameRoot⟩ := List.append_inj (List.cons.inj same).2 (by rw [key.2, key'.2])
    rw [Subtype.ext sameKey, Subtype.ext sameRoot]
  | .branch left right, .branch left' right' =>
    obtain ⟨sameLeft, sameRight⟩ :=
      List.append_inj (List.cons.inj same).2 (by rw [left.2, left'.2])
    rw [Subtype.ext sameLeft, Subtype.ext sameRight]
  | .leaf .., .branch .. | .branch .., .leaf .. => exact absurd (List.cons.inj same).1 (by decide)

theorem CollisionResistant.free {d : Digest} {nodes : List (Node keyBytes)}
    (resistant : CollisionResistant d nodes) :
    RadixTree.CollisionFree (nodeHash d) empty nodes where
  injective _ ha _ hb same := preimage_injective
    (resistant.injective _ (List.mem_map_of_mem ha) _ (List.mem_map_of_mem hb) same)
  nonempty _ ha := resistant.nonzero _ (List.mem_map_of_mem ha)

/-! ## Soundness of proofs -/

/-- The levels of a proof are folded along the path of its key. -/
theorem foldl_foldLevel (d : Digest) (key : ByteVector keyBytes)
    (siblings : List (BitVec 32 × ByteVector 32)) (td : Nat) (cur : ByteVector 32) :
    (List.range td).reverse.foldl (foldLevel d key siblings) cur =
      RadixTree.climb bitAt (nodeHash d) key (siblingAt siblings) td cur := by
  induction td generalizing cur with
  | zero => rfl
  | succ td ih =>
    rw [List.range_succ, List.reverse_append, List.reverse_singleton, List.singleton_append,
      List.foldl_cons, ih, RadixTree.climb]
    congr 1
    by_cases clear : bit key.1 td = 0
    · simp only [foldLevel, RadixTree.join, bitAt, clear, if_true, ne_eq, not_true_eq_false,
        decide_false, Bool.false_eq_true, if_false]
      rfl
    · simp only [foldLevel, RadixTree.join, bitAt, clear, if_true, ne_eq, not_false_eq_true,
        decide_true, if_false]
      rfl

/-- The verdict that a terminal may come with; a diverging leaf is one of another key. -/
def Shows (key : ByteVector keyBytes) : RadixTerminal V keyBytes → RadixVerdict → Prop
  | .leaf _, verdict => verdict = .present
  | .empty, verdict => verdict = .absent
  | .divergingLeaf otherKey _, verdict => verdict = .absent ∧ otherKey ≠ key

def terminalEntries (d : Digest) (key : ByteVector keyBytes) :
    RadixTerminal V keyBytes → List (ByteVector keyBytes × ByteVector 32)
  | .leaf value => [(key, hashTreeRoot d value)]
  | .empty => []
  | .divergingLeaf otherKey otherValueRoot => [(otherKey, otherValueRoot)]

theorem terminalNode_eq_some {d : Digest} {key : ByteVector keyBytes} {td : Nat}
    {terminal : RadixTerminal V keyBytes} {cur : ByteVector 32} {verdict : RadixVerdict}
    (node : terminalNode d key td terminal = some (cur, verdict)) :
    cur = RadixTree.hash (nodeHash d) empty (terminalTop d key terminal) ∧
      Shows key terminal verdict := by
  match terminal with
  | .leaf _ | .empty =>
    cases node
    exact ⟨rfl, rfl⟩
  | .divergingLeaf otherKey _ =>
    obtain ⟨other, node⟩ := Option.ite_none_left_eq_some.mp node
    obtain ⟨-, node⟩ := Option.ite_none_left_eq_some.mp node
    cases node
    exact ⟨rfl, rfl, fun same => other (congrArg Subtype.val same)⟩

/-- What an accepted proof has shown: its path leads to the root. -/
theorem verify_eq_some {d : Digest} {root : ByteVector 32} {key : ByteVector keyBytes}
    {proof : RadixProof V keyBytes} {verdict : RadixVerdict}
    (accepted : verify d root key proof = some verdict) :
    proof.termDepth.toNat ≤ keyBytes * 8 ∧
      RadixTree.climb bitAt (nodeHash d) key (siblingAt proof.siblings) proof.termDepth.toNat
        (RadixTree.hash (nodeHash d) empty (terminalTop d key proof.terminal)) = root ∧
      Shows key proof.terminal verdict := by
  simp only [verify] at accepted
  obtain ⟨within, accepted⟩ := Option.ite_none_left_eq_some.mp accepted
  obtain ⟨-, accepted⟩ := Option.ite_none_left_eq_some.mp accepted
  obtain ⟨⟨cur, verdict'⟩, node, accepted⟩ := Option.bind_eq_some_iff.mp accepted
  obtain ⟨reaches, same⟩ := Option.ite_none_right_eq_some.mp accepted
  cases same
  rw [foldl_foldLevel] at reaches
  obtain ⟨isHash, kind⟩ := terminalNode_eq_some node
  exact ⟨Nat.le_of_not_gt within, isHash ▸ reaches, kind⟩

/-- The part of the map that an accepted proof leads to is what its terminal says. -/
theorem slice_of_verify {d : Digest} {m : RadixMap V keyBytes} {key : ByteVector keyBytes}
    {proof : RadixProof V keyBytes} {verdict : RadixVerdict}
    (resistant : CollisionResistant d (mapNodes d m ++ proofNodes d key proof))
    (accepted : verify d (hashTreeRoot d m) key proof = some verdict) :
    RadixTree.slice bitAt key proof.termDepth.toNat (entryRoots d m) =
      terminalEntries d key proof.terminal := by
  obtain ⟨within, reaches, -⟩ := verify_eq_some accepted
  rw [hashTreeRoot_eq_root] at reaches
  have top := (RadixTree.top_slice_of_climb within _ resistant.free reaches).1
  have shared := (shared_entryRoots d m).slice key proof.termDepth.toNat
  have total : proof.termDepth.toNat + (keyBytes * 8 - proof.termDepth.toNat) = keyBytes * 8 := by
    omega
  match terminal : proof.terminal with
  | .leaf value =>
    rw [terminal] at top
    exact RadixTree.top_eq_leaf separates_bitAt total shared top
  | .empty =>
    rw [terminal] at top
    exact RadixTree.top_eq_none top
  | .divergingLeaf otherKey otherValueRoot =>
    rw [terminal] at top
    exact RadixTree.top_eq_leaf separates_bitAt total shared top

/-- An accepted proof tells the truth about the map: a present key holds a value with the root of
the value in the proof, and an absent key holds none. -/
theorem verify_sound {d : Digest} {m : RadixMap V keyBytes} {key : ByteVector keyBytes}
    {proof : RadixProof V keyBytes}
    (resistant : CollisionResistant d (mapNodes d m ++ proofNodes d key proof)) :
    (verify d (hashTreeRoot d m) key proof = some .present →
      ∃ value, proof.terminal = .leaf value ∧ Holds d m key (hashTreeRoot d value)) ∧
    (verify d (hashTreeRoot d m) key proof = some .absent → get m key = none) := by
  constructor
  · intro accepted
    have slice := slice_of_verify resistant accepted
    obtain ⟨-, -, kind⟩ := verify_eq_some accepted
    match terminal : proof.terminal with
    | .leaf value =>
      have member : (key, hashTreeRoot d value) ∈
          RadixTree.slice bitAt key proof.termDepth.toNat (entryRoots d m) := by
        rw [slice, terminal]
        exact List.mem_singleton_self _
      exact ⟨value, rfl, mem_entryRoots.mp (RadixTree.mem_slice.mp member).1⟩
    | .empty => rw [terminal] at kind; exact nomatch kind
    | .divergingLeaf .. => rw [terminal] at kind; exact nomatch kind.1
  · intro accepted
    have slice := slice_of_verify resistant accepted
    obtain ⟨-, -, kind⟩ := verify_eq_some accepted
    -- A value at the key would be in the part that its path leads to.
    cases found : get m key with
    | none => rfl
    | some value =>
      have member : (key, hashTreeRoot d value) ∈
          RadixTree.slice bitAt key proof.termDepth.toNat (entryRoots d m) :=
        RadixTree.mem_slice.mpr ⟨mem_entryRoots.mpr ⟨value, found, rfl⟩, fun _ _ => rfl⟩
      rw [slice] at member
      match terminal : proof.terminal with
      | .leaf value => rw [terminal] at kind; exact nomatch kind
      | .empty => rw [terminal] at member; exact absurd member List.not_mem_nil
      | .divergingLeaf otherKey otherValueRoot =>
        rw [terminal] at member kind
        exact absurd (congrArg Prod.fst (List.mem_singleton.mp member)).symm kind.2

/-- A digest that keeps what it can of its input; enough for small maps. -/
def keepDigest : Digest := fun bytes =>
  ⟨((bytes.headD 0 + 1) :: (bytes.tail ++ List.replicate 32 0)).take 32, by simp⟩

/-- There are no values to hash, only hashes. -/
instance : HashTreeRoot Empty := ⟨fun _ value => nomatch value⟩

/-- Two keys that differ in their first bit. -/
def twoKeys : List (Op Empty 1) :=
  [.insert ⟨[0x00], rfl⟩ (.missing empty), .insert ⟨[0x80], rfl⟩ (.missing empty)]

/-- The proof that the first key is there, next to the leaf of the second one. -/
def firstKeyProof : RadixProof Empty 1 where
  termDepth := 1
  siblings := [(0, leafHash keepDigest (⟨[0x80], rfl⟩ : ByteVector 1) empty)]
  terminal := .leaf (.missing empty)

theorem verify_sound_twoKeys :
    CollisionResistant keepDigest
      (mapNodes keepDigest (run twoKeys) ++ proofNodes keepDigest ⟨[0x00], rfl⟩ firstKeyProof) ∧
    verify keepDigest (hashTreeRoot keepDigest (run twoKeys)) ⟨[0x00], rfl⟩ firstKeyProof =
      some .present ∧
    ∃ value, firstKeyProof.terminal = .leaf value ∧
      Holds keepDigest (run twoKeys) ⟨[0x00], rfl⟩ (hashTreeRoot keepDigest value) :=
  have resistant := ⟨by decide +kernel, by decide +kernel⟩
  have accepted := by decide +kernel
  ⟨resistant, accepted, (verify_sound resistant).1 accepted⟩

/-! ## Binding -/

/-- The roots of two maps are equal exactly if the maps hold the same entries up to the roots of
their values, however they came about. -/
theorem hashTreeRoot_run_eq_iff {d : Digest} {ops ops' : List (Op V keyBytes)}
    (resistant : CollisionResistant d (mapNodes d (run ops) ++ mapNodes d (run ops'))) :
    hashTreeRoot d (run ops) = hashTreeRoot d (run ops') ↔
      ∀ key root, Holds d (run ops) key root ↔ Holds d (run ops') key root := by
  rw [hashTreeRoot_eq_root, hashTreeRoot_eq_root]
  constructor
  · intro same key root
    rw [← mem_entryRoots, ← mem_entryRoots]
    exact RadixTree.mem_iff_of_root_eq separates_bitAt (Nat.zero_add _) (shared_entryRoots d _)
      (shared_entryRoots d _) resistant.free same (key, root)
  · intro same
    rw [entryRoots_eq same]

/-- The same two keys, inserted the other way round and next to one that is removed again. -/
def twoKeysAgain : List (Op Empty 1) :=
  [.insert ⟨[0x80], rfl⟩ (.missing empty), .insert ⟨[0x40], rfl⟩ (.missing empty),
    .insert ⟨[0x00], rfl⟩ (.missing empty), .remove ⟨[0x40], rfl⟩]

theorem hashTreeRoot_run_eq_iff_twoKeys :
    CollisionResistant keepDigest
      (mapNodes keepDigest (run twoKeys) ++ mapNodes keepDigest (run twoKeysAgain)) ∧
    (hashTreeRoot keepDigest (run twoKeys) = hashTreeRoot keepDigest (run twoKeysAgain) ↔
      ∀ key root, Holds keepDigest (run twoKeys) key root ↔
        Holds keepDigest (run twoKeysAgain) key root) :=
  have resistant := ⟨by decide +kernel, by decide +kernel⟩
  ⟨resistant, hashTreeRoot_run_eq_iff resistant⟩

end Jar.Ssz.Radix
