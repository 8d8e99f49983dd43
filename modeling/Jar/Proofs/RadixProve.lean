import Jar.Proofs.Radix

/-! Every proof that a radix map produces verifies against its root, with the right verdict. -/

namespace Jar.Ssz.Radix

open scoped Word

/-! ## Shared bits -/

theorem bit_clz (z : Byte) (nonzero : z ≠ 0) : z >>> (7 - z.clz.toNat) &&& 1 = 1 ∧ z.clz.toNat < 8 := by
  revert z
  decide

theorem xor_ne_one {a b : Byte} (equal : a &&& 1 = b &&& 1) : (a ^^^ b) &&& 1 ≠ 1 := by
  intro set
  have low : a.getLsbD 0 = b.getLsbD 0 := by
    simpa using congrArg (fun v : Byte => v.getLsbD 0) equal
  have differ : (a.getLsbD 0 ^^ b.getLsbD 0) = true := by
    simpa using congrArg (fun v : Byte => v.getLsbD 0) set
  rw [low, Bool.xor_self] at differ
  cases differ

/-- Keys that agree on their first bits share as many. -/
theorem le_sharedPrefixBits : ∀ {xs ys : List Byte} {depth : Nat}, xs.length = ys.length →
    depth ≤ xs.length * 8 → (∀ i < depth, bit xs i = bit ys i) → depth ≤ sharedPrefixBits xs ys
  | [], _, depth, _, within, _ => by
    rw [List.length_nil, Nat.zero_mul] at within
    exact within.trans (Nat.zero_le _)
  | x :: xs, y :: ys, depth, same, within, agree => by
    rw [sharedPrefixBits]
    split
    · -- The first bytes are equal, so the rest counts on.
      rcases Nat.lt_or_ge depth 8 with first | later
      · omega
      · obtain ⟨depth, rfl⟩ := Nat.exists_eq_add_of_le' later
        have rest : depth ≤ sharedPrefixBits xs ys := by
          refine le_sharedPrefixBits (Nat.succ.inj same) ?_ fun i below => ?_
          · simp only [List.length_cons] at within
            omega
          · rw [← bit_cons_add x xs, ← bit_cons_add y ys]
            exact agree (i + 8) (by omega)
        omega
    next differ =>
      -- The first bit in which they differ is not below the depth.
      obtain ⟨set, small⟩ := bit_clz _ differ
      by_contra beyond
      have equal := agree _ (Nat.lt_of_not_le beyond)
      rw [bit_cons_of_lt _ _ small, bit_cons_of_lt _ _ small] at equal
      rw [BitVec.ushiftRight_xor_distrib] at set
      exact xor_ne_one equal set

/-! ## The walk -/

section

variable {keyBytes : Nat} {V : Type} [HashTreeRoot V]

/-- What a walk from a depth on has found: siblings in order between the depth and the terminal, a
terminal that leads up to the node, and the value of the key if there is one. -/
structure Walked (d : Digest) (q : ByteVector keyBytes)
    (s : List (ByteVector keyBytes × MissingOr V)) (node : ByteVector 32) (depth : Nat)
    (result : RadixTerminal V keyBytes × Nat × List (BitVec 32 × ByteVector 32)) : Prop where
  /-- The terminal is not above the start. -/
  above : depth ≤ result.2.1
  /-- The terminal is not below the last bit. -/
  within : result.2.1 ≤ keyBytes * 8
  /-- No sibling is above the start. -/
  lowest : ∀ sib ∈ result.2.2, depth ≤ sib.1.toNat
  /-- The siblings pass the check of their levels. -/
  ordered : ∀ prev : Option (BitVec 32), (∀ p ∈ prev, p.toNat < depth) →
    siblingLevels result.2.1 prev result.2.2 = true
  /-- Folding the levels leads from the terminal to the node. -/
  reaches : ∃ cur verdict, terminalNode d q result.2.1 result.1 = some (cur, verdict) ∧
    (List.range' depth (result.2.1 - depth)).reverse.foldl (foldLevel d q result.2.2) cur = node
  /-- A value at the key is what the terminal holds. -/
  present : ∀ value, (q, value) ∈ s → result.1 = .leaf value
  /-- The terminal holds only a value at the key. -/
  absent : ∀ value, result.1 = .leaf value → (q, value) ∈ s

variable {d : Digest} {q : ByteVector keyBytes}

theorem walked_nil {depth : Nat} (within : depth ≤ keyBytes * 8) :
    Walked d q ([] : List (ByteVector keyBytes × MissingOr V)) empty depth (.empty, depth, []) where
  above := Nat.le_refl depth
  within := within
  lowest := fun _ none => by cases none
  ordered := fun _ _ => rfl
  reaches := ⟨empty, .absent, rfl, by rw [Nat.sub_self]; rfl⟩
  present := fun _ none => by cases none
  absent := fun _ same => nomatch same

theorem walked_entry {depth : Nat} (within : depth ≤ keyBytes * 8)
    {e : ByteVector keyBytes × MissingOr V} (agree : ∀ i < depth, bit e.1.1 i = bit q.1 i) :
    Walked d q [e] (leafHash d e.1 (hashTreeRoot d e.2)) depth (proveEntry d q e, depth, []) := by
  have basics (terminal : RadixTerminal V keyBytes) (cur : ByteVector 32) (verdict : RadixVerdict)
      (node : terminalNode d q depth terminal = some (cur, verdict))
      (is : cur = leafHash d e.1 (hashTreeRoot d e.2))
      (present : ∀ value, (q, value) ∈ [e] → terminal = .leaf value)
      (absent : ∀ value, terminal = .leaf value → (q, value) ∈ [e]) :
      Walked d q [e] (leafHash d e.1 (hashTreeRoot d e.2)) depth (terminal, depth, []) :=
    { above := Nat.le_refl depth
      within
      lowest := fun _ none => by cases none
      ordered := fun _ _ => rfl
      reaches := ⟨cur, verdict, node, by rw [Nat.sub_self]; exact is⟩
      present
      absent }
  obtain ⟨key, value⟩ := e
  unfold proveEntry
  split
  next same =>
    obtain rfl : key = q := Subtype.ext same
    refine basics _ _ _ rfl rfl (fun other member => ?_) (fun other leaf => ?_)
    · cases List.mem_singleton.mp member
      rfl
    · cases leaf
      exact List.mem_singleton.mpr rfl
  next different =>
    have shares : ¬ sharedPrefixBits key.1 q.1 < depth :=
      Nat.not_lt.mpr (le_sharedPrefixBits (by rw [key.2, q.2]) (by rw [key.2]; exact within) agree)
    refine basics _ _ .absent ?_ rfl (fun other member => ?_) (fun other leaf => nomatch leaf)
    · rw [terminalNode, if_neg different, if_neg shares]
    · cases List.mem_singleton.mp member
      exact absurd rfl different

theorem siblingAt_cons (level : BitVec 32) (h : ByteVector 32)
    (rest : List (BitVec 32 × ByteVector 32)) (i : Nat) :
    siblingAt ((level, h) :: rest) i = if level.toNat = i then h else siblingAt rest i := by
  unfold siblingAt
  rw [List.find?_cons]
  by_cases same : level.toNat = i <;> simp [same]

theorem siblingAt_of_lt {siblings : List (BitVec 32 × ByteVector 32)} {i : Nat}
    (above : ∀ sib ∈ siblings, i < sib.1.toNat) : siblingAt siblings i = empty := by
  have none : (siblings.find? fun s => s.1.toNat = i) = none := by
    rw [List.find?_eq_none]
    intro sib member
    have := above sib member
    simp only [decide_eq_true_eq]
    omega
  rw [siblingAt, none]
  rfl

/-- Folding levels only reads the siblings of these levels. -/
theorem foldl_foldLevel_congr {siblings siblings' : List (BitVec 32 × ByteVector 32)}
    {levels : List Nat} (same : ∀ i ∈ levels, siblingAt siblings i = siblingAt siblings' i)
    (cur : ByteVector 32) :
    levels.foldl (foldLevel d q siblings) cur = levels.foldl (foldLevel d q siblings') cur := by
  refine List.foldl_ext _ _ cur fun current level member => ?_
  rw [foldLevel, foldLevel, same level member]

/-- A walk goes on into the side of its key, next to the other one. -/
theorem Walked.up {s chosen : List (ByteVector keyBytes × MissingOr V)} {depth : Nat}
    {node : ByteVector 32}
    {result : RadixTerminal V keyBytes × Nat × List (BitVec 32 × ByteVector 32)}
    (walked : Walked d q chosen node (depth + 1) result) (sibRoot : ByteVector 32)
    (small : depth < 2 ^ 32)
    (part : ∀ value, (q, value) ∈ s ↔ (q, value) ∈ chosen) :
    Walked d q s
      (if bit q.1 depth = 0 then branchHash d node sibRoot else branchHash d sibRoot node) depth
      (result.1, result.2.1,
        if sibRoot ≠ empty then (BitVec.ofNat 32 depth, sibRoot) :: result.2.2 else result.2.2) := by
  have level : (BitVec.ofNat 32 depth).toNat = depth := by
    rw [BitVec.toNat_ofNat, Nat.mod_eq_of_lt small]
  have above := walked.above
  -- Omitting an empty sibling does not change what is read at its level.
  have sibling (i : Nat) (at_least : depth ≤ i) :
      siblingAt (if sibRoot ≠ empty then (BitVec.ofNat 32 depth, sibRoot) :: result.2.2
        else result.2.2) i = if i = depth then sibRoot else siblingAt result.2.2 i := by
    have later : siblingAt result.2.2 depth = empty :=
      siblingAt_of_lt fun sib member => walked.lowest sib member
    split
    · rw [siblingAt_cons, level]
      exact if_congr eq_comm rfl rfl
    next none =>
      split
      next same => rw [same, later, not_not.mp none]
      · rfl
  obtain ⟨cur, verdict, terminal, folds⟩ := walked.reaches
  refine ⟨Nat.le_of_succ_le above, walked.within, fun sib member => ?_, fun prev smaller => ?_,
    ⟨cur, verdict, terminal, ?_⟩, fun value member => walked.present value ((part value).mp member),
    fun value leaf => (part value).mpr (walked.absent value leaf)⟩
  · dsimp only at member
    split at member
    · rcases List.mem_cons.mp member with rfl | later
      · exact Nat.le_of_eq level.symm
      · have := walked.lowest sib later
        omega
    · have := walked.lowest sib member
      omega
  · dsimp only
    split
    · rw [siblingLevels, level, if_neg (by omega)]
      have fresh : prev.any (BitVec.ofNat 32 depth ≤ ·) = false := by
        cases prev with
        | none => rfl
        | some p =>
          have less := smaller p rfl
          refine decide_eq_false fun le => ?_
          rw [BitVec.le_def, level] at le
          omega
      rw [fresh]
      refine walked.ordered _ fun p is => ?_
      cases is
      omega
    · exact walked.ordered prev fun p is => Nat.lt_succ_of_lt (smaller p is)
  · dsimp only
    obtain ⟨more, count⟩ : ∃ more, result.2.1 - depth = more + 1 := ⟨result.2.1 - depth - 1, by omega⟩
    have rest : result.2.1 - (depth + 1) = more := by omega
    rw [rest] at folds
    have deeper := foldl_foldLevel_congr (d := d) (q := q)
      (fun i (member : i ∈ (List.range' (depth + 1) more).reverse) =>
        (sibling i (by have := (List.mem_range'_1.mp (List.mem_reverse.mp member)).1; omega)).trans
          (if_neg (by have := (List.mem_range'_1.mp (List.mem_reverse.mp member)).1; omega))) cur
    rw [count, List.range'_succ, List.reverse_cons, List.foldl_append, List.foldl_cons, List.foldl_nil,
      deeper, folds, foldLevel, sibling depth (Nat.le_refl depth), if_pos rfl]

omit [HashTreeRoot V] in
/-- Two entries in order do not agree on all their bits. -/
theorem lt_bits_of_two {e e' : ByteVector keyBytes × MissingOr V} (less : e.1 < e'.1) {depth : Nat}
    (agree : ∀ i < depth, bit e.1.1 i = bit e'.1.1 i) : depth < keyBytes * 8 := by
  by_contra all
  refine absurd (Subtype.ext ?_) (ne_of_lt less)
  refine eq_of_bits (by rw [e.1.2, e'.1.2]) fun i below => agree i ?_
  rw [e.1.2] at below
  omega

/-- The walk through several entries goes on into the side of its key. -/
theorem proveWalk_of_two (levels : Nat) (e e' : ByteVector keyBytes × MissingOr V)
    (rest : List (ByteVector keyBytes × MissingOr V)) (depth : Nat)
    {chosen siblingSlice : List (ByteVector keyBytes × MissingOr V)}
    (sides : (if bit q.1 depth = 0 then
        ((e :: e' :: rest).take (partitionPoint (e :: e' :: rest) fun e => bit e.1.1 depth = 0),
          (e :: e' :: rest).drop (partitionPoint (e :: e' :: rest) fun e => bit e.1.1 depth = 0))
      else
        ((e :: e' :: rest).drop (partitionPoint (e :: e' :: rest) fun e => bit e.1.1 depth = 0),
          (e :: e' :: rest).take (partitionPoint (e :: e' :: rest) fun e => bit e.1.1 depth = 0))) =
      (chosen, siblingSlice)) :
    proveWalk d q (levels + 1) (e :: e' :: rest) depth =
      ((proveWalk d q levels chosen (depth + 1)).1, (proveWalk d q levels chosen (depth + 1)).2.1,
        if radixNode d levels siblingSlice (depth + 1) ≠ empty then
          (BitVec.ofNat 32 depth, radixNode d levels siblingSlice (depth + 1)) ::
            (proveWalk d q levels chosen (depth + 1)).2.2
        else (proveWalk d q levels chosen (depth + 1)).2.2) := by
  rw [proveWalk, sides]
  · exact fun none => nomatch none
  · exact fun _ one => nomatch one

omit [HashTreeRoot V] in
theorem agree_filter {s : List (ByteVector keyBytes × MissingOr V)} {depth : Nat}
    (agree : ∀ e ∈ s, ∀ i < depth, bit e.1.1 i = bit q.1 i)
    {p : ByteVector keyBytes × MissingOr V → Bool}
    (sided : ∀ e, p e = true → bit e.1.1 depth = bit q.1 depth) :
    ∀ e ∈ s.filter p, ∀ i < depth + 1, bit e.1.1 i = bit q.1 i := by
  intro e member i below
  obtain ⟨is, holds⟩ := List.mem_filter.mp member
  rcases Nat.lt_succ_iff_lt_or_eq.mp below with earlier | rfl
  · exact agree e is i earlier
  · exact sided e holds

theorem walked_proveWalk {levels depth : Nat} (total : depth + levels = keyBytes * 8)
    {s : List (ByteVector keyBytes × MissingOr V)} (sorted : s.Pairwise fun a b => a.1 < b.1)
    (agree : ∀ e ∈ s, ∀ i < depth, bit e.1.1 i = bit q.1 i)
    (small : (proveWalk d q levels s depth).2.1 < 2 ^ 32) :
    Walked d q s (radixNode d levels s depth) depth (proveWalk d q levels s depth) := by
  induction levels generalizing s depth with
  | zero =>
    match s with
    | [] => exact walked_nil (by omega)
    | [e] => exact walked_entry (by omega) (agree e List.mem_cons_self)
    | e :: e' :: rest =>
      have deep := lt_bits_of_two ((List.pairwise_cons.mp sorted).1 e' List.mem_cons_self)
        fun i below => (agree e List.mem_cons_self i below).trans
          (agree e' (List.mem_cons_of_mem _ List.mem_cons_self) i below).symm
      omega
  | succ levels ih =>
    match s with
    | [] => exact walked_nil (by omega)
    | [e] => exact walked_entry (by omega) (agree e List.mem_cons_self)
    | e :: e' :: rest =>
      obtain ⟨low, high⟩ := split_partitionPoint (ordered_bits (by omega) sorted
        fun a ha b hb i below => (agree b hb i below).trans (agree a ha i below).symm)
      have step := @proveWalk_of_two _ _ _ d q levels e e' rest depth
      rw [radixNode_of_two, low, high]
      rw [low, high] at step
      by_cases clear : bit q.1 depth = 0
      · rw [step (if_pos clear)] at small ⊢
        have inside := agree_filter agree (p := fun e => decide (bit e.1.1 depth = 0))
          fun e holds => (of_decide_eq_true holds).trans clear.symm
        have chosen := ih (by omega) (sorted.filter _) inside small
        have above : depth < 2 ^ 32 := chosen.above.trans small.le
        have part (value : MissingOr V) : (q, value) ∈ e :: e' :: rest ↔
            (q, value) ∈ (e :: e' :: rest).filter fun e => decide (bit e.1.1 depth = 0) :=
          ⟨fun member => List.mem_filter.mpr ⟨member, decide_eq_true clear⟩,
            fun member => (List.mem_filter.mp member).1⟩
        have up := chosen.up (radixNode d levels ((e :: e' :: rest).filter
          fun e => !decide (bit e.1.1 depth = 0)) (depth + 1)) above part
        rwa [if_pos clear] at up
      · have set : bit q.1 depth = 1 := (bit_eq_zero_or_one q.1 depth).resolve_left clear
        rw [step (if_neg clear)] at small ⊢
        have inside := agree_filter agree (p := fun e => !decide (bit e.1.1 depth = 0))
          fun e holds => by
            have other : ¬ bit e.1.1 depth = 0 := by simpa using holds
            exact ((bit_eq_zero_or_one e.1.1 depth).resolve_left other).trans set.symm
        have chosen := ih (by omega) (sorted.filter _) inside small
        have above : depth < 2 ^ 32 := chosen.above.trans small.le
        have part (value : MissingOr V) : (q, value) ∈ e :: e' :: rest ↔
            (q, value) ∈ (e :: e' :: rest).filter fun e => !decide (bit e.1.1 depth = 0) :=
          ⟨fun member => List.mem_filter.mpr ⟨member, by simpa using clear⟩,
            fun member => (List.mem_filter.mp member).1⟩
        have up := chosen.up (radixNode d levels ((e :: e' :: rest).filter
          fun e => decide (bit e.1.1 depth = 0)) (depth + 1)) above part
        rwa [if_neg clear] at up

/-! ## Completeness -/

/-- The proof for a key verifies, with the verdict and the value that the map has for it. -/
def Complete (d : Digest) (m : RadixMap V keyBytes) (key : ByteVector keyBytes) : Prop :=
  match get m key with
  | some value =>
    verify d (hashTreeRoot d m) key (prove d m key) = some .present ∧
      (prove d m key).terminal = .leaf value
  | none => verify d (hashTreeRoot d m) key (prove d m key) = some .absent

/-- The depth at which the walk to a key ends. -/
def walkDepth (d : Digest) (m : RadixMap V keyBytes) (key : ByteVector keyBytes) : Nat :=
  (proveWalk d key (keyBytes * 8) m.entries 0).2.1

theorem proveWalk_depth_le (levels : Nat)
    (s : List (ByteVector keyBytes × MissingOr V)) (depth : Nat) :
    (proveWalk d q levels s depth).2.1 ≤ depth + levels := by
  induction levels generalizing s depth with
  | zero =>
    match s with
    | [] | [_] | _ :: _ :: _ => exact Nat.le_refl _
  | succ levels ih =>
    match s with
    | [] | [_] => exact Nat.le_add_right ..
    | e :: e' :: rest =>
      rw [proveWalk_of_two levels e e' rest depth Prod.mk.eta.symm]
      exact (ih _ (depth + 1)).trans (by omega)

/-- No walk goes beyond the last bit of the keys. -/
theorem walkDepth_le (d : Digest) (m : RadixMap V keyBytes) (key : ByteVector keyBytes) :
    walkDepth d m key ≤ keyBytes * 8 :=
  (proveWalk_depth_le ..).trans (Nat.zero_add _).le

/-- A proof is complete if the depth of its walk fits into 32 bits. -/
theorem prove_complete (d : Digest) (m : RadixMap V keyBytes) (key : ByteVector keyBytes)
    (small : walkDepth d m key < 2 ^ 32) : Complete d m key := by
  have walked := walked_proveWalk (Nat.zero_add _) m.sorted
    (fun _ _ _ none => absurd none (Nat.not_lt_zero _)) small
  have depth : (BitVec.ofNat 32 (proveWalk d key (keyBytes * 8) m.entries 0).2.1).toNat =
      (proveWalk d key (keyBytes * 8) m.entries 0).2.1 :=
    (BitVec.toNat_ofNat ..).trans (Nat.mod_eq_of_lt small)
  obtain ⟨cur, verdict, terminal, folds⟩ := walked.reaches
  have verified : verify d (hashTreeRoot d m) key (prove d m key) = some verdict := by
    rw [Nat.sub_zero, ← List.range_eq_range'] at folds
    have root : radixNode d (keyBytes * 8) m.entries 0 = hashTreeRoot d m := rfl
    simp only [verify, prove, depth, gt_iff_lt, Nat.not_lt.mpr walked.within, if_false,
      walked.ordered none (fun _ none => by cases none), Bool.not_true, Bool.false_eq_true, terminal,
      Option.bind_eq_bind, Option.bind_some, folds, root, if_true]
  have shows := (terminalNode_eq_some terminal).2
  unfold Complete
  cases found : get m key with
  | some value =>
    have leaf := walked.present value (SortedMap.lookup_eq_some.mp found)
    rw [leaf] at shows
    rw [verified, show verdict = .present from shows]
    exact ⟨rfl, leaf⟩
  | none =>
    dsimp only
    rw [verified]
    cases ended : (proveWalk d key (keyBytes * 8) m.entries 0).1 with
    | leaf value =>
      have held := SortedMap.lookup_eq_some.mpr (walked.absent value ended)
      exact absurd (found.symm.trans held) (by simp)
    | empty =>
      rw [ended] at shows
      exact congrArg some shows
    | divergingLeaf other root =>
      rw [ended] at shows
      exact congrArg some shows.1

end

/-- The proofs for a key that is there and for one that is not. -/
theorem prove_complete_twoKeys :
    Complete keepDigest (run twoKeys) ⟨[0x00], rfl⟩ ∧
      Complete keepDigest (run twoKeys) ⟨[0x01], rfl⟩ :=
  ⟨prove_complete _ _ _ ((walkDepth_le ..).trans_lt (by decide)),
    prove_complete _ _ _ ((walkDepth_le ..).trans_lt (by decide))⟩

/-! ## Depths beyond 32 bits -/

def lowKey (n : Nat) : ByteVector (n + 1) := ⟨List.replicate (n + 1) 0, List.length_replicate⟩

/-- The key of zeros but for its last bit. -/
def highKey (n : Nat) : ByteVector (n + 1) := ⟨List.replicate n 0 ++ [1], by simp⟩

theorem bit_zero_byte (k : Nat) : (0 : Byte) >>> k &&& 1 = 0 := by simp

theorem bit_lowKey (n i : Nat) : bit (lowKey n).1 i = 0 := by
  have byte : (List.replicate (n + 1) (0 : Byte)).getD (i >>> 3) 0 = 0 := by
    rw [List.getD_eq_getElem?_getD, List.getElem?_replicate]
    split <;> rfl
  rw [bit, lowKey, byte, bit_zero_byte]

theorem bit_highKey_of_lt {n i : Nat} (before : i < 8 * n + 7) : bit (highKey n).1 i = 0 := by
  have shift : i >>> 3 = i / 8 := by rw [Nat.shiftRight_eq_div_pow]
  have offset : i &&& 7 = i % 8 := by
    rw [show (7 : Nat) = 2 ^ 3 - 1 from rfl, Nat.and_two_pow_sub_one_eq_mod]
  rw [bit, highKey, shift, offset, List.getD_eq_getElem?_getD]
  rcases Nat.lt_or_ge (i / 8) n with zero | last
  · rw [List.getElem?_append_left (by simpa using zero), List.getElem?_replicate, if_pos zero,
      Option.getD_some, bit_zero_byte]
  · have is : i / 8 - n = 0 := by omega
    rw [List.getElem?_append_right (by simpa using last), List.length_replicate, is]
    have small : i % 8 < 7 := by omega
    generalize i % 8 = o at small
    revert o
    decide

theorem bit_highKey_last (n : Nat) : bit (highKey n).1 (8 * n + 7) = 1 := by
  have shift : (8 * n + 7) >>> 3 = n := by
    rw [Nat.shiftRight_eq_div_pow]
    omega
  have offset : (8 * n + 7) &&& 7 = 7 := by
    rw [show (7 : Nat) = 2 ^ 3 - 1 from rfl, Nat.and_two_pow_sub_one_eq_mod]
    omega
  rw [bit, highKey, shift, offset, List.getD_eq_getElem?_getD,
    List.getElem?_append_right (by simp), List.length_replicate, Nat.sub_self]
  rfl

def twoLongKeys (n : Nat) : RadixMap Empty (n + 1) where
  entries := [(lowKey n, .missing empty), (highKey n, .missing empty)]
  sorted := by
    refine List.pairwise_pair.mpr (lt_of_bits ?_ ?_ (fun i before => ?_)
      (bit_lowKey n (8 * n + 7)) (by rw [bit_highKey_last]; decide))
    · rw [(lowKey n).2, (highKey n).2]
    · rw [(lowKey n).2]
      omega
    · rw [bit_lowKey, bit_highKey_of_lt before]

/-- The digest whose output is never the zero chunk. -/
def onesDigest : Digest := fun _ => ⟨List.replicate 32 1, List.length_replicate⟩

/-- The walk to the key of zeros passes no sibling before the last bit. -/
theorem proveWalk_twoLongKeys (n more : Nat) {depth : Nat} (total : depth + more = 8 * n + 7) :
    proveWalk onesDigest (lowKey n) (more + 1) (twoLongKeys n).entries depth =
      (.leaf (.missing empty), 8 * n + 8,
        [(BitVec.ofNat 32 (8 * n + 7), leafHash onesDigest (highKey n) empty)]) := by
  induction more generalizing depth with
  | zero =>
    obtain rfl : depth = 8 * n + 7 := by omega
    have clear := bit_lowKey n (8 * n + 7)
    have set := bit_highKey_last n
    have nonempty : leafHash onesDigest (highKey n) empty ≠ empty :=
      show onesDigest _ ≠ empty by unfold onesDigest; decide
    have mid : partitionPoint [(lowKey n, (.missing empty : MissingOr Empty)),
        (highKey n, .missing empty)] (fun e => bit e.1.1 (8 * n + 7) = 0) = 1 := by
      simp [partitionPoint, clear, set]
    have kept : (if leafHash onesDigest (highKey n) empty ≠ empty then
        [(BitVec.ofNat 32 (8 * n + 7), leafHash onesDigest (highKey n) empty)] else []) =
        [(BitVec.ofNat 32 (8 * n + 7), leafHash onesDigest (highKey n) empty)] := if_pos nonempty
    -- The last bit parts the two keys.
    have parted := @proveWalk_of_two _ _ _ onesDigest (lowKey n) 0 (lowKey n, .missing empty)
      (highKey n, (.missing empty : MissingOr Empty)) [] (8 * n + 7) [(lowKey n, .missing empty)]
      [(highKey n, .missing empty)] (by rw [if_pos clear, mid]; rfl)
    refine parted.trans ?_
    rw [proveWalk, radixNode, proveEntry, if_pos rfl]
    exact congrArg (fun siblings => (RadixTerminal.leaf (.missing empty), 8 * n + 8, siblings)) kept
  | succ more ih =>
    have clear := bit_lowKey n depth
    have clear' := @bit_highKey_of_lt n depth (by omega)
    have mid : partitionPoint [(lowKey n, (.missing empty : MissingOr Empty)),
        (highKey n, .missing empty)] (fun e => bit e.1.1 depth = 0) = 2 := by
      simp [partitionPoint, clear, clear']
    -- Both keys go on to the same side, next to an empty one.
    have together := @proveWalk_of_two _ _ _ onesDigest (lowKey n) (more + 1) (lowKey n, .missing empty)
      (highKey n, (.missing empty : MissingOr Empty)) [] depth (twoLongKeys n).entries []
      (by rw [if_pos clear, mid]; rfl)
    refine together.trans ?_
    rw [ih (by omega), radixNode, if_neg (not_not.mpr rfl)]

/-- Where the depth of the terminal is zero in 32 bits, the proof does not verify. -/
theorem not_complete_twoLongKeys {n : Nat} (wraps : (8 * n + 8) % 2 ^ 32 = 0) :
    ¬ Complete onesDigest (twoLongKeys n) (lowKey n) := by
  have held : get (twoLongKeys n) (lowKey n) = some (.missing empty) :=
    SortedMap.lookup_eq_some.mpr List.mem_cons_self
  have levels : (n + 1) * 8 = 8 * n + 7 + 1 := by omega
  have proof : prove onesDigest (twoLongKeys n) (lowKey n) =
      ⟨0, [(BitVec.ofNat 32 (8 * n + 7), leafHash onesDigest (highKey n) empty)],
        .leaf (.missing empty)⟩ := by
    have zero : BitVec.ofNat 32 (8 * n + 8) = 0 := BitVec.eq_of_toNat_eq wraps
    simp only [prove, levels, proveWalk_twoLongKeys n (8 * n + 7) (Nat.zero_add _), zero]
  unfold Complete
  rw [held, proof]
  rintro ⟨verified, -⟩
  simp [verify, siblingLevels] at verified

/-- Keys of half a gigabyte that part at their last bit have a terminal at depth 2 to the 32. -/
theorem not_complete_longKeys :
    ¬ Complete onesDigest (twoLongKeys 536870911) (lowKey 536870911) :=
  not_complete_twoLongKeys (by decide)

end Jar.Ssz.Radix
