import Mathlib.Data.Nat.Init
import Mathlib.Data.List.Nodup
import Mathlib.Data.List.Basic

/-! Hashed binary radix trees: a set of entries is split by the bits of its keys, and a part with a
single entry is a leaf. A root, and a path that leads to it, reveal the entries of the tree unless
two of the nodes that are hashed collide. -/

namespace RadixTree

variable {K R H : Type}

/-- What is hashed: an entry, or the hashes of two parts. -/
inductive Node (K R H : Type) where
  | leaf (key : K) (root : R)
  | branch (left right : H)

section Hashing

variable (bit : K → Nat → Bool) (digest : Node K R H → H) (empty : H)

def side (depth : Nat) (b : Bool) (entries : List (K × R)) : List (K × R) :=
  entries.filter fun e => bit e.1 depth = b

/-- The hash of the entries, with the number of bits that are left to split by. -/
def root : Nat → Nat → List (K × R) → H
  | _, _, [] => empty
  | _, _, [e] => digest (.leaf e.1 e.2)
  | 0, _, e :: _ :: _ => digest (.leaf e.1 e.2)
  | left + 1, depth, e :: e' :: rest =>
    digest (.branch (root left (depth + 1) (side bit depth false (e :: e' :: rest)))
      (root left (depth + 1) (side bit depth true (e :: e' :: rest))))

def nodes : Nat → Nat → List (K × R) → List (Node K R H)
  | _, _, [] => []
  | _, _, [e] => [.leaf e.1 e.2]
  | 0, _, e :: _ :: _ => [.leaf e.1 e.2]
  | left + 1, depth, e :: e' :: rest =>
    .branch (root bit digest empty left (depth + 1) (side bit depth false (e :: e' :: rest)))
        (root bit digest empty left (depth + 1) (side bit depth true (e :: e' :: rest))) ::
      (nodes left (depth + 1) (side bit depth false (e :: e' :: rest)) ++
        nodes left (depth + 1) (side bit depth true (e :: e' :: rest)))

/-- The node next to a sibling, on the side of a key's bit. -/
def join (key : K) (level : Nat) (sibling current : H) : Node K R H :=
  if bit key level then .branch sibling current else .branch current sibling

/-- The hash that a path leads to, from a hash at some depth upward. -/
def climb (key : K) (sibling : Nat → H) : Nat → H → H
  | 0, current => current
  | level + 1, current =>
    climb key sibling level (digest (join bit key level (sibling level) current))

def climbNodes (key : K) (sibling : Nat → H) : Nat → H → List (Node K R H)
  | 0, _ => []
  | level + 1, current =>
    join bit key level (sibling level) current ::
      climbNodes key sibling level (digest (join bit key level (sibling level) current))

/-- No two of the nodes have the same hash, and none has the hash of no entries. -/
structure CollisionFree (hashed : List (Node K R H)) : Prop where
  injective : ∀ a ∈ hashed, ∀ b ∈ hashed, digest a = digest b → a = b
  nonempty : ∀ a ∈ hashed, digest a ≠ empty

/-- The node whose hash is the root, where there are entries. -/
def top : Nat → Nat → List (K × R) → Option (Node K R H)
  | _, _, [] => none
  | _, _, [e] => some (.leaf e.1 e.2)
  | 0, _, e :: _ :: _ => some (.leaf e.1 e.2)
  | left + 1, depth, e :: e' :: rest =>
    some (.branch (root bit digest empty left (depth + 1) (side bit depth false (e :: e' :: rest)))
      (root bit digest empty left (depth + 1) (side bit depth true (e :: e' :: rest))))

def hash (node : Option (Node K R H)) : H := node.elim empty digest

@[simp]
theorem hash_some (node : Node K R H) : hash digest empty (some node) = digest node := rfl

/-- A join is a branch with the current hash on the side of the key's bit. -/
theorem join_eq_branch (key : K) (level : Nat) (sibling current : H) :
    ∃ low high, (join bit key level sibling current : Node K R H) = .branch low high ∧
      current = bif bit key level then high else low := by
  cases on : bit key level
  · exact ⟨current, sibling, by rw [join, on]; rfl, rfl⟩
  · exact ⟨sibling, current, by rw [join, on]; rfl, rfl⟩

end Hashing

variable {bit : K → Nat → Bool} {digest : Node K R H → H} {empty : H}

/-! ## Collisions -/

theorem CollisionFree.mono {hashed hashed' : List (Node K R H)}
    (free : CollisionFree digest empty hashed) (part : hashed' ⊆ hashed) :
    CollisionFree digest empty hashed' :=
  ⟨fun a ha b hb => free.injective a (part ha) b (part hb), fun a ha => free.nonempty a (part ha)⟩

theorem CollisionFree.hash_inj {hashed : List (Node K R H)}
    (free : CollisionFree digest empty hashed) {a b : Option (Node K R H)}
    (left : a.toList ⊆ hashed) (right : b.toList ⊆ hashed)
    (same : hash digest empty a = hash digest empty b) : a = b := by
  match a, b with
  | none, none => rfl
  | none, some b => exact absurd same.symm (free.nonempty b (right (by simp)))
  | some a, none => exact absurd same (free.nonempty a (left (by simp)))
  | some a, some b => exact congrArg some (free.injective a (left (by simp)) b (right (by simp)) same)

theorem root_eq_hash (left depth : Nat) (entries : List (K × R)) :
    root bit digest empty left depth entries =
      hash digest empty (top bit digest empty left depth entries) := by
  match entries, left with
  | [], 0 | [], _ + 1 | [_], 0 | [_], _ + 1 | _ :: _ :: _, 0 | _ :: _ :: _, _ + 1 => rfl

theorem top_subset_nodes (left depth : Nat) (entries : List (K × R)) :
    (top bit digest empty left depth entries).toList ⊆
      nodes bit digest empty left depth entries := by
  match entries, left with
  | [], 0 | [], _ + 1 => exact List.nil_subset _
  | [_], 0 | [_], _ + 1 | _ :: _ :: _, 0 => exact List.Subset.refl _
  | _ :: _ :: _, _ + 1 => exact List.cons_subset_cons _ (List.nil_subset _)

/-! ## Parts -/

/-- The keys are distinct, and all agree on the bits before a depth. -/
structure Shared (bit : K → Nat → Bool) (depth : Nat) (entries : List (K × R)) : Prop where
  distinct : (entries.map (·.1)).Nodup
  agree : ∀ e ∈ entries, ∀ e' ∈ entries, ∀ i < depth, bit e.1 i = bit e'.1 i

theorem mem_side {depth : Nat} {b : Bool} {entries : List (K × R)} {e : K × R} :
    e ∈ side bit depth b entries ↔ e ∈ entries ∧ bit e.1 depth = b := by
  rw [side, List.mem_filter, decide_eq_true_iff]

theorem Shared.side {depth : Nat} {entries : List (K × R)} (shared : Shared bit depth entries)
    (b : Bool) : Shared bit (depth + 1) (side bit depth b entries) := by
  refine ⟨shared.distinct.sublist (List.filter_sublist.map _), fun e he e' he' i below => ?_⟩
  obtain ⟨member, this⟩ := mem_side.mp he
  obtain ⟨member', this'⟩ := mem_side.mp he'
  rcases Nat.lt_succ_iff_lt_or_eq.mp below with before | rfl
  · exact shared.agree e member e' member' i before
  · rw [this, this']

/-- The keys of `bits` bits are told apart by them. -/
def Separates (bit : K → Nat → Bool) (bits : Nat) : Prop :=
  ∀ k k' : K, (∀ i < bits, bit k i = bit k' i) → k = k'

/-- Two entries of one part have different keys, so some bit is left to split by. -/
theorem Shared.lt_of_two {bits depth : Nat} (separates : Separates bit bits)
    {e e' : K × R} {rest : List (K × R)} (shared : Shared bit depth (e :: e' :: rest)) :
    depth < bits := by
  by_contra full
  have same : e.1 = e'.1 := separates _ _ fun i below =>
    shared.agree e (by simp) e' (by simp) i (by omega)
  have distinct := shared.distinct
  rw [List.map_cons, List.map_cons, List.nodup_cons] at distinct
  exact distinct.1 (same ▸ List.mem_cons_self)

theorem top_eq_none {left depth : Nat} {entries : List (K × R)}
    (none : top bit digest empty left depth entries = none) : entries = [] := by
  match entries, left with
  | [], _ => rfl
  | [_], 0 | [_], _ + 1 | _ :: _ :: _, 0 | _ :: _ :: _, _ + 1 => exact nomatch none

theorem top_eq_leaf {bits left depth : Nat} (separates : Separates bit bits)
    (total : depth + left = bits) {entries : List (K × R)} (shared : Shared bit depth entries)
    {key : K} {value : R}
    (leaf : top bit digest empty left depth entries = some (.leaf key value)) :
    entries = [(key, value)] := by
  match entries, left with
  | [], 0 | [], _ + 1 => exact nomatch leaf
  | [e], 0 | [e], _ + 1 =>
    injection leaf with same
    injection same with sameKey sameValue
    rw [← sameKey, ← sameValue]
  | _ :: _ :: _, 0 =>
    have room := shared.lt_of_two separates
    omega
  | _ :: _ :: _, _ + 1 => exact nomatch leaf

/-- A branch joins the roots of the two sides, and hashes what they hash. -/
theorem top_eq_branch {left depth : Nat} {entries : List (K × R)} {low high : H}
    (branch : top bit digest empty left depth entries = some (.branch low high)) :
    ∃ left', left = left' + 1 ∧
      root bit digest empty left' (depth + 1) (side bit depth false entries) = low ∧
      root bit digest empty left' (depth + 1) (side bit depth true entries) = high ∧
      ∀ b, nodes bit digest empty left' (depth + 1) (side bit depth b entries) ⊆
        nodes bit digest empty left depth entries := by
  match entries, left with
  | [], 0 | [], _ + 1 | [_], 0 | [_], _ + 1 | _ :: _ :: _, 0 => exact nomatch branch
  | e :: e' :: rest, left + 1 =>
    injection branch with same
    injection same with sameLow sameHigh
    refine ⟨left, rfl, sameLow, sameHigh, fun b => ?_⟩
    cases b
    · exact List.Subset.trans (List.subset_append_left _ _) (List.subset_cons_self _ _)
    · exact List.Subset.trans (List.subset_append_right _ _) (List.subset_cons_self _ _)

/-! ## Binding -/

/-- Equal roots have equal entries, unless nodes of the two trees collide. -/
theorem mem_iff_of_root_eq {bits left depth : Nat} (separates : Separates bit bits)
    (total : depth + left = bits) {entries entries' : List (K × R)}
    (shared : Shared bit depth entries) (shared' : Shared bit depth entries')
    (free : CollisionFree digest empty (nodes bit digest empty left depth entries ++
      nodes bit digest empty left depth entries'))
    (same : root bit digest empty left depth entries =
      root bit digest empty left depth entries') (e : K × R) : e ∈ entries ↔ e ∈ entries' := by
  induction left using Nat.strongRecOn generalizing depth entries entries' with
  | ind left ih =>
    -- The top nodes are equal, so both parts are empty, one leaf, or branches of equal roots.
    have sameTop := free.hash_inj
      (List.Subset.trans (top_subset_nodes left depth entries) (List.subset_append_left _ _))
      (List.Subset.trans (top_subset_nodes left depth entries') (List.subset_append_right _ _))
      (by rw [← root_eq_hash, ← root_eq_hash, same])
    match first : top bit digest empty left depth entries with
    | none => rw [top_eq_none first, top_eq_none (sameTop.symm.trans first)]
    | some (.leaf key value) =>
      rw [top_eq_leaf separates total shared first,
        top_eq_leaf separates total shared' (sameTop.symm.trans first)]
    | some (.branch low high) =>
      obtain ⟨left', rfl, isLow, isHigh, part⟩ := top_eq_branch first
      obtain ⟨_, same', isLow', isHigh', part'⟩ := top_eq_branch (sameTop.symm.trans first)
      cases same'
      have sides : ∀ b, e ∈ side bit depth b entries ↔ e ∈ side bit depth b entries' := by
        intro b
        refine ih left' (Nat.lt_succ_self _) (by omega) (shared.side b) (shared'.side b)
          (free.mono (List.append_subset.mpr
            ⟨List.Subset.trans (part b) (List.subset_append_left _ _),
              List.Subset.trans (part' b) (List.subset_append_right _ _)⟩)) ?_
        cases b
        · rw [isLow, isLow']
        · rw [isHigh, isHigh']
      have split := sides (bit e.1 depth)
      rwa [mem_side, mem_side, and_iff_left rfl, and_iff_left rfl] at split

/-! ## Paths -/

/-- The entries that a path of a key leads to at a depth. -/
def slice (bit : K → Nat → Bool) (key : K) : Nat → List (K × R) → List (K × R)
  | 0, entries => entries
  | depth + 1, entries => side bit depth (bit key depth) (slice bit key depth entries)

theorem mem_slice {key : K} {depth : Nat} {entries : List (K × R)} {e : K × R} :
    e ∈ slice bit key depth entries ↔ e ∈ entries ∧ ∀ i < depth, bit e.1 i = bit key i := by
  induction depth with
  | zero => simp [slice]
  | succ depth ih =>
    rw [slice, mem_side, ih, and_assoc, Nat.forall_lt_succ_right]

theorem Shared.slice {entries : List (K × R)} (shared : Shared bit 0 entries) (key : K)
    (depth : Nat) : Shared bit depth (slice bit key depth entries) := by
  induction depth with
  | zero => exact shared
  | succ depth ih => exact ih.side _

/-- A path that reaches the root starts at the top node of the part that its key leads to. -/
theorem top_slice_of_climb {bits level : Nat} (within : level ≤ bits) {key : K}
    {sibling : Nat → H} {entries : List (K × R)} (start : Option (Node K R H))
    (free : CollisionFree digest empty (nodes bit digest empty bits 0 entries ++
      (climbNodes bit digest key sibling level (hash digest empty start) ++ start.toList)))
    (reaches : climb bit digest key sibling level (hash digest empty start) =
      root bit digest empty bits 0 entries) :
    top bit digest empty (bits - level) level (slice bit key level entries) = start ∧
      nodes bit digest empty (bits - level) level (slice bit key level entries) ⊆
        nodes bit digest empty bits 0 entries := by
  induction level generalizing start with
  | zero =>
    refine ⟨?_, List.Subset.refl _⟩
    refine free.hash_inj (List.Subset.trans (top_subset_nodes _ _ _) (List.subset_append_left _ _))
      (by simp [climbNodes]) ?_
    rw [← root_eq_hash]
    exact reaches.symm
  | succ level ih =>
    -- One step up, the path stands at a branch, which the part above must be.
    let node : Node K R H := join bit key level (sibling level) (hash digest empty start)
    have hashed : nodes bit digest empty bits 0 entries ++
        (climbNodes bit digest key sibling level (hash digest empty (some node)) ++
          (some node).toList) ⊆ nodes bit digest empty bits 0 entries ++
        (climbNodes bit digest key sibling (level + 1) (hash digest empty start) ++
          start.toList) := by
      intro other member
      simp only [hash_some, List.mem_append, climbNodes, Option.toList_some, List.mem_cons] at member ⊢
      tauto
    obtain ⟨isTop, part⟩ := ih (by omega) (some node) (free.mono hashed) reaches
    obtain ⟨low, high, isJoin, isStart⟩ := join_eq_branch bit key level (sibling level)
      (hash digest empty start)
    rw [show node = _ from isJoin] at isTop
    obtain ⟨left, sameLeft, isLow, isHigh, sides⟩ := top_eq_branch isTop
    have levels : bits - (level + 1) = left := by omega
    rw [levels]
    have below := List.Subset.trans (sides (bit key level)) part
    refine ⟨free.hash_inj (List.Subset.trans (top_subset_nodes _ _ _)
      (List.Subset.trans below (List.subset_append_left _ _))) (by simp) ?_, below⟩
    rw [← root_eq_hash, slice, isStart]
    cases bit key level
    · exact isLow
    · exact isHigh

/-- What is hashed along a path, with the node that it starts at. -/
def pathNodes (bit : K → Nat → Bool) (digest : Node K R H → H) (empty : H) (key : K)
    (sibling : Nat → H) (level : Nat) (start : Option (Node K R H)) : List (Node K R H) :=
  climbNodes bit digest key sibling level (hash digest empty start) ++ start.toList

/-- A longer path passes through a branch at every depth above its start. -/
theorem exists_branch_of_climb (key : K) (sibling : Nat → H) {level level' : Nat}
    (shorter : level < level') (current : H) : ∃ low high,
      climb bit digest key sibling level' current =
        climb bit digest key sibling level (digest (.branch low high)) ∧
      pathNodes bit digest empty key sibling level (some (.branch low high)) ⊆
        climbNodes bit digest key sibling level' current := by
  induction level', shorter using Nat.le_induction generalizing current with
  | base =>
    obtain ⟨low, high, isJoin, -⟩ := @join_eq_branch K R H bit key level (sibling level) current
    refine ⟨low, high, by rw [climb, isJoin], ?_⟩
    simp [pathNodes, climbNodes, isJoin]
  | succ level' _ ih =>
    obtain ⟨low, high, same, part⟩ := ih (digest (join bit key level' (sibling level') current))
    exact ⟨low, high, same, List.Subset.trans part (List.subset_cons_self _ _)⟩

/-- Two paths of a key from the same depth to the same hash start at the same node. -/
theorem start_eq_of_climb_eq {key : K} {sibling sibling' : Nat → H} {level : Nat}
    (start start' : Option (Node K R H))
    (free : CollisionFree digest empty (pathNodes bit digest empty key sibling level start ++
      pathNodes bit digest empty key sibling' level start'))
    (same : climb bit digest key sibling level (hash digest empty start) =
      climb bit digest key sibling' level (hash digest empty start')) : start = start' := by
  refine free.hash_inj (List.subset_append_of_subset_left _ (List.subset_append_right _ _))
    (List.subset_append_of_subset_right _ (List.subset_append_right _ _)) ?_
  induction level generalizing start start' with
  | zero => exact same
  | succ level ih =>
    -- One step up, the paths stand at the branches that their joins are.
    let up (s : Nat → H) (n : Option (Node K R H)) : Node K R H :=
      join bit key level (s level) (hash digest empty n)
    have part : pathNodes bit digest empty key sibling level (some (up sibling start)) ++
        pathNodes bit digest empty key sibling' level (some (up sibling' start')) ⊆
        pathNodes bit digest empty key sibling (level + 1) start ++
          pathNodes bit digest empty key sibling' (level + 1) start' := by
      intro node
      simp only [pathNodes, climbNodes, up, hash_some, List.mem_append, List.mem_cons,
        Option.toList_some]
      tauto
    have joined := (free.mono part).injective _ (by simp [pathNodes]) _ (by simp [pathNodes])
      (ih _ _ (free.mono part) same)
    simp only [up, join] at joined
    split at joined <;> injection joined

end RadixTree
