import Mathlib.Data.List.Forall2
import Mathlib.Logic.Function.Basic
import Mathlib.Order.MinMax
import Mathlib.Order.Nat

/-! Operations issued in order, each waiting for the registers it reads: when they are done, and
which chains of dependent operations decide it. -/

namespace Pipeline

/-- An operation: its latency, the issue slots it takes, and the registers it reads and writes. -/
structure Op (R : Type*) where
  latency : Nat
  slots : Nat
  sources : List R
  target : Option R

/-- What is known between two operations. -/
structure State (R : Type*) where
  /-- The cycle at which each register is ready. -/
  ready : R → Nat
  /-- The cycle in which operations are issued. -/
  cycle : Nat
  /-- The issue slots taken in this cycle. -/
  used : Nat
  /-- The last cycle at which an operation is done. -/
  last : Nat

variable {R : Type*} (width : Nat)

namespace State

def init : State R := ⟨fun _ => 0, 0, 0, 0⟩

/-- The cycle in which the next operation is issued: a new one once all slots are taken. -/
def issue (s : State R) : Nat := if width ≤ s.used then s.cycle + 1 else s.cycle

/-- The cycle at which an operation has what it reads. -/
def start (s : State R) (op : Op R) : Nat := (op.sources.map s.ready).foldl max (s.issue width)

def done (s : State R) (op : Op R) : Nat := s.start width op + op.latency

variable [DecidableEq R]

def feed (s : State R) (op : Op R) : State R where
  ready := match op.target with
    | some r => Function.update s.ready r (s.done width op)
    | none => s.ready
  cycle := s.issue width
  used := if width ≤ s.used then op.slots else s.used + op.slots
  last := max s.last (s.done width op)

/-- Issue operations in order. -/
def feeds (s : State R) (ops : List (Op R)) : State R := ops.foldl (feed width) s

end State

/-! ## The time an operation takes -/

section

variable {width} {s s' : State R} {op op' : Op R}

theorem le_foldl_max {l : List Nat} {a b : Nat} : a ≤ l.foldl max b ↔ a ≤ b ∨ ∃ c ∈ l, a ≤ c := by
  induction l generalizing b with
  | nil => simp
  | cons c l ih => simp [ih, or_assoc]

theorem foldl_max_le {l : List Nat} {a b : Nat} : l.foldl max b ≤ a ↔ b ≤ a ∧ ∀ c ∈ l, c ≤ a := by
  induction l generalizing b with
  | nil => simp
  | cons c l ih => rw [List.foldl_cons, ih, max_le_iff, and_assoc, List.forall_mem_cons]

/-- An operation starts when it is issued, or when a register it reads is ready. -/
theorem State.start_cases (s : State R) (op : Op R) :
    s.start width op = s.issue width ∨ ∃ r ∈ op.sources, s.start width op = s.ready r := by
  rcases le_foldl_max.mp (Nat.le_refl (s.start width op)) with issued | ⟨c, member, waits⟩
  · left
    exact Nat.le_antisymm issued (le_foldl_max.mpr (.inl (Nat.le_refl _)))
  · right
    obtain ⟨r, reads, rfl⟩ := List.mem_map.mp member
    refine ⟨r, reads, Nat.le_antisymm waits (le_foldl_max.mpr (.inr ⟨_, member, Nat.le_refl _⟩))⟩

theorem State.issue_le_start (s : State R) (op : Op R) : s.issue width ≤ s.start width op :=
  le_foldl_max.mpr (.inl (Nat.le_refl _))

theorem State.ready_le_start (s : State R) {op : Op R} {r : R} (reads : r ∈ op.sources) :
    s.ready r ≤ s.start width op :=
  le_foldl_max.mpr (.inr ⟨_, List.mem_map_of_mem reads, Nat.le_refl _⟩)

variable [DecidableEq R]

theorem State.ready_feed_self {r : R} (writes : op.target = some r) :
    (s.feed width op).ready r = s.done width op := by
  simp [feed, writes]

theorem State.ready_feed_other {r : R} (other : op.target ≠ some r) :
    (s.feed width op).ready r = s.ready r := by
  cases written : op.target with
  | none => simp [feed, written]
  | some r' =>
    have different : r ≠ r' := fun same => other (by rw [written, same])
    simp [feed, written, different]

/-- Later operations never make what is done earlier. -/
theorem State.last_le_feeds (s : State R) (ops : List (Op R)) :
    s.last ≤ (s.feeds width ops).last := by
  induction ops generalizing s with
  | nil => exact Nat.le_refl _
  | cons op rest ih => exact (Nat.le_max_left _ _).trans (ih (s.feed width op))

/-- An operation that reads its own result, again and again, takes its latency each time. -/
theorem State.le_last_replicate (s : State R) {r : R} (writes : op.target = some r)
    (reads : r ∈ op.sources) (n : Nat) :
    s.ready r + (n + 1) * op.latency ≤ (s.feeds width (List.replicate (n + 1) op)).last := by
  induction n generalizing s with
  | zero =>
    have waits : s.ready r ≤ s.start width op := s.ready_le_start reads
    refine (Nat.add_le_add waits (Nat.le_of_eq (by simp))).trans (Nat.le_max_right _ _)
  | succ n ih =>
    have waits : s.ready r ≤ s.start width op := s.ready_le_start reads
    have later := ih (s.feed width op)
    rw [State.ready_feed_self writes, State.done] at later
    rw [List.replicate_succ]
    refine le_trans ?_ later
    rw [Nat.succ_mul (n + 1)]
    omega

end

/-! ## Slower operations -/

section

variable {width} {s s' : State R} {op op' : Op R}

/-- Two operations that differ in their latency only, and the second is no faster. -/
structure Slower (op op' : Op R) : Prop where
  latency : op.latency ≤ op'.latency
  slots : op'.slots = op.slots
  sources : op'.sources = op.sources
  target : op'.target = op.target

/-- In the second state everything is ready at the same time or later, and the issue slots are the
same. -/
structure Behind (s s' : State R) : Prop where
  ready : ∀ r, s.ready r ≤ s'.ready r
  cycle : s'.cycle = s.cycle
  used : s'.used = s.used
  last : s.last ≤ s'.last

theorem Behind.refl (s : State R) : Behind s s := ⟨fun _ => Nat.le_refl _, rfl, rfl, Nat.le_refl _⟩

theorem Behind.issue (behind : Behind s s') : s'.issue width = s.issue width := by
  simp only [State.issue, behind.cycle, behind.used]

theorem Behind.done (behind : Behind s s') (slower : Slower op op') :
    s.done width op ≤ s'.done width op' := by
  refine Nat.add_le_add ?_ slower.latency
  refine foldl_max_le.mpr ⟨?_, fun c member => ?_⟩
  · exact behind.issue ▸ s'.issue_le_start op'
  · obtain ⟨r, reads, rfl⟩ := List.mem_map.mp member
    exact (behind.ready r).trans (s'.ready_le_start (slower.sources ▸ reads))

variable [DecidableEq R]

theorem Behind.feed (behind : Behind s s') (slower : Slower op op') :
    Behind (s.feed width op) (s'.feed width op') where
  ready r := by
    by_cases writes : op.target = some r
    · rw [State.ready_feed_self writes, State.ready_feed_self (slower.target.trans writes)]
      exact behind.done slower
    · rw [State.ready_feed_other writes, State.ready_feed_other (slower.target ▸ writes)]
      exact behind.ready r
  cycle := behind.issue
  used := by simp only [State.feed, behind.used, slower.slots]
  last := max_le_max behind.last (behind.done slower)

/-- Slower operations are done later, one after the other. -/
theorem Behind.feeds {ops ops' : List (Op R)} (behind : Behind s s')
    (slower : List.Forall₂ Slower ops ops') :
    Behind (s.feeds width ops) (s'.feeds width ops') := by
  induction slower generalizing s s' with
  | nil => exact behind
  | cons first _ ih => exact ih (behind.feed first)

end

/-! ## Chains of dependent operations -/

variable [DecidableEq R]

def before (ops : List (Op R)) (i : Nat) : State R := State.init.feeds width (ops.take i)

/-- One operation reads what another one wrote, and no write to the register comes between. -/
def Feeds (ops : List (Op R)) (j i : Nat) : Prop :=
  ∃ a b r, ops[j]? = some a ∧ ops[i]? = some b ∧ a.target = some r ∧ r ∈ b.sources ∧ j < i ∧
    ∀ k c, j < k → k < i → ops[k]? = some c → c.target ≠ some r

/-- A chain of operations, each of which feeds the next, up to an operation: the cycle at which its
first one is issued, and the latencies of all of them. -/
inductive Chain (ops : List (Op R)) : Nat → Nat → Prop
  | issued {i : Nat} {op : Op R} (found : ops[i]? = some op) :
      Chain ops i ((before width ops i).issue width + op.latency)
  | waits {j i t : Nat} {op : Op R} (chain : Chain ops j t) (feeds : Feeds ops j i)
      (found : ops[i]? = some op) : Chain ops i (t + op.latency)

section

variable {width} {ops : List (Op R)} {i : Nat} {op : Op R}

theorem before_succ (found : ops[i]? = some op) :
    before width ops (i + 1) = (before width ops i).feed width op := by
  have taken : ops.take (i + 1) = ops.take i ++ [op] := by
    rw [List.take_add_one, found]
    rfl
  simp only [before, State.feeds, taken, List.foldl_append, List.foldl_cons, List.foldl_nil]

/-- A register is ready when the operation that wrote it last is done. -/
theorem ready_before (within : i ≤ ops.length) (r : R) :
    (∃ j a, ops[j]? = some a ∧ a.target = some r ∧ j < i ∧
        (∀ k c, j < k → k < i → ops[k]? = some c → c.target ≠ some r) ∧
        (before width ops i).ready r = (before width ops j).done width a) ∨
      (∀ k c, k < i → ops[k]? = some c → c.target ≠ some r) ∧
        (before width ops i).ready r = 0 := by
  induction i with
  | zero => exact .inr ⟨fun _ _ none => absurd none (Nat.not_lt_zero _), rfl⟩
  | succ i ih =>
    have found : ops[i]? = some ops[i] := List.getElem?_eq_getElem within
    have at_last {k : Nat} (below : k < i + 1) (not : ¬ k < i) : k = i := by omega
    rw [before_succ found]
    by_cases writes : ops[i].target = some r
    · -- The operation itself is the last one that wrote the register.
      rw [State.ready_feed_self writes]
      exact .inl ⟨i, ops[i], found, writes, Nat.lt_succ_self i, fun k c after below =>
        absurd below (by omega), rfl⟩
    · rw [State.ready_feed_other writes]
      have later (k : Nat) (c : Op R) (below : k < i + 1) (not : ¬ k < i)
          (there : ops[k]? = some c) : c.target ≠ some r := by
        obtain rfl := at_last below not
        obtain rfl := Option.some.inj (found.symm.trans there)
        exact writes
      rcases ih (Nat.le_of_succ_le within) with ⟨j, a, there, wrote, earlier, only, same⟩ |
          ⟨never, zero⟩
      · refine .inl ⟨j, a, there, wrote, Nat.lt_succ_of_lt earlier, fun k c after below there => ?_,
          same⟩
        by_cases inside : k < i
        · exact only k c after inside there
        · exact later k c below inside there
      · refine .inr ⟨fun k c below there => ?_, zero⟩
        by_cases inside : k < i
        · exact never k c inside there
        · exact later k c below inside there

/-- Every chain up to an operation is over when the operation is done. -/
theorem Chain.le_done {t : Nat} (chain : Chain width ops i t) (found : ops[i]? = some op) :
    t ≤ (before width ops i).done width op := by
  induction chain generalizing op with
  | @issued i op' there =>
    obtain rfl := Option.some.inj (there.symm.trans found)
    exact Nat.add_le_add_right ((before width ops i).issue_le_start op') _
  | @waits j i t op' _ feeds there ih =>
    obtain rfl := Option.some.inj (there.symm.trans found)
    obtain ⟨a, b, r, first, second, wrote, reads, earlier, only⟩ := feeds
    obtain rfl := Option.some.inj (there.symm.trans second)
    refine Nat.add_le_add_right ((ih first).trans ?_) _
    have within : i ≤ ops.length := (List.getElem?_eq_some_iff.mp there).1.le
    -- The register is ready when this very writer is done.
    rcases ready_before within r with ⟨j', a', there', wrote', earlier', only', ready⟩ | ⟨never, -⟩
    · have same : j' = j := by
        rcases Nat.lt_trichotomy j' j with less | equal | more
        · exact absurd wrote (only' j a less earlier first)
        · exact equal
        · exact absurd wrote' (only j' a' more earlier' there')
      subst same
      obtain rfl := Option.some.inj (first.symm.trans there')
      exact ready ▸ (before width ops i).ready_le_start reads
    · exact absurd wrote (never j a earlier first)

theorem chain_done (found : ops[i]? = some op) :
    Chain width ops i ((before width ops i).done width op) := by
  induction i using Nat.strong_induction_on generalizing op with
  | _ i ih =>
    have within : i ≤ ops.length := (List.getElem?_eq_some_iff.mp found).1.le
    rcases @State.start_cases R width (before width ops i) op with issued | ⟨r, reads, waited⟩
    · rw [State.done, issued]
      exact .issued found
    · rcases ready_before within r with ⟨j, a, there, wrote, earlier, only, ready⟩ | ⟨-, zero⟩
      · rw [State.done, waited, ready]
        exact .waits (ih j earlier there) ⟨a, op, r, there, found, wrote, reads, earlier, only⟩ found
      · -- A register that was never written is ready from the start.
        have issued : (before width ops i).start width op = (before width ops i).issue width := by
          have least := @State.issue_le_start R width (before width ops i) op
          omega
        rw [State.done, issued]
        exact .issued found

/-- What is done last is bounded exactly when every chain is. -/
theorem last_feeds_lt {bound : Nat} (positive : 0 < bound) :
    (State.init.feeds width ops).last < bound ↔ ∀ i t, Chain width ops i t → t < bound := by
  have all (i : Nat) (within : i ≤ ops.length) : (before width ops i).last < bound ↔
      ∀ j < i, ∀ t, Chain width ops j t → t < bound := by
    induction i with
    | zero => exact ⟨fun _ j none => absurd none (Nat.not_lt_zero j), fun _ => positive⟩
    | succ i ih =>
      have found : ops[i]? = some ops[i] := List.getElem?_eq_getElem within
      rw [before_succ found, State.feed, Nat.max_lt, ih (Nat.le_of_succ_le within)]
      constructor
      · rintro ⟨earlier, done⟩ j below t chain
        by_cases inside : j < i
        · exact earlier j inside t chain
        · obtain rfl : j = i := by omega
          exact (chain.le_done found).trans_lt done
      · intro each
        exact ⟨fun j below => each j (Nat.lt_succ_of_lt below),
          each i (Nat.lt_succ_self i) _ (chain_done found)⟩
  have whole : before width ops ops.length = State.init.feeds width ops := by
    rw [before, List.take_length]
  rw [← whole, all ops.length (Nat.le_refl _)]
  refine ⟨fun each i t chain => each i ?_ t chain, fun each j _ => each j⟩
  cases chain with
  | issued found => exact (List.getElem?_eq_some_iff.mp found).1
  | waits _ _ found => exact (List.getElem?_eq_some_iff.mp found).1

end

end Pipeline
