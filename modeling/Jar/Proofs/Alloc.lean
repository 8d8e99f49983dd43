import Mathlib
import Jar.Guest.Alloc

/-! The blocks of the bump allocator never overlap, but their alignment is that of the arena. -/

namespace Jar.Guest

theorem and_mask {x k : ℕ} (small : x < 2 ^ 64) (word : k < 64) :
    x &&& (2 ^ 64 - 1 - (2 ^ k - 1)) = x / 2 ^ k * 2 ^ k := by
  have mask : 2 ^ 64 - 1 - (2 ^ k - 1) = (2 ^ (64 - k) - 1) <<< k := by
    have split : 2 ^ (64 - k) * 2 ^ k = 2 ^ 64 := by rw [← pow_add, Nat.sub_add_cancel word.le]
    have := Nat.two_pow_pos k
    rw [Nat.shiftLeft_eq, Nat.sub_mul, split]
    omega
  rw [mask, ← Nat.shiftLeft_eq, ← Nat.shiftRight_eq_div_pow]
  -- Below `k` both have no bits; from there on the mask keeps every bit of the word.
  refine Nat.eq_of_testBit_eq fun i => ?_
  rw [Nat.testBit_and, Nat.testBit_shiftLeft, Nat.testBit_shiftLeft, Nat.testBit_shiftRight,
    Nat.testBit_two_pow_sub_one]
  by_cases low : k ≤ i
  · rw [Nat.add_sub_cancel' low]
    by_cases high : i < 64
    · simp [low, show i - k < 64 - k by omega]
    · simp [Nat.testBit_lt_two_pow (small.trans_le (Nat.pow_le_pow_right two_pos (not_lt.mp high)))]
  · simp [low]

namespace BumpAlloc

variable {N : ℕ} {arena : BumpAlloc N}

/-- Nothing overflows, and the offset is aligned: the pointer is so just if the arena is. -/
theorem alloc_spec (arena : BumpAlloc N) {pos : ℕ} (below : pos ≤ N) (layout : Layout) :
    ∃ offset, pos ≤ offset ∧ layout.align ∣ offset ∧ arena.alloc pos layout =
      some (if offset + layout.size ≤ N then (some (arena.heap + offset), offset + layout.size)
        else (none, pos)) := by
  obtain ⟨k, word, power⟩ := layout.power
  have positive : 0 < layout.align := by rw [power]; positivity
  have := arena.small
  have := layout.fits
  have rounded := Nat.div_mul_le_self (pos + layout.align - 1) layout.align
  have remainder := Nat.lt_div_mul_add positive (a := pos + layout.align - 1)
  refine ⟨(pos + layout.align - 1) / layout.align * layout.align, by omega, dvd_mul_left .., ?_⟩
  have mask : (pos + layout.align - 1) &&& (2 ^ 64 - 1 - (layout.align - 1)) =
      (pos + layout.align - 1) / layout.align * layout.align := by
    rw [power] at *
    exact and_mask (by omega) word
  simp only [alloc, addUsize, show pos + layout.align < 2 ^ 64 by omega, if_true,
    Option.bind_eq_bind, Option.bind_some, mask]
  generalize (pos + layout.align - 1) / layout.align * layout.align = offset at *
  have := arena.mapped
  have : arena.heap = arena.address + arena.heapOffset := rfl
  rw [if_pos (by omega), Option.bind_some]
  split
  · rw [if_neg (by omega)]
    rfl
  · rw [if_pos (by omega), if_pos (by omega)]
    rfl

/-- Every block ends at or below the mark, and they follow each other. -/
structure Sound (arena : BumpAlloc N) (s : State) : Prop where
  below : s.pos ≤ N
  ordered : s.blocks.Pairwise fun b c => b.2 + b.1.size ≤ c.2
  inside : ∀ b ∈ s.blocks, arena.heap ≤ b.2 ∧ b.2 + b.1.size ≤ arena.heap + s.pos
  aligned : ∀ b ∈ s.blocks, (b.1.align ∣ b.2 ↔ b.1.align ∣ arena.heap)

theorem Sound.step {s : State} (sound : Sound arena s) (op : Op) :
    ∃ s', arena.step s op = some s' ∧ Sound arena s' := by
  cases op with
  | dealloc => exact ⟨s, rfl, sound⟩
  | reset => exact ⟨⟨0, []⟩, rfl, by constructor <;> simp⟩
  | alloc layout =>
    obtain ⟨offset, above, divides, ran⟩ := alloc_spec arena sound.below layout
    by_cases room : offset + layout.size ≤ N
    · rw [if_pos room] at ran
      refine ⟨⟨_, s.blocks ++ [(layout, arena.heap + offset)]⟩, by rw [BumpAlloc.step, ran]; rfl,
        room, ?_, ?_, ?_⟩
      · simp only [List.pairwise_append, List.pairwise_singleton, List.mem_singleton, forall_eq]
        refine ⟨sound.ordered, trivial, fun b member => ?_⟩
        have := (sound.inside b member).2
        omega
      all_goals
        intro b member
        rcases List.mem_append.mp member with old | new
      · have := sound.inside b old
        dsimp only
        omega
      · obtain rfl := List.mem_singleton.mp new
        dsimp only
        omega
      · exact sound.aligned b old
      · obtain rfl := List.mem_singleton.mp new
        exact (Nat.dvd_add_left divides)
    · rw [if_neg room] at ran
      refine ⟨⟨s.pos, s.blocks ++ []⟩, by rw [BumpAlloc.step, ran]; rfl, ?_⟩
      rw [List.append_nil]
      exact sound

theorem Sound.run {s : State} (sound : Sound arena s) (ops : List Op) :
    ∃ s', ops.foldlM arena.step s = some s' ∧ Sound arena s' := by
  induction ops generalizing s with
  | nil => exact ⟨s, rfl, sound⟩
  | cons op ops ih =>
    obtain ⟨s', ran, sound'⟩ := sound.step op
    rw [List.foldlM_cons, ran]
    exact ih sound'

/-- After any sequence of calls no address computation has overflowed, and the blocks since the last
reset lie apart within the arena. A block is aligned just if the arena is aligned for it. -/
theorem alloc_contract (arena : BumpAlloc N) (ops : List Op) :
    ∃ s, arena.run ops = some s ∧
      s.blocks.Pairwise (fun b c => b.2 + b.1.size ≤ c.2 ∨ c.2 + c.1.size ≤ b.2) ∧
      ∀ b ∈ s.blocks, (arena.heap ≤ b.2 ∧ b.2 + b.1.size ≤ arena.heap + N) ∧
        (b.1.align ∣ b.2 ↔ b.1.align ∣ arena.heap) := by
  have start : Sound arena ⟨0, []⟩ := by constructor <;> simp
  obtain ⟨s, ran, sound⟩ := start.run ops
  refine ⟨s, ran, sound.ordered.imp fun behind => .inl behind, fun b member => ?_⟩
  have inside := sound.inside b member
  have := sound.below
  exact ⟨⟨inside.1, by omega⟩, sound.aligned b member⟩

/-- An arena that Rust may place at an odd multiple of a word. -/
def wordArena : BumpAlloc 64 := ⟨8, 0, 64, by decide, by decide, by decide, by decide⟩

theorem alloc_misaligned : ∃ layout s, wordArena.run [.alloc layout] = some s ∧
    ∃ b ∈ s.blocks, ¬ b.1.align ∣ b.2 :=
  ⟨⟨1, 16, ⟨4, by decide, by decide⟩, by decide⟩, _, rfl, _, List.mem_singleton_self _, by decide⟩

end BumpAlloc

end Jar.Guest
