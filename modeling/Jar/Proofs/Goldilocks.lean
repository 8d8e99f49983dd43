import Mathlib
import Jar.Guest.Goldilocks

/-! The operations of the Goldilocks field against the integers modulo its prime. -/

namespace Jar.Guest.Goldilocks

def p : ℕ := 2 ^ 64 - 2 ^ 32 + 1

theorem p_eq : p = 18446744069414584321 := by decide

theorem toNat_epsilon : epsilon.toNat = 2 ^ 32 - 1 := by decide

/-! ## One operation -/

theorem toNat_add (a b : Word64) : (add a b).toNat = if 2 ^ 64 ≤ a.toNat + b.toNat then
      ((a.toNat + b.toNat) % 2 ^ 64 + (2 ^ 32 - 1)) % 2 ^ 64
    else (a.toNat + b.toNat) % 2 ^ 64 := by
  unfold add
  rw [apply_ite BitVec.toNat, BitVec.toNat_add, BitVec.toNat_add, toNat_epsilon]
  simp only [BitVec.uaddOverflow, decide_eq_true_eq, ge_iff_le]

theorem toNat_sub (a b : Word64) : (sub a b).toNat = if a.toNat < b.toNat then
      (2 ^ 64 - (2 ^ 32 - 1) + (2 ^ 64 - b.toNat + a.toNat) % 2 ^ 64) % 2 ^ 64
    else (2 ^ 64 - b.toNat + a.toNat) % 2 ^ 64 := by
  unfold sub
  rw [apply_ite BitVec.toNat, BitVec.toNat_sub, BitVec.toNat_sub, toNat_epsilon]
  simp only [BitVec.usubOverflow, decide_eq_true_eq]

/-- A sum is off as soon as its correction carries as well. -/
theorem add_modEq_iff (a b : Word64) :
    ((add a b).toNat : ℤ) ≡ a.toNat + b.toNat [ZMOD p] ↔ a.toNat + b.toNat < 2 ^ 64 + p := by
  have := a.isLt
  have := b.isLt
  rw [toNat_add, Int.ModEq, p_eq]
  split <;> omega

/-- A difference is off as soon as its correction borrows as well. -/
theorem sub_modEq_iff (a b : Word64) :
    ((sub a b).toNat : ℤ) ≡ a.toNat - b.toNat [ZMOD p] ↔ b.toNat ≤ a.toNat + p := by
  have := a.isLt
  have := b.isLt
  rw [toNat_sub, Int.ModEq, p_eq]
  split <;> omega

theorem reduce128_modEq (x : BitVec 128) : ((reduce128 x).toNat : ℤ) ≡ x.toNat [ZMOD p] := by
  -- Both corrections are those of `sub` and `add`, on operands that leave room for one.
  have shape : ∃ lo hi : Word64, x.toNat = lo.toNat + 2 ^ 64 * hi.toNat ∧
      reduce128 x = add (sub lo (hi >>> 32)) ((hi &&& epsilon) * epsilon) := by
    refine ⟨x.setWidth 64, (x >>> 64).setWidth 64, ?_, rfl⟩
    have := x.isLt
    rw [BitVec.toNat_setWidth, BitVec.toNat_setWidth, BitVec.toNat_ushiftRight,
      Nat.shiftRight_eq_div_pow]
    omega
  obtain ⟨lo, hi, value, reduced⟩ := shape
  have := lo.isLt
  have := hi.isLt
  have high : (hi >>> 32).toNat = hi.toNat / 2 ^ 32 := by
    rw [BitVec.toNat_ushiftRight, Nat.shiftRight_eq_div_pow]
  have masked : (hi &&& epsilon).toNat = hi.toNat % 2 ^ 32 := by
    rw [BitVec.toNat_and, toNat_epsilon, Nat.and_two_pow_sub_one_eq_mod]
  have low : ((hi &&& epsilon) * epsilon).toNat = hi.toNat % 2 ^ 32 * (2 ^ 32 - 1) := by
    rw [BitVec.toNat_mul, masked, toNat_epsilon]
    omega
  have first := (sub_modEq_iff lo (hi >>> 32)).mpr (by rw [high, p_eq]; omega)
  have second := (add_modEq_iff (sub lo (hi >>> 32)) ((hi &&& epsilon) * epsilon)).mpr (by
    rw [low, p_eq]
    have := (sub lo (hi >>> 32)).isLt
    omega)
  rw [reduced, value]
  rw [Int.ModEq, p_eq] at *
  omega

theorem toNat_wideMul (a b : Word64) :
    (a.setWidth 128 * b.setWidth 128).toNat = a.toNat * b.toNat := by
  have := Nat.mul_lt_mul'' a.isLt b.isLt
  rw [BitVec.toNat_mul, BitVec.toNat_setWidth_of_le (by decide),
    BitVec.toNat_setWidth_of_le (by decide), Nat.mod_eq_of_lt this]

theorem mul_modEq (a b : Word64) : ((mul a b).toNat : ℤ) ≡ a.toNat * b.toNat [ZMOD p] := by
  have := reduce128_modEq (a.setWidth 128 * b.setWidth 128)
  rwa [toNat_wideMul, Nat.cast_mul] at this

theorem toNat_canonical {w : Word64} {x : ℤ} (same : (w.toNat : ℤ) ≡ x [ZMOD p]) :
    ((canonical w).toNat : ℤ) = x % p := by
  have := w.isLt
  have value : modulus.toNat = p := by decide
  rw [← same, p_eq, canonical]
  rw [p_eq] at value
  split
  next above =>
    rw [BitVec.le_def, value] at above
    rw [BitVec.toNat_sub_of_le above, value]
    omega
  next below =>
    rw [BitVec.le_def, value] at below
    omega

/-! ## Compositions -/

/-- The operations on two words. -/
inductive Op where
  | add
  | sub
  | mul

def Op.apply : Op → Word64 → Word64 → Word64
  | .add => Goldilocks.add
  | .sub => Goldilocks.sub
  | .mul => Goldilocks.mul

def Op.exact : Op → ℤ → ℤ → ℤ
  | .add => (· + ·)
  | .sub => (· - ·)
  | .mul => (· * ·)

/-- One correction is enough for the operands. -/
def Op.Fits : Op → Word64 → Word64 → Prop
  | .add, a, b => a.toNat + b.toNat < 2 ^ 64 + p
  | .sub, a, b => b.toNat ≤ a.toNat + p
  | .mul, _, _ => True

theorem Op.modEq_iff (op : Op) (a b : Word64) :
    ((op.apply a b).toNat : ℤ) ≡ op.exact a.toNat b.toNat [ZMOD p] ↔ op.Fits a b := by
  cases op with
  | add => exact add_modEq_iff a b
  | sub => exact sub_modEq_iff a b
  | mul => exact iff_of_true (mul_modEq a b) trivial

/-- A composition of operations on words. -/
inductive Expr where
  | word (w : Word64)
  | node (op : Op) (left right : Expr)

def Expr.eval : Expr → Word64
  | .word w => w
  | .node op left right => op.apply left.eval right.eval

def Expr.exact : Expr → ℤ
  | .word w => w.toNat
  | .node op left right => op.exact left.exact right.exact

/-- One correction is enough in every operation, on the representatives that reach it. -/
def Expr.Fits : Expr → Prop
  | .word _ => True
  | .node op left right => left.Fits ∧ right.Fits ∧ op.Fits left.eval right.eval

theorem Op.exact_congr (op : Op) {a a' b b' : ℤ} (left : a ≡ a' [ZMOD p])
    (right : b ≡ b' [ZMOD p]) : op.exact a b ≡ op.exact a' b' [ZMOD p] := by
  cases op with
  | add => exact left.add right
  | sub => exact left.sub right
  | mul => exact left.mul right

theorem Expr.eval_modEq {e : Expr} (fits : e.Fits) : (e.eval.toNat : ℤ) ≡ e.exact [ZMOD p] := by
  -- Every operation is congruent on the words below it, which are so by induction.
  induction e with
  | word w => rfl
  | node op left right ihl ihr =>
    obtain ⟨fitsl, fitsr, here⟩ := fits
    exact ((op.modEq_iff _ _).mpr here).trans (op.exact_congr (ihl fitsl) (ihr fitsr))

/-- An operation is exact modulo the prime just if one correction is enough, and so is every
composition of such operations. -/
theorem field_exact (op : Op) (a b : Word64) (e : Expr) :
    (((op.apply a b).toNat : ℤ) ≡ op.exact a.toNat b.toNat [ZMOD p] ↔ op.Fits a b) ∧
    (e.Fits → ((canonical e.eval).toNat : ℤ) = e.exact % p) :=
  ⟨op.modEq_iff a b, fun fits => toNat_canonical (Expr.eval_modEq fits)⟩

theorem field_exact_twice :
    ((canonical (add modulus modulus)).toNat : ℤ) = (modulus.toNat + modulus.toNat) % p := by
  refine (field_exact .add modulus modulus
    (.node .add (.word modulus) (.word modulus))).2 ⟨trivial, trivial, ?_⟩
  change modulus.toNat + modulus.toNat < 2 ^ 64 + p
  decide

/-- Twice the largest word carries twice, and the second carry is lost. -/
theorem field_exact_fails : ¬ ((add (-1) (-1)).toNat : ℤ) ≡ (-1 : Word64).toNat + (-1 : Word64).toNat
      [ZMOD p] ∧
    ((canonical (add (-1) (-1))).toNat : ℤ) ≠ ((-1 : Word64).toNat + (-1 : Word64).toNat) % p := by
  decide

/-! ## Powers and inverses -/

/-- The residue of a word. -/
def residue (w : Word64) : ZMod p := (w.toNat : ℤ)

theorem residue_eq_iff {w : Word64} {x : ℤ} : residue w = x ↔ (w.toNat : ℤ) ≡ x [ZMOD p] :=
  ZMod.intCast_eq_intCast_iff ..

theorem residue_mul (a b : Word64) : residue (mul a b) = residue a * residue b := by
  unfold residue
  rw [← Int.cast_mul]
  exact residue_eq_iff.mpr (mul_modEq a b)

theorem residue_powLoop {steps : ℕ} {e : Word64} (result b : Word64) (enough : e.toNat < 2 ^ steps) :
    residue (powLoop steps result b e) = residue result * residue b ^ e.toNat := by
  induction steps generalizing result b e with
  | zero =>
    rw [powLoop, show e.toNat = 0 by omega, pow_zero, mul_one]
  | succ steps ih =>
    rw [powLoop]
    split
    next more =>
      have half : (e >>> 1).toNat = e.toNat / 2 := by
        rw [BitVec.toNat_ushiftRight, Nat.shiftRight_one]
      have bit : e &&& 1 = 1 ↔ e.toNat % 2 = 1 := by
        rw [← BitVec.toNat_inj, BitVec.toNat_and, ← Nat.and_one_is_mod]
        rfl
      rw [ih _ _ (by rw [half]; omega), half, residue_mul, ← sq, ← pow_mul]
      split
      next odd =>
        rw [bit] at odd
        rw [residue_mul, mul_assoc, ← pow_succ']
        congr 2
        omega
      next even =>
        rw [bit] at even
        congr 2
        omega
    next none =>
      have : e.toNat = 0 := by simpa [BitVec.lt_def] using none
      rw [this, pow_zero, mul_one]

theorem residue_pow (base exp : Word64) : residue (pow base exp) = residue base ^ exp.toNat := by
  rw [pow]
  split
  next none => rw [none]; simp [residue, one]
  next => rw [residue_powLoop _ _ exp.isLt]; simp [residue, one]

theorem residue_seven_pow {n : ℕ} (small : n < 2 ^ 64) : residue (pow 7 (.ofNat 64 n)) = 7 ^ n := by
  rw [residue_pow, BitVec.toNat_ofNat, Nat.mod_eq_of_lt small]
  rfl

theorem mem_of_dvd {q : ℕ} (prime : q.Prime) (divides : q ∣ p - 1) :
    q ∈ [2, 3, 5, 17, 257, 65537] := by
  have equal {r : ℕ} (isPrime : r.Prime) : q ∣ r → q = r :=
    (Nat.prime_dvd_prime_iff_eq prime isPrime).mp
  rw [show p - 1 = 2 ^ 32 * 3 * 5 * 17 * 257 * 65537 by decide] at divides
  simp only [prime.dvd_mul] at divides
  simp only [List.mem_cons, List.not_mem_nil, or_false]
  rcases divides with ((((two | three) | five) | rest) | rest) | rest
  · exact .inl (equal Nat.prime_two (prime.dvd_of_dvd_pow two))
  · exact .inr (.inl (equal Nat.prime_three three))
  · exact .inr (.inr (.inl (equal Nat.prime_five five)))
  all_goals
    have := equal (by norm_num) rest
    omega

/-- The modulus is prime: the powers of 7 that the code computes give it the order `p - 1`. -/
theorem prime_p : p.Prime := by
  have fits {n : ℕ} (below : n ≤ p - 1) : n < 2 ^ 64 := by
    rw [p_eq] at below
    omega
  refine lucas_primality p 7 ?_ fun q prime divides one => ?_
  · have one : (pow 7 (.ofNat 64 (p - 1))).toNat ≡ 1 [MOD p] := by decide +kernel
    rw [← residue_seven_pow (fits le_rfl), residue_eq_iff.mpr (Int.natCast_modEq_iff.mpr one)]
    simp
  · have powers : ∀ r ∈ [2, 3, 5, 17, 257, 65537],
        canonical (pow 7 (.ofNat 64 ((p - 1) / r))) ≠ 1 := by decide +kernel
    rw [← residue_seven_pow (fits (Nat.div_le_self _ _)), ← Int.cast_one, residue_eq_iff] at one
    have value := toNat_canonical one
    rw [p_eq] at value
    exact powers q (mem_of_dvd prime divides) (BitVec.eq_of_toNat_eq (by exact_mod_cast value))

instance : Fact p.Prime := ⟨prime_p⟩

theorem residue_inv (x : Word64) : residue (inv x) = (residue x)⁻¹ := by
  have exponent : (modulus - 2).toNat = p - 2 := by decide
  rw [inv, residue_pow, exponent]
  by_cases zero : residue x = 0
  · rw [zero, inv_zero, zero_pow (by decide)]
  · -- Fermat: one more factor makes the power one.
    refine eq_inv_of_mul_eq_one_left ?_
    rw [← pow_succ, show p - 2 + 1 = p - 1 by decide, ZMod.pow_card_sub_one_eq_one zero]

/-- Powers are exact on all words, and inverses are those of the field. -/
theorem pow_inv_exact :
    (∀ base exp, ((pow base exp).toNat : ℤ) ≡ base.toNat ^ exp.toNat [ZMOD p]) ∧
    (∀ x, ¬ (x.toNat : ℤ) ≡ 0 [ZMOD p] → ((mul x (inv x)).toNat : ℤ) ≡ 1 [ZMOD p]) ∧
    ∀ x, (x.toNat : ℤ) ≡ 0 [ZMOD p] → ((inv x).toNat : ℤ) ≡ 0 [ZMOD p] := by
  refine ⟨fun base exp => ?_, fun x nonzero => ?_, fun x zero => ?_⟩
  · rw [← residue_eq_iff, residue_pow, Int.cast_pow]
    rfl
  · rw [← residue_eq_iff, Int.cast_zero] at nonzero
    rw [← residue_eq_iff, residue_mul, residue_inv, mul_inv_cancel₀ nonzero, Int.cast_one]
  · rw [← residue_eq_iff, Int.cast_zero] at zero ⊢
    rw [residue_inv, zero, inv_zero]

theorem pow_inv_exact_two : ((mul 2 (inv 2)).toNat : ℤ) ≡ 1 [ZMOD p] :=
  pow_inv_exact.2.1 2 (by decide)

end Jar.Guest.Goldilocks
