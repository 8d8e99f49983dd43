import Jar.Exec.Regs

/-! The Goldilocks field of the `goldilocks-poseidon2` program, on words that need not be
canonical. -/

namespace Jar.Guest.Goldilocks

/-- The modulus. -/
def modulus : Word64 := 0xFFFFFFFF00000001

/-- What a carry past the word is worth, `2^64 - modulus`. -/
def epsilon : Word64 := 0xFFFFFFFF

def one : Word64 := 1

def add (a b : Word64) : Word64 :=
  let r := a + b
  if a.uaddOverflow b then r + epsilon else r

def sub (a b : Word64) : Word64 :=
  let r := a - b
  if a.usubOverflow b then r - epsilon else r

/-- Reduce a product: the carries of the low word are worth `epsilon`, and `2^96` is worth `-1`. -/
def reduce128 (x : BitVec 128) : Word64 :=
  let lo : Word64 := x.setWidth 64
  let hi : Word64 := (x >>> 64).setWidth 64
  let hiHi := hi >>> 32
  let hiLo := hi &&& epsilon
  let t0 := if lo.usubOverflow hiHi then lo - hiHi - epsilon else lo - hiHi
  let t1 := hiLo * epsilon
  let r := t0 + t1
  if t0.uaddOverflow t1 then r + epsilon else r

def mul (a b : Word64) : Word64 := reduce128 (a.setWidth 128 * b.setWidth 128)

/-- The representative below the modulus. -/
def canonical (a : Word64) : Word64 := if modulus ≤ a then a - modulus else a

/-- The loop of `pow` from the lowest bit on; an exponent has no more bits than there are steps. -/
def powLoop : Nat → Word64 → Word64 → Word64 → Word64
  | 0, result, _, _ => result
  | steps + 1, result, b, e =>
    if 0 < e then
      powLoop steps (if e &&& 1 = 1 then mul result b else result) (mul b b) (e >>> 1)
    else result

def pow (base exp : Word64) : Word64 := if exp = 0 then one else powLoop 64 one base exp

/-- The inverse, by Fermat's little theorem. -/
def inv (x : Word64) : Word64 := pow x (modulus - 2)

end Jar.Guest.Goldilocks
