import Jar.Lib.Word
import Jar.Linker.Align
import Jar.Proofs.Predecode
import Mathlib.Tactic.IntervalCases

/-! Code as a list of encodings: what the executor decodes, and what the linker reads and writes in
the jumps among them. -/

namespace Jar.Linker

/-- The encoding of one instruction; the low bits tell its length. -/
inductive Encoding where
  | half (h : BitVec 16) (short : h.extractLsb' 0 2 ≠ 0b11#2)
  | word (w : BitVec 32) (long : w.extractLsb' 0 2 = 0b11#2)
  deriving DecidableEq

namespace Encoding

def bytes : Encoding → List Byte
  | half h _ => halfBytes h
  | word w _ => wordBytes w

def size : Encoding → Nat
  | half .. => 2
  | word .. => 4

def inst : Encoding → Inst
  | half h _ => reserveIfReservedReg (decompress h)
  | word w _ => reserveIfReservedReg (decode32 w)

/-- The immediate of a jump or branch with a static target. -/
def imm? : Encoding → Option (BitVec 32)
  | half h _ =>
    match h.extractLsb' 0 2, cFunct3 h with
    | 0b01#2, 0b101#3 => some (decodeCjImm h)
    | 0b01#2, 0b110#3 | 0b01#2, 0b111#3 => some (decodeCbImm h)
    | _, _ => none
  | word w _ =>
    match w.extractLsb' 0 7 with
    | 0b1101111#7 => some (immJ w)
    | 0b1100011#7 => some (immB w)
    | _ => none

def target (p : Nat) (e : Encoding) : Option Int := e.imm?.map fun imm => p + imm.toInt

/-- The bits outside the immediate of a jump or branch. -/
def fixedBits : Encoding → BitVec 32
  | half h _ =>
    match h.extractLsb' 0 2, cFunct3 h with
    | 0b01#2, 0b101#3 => (h &&& 0b1110000000000011).zeroExtend 32
    | 0b01#2, 0b110#3 | 0b01#2, 0b111#3 => (h &&& 0b1110001110000011).zeroExtend 32
    | _, _ => h.zeroExtend 32
  | word w _ =>
    match w.extractLsb' 0 7 with
    | 0b1101111#7 => w &&& 0x00000FFF
    | 0b1100011#7 => w &&& 0x01FFF07F
    | _ => w

/-- What the linker takes for the end of a block. -/
def terminates : Encoding → Bool
  | half h _ => (classifyHalf 0 h).1
  | word w _ => (classifyWord 0 w).1

@[simp]
theorem length_bytes (e : Encoding) : e.bytes.length = e.size := by cases e <;> rfl

theorem two_le_size (e : Encoding) : 2 ≤ e.size := by cases e <;> simp [size]

theorem size_even (e : Encoding) : e.size % 2 = 0 := by cases e <;> simp [size]

theorem append_halfBytes (h : BitVec 16) : h.extractLsb' 8 8 ++ h.extractLsb' 0 8 = h := by
  ext i
  grind

theorem append_wordBytes (w : BitVec 32) :
    w.extractLsb' 24 8 ++ w.extractLsb' 16 8 ++ w.extractLsb' 8 8 ++ w.extractLsb' 0 8 = w := by
  ext i
  grind

theorem lowHalf_word (w : BitVec 32) :
    (w.extractLsb' 8 8 ++ w.extractLsb' 0 8).extractLsb' 0 2 = w.extractLsb' 0 2 := by
  ext i
  grind

theorem halfBytes_append (b0 b1 : Byte) : halfBytes (b1 ++ b0) = [b0, b1] := by
  simp only [halfBytes, List.cons.injEq, and_true]
  refine ⟨?_, ?_⟩ <;> ext i <;> grind

theorem wordBytes_append (b0 b1 b2 b3 : Byte) :
    wordBytes (b3 ++ b2 ++ b1 ++ b0) = [b0, b1, b2, b3] := by
  simp only [wordBytes, List.cons.injEq, and_true]
  refine ⟨?_, ?_, ?_, ?_⟩ <;> ext i <;> grind

theorem lengthBits_half (b0 b1 : Byte) : (b1 ++ b0).extractLsb' 0 2 = b0.extractLsb' 0 2 := by
  ext i
  grind

theorem lengthBits_word (b0 b1 b2 b3 : Byte) :
    (b3 ++ b2 ++ b1 ++ b0).extractLsb' 0 2 = b0.extractLsb' 0 2 := by
  ext i
  grind

theorem decode_bytes (e : Encoding) (rest : List Byte) :
    decode (e.bytes ++ rest) = some (e.inst, e.size) := by
  cases e with
  | half h short =>
    have low : (h.extractLsb' 0 8).extractLsb' 0 2 = h.extractLsb' 0 2 := by
      ext i
      grind
    simp only [bytes, halfBytes, List.cons_append, List.nil_append, decode, low, append_halfBytes]
    rw [if_pos short]
    rfl
  | word w long =>
    have low : (w.extractLsb' 0 8).extractLsb' 0 2 = w.extractLsb' 0 2 := by
      ext i
      grind
    simp only [bytes, wordBytes, List.cons_append, List.nil_append, decode, low, append_wordBytes]
    rw [if_neg (not_not.mpr long)]
    rfl

theorem exists_of_decode {code : List Byte} {result : Inst × Nat}
    (decoded : decode code = some result) : ∃ e rest, code = bytes e ++ rest := by
  unfold decode at decoded
  split at decoded
  next b0 b1 rest =>
    split at decoded
    next short =>
      refine ⟨half (b1 ++ b0) ((lengthBits_half b0 b1).symm ▸ short), rest, ?_⟩
      rw [bytes, halfBytes_append]
      rfl
    next long =>
      split at decoded
      next b2 b3 rest =>
        refine ⟨word (b3 ++ b2 ++ b1 ++ b0)
          ((lengthBits_word b0 b1 b2 b3).trans (not_not.mp long)), rest, ?_⟩
        rw [bytes, wordBytes_append]
        rfl
      next => cases decoded
  next => cases decoded

end Encoding

/-! ## Immediates -/

theorem getLsbD_zero_of_even {v : BitVec 32} (even : v &&& 1 = 0) : v.getLsbD 0 = false := by
  simpa using congrArg (·.getLsbD 0) even

theorem decodeCjImm_encodeCjImm {h h' : BitVec 16} {v : BitVec 32}
    (encoded : encodeCjImm h v = some h') :
    decodeCjImm h' = v ∧ h'.extractLsb' 0 2 = h.extractLsb' 0 2 ∧ cFunct3 h' = cFunct3 h ∧
      h' &&& 0b1110000000000011 = h &&& 0b1110000000000011 := by
  obtain ⟨range, encoded⟩ := Option.ite_none_left_eq_some.mp encoded
  obtain ⟨even, encoded⟩ := Option.ite_none_left_eq_some.mp encoded
  have zero := getLsbD_zero_of_even (not_not.mp even)
  rw [← Option.some.inj encoded]
  refine ⟨?_, ?_, ?_, ?_⟩
  · refine Eq.trans (congrArg (BitVec.signExtend 32) ?_) (Word.signExtend_of_range v
      (show 1 + 1 + 2 + 1 + 1 + 1 + 1 + 3 + 1 ≤ 32 by decide) (by omega) (by omega))
    apply BitVec.eq_of_getLsbD_eq
    intro i below
    simp only [BitVec.getLsbD_append, BitVec.getLsbD_extractLsb']
    interval_cases i <;> simp
    simpa using zero
  all_goals
    apply BitVec.eq_of_getLsbD_eq
    intro i below
    interval_cases i <;> simp [cFunct3]

theorem decodeCbImm_encodeCbImm {h h' : BitVec 16} {v : BitVec 32}
    (encoded : encodeCbImm h v = some h') :
    decodeCbImm h' = v ∧ h'.extractLsb' 0 2 = h.extractLsb' 0 2 ∧ cFunct3 h' = cFunct3 h ∧
      h' &&& 0b1110001110000011 = h &&& 0b1110001110000011 := by
  obtain ⟨range, encoded⟩ := Option.ite_none_left_eq_some.mp encoded
  obtain ⟨even, encoded⟩ := Option.ite_none_left_eq_some.mp encoded
  have zero := getLsbD_zero_of_even (not_not.mp even)
  rw [← Option.some.inj encoded]
  refine ⟨?_, ?_, ?_, ?_⟩
  · refine Eq.trans (congrArg (BitVec.signExtend 32) ?_) (Word.signExtend_of_range v
      (show 1 + 2 + 1 + 2 + 2 + 1 ≤ 32 by decide) (by omega) (by omega))
    apply BitVec.eq_of_getLsbD_eq
    intro i below
    simp only [BitVec.getLsbD_append, BitVec.getLsbD_extractLsb']
    interval_cases i <;> simp
    simpa using zero
  all_goals
    apply BitVec.eq_of_getLsbD_eq
    intro i below
    interval_cases i <;> simp [cFunct3]

theorem immJ_encodeJImm {w v : BitVec 32} (opcode : w.extractLsb' 0 7 = 0b1101111#7)
    (range : -2 ^ 20 ≤ v.toInt ∧ v.toInt < 2 ^ 20) (even : v &&& 1 = 0) :
    immJ (encodeJImm w v) = v ∧ (encodeJImm w v).extractLsb' 0 7 = 0b1101111#7 ∧
      encodeJImm w v &&& 0x00000FFF = w &&& 0x00000FFF := by
  have zero := getLsbD_zero_of_even even
  refine ⟨?_, ?_, ?_⟩
  · refine Eq.trans (congrArg (BitVec.signExtend 32) ?_) (Word.signExtend_of_range v
      (show 1 + 8 + 1 + 10 + 1 ≤ 32 by decide) (by omega) (by omega))
    apply BitVec.eq_of_getLsbD_eq
    intro i below
    simp only [BitVec.getLsbD_append, BitVec.getLsbD_extractLsb']
    interval_cases i <;> simp [encodeJImm]
    simpa using zero
  · apply BitVec.eq_of_getLsbD_eq
    intro i below
    interval_cases i <;> simp [encodeJImm]
  · have low : ∀ i < 7, w.getLsbD i = (0b1101111#7).getLsbD i := by
      intro i below
      rw [← opcode]
      simp [below]
    have := low 0; have := low 1; have := low 2; have := low 3; have := low 4; have := low 5
    have := low 6
    apply BitVec.eq_of_getLsbD_eq
    intro i below
    interval_cases i <;> simp_all [encodeJImm]

theorem immB_encodeBImm {w v : BitVec 32} (range : -2 ^ 12 ≤ v.toInt ∧ v.toInt < 2 ^ 12)
    (even : v &&& 1 = 0) :
    immB (encodeBImm w v) = v ∧ (encodeBImm w v).extractLsb' 0 7 = w.extractLsb' 0 7 ∧
      encodeBImm w v &&& 0x01FFF07F = w &&& 0x01FFF07F := by
  have zero := getLsbD_zero_of_even even
  refine ⟨?_, ?_, ?_⟩
  · refine Eq.trans (congrArg (BitVec.signExtend 32) ?_) (Word.signExtend_of_range v
      (show 1 + 1 + 6 + 4 + 1 ≤ 32 by decide) (by omega) (by omega))
    apply BitVec.eq_of_getLsbD_eq
    intro i below
    simp only [BitVec.getLsbD_append, BitVec.getLsbD_extractLsb']
    interval_cases i <;> simp [encodeBImm]
    simpa using zero
  all_goals
    apply BitVec.eq_of_getLsbD_eq
    intro i below
    interval_cases i <;> simp [encodeBImm]

theorem toInt_signExtend_bounds {n : Nat} (v : BitVec n) (narrow : n ≤ 21) :
    -2 ^ 20 ≤ (v.signExtend 32).toInt ∧ (v.signExtend 32).toInt < 2 ^ 20 := by
  rw [BitVec.toInt_signExtend_of_le (by omega)]
  have small : (2 : Int) ^ (n - 1) ≤ 2 ^ 20 :=
    pow_le_pow_right₀ (by decide) (by omega)
  have low := BitVec.le_toInt v
  have high := @BitVec.toInt_lt n v
  omega

theorem Encoding.imm_bounds {e : Encoding} {imm : BitVec 32} (jumps : e.imm? = some imm) :
    -2 ^ 20 ≤ imm.toInt ∧ imm.toInt < 2 ^ 20 := by
  cases e with
  | half h short =>
    simp only [imm?] at jumps
    split at jumps <;> cases jumps <;> exact toInt_signExtend_bounds _ (by decide)
  | word w long =>
    simp only [imm?] at jumps
    split at jumps <;> cases jumps <;> exact toInt_signExtend_bounds _ (by decide)

/-! ## Terminators -/

theorem isTerminator_reserveIfReservedReg {inst : Inst} (ends : isTerminator inst) :
    isTerminator (reserveIfReservedReg inst) := by
  unfold reserveIfReservedReg
  split
  · rfl
  · exact ends

theorem fields_of_opcode {w : BitVec 32} {op : BitVec 7} (opcode : w.extractLsb' 0 7 = op) :
    lengthBits w = op.extractLsb' 0 2 ∧ major w = op.extractLsb' 2 5 := by
  rw [← opcode]
  constructor
  · rw [lengthBits]
    ext i
    grind
  · rw [major]
    ext i
    grind

namespace Encoding

theorem isTerminator_decode32 {w : BitVec 32} (ends : (classifyWord 0 w).1) :
    isTerminator (decode32 w) := by
  simp only [classifyWord] at ends
  split at ends <;> rename_i opcode
  case h_5 => exact nomatch ends
  all_goals
    obtain ⟨length, op⟩ := fields_of_opcode opcode
    simp only [BitVec.reduceExtractLsb'] at length op
    simp only [decode32, length, op, ne_eq, not_true_eq_false, if_false]
  case h_1 => rfl
  case h_2 => split <;> rfl
  case h_3 => cases decodeBranch (funct3 w) <;> rfl
  case h_4 =>
    unfold decodeCustom0
    split <;> rfl

theorem isTerminator_decompress {h : BitVec 16} (ends : (classifyHalf 0 h).1) :
    isTerminator (decompress h) := by
  simp only [classifyHalf] at ends
  split at ends
  next zero =>
    rw [zero]
    rfl
  split at ends
  next jump =>
    simp only [decompress, decompressQ1, jump]
    rfl
  split at ends
  next branch =>
    obtain ⟨op, f3 | f3⟩ := branch
    · simp only [decompress, decompressQ1, op, f3]
      rfl
    · simp only [decompress, decompressQ1, op, f3]
      rfl
  split at ends
  next register =>
    simp only [decide_eq_true_iff] at ends
    simp only [decompress, decompressQ2, register]
    split
    · rfl
    · rw [if_pos ends.1, if_pos ends.1]
      split <;> rfl
  next => exact nomatch ends

/-- What the linker takes for the end of a block ends a block in the executor. -/
theorem isTerminator_of_terminates {e : Encoding} (ends : e.terminates) : isTerminator e.inst := by
  cases e with
  | half h short => exact isTerminator_reserveIfReservedReg (isTerminator_decompress ends)
  | word w long => exact isTerminator_reserveIfReservedReg (isTerminator_decode32 ends)

theorem classifyHalf_eq (p : Nat) (h : BitVec 16) (short : h.extractLsb' 0 2 ≠ 0b11#2) :
    classifyHalf p h = ((half h short).terminates, (half h short).target p) := by
  by_cases zero : h = 0
  · subst zero
    rfl
  simp only [terminates, target, imm?, classifyHalf, zero, if_false]
  split
  next jump => simp [jump]
  split
  next branch =>
    obtain ⟨op, f3 | f3⟩ := branch
    · simp [op, f3]
    · simp [op, f3]
  next noJump noBranch =>
    have none : (match h.extractLsb' 0 2, cFunct3 h with
        | 0b01#2, 0b101#3 => some (decodeCjImm h)
        | 0b01#2, 0b110#3 | 0b01#2, 0b111#3 => some (decodeCbImm h)
        | _, _ => none) = none := by
      split
      next op f3 => exact absurd ⟨op, f3⟩ noJump
      next op f3 => exact absurd ⟨op, .inl f3⟩ noBranch
      next op f3 => exact absurd ⟨op, .inr f3⟩ noBranch
      next => rfl
    rw [none]
    split <;> rfl

theorem classifyWord_eq (p : Nat) (w : BitVec 32) (long : w.extractLsb' 0 2 = 0b11#2) :
    classifyWord p w = ((word w long).terminates, (word w long).target p) := by
  simp only [terminates, target, imm?, classifyWord]
  split <;> rename_i opcode <;> simp [opcode]

theorem terminates_of_target {e : Encoding} {p : Nat} {t : Int} (jumps : e.target p = some t) :
    e.terminates := by
  cases e with
  | half h short =>
    have ends : (classifyHalf p h).2 = some t → (classifyHalf p h).1 := by
      simp only [classifyHalf]
      (repeat' split) <;> simp
    rw [classifyHalf_eq p h short] at ends
    exact ends jumps
  | word w long =>
    have ends : (classifyWord p w).2 = some t → (classifyWord p w).1 := by
      simp only [classifyWord]
      split <;> simp
    rw [classifyWord_eq p w long] at ends
    exact ends jumps

end Encoding

/-! ## Relocation -/

/-- One instruction at its new offset: jumps follow their targets, and nothing else changes. -/
structure Relocated (map : Nat → Option Nat) (p p' : Nat) (e e' : Encoding) : Prop where
  size : e'.size = e.size
  fixed : e'.fixedBits = e.fixedBits
  other : e.target p = none → e' = e
  jump : ∀ t, e.target p = some t → ∃ q q' : Nat, t = q ∧ map q = some q' ∧
    e'.target p' = some (q' : Int)

/-- The offsets around an instruction are close enough to its new one for the linker's casts. -/
structure Reach (map : Nat → Option Nat) (p p' : Nat) (e : Encoding) : Prop where
  onBoundary : ∀ t, e.target p = some t → ∃ q q' : Nat, t = q ∧ map q = some q'
  near : ∀ q q' : Nat, e.target p = some (q : Int) → map q = some q' →
    -2 ^ 31 ≤ (q' : Int) - p' ∧ (q' : Int) - p' < 2 ^ 31
  even : ∀ q q' : Nat, map q = some q' → ((q' : Int) - p') % 2 = 0

theorem Relocated.isTerminator {map : Nat → Option Nat} {p p' : Nat} {e e' : Encoding}
    (relocated : Relocated map p p' e e') (ends : e.terminates) : isTerminator e'.inst := by
  cases jumps : e.target p with
  | none => exact relocated.other jumps ▸ Encoding.isTerminator_of_terminates ends
  | some t =>
    obtain ⟨q, q', -, -, jumps'⟩ := relocated.jump t jumps
    exact Encoding.isTerminator_of_terminates (Encoding.terminates_of_target jumps')

theorem asUsize_natCast (q : Nat) : asUsize q = q := by
  rw [asUsize, if_neg (by omega), Int.toNat_natCast]

theorem toInt_ofInt_of_near {x : Int} (near : -2 ^ 31 ≤ x ∧ x < 2 ^ 31) :
    (BitVec.ofInt 32 x).toInt = x := by
  rw [BitVec.toInt_ofInt]
  apply Int.bmod_eq_of_le <;> omega

theorem ofInt_and_one_of_even {x : Int} (even : x % 2 = 0) : BitVec.ofInt 32 x &&& 1 = 0 := by
  apply BitVec.eq_of_toNat_eq
  have low : (BitVec.ofInt 32 x &&& 1).toNat = (BitVec.ofInt 32 x).toNat % 2 := by
    rw [BitVec.toNat_and]
    exact Nat.and_one_is_mod _
  rw [low, BitVec.toNat_ofInt]
  simp only [BitVec.toNat_zero, BitVec.ofNat_eq_ofNat]
  omega

section

variable {offsetMap : SortedMap Nat Nat} {p p' : Nat}

/-- A compressed jump keeps its immediate where that still fits, or gets the new one. -/
theorem relocateCompressed_eq_pure {name range : String} {decodeImm : BitVec 16 → BitVec 32}
    {encodeImm : BitVec 16 → BitVec 32 → Option (BitVec 16)} {h h' : BitVec 16} {q q' : Nat}
    (old : (p + (decodeImm h).toInt : Int) = q) (new : offsetMap.lookup q = some q')
    (ran : relocateCompressed name range decodeImm encodeImm offsetMap p p' h = pure h') :
    h' = h ∧ (q' : Int) = p' + (decodeImm h).toInt ∨
      encodeImm h (BitVec.ofInt 32 (q' - p')) = some h' := by
  simp only [relocateCompressed, old, asUsize_natCast, new] at ran
  split at ran
  next =>
    split at ran
    next encoded => exact .inr (Attempt.pure_inj.mp ran ▸ encoded)
    next => exact absurd ran Attempt.throw_ne_pure
  next same => exact .inl ⟨(Attempt.pure_inj.mp ran).symm, by omega⟩

theorem target_half {h h' : BitVec 16} {decodeImm : BitVec 16 → BitVec 32}
    {encodeImm : BitVec 16 → BitVec 32 → Option (BitVec 16)} {q' : Nat}
    (law : ∀ {v}, encodeImm h v = some h' → decodeImm h' = v)
    (near : -2 ^ 31 ≤ (q' : Int) - p' ∧ (q' : Int) - p' < 2 ^ 31)
    (new : h' = h ∧ (q' : Int) = p' + (decodeImm h).toInt ∨
      encodeImm h (BitVec.ofInt 32 (q' - p')) = some h') :
    (p' + (decodeImm h').toInt : Int) = q' := by
  rcases new with ⟨rfl, fits⟩ | encoded
  · exact fits.symm
  · rw [law encoded, toInt_ofInt_of_near near]
    omega

/-- A 4-byte jump whose target moved gets the new immediate. -/
theorem relocateFull_eq_pure {name range : String} {bits : Nat} {decodeImm : BitVec 32 → BitVec 32}
    {encodeImm : BitVec 32 → BitVec 32 → BitVec 32} {w w' : BitVec 32} {q q' : Nat}
    (old : (p + (decodeImm w).toInt : Int) = q) (new : offsetMap.lookup q = some q')
    (ran : relocateFull name range bits decodeImm encodeImm offsetMap p p' w = pure w') :
    (-2 ^ bits ≤ (q' : Int) - p' ∧ (q' : Int) - p' < 2 ^ bits) ∧
      w' = encodeImm w (BitVec.ofInt 32 (q' - p')) := by
  simp only [relocateFull, old, asUsize_natCast, new] at ran
  obtain ⟨fits, ran⟩ := Attempt.ite_throw_eq_pure.mp ran
  exact ⟨not_not.mp fits, (Attempt.pure_inj.mp ran).symm⟩

theorem relocated_of_jump {map : Nat → Option Nat} {e e' : Encoding} {q q' : Nat}
    (size : e'.size = e.size) (fixed : e'.fixedBits = e.fixedBits)
    (old : e.target p = some (q : Int)) (moved : map q = some q')
    (new : e'.target p' = some (q' : Int)) : Relocated map p p' e e' where
  size := size
  fixed := fixed
  other none := absurd (old.symm.trans none) (by simp)
  jump t some := ⟨q, q', Option.some.inj (some.symm.trans old), moved, new⟩

theorem relocated_refl {map : Nat → Option Nat} {e : Encoding} (other : e.target p = none) :
    Relocated map p p' e e where
  size := rfl
  fixed := rfl
  other _ := rfl
  jump t some := absurd (other.symm.trans some) (by simp)

/-- The compressed jumps of one kind, told by the quadrant and the function field. -/
structure CompressedJump (kind : BitVec 2 → BitVec 3 → Prop) (decodeImm : BitVec 16 → BitVec 32)
    (encodeImm : BitVec 16 → BitVec 32 → Option (BitVec 16)) (mask : BitVec 16) : Prop where
  imm : ∀ {h short}, kind (h.extractLsb' 0 2) (cFunct3 h) →
    (Encoding.half h short).imm? = some (decodeImm h)
  bits : ∀ {h short}, kind (h.extractLsb' 0 2) (cFunct3 h) →
    (Encoding.half h short).fixedBits = (h &&& mask).zeroExtend 32
  law : ∀ {h v h'}, encodeImm h v = some h' → decodeImm h' = v ∧
    h'.extractLsb' 0 2 = h.extractLsb' 0 2 ∧ cFunct3 h' = cFunct3 h ∧ h' &&& mask = h &&& mask

theorem compressedJump_cj : CompressedJump (fun op f3 => op = 0b01#2 ∧ f3 = 0b101#3) decodeCjImm
    encodeCjImm 0b1110000000000011 where
  imm kind := by simp only [Encoding.imm?, kind]
  bits kind := by simp only [Encoding.fixedBits, kind]
  law := decodeCjImm_encodeCjImm

theorem compressedJump_cb : CompressedJump
    (fun op f3 => op = 0b01#2 ∧ (f3 = 0b110#3 ∨ f3 = 0b111#3)) decodeCbImm encodeCbImm
    0b1110001110000011 where
  imm kind := by obtain ⟨op, f3 | f3⟩ := kind <;> simp only [Encoding.imm?, op, f3]
  bits kind := by obtain ⟨op, f3 | f3⟩ := kind <;> simp only [Encoding.fixedBits, op, f3]
  law := decodeCbImm_encodeCbImm

theorem CompressedJump.relocated {kind : BitVec 2 → BitVec 3 → Prop}
    {decodeImm : BitVec 16 → BitVec 32}
    {encodeImm : BitVec 16 → BitVec 32 → Option (BitVec 16)} {mask : BitVec 16}
    (jump : CompressedJump kind decodeImm encodeImm mask) {name range : String} {h h' : BitVec 16}
    {short : h.extractLsb' 0 2 ≠ 0b11#2} (isKind : kind (h.extractLsb' 0 2) (cFunct3 h))
    (reach : Reach offsetMap.lookup p p' (.half h short))
    (ran : relocateCompressed name range decodeImm encodeImm offsetMap p p' h = pure h') :
    ∃ short', Relocated offsetMap.lookup p p' (.half h short) (.half h' short') := by
  have target : (Encoding.half h short).target p = some (p + (decodeImm h).toInt) := by
    rw [Encoding.target, jump.imm isKind]
    rfl
  obtain ⟨q, q', old, moved⟩ := reach.onBoundary _ target
  have new := relocateCompressed_eq_pure old moved ran
  have kept : h'.extractLsb' 0 2 = h.extractLsb' 0 2 ∧ cFunct3 h' = cFunct3 h ∧
      h' &&& mask = h &&& mask := by
    rcases new with ⟨rfl, -⟩ | encoded
    · exact ⟨rfl, rfl, rfl⟩
    · exact (jump.law encoded).2
  have isKind' : kind (h'.extractLsb' 0 2) (cFunct3 h') := by rwa [kept.1, kept.2.1]
  rw [old] at target
  refine ⟨kept.1 ▸ short, relocated_of_jump rfl ?_ target moved ?_⟩
  · rw [jump.bits isKind, jump.bits isKind', kept.2.2]
  · rw [Encoding.target, jump.imm isKind', Option.map_some, target_half
      (fun encoded => (jump.law encoded).1) (reach.near q q' target moved) new]

theorem relocateHalf_eq_pure {h h' : BitVec 16} {short : h.extractLsb' 0 2 ≠ 0b11#2}
    (reach : Reach offsetMap.lookup p p' (.half h short))
    (ran : relocateHalf offsetMap p p' h = pure h') :
    ∃ short', Relocated offsetMap.lookup p p' (.half h short) (.half h' short') := by
  simp only [relocateHalf] at ran
  split at ran
  next kind => exact compressedJump_cj.relocated kind reach ran
  split at ran
  next kind => exact compressedJump_cb.relocated kind reach ran
  next noJump noBranch =>
    cases Attempt.pure_inj.mp ran
    refine ⟨short, relocated_refl ?_⟩
    simp only [Encoding.target, Encoding.imm?]
    split
    next op f3 => exact absurd ⟨op, f3⟩ noJump
    next op f3 => exact absurd ⟨op, .inl f3⟩ noBranch
    next op f3 => exact absurd ⟨op, .inr f3⟩ noBranch
    next => rfl

/-- The 4-byte jumps of one opcode, with immediates of `bits + 1` bits. -/
structure FullJump (opcode : BitVec 7) (bits : Nat) (decodeImm : BitVec 32 → BitVec 32)
    (encodeImm : BitVec 32 → BitVec 32 → BitVec 32) (mask : BitVec 32) : Prop where
  long : opcode.extractLsb' 0 2 = 0b11#2
  imm : ∀ {w long}, w.extractLsb' 0 7 = opcode → (Encoding.word w long).imm? = some (decodeImm w)
  fixed : ∀ {w long}, w.extractLsb' 0 7 = opcode → (Encoding.word w long).fixedBits = w &&& mask
  law : ∀ {w v}, w.extractLsb' 0 7 = opcode → -2 ^ bits ≤ v.toInt ∧ v.toInt < 2 ^ bits →
    v &&& 1 = 0 → decodeImm (encodeImm w v) = v ∧
      (encodeImm w v).extractLsb' 0 7 = opcode ∧ encodeImm w v &&& mask = w &&& mask

theorem fullJump_jal : FullJump 0b1101111#7 20 immJ encodeJImm 0x00000FFF where
  long := rfl
  imm opcode := by simp only [Encoding.imm?, opcode]
  fixed opcode := by simp only [Encoding.fixedBits, opcode]
  law := immJ_encodeJImm

theorem fullJump_branch : FullJump 0b1100011#7 12 immB encodeBImm 0x01FFF07F where
  long := rfl
  imm opcode := by simp only [Encoding.imm?, opcode]
  fixed opcode := by simp only [Encoding.fixedBits, opcode]
  law opcode range even := by
    obtain ⟨imm, same, bits⟩ := immB_encodeBImm range even
    exact ⟨imm, same.trans opcode, bits⟩

theorem FullJump.relocated {opcode : BitVec 7} {bits : Nat} {decodeImm : BitVec 32 → BitVec 32}
    {encodeImm : BitVec 32 → BitVec 32 → BitVec 32} {mask : BitVec 32}
    (jump : FullJump opcode bits decodeImm encodeImm mask) {name range : String} {w w' : BitVec 32}
    {long : w.extractLsb' 0 2 = 0b11#2} (isKind : w.extractLsb' 0 7 = opcode)
    (reach : Reach offsetMap.lookup p p' (.word w long))
    (ran : relocateFull name range bits decodeImm encodeImm offsetMap p p' w = pure w') :
    ∃ long', Relocated offsetMap.lookup p p' (.word w long) (.word w' long') := by
  have target : (Encoding.word w long).target p = some (p + (decodeImm w).toInt) := by
    rw [Encoding.target, jump.imm isKind]
    rfl
  obtain ⟨q, q', old, moved⟩ := reach.onBoundary _ target
  obtain ⟨fits, rfl⟩ := relocateFull_eq_pure old moved ran
  rw [old] at target
  have same := toInt_ofInt_of_near (reach.near q q' target moved)
  obtain ⟨imm, isKind', masked⟩ := jump.law isKind (same.symm ▸ fits)
    (ofInt_and_one_of_even (reach.even q q' moved))
  have long' : (encodeImm w (BitVec.ofInt 32 (q' - p'))).extractLsb' 0 2 = 0b11#2 :=
    (fields_of_opcode isKind').1.trans jump.long
  refine ⟨long', relocated_of_jump rfl ?_ target moved ?_⟩
  · rw [jump.fixed isKind, jump.fixed isKind', masked]
  · rw [Encoding.target, jump.imm isKind', Option.map_some, imm, same]
    congr 1
    omega

theorem relocateWord_eq_pure {w w' : BitVec 32} {long : w.extractLsb' 0 2 = 0b11#2}
    (reach : Reach offsetMap.lookup p p' (.word w long))
    (ran : relocateWord offsetMap p p' w = pure w') :
    ∃ long', Relocated offsetMap.lookup p p' (.word w long) (.word w' long') := by
  unfold relocateWord at ran
  split at ran
  next opcode => exact fullJump_jal.relocated opcode reach ran
  next opcode => exact fullJump_branch.relocated opcode reach ran
  next noJump noBranch =>
    cases Attempt.pure_inj.mp ran
    refine ⟨long, relocated_refl ?_⟩
    simp only [Encoding.target, Encoding.imm?, Option.map_none]

end

end Jar.Linker
