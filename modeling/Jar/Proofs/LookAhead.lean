import Mathlib
import Jar.Proofs.AluLowering
import Jar.Proofs.Expand
import Jar.Proofs.WordFields

/-! The instruction that a dispatcher finds behind the one it compiles. -/

namespace Jar.Recompiler

open X86 Lower

/-- A masked comparison fixes every field that the mask covers. -/
theorem extract_masked {k n start : Nat} {w m v : BitVec k} (masked : w &&& m = v)
    (covered : m.extractLsb' start n = BitVec.allOnes n) :
    w.extractLsb' start n = v.extractLsb' start n := by
  rw [← masked, BitVec.extractLsb'_and, covered, BitVec.and_allOnes]

theorem masked_fields {w v : BitVec 32} (masked : w &&& 0xFE00707F#32 = v) :
    lengthBits w = lengthBits v ∧ major w = major v ∧ funct3 w = funct3 v ∧
      funct7 w = funct7 v :=
  ⟨extract_masked masked rfl, extract_masked masked rfl, extract_masked masked rfl,
    extract_masked masked rfl⟩

theorem decode_word {rest : List Byte} {w : BitVec 32} (fetched : word? rest = some w)
    (length : lengthBits w = 0b11#2) : decode rest = some (reserveIfReservedReg (decode32 w), 4) := by
  unfold word? at fetched
  split at fetched
  · cases fetched
    next b0 b1 b2 b3 tail =>
    have low : b0.extractLsb' 0 2 = 0b11#2 := by
      simpa (disch := omega) only [lengthBits, BitVec.extractLsb'_append_eq_of_add_le] using length
    simp [decode, low]
  · cases fetched

theorem peekWord_decode32 {w : BitVec 32} {t : Trailer} (found : peekWord w = some t) :
    lengthBits w = 0b11#2 ∧ decode32 w = .opReg t.op.regOp t.rd t.rs1 t.rs2 ∧ t.consumed = 4 ∧
      t.op.regOp.kind = .add := by
  unfold peekWord at found
  split at found
  case h_5 => cases found
  all_goals
    next masked =>
    cases found
    obtain ⟨length, opcode, f3, f7⟩ := masked_fields masked
    refine ⟨length, ?_, rfl, rfl⟩
    simp only [decode32, length, opcode, f3, f7]
    rfl

theorem peekHalf_decompress {h : BitVec 16} {t : Trailer} (found : peekHalf h = some t) :
    h.extractLsb' 0 2 ≠ 0b11#2 ∧ decompress h = .opReg t.op.regOp t.rd t.rs1 t.rs2 ∧
      t.consumed = 2 ∧ t.op.regOp.kind = .add := by
  unfold peekHalf at found
  split at found
  · next masked =>
    have quadrant : h.extractLsb' 0 2 = 0b10#2 := extract_masked masked rfl
    have group : cFunct3 h = 0b100#3 := extract_masked masked rfl
    have link : h.extractLsb' 12 1 = 1#1 := extract_masked masked rfl
    simp only at found
    split at found
    · next named =>
      cases found
      refine ⟨by simp [quadrant], ?_, rfl, rfl⟩
      simp only [decompress, quadrant, decompressQ2, group, link, named.1, named.2, if_false]
      rfl
    · cases found
  · split at found
    · next masked =>
      have quadrant : h.extractLsb' 0 2 = 0b01#2 := extract_masked masked rfl
      have group : cFunct3 h = 0b100#3 := extract_masked masked rfl
      have logic : h.extractLsb' 10 2 = 0b11#2 := extract_masked masked rfl
      have wide : h.extractLsb' 12 1 = 0#1 := extract_masked masked rfl
      simp only at found
      split at found
      case h_4 => cases found
      all_goals
        next selected =>
        cases found
        refine ⟨by simp [quadrant], ?_, rfl, rfl⟩
        simp only [decompress, quadrant, decompressQ1, group, decompressQ1MiscAlu, logic, wide,
          selected]
        rfl
    · cases found

theorem peekAluRrTrailer_decode {rest : List Byte} {t : Trailer}
    (found : peekAluRrTrailer rest = some t) :
    decode rest = some (reserveIfReservedReg (.opReg t.op.regOp t.rd t.rs1 t.rs2), t.consumed) ∧
      t.op.regOp.kind = .add := by
  unfold peekAluRrTrailer at found
  split at found
  · next b0 b1 tail =>
    split at found
    · obtain ⟨w, fetched, found⟩ := Option.bind_eq_some_iff.mp found
      obtain ⟨length, decoded, consumed, kind⟩ := peekWord_decode32 found
      exact ⟨by rw [decode_word fetched length, decoded, consumed], kind⟩
    · next low =>
      obtain ⟨quadrant, decoded, consumed, kind⟩ := peekHalf_decompress found
      exact ⟨by simp [decode, low, decoded, consumed], kind⟩
  · cases found

/-! ## Trailers -/

section

variable {rest : List Byte}

theorem reserveIfReservedReg_opReg {op : RegOp} {rd rs1 rs2 : RegIdx}
    (dest : regIsReserved rd = false) (source1 : regIsReserved rs1 = false)
    (source2 : regIsReserved rs2 = false) :
    reserveIfReservedReg (.opReg op rd rs1 rs2) = .opReg op rd rs1 rs2 := by
  simp [reserveIfReservedReg, Inst.usesReservedReg, dest, source1, source2]

/-- The operation that is fused with a load reads the loaded register, and names no reserved one. -/
theorem of_loadTrailer {rd rs1 : RegIdx} {t : Trailer} (found : loadTrailer rd rs1 rest = some t) :
    peekAluRrTrailer rest = some t ∧ rd ≠ 0 ∧ t.rd ≠ 0 ∧ (t.rs1 = rd ∨ t.rs2 = rd) ∧
      regIsReserved t.rd = false ∧ regIsReserved t.rs1 = false ∧ regIsReserved t.rs2 = false := by
  unfold loadTrailer at found
  split at found
  · next loads =>
    obtain ⟨peeked, accepted⟩ := Option.filter_eq_some_iff.mp found
    simp only [decide_eq_true_eq, Bool.not_eq_true'] at accepted
    obtain ⟨nonzero, dest, reads, source1, source2⟩ := accepted
    have zero : regIsReserved 0 = false := rfl
    exact ⟨peeked, loads.1, nonzero, reads, dest, source1.elim (· ▸ zero) id,
      source2.elim (· ▸ zero) id⟩
  · cases found

theorem loadTrailer_decode {rd rs1 : RegIdx} {t : Trailer}
    (found : loadTrailer rd rs1 rest = some t) :
    decode rest = some (.opReg t.op.regOp t.rd t.rs1 t.rs2, t.consumed) ∧
      t.op.regOp.kind = .add := by
  obtain ⟨peeked, -, -, -, dest, source1, source2⟩ := of_loadTrailer found
  have decoded := peekAluRrTrailer_decode peeked
  rwa [reserveIfReservedReg_opReg dest source1 source2] at decoded

theorem of_mulSlots {rd rs1 rs2 hi : RegIdx} {lo' hi' a b : HostSlot}
    (slots : mulSlots rd rs1 rs2 hi = some (lo', hi', a, b)) :
    rvSlot rd = some lo' ∧ rvSlot hi = some hi' ∧ rvSlot rs1 = some a ∧ rvSlot rs2 = some b := by
  unfold mulSlots at slots
  obtain ⟨_, low, slots⟩ := Option.bind_eq_some_iff.mp slots
  obtain ⟨_, high, slots⟩ := Option.bind_eq_some_iff.mp slots
  obtain ⟨_, source1, slots⟩ := Option.bind_eq_some_iff.mp slots
  obtain ⟨_, source2, slots⟩ := Option.bind_eq_some_iff.mp slots
  cases slots
  exact ⟨low, high, source1, source2⟩

/-- The high product that a fusion consumes is the instruction that follows. -/
theorem mulTrailer_decode {rd rs1 rs2 hi : RegIdx} {signed : Bool} {lo' hi' a b : HostSlot}
    (found : mulTrailer rd rs1 rs2 rest = some (signed, hi))
    (slots : mulSlots rd rs1 rs2 hi = some (lo', hi', a, b)) :
    decode rest = some (.opReg (if signed then .mulh else .mulhu) hi rs1 rs2, 4) ∧ hi ≠ rd := by
  obtain ⟨-, high, slot1, slot2⟩ := of_mulSlots slots
  rw [← reserveIfReservedReg_opReg (of_rvSlot high).2.1 (of_rvSlot slot1).2.1 (of_rvSlot slot2).2.1]
  unfold mulTrailer at found
  obtain ⟨w, fetched, found⟩ := Option.bind_eq_some_iff.mp found
  obtain ⟨signed', selected, found⟩ := Option.bind_eq_some_iff.mp found
  split at found
  · cases found
  · next same =>
    cases found
    simp only [ne_eq, not_or, not_not] at same
    obtain ⟨source1, source2, distinct⟩ := same
    refine ⟨?_, distinct⟩
    unfold peekMulHigh at selected
    split at selected
    case h_3 => cases selected
    all_goals
      next masked =>
      cases selected
      obtain ⟨length, opcode, f3, f7⟩ := masked_fields masked
      rw [decode_word fetched length]
      simp only [decode32, length, opcode, f3, f7, source1, source2]
      rfl

/-- The addition that is fused with a `lui` adds another operand to the register. -/
theorem of_luiTrailer {rd other : RegIdx} {t : Trailer}
    (found : luiTrailer rd rest = some (t, other)) :
    peekAluRrTrailer rest = some t ∧ rd ≠ 0 ∧ t.op = .add ∧ t.rd = rd ∧
      (t.rs1 = rd ∧ t.rs2 = other ∨ t.rs1 = other ∧ t.rs2 = rd) ∧
      regIsReserved rd = false ∧ regIsReserved other = false := by
  unfold luiTrailer at found
  obtain ⟨t', peeked, found⟩ := Option.bind_eq_some_iff.mp found
  obtain ⟨other', chosen, found⟩ := Option.bind_eq_some_iff.mp found
  split at found
  · next accepted =>
    cases found
    simp only [Bool.not_eq_true'] at accepted
    obtain ⟨nonzero, dest, op, same, source⟩ := accepted
    have zero : regIsReserved 0 = false := rfl
    refine ⟨peeked, nonzero, op, same, ?_, dest, source.elim (· ▸ zero) id⟩
    unfold Trailer.other at chosen
    grind
  · cases found

theorem luiTrailer_decode {rd other : RegIdx} {t : Trailer}
    (found : luiTrailer rd rest = some (t, other)) :
    decode rest = some (.opReg t.op.regOp t.rd t.rs1 t.rs2, t.consumed) ∧
      t.op.regOp.kind = .add := by
  obtain ⟨peeked, -, -, same, operands, dest, source⟩ := of_luiTrailer found
  have decoded := peekAluRrTrailer_decode peeked
  rwa [reserveIfReservedReg_opReg (same ▸ dest)
    (by rcases operands with ⟨first, -⟩ | ⟨first, -⟩ <;> rw [first] <;> assumption)
    (by rcases operands with ⟨-, second⟩ | ⟨-, second⟩ <;> rw [second] <;> assumption)] at decoded

end

end Jar.Recompiler
