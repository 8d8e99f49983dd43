import Jar.Ssz.Bits

/-! Decoding bit lists is the inverse of encoding them. -/

namespace Jar.Ssz

/-! ## Packed bits -/

def bitAt (bytes : List Byte) (i : Nat) : Bool := (bytes.getD (i / 8) 0).getLsbD (i % 8)

/-- The least significant bit decides the test of the source. -/
theorem and_one_eq_one (byte : Byte) (k : Nat) : ((byte >>> k) &&& 1 = 1) ↔ byte.getLsbD k = true := by
  constructor
  · intro set
    simpa using congrArg (fun v : Byte => v.getLsbD 0) set
  · intro set
    ext i inside
    cases i with
    | zero => simpa using set
    | succ i => simp

theorem packedBit_eq {bytes : List Byte} {i : Nat} (inside : i / 8 < bytes.length) :
    packedBit bytes i = some (bitAt bytes i) := by
  rw [packedBit, List.getElem?_eq_getElem inside, Option.map_some, bitAt,
    List.getD_eq_getElem?_getD, List.getElem?_eq_getElem inside, Option.getD_some]
  simp only [and_one_eq_one, Bool.decide_eq_true]

theorem eq_of_bitAt {xs ys : List Byte} (lengths : xs.length = ys.length)
    (same : ∀ i, bitAt xs i = bitAt ys i) : xs = ys := by
  refine List.ext_getElem lengths fun k inside inside' => ?_
  refine BitVec.eq_of_getLsbD_eq fun o small => ?_
  have bits := same (8 * k + o)
  have byte : (8 * k + o) / 8 = k := by omega
  have offset : (8 * k + o) % 8 = o := by omega
  rw [bitAt, bitAt, byte, offset, List.getD_eq_getElem?_getD, List.getD_eq_getElem?_getD,
    List.getElem?_eq_getElem inside, List.getElem?_eq_getElem inside'] at bits
  exact bits

theorem setPackedBit_spec {bytes : List Byte} {i : Nat} (inside : i / 8 < bytes.length) :
    ∃ bytes', setPackedBit bytes i = some bytes' ∧ bytes'.length = bytes.length ∧
      ∀ j, bitAt bytes' j = (bitAt bytes j || decide (j = i)) := by
  refine ⟨_, if_pos inside, List.length_modify _ _ _, fun j => ?_⟩
  unfold bitAt
  rw [List.getD_eq_getElem?_getD, List.getElem?_modify, List.getD_eq_getElem?_getD]
  by_cases byte : i / 8 = j / 8
  · have within : j / 8 < bytes.length := byte ▸ inside
    simp only [List.getElem?_eq_getElem within, byte, if_true, Option.map_eq_map, Option.map_some,
      Option.getD_some, BitVec.getLsbD_or]
    congr 1
    -- Within the byte the bits are told apart by their offsets.
    rw [BitVec.getLsbD_shiftLeft, BitVec.getLsbD_one]
    have small : j % 8 < 8 := Nat.mod_lt _ (by decide)
    simp only [small, decide_true, Bool.true_and]
    by_cases same : j = i
    · subst same
      simp
    · have offsets : j % 8 < i % 8 ∨ i % 8 < j % 8 := by omega
      rcases offsets with less | more
      · simp [less, same]
      · have apart : ¬ j % 8 - i % 8 = 0 := by omega
        simp [apart, same]
  · have other : ¬ j = i := fun same => byte (same ▸ rfl)
    simp [byte, other]

theorem packBits_spec {source : Nat → Option Bool} {bit : Nat → Bool} {count : Nat} {buf : List Byte}
    (reads : ∀ i < count, source i = some (bit i)) (fits : count ≤ 8 * buf.length) :
    ∃ buf', packBits source count buf = some buf' ∧ buf'.length = buf.length ∧
      ∀ j, bitAt buf' j = (bitAt buf j || (decide (j < count) && bit j)) := by
  induction count with
  | zero => exact ⟨buf, rfl, rfl, by simp⟩
  | succ count ih =>
    obtain ⟨before, packed, length, bits⟩ := ih (fun i below => reads i (by omega)) (by omega)
    have step : packBits source (count + 1) buf =
        (if bit count then setPackedBit before count else some before) := by
      unfold packBits at packed ⊢
      rw [List.range_succ, List.foldlM_append, packed, Option.bind_eq_bind, Option.bind_some]
      simp [reads count (Nat.lt_succ_self count)]
    rw [step]
    cases set : bit count with
    | false =>
      refine ⟨before, rfl, length, fun j => (bits j).trans ?_⟩
      congr 1
      by_cases last : j = count
      · subst last
        simp [set]
      · have same : j < count ↔ j < count + 1 := by omega
        simp only [same]
    | true =>
      obtain ⟨after, written, length', bits'⟩ :=
        @setPackedBit_spec before count (by omega)
      refine ⟨after, written, length'.trans length, fun j => ?_⟩
      rw [bits', bits, Bool.or_assoc]
      congr 1
      by_cases last : j = count
      · subst last
        simp [set]
      · have same : j < count ↔ j < count + 1 := by omega
        simp only [same, last, decide_false, Bool.or_false]

theorem bitAt_replicate (n i : Nat) : bitAt (List.replicate n 0) i = false := by
  rw [bitAt, List.getD_eq_getElem?_getD, List.getElem?_replicate]
  split <;> exact BitVec.getLsbD_zero

theorem bitAt_of_le {bytes : List Byte} {i : Nat} (behind : bytes.length ≤ i / 8) :
    bitAt bytes i = false := by
  rw [bitAt, List.getD_eq_getElem?_getD, List.getElem?_eq_none behind]
  exact BitVec.getLsbD_zero

namespace Bitlist

/-- As few bytes as the bits need, with nothing behind the last bit. -/
structure Canonical (list : Bitlist) : Prop where
  length : list.bytes.length = (list.bitLen + 7) / 8
  clear : ∀ i, list.bitLen ≤ i → bitAt list.bytes i = false
  small : list.bitLen + 1 < 2 ^ 64

/-- The bits of a list on the wire: its own and the sentinel. -/
def wireBit (list : Bitlist) (i : Nat) : Bool := bitAt list.bytes i || decide (i = list.bitLen)

theorem eq_of_wireBit {list list' : Bitlist} (canonical : list.Canonical)
    (canonical' : list'.Canonical) (same : ∀ i, list.wireBit i = list'.wireBit i) : list = list' := by
  -- The sentinel is the last bit that is set.
  have le {a b : Bitlist} (canonical : b.Canonical) (same : ∀ i, a.wireBit i = b.wireBit i) :
      a.bitLen ≤ b.bitLen := by
    by_contra beyond
    have set := same a.bitLen
    have clear := canonical.clear a.bitLen (by omega)
    have other : ¬ a.bitLen = b.bitLen := by omega
    simp [wireBit, clear, other] at set
  have lengths : list.bitLen = list'.bitLen :=
    Nat.le_antisymm (le canonical' same) (le canonical fun i => (same i).symm)
  have bytes : list.bytes = list'.bytes := by
    refine eq_of_bitAt (by rw [canonical.length, canonical'.length, lengths]) fun i => ?_
    rcases Nat.lt_or_ge i list.bitLen with data | behind
    · have bits := same i
      have other : ¬ i = list'.bitLen := by omega
      simpa [wireBit, Nat.ne_of_lt data, other] using bits
    · rw [canonical.clear i behind, canonical'.clear i (lengths ▸ behind)]
  cases list
  cases list'
  cases lengths
  cases bytes
  rfl

/-! ## Encoding -/

theorem fromBits_spec {capacity : Nat} {bits : BoolSlice} {list : Bitlist}
    (built : fromBits capacity bits = pure list) :
    list.Canonical ∧ list.bitLen = bits.1.length ∧ list.bitLen ≤ capacity ∧
      ∀ i < list.bitLen, some (bitAt list.bytes i) = bits.1[i]? := by
  have slice := bits.2
  unfold fromBits at built
  split at built
  · exact absurd built Attempt.throw_ne_pure
  next within =>
    have reads (i : Nat) (inside : i < bits.1.length) : bits.1[i]? = some (bits.1.getD i false) := by
      rw [List.getD_eq_getElem?_getD, List.getElem?_eq_getElem inside, Option.getD_some]
    have room : bits.1.length ≤ 8 * (List.replicate ((bits.1.length + 7) / 8) (0 : Byte)).length := by
      rw [List.length_replicate]
      omega
    obtain ⟨bytes, packed, length, set⟩ := packBits_spec reads room
    dsimp only at built
    rw [packed] at built
    obtain rfl := Attempt.pure_inj.mp built
    rw [List.length_replicate] at length
    simp only [bitAt_replicate, Bool.false_or] at set
    refine ⟨⟨length, fun i behind => ?_, by dsimp only; omega⟩, rfl,
      by dsimp only; omega, fun i inside => ?_⟩
    · have outside : ¬ i < bits.1.length := Nat.not_lt.mpr behind
      rw [set, decide_eq_false outside, Bool.false_and]
    · rw [set, decide_eq_true inside, Bool.true_and, reads i inside]

theorem encode_spec {list : Bitlist} (canonical : list.Canonical) :
    ∃ wire, list.encode = some wire ∧ wire.length = list.bitLen / 8 + 1 ∧
      ∀ i, bitAt wire i = list.wireBit i := by
  have small := canonical.small
  have width : list.wireByteLen = list.bitLen / 8 + 1 := by
    rw [wireByteLen, Nat.mod_eq_of_lt small]
    omega
  have reads (i : Nat) (inside : i < list.bitLen) :
      packedBit list.bytes i = some (bitAt list.bytes i) := by
    refine packedBit_eq ?_
    rw [canonical.length]
    omega
  have room : list.bitLen ≤ 8 * (List.replicate (list.bitLen / 8 + 1) (0 : Byte)).length := by
    rw [List.length_replicate]
    omega
  obtain ⟨buf, packed, length, bits⟩ := packBits_spec reads room
  rw [List.length_replicate] at length
  obtain ⟨wire, written, length', bits'⟩ := @setPackedBit_spec buf list.bitLen (by omega)
  refine ⟨wire, ?_, length'.trans length, fun i => ?_⟩
  · rw [encode, width, packed]
    exact written
  · rw [bits', bits, bitAt_replicate, Bool.false_or, wireBit]
    congr 1
    rcases Nat.lt_or_ge i list.bitLen with data | behind
    · rw [decide_eq_true data, Bool.true_and]
    · rw [canonical.clear i behind, Bool.and_false]

/-! ## Decoding -/

theorem highest_spec (byte : Byte) (nonzero : byte ≠ 0) :
    7 - byte.clz.toNat < 8 ∧ byte.getLsbD (7 - byte.clz.toNat) = true ∧
      ∀ o < 8, 7 - byte.clz.toNat < o → byte.getLsbD o = false := by
  revert byte
  decide

theorem getLsbD_keepMask : ∀ s < 8, ∀ o < 8, (1#8 <<< s - 1).getLsbD o = decide (o < s) := by
  decide

/-- The length in bits that the highest bit of the last byte tells. -/
def sentinelAt (bytes : List Byte) : Nat :=
  (bytes.length - 1) * 8 + (7 - (bytes.getLastD 0).clz.toNat)

def dataBytes (bytes : List Byte) : List Byte :=
  (bytes.modify (bytes.length - 1)
    (· &&& (1#8 <<< (7 - (bytes.getLastD 0).clz.toNat) - 1))).take ((sentinelAt bytes + 7) / 8)

theorem fromSszBytes_eq_pure_iff {capacity : Nat} {bytes : ByteSlice} {list : Bitlist} :
    fromSszBytes capacity bytes.1 = pure list ↔
      bytes.1 ≠ [] ∧ bytes.1.getLastD 0 ≠ 0 ∧ sentinelAt bytes.1 ≤ capacity ∧
        list = ⟨dataBytes bytes.1, sentinelAt bytes.1⟩ := by
  obtain ⟨bytes, slice⟩ := bytes
  cases last : bytes.getLast? with
  | none =>
    obtain rfl := List.getLast?_eq_none_iff.mp last
    exact iff_of_false Attempt.throw_ne_pure fun accepted => accepted.1 rfl
  | some byte =>
    have nonempty : bytes ≠ [] := by
      rintro rfl
      cases last
    have lastD : bytes.getLastD 0 = byte := by
      rw [List.getLastD_eq_getLast?, last, Option.getD_some]
    have unwrapped : sentinelAt bytes % 2 ^ 64 = sentinelAt bytes := by
      refine Nat.mod_eq_of_lt ?_
      unfold sentinelAt
      omega
    unfold sentinelAt at unwrapped
    rw [lastD] at unwrapped
    simp only [fromSszBytes, last, lastD, sentinelAt, dataBytes, unwrapped]
    by_cases zero : byte = 0
    · rw [if_pos zero]
      exact iff_of_false Attempt.throw_ne_pure fun accepted => accepted.2.1 zero
    · rw [if_neg zero]
      by_cases long : capacity < (bytes.length - 1) * 8 + (7 - byte.clz.toNat)
      · rw [if_pos long]
        exact iff_of_false Attempt.throw_ne_pure fun accepted => Nat.not_lt.mpr accepted.2.2.1 long
      · rw [if_neg long, Attempt.pure_inj]
        exact ⟨fun same => ⟨nonempty, zero, Nat.le_of_not_lt long, same.symm⟩,
          fun accepted => accepted.2.2.2.symm⟩

theorem getD_last (bytes : List Byte) : bytes.getD (bytes.length - 1) 0 = bytes.getLastD 0 := by
  rw [List.getD_eq_getElem?_getD, ← List.getLast?_eq_getElem?, List.getLastD_eq_getLast?]

section

variable {bytes : List Byte} (nonempty : bytes ≠ []) (nonzero : bytes.getLastD 0 ≠ 0)
include nonempty nonzero

theorem bitAt_sentinel : bitAt bytes (sentinelAt bytes) = true ∧
    ∀ i, sentinelAt bytes < i → bitAt bytes i = false := by
  have length : bytes.length ≠ 0 := fun zero => nonempty (List.length_eq_zero_iff.mp zero)
  obtain ⟨small, set, above⟩ := highest_spec _ nonzero
  have byte : sentinelAt bytes / 8 = bytes.length - 1 := by unfold sentinelAt; omega
  have offset : sentinelAt bytes % 8 = 7 - (bytes.getLastD 0).clz.toNat := by unfold sentinelAt; omega
  have last := getD_last bytes
  refine ⟨by rw [bitAt, byte, offset, last]; exact set, fun i beyond => ?_⟩
  rcases Nat.lt_or_ge (i / 8) bytes.length with inside | behind
  · have here : i / 8 = bytes.length - 1 := by omega
    rw [bitAt, here, last]
    exact above _ (Nat.mod_lt _ (by decide)) (by omega)
  · exact bitAt_of_le behind

theorem bitAt_dataBytes (i : Nat) :
    bitAt (dataBytes bytes) i = (bitAt bytes i && decide (i < sentinelAt bytes)) := by
  have length : bytes.length ≠ 0 := fun zero => nonempty (List.length_eq_zero_iff.mp zero)
  obtain ⟨small, -, -⟩ := highest_spec _ nonzero
  have last := getD_last bytes
  have needed : (sentinelAt bytes + 7) / 8 =
      bytes.length - 1 + if 7 - (bytes.getLastD 0).clz.toNat = 0 then 0 else 1 := by
    unfold sentinelAt
    split <;> omega
  have byte : (dataBytes bytes).getD (i / 8) 0 =
      if i / 8 < (sentinelAt bytes + 7) / 8 then
        if bytes.length - 1 = i / 8 then
          bytes.getLastD 0 &&& (1#8 <<< (7 - (bytes.getLastD 0).clz.toNat) - 1)
        else bytes.getD (i / 8) 0
      else 0 := by
    rw [dataBytes, List.getD_eq_getElem?_getD, List.getElem?_take]
    split
    · rw [List.getElem?_modify]
      split
      next here =>
        rw [← last, here, List.getD_eq_getElem?_getD, List.getElem?_eq_getElem (by omega)]
        rfl
      next elsewhere =>
        rw [List.getD_eq_getElem?_getD]
        cases bytes[i / 8]? <;> rfl
    · rfl
  have offset : i % 8 < 8 := Nat.mod_lt _ (by decide)
  rw [bitAt, byte]
  rcases Nat.lt_trichotomy (i / 8) (bytes.length - 1) with before | here | behind
  · -- The bytes before the last one are kept.
    have data : i < sentinelAt bytes := by unfold sentinelAt; omega
    rw [if_pos (by omega), if_neg (by omega), decide_eq_true data, Bool.and_true, bitAt]
  · -- Of the last byte, the bits below the sentinel are kept.
    have below : i < sentinelAt bytes ↔ i % 8 < 7 - (bytes.getLastD 0).clz.toNat := by
      unfold sentinelAt
      omega
    rw [bitAt, here, last]
    by_cases alone : 7 - (bytes.getLastD 0).clz.toNat = 0
    · have outside : ¬ bytes.length - 1 < (sentinelAt bytes + 7) / 8 := by
        rw [needed, if_pos alone]
        omega
      have after : ¬ i < sentinelAt bytes := by omega
      rw [if_neg outside, decide_eq_false after, Bool.and_false]
      exact BitVec.getLsbD_zero
    · have inside : bytes.length - 1 < (sentinelAt bytes + 7) / 8 := by
        rw [needed, if_neg alone]
        omega
      rw [if_pos inside, if_pos rfl, BitVec.getLsbD_and, getLsbD_keepMask _ small _ offset]
      simp only [below]
  · have outside : ¬ i / 8 < (sentinelAt bytes + 7) / 8 := by
      rw [needed]
      split <;> omega
    rw [if_neg outside, bitAt_of_le (by omega : bytes.length ≤ i / 8), Bool.false_and]
    exact BitVec.getLsbD_zero

theorem length_dataBytes : (dataBytes bytes).length = (sentinelAt bytes + 7) / 8 := by
  have length : bytes.length ≠ 0 := fun zero => nonempty (List.length_eq_zero_iff.mp zero)
  obtain ⟨small, -, -⟩ := highest_spec _ nonzero
  rw [dataBytes, List.length_take, List.length_modify]
  unfold sentinelAt
  omega

end

/-- What decoding returns is canonical, and its wire bits are the bits of the input. -/
theorem fromSszBytes_spec {capacity : Nat} {bytes : ByteSlice} {list : Bitlist}
    (decoded : fromSszBytes capacity bytes.1 = pure list) :
    list.Canonical ∧ list.bitLen ≤ capacity ∧ bytes.1.length = list.bitLen / 8 + 1 ∧
      ∀ i, bitAt bytes.1 i = list.wireBit i := by
  obtain ⟨nonempty, nonzero, within, rfl⟩ := fromSszBytes_eq_pure_iff.mp decoded
  have slice := bytes.2
  have length : bytes.1.length ≠ 0 := fun zero => nonempty (List.length_eq_zero_iff.mp zero)
  obtain ⟨small, -, -⟩ := highest_spec _ nonzero
  obtain ⟨set, clear⟩ := bitAt_sentinel nonempty nonzero
  have kept := bitAt_dataBytes nonempty nonzero
  refine ⟨⟨length_dataBytes nonempty nonzero, fun i behind => ?_, ?_⟩, within, ?_, fun i => ?_⟩
  · rw [kept, decide_eq_false (Nat.not_lt.mpr behind), Bool.and_false]
  · dsimp only
    unfold sentinelAt
    omega
  · dsimp only
    unfold sentinelAt
    omega
  · rw [wireBit, kept]
    dsimp only
    rcases Nat.lt_trichotomy i (sentinelAt bytes.1) with before | rfl | behind
    · simp [before, Nat.ne_of_lt before]
    · simp [set]
    · rw [clear i behind]
      simp [Nat.ne_of_gt behind]

theorem fromSszBytes_of_wireBit {capacity : Nat} {bytes : ByteSlice} {list : Bitlist}
    (canonical : list.Canonical) (within : list.bitLen ≤ capacity)
    (length : bytes.1.length = list.bitLen / 8 + 1) (bits : ∀ i, bitAt bytes.1 i = list.wireBit i) :
    fromSszBytes capacity bytes.1 = pure list := by
  have nonempty : bytes.1 ≠ [] := fun none => by simp [none] at length
  have nonzero : bytes.1.getLastD 0 ≠ 0 := by
    -- The sentinel lies in the last byte.
    intro zero
    have set : bitAt bytes.1 list.bitLen = true := by simp [bits, wireBit]
    have here : list.bitLen / 8 = bytes.1.length - 1 := by omega
    have none : (0 : Byte).getLsbD (list.bitLen % 8) = false := BitVec.getLsbD_zero
    rw [bitAt, here, getD_last, zero, none] at set
    cases set
  obtain ⟨set, clear⟩ := bitAt_sentinel nonempty nonzero
  -- The highest bit is the sentinel of the list.
  have sentinel : sentinelAt bytes.1 = list.bitLen := by
    refine Nat.le_antisymm ?_ ?_
    · by_contra beyond
      rw [bits, wireBit, canonical.clear _ (by omega)] at set
      simp at set
      omega
    · by_contra beyond
      have none := clear list.bitLen (by omega)
      simp [bits, wireBit] at none
  have accepted : fromSszBytes capacity bytes.1 = pure ⟨dataBytes bytes.1, sentinelAt bytes.1⟩ :=
    fromSszBytes_eq_pure_iff.mpr ⟨nonempty, nonzero, sentinel ▸ within, rfl⟩
  obtain ⟨canonical', -, -, bits'⟩ := fromSszBytes_spec accepted
  rw [accepted, eq_of_wireBit canonical' canonical fun i => (bits' i).symm.trans (bits i)]

/-! ## The bijection -/

def bits (list : Bitlist) : List Bool := (List.range list.bitLen).map (bitAt list.bytes)

/-- Every index below the length of a canonical list reads its bit. -/
theorem get_eq {list : Bitlist} (canonical : list.Canonical) (i : Nat) :
    list.get i = list.bits[i]? := by
  unfold get bits
  rw [List.getElem?_map]
  split
  next behind => rw [List.getElem?_eq_none (by simpa using behind)]; rfl
  next inside =>
    rw [List.getElem?_range (Nat.lt_of_not_le inside), Option.map_some]
    exact packedBit_eq (by rw [canonical.length]; omega)

theorem fromBits_bits {capacity : Nat} {list : Bitlist} (canonical : list.Canonical)
    (within : list.bitLen ≤ capacity) {slice : BoolSlice} (same : slice.1 = list.bits) :
    fromBits capacity slice = pure list := by
  have count : slice.1.length = list.bitLen := by rw [same, bits, List.length_map, List.length_range]
  have reads (i : Nat) (inside : i < slice.1.length) : slice.1[i]? = some (slice.1.getD i false) := by
    rw [List.getD_eq_getElem?_getD, List.getElem?_eq_getElem inside, Option.getD_some]
  have room : slice.1.length ≤ 8 * (List.replicate ((slice.1.length + 7) / 8) (0 : Byte)).length := by
    rw [List.length_replicate]
    omega
  obtain ⟨bytes, packed, -, -⟩ := packBits_spec reads room
  have built : fromBits capacity slice = pure ⟨bytes, slice.1.length⟩ := by
    rw [fromBits, if_neg (by omega)]
    dsimp only
    rw [packed]
  obtain ⟨canonical', -, -, bits'⟩ := fromBits_spec built
  rw [built]
  refine congrArg pure (eq_of_wireBit canonical' canonical fun i => ?_)
  rw [wireBit, wireBit, count]
  congr 1
  rcases Nat.lt_or_ge i list.bitLen with data | behind
  · have bit := bits' i (by dsimp only; omega)
    rw [same, bits, List.getElem?_map, List.getElem?_range data, Option.map_some] at bit
    exact Option.some.inj bit
  · rw [canonical'.clear i (by dsimp only; omega), canonical.clear i behind]

/-- Decoding is the inverse of encoding: packed and decoded lists come back from their wire form,
accepted bytes are the wire form of what they decode to, and the list packed from the bits of a
decoded one has the same root. -/
theorem codec_bijective (capacity : Nat) :
    (∀ bits list, fromBits capacity bits = pure list →
      ∃ wire : ByteSlice, list.encode = some wire.1 ∧ fromSszBytes capacity wire.1 = pure list) ∧
      (∀ (bytes : ByteSlice) list, fromSszBytes capacity bytes.1 = pure list →
        list.encode = some bytes.1) ∧
      ∀ (bytes : ByteSlice) list (slice : BoolSlice) d,
        fromSszBytes capacity bytes.1 = pure list →
        (∀ i, slice.1[i]? = list.get i) →
          ∃ list', fromBits capacity slice = pure list' ∧
            list'.rootOf capacity d = list.rootOf capacity d := by
  refine ⟨fun bits list built => ?_, fun bytes list decoded => ?_,
    fun bytes list slice d decoded same => ?_⟩
  · have small := bits.2
    obtain ⟨canonical, count, within, -⟩ := fromBits_spec built
    obtain ⟨wire, encoded, length, wireBits⟩ := encode_spec canonical
    exact ⟨⟨wire, by omega⟩, encoded, fromSszBytes_of_wireBit canonical within length wireBits⟩
  · obtain ⟨canonical, -, length, bits⟩ := fromSszBytes_spec decoded
    obtain ⟨wire, encoded, length', bits'⟩ := encode_spec canonical
    rw [encoded, eq_of_bitAt (length'.trans length.symm) fun i => (bits' i).trans (bits i).symm]
  · obtain ⟨canonical, within, -, -⟩ := fromSszBytes_spec decoded
    have logical : slice.1 = list.bits := List.ext_getElem? fun i => (same i).trans (get_eq canonical i)
    exact ⟨list, fromBits_bits canonical within logical, rfl⟩

-- Eight bits fill their byte, and the sentinel stands alone in the next one.
example : fromSszBytes 8 [0xA5, 0x01] = pure ⟨[0xA5], 8⟩ := by decide

end Bitlist

end Jar.Ssz
