import Jar.Proofs.SszTable
import Jar.Ssz.Collections

/-! Which accepted byte strings are the encodings of their values. -/

namespace Jar.Ssz

open Attempt
open scoped Word

variable {T K V : Type}

/-- An accepted byte string is the encoding of its value exactly under the condition. -/
def Codec.CanonicalWhen (c : Codec T) (condition : List Byte → Prop) : Prop :=
  ∀ bytes value, c.decode bytes = pure value → (c.encode value = some bytes ↔ condition bytes)

/-! ## Scalars and fixed sequences -/

theorem canonical_uint (size : Nat) : (uint size).Canonical := by
  intro bytes value read
  obtain ⟨full, same⟩ := ite_throw_eq_pure.mp read
  have full : bytes.length = size := Decidable.not_not.mp full
  have bound := LittleEndian.decode_lt bytes
  rw [← pure_inj.mp same]
  change some (LittleEndian.encode size (BitVec.ofNat _ (LittleEndian.decode bytes)).toNat) = _
  have room : LittleEndian.decode bytes < 2 ^ (8 * size) := by
    rw [Nat.pow_mul, ← full]
    exact bound
  rw [BitVec.toNat_ofNat, Nat.mod_eq_of_lt room, ← full, LittleEndian.encode_decode]

theorem canonical_byteArray (n : Nat) : (byteArray n).Canonical := by
  intro bytes value read
  simp only [byteArray] at read
  split at read
  · rw [← pure_inj.mp read]
    rfl
  · exact absurd read throw_ne_pure

theorem mapM_encode {c : Codec T} (canonical : c.Canonical) {parts : List (List Byte)}
    {items : List T} (read : List.Forall₂ (fun part item => c.decode part = pure item) parts items) :
    items.mapM c.encode = some parts := by
  induction read with
  | nil => rfl
  | cons first _ ih =>
    rw [List.mapM_cons, canonical _ _ first, ih]
    rfl

theorem encodeFixed_of_decodeItems {c : Codec T} (canonical : c.Canonical) {bytes : List Byte}
    {n : Nat} {items : List T} (full : bytes.length = n * c.fixedLen)
    (read : decodeItems c.toDecode bytes n = pure items) : encodeFixed c items = some bytes := by
  have each := mapM_eq_pure.mp read
  have written : (chunks bytes c.fixedLen n).mapM c.decode = pure items := by
    refine mapM_eq_pure.mpr (List.forall₂_map_left_iff.mpr (each.imp fun i value ran => ?_))
    have inner := (slice_bind_eq_pure.mp ran).2.2
    rwa [Nat.add_sub_cancel_left] at inner
  rw [encodeFixed, mapM_encode canonical (mapM_eq_pure.mp written), Option.map_eq_map, Option.map_some,
    flatten_chunks, ← full, List.take_length]

theorem encodeFixed_of_decodeFixed {c : Codec T} (canonical : c.Canonical) {zeroSized : String}
    {cap : Option Nat} {bytes : List Byte} {items : List T}
    (read : decodeFixed c.toDecode zeroSized cap bytes = pure items) :
    encodeFixed c items = some bytes := by
  obtain ⟨_, read⟩ := ite_throw_eq_pure.mp read
  obtain ⟨whole, read⟩ := ite_throw_eq_pure.mp read
  obtain ⟨-, read⟩ := ite_throw_eq_pure.mp read
  refine encodeFixed_of_decodeItems canonical ?_ read
  exact (Nat.div_mul_cancel (Nat.dvd_of_mod_eq_zero (Decidable.not_not.mp whole))).symm

/-! ## Sequences of variable-length items -/

/-- For canonical items the tightness of the table is all that is needed. -/
theorem encodeOffsetTable_of_canonical {short : List Byte → Nat → DecodeError}
    {element : List Byte → Decoder T} {encode : T → Option (List Byte)}
    (canonical : ∀ part value, element part = pure value → encode value = some part)
    {bytes : List Byte} {expectedLen : Option Nat} {values : List T}
    (read : decodeOffsetTable short element bytes expectedLen = pure values) :
    encodeOffsetTable encode values = some bytes ↔ TableTight bytes := by
  have shrinks : ∀ part value payload, element part = pure value → encode value = some payload →
      payload.length ≤ part.length := by
    intro part value payload found written
    rw [canonical part value found] at written
    rw [Option.some.inj written]
  rw [encodeOffsetTable_iff read shrinks]
  refine and_iff_left ?_
  exact (values_of_decodeOffsetTable read).imp canonical

theorem canonicalWhen_sequence {c : Codec T} (canonical : c.Canonical) (varLen : c.isFixed = false)
    {zeroSized : String} {cap : Nat} {bytes : List Byte} {items : List T}
    (read : decodeSequence c.toDecode zeroSized cap bytes = pure items) :
    encodeSequence c items = some bytes ↔ TableTight bytes := by
  unfold decodeSequence at read
  unfold encodeSequence
  rw [varLen, if_neg Bool.false_ne_true] at read ⊢
  obtain ⟨out, table, read⟩ := bind_eq_pure.mp read
  obtain ⟨-, same⟩ := ite_throw_eq_pure.mp read
  rw [← pure_inj.mp same]
  exact encodeOffsetTable_of_canonical canonical table

theorem canonicalWhen_fixedVector {c : Codec T} (canonical : c.Canonical)
    (varLen : c.isFixed = false) (n : Nat) : (fixedVector c n).CanonicalWhen TableTight := by
  intro bytes items read
  simp only [fixedVector, decodeFixedVector, encodeSequence, varLen, if_neg Bool.false_ne_true]
    at read ⊢
  exact encodeOffsetTable_of_canonical canonical read

/-- Items of a fixed length are written back without a condition. -/
theorem canonical_vec_of_fixed {c : Codec T} (canonical : c.Canonical) (fixed : c.isFixed = true) :
    (vec c).Canonical := by
  intro bytes items read
  simp only [vec, decodeVec, decodeSequence, encodeSequence, fixed, if_true] at read ⊢
  exact encodeFixed_of_decodeFixed canonical read

/-! ## Pairs -/

/-- The first offset of a pair points right behind the two slots, and a payload that only the first
component has can be stepped over below `2 ^ 32`. -/
def PairTight (a : Codec K) (b : Codec V) (bytes : List Byte) : Prop :=
  offsetAt bytes (if a.isFixed then a.slotLen else 0) = a.slotLen + b.slotLen ∧
    (b.isFixed → a.slotLen + b.slotLen + (bytes.length - (a.slotLen + b.slotLen)) % 2 ^ 32 < 2 ^ 32)

theorem readOffset_eq_pure {bytes : List Byte} {pos off : Nat} :
    readOffset bytes pos = pure off ↔ pos + 4 ≤ bytes.length ∧ off = offsetAt bytes pos := by
  unfold readOffset readSlice bytesPerLengthOffset
  rw [map_eq_pure]
  simp only [ite_throw_eq_pure, slice_eq_pure, Nat.add_sub_cancel_left, Nat.not_lt]
  constructor
  · rintro ⟨_, ⟨inside, -, -, rfl⟩, rfl⟩
    exact ⟨inside, rfl⟩
  · rintro ⟨inside, rfl⟩
    exact ⟨_, ⟨inside, Nat.le_add_right _ _, inside, rfl⟩, rfl⟩

theorem varOff_of_fixed {c : Decode T} (fixed : c.isFixed = true) {bytes : List Byte} {pos : Nat}
    {off : Option Nat} (read : varOff c bytes pos = pure off) : off = none := by
  rw [varOff, if_pos fixed] at read
  exact (pure_inj.mp read).symm

theorem varOff_of_var {c : Decode T} (varLen : c.isFixed = false) {bytes : List Byte} {pos : Nat}
    {off : Option Nat} (read : varOff c bytes pos = pure off) : off = some (offsetAt bytes pos) := by
  rw [varOff, varLen, if_neg Bool.false_ne_true] at read
  obtain ⟨_, offset, rfl⟩ := map_eq_pure.mp read
  rw [(readOffset_eq_pure.mp offset).2]

theorem decodeComponent_none {c : Decode T} {bytes : List Byte} {fixed slot stop : Nat} {value : T}
    (read : decodeComponent c bytes fixed slot stop none = pure value) :
    c.decode ((bytes.drop slot).take c.slotLen) = pure value := by
  have inner := (slice_bind_eq_pure.mp read).2.2
  rwa [Nat.add_sub_cancel_left] at inner

theorem decodeComponent_some {c : Decode T} {bytes : List Byte} {fixed slot stop start : Nat}
    {value : T} (read : decodeComponent c bytes fixed slot stop (some start) = pure value) :
    start ≤ stop ∧ stop ≤ bytes.length ∧
      c.decode ((bytes.drop start).take (stop - start)) = pure value :=
  slice_bind_eq_pure.mp (ite_throw_eq_pure.mp read).2

theorem of_decodeContainerPair {a : Decode K} {b : Decode V} {bytes : List Byte} {value : K × V}
    (read : decodeContainerPair a b bytes = pure value) :
    a.slotLen + b.slotLen ≤ bytes.length ∧ ∃ aOff bOff,
      varOff a bytes 0 = pure aOff ∧ varOff b bytes a.slotLen = pure bOff ∧
      (∀ off ∈ aOff, a.slotLen + b.slotLen ≤ off) ∧ (∀ off ∈ bOff, a.slotLen + b.slotLen ≤ off) ∧
      decodeComponent a bytes (a.slotLen + b.slotLen) 0 (bOff.getD bytes.length) aOff =
        pure value.1 ∧
      decodeComponent b bytes (a.slotLen + b.slotLen) a.slotLen bytes.length bOff =
        pure value.2 := by
  obtain ⟨room, read⟩ := ite_throw_eq_pure.mp read
  obtain ⟨aOff, aRead, read⟩ := bind_eq_pure.mp read
  obtain ⟨bOff, bRead, read⟩ := bind_eq_pure.mp read
  obtain ⟨aBehind, read⟩ := ite_throw_eq_pure.mp read
  obtain ⟨bBehind, read⟩ := ite_throw_eq_pure.mp read
  obtain ⟨-, read⟩ := ite_throw_eq_pure.mp read
  obtain ⟨aVal, aRun, read⟩ := bind_eq_pure.mp read
  obtain ⟨bVal, bRun, read⟩ := bind_eq_pure.mp read
  cases pure_inj.mp read
  have behind {off : Option Nat} (checked : ¬off.any (· < a.slotLen + b.slotLen) = true) :
      ∀ start ∈ off, a.slotLen + b.slotLen ≤ start := by
    rintro start rfl
    simpa using checked
  exact ⟨Nat.not_lt.mp room, aOff, bOff, aRead, bRead, behind aBehind, behind bBehind, aRun, bRun⟩

theorem encodeField_of_fixed {c : Codec T} (fixed : c.isFixed = true) {bytes : List Byte}
    (full : bytes.length = c.slotLen) {value : T} (written : c.encode value = some bytes)
    (running : Nat) : encodeField c running value = some (bytes, []) := by
  rw [Decode.slotLen, if_pos fixed] at full
  rw [encodeField, written]
  simp [fixed, full]

theorem encodeField_of_var {c : Codec T} (varLen : c.isFixed = false) {bytes : List Byte} {value : T}
    (written : c.encode value = some bytes) (running : Nat) :
    encodeField c running value = some (LittleEndian.encode 4 running, bytes) := by
  rw [encodeField, written]
  simp [varLen]

/-- Slots in front of what an offset points to are the whole bytes only if the offset points right
behind them. -/
theorem append_drop_eq_iff {bytes slots : List Byte} {fixed off : Nat} (len : slots.length = fixed)
    (behind : fixed ≤ off) (inside : off ≤ bytes.length) :
    slots ++ bytes.drop off = bytes ↔ off = fixed ∧ slots = bytes.take fixed := by
  constructor
  · intro same
    have lengths := congrArg List.length same
    rw [List.length_append, List.length_drop, len] at lengths
    have tight : off = fixed := by omega
    refine ⟨tight, ?_⟩
    have front := congrArg (List.take fixed) same
    rwa [← len, List.take_left, len] at front
  · rintro ⟨rfl, rfl⟩
    exact List.take_append_drop off bytes

theorem length_append_drop_le {bytes slots : List Byte} {fixed off : Nat}
    (len : slots.length = fixed) (behind : fixed ≤ off) (inside : off ≤ bytes.length) :
    (slots ++ bytes.drop off).length ≤ bytes.length := by
  rw [List.length_append, List.length_drop, len]
  omega

/-- The pair is written back exactly when it is tight, and never to more bytes. -/
def PairRewrites (a : Codec K) (b : Codec V) (bytes : List Byte) (value : K × V) : Prop :=
  (encodeContainerPair a b value = some bytes ↔ PairTight a b bytes) ∧
    ∀ payload, encodeContainerPair a b value = some payload → payload.length ≤ bytes.length

section Pair

variable {a : Codec K} {b : Codec V} {bytes : List Byte} {value : K × V}

theorem pairRewrites_fixed_var (canonicalA : a.Canonical) (canonicalB : b.Canonical)
    (aFixed : a.isFixed = true) (bVar : b.isFixed = false)
    (read : decodeContainerPair a.toDecode b.toDecode bytes = pure value) :
    PairRewrites a b bytes value := by
  obtain ⟨room, aOff, bOff, aRead, bRead, -, bBehind, aRun, bRun⟩ := of_decodeContainerPair read
  have bSlot : b.slotLen = 4 := by rw [Decode.slotLen, bVar]; rfl
  rw [varOff_of_fixed aFixed aRead] at aRun
  rw [varOff_of_var bVar bRead] at bBehind bRun
  have first := canonicalA _ _ (decodeComponent_none aRun)
  obtain ⟨inside, -, second⟩ := decodeComponent_some bRun
  have second := canonicalB _ _ second
  have behind := bBehind _ rfl
  rw [List.drop_zero] at first
  rw [List.take_of_length_le (by rw [List.length_drop])] at second
  have full : (bytes.take a.slotLen).length = a.slotLen := by
    rw [List.length_take]
    omega
  have slots : (bytes.take a.slotLen ++
      LittleEndian.encode 4 ((a.slotLen + b.slotLen) % 2 ^ 32)).length = a.slotLen + b.slotLen := by
    rw [List.length_append, full, LittleEndian.length_encode, bSlot]
  have written : encodeContainerPair a b value = some ((bytes.take a.slotLen ++
      LittleEndian.encode 4 ((a.slotLen + b.slotLen) % 2 ^ 32)) ++
        bytes.drop (offsetAt bytes a.slotLen)) := by
    rw [encodeContainerPair, encodeField_of_fixed aFixed full first]
    simp only [Option.bind_eq_bind, Option.bind_some, aFixed, if_true,
      encodeField_of_var bVar second, List.nil_append]
    rfl
  refine ⟨?_, fun payload same => ?_⟩
  · rw [written, Option.some_inj, append_drop_eq_iff slots behind inside, PairTight, if_pos aFixed]
    refine ⟨fun same => ⟨same.1, fun fixed => absurd fixed (bVar ▸ Bool.false_ne_true)⟩,
      fun tight => ⟨tight.1, ?_⟩⟩
    have narrow := offsetAt_lt bytes a.slotLen
    rw [← tight.1, Nat.mod_eq_of_lt narrow, encode_offsetAt (by omega), tight.1, bSlot,
      ← List.take_add]
  · rw [written, Option.some_inj] at same
    rw [← same]
    exact length_append_drop_le slots behind inside

theorem pairRewrites_var_fixed (canonicalA : a.Canonical) (canonicalB : b.Canonical)
    (aVar : a.isFixed = false) (bFixed : b.isFixed = true)
    (read : decodeContainerPair a.toDecode b.toDecode bytes = pure value) :
    PairRewrites a b bytes value := by
  obtain ⟨room, aOff, bOff, aRead, bRead, aBehind, -, aRun, bRun⟩ := of_decodeContainerPair read
  have aSlot : a.slotLen = 4 := by rw [Decode.slotLen, aVar]; rfl
  rw [varOff_of_var aVar aRead] at aBehind aRun
  rw [varOff_of_fixed bFixed bRead] at bRun aRun
  obtain ⟨inside, -, first⟩ := decodeComponent_some aRun
  have first := canonicalA _ _ first
  have second := canonicalB _ _ (decodeComponent_none bRun)
  have behind := aBehind _ rfl
  rw [Option.getD_none] at inside first
  rw [List.take_of_length_le (by rw [List.length_drop])] at first
  have full : ((bytes.drop a.slotLen).take b.slotLen).length = b.slotLen := by
    rw [List.length_take, List.length_drop]
    omega
  have slots : (LittleEndian.encode 4 ((a.slotLen + b.slotLen) % 2 ^ 32) ++
      (bytes.drop a.slotLen).take b.slotLen).length = a.slotLen + b.slotLen := by
    rw [List.length_append, full, LittleEndian.length_encode, aSlot]
  have written (payload : List Byte) : encodeContainerPair a b value = some payload ↔
      (a.slotLen + b.slotLen) % 2 ^ 32 + (bytes.length - offsetAt bytes 0) % 2 ^ 32 < 2 ^ 32 ∧
        (LittleEndian.encode 4 ((a.slotLen + b.slotLen) % 2 ^ 32) ++
          (bytes.drop a.slotLen).take b.slotLen) ++ bytes.drop (offsetAt bytes 0) = payload := by
    rw [encodeContainerPair, encodeField_of_var aVar first]
    simp only [Option.bind_eq_bind, Option.bind_some, aVar, Bool.false_eq_true, if_false,
      encodeField_of_fixed bFixed full second, List.append_nil, Option.bind_eq_some_iff,
      advance_eq_some, List.length_drop]
    constructor
    · rintro ⟨_, ⟨fits, -⟩, same⟩
      exact ⟨fits, Option.some.inj same⟩
    · rintro ⟨fits, rfl⟩
      exact ⟨_, ⟨fits, rfl⟩, rfl⟩
  have narrow := offsetAt_lt bytes 0
  refine ⟨?_, fun payload same => ?_⟩
  · rw [written, append_drop_eq_iff slots behind inside, PairTight, aVar,
      if_neg Bool.false_ne_true]
    constructor
    · rintro ⟨fits, tight, -⟩
      rw [tight, Nat.mod_eq_of_lt (by omega)] at fits
      exact ⟨tight, fun _ => fits⟩
    · rintro ⟨tight, fits⟩
      refine ⟨?_, tight, ?_⟩
      · rw [tight, Nat.mod_eq_of_lt (by omega)]
        exact fits bFixed
      · rw [← tight, Nat.mod_eq_of_lt narrow, encode_offsetAt (by omega), tight, aSlot,
          List.drop_zero, ← List.take_add]
  · rw [← ((written payload).mp same).2]
    exact length_append_drop_le slots behind inside

theorem pairRewrites_var_var (canonicalA : a.Canonical) (canonicalB : b.Canonical)
    (aVar : a.isFixed = false) (bVar : b.isFixed = false)
    (read : decodeContainerPair a.toDecode b.toDecode bytes = pure value) :
    PairRewrites a b bytes value := by
  obtain ⟨room, aOff, bOff, aRead, bRead, aBehind, bBehind, aRun, bRun⟩ :=
    of_decodeContainerPair read
  have aSlot : a.slotLen = 4 := by rw [Decode.slotLen, aVar]; rfl
  have bSlot : b.slotLen = 4 := by rw [Decode.slotLen, bVar]; rfl
  rw [varOff_of_var aVar aRead] at aBehind aRun
  rw [varOff_of_var bVar bRead] at bBehind bRun aRun
  rw [aSlot, bSlot] at aBehind bBehind
  obtain ⟨ordered, -, first⟩ := decodeComponent_some aRun
  obtain ⟨inside, -, second⟩ := decodeComponent_some bRun
  have first := canonicalA _ _ first
  have second := canonicalB _ _ second
  have behind := aBehind _ rfl
  rw [Option.getD_some, aSlot] at ordered first
  rw [List.take_of_length_le (by rw [List.length_drop]), aSlot] at second
  rw [aSlot] at inside
  have narrow := offsetAt_lt bytes
  have len : ((bytes.drop (offsetAt bytes 0)).take (offsetAt bytes 4 - offsetAt bytes 0)).length =
      offsetAt bytes 4 - offsetAt bytes 0 := by
    rw [List.length_take, List.length_drop]
    omega
  have step : advance 8 (offsetAt bytes 4 - offsetAt bytes 0) =
      some (8 + (offsetAt bytes 4 - offsetAt bytes 0)) := by
    have small := narrow 4
    have exact_ : (offsetAt bytes 4 - offsetAt bytes 0) % 2 ^ 32 =
        offsetAt bytes 4 - offsetAt bytes 0 := Nat.mod_eq_of_lt (by omega)
    rw [advance_eq_some, exact_]
    exact ⟨by omega, rfl⟩
  have slots : (LittleEndian.encode 4 8 ++
      LittleEndian.encode 4 (8 + (offsetAt bytes 4 - offsetAt bytes 0))).length = 4 + 4 := by
    rw [List.length_append, LittleEndian.length_encode, LittleEndian.length_encode]
  have payloads : (bytes.drop (offsetAt bytes 0)).take (offsetAt bytes 4 - offsetAt bytes 0) ++
      bytes.drop (offsetAt bytes 4) = bytes.drop (offsetAt bytes 0) := by
    nth_rewrite 2 [← List.take_append_drop (offsetAt bytes 4 - offsetAt bytes 0)
      (bytes.drop (offsetAt bytes 0))]
    rw [List.drop_drop, Nat.add_sub_cancel' ordered]
  have written : encodeContainerPair a b value = some ((LittleEndian.encode 4 8 ++
      LittleEndian.encode 4 (8 + (offsetAt bytes 4 - offsetAt bytes 0))) ++
        bytes.drop (offsetAt bytes 0)) := by
    rw [encodeContainerPair, encodeField_of_var aVar first, aSlot, bSlot]
    simp only [Option.bind_eq_bind, Option.bind_some, aVar, Bool.false_eq_true, if_false,
      encodeField_of_var bVar second, len]
    change (advance 8 _ >>= _) = _
    rw [step]
    change some (LittleEndian.encode 4 8 ++ LittleEndian.encode 4 (8 + _) ++ (_ ++ _)) = _
    rw [payloads]
  refine ⟨?_, fun payload same => ?_⟩
  · rw [written, Option.some_inj, append_drop_eq_iff slots behind (Nat.le_trans ordered inside),
      PairTight, aVar, bVar, if_neg Bool.false_ne_true, aSlot, bSlot]
    refine ⟨fun same => ⟨same.1, fun fixed => absurd fixed Bool.false_ne_true⟩,
      fun tight => ⟨tight.1, ?_⟩⟩
    have second : 8 + (offsetAt bytes 4 - offsetAt bytes 0) = offsetAt bytes 4 := by
      have := tight.1
      omega
    have table : LittleEndian.encode 4 (offsetAt bytes 0) = (bytes.drop 0).take 4 :=
      encode_offsetAt (by omega)
    rw [tight.1, List.drop_zero] at table
    rw [second, encode_offsetAt (by omega), List.take_add, ← table]
  · rw [written, Option.some_inj] at same
    rw [← same]
    exact length_append_drop_le slots behind (Nat.le_trans ordered inside)

/-- A pair with an offset is written back exactly when it is tight. -/
theorem pairRewrites_of_decode (canonicalA : a.Canonical) (canonicalB : b.Canonical)
    (mixed : (a.isFixed && b.isFixed) = false)
    (read : decodeContainerPair a.toDecode b.toDecode bytes = pure value) :
    PairRewrites a b bytes value := by
  cases aFixed : a.isFixed with
  | false =>
    cases bFixed : b.isFixed with
    | false => exact pairRewrites_var_var canonicalA canonicalB aFixed bFixed read
    | true => exact pairRewrites_var_fixed canonicalA canonicalB aFixed bFixed read
  | true =>
    rw [aFixed, Bool.true_and] at mixed
    exact pairRewrites_fixed_var canonicalA canonicalB aFixed mixed read

end Pair

/-! ## Maps -/

theorem of_sortedMap [LinearOrder K] {refuse : K → Option DecodeError} {entries : List (K × V)}
    {map : SortedMap K V} (read : sortedMap refuse entries = pure map) : map.entries = entries := by
  unfold sortedMap at read
  split at read
  · exact absurd read throw_ne_pure
  · rw [← pure_inj.mp read]

theorem canonical_pair_of_fixed {a : Codec K} {b : Codec V} (canonicalA : a.Canonical)
    (canonicalB : b.Canonical) (fixed : (a.isFixed && b.isFixed) = true) : (pair a b).Canonical := by
  intro bytes value read
  simp only [pair, decodePair, fixed, if_true] at read ⊢
  obtain ⟨full, read⟩ := ite_throw_eq_pure.mp read
  have full : bytes.length = a.fixedLen + b.fixedLen := Decidable.not_not.mp full
  obtain ⟨first, readA, read⟩ := bind_eq_pure.mp read
  obtain ⟨second, readB, read⟩ := bind_eq_pure.mp read
  rw [← pure_inj.mp read, canonicalA _ _ (slice_bind_eq_pure.mp readA).2.2,
    canonicalB _ _ (slice_bind_eq_pure.mp readB).2.2]
  simp only [Option.bind_eq_bind, Option.bind_some, List.drop_zero, Nat.sub_zero]
  rw [List.take_of_length_le (show (bytes.drop a.fixedLen).length ≤ _ by rw [List.length_drop]),
    List.take_append_drop]
  rfl

/-- The table of a map's entries is tight, and so is each entry that has an offset. -/
def MapTight (k : Codec K) (v : Codec V) (bytes : List Byte) : Prop :=
  (k.isFixed && v.isFixed) = true ∨
    TableTight bytes ∧ ∀ entry ∈ tableSlices bytes, PairTight k v entry

/-- A relation that comes down to a condition on the left members. -/
theorem forall₂_iff_forall_mem {A B : Type} {R S : A → B → Prop} {P : A → Prop} {as : List A}
    {bs : List B} (related : List.Forall₂ R as bs) (each : ∀ a b, R a b → (S a b ↔ P a)) :
    List.Forall₂ S as bs ↔ ∀ a ∈ as, P a := by
  induction related with
  | nil => exact iff_of_true .nil fun _ member => nomatch member
  | cons first _ ih => rw [List.forall₂_cons, List.forall_mem_cons, each _ _ first, ih]

theorem canonicalWhen_btreeMap [LinearOrder K] {k : Codec K} {v : Codec V}
    (canonicalK : k.Canonical) (canonicalV : v.Canonical) :
    (btreeMap k v).CanonicalWhen (MapTight k v) := by
  intro bytes map read
  obtain ⟨entries, decoded, read⟩ := bind_eq_pure.mp read
  have same := of_sortedMap read
  simp only [btreeMap, same]
  change (if (k.isFixed && v.isFixed) = true then decodeFixed (pair k v).toDecode _ none bytes
    else decodeVarCollection (pair k v).toDecode bytes none) = _ at decoded
  change (if (k.isFixed && v.isFixed) = true then _ else _) = _ ↔ _
  unfold MapTight
  by_cases fixed : (k.isFixed && v.isFixed) = true
  · rw [if_pos fixed] at decoded ⊢
    have canonical := canonical_pair_of_fixed canonicalK canonicalV fixed
    exact iff_of_true (encodeFixed_of_decodeFixed canonical decoded) (.inl fixed)
  · have mixed := Bool.not_eq_true _ ▸ fixed
    rw [if_neg fixed] at decoded ⊢
    have element (part : List Byte) :
        (pair k v).decode part = decodeContainerPair k.toDecode v.toDecode part :=
      if_neg fixed
    have rewrites {part : List Byte} {entry : K × V} (found : (pair k v).decode part = pure entry) :
        PairRewrites k v part entry :=
      pairRewrites_of_decode canonicalK canonicalV mixed (element part ▸ found)
    rw [encodeOffsetTable_iff decoded fun part entry payload found => (rewrites found).2 payload,
      or_iff_right fixed]
    exact and_congr_right fun _ => forall₂_iff_forall_mem (values_of_decodeOffsetTable decoded)
      fun part entry found => (rewrites found).1

theorem canonical_missingOr {c : Codec T} (canonical : c.Canonical) : (missingOr c).Canonical := by
  intro bytes value read
  cases bytes with
  | nil => exact absurd read throw_ne_pure
  | cons tag payload =>
    simp only [missingOr, decodeMissingOr] at read ⊢
    split at read
    · next zero =>
      obtain ⟨inner, found, rfl⟩ := map_eq_pure.mp read
      simp only [canonical _ _ found, zero]
      rfl
    · split at read
      · next one =>
        split at read
        · rw [← pure_inj.mp read, one]
        · exact absurd read throw_ne_pure
      · exact absurd read throw_ne_pure

/-- An entry has its value right behind the offset, so it is written back without a condition. -/
theorem encodeEntry_of_decodeEntry {k : Codec K} {c : Codec V} (canonicalK : k.Canonical)
    (canonicalV : c.Canonical) {part : List Byte} {entry : K × MissingOr V}
    (read : decodeEntry k.toDecode c.toDecode part = pure entry) :
    encodeEntry k c entry = some part := by
  obtain ⟨room, read⟩ := ite_throw_eq_pure.mp read
  obtain ⟨key, keyRead, read⟩ := bind_eq_pure.mp read
  obtain ⟨offset, read⟩ := ite_throw_eq_pure.mp read
  obtain ⟨value, valueRead, read⟩ := bind_eq_pure.mp read
  have offset := Decidable.not_not.mp offset
  have room := Nat.not_lt.mp room
  unfold bytesPerLengthOffset at *
  have first := canonicalK _ _ (slice_bind_eq_pure.mp keyRead).2.2
  have second := canonical_missingOr canonicalV _ _ (slice_bind_eq_pure.mp valueRead).2.2
  rw [Nat.sub_zero, List.drop_zero] at first
  rw [List.take_of_length_le (by rw [List.length_drop])] at second
  rw [← pure_inj.mp read, encodeEntry, first, second]
  simp only [Option.bind_eq_bind, Option.bind_some, bytesPerLengthOffset]
  rw [← offset, encode_offsetAt (by omega), offset, ← List.drop_drop, List.take_append_drop,
    List.take_append_drop]
  rfl

theorem canonicalWhen_entries {k : Codec K} {c : Codec V} (canonicalK : k.Canonical)
    (canonicalV : c.Canonical) {bytes : List Byte} {entries : List (K × MissingOr V)}
    (read : decodeEntriesList k.toDecode c.toDecode bytes = pure entries) :
    encodeOffsetTable (encodeEntry k c) entries = some bytes ↔ TableTight bytes :=
  encodeOffsetTable_of_canonical
    (fun _ _ found => encodeEntry_of_decodeEntry canonicalK canonicalV found) read

/-- A fixed front, followed by entries that are written back or not. -/
theorem append_eq_iff_eq_drop {bytes out : List Byte} {n : Nat} :
    bytes.take n ++ out = bytes ↔ out = bytes.drop n := by
  constructor
  · intro same
    have whole : bytes.take n ++ out = bytes.take n ++ bytes.drop n := by
      rw [same, List.take_append_drop]
    exact List.append_cancel_left whole
  · rintro rfl
    exact List.take_append_drop n bytes

theorem canonicalWhen_radixMap {c : Codec V} (canonical : c.Canonical) (keyBytes : Nat) :
    (radixMap c keyBytes).CanonicalWhen fun bytes => TableTight (bytes.drop 4) := by
  intro bytes map read
  obtain ⟨room, read⟩ := ite_throw_eq_pure.mp read
  obtain ⟨offset, read⟩ := ite_throw_eq_pure.mp read
  obtain ⟨entries, decoded, read⟩ := bind_eq_pure.mp read
  have same := of_sortedMap read
  have decoded := (slice_bind_eq_pure.mp decoded).2.2
  rw [List.take_of_length_le (by rw [List.length_drop])] at decoded
  have front : LittleEndian.encode 4 4 = bytes.take 4 := by
    have written : LittleEndian.encode 4 (offsetAt bytes 0) = (bytes.drop 0).take 4 :=
      encode_offsetAt (by omega)
    rwa [Decidable.not_not.mp offset] at written
  change _ ↔ TableTight (bytes.drop 4)
  rw [← canonicalWhen_entries (canonical_byteArray keyBytes) canonical decoded, ← same]
  simp only [radixMap, Option.bind_eq_bind, Option.bind_eq_some_iff, front, Option.pure_def,
    Option.some_inj, append_eq_iff_eq_drop, exists_eq_right]

theorem canonicalWhen_sparseList {c : Codec T} (canonical : c.Canonical) (limit : Nat) :
    (sparseList c limit).CanonicalWhen fun bytes => TableTight (bytes.drop 12) := by
  intro bytes sparse read
  obtain ⟨room, read⟩ := ite_throw_eq_pure.mp read
  obtain ⟨-, read⟩ := ite_throw_eq_pure.mp read
  obtain ⟨offset, read⟩ := ite_throw_eq_pure.mp read
  obtain ⟨entries, decoded, read⟩ := bind_eq_pure.mp read
  obtain ⟨map, sorted, read⟩ := bind_eq_pure.mp read
  have same := of_sortedMap sorted
  have decoded := (slice_bind_eq_pure.mp decoded).2.2
  rw [List.take_of_length_le (by rw [List.length_drop])] at decoded
  cases pure_inj.mp read
  have len : LittleEndian.encode 8
      (BitVec.ofNat 64 (LittleEndian.decode (bytes.take 8))).toNat = bytes.take 8 :=
    Option.some.inj (canonical_uint 8 (bytes.take 8) _ (if_neg (by
      rw [List.length_take]
      omega)))
  have front : LittleEndian.encode 4 12 = (bytes.drop 8).take 4 := by
    have written : LittleEndian.encode 4 (offsetAt bytes 8) = (bytes.drop 8).take 4 :=
      encode_offsetAt (by omega)
    rwa [Decidable.not_not.mp offset] at written
  have both : bytes.take 8 ++ (bytes.drop 8).take 4 = bytes.take 12 := List.take_add.symm
  change _ ↔ TableTight (bytes.drop 12)
  rw [← canonicalWhen_entries (canonical_uint 8) canonical decoded, ← same]
  simp only [sparseList, Option.bind_eq_bind, Option.bind_eq_some_iff, front, len,
    Option.pure_def, Option.some_inj, ← List.append_assoc, both, append_eq_iff_eq_drop,
    exists_eq_right]

/-! ## All encodings with offsets -/

/-- For canonical components, an accepted byte string of an encoding with offsets is the encoding of
its value exactly when no byte between the offsets and the first payload is ignored, and no step
over a payload overflows while it is written. -/
theorem offsetEncodings_canonical_iff [LinearOrder K] {c : Codec T} {k : Codec K} {v : Codec V}
    (canonical : c.Canonical) (canonicalK : k.Canonical) (canonicalV : v.Canonical)
    (varLen : c.isFixed = false) (cap n keyBytes limit : Nat) :
    (vec c).CanonicalWhen TableTight ∧ (smallVec c).CanonicalWhen TableTight ∧
      (list c cap).CanonicalWhen TableTight ∧ (fixedVector c n).CanonicalWhen TableTight ∧
      ((k.isFixed && v.isFixed) = false → (pair k v).CanonicalWhen (PairTight k v)) ∧
      (btreeMap k v).CanonicalWhen (MapTight k v) ∧
      (radixMap v keyBytes).CanonicalWhen (fun bytes => TableTight (bytes.drop 4)) ∧
      (sparseList v limit).CanonicalWhen (fun bytes => TableTight (bytes.drop 12)) := by
  refine ⟨fun _ _ => canonicalWhen_sequence canonical varLen,
    fun _ _ => canonicalWhen_sequence canonical varLen,
    fun _ _ => canonicalWhen_sequence canonical varLen,
    canonicalWhen_fixedVector canonical varLen n, fun mixed bytes value read => ?_,
    canonicalWhen_btreeMap canonicalK canonicalV, canonicalWhen_radixMap canonicalV keyBytes,
    canonicalWhen_sparseList canonicalV limit⟩
  simp only [pair, decodePair, mixed, Bool.false_eq_true, if_false] at read ⊢
  exact (pairRewrites_of_decode canonicalK canonicalV mixed read).1

theorem offsetEncodings_canonical_bytes :
    (vec (uint 1)).Canonical ∧ (uint 1).Canonical ∧ (vec (uint 1)).isFixed = false ∧
      (vec (vec (uint 1))).decode [4, 0, 0, 0, 9] = pure [[9]] ∧
      (vec (vec (uint 1))).encode [[9]] = some [4, 0, 0, 0, 9] := by
  have byteStrings := canonical_vec_of_fixed (canonical_uint 1) rfl
  have decoded : (vec (vec (uint 1))).decode [4, 0, 0, 0, 9] = pure [[9]] := rfl
  exact ⟨byteStrings, canonical_uint 1, rfl, decoded,
    ((offsetEncodings_canonical_iff byteStrings (canonical_uint 1) byteStrings rfl 0 0 0 0).1
      _ _ decoded).mpr (.inr (by decide))⟩

/-- Four zero bytes decode to the empty vector, as no bytes do; in a pair of a byte and a byte
string a byte behind the slots that no offset points to is ignored. -/
theorem offsetEncodings_ignore_bytes :
    (vec (vec (uint 1))).decode [0, 0, 0, 0] = pure [] ∧ (vec (vec (uint 1))).decode [] = pure [] ∧
      (vec (vec (uint 1))).encode [] = some [] ∧
      (pair (uint 1) (vec (uint 1))).decode [7, 6, 0, 0, 0, 99, 5] = pure (7, [5]) ∧
      (pair (uint 1) (vec (uint 1))).encode (7, [5]) = some [7, 5, 0, 0, 0, 5] :=
  ⟨rfl, rfl, rfl, rfl, rfl⟩

end Jar.Ssz
