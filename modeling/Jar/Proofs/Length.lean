import Jar.Ssz.Length
import Mathlib.Algebra.BigOperators.Ring.List

/-! The announced lengths against the bytes that are written. -/

namespace Jar.Ssz

open scoped Word

variable {T K V : Type}

/-- A count of something inside a value; a hash counts nothing. -/
def MissingOr.count (inside : T → Nat) : MissingOr T → Nat
  | .materialized value => inside value
  | .missing _ => 0

/-- The number of entries of all sparse lists inside a value. -/
def SszType.sparseEntries : {T : Type} → SszType T → T → Nat
  | _, .option item, value => value.elim 0 item.sparseEntries
  | _, .missingOr item, value => value.count item.sparseEntries
  | _, .pair first second, value => first.sparseEntries value.1 + second.sparseEntries value.2
  | _, .vec item, items => (items.map item.sparseEntries).sum
  | _, .smallVec item, items => (items.map item.sparseEntries).sum
  | _, .list item _, items => (items.map item.sparseEntries).sum
  | _, .fixedVector item _, items => (items.1.map item.sparseEntries).sum
  | _, @SszType.btreeMap _ _ _ key value, map =>
    (map.entries.map fun e => key.sparseEntries e.1 + value.sparseEntries e.2).sum
  | _, .radixMap value _, map => (map.entries.map fun e => e.2.count value.sparseEntries).sum
  | _, .sparseList item _, sparse => sparse.entries.entries.length +
    (sparse.entries.entries.map fun e => e.2.count item.sparseEntries).sum
  | _, _, _ => 0

/-! ## Sums over what is written -/

theorem length_encodeItems {encode : T → Option (List Byte)} {size : T → Nat}
    (each : ∀ {item bytes}, encode item = some bytes → bytes.length = size item) {running : Nat}
    {items : List T} {table payloads : List Byte}
    (written : encodeItems encode running items = some (table, payloads)) :
    table.length = items.length * 4 ∧ payloads.length = (items.map size).sum := by
  induction items generalizing running table payloads with
  | nil =>
    cases written
    exact ⟨rfl, rfl⟩
  | cons item rest ih =>
    obtain ⟨payload, first, written⟩ := Option.bind_eq_some_iff.mp written
    obtain ⟨next, -, written⟩ := Option.bind_eq_some_iff.mp written
    obtain ⟨⟨table, payloads⟩, others, written⟩ := Option.bind_eq_some_iff.mp written
    cases written
    obtain ⟨tableLen, payloadsLen⟩ := ih others
    constructor
    · rw [List.length_append, LittleEndian.length_encode, tableLen, List.length_cons]
      omega
    · rw [List.length_append, each first, payloadsLen, List.map_cons, List.sum_cons]

/-- An offset table takes four bytes for each item and the items themselves. -/
theorem length_encodeOffsetTable {encode : T → Option (List Byte)} {size : T → Nat}
    (each : ∀ {item bytes}, encode item = some bytes → bytes.length = size item) {items : List T}
    {bytes : List Byte} (written : encodeOffsetTable encode items = some bytes) :
    bytes.length = items.length * 4 + (items.map size).sum := by
  obtain ⟨⟨table, payloads⟩, parts, written⟩ := Option.bind_eq_some_iff.mp written
  cases written
  obtain ⟨tableLen, payloadsLen⟩ := length_encodeItems each parts
  rw [List.length_append, tableLen, payloadsLen]

theorem length_encodeFixed {c : Codec T} {size : T → Nat}
    (each : ∀ {item bytes}, c.encode item = some bytes → bytes.length = size item)
    {items : List T} {bytes : List Byte} (written : encodeFixed c items = some bytes) :
    bytes.length = (items.map size).sum := by
  obtain ⟨parts, encoded, rfl⟩ := Option.map_eq_some_iff.mp written
  clear written
  induction items generalizing parts with
  | nil =>
    cases encoded
    rfl
  | cons item rest ih =>
    rw [List.mapM_cons] at encoded
    obtain ⟨first, head, encoded⟩ := Option.bind_eq_some_iff.mp encoded
    obtain ⟨others, tail, encoded⟩ := Option.bind_eq_some_iff.mp encoded
    cases encoded
    rw [List.flatten_cons, List.length_append, each head, ih others tail, List.map_cons,
      List.sum_cons]

theorem sum_missed (len sparse : T → Nat) (items : List T) :
    (items.map fun item => len item + 4 * sparse item).sum =
      (items.map len).sum + 4 * (items.map sparse).sum := by
  rw [List.sum_map_add, List.sum_map_mul_left]

/-! ## One combinator at a time -/

/-- The bytes of a value are those announced and four more for each counted entry; a type of
fixed length announces that length and counts nothing. -/
structure Counts (c : Codec T) (len sparse : T → Nat) : Prop where
  written : ∀ {value bytes}, c.encode value = some bytes →
    bytes.length = len value + 4 * sparse value
  fixed : c.isFixed = true → ∀ value, len value = c.fixedLen ∧ sparse value = 0

namespace Counts

variable {c : Codec T} {len sparse : T → Nat} {k : Codec K} {v : Codec V}
  {lenK sparseK : K → Nat} {lenV sparseV : V → Nat}

theorem ofScalar (exact : ∀ {value bytes}, c.encode value = some bytes →
    bytes.length = len value) (fixed : c.isFixed = true → ∀ value, len value = c.fixedLen) :
    Counts c len fun _ => 0 :=
  ⟨exact, fun isFixed value => ⟨fixed isFixed value, rfl⟩⟩

/-- Types of variable length have nothing to say about a fixed one. -/
theorem ofVar (varLen : c.isFixed = false) (written : ∀ {value bytes},
    c.encode value = some bytes → bytes.length = len value + 4 * sparse value) :
    Counts c len sparse :=
  ⟨written, fun fixed => absurd fixed (by rw [varLen]; decide)⟩

theorem sum_fixed (counts : Counts c len sparse) (fixed : c.isFixed = true) (items : List T) :
    (items.map fun item => len item + 4 * sparse item).sum = c.fixedLen * items.length ∧
      (items.map sparse).sum = 0 := by
  have sizes : (fun item => len item + 4 * sparse item) = fun _ => c.fixedLen := by
    funext item
    obtain ⟨announced, nothing⟩ := counts.fixed fixed item
    rw [announced, nothing, Nat.mul_zero, Nat.add_zero]
  have nothing : sparse = fun _ => 0 := funext fun item => (counts.fixed fixed item).2
  rw [sizes, nothing, List.map_const', List.sum_replicate, List.map_const', List.sum_replicate]
  exact ⟨Nat.mul_comm .., Nat.mul_zero _⟩

theorem sequence (counts : Counts c len sparse) {items : List T} {bytes : List Byte}
    (written : encodeSequence c items = some bytes) :
    bytes.length = sequenceBytesLen c len items.length items + 4 * (items.map sparse).sum := by
  unfold encodeSequence at written
  unfold sequenceBytesLen
  split at written
  · next fixed =>
    obtain ⟨sizes, nothing⟩ := counts.sum_fixed fixed items
    rw [if_pos fixed, length_encodeFixed counts.written written, sizes, nothing,
      Nat.mul_zero, Nat.add_zero]
  · next varLen =>
    rw [if_neg varLen, length_encodeOffsetTable counts.written written, sum_missed,
      bytesPerLengthOffset]
    omega

theorem option (counts : Counts c len sparse) :
    Counts (Ssz.option c) (fun value => value.elim 1 (1 + len ·)) fun value =>
      value.elim 0 sparse := by
  refine ofVar rfl fun {value bytes} written => ?_
  cases value with
  | none =>
    cases written
    rfl
  | some value =>
    obtain ⟨payload, inner, rfl⟩ := Option.map_eq_some_iff.mp written
    have := counts.written inner
    simp only [List.length_cons, Option.elim_some]
    omega

theorem missingOr (counts : Counts c len sparse) :
    Counts (Ssz.missingOr c) (missingOrLen len) (MissingOr.count sparse) := by
  refine ofVar rfl fun {value bytes} written => ?_
  cases value with
  | materialized value =>
    obtain ⟨payload, inner, rfl⟩ := Option.map_eq_some_iff.mp written
    have := counts.written inner
    simp only [List.length_cons, missingOrLen, MissingOr.count]
    omega
  | missing hash =>
    cases written
    simp only [List.length_cons, hash.2, missingOrLen, MissingOr.count]

theorem encodeField (counts : Counts c len sparse) {running : Nat} {value : T}
    {slot payload : List Byte} (written : Ssz.encodeField c running value = some (slot, payload)) :
    slot.length = c.slotLen ∧
      payload.length = varBytesLen c len value + 4 * sparse value := by
  obtain ⟨bytes, encoded, written⟩ := Option.bind_eq_some_iff.mp written
  unfold Decode.slotLen varBytesLen
  split at written
  · next fixed =>
    rw [if_pos fixed, if_pos fixed, (counts.fixed fixed value).2]
    split at written
    · next full =>
      cases written
      exact ⟨full, rfl⟩
    · cases written
  · next varLen =>
    cases written
    rw [if_neg varLen, if_neg varLen]
    exact ⟨LittleEndian.length_encode .., counts.written encoded⟩

theorem containerPair (countsK : Counts k lenK sparseK) (countsV : Counts v lenV sparseV)
    {value : K × V} {bytes : List Byte} (written : encodeContainerPair k v value = some bytes) :
    bytes.length =
      pairLen k v lenK lenV value + 4 * (sparseK value.1 + sparseV value.2) := by
  obtain ⟨⟨slotK, payloadK⟩, first, written⟩ := Option.bind_eq_some_iff.mp written
  -- The offset of the second field is moved or kept; its size is the same.
  obtain ⟨running, rest⟩ : ∃ running, ((Ssz.encodeField v running value.2).bind fun second =>
      some (slotK ++ second.1 ++ (payloadK ++ second.2))) = some bytes := by
    dsimp only at written
    split at written
    · exact ⟨_, written⟩
    · obtain ⟨running, -, written⟩ := Option.bind_eq_some_iff.mp written
      exact ⟨running, written⟩
  obtain ⟨⟨slotV, payloadV⟩, second, written⟩ := Option.bind_eq_some_iff.mp rest
  cases written
  obtain ⟨slotLenK, payloadLenK⟩ := countsK.encodeField first
  obtain ⟨slotLenV, payloadLenV⟩ := countsV.encodeField second
  simp only [List.length_append, slotLenK, payloadLenK, slotLenV, payloadLenV, pairLen]
  omega

theorem pair (countsK : Counts k lenK sparseK) (countsV : Counts v lenV sparseV) :
    Counts (Ssz.pair k v) (fun value => if (Ssz.pair k v).isFixed then k.fixedLen + v.fixedLen
      else pairLen k v lenK lenV value) fun value => sparseK value.1 + sparseV value.2 := by
  constructor
  · intro value bytes written
    change (if (Ssz.pair k v).isFixed then _ else _) = some bytes at written
    by_cases fixed : (Ssz.pair k v).isFixed = true
    · rw [if_pos fixed] at written ⊢
      obtain ⟨fixedK, fixedV⟩ := Bool.and_eq_true_iff.mp fixed
      obtain ⟨first, encodedK, written⟩ := Option.bind_eq_some_iff.mp written
      obtain ⟨second, encodedV, written⟩ := Option.bind_eq_some_iff.mp written
      cases written
      obtain ⟨lenFirst, -⟩ := countsK.fixed fixedK value.1
      obtain ⟨lenSecond, -⟩ := countsV.fixed fixedV value.2
      rw [List.length_append, countsK.written encodedK, countsV.written encodedV, lenFirst,
        lenSecond]
      omega
    · rw [if_neg fixed] at written ⊢
      exact countsK.containerPair countsV written
  · intro fixed value
    obtain ⟨fixedK, fixedV⟩ := Bool.and_eq_true_iff.mp fixed
    have slot : (Ssz.pair k v).fixedLen = k.fixedLen + v.fixedLen := if_pos fixed
    rw [if_pos fixed, slot, (countsK.fixed fixedK value.1).2, (countsV.fixed fixedV value.2).2]
    exact ⟨rfl, rfl⟩

theorem btreeMap [LinearOrder K] (countsK : Counts k lenK sparseK)
    (countsV : Counts v lenV sparseV) :
    Counts (Ssz.btreeMap k v) (fun map =>
        if (Ssz.pair k v).isFixed then (Ssz.pair k v).fixedLen * map.entries.length
        else map.entries.length * bytesPerLengthOffset +
          (map.entries.map (pairLen k v lenK lenV)).sum)
      fun map => (map.entries.map fun e => sparseK e.1 + sparseV e.2).sum := by
  refine ofVar rfl fun {map bytes} written => ?_
  have counts := countsK.pair countsV
  change (if (Ssz.pair k v).isFixed then _ else _) = some bytes at written
  by_cases fixed : (Ssz.pair k v).isFixed = true
  · rw [if_pos fixed] at written ⊢
    obtain ⟨sizes, nothing⟩ := counts.sum_fixed fixed map.entries
    rw [length_encodeFixed counts.written written, sizes, nothing, Nat.mul_zero, Nat.add_zero]
  · rw [if_neg fixed] at written ⊢
    rw [length_encodeOffsetTable (countsK.containerPair countsV) written, sum_missed,
      bytesPerLengthOffset]
    omega

/-- Entries of a map: the table, the key and the offset of the value, and the value. -/
theorem entries (counts : Counts c len sparse) {key : Codec K} {size : Nat}
    (keySize : ∀ {key' bytes}, key.encode key' = some bytes → bytes.length = size)
    {entries : List (K × MissingOr T)} {bytes : List Byte}
    (written : encodeOffsetTable (encodeEntry key c) entries = some bytes) :
    bytes.length = entries.length * (4 + size + 4) +
      (entries.map fun e => missingOrLen len e.2).sum +
        4 * (entries.map fun e => e.2.count sparse).sum := by
  have each : ∀ {e bytes}, encodeEntry key c e = some bytes → bytes.length =
      (size + 4) + (missingOrLen len e.2 + 4 * e.2.count sparse) := by
    intro e bytes written
    obtain ⟨keyBytes, encoded, written⟩ := Option.bind_eq_some_iff.mp written
    obtain ⟨value, inner, written⟩ := Option.bind_eq_some_iff.mp written
    cases written
    rw [List.length_append, List.length_append, keySize encoded, LittleEndian.length_encode,
      counts.missingOr.written inner, Nat.add_assoc]
  have sums : (entries.map fun e =>
      (size + 4) + (missingOrLen len e.2 + 4 * e.2.count sparse)).sum =
      entries.length * (size + 4) + ((entries.map fun e => missingOrLen len e.2).sum +
        4 * (entries.map fun e => e.2.count sparse).sum) := by
    rw [List.sum_map_add, List.map_const', List.sum_replicate, sum_missed]
    rfl
  rw [length_encodeOffsetTable each written, sums, Nat.add_assoc 4, Nat.mul_add _ 4]
  omega

theorem radixMap (counts : Counts c len sparse) (keyBytes : Nat) :
    Counts (Ssz.radixMap c keyBytes) (fun map => 4 + map.entries.length * (4 + keyBytes + 4) +
      (map.entries.map fun e => missingOrLen len e.2).sum) fun map =>
        (map.entries.map fun e => e.2.count sparse).sum := by
  refine ofVar rfl fun {map bytes} written => ?_
  obtain ⟨body, encoded, written⟩ := Option.bind_eq_some_iff.mp written
  cases written
  have keySize : ∀ {key bytes}, (byteArray keyBytes).encode key = some bytes →
      bytes.length = keyBytes := by
    rintro key _ ⟨⟩
    exact key.2
  rw [List.length_append, LittleEndian.length_encode, counts.entries keySize encoded]
  omega

/-- The announced length has twelve bytes for an entry besides its value, but sixteen are written:
the slot of the entry in the offset table, the key, and the offset of the value. -/
theorem sparseList (counts : Counts c len sparse) (limit : Nat) :
    Counts (Ssz.sparseList c limit) (fun list => 12 + list.entries.entries.length * 12 +
      (list.entries.entries.map fun e => missingOrLen len e.2).sum) fun list =>
        list.entries.entries.length + (list.entries.entries.map fun e => e.2.count sparse).sum := by
  refine ofVar rfl fun {list bytes} written => ?_
  obtain ⟨body, encoded, written⟩ := Option.bind_eq_some_iff.mp written
  cases written
  have keySize : ∀ {key bytes}, (uint 8).encode key = some bytes → bytes.length = 8 := by
    rintro key _ ⟨⟩
    exact LittleEndian.length_encode ..
  have measured := @entries T (BitVec 64) c len sparse counts (uint 8) 8 keySize _ _ encoded
  rw [List.length_append, List.length_append, LittleEndian.length_encode,
    LittleEndian.length_encode, measured]
  omega

end Counts

/-! ## Every built type -/

theorem length_setPackedBit {bytes bytes' : List Byte} {i : Nat}
    (set : setPackedBit bytes i = some bytes') : bytes'.length = bytes.length := by
  unfold setPackedBit at set
  split at set
  · cases set
    exact List.length_modify _ _ _
  · cases set

theorem length_packBits {source : Nat → Option Bool} {count : Nat} {buf buf' : List Byte}
    (packed : packBits source count buf = some buf') : buf'.length = buf.length := by
  induction count generalizing buf' with
  | zero =>
    cases packed
    rfl
  | succ count ih =>
    rw [packBits, List.range_succ, List.foldlM_append] at packed
    obtain ⟨before, earlier, packed⟩ := Option.bind_eq_some_iff.mp packed
    simp only [List.foldlM_cons, List.foldlM_nil, bind_pure] at packed
    obtain ⟨bit, -, packed⟩ := Option.bind_eq_some_iff.mp packed
    cases bit with
    | false =>
      cases packed
      exact ih earlier
    | true => exact (length_setPackedBit packed).trans (ih earlier)

/-- Every built type writes four bytes more than it announces for each entry of a sparse list. -/
theorem SszType.counts : {T : Type} → (t : SszType T) → Counts t.codec t.bytesLen t.sparseEntries
  | _, .uint size =>
    .ofScalar (by rintro _ _ ⟨⟩; exact LittleEndian.length_encode ..) fun _ _ => rfl
  | _, .bool => .ofScalar (by rintro _ _ ⟨⟩; rfl) fun _ _ => rfl
  | _, .nonZeroU32 =>
    .ofScalar (by rintro _ _ ⟨⟩; exact LittleEndian.length_encode ..) fun _ _ => rfl
  | _, .byteArray n => .ofScalar (by rintro value _ ⟨⟩; exact value.2) fun _ _ => rfl
  | _, .u64Array n => .ofScalar (by
      rintro value _ ⟨⟩
      simp only [List.length_flatMap, LittleEndian.length_encode, List.map_const',
        List.sum_replicate, value.2]
      rfl) fun _ _ => rfl
  | _, .option item => by
    have counts := item.counts.option
    refine ⟨fun {value bytes} written => ?_, nofun⟩
    have measured := counts.written written
    cases value <;> exact measured
  | _, .missingOr item => item.counts.missingOr
  | _, .pair first second => first.counts.pair second.counts
  | _, .vec item => .ofVar rfl item.counts.sequence
  | _, .smallVec item => .ofVar rfl item.counts.sequence
  | _, .list item cap => .ofVar rfl item.counts.sequence
  | _, .fixedVector item n => by
    constructor
    · intro items bytes written
      have measured := item.counts.sequence written
      rw [items.2] at measured
      exact measured
    · intro fixed items
      have fixed : item.codec.isFixed = true := fixed
      have slot : (fixedVector item n).codec.fixedLen = item.codec.fixedLen * n := if_pos fixed
      exact ⟨(if_pos fixed).trans slot.symm, (item.counts.sum_fixed fixed items.1).2⟩
  | _, @SszType.btreeMap _ _ _ key value => key.counts.btreeMap value.counts
  | _, .bitlist capacity => by
    refine .ofScalar (fun {bits bytes} written => ?_) nofun
    obtain ⟨buf, packed, set⟩ := Option.bind_eq_some_iff.mp written
    rw [length_setPackedBit set, length_packBits packed, List.length_replicate]
    rfl
  | _, .bitvector n => .ofScalar (by rintro value _ ⟨⟩; exact value.2) fun _ _ => rfl
  | _, .radixMap value keyBytes => value.counts.radixMap keyBytes
  | _, .sparseList item limit => item.counts.sparseList limit

/-- A value announces the number of bytes that it writes exactly if the sparse lists inside it are
all empty. -/
theorem bytesLen_eq_iff {T : Type} (t : SszType T) (value : T) (bytes : List Byte)
    (written : t.codec.encode value = some bytes) :
    t.bytesLen value = bytes.length ↔ t.sparseEntries value = 0 := by
  rw [t.counts.written written]
  omega

theorem bytesLen_eq_iff_twoOptions :
    (SszType.vec (.option (.uint 2))).bytesLen [some 3, none] = 12 :=
  (bytesLen_eq_iff (.vec (.option (.uint 2))) [some 3, none]
    [8, 0, 0, 0, 11, 0, 0, 0, 1, 3, 0, 0] (by decide)).mpr (by decide)

def oneEntry : SparseList (BitVec 8) := ⟨1, ⟨[(0, .materialized 7)], List.pairwise_singleton _ _⟩⟩

/-- One entry is written with four bytes more than announced. -/
theorem bytesLen_oneEntry : (SszType.sparseList (.uint 1) 4).bytesLen oneEntry = 26 ∧
    ((SszType.sparseList (.uint 1) 4).codec.encode oneEntry).map List.length = some 30 := by
  decide

end Jar.Ssz
