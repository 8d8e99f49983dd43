import Jar.Ssz.Wire
import Mathlib.Data.List.Lex

/-! The SSZ codecs of collections. -/

namespace Jar.Ssz

open scoped Word

variable {T K V : Type}

/-- Cap on the length of vectors, in elements. -/
def maxVecLen : Nat := 2 ^ 32

/-! ## Sequences -/

/-- Items of a fixed length, one after the other. -/
def encodeFixed (c : Codec T) (items : List T) : Option (List Byte) :=
  List.flatten <$> items.mapM c.encode

/-- Cut the bytes into `n` items of equal size. -/
def decodeItems (c : Decode T) (bytes : List Byte) (n : Nat) : Decoder (List T) :=
  (List.range n).mapM fun i =>
    slice bytes (i * c.fixedLen) (i * c.fixedLen + c.fixedLen) >>= c.decode

/-- Items of a fixed length fill the bytes; `zeroSized` is the error for items without bytes. -/
def decodeFixed (c : Decode T) (zeroSized : String) (cap : Option Nat) (bytes : List Byte) :
    Decoder (List T) :=
  let elem := c.fixedLen
  if elem = 0 then throw (.custom zeroSized)
  else if bytes.length % elem ≠ 0 then
    throw (.lengthMismatch ((bytes.length + elem - 1) / elem * elem) bytes.length)
  else
    let n := bytes.length / elem
    if cap.any (· < n) then throw (.boundExceeded n (cap.getD 0)) else decodeItems c bytes n

/-- The shared decoder of collections with items of variable length. -/
def decodeVarCollection (c : Decode T) (bytes : List Byte) (expectedLen : Option Nat) :
    Decoder (List T) :=
  decodeOffsetTable (fun bytes i => .unexpectedEof 4 (bytes.length - i * 4)) c.decode bytes
    expectedLen

/-- Encode a sequence: items of a fixed length, or an offset table. -/
def encodeSequence (c : Codec T) (items : List T) : Option (List Byte) :=
  if c.isFixed then encodeFixed c items else encodeOffsetTable c.encode items

def decodeSequence (c : Decode T) (zeroSized : String) (cap : Nat) (bytes : List Byte) :
    Decoder (List T) :=
  if c.isFixed then decodeFixed c zeroSized (some cap) bytes
  else do
    let out ← decodeVarCollection c bytes none
    if cap < out.length then throw (.boundExceeded out.length cap) else return out

/-- How growable vectors are read. -/
def decodeVec (c : Decode T) : Decode (List T) where
  isFixed := false
  fixedLen := bytesPerLengthOffset
  decode := decodeSequence c "zero-sized fixed-length Vec element" maxVecLen

def vec (c : Codec T) : Codec (List T) where
  toDecode := decodeVec c.toDecode
  encode := encodeSequence c

/-- How vectors that are stored inline while they are short are read. -/
def decodeSmallVec (c : Decode T) : Decode (List T) where
  isFixed := false
  fixedLen := bytesPerLengthOffset
  decode := decodeSequence c "zero-sized fixed-length SmallVec element" maxVecLen

/-- Vectors that are stored inline while they are short. -/
def smallVec (c : Codec T) : Codec (List T) where
  toDecode := decodeSmallVec c.toDecode
  encode := encodeSequence c

def list (c : Codec T) (cap : Nat) : Codec (List T) where
  isFixed := false
  fixedLen := bytesPerLengthOffset
  encode := encodeSequence c
  decode := decodeSequence c.toDecode "zero-sized fixed-length list element" cap

def decodeFixedVector (c : Decode T) (bytes : List Byte) (n : Nat) : Decoder (List T) :=
  if c.isFixed then
    let expected := min (c.fixedLen * n) (2 ^ 64 - 1)
    if bytes.length ≠ expected then throw (.lengthMismatch expected bytes.length)
    else decodeItems c bytes n
  else decodeVarCollection c bytes (some n)

def fixedVector (c : Codec T) (n : Nat) : Codec (List T) where
  isFixed := c.isFixed
  fixedLen := if c.isFixed then c.fixedLen * n else bytesPerLengthOffset
  encode := encodeSequence c
  decode bytes := decodeFixedVector c.toDecode bytes n

/-! ## Pairs -/

/-- The slot of a field in the fixed part and its payload; a fixed value has to fill its slot. -/
def encodeField (c : Codec T) (running : Nat) (value : T) : Option (List Byte × List Byte) := do
  let bytes ← c.encode value
  if c.isFixed then if bytes.length = c.fixedLen then some (bytes, []) else none
  else some (LittleEndian.encode 4 running, bytes)

/-- Two slots, followed by the payloads of those that are offsets. -/
def encodeContainerPair (a : Codec K) (b : Codec V) (pair : K × V) : Option (List Byte) := do
  let running := (a.slotLen + b.slotLen) % 2 ^ 32
  let (slotA, payloadA) ← encodeField a running pair.1
  let running ← if a.isFixed then some running else advance running payloadA.length
  let (slotB, payloadB) ← encodeField b running pair.2
  return slotA ++ slotB ++ (payloadA ++ payloadB)

/-- The offset of a field, if it has one. -/
def varOff (c : Decode T) (bytes : List Byte) (pos : Nat) : Decoder (Option Nat) :=
  if c.isFixed then pure none else some <$> readOffset bytes pos

/-- A component with an offset lies between two positions that are checked again here, one
without lies in its slot. -/
def decodeComponent (c : Decode T) (bytes : List Byte) (fixedRegionSize slot stop : Nat) :
    Option Nat → Decoder T
  | none => slice bytes slot (slot + c.slotLen) >>= c.decode
  | some start =>
    if bytes.length < stop ∨ stop < start then
      throw (.invalidOffset start bytes.length fixedRegionSize)
    else slice bytes start stop >>= c.decode

/-- Decode the two slots and the payloads their offsets point to. -/
def decodeContainerPair (a : Decode K) (b : Decode V) (bytes : List Byte) : Decoder (K × V) := do
  let fixedRegionSize := a.slotLen + b.slotLen
  if bytes.length < fixedRegionSize then throw (.unexpectedEof fixedRegionSize bytes.length)
  else
    let aVarOff ← varOff a bytes 0
    let bVarOff ← varOff b bytes a.slotLen
    if aVarOff.any (· < fixedRegionSize) then
      throw (.invalidOffset (aVarOff.getD 0) bytes.length fixedRegionSize)
    else if bVarOff.any (· < fixedRegionSize) then
      throw (.invalidOffset (bVarOff.getD 0) bytes.length fixedRegionSize)
    else if aVarOff.any fun start => bVarOff.any (· < start) then
      throw (.offsetsNotMonotonic (aVarOff.getD 0) (bVarOff.getD 0))
    else
      let aVal ← decodeComponent a bytes fixedRegionSize 0 (bVarOff.getD bytes.length) aVarOff
      let bVal ← decodeComponent b bytes fixedRegionSize a.slotLen bytes.length bVarOff
      return (aVal, bVal)

/-- How pairs of a key and a value are read. -/
def decodePair (a : Decode K) (b : Decode V) : Decode (K × V) where
  isFixed := a.isFixed && b.isFixed
  fixedLen := if a.isFixed && b.isFixed then a.fixedLen + b.fixedLen else bytesPerLengthOffset
  decode bytes :=
    if a.isFixed && b.isFixed then
      if bytes.length ≠ a.fixedLen + b.fixedLen then
        throw (.unexpectedEof (a.fixedLen + b.fixedLen) bytes.length)
      else do
        let first ← slice bytes 0 a.fixedLen >>= a.decode
        let second ← slice bytes a.fixedLen bytes.length >>= b.decode
        return (first, second)
    else decodeContainerPair a b bytes

def pair (a : Codec K) (b : Codec V) : Codec (K × V) where
  toDecode := decodePair a.toDecode b.toDecode
  encode value :=
    if a.isFixed && b.isFixed then do
      let first ← a.encode value.1
      let second ← b.encode value.2
      return first ++ second
    else encodeContainerPair a b value

/-! ## Maps -/

/-- The first error of a walk over the keys: one that is refused, or one that is not greater than
the key before it. -/
def checkKeys [LinearOrder K] (refuse : K → Option DecodeError) :
    Option K → List (K × V) → Option DecodeError
  | _, [] => none
  | prev, (key, _) :: rest =>
    match refuse key with
    | some e => some e
    | none =>
      if prev.any (key ≤ ·) then some .notSorted else checkKeys refuse (some key) rest

theorem pairwise_of_checkKeys [LinearOrder K] {refuse : K → Option DecodeError} {prev : Option K}
    {entries : List (K × V)} (checked : checkKeys refuse prev entries = none) :
    entries.Pairwise (fun a b => a.1 < b.1) ∧ ∀ key ∈ prev, ∀ e ∈ entries, key < e.1 := by
  induction entries generalizing prev with
  | nil => exact ⟨.nil, fun _ _ _ member => nomatch member⟩
  | cons first rest ih =>
    unfold checkKeys at checked
    split at checked
    · cases checked
    · split at checked
      · cases checked
      · next inOrder =>
        obtain ⟨sorted, above⟩ := ih checked
        have larger := above first.1 rfl
        refine ⟨List.pairwise_cons.mpr ⟨larger, sorted⟩, fun key given e member => ?_⟩
        have below : key < first.1 := by
          rw [Option.mem_def] at given
          simpa [given] using inOrder
        rcases List.mem_cons.mp member with rfl | later
        · exact below
        · exact lt_trans below (larger e later)

/-- Entries that pass the walk over their keys are a map. -/
def sortedMap [LinearOrder K] (refuse : K → Option DecodeError) (entries : List (K × V)) :
    Decoder (SortedMap K V) :=
  match checked : checkKeys refuse none entries with
  | some e => throw e
  | none => pure ⟨entries, (pairwise_of_checkKeys checked).1⟩

/-- The entries of an ordered map, as a list of pairs. -/
def decodePairs (k : Decode K) (v : Decode V) (bytes : List Byte) : Decoder (List (K × V)) :=
  if (decodePair k v).isFixed then
    decodeFixed (decodePair k v) "zero-sized fixed-length BTreeMap element" none bytes
  else decodeVarCollection (decodePair k v) bytes none

def decodeBTreeMap [LinearOrder K] (k : Decode K) (v : Decode V) : Decode (SortedMap K V) where
  isFixed := false
  fixedLen := bytesPerLengthOffset
  decode bytes := decodePairs k v bytes >>= sortedMap fun _ => none

def btreeMap [LinearOrder K] (k : Codec K) (v : Codec V) : Codec (SortedMap K V) where
  toDecode := decodeBTreeMap k.toDecode v.toDecode
  encode map :=
    if (pair k v).isFixed then encodeFixed (pair k v) map.entries
    else encodeOffsetTable (encodeContainerPair k v) map.entries

/-- A value, or the hash that stands for it. -/
inductive MissingOr (T : Type) where
  | materialized (value : T)
  | missing (hash : ByteVector 32)
  deriving DecidableEq

/-- How values that may be replaced by their hash are read. -/
def decodeMissingOr (c : Decode T) : Decode (MissingOr T) where
  isFixed := false
  fixedLen := bytesPerLengthOffset
  decode
    | [] => throw (.unexpectedEof 1 0)
    | tag :: payload =>
      if tag = 0 then .materialized <$> c.decode payload
      else if tag = 1 then
        if full : payload.length = 32 then pure (.missing ⟨payload, full⟩)
        else throw (.trailingBytes 33 (payload.length + 1))
      else throw (.invalidSelector tag)

/-- Values that may be replaced by their hash. -/
def missingOr (c : Codec T) : Codec (MissingOr T) where
  toDecode := decodeMissingOr c.toDecode
  encode
    | .materialized value => (0 :: ·) <$> c.encode value
    | .missing hash => some (1 :: hash.1)

/-- The entries of a map with keys of a fixed size: the key, the offset of the value behind it,
the value. -/
def encodeEntry (k : Codec K) (c : Codec V) (entry : K × MissingOr V) : Option (List Byte) := do
  let key ← k.encode entry.1
  let value ← (missingOr c).encode entry.2
  return key ++ (LittleEndian.encode 4 (k.fixedLen + bytesPerLengthOffset) ++ value)

/-- Decode one entry: the value has to start right behind its offset. -/
def decodeEntry (k : Decode K) (c : Decode V) (entry : List Byte) : Decoder (K × MissingOr V) := do
  let fixed := k.fixedLen + bytesPerLengthOffset
  if entry.length < fixed then throw (.unexpectedEof fixed entry.length)
  else
    let key ← slice entry 0 k.fixedLen >>= k.decode
    let valueOffset := offsetAt entry k.fixedLen
    if valueOffset ≠ fixed then throw (.invalidOffset valueOffset entry.length fixed)
    else
      let value ← slice entry fixed entry.length >>= (decodeMissingOr c).decode
      return (key, value)

/-- Decode the offset table of a map's entries. -/
def decodeEntriesList (k : Decode K) (c : Decode V) (bytes : List Byte) :
    Decoder (List (K × MissingOr V)) :=
  decodeOffsetTable (fun bytes i => .unexpectedEof ((i + 1) * 4) bytes.length) (decodeEntry k c)
    bytes none

/-- Maps from fixed-size byte keys to values that may be missing. -/
abbrev RadixMap (V : Type) (keyBytes : Nat) := SortedMap (ByteVector keyBytes) (MissingOr V)

/-- The codec of radix maps: an offset that is always 4, and the entries. -/
def radixMap (c : Codec V) (keyBytes : Nat) : Codec (RadixMap V keyBytes) where
  isFixed := false
  fixedLen := bytesPerLengthOffset
  encode map := do
    let entries ← encodeOffsetTable (encodeEntry (byteArray keyBytes) c) map.entries
    return LittleEndian.encode 4 4 ++ entries
  decode bytes :=
    if bytes.length < 4 then throw (.unexpectedEof 4 bytes.length)
    else
      let entriesOffset := offsetAt bytes 0
      if entriesOffset ≠ 4 then throw (.invalidOffset entriesOffset bytes.length 4)
      else do
        let entries ← slice bytes 4 bytes.length >>=
          decodeEntriesList (byteArray keyBytes).toDecode c.toDecode
        sortedMap (fun _ => none) entries

/-- Lists of a logical length of which only some entries are present. -/
structure SparseList (T : Type) where
  len : BitVec 64
  entries : SortedMap (BitVec 64) (MissingOr T)

def refuseIndex (limit : Nat) (index : BitVec 64) : Option DecodeError :=
  if limit ≤ index.toNat then some (.boundExceeded ((index.toNat + 1) % 2 ^ 64) limit) else none

/-- The codec of sparse lists: the length, an offset that is always 12, and the entries. -/
def sparseList (c : Codec T) (limit : Nat) : Codec (SparseList T) where
  isFixed := false
  fixedLen := bytesPerLengthOffset
  encode sparse := do
    let entries ← encodeOffsetTable (encodeEntry (uint 8) c) sparse.entries.entries
    return LittleEndian.encode 8 sparse.len.toNat ++ (LittleEndian.encode 4 12 ++ entries)
  decode bytes :=
    if bytes.length < 12 then throw (.unexpectedEof 12 bytes.length)
    else
      let len := BitVec.ofNat 64 (LittleEndian.decode (bytes.take 8))
      if limit < len.toNat then throw (.boundExceeded len.toNat limit)
      else
        let entriesOffset := offsetAt bytes 8
        if entriesOffset ≠ 12 then throw (.invalidOffset entriesOffset bytes.length 12)
        else do
          let entries ← slice bytes 12 bytes.length >>= decodeEntriesList (uint 8).toDecode c.toDecode
          let entries ← sortedMap (refuseIndex limit) entries
          return ⟨len, entries⟩

end Jar.Ssz
