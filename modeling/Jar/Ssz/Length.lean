import Jar.Ssz.Bits
import Jar.Ssz.Collections

/-! The types that the combinators build, and the number of bytes each announces for a value. -/

namespace Jar.Ssz

open scoped Word

variable {T K V : Type}

/-- A vector of exactly `n` items. -/
abbrev FixedVector (T : Type) (n : Nat) := { items : List T // items.length = n }

/-- A vector from its items, whose number is checked. -/
def FixedVector.fromVec (n : Nat) (items : List T) : Decoder (FixedVector T n) :=
  if full : items.length = n then pure ⟨items, full⟩ else throw (.lengthMismatch n items.length)

/-- The types that are built from the combinators, with the type of their values. -/
inductive SszType : Type → Type 1 where
  | uint (size : Nat) : SszType (BitVec (8 * size))
  | bool : SszType Bool
  | nonZeroU32 : SszType { value : BitVec 32 // value ≠ 0 }
  | byteArray (n : Nat) : SszType (ByteVector n)
  | u64Array (n : Nat) : SszType { words : List (BitVec 64) // words.length = n }
  | option {T : Type} (item : SszType T) : SszType (Option T)
  | missingOr {T : Type} (item : SszType T) : SszType (MissingOr T)
  | pair {A B : Type} (first : SszType A) (second : SszType B) : SszType (A × B)
  | vec {T : Type} (item : SszType T) : SszType (List T)
  | smallVec {T : Type} (item : SszType T) : SszType (List T)
  | list {T : Type} (item : SszType T) (cap : Nat) : SszType (List T)
  | fixedVector {T : Type} (item : SszType T) (n : Nat) : SszType (FixedVector T n)
  | btreeMap {K V : Type} [LinearOrder K] (key : SszType K) (value : SszType V) :
      SszType (SortedMap K V)
  | bitlist (capacity : Nat) : SszType Bitlist
  | bitvector (n : Nat) : SszType (ByteVector (bitvecBytes n))
  | radixMap {V : Type} (value : SszType V) (keyBytes : Nat) : SszType (RadixMap V keyBytes)
  | sparseList {T : Type} (item : SszType T) (limit : Nat) : SszType (SparseList T)

/-- How the values of a built type are written and read. -/
def SszType.codec : {T : Type} → SszType T → Codec T
  | _, .uint size => Ssz.uint size
  | _, .bool => Ssz.bool
  | _, .nonZeroU32 => Ssz.nonZeroU32
  | _, .byteArray n => Ssz.byteArray n
  | _, .u64Array n => Ssz.u64Array n
  | _, .option item => Ssz.option item.codec
  | _, .missingOr item => Ssz.missingOr item.codec
  | _, .pair first second => Ssz.pair first.codec second.codec
  | _, .vec item => Ssz.vec item.codec
  | _, .smallVec item => Ssz.smallVec item.codec
  | _, .list item cap => Ssz.list item.codec cap
  | _, .fixedVector item n =>
    let c := Ssz.fixedVector item.codec n
    -- The decoder has counted the items already, so the second count never fails.
    ⟨⟨c.isFixed, c.fixedLen, fun bytes => c.decode bytes >>= FixedVector.fromVec n⟩,
      fun items => c.encode items.1⟩
  | _, @SszType.btreeMap _ _ _ key value => Ssz.btreeMap key.codec value.codec
  | _, .bitlist capacity => Bitlist.codec capacity
  | _, .bitvector n => Ssz.bitvector n
  | _, .radixMap value keyBytes => Ssz.radixMap value.codec keyBytes
  | _, .sparseList item limit => Ssz.sparseList item.codec limit

/-! ## Announced lengths

Machine words hold the length of everything that fits in memory, so the sums do not overflow. -/

/-- The length of a sequence of `n` items. -/
def sequenceBytesLen (c : Codec T) (itemLen : T → Nat) (n : Nat) (items : List T) : Nat :=
  if c.isFixed then c.fixedLen * n
  else n * bytesPerLengthOffset + (items.map itemLen).sum

/-- What a field adds behind the fixed part. -/
def varBytesLen (c : Codec T) (itemLen : T → Nat) (value : T) : Nat :=
  if c.isFixed then 0 else itemLen value

/-- The length of a container of two fields. -/
def pairLen (a : Codec K) (b : Codec V) (keyLen : K → Nat) (valueLen : V → Nat)
    (pair : K × V) : Nat :=
  a.slotLen + b.slotLen + varBytesLen a keyLen pair.1 + varBytesLen b valueLen pair.2

/-- The length of a value that may be replaced by its hash. -/
def missingOrLen (itemLen : T → Nat) : MissingOr T → Nat
  | .materialized value => 1 + itemLen value
  | .missing _ => 1 + 32

def SszType.bytesLen : {T : Type} → SszType T → T → Nat
  | _, .uint size, _ => size
  | _, .bool, _ => 1
  | _, .nonZeroU32, _ => 4
  | _, .byteArray n, _ => n
  | _, .u64Array n, _ => n * 8
  | _, .option _, none => 1
  | _, .option item, some value => 1 + item.bytesLen value
  | _, .missingOr item, value => missingOrLen item.bytesLen value
  | _, .pair first second, value =>
    if (Ssz.pair first.codec second.codec).isFixed then
      first.codec.fixedLen + second.codec.fixedLen
    else pairLen first.codec second.codec first.bytesLen second.bytesLen value
  | _, .vec item, items => sequenceBytesLen item.codec item.bytesLen items.length items
  | _, .smallVec item, items => sequenceBytesLen item.codec item.bytesLen items.length items
  | _, .list item _, items => sequenceBytesLen item.codec item.bytesLen items.length items
  | _, .fixedVector item n, items => sequenceBytesLen item.codec item.bytesLen n items.1
  | _, @SszType.btreeMap _ _ _ key value, map =>
    let elem := Ssz.pair key.codec value.codec
    if elem.isFixed then elem.fixedLen * map.entries.length
    else map.entries.length * bytesPerLengthOffset +
      (map.entries.map (pairLen key.codec value.codec key.bytesLen value.bytesLen)).sum
  | _, .bitlist _, bits => bits.wireByteLen
  | _, .bitvector n, _ => bitvecBytes n
  | _, .radixMap value keyBytes, map =>
    let var := (map.entries.map fun e => missingOrLen value.bytesLen e.2).sum
    4 + map.entries.length * (bytesPerLengthOffset + keyBytes + bytesPerLengthOffset) + var
  | _, .sparseList item _, sparse =>
    let entryVarSize := (sparse.entries.entries.map fun e => missingOrLen item.bytesLen e.2).sum
    12 + sparse.entries.entries.length * 12 + entryVarSize

end Jar.Ssz
