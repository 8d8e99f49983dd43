import Jar.Ssz.Merkle

/-! Bit lists and bit vectors, packed from the least significant bit of each byte. -/

namespace Jar.Ssz

/-- Bytes in memory; the bits of fewer than 2 to the 61 of them are counted in 64 bits. -/
abbrev ByteSlice := { bytes : List Byte // bytes.length < 2 ^ 61 }

/-- Logical bits in memory, one byte each. -/
abbrev BoolSlice := { bits : List Bool // bits.length < 2 ^ 63 }

/-- The bit at a position; a position behind the bytes panics. -/
def packedBit (bytes : List Byte) (i : Nat) : Option Bool :=
  (bytes[i / 8]?).map fun byte : Byte => (byte >>> (i % 8)) &&& 1 = 1

/-- Set the bit at a position; a position behind the bytes panics. -/
def setPackedBit (bytes : List Byte) (i : Nat) : Option (List Byte) :=
  if i / 8 < bytes.length then some (bytes.modify (i / 8) (· ||| 1#8 <<< (i % 8))) else none

/-- Set the first bits of a buffer that are set in a source. -/
def packBits (source : Nat → Option Bool) (count : Nat) (buf : List Byte) : Option (List Byte) :=
  (List.range count).foldlM
    (fun buf i => do if ← source i then setPackedBit buf i else some buf) buf

/-! ## Bit lists -/

/-- A list of bits: its packed bytes and its length in bits. -/
structure Bitlist where
  bytes : List Byte
  bitLen : Nat
  deriving DecidableEq

namespace Bitlist

/-- Pack logical bits, at most as many as the capacity. -/
def fromBits (capacity : Nat) (bits : BoolSlice) : Decoder Bitlist :=
  if capacity < bits.1.length then throw (.boundExceeded bits.1.length capacity)
  else
    let byteLen := (bits.1.length + 7) / 8
    match packBits (bits.1[·]?) bits.1.length (List.replicate byteLen 0) with
    | some bytes => pure ⟨bytes, bits.1.length⟩
    | none => Attempt.crash

/-- The bit at an index, absent behind the last one. -/
def get (list : Bitlist) (i : Nat) : Option Bool :=
  if list.bitLen ≤ i then none else packedBit list.bytes i

/-- The number of bytes on the wire, with the sentinel. -/
def wireByteLen (list : Bitlist) : Nat := ((list.bitLen + 1) % 2 ^ 64 + 7) / 8

/-- The data bits, followed by the sentinel. -/
def encode (list : Bitlist) : Option (List Byte) := do
  let buf ← packBits (packedBit list.bytes) list.bitLen (List.replicate list.wireByteLen 0)
  setPackedBit buf list.bitLen

/-- The highest bit of the last byte is the sentinel; the bits before it are the data. -/
def fromSszBytes (capacity : Nat) (bytes : List Byte) : Decoder Bitlist :=
  match bytes.getLast? with
  | none => throw .missingBitlistSentinel
  | some last =>
    if last = 0 then throw .missingBitlistSentinel
    else
      let sentinelBitInByte := 7 - last.clz.toNat
      let bitLen := ((bytes.length - 1) * 8 + sentinelBitInByte) % 2 ^ 64
      if capacity < bitLen then throw (.boundExceeded bitLen capacity)
      else
        let keepMask := 1#8 <<< sentinelBitInByte - 1
        let data := bytes.modify (bytes.length - 1) (· &&& keepMask)
        let neededDataBytes := (bitLen + 7) / 8
        pure ⟨data.take neededDataBytes, bitLen⟩

def codec (capacity : Nat) : Codec Bitlist where
  isFixed := false
  fixedLen := bytesPerLengthOffset
  encode := encode
  decode := fromSszBytes capacity

def rootOf (capacity : Nat) (d : Digest) (list : Bitlist) : ByteVector 32 :=
  let capBytes := (capacity + 7) / 8
  let chunkLimit := max ((capBytes + 31) / 32) 1
  mixInLength d.hasher (merkleize d.hasher (packBytes list.bytes) chunkLimit) list.bitLen

end Bitlist

/-! ## Bit vectors -/

def bitvecBytes (n : Nat) : Nat := (n + 7) / 8

/-- The bits of the last byte that lie behind the last bit are clear. -/
def validateTrailingZeroBits (bytes : List Byte) (n : Nat) : Option DecodeError :=
  if n = 0 then if bytes.any (· ≠ 0) then some .excessBits else none
  else if n % 8 = 0 then none
  else
    let mask := ~~~(1#8 <<< (n % 8) - 1)
    if bytes.getLastD 0 &&& mask ≠ 0 then some .excessBits else none

/-- Bit vectors of `n` bits, packed in as few bytes as they fit in. -/
def bitvector (n : Nat) : Codec (ByteVector (bitvecBytes n)) where
  isFixed := true
  fixedLen := bitvecBytes n
  encode value := some value.1
  decode bytes :=
    if same : bytes.length = bitvecBytes n then
      match validateTrailingZeroBits bytes n with
      | some e => throw e
      | none => pure ⟨bytes, same⟩
    else throw (.unexpectedEof (bitvecBytes n) bytes.length)

end Jar.Ssz
