import Jar.Exec.Compressed
import Jar.Lib.Attempt
import Jar.Lib.LittleEndian
import Jar.Lib.SortedMap
import Jar.Lib.Word

/-! The wire layer of SSZ: errors, offsets, codecs and the codecs of scalars. -/

namespace Jar.Ssz

open scoped Word

/-- Errors while decoding. -/
inductive DecodeError where
  | unexpectedEof (expected actual : Nat)
  | trailingBytes (expected actual : Nat)
  | invalidOffset (offset len fixed : Nat)
  | offsetsNotMonotonic (prev curr : Nat)
  | boundExceeded (len bound : Nat)
  | lengthMismatch (expected actual : Nat)
  | invalidSelector (selector : Byte)
  | invalidBool (value : Byte)
  | zeroNonZero
  | missingBitlistSentinel
  | excessBits
  | notSorted
  | custom (message : String)
  deriving DecidableEq, Repr

/-- Decoding returns a value, returns an error or panics. -/
abbrev Decoder := Attempt DecodeError

def bytesPerLengthOffset : Nat := 4

/-- Bytes from `start` up to `stop`; a range out of bounds panics. -/
def slice (bytes : List Byte) (start stop : Nat) : Decoder (List Byte) :=
  if start ≤ stop ∧ stop ≤ bytes.length then pure ((bytes.drop start).take (stop - start))
  else Attempt.crash

/-- Bytes at an offset, with an error when they end early. -/
def readSlice (bytes : List Byte) (offset len : Nat) : Decoder (List Byte) :=
  if bytes.length < offset + len then throw (.unexpectedEof len (bytes.length - offset))
  else slice bytes offset (offset + len)

/-- The little-endian number in the four bytes at a position. -/
def offsetAt (bytes : List Byte) (pos : Nat) : Nat :=
  LittleEndian.decode ((bytes.drop pos).take bytesPerLengthOffset)

/-- The offset at a position, with an error when its bytes end early. -/
def readOffset (bytes : List Byte) (pos : Nat) : Decoder Nat :=
  LittleEndian.decode <$> readSlice bytes pos bytesPerLengthOffset

/-! ## Codecs -/

/-- How the values of a type are read. -/
structure Decode (T : Type) where
  /-- Every value takes the same number of bytes. -/
  isFixed : Bool
  /-- Bytes in the fixed part of a container: the value itself, or an offset. -/
  fixedLen : Nat
  decode : List Byte → Decoder T

/-- How the values of a type are written and read. -/
structure Codec (T : Type) extends Decode T where
  /-- The bytes of a value; `none` is a panic. -/
  encode : T → Option (List Byte)

/-- What a field of the type takes in the fixed part of a container. -/
def Decode.slotLen {T : Type} (c : Decode T) : Nat :=
  if c.isFixed then c.fixedLen else bytesPerLengthOffset

/-- Every accepted byte string is the encoding of its value. -/
def Codec.Canonical {T : Type} (c : Codec T) : Prop :=
  ∀ bytes value, c.decode bytes = pure value → c.encode value = some bytes

def uint (size : Nat) : Codec (BitVec (8 * size)) where
  isFixed := true
  fixedLen := size
  encode value := some (LittleEndian.encode size value.toNat)
  decode bytes :=
    if bytes.length ≠ size then throw (.unexpectedEof size bytes.length)
    else pure (BitVec.ofNat _ (LittleEndian.decode bytes))

/-- Byte strings of a fixed length. -/
abbrev ByteVector (n : Nat) := { bytes : List Byte // bytes.length = n }

theorem length_zeroChunk : (List.replicate 32 (0 : Byte)).length = 32 := List.length_replicate

def byteArray (n : Nat) : Codec (ByteVector n) where
  isFixed := true
  fixedLen := n
  encode value := some value.1
  decode bytes :=
    if same : bytes.length = n then pure ⟨bytes, same⟩ else throw (.unexpectedEof n bytes.length)

/-- Truth values, as the bytes 0 and 1. -/
def bool : Codec Bool where
  isFixed := true
  fixedLen := 1
  encode value := some [if value then 1 else 0]
  decode
    | [byte] =>
      if byte = 0 then pure false else if byte = 1 then pure true else throw (.invalidBool byte)
    | bytes => throw (.unexpectedEof 1 bytes.length)

/-- Nonzero integers of four bytes. -/
def nonZeroU32 : Codec { value : BitVec 32 // value ≠ 0 } where
  isFixed := true
  fixedLen := 4
  encode value := (uint 4).encode value.1
  decode bytes := do
    let raw ← (uint 4).decode bytes
    if nonZero : raw ≠ 0 then pure ⟨raw, nonZero⟩ else throw .zeroNonZero

/-- Arrays of `n` integers of eight bytes. -/
def u64Array (n : Nat) : Codec { words : List (BitVec 64) // words.length = n } where
  isFixed := true
  fixedLen := n * 8
  encode value := some (value.1.flatMap fun word => LittleEndian.encode 8 word.toNat)
  decode bytes :=
    if bytes.length ≠ n * 8 then throw (.unexpectedEof (n * 8) bytes.length)
    else pure ⟨(List.range n).map fun i =>
      BitVec.ofNat 64 (LittleEndian.decode ((bytes.drop (i * 8)).take 8)), by simp⟩

/-- Values that may be absent: a selector and the payload. -/
def option {T : Type} (c : Codec T) : Codec (Option T) where
  isFixed := false
  fixedLen := bytesPerLengthOffset
  encode
    | none => some [0]
    | some value => (1 :: ·) <$> c.encode value
  decode
    | [] => throw (.unexpectedEof 1 0)
    | selector :: payload =>
      if selector = 0 then
        if payload.length + 1 ≠ 1 then throw (.trailingBytes 1 (payload.length + 1)) else pure none
      else if selector = 1 then some <$> c.decode payload
      else throw (.invalidSelector selector)

/-! ## Offset tables -/

/-- Move the running offset past a payload; the length is cut off to 32 bits and an overflow of
the sum panics. -/
def advance (running len : Nat) : Option Nat :=
  let next := running + len % 2 ^ 32
  if next < 2 ^ 32 then some next else none

/-- The offsets and the payloads of the items, from a running offset on. -/
def encodeItems {T : Type} (encode : T → Option (List Byte)) :
    Nat → List T → Option (List Byte × List Byte)
  | _, [] => some ([], [])
  | running, item :: rest => do
    let payload ← encode item
    let next ← advance running payload.length
    let (table, payloads) ← encodeItems encode next rest
    return (LittleEndian.encode 4 running ++ table, payload ++ payloads)

/-- A table of offsets, followed by the payloads it points to. -/
def encodeOffsetTable {T : Type} (encode : T → Option (List Byte)) (items : List T) :
    Option (List Byte) := do
  let header := items.length * bytesPerLengthOffset
  let (table, payloads) ← encodeItems encode (header % 2 ^ 32) items
  return table ++ payloads

/-- The entry of an offset table; `short` is the error of a table that ends before it. -/
def tableEntry (short : Nat → DecodeError) (bytes : List Byte) (i : Nat) : Decoder Nat :=
  if bytes.length < (i + 1) * bytesPerLengthOffset then throw (short i)
  else pure (offsetAt bytes (i * bytesPerLengthOffset))

/-- Read `count` entries from index `i` on: none may decrease or lie behind the end. -/
def readOffsets (short : Nat → DecodeError) (bytes : List Byte) (first : Nat) :
    Nat → Nat → Nat → Decoder (List Nat)
  | 0, _, _ => pure []
  | count + 1, i, prev => do
    let off ← tableEntry short bytes i
    if off < prev then throw (.offsetsNotMonotonic prev off)
    else if bytes.length < off then throw (.invalidOffset off bytes.length first)
    else
      let rest ← readOffsets short bytes first count (i + 1) off
      return off :: rest

/-- Decode the payloads behind an offset table. The first offset tells the number of items, which
is compared with an expected one. -/
def decodeOffsetTable {T : Type} (short : List Byte → Nat → DecodeError)
    (element : List Byte → Decoder T) (bytes : List Byte) (expectedLen : Option Nat) :
    Decoder (List T) :=
  if bytes.isEmpty then
    match expectedLen with
    | none => pure []
    | some 0 => pure []
    | some n => throw (.lengthMismatch n 0)
  else do
    let first ← tableEntry (short bytes) bytes 0
    if first % bytesPerLengthOffset ≠ 0 then throw (.invalidOffset first bytes.length 0)
    else if bytes.length < first then throw (.invalidOffset first bytes.length 0)
    else
      let n := first / bytesPerLengthOffset
      if expectedLen.any (· ≠ n) then throw (.lengthMismatch (expectedLen.getD 0) n)
      else
        let later ← readOffsets (short bytes) bytes first (n - 1) 1 first
        let offsets := first :: later ++ [bytes.length]
        ((offsets.zip offsets.tail).take n).mapM fun span =>
          slice bytes span.1 span.2 >>= element

end Jar.Ssz
