import Jar.Ssz.Collections

/-! The decoders that are derived for structs and enums. -/

namespace Jar.Ssz

open Attempt

variable {V : Type}

/-- Machine-word addition; an overflow panics. -/
def addUsize (a b : Nat) : Decoder Nat := if a + b < 2 ^ 64 then pure (a + b) else crash

/-- Something that has to be there; its absence panics. -/
def expect {A : Type} : Option A → Decoder A
  | none => crash
  | some a => pure a

def fixedSize (fields : List (Decode V)) : Decoder Nat :=
  fields.foldlM (fun total field => addUsize total field.slotLen) 0

/-- What the first pass stores of a field: its value if it is fixed, else its offset. -/
structure Slot (V : Type) where
  val : Option V
  off : Option Nat

def readSlot (bytes : List Byte) (cursor : Nat) (field : Decode V) : Decoder (Slot V × Nat) := do
  let stop ← addUsize cursor field.slotLen
  if bytes.length < stop then throw (.unexpectedEof stop bytes.length)
  else
    let part ← slice bytes cursor stop
    if field.isFixed then
      let value ← field.decode part
      return (⟨some value, none⟩, stop)
    else return (⟨none, some (LittleEndian.decode part)⟩, stop)

/-- First pass: walk the fixed region. -/
def readSlots (bytes : List Byte) : Nat → List (Decode V) → Decoder (List (Slot V) × Nat)
  | cursor, [] => pure ([], cursor)
  | cursor, field :: rest => do
    let (slot, next) ← readSlot bytes cursor field
    let (slots, stop) ← readSlots bytes next rest
    return (slot :: slots, stop)

/-- The variable fields with their offsets, in the order of declaration. -/
def varPositions : Nat → List (Decode V × Slot V) → Decoder (List (Nat × Nat))
  | _, [] => pure []
  | i, (field, slot) :: rest =>
    if field.isFixed then varPositions (i + 1) rest
    else do
      let off ← expect slot.off
      let later ← varPositions (i + 1) rest
      return (i, off) :: later

/-- The first pair of neighbours that decreases. -/
def decreasing : List (Nat × Nat) → Option DecodeError
  | a :: b :: rest =>
    if b.2 < a.2 then some (.offsetsNotMonotonic a.2 b.2) else decreasing (b :: rest)
  | _ => none

/-- The first offset ends the fixed region; without offsets the region is all there is. -/
def checkFixedSize (len size : Nat) : List (Nat × Nat) → Option DecodeError
  | (_, first) :: _ => if first ≠ size then some (.invalidOffset first len size) else none
  | [] => if len ≠ size then some (.trailingBytes size len) else none

/-- Where the payload of the variable field with this index ends. -/
def windowEnd (len : Nat) (positions : List (Nat × Nat)) (i : Nat) : Decoder Nat := do
  let idx ← expect (positions.findIdx? fun position => position.1 = i)
  if idx + 1 < positions.length then Prod.snd <$> expect positions[idx + 1]? else return len

/-- Second pass: decode the variable fields from their windows. -/
def readWindows (bytes : List Byte) (positions : List (Nat × Nat)) :
    Nat → List (Decode V × Slot V) → Decoder (List (Option V))
  | _, [] => pure []
  | i, (field, slot) :: rest =>
    if field.isFixed then (slot.val :: ·) <$> readWindows bytes positions (i + 1) rest
    else do
      let start ← expect slot.off
      let stop ← windowEnd bytes.length positions i
      if stop < start then throw (.offsetsNotMonotonic start stop)
      else
        let value ← slice bytes start stop >>= field.decode
        let values ← readWindows bytes positions (i + 1) rest
        return some value :: values

def failIf : Option DecodeError → Decoder Unit
  | none => pure ()
  | some e => throw e

/-- Check the offsets that the first pass has stored, and decode what they point to. -/
def decodePayloads (bytes : List Byte) (size : Nat) (slots : List (Decode V × Slot V)) :
    Decoder (List V) := do
  let positions ← varPositions 0 slots
  failIf (decreasing positions)
  failIf (checkFixedSize bytes.length size positions)
  let values ← readWindows bytes positions 0 slots
  values.mapM expect

def containerDecodeBody (fields : List (Decode V)) (bytes : List Byte) : Decoder (List V) := do
  let size ← fixedSize fields
  let (slots, cursor) ← readSlots bytes 0 fields
  if cursor ≠ size then crash else decodePayloads bytes size (fields.zip slots)

/-- Structs, by the fields that are not skipped; without any the bytes are not looked at. -/
def decodeStruct (fields : List (Decode V)) : Decode (List V) where
  isFixed := fields.all (·.isFixed)
  fixedLen := (fields.map Decode.slotLen).sum
  decode bytes := if fields.isEmpty then pure [] else containerDecodeBody fields bytes

/-- The variants of an enum: no payload, one unnamed field, or named fields. -/
inductive Variant (V : Type) where
  | unit
  | newtype (field : Decode V)
  | named (fields : List (Decode V))

def Variant.decodePayload : Variant V → List Byte → Decoder (List V)
  | .unit, payload =>
    if payload ≠ [] then throw (.trailingBytes 1 (payload.length + 1)) else pure []
  | .newtype field, payload => (fun value => [value]) <$> field.decode payload
  | .named [], payload =>
    if payload ≠ [] then throw (.trailingBytes 1 (payload.length + 1)) else pure []
  | .named fields, payload => containerDecodeBody fields payload

/-- Enums, by the selectors of their variants: the first arm with the selector is taken. -/
def decodeEnum (variants : List (Byte × Variant V)) : Decode (Byte × List V) where
  isFixed := false
  fixedLen := bytesPerLengthOffset
  decode
    | [] => throw (.unexpectedEof 1 0)
    | selector :: payload =>
      match variants.find? fun variant => variant.1 = selector with
      | none => throw (.invalidSelector selector)
      | some variant => (fun values => (selector, values)) <$> variant.2.decodePayload payload

end Jar.Ssz
