import Jar.Ssz.Derive

/-! The untrusted wire form of a program image. -/

namespace Jar.Cap

open Ssz
open scoped Word

/-- Decoded data of any of the types in an image. -/
inductive Value where
  | uint (value : Nat)
  | bytes (bytes : List Byte)
  | list (items : List Value)
  | map (entries : List (Value × Value))
  | option (value : Option Value)
  | record (selector : Option Byte) (fields : List Value)

/-- Read another type through the decoder of one. -/
def view {T U : Type} (f : T → U) (c : Decode T) : Decode U where
  isFixed := c.isFixed
  fixedLen := c.fixedLen
  decode bytes := f <$> c.decode bytes

def uintField (size : Nat) : Decode Value := view (fun n => .uint n.toNat) (uint size).toDecode

def structField (fields : List (Decode Value)) : Decode Value :=
  view (.record none) (decodeStruct fields)

def enumField (variants : List (Byte × Variant Value)) : Decode Value :=
  view (fun decoded => .record (some decoded.1) decoded.2) (decodeEnum variants)

def vecField (c : Decode Value) : Decode Value := view .list (decodeVec c)

/-- Byte-string keys: a transparent wrapper of a byte vector. -/
def key : Decode (List (BitVec (8 * 1))) := decodeSmallVec (uint 1).toDecode

def keyField : Decode Value := view (fun bytes => .bytes bytes) key

def keyMapField (c : Decode Value) : Decode Value :=
  view (fun map => .map (map.entries.map fun entry => (.bytes entry.1, entry.2)))
    (decodeBTreeMap key c)

/-- Optional values: a selector, and the value if there is one. -/
def optionField (c : Decode Value) : Decode Value where
  isFixed := false
  fixedLen := bytesPerLengthOffset
  decode
    | [] => throw (.unexpectedEof 1 0)
    | selector :: payload =>
      if selector = 0 then
        if payload ≠ [] then throw (.trailingBytes 1 (payload.length + 1))
        else pure (.option none)
      else if selector = 1 then (fun value => .option (some value)) <$> c.decode payload
      else throw (.invalidSelector selector)

def codeRef : Decode Value := structField [uintField 4, uintField 4]

/-- Entry PC, register conventions and initial registers. -/
def endpointDef : Decode Value :=
  structField [uintField 8, uintField 1, uintField 1,
    view (fun map => .map (map.entries.map fun entry => (.uint entry.1.toNat, .uint entry.2.toNat)))
      (decodeBTreeMap (uint 1).toDecode (uint 8).toDecode)]

/-- A mapped region and the path of the slots to its content. -/
def memoryMapping : Decode Value :=
  structField [uintField 8, uintField 8, view .list (decodeSmallVec keyField)]

def arenaPageRef : Decode Value := structField [uintField 4, uintField 4, uintField 4]

def dataDesc : Decode Value := structField [uintField 8, vecField arenaPageRef]

/-- Pinned content: data, or an image by its hash. -/
def pinnedCap : Decode Value :=
  enumField [(0, .named [dataDesc]),
    (1, .named [view (fun hash => .bytes hash.1) (byteArray 32).toDecode])]

/-- The fields of an image: code, endpoints, memory mappings, pinned and initial slots, the yield
receiver, gas and quota slots, and the arena. -/
def imageFields : List (Decode Value) :=
  [codeRef, keyMapField endpointDef, vecField memoryMapping, keyMapField pinnedCap,
    keyMapField dataDesc, optionField keyField, vecField keyField, vecField keyField,
    view (fun bytes => .bytes bytes) (decodeVec (uint 1).toDecode)]

def image : Decode Value := structField imageFields

end Jar.Cap
